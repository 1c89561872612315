import Mathlib.Data.List.Induction
import Mathlib.Data.Nat.Init
import Mathlib.Logic.Function.Basic
import Mathlib.Tactic.Common

/-!
# Interrupts

`arch/x86/isr.c`: the table of the handlers, and the two C functions that the stubs call. Handlers
are registered in one table of 256, in which the requests of the interrupt controllers come 32
places behind the exceptions of the processor. The functions take the address of a frame, read the
number of the interrupt in it, and hand the address on to the handler in that place. For an
exception `isr_handler` does not: it prints what it is and halts before it looks at the table.

The functions are given the memory and an address, any address: whether it is that of the frame is
for the stubs to say. So the number may be any word, and behind the end of the table, where the
language gives a read no meaning, the outcome is `outside`. What a handler does is not modelled, it
is known by its address; zero stands for no handler, as in the code.

## Main results

* `interruptHandlers_eq` — the table has what was registered last
* `irqRegisterHandler_of_vector` — a handler that no vector finds

## Scope

The memory is words by their addresses, without paging: a read never faults. What is printed is kept
as the text of the outcome, the number in it in decimal.
-/

namespace Rexus

/-- `registers_t`. -/
structure Registers where
  ds : UInt32
  edi : UInt32
  esi : UInt32
  ebp : UInt32
  esp : UInt32
  ebx : UInt32
  edx : UInt32
  ecx : UInt32
  eax : UInt32
  intNo : UInt32
  errCode : UInt32
  eip : UInt32
  cs : UInt32
  eflags : UInt32
  useresp : UInt32
  ss : UInt32

/-- `registers_t` at an address. -/
def frameAt (m : UInt32 → UInt32) (a : UInt32) : Registers where
  ds := m a
  edi := m (a + 4)
  esi := m (a + 8)
  ebp := m (a + 12)
  esp := m (a + 16)
  ebx := m (a + 20)
  edx := m (a + 24)
  ecx := m (a + 28)
  eax := m (a + 32)
  intNo := m (a + 36)
  errCode := m (a + 40)
  eip := m (a + 44)
  cs := m (a + 48)
  eflags := m (a + 52)
  useresp := m (a + 56)
  ss := m (a + 60)

/-- `interrupt_handlers`: addresses, or zero. -/
abbrev InterruptHandlers : Type := ℕ → ℕ

/-- `exception_messages`. -/
def exceptionMessages : List String :=
  ["Division By Zero", "Debug", "Non Maskable Interrupt", "Breakpoint", "Into Detected Overflow",
    "Out of Bounds", "Invalid Opcode", "No Coprocessor", "Double Fault",
    "Coprocessor Segment Overrun", "Bad TSS", "Segment Not Present", "Stack Fault",
    "General Protection Fault", "Page Fault", "Unknown Interrupt", "Coprocessor Fault",
    "Alignment Check", "Machine Check", "Reserved", "Reserved", "Reserved", "Reserved", "Reserved",
    "Reserved", "Reserved", "Reserved", "Reserved", "Reserved", "Reserved", "Reserved", "Reserved"]

/-- How a function of `isr.c` ends. What a handler does is not part of it: the functions call it
with the address they were given, and that is all they do with it. -/
inductive IsrOutcome
  /-- It has called this function with this address. -/
  | called (handler : ℕ) (regs : UInt32)
  /-- It has printed this and never returns. -/
  | halted (text : String)
  /-- It has printed this and returns. -/
  | unhandled (text : String)
  /-- It returns. -/
  | ignored
  /-- It has read behind the table, and anything may happen. -/
  | outside

/-- `isr_init`. -/
def isrInit : InterruptHandlers := fun _ => 0

/-- `isr_register_handler`: the place in the table is the number itself, so any vector can be given
a handler. -/
def isrRegisterHandler (handlers : InterruptHandlers) (n : UInt8) (handler : ℕ) :
    InterruptHandlers :=
  Function.update handlers n.toNat handler

/-- `irq_register_handler`: the place in the table is the number and 32. The source takes the number
of a line; its callers give the vector. -/
def irqRegisterHandler (handlers : InterruptHandlers) (n : UInt8) (handler : ℕ) :
    InterruptHandlers :=
  isrRegisterHandler handlers (n + 32) handler

/-- `isr_handler`. The registers are read at the address it is given, whatever lies there; for a
number below 32 the function prints the exception and never returns. -/
def isrHandler (handlers : InterruptHandlers) (mem : UInt32 → UInt32) (regs : UInt32) :
    IsrOutcome :=
  let intNo := (frameAt mem regs).intNo.toNat
  if intNo < 32 then
    .halted ("EXCEPTION: " ++ exceptionMessages.getD intNo "" ++ " (" ++ toString intNo ++ ")\n" ++
      "System halted.\n")
  else if 256 ≤ intNo then .outside
  else if handlers intNo ≠ 0 then .called (handlers intNo) regs
  else .unhandled ("Unhandled interrupt: " ++ toString intNo ++ "\n")

/-- `irq_handler`, with the ports it writes and what it writes there. -/
def irqHandler (handlers : InterruptHandlers) (mem : UInt32 → UInt32) (regs : UInt32) :
    List (UInt16 × UInt8) × IsrOutcome :=
  let intNo := (frameAt mem regs).intNo.toNat
  let eoi := (if 40 ≤ intNo then [(0xA0, 0x20)] else []) ++ [(0x20, 0x20)]
  (eoi,
    if 256 ≤ intNo then .outside
    else if handlers intNo ≠ 0 then .called (handlers intNo) regs
    else .ignored)

/-! ### Registering -/

/-- A call that registers a handler, with the number its caller gives. Any number of eight bits is
taken, and a null handler unregisters. -/
inductive RegisterCall
  | isr (n : UInt8) (handler : ℕ)
  | irq (n : UInt8) (handler : ℕ)

namespace RegisterCall

/-- The vector a handler is registered for. -/
def vector : RegisterCall → ℕ
  | isr n _ => n.toNat
  | irq n _ => n.toNat + 32

def handler : RegisterCall → ℕ
  | isr _ handler => handler
  | irq _ handler => handler

/-- What the call does to the table. -/
def run (handlers : InterruptHandlers) : RegisterCall → InterruptHandlers
  | isr n handler => isrRegisterHandler handlers n handler
  | irq n handler => irqRegisterHandler handlers n handler

end RegisterCall

/-- The table after these calls. -/
def interruptHandlers (calls : List RegisterCall) : InterruptHandlers :=
  calls.foldl RegisterCall.run isrInit

/-- The handler registered last for a vector; zero if there is none. -/
def registeredLast (calls : List RegisterCall) (v : ℕ) : ℕ :=
  ((calls.reverse.find? fun call => call.vector == v).map RegisterCall.handler).getD 0

theorem registeredLast_concat (calls : List RegisterCall) (call : RegisterCall) (v : ℕ) :
    registeredLast (calls ++ [call]) v =
      if call.vector = v then call.handler else registeredLast calls v := by
  rw [registeredLast, List.reverse_concat, List.find?_cons]
  by_cases h : call.vector = v
  · rw [beq_iff_eq.mpr h, if_pos h]
    rfl
  · rw [beq_eq_false_iff_ne.mpr h, if_neg h]
    rfl

/-- From 32 on a call changes the place of its vector; a number of a request that is too high comes
round to the exceptions. -/
theorem RegisterCall.run_apply (handlers : InterruptHandlers) (call : RegisterCall) {v : ℕ}
    (hv : 32 ≤ v) (hlt : v < 256) :
    call.run handlers v = if call.vector = v then call.handler else handlers v := by
  cases call with
  | isr n handler =>
    rw [run, isrRegisterHandler, Function.update_apply, vector]
    simp only [eq_comm]
    rfl
  | irq n handler =>
    have hplace : v = (n + 32).toNat ↔ n.toNat + 32 = v := by
      have hn := n.toNat_lt
      rw [UInt8.toNat_add, show (32 : UInt8).toNat = 32 from rfl]
      omega
    rw [run, irqRegisterHandler, isrRegisterHandler, Function.update_apply, vector]
    simp only [hplace]
    rfl

theorem interruptHandlers_eq (calls : List RegisterCall) {v : ℕ} (hv : 32 ≤ v) (hlt : v < 256) :
    interruptHandlers calls v = registeredLast calls v := by
  induction calls using List.reverseRecOn with
  | nil => rfl
  | append_singleton calls call ih =>
    rw [interruptHandlers, List.foldl_append, List.foldl_cons, List.foldl_nil, ← interruptHandlers,
      call.run_apply _ hv hlt, ih, registeredLast_concat]

/-- The numbers `IRQ0` to `IRQ15` that the callers of `irq_register_handler` give it are vectors
already, and it registers their handlers where no vector below 64 finds them. -/
theorem irqRegisterHandler_of_vector (handlers : InterruptHandlers) {n : UInt8} (handler : ℕ)
    (hn : 32 ≤ n.toNat) (hlt : n.toNat < 224) {v : ℕ} (hv : v < 64) :
    irqRegisterHandler handlers n handler v = handlers v := by
  refine Function.update_of_ne ?_ handler handlers
  rw [UInt8.toNat_add, show (32 : UInt8).toNat = 32 from rfl]
  omega

end Rexus
