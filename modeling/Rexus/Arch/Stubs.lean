import Mathlib.Logic.Function.Basic
import Rexus.Arch.Isr
import Rexus.Lib.BitField
import Rexus.Lib.WordStack

/-!
# From the gate to the handler and back

`arch/x86/idt.c` and `arch/x86/isr_stubs.asm`. The processor looks up a vector in the table, saves
what it was doing on the stack, for some exceptions with an error code, and goes on at the address
in the gate. There a stub saves the other registers, calls a C function, and takes everything back.

The instructions are those of the stubs, for a processor that stays in the kernel, so that an
interrupt does not change the stack. What the C function does is anything that returns and leaves
the frame as it was.

## Main results

* `idtInit_gate` — which gates are present, and where they go
* `serve_eq` — what the handler finds, and what the interrupted code finds afterwards
* `serve_argument` — the argument that the handler is not given

## Scope

Memory is words at 32-bit addresses, as in `Lib/WordStack.lean`, and nothing faults: a stack that
runs into something else overwrites it. The stack is wherever the interrupted code has left it, at
any address. Privilege changes, tasks and nested interrupts are left out; the gates are interrupt
gates, so the C function is entered with interrupts off, and an exception while it runs is not
modelled.

Of a C function it is asked that it returns to its caller and leaves the frame above its return
address, fourteen words; its registers do not matter, since the stub takes them all back. What it is
given is a matter of its own: the common stubs push nothing before the call, so the word where a C
function looks for its argument is the one that the stub has saved last. `Rexus.Arch.Dispatch` goes
on from there.
-/

namespace Rexus

open WordStack

/-! ### The table -/

/-- `idt_entry_t`. -/
structure IdtEntry where
  baseLow : UInt16
  selector : UInt16
  always0 : UInt8
  flags : UInt8
  baseHigh : UInt16

/-- `idt_entries`. -/
abbrev IdtEntries : Type := ℕ → IdtEntry

/-- The fields as `idt_set_gate` writes them. -/
def idtEntry (base : UInt32) (selector : UInt16) (flags : UInt8) : IdtEntry where
  baseLow := (base &&& 0xFFFF).toUInt16
  baseHigh := ((base >>> 16) &&& 0xFFFF).toUInt16
  selector := selector
  always0 := 0
  flags := flags

/-- `idt_set_gate`: one entry of the table is written, whatever is there. The address is cut in two
halves, and the flags are taken as they are. -/
def idtSetGate (idt : IdtEntries) (num : UInt8) (base : UInt32) (selector : UInt16)
    (flags : UInt8) : IdtEntries :=
  Function.update idt num.toNat (idtEntry base selector flags)

/-- `idt_init`, up to the instruction that loads the register; `stub` has the addresses of `isr0` to
`isr31`, and from 32 on those of `irq0` to `irq15`. -/
def idtInit (stub : ℕ → UInt32) : IdtEntries :=
  (List.range 48).foldl (fun idt n => idtSetGate idt (UInt8.ofNat n) (stub n) 0x08 0x8E)
    fun _ => ⟨0, 0, 0, 0, 0⟩

namespace IdtEntry

/-- The address, as the processor reads it. -/
def offset (e : IdtEntry) : BitVec 32 := e.baseHigh.toBitVec ++ e.baseLow.toBitVec

/-- Is it an interrupt gate that is present? -/
def IsInterruptGate (e : IdtEntry) : Prop :=
  e.flags.toBitVec.getLsbD 7 = true ∧ e.flags.toBitVec.extractLsb' 0 5 = 0b01110#5

instance (e : IdtEntry) : Decidable e.IsInterruptGate := inferInstanceAs (Decidable (_ ∧ _))

end IdtEntry

/-! ### The processor -/

/-- A processor that runs in the kernel, with the words of its memory. -/
structure Cpu where
  eax : UInt32
  ecx : UInt32
  edx : UInt32
  ebx : UInt32
  esp : UInt32
  ebp : UInt32
  esi : UInt32
  edi : UInt32
  ds : UInt16
  es : UInt16
  fs : UInt16
  gs : UInt16
  eip : UInt32
  cs : UInt16
  eflags : UInt32
  mem : UInt32 → UInt32

/-- The instructions of the stubs; `mov ds, ax` stands for all four of its kind. -/
inductive Instr
  | cli
  | pushByte (n : UInt8)
  | pusha
  | movAxDs
  | pushEax
  | movAx (n : UInt16)
  | movDsAx
  | movEsAx
  | movFsAx
  | movGsAx
  | callHandler
  | popEax
  | popa
  | addEsp (n : UInt32)
  | iret

namespace Cpu

/-- A word is pushed. -/
def push (c : Cpu) (w : UInt32) : Cpu :=
  { c with esp := c.esp - 4, mem := Function.update c.mem (c.esp - 4) w }

/-- Words are pushed, the first one first. -/
def pushAll (c : Cpu) (ws : List UInt32) : Cpu := ws.foldl push c

/-- The lower half of `eax`. -/
def ax (c : Cpu) : UInt16 := c.eax.toUInt16

/-- A word with its lower half replaced. -/
def withLow (w : UInt32) (low : UInt16) : UInt32 := (w &&& 0xFFFF0000) ||| low.toUInt32

/-- One instruction; `handler` is what the C function does, from the first of its instructions
behind the call until it has returned, and `back` the address that is pushed. -/
def exec (handler : Cpu → Cpu) (back : UInt32) (c : Cpu) : Instr → Cpu
  | .cli => { c with eflags := c.eflags &&& ~~~0x200 }
  | .pushByte n => c.push n.toInt8.toInt32.toUInt32
  | .pusha => c.pushAll [c.eax, c.ecx, c.edx, c.ebx, c.esp, c.ebp, c.esi, c.edi]
  | .movAxDs => { c with eax := withLow c.eax c.ds }
  | .pushEax => c.push c.eax
  | .movAx n => { c with eax := withLow c.eax n }
  | .movDsAx => { c with ds := c.ax }
  | .movEsAx => { c with es := c.ax }
  | .movFsAx => { c with fs := c.ax }
  | .movGsAx => { c with gs := c.ax }
  | .callHandler => handler (c.push back)
  | .popEax => { c with eax := c.mem c.esp, esp := c.esp + 4 }
  | .popa =>
    let a := c.esp
    { c with
      edi := c.mem a
      esi := c.mem (a + 4)
      ebp := c.mem (a + 4 + 4)
      ebx := c.mem (a + 4 + 4 + 4 + 4)
      edx := c.mem (a + 4 + 4 + 4 + 4 + 4)
      ecx := c.mem (a + 4 + 4 + 4 + 4 + 4 + 4)
      eax := c.mem (a + 4 + 4 + 4 + 4 + 4 + 4 + 4)
      esp := a + 4 + 4 + 4 + 4 + 4 + 4 + 4 + 4 }
  | .addEsp n => { c with esp := c.esp + n }
  | .iret =>
    { c with
      eip := c.mem c.esp
      cs := (c.mem (c.esp + 4)).toUInt16
      eflags := c.mem (c.esp + 4 + 4)
      esp := c.esp + 4 + 4 + 4 }

/-- These instructions, one after the other. -/
def run (handler : Cpu → Cpu) (back : UInt32) (code : List Instr) (c : Cpu) : Cpu :=
  code.foldl (exec handler back) c

end Cpu

/-- Does the processor push an error code? The later exceptions that have one come from features
which the kernel does not turn on. -/
def pushesErrorCode (v : ℕ) : Bool := v == 8 || (10 ≤ v && v ≤ 14) || v == 17

/-- The processor delivers a vector: `eflags`, `cs` and `eip` are pushed, and the error code if
there is one, and the interrupt flag and the trap flag are cleared. Without a gate there is another
exception. -/
def deliver (idt : IdtEntries) (v : ℕ) (err : UInt32) (c : Cpu) : Option Cpu :=
  let gate := idt v
  if gate.IsInterruptGate then
    let c := c.pushAll ([c.eflags, c.cs.toUInt32, c.eip] ++ if pushesErrorCode v then [err] else [])
    some { c with
      eip := UInt32.ofBitVec gate.offset
      cs := gate.selector
      eflags := c.eflags &&& ~~~0x300 }
  else none

/-! ### The stubs -/

/-- `isr_common_stub` and `irq_common_stub`, but for the function that is called, up to the call. -/
def commonStubEnter : List Instr :=
  [.pusha, .movAxDs, .pushEax, .movAx 0x10, .movDsAx, .movEsAx, .movFsAx, .movGsAx]

/-- And behind it. -/
def commonStubLeave : List Instr :=
  [.popEax, .movDsAx, .movEsAx, .movFsAx, .movGsAx, .popa, .addEsp 8, .iret]

/-- The stubs that leave the error code to the processor. -/
def stubLeavesErrorCode (v : ℕ) : Bool := [8, 10, 11, 12, 13, 14, 17].contains v

/-- `isr0` to `isr31`, and from 32 on `irq0` to `irq15`, up to the jump. -/
def stubStart (v : ℕ) : List Instr :=
  .cli :: ((if stubLeavesErrorCode v then [] else [.pushByte 0]) ++ [.pushByte (UInt8.ofNat v)])

/-- Up to the call. -/
def stubEnter (v : ℕ) : List Instr := stubStart v ++ commonStubEnter

/-- And as a whole. -/
def stubCode (v : ℕ) : List Instr := stubEnter v ++ .callHandler :: commonStubLeave

/-- The state in which the C function is entered. -/
def handlerEntry (idt : IdtEntries) (back : UInt32) (v : ℕ) (err : UInt32) (c : Cpu) : Option Cpu :=
  (deliver idt v err c).map fun c => (Cpu.run id back (stubEnter v) c).push back

/-- What the C function takes for its argument: the word behind its return address. -/
def Cpu.argument (entry : Cpu) : UInt32 := entry.mem (entry.esp + 4)

/-- A vector is served: it is delivered, and the code at the address in its gate is run. -/
def serve (idt : IdtEntries) (code : UInt32 → List Instr) (handler : Cpu → Cpu) (back : UInt32)
    (v : ℕ) (err : UInt32) (c : Cpu) : Option Cpu :=
  (deliver idt v err c).map fun c => Cpu.run handler back (code c.eip) c

/-- A C function that returns to its caller and leaves its caller's frame, fourteen words. -/
def KeepsFrame (handler : Cpu → Cpu) : Prop :=
  ∀ c ws, ws.length = 14 → StackAt c.mem (c.esp + 4) ws →
    (handler c).esp = c.esp + 4 ∧ StackAt (handler c).mem (c.esp + 4) ws

/-- What the frame says when `v` has interrupted this: what `isr.c` is to find. -/
def interruptFrame (v : ℕ) (err : UInt32) (c : Cpu) : Registers where
  ds := Cpu.withLow c.eax c.ds
  edi := c.edi
  esi := c.esi
  ebp := c.ebp
  esp := c.esp - 20
  ebx := c.ebx
  edx := c.edx
  ecx := c.ecx
  eax := c.eax
  intNo := UInt32.ofNat v
  errCode := if pushesErrorCode v then err else 0
  eip := c.eip
  cs := c.cs.toUInt32
  eflags := c.eflags
  useresp := c.mem c.esp
  ss := c.mem (c.esp + 4)

/-- The C function is entered in kernel segments, with interrupts off and the frame above its return
address. -/
structure Enters (v : ℕ) (err : UInt32) (c entry : Cpu) : Prop where
  frame : frameAt entry.mem (entry.esp + 4) = interruptFrame v err c
  esp : entry.esp = c.esp - 60
  segments : entry.ds = 0x10 ∧ entry.es = 0x10 ∧ entry.fs = 0x10 ∧ entry.gs = 0x10
  interruptsOff : entry.eflags &&& 0x200 = 0

/-! ### The gates -/

theorem offset_idtEntry (base : UInt32) (selector : UInt16) (flags : UInt8) :
    (idtEntry base selector flags).offset = base.toBitVec := by
  have hlow : (idtEntry base selector flags).baseLow.toBitVec = base.toBitVec.extractLsb' 0 16 :=
    BitField.setWidth_ushiftRight_and rfl base.toBitVec 0
  have hhigh : (idtEntry base selector flags).baseHigh.toBitVec =
      base.toBitVec.extractLsb' 16 16 := BitField.setWidth_ushiftRight_and rfl base.toBitVec 16
  rw [IdtEntry.offset, hlow, hhigh,
    BitVec.extractLsb'_append_extractLsb'_eq_extractLsb' (by decide : 16 = 0 + 16)]
  exact BitVec.extractLsb'_eq_self

/-- The gates up to a vector are set. -/
theorem foldl_idtSetGate (stub : ℕ → UInt32) {n : ℕ} (hn : n ≤ 256) (v : ℕ) :
    (List.range n).foldl (fun idt n => idtSetGate idt (UInt8.ofNat n) (stub n) 0x08 0x8E)
        (fun _ => ⟨0, 0, 0, 0, 0⟩) v =
      if v < n then idtEntry (stub v) 0x08 0x8E else ⟨0, 0, 0, 0, 0⟩ := by
  induction n with
  | zero => simp
  | succ n ih =>
    have hplace : (UInt8.ofNat n).toNat = n := UInt8.toNat_ofNat_of_lt' (Nat.lt_of_succ_le hn)
    rw [List.range_succ, List.foldl_append, List.foldl_cons, List.foldl_nil, idtSetGate,
      Function.update_apply, hplace, ih (by omega)]
    rcases Nat.lt_trichotomy v n with hlt | rfl | hgt
    · rw [if_neg (by omega), if_pos hlt, if_pos (by omega)]
    · rw [if_pos rfl, if_pos (by omega)]
    · rw [if_neg (by omega), if_neg (by omega), if_neg (by omega)]

/-- **The first 48 gates are present**, each with the address of its stub, and no other is. -/
theorem idtInit_gate (stub : ℕ → UInt32) (v : ℕ) :
    ((idtInit stub v).IsInterruptGate ↔ v < 48) ∧
      (v < 48 → (idtInit stub v).offset = (stub v).toBitVec ∧
        (idtInit stub v).selector = 0x08) := by
  rw [idtInit, foldl_idtSetGate stub (by decide)]
  split_ifs with hv
  · have hflags : (0x8E : UInt8).toBitVec.getLsbD 7 = true ∧
        (0x8E : UInt8).toBitVec.extractLsb' 0 5 = 0b01110#5 := by decide
    exact ⟨iff_of_true hflags hv, fun _ => ⟨offset_idtEntry .., rfl⟩⟩
  · exact ⟨iff_of_false (by decide) hv, fun h => absurd h hv⟩

/-! ### The stack -/

namespace Cpu

variable {c : Cpu} {ws : List UInt32} {handler : Cpu → Cpu} {back : UInt32}

theorem pushAll_eq (c : Cpu) (ws : List UInt32) : c.pushAll ws = { c with
    esp := c.esp - UInt32.ofNat (4 * ws.length)
    mem := (c.pushAll ws).mem } := by
  induction ws generalizing c with
  | nil =>
    have hesp : c.esp - UInt32.ofNat (4 * 0) = c.esp := UInt32.sub_zero _
    rw [List.length_nil, hesp]
    rfl
  | cons w ws ih =>
    have hesp : (c.push w).esp - UInt32.ofNat (4 * ws.length) =
        c.esp - UInt32.ofNat (4 * (ws.length + 1)) := by
      have hword : UInt32.ofNat (4 * (ws.length + 1)) = 4 + UInt32.ofNat (4 * ws.length) := by
        rw [Nat.mul_succ, Nat.add_comm, UInt32.ofNat_add]
        rfl
      rw [hword, push, UInt32.sub_eq_add_neg, UInt32.sub_eq_add_neg, UInt32.sub_eq_add_neg,
        UInt32.neg_add, UInt32.sub_eq_add_neg, UInt32.add_assoc]
    have hpush : c.pushAll (w :: ws) = (c.push w).pushAll ws := rfl
    rw [hpush, ih, hesp]
    rfl

/-- What is pushed lies on the stack, the last word first. -/
theorem pushAll_stack (h : StackAt c.mem c.esp ws) (new : List UInt32)
    (hlen : ws.length + new.length ≤ 2 ^ 30) :
    StackAt (c.pushAll new).mem (c.pushAll new).esp (new.reverse ++ ws) := by
  induction new generalizing c ws with
  | nil => exact h
  | cons w new ih =>
    rw [List.length_cons] at hlen
    have hpush : StackAt (c.push w).mem (c.push w).esp (w :: ws) := h.push (by omega) w
    have hlen' : (w :: ws).length + new.length ≤ 2 ^ 30 := by
      rw [List.length_cons]
      omega
    rw [List.reverse_cons, List.append_assoc]
    exact ih hpush hlen'

theorem run_append (code code' : List Instr) :
    run handler back (code ++ code') c = run handler back code' (run handler back code c) :=
  List.foldl_append

theorem run_callHandler (code : List Instr) :
    run handler back (.callHandler :: code) c = run handler back code (handler (c.push back)) := rfl

theorem toUInt16_withLow (w : UInt32) (low : UInt16) : (withLow w low).toUInt16 = low := by
  rw [← UInt16.toBitVec_inj]
  ext i hi
  simp [withLow]

/-- The common part up to the call. -/
theorem run_commonStubEnter (c : Cpu) : run handler back commonStubEnter c =
    { c.pushAll [c.eax, c.ecx, c.edx, c.ebx, c.esp, c.ebp, c.esi, c.edi, withLow c.eax c.ds] with
      eax := withLow (withLow c.eax c.ds) 0x10
      ds := (withLow (withLow c.eax c.ds) 0x10).toUInt16
      es := (withLow (withLow c.eax c.ds) 0x10).toUInt16
      fs := (withLow (withLow c.eax c.ds) 0x10).toUInt16
      gs := (withLow (withLow c.eax c.ds) 0x10).toUInt16 } := by
  dsimp only [run, exec, pushAll, List.foldl, push, ax, commonStubEnter]

/-- The common part behind the call takes fourteen words from the stack. -/
theorem run_commonStubLeave
    {dsw edi esi ebp esp ebx edx ecx eax intNo errCode eip cs eflags : UInt32}
    (h : StackAt c.mem c.esp
      [dsw, edi, esi, ebp, esp, ebx, edx, ecx, eax, intNo, errCode, eip, cs, eflags]) :
    run handler back commonStubLeave c =
      { eax, ecx, edx, ebx, ebp, esi, edi, eip, eflags
        esp := c.esp + 56
        ds := dsw.toUInt16
        es := dsw.toUInt16
        fs := dsw.toUInt16
        gs := dsw.toUInt16
        cs := cs.toUInt16
        mem := c.mem } := by
  have hskip (a : UInt32) : a + 8 = a + 4 + 4 := (UInt32.add_assoc a 4 4).symm
  have hesp : c.esp + 56 =
      c.esp + 4 + 4 + 4 + 4 + 4 + 4 + 4 + 4 + 4 + 4 + 4 + 4 + 4 + 4 := by
    simp only [UInt32.add_assoc, UInt32.reduceAdd]
  obtain ⟨hds, hedi, hesi, hebp, -, hebx, hedx, hecx, heax, -, -, heip, hcs, heflags, -⟩ := h
  dsimp only [run, exec, List.foldl, ax, commonStubLeave]
  rw [hskip, hds, hedi, hesi, hebp, hebx, hedx, hecx, heax, heip, hcs, heflags, hesp]

end Cpu

/-- The words of a frame. -/
theorem frameAt_eq {m : UInt32 → UInt32} {a : UInt32}
    {ds edi esi ebp esp ebx edx ecx eax intNo errCode eip cs eflags useresp ss : UInt32}
    (h : StackAt m a [ds, edi, esi, ebp, esp, ebx, edx, ecx, eax, intNo, errCode, eip, cs, eflags,
      useresp, ss]) :
    frameAt m a = ⟨ds, edi, esi, ebp, esp, ebx, edx, ecx, eax, intNo, errCode, eip, cs, eflags,
      useresp, ss⟩ := by
  simp only [stackAt_cons, UInt32.add_assoc, UInt32.reduceAdd] at h
  simp [frameAt, h]

/-- What has been pushed when the C function is called, the first word first. -/
def savedWords (v : ℕ) (err : UInt32) (c : Cpu) : List UInt32 :=
  [c.eflags, c.cs.toUInt32, c.eip, if pushesErrorCode v then err else 0, UInt32.ofNat v, c.eax,
    c.ecx, c.edx, c.ebx, c.esp - 20, c.ebp, c.esi, c.edi, Cpu.withLow c.eax c.ds]

/-- The stub leaves the error code to the processor exactly where the processor pushes one. -/
theorem stubLeavesErrorCode_eq : ∀ v < 48, stubLeavesErrorCode v = pushesErrorCode v := by decide

theorem pushByte_vector : ∀ v < 48,
    (UInt8.ofNat v).toInt8.toInt32.toUInt32 = UInt32.ofNat v := by decide

/-- From the delivery to the jump. -/
theorem run_stubStart (stub : ℕ → UInt32) (handler : Cpu → Cpu) (back : UInt32) {v : ℕ}
    (hv : v < 48) (err : UInt32) (c : Cpu) :
    ∃ d, deliver (idtInit stub) v err c = some d ∧ d.eip = stub v ∧
      Cpu.run handler back (stubStart v) d =
        { c.pushAll [c.eflags, c.cs.toUInt32, c.eip, if pushesErrorCode v then err else 0,
            UInt32.ofNat v] with
          eip := stub v
          cs := 0x08
          eflags := c.eflags &&& ~~~0x300 &&& ~~~0x200 } := by
  obtain ⟨hgate, haddress⟩ := idtInit_gate stub v
  obtain ⟨hoffset, hselector⟩ := haddress hv
  have hzero : (0 : UInt8).toInt8.toInt32.toUInt32 = 0 := by decide
  rw [deliver, if_pos (hgate.mpr hv), hoffset, hselector, stubStart, stubLeavesErrorCode_eq v hv]
  refine ⟨_, rfl, rfl, ?_⟩
  cases hpushes : pushesErrorCode v with
  | true =>
    simp only [if_true]
    dsimp only [Cpu.run, List.foldl, Cpu.exec, Cpu.pushAll, Cpu.push, List.cons_append,
      List.nil_append]
    rw [pushByte_vector v hv]
  | false =>
    simp only [Bool.false_eq_true, if_false]
    dsimp only [Cpu.run, List.foldl, Cpu.exec, Cpu.pushAll, Cpu.push, List.cons_append,
      List.nil_append]
    rw [pushByte_vector v hv, hzero]

/-- From the delivery to the call. -/
theorem run_stubEnter (stub : ℕ → UInt32) (handler : Cpu → Cpu) (back : UInt32) {v : ℕ}
    (hv : v < 48) (err : UInt32) (c : Cpu) :
    ∃ d, deliver (idtInit stub) v err c = some d ∧ d.eip = stub v ∧
      Cpu.run handler back (stubEnter v) d = { c.pushAll (savedWords v err c) with
        eax := Cpu.withLow (Cpu.withLow c.eax c.ds) 0x10
        ds := 0x10
        es := 0x10
        fs := 0x10
        gs := 0x10
        eip := stub v
        cs := 0x08
        eflags := c.eflags &&& ~~~0x300 &&& ~~~0x200 } := by
  obtain ⟨d, hdeliver, heip, hstart⟩ := run_stubStart stub handler back hv err c
  have hesp : c.esp - 20 = c.esp - 4 - 4 - 4 - 4 - 4 := by
    simp only [UInt32.sub_eq_add_neg, UInt32.add_assoc]
    rfl
  refine ⟨d, hdeliver, heip, ?_⟩
  rw [stubEnter, Cpu.run_append, hstart, Cpu.run_commonStubEnter, Cpu.toUInt16_withLow, savedWords,
    hesp]
  dsimp only [List.foldl, Cpu.pushAll, Cpu.push]

/-- The frame of the C function, with the two words above it. -/
theorem stackAt_savedWords (v : ℕ) (err back : UInt32) (c : Cpu) :
    StackAt (c.pushAll (savedWords v err c ++ [back])).mem (c.esp - 60)
      (back :: ((savedWords v err c).reverse ++ [c.mem c.esp, c.mem (c.esp + 4)])) := by
  have hstack : StackAt c.mem c.esp [c.mem c.esp, c.mem (c.esp + 4)] := ⟨rfl, rfl, trivial⟩
  have hpush := Cpu.pushAll_stack hstack (savedWords v err c ++ [back])
    (by simp [savedWords])
  have hesp : (c.pushAll (savedWords v err c ++ [back])).esp = c.esp - 60 := by
    rw [Cpu.pushAll_eq]
    rfl
  rw [hesp, List.reverse_append] at hpush
  exact hpush

/-- What the handler finds. -/
theorem handlerEntry_eq (stub : ℕ → UInt32) (back : UInt32) {v : ℕ} (hv : v < 48) (err : UInt32)
    (c : Cpu) :
    ∃ entry, handlerEntry (idtInit stub) back v err c = some entry ∧ Enters v err c entry ∧
      StackAt entry.mem entry.esp
        (back :: ((savedWords v err c).reverse ++ [c.mem c.esp, c.mem (c.esp + 4)])) := by
  obtain ⟨d, hdeliver, -, hrun⟩ := run_stubEnter stub id back hv err c
  have hesp : (c.pushAll (savedWords v err c)).esp - 4 = c.esp - 60 := by
    rw [Cpu.pushAll_eq]
    show c.esp - 56 - 4 = c.esp - 60
    simp only [UInt32.sub_eq_add_neg, UInt32.add_assoc]
    rfl
  have hmem : Function.update (c.pushAll (savedWords v err c)).mem (c.esp - 60) back =
      (c.pushAll (savedWords v err c ++ [back])).mem := by
    rw [← hesp, Cpu.pushAll, Cpu.pushAll, List.foldl_append]
    rfl
  have hstack := stackAt_savedWords v err back c
  rw [handlerEntry, hdeliver, Option.map_some, hrun, Cpu.push]
  dsimp only
  rw [hesp, hmem]
  refine ⟨_, rfl, ⟨?_, rfl, ⟨rfl, rfl, rfl, rfl⟩, ?_⟩, hstack⟩
  · exact frameAt_eq hstack.2
  · rw [UInt32.and_assoc]
    exact (congrArg _ (by decide)).trans (UInt32.and_zero)

/-- **A stub is transparent**: whatever is interrupted, the C function finds a frame that says what,
and once it has returned everything is as it was, but for the memory, and three segment registers
that are taken from `ds`. -/
theorem serve_eq (stub : ℕ → UInt32) (code : UInt32 → List Instr)
    (hcode : ∀ v < 48, code (stub v) = stubCode v) (back : UInt32) {v : ℕ} (hv : v < 48)
    (err : UInt32) (c : Cpu) :
    ∃ entry, handlerEntry (idtInit stub) back v err c = some entry ∧ Enters v err c entry ∧
      ∀ handler, KeepsFrame handler →
        serve (idtInit stub) code handler back v err c = some { c with
          es := c.ds
          fs := c.ds
          gs := c.ds
          mem := (handler entry).mem } := by
  obtain ⟨entry, hentry, henters, hstack⟩ := handlerEntry_eq stub back hv err c
  refine ⟨entry, hentry, henters, fun handler hkeeps => ?_⟩
  obtain ⟨d, hdeliver, heip, hrun⟩ := run_stubEnter stub handler back hv err c
  obtain ⟨d', hdeliver', -, hrun'⟩ := run_stubEnter stub id back hv err c
  obtain rfl := Option.some_inj.mp (hdeliver.symm.trans hdeliver')
  rw [handlerEntry, hdeliver, Option.map_some, hrun', Option.some_inj] at hentry
  -- the fourteen words are still there when the function has returned
  obtain ⟨hesp, hwords⟩ := hkeeps entry (savedWords v err c).reverse rfl hstack.2.left
  have hback : (handler entry).esp + 56 = c.esp := by
    rw [hesp, henters.esp, UInt32.add_assoc]
    exact UInt32.sub_add_cancel c.esp 60
  rw [← hesp] at hwords
  rw [serve, hdeliver, Option.map_some, heip, hcode v hv, stubCode, Cpu.run_append,
    Cpu.run_callHandler, hrun, hentry, Cpu.run_commonStubLeave hwords, hback, Cpu.toUInt16_withLow,
    UInt16.toUInt16_toUInt32]

/-- A processor that waits for an interrupt. -/
def idleCpu : Cpu where
  eax := 0
  ecx := 0
  edx := 0
  ebx := 0
  esp := 0x8000
  ebp := 0
  esi := 0
  edi := 0
  ds := 0x10
  es := 0x10
  fs := 0x10
  gs := 0x10
  eip := 0x1000
  cs := 0x08
  eflags := 0x202
  mem := fun _ => 0

/-- The timer, with a function that returns at once. -/
theorem serve_eq_timer :
    ∃ entry, handlerEntry (idtInit UInt32.ofNat) 0 32 0 idleCpu = some entry ∧
      Enters 32 0 idleCpu entry ∧
      serve (idtInit UInt32.ofNat) (fun a => stubCode a.toNat)
        (fun c => { c with esp := c.esp + 4 }) 0 32 0 idleCpu =
          some { idleCpu with mem := entry.mem } := by
  obtain ⟨entry, hentry, henters, hserve⟩ := serve_eq UInt32.ofNat (fun a => stubCode a.toNat)
    (fun v hv => congrArg stubCode (UInt32.toNat_ofNat_of_lt' (Nat.lt_trans hv (by decide)))) 0
    (by decide : 32 < 48) 0 idleCpu
  exact ⟨entry, hentry, henters,
    hserve (fun c => { c with esp := c.esp + 4 }) fun _ _ _ hstack => ⟨rfl, hstack⟩⟩

/-- The argument, and where the frame is. -/
theorem handlerEntry_argument (stub : ℕ → UInt32) (back : UInt32) {v : ℕ} (hv : v < 48)
    (err : UInt32) (c : Cpu) :
    ∃ entry, handlerEntry (idtInit stub) back v err c = some entry ∧ Enters v err c entry ∧
      entry.argument = Cpu.withLow c.eax c.ds ∧ entry.esp + 4 = c.esp - 56 := by
  obtain ⟨entry, hentry, henters, hstack⟩ := handlerEntry_eq stub back hv err c
  refine ⟨entry, hentry, henters, hstack.2.1, ?_⟩
  rw [henters.esp]
  simp only [UInt32.sub_eq_add_neg, UInt32.add_assoc]
  rfl

/-- **The argument is missing**: the stub does not push the address of the frame, so the function
takes the first word of the frame for it, which is what was in `ds` and in the upper half of `eax`.
-/
theorem serve_argument (stub : ℕ → UInt32) (back : UInt32) {v : ℕ} (hv : v < 48) (err : UInt32)
    (c : Cpu) :
    ∃ entry, handlerEntry (idtInit stub) back v err c = some entry ∧
      entry.mem (entry.esp + 4) = Cpu.withLow c.eax c.ds ∧
      (entry.mem (entry.esp + 4) = entry.esp + 4 ↔ Cpu.withLow c.eax c.ds = c.esp - 56) := by
  obtain ⟨entry, hentry, -, hargument, hframe⟩ := handlerEntry_argument stub back hv err c
  rw [Cpu.argument] at hargument
  refine ⟨entry, hentry, hargument, ?_⟩
  rw [hargument, hframe]

/-- In an idle processor it is sixteen. -/
theorem serve_argument_timer :
    ∃ entry, handlerEntry (idtInit UInt32.ofNat) 0 32 0 idleCpu = some entry ∧
      entry.mem (entry.esp + 4) = Cpu.withLow idleCpu.eax idleCpu.ds ∧
      (entry.mem (entry.esp + 4) = entry.esp + 4 ↔
        Cpu.withLow idleCpu.eax idleCpu.ds = idleCpu.esp - 56) :=
  serve_argument UInt32.ofNat 0 (by decide) 0 idleCpu

end Rexus
