import Mathlib.Data.List.Find
import Rexus.Arch.Dispatch
import Rexus.Lib.BitField
import Rexus.Lib.Run

/-!
# The interrupt controllers

`arch/x86/pic.c`, with the two controllers it writes to: the second one is behind line 2 of the
first. A controller has a request, a mask and a service register. Acknowledged, it moves its first
request that is not masked from the first to the last, where it holds back the later ones until the
end of the interrupt is signalled.

`irq_handler` signals it before it calls a handler, to both controllers if the number it reads in
its frame is 40 or more. It is called by the stub of the vector, as in `Rexus.Arch.Dispatch`, and so
it may read any number: the address it is given is no more than what was in `ds` and in the upper
half of `eax`. For a line of the first controller this does not matter, since the second has nothing
to end. For a line of the second it decides. If `irq_handler` tells the second controller, nothing
is held back between two interrupts, also when the request was gone before it was acknowledged, and
the controllers are no more than a set of requests. If it does not, the line stays in service.

## Main results

* `picRemap_eq` — the controllers are set up whatever they did before, and keep their masks
* `irq_run` — requests are delivered by their priority, each of them once, as long as the second
  controller is told of the end of its own; and when it is not, a line stays in service

## Scope

The controllers are modelled as far as `pic.c` and `irq_handler` use them: in the mode in which a
line is a request that is set and taken back, with fixed priorities and the end of an interrupt
signalled by a command; the other modes and commands are left out. An interrupt is one event, from
the request to what `irq_handler` has written: handlers run behind that, and no other interrupt
comes in between, since the gates turn interrupts off. An event has no result if a shift in
`pic_set_mask` or `pic_clear_mask` has none, if the line is none of a device, or if the vector has
no gate.
-/

namespace Rexus

open BitField Run

/-! ### One controller -/

/-- The registers of a controller, which of the words that initialize it comes next, and what was
said in the first of them. -/
structure Pic where
  irr : BitVec 8
  imr : BitVec 8
  isr : BitVec 8
  base : BitVec 8
  cascade : BitVec 8
  mode : BitVec 8
  expects : ℕ
  needsIcw4 : Bool
  single : Bool
  readsIsr : Bool

/-- The lowest bit that is set. -/
def lowestBit (r : BitVec 8) : Option ℕ := (List.range 8).find? r.getLsbD

namespace Pic

/-- A write to the command port: the first word of an initialization, a choice of what is read, or
the end of the interrupt. Other commands are not used. -/
def writeCommand (p : Pic) (v : BitVec 8) : Pic :=
  if v.getLsbD 4 then
    { p with
      irr := 0
      imr := 0
      isr := 0
      expects := 2
      needsIcw4 := v.getLsbD 0
      single := v.getLsbD 1
      readsIsr := false }
  else if v.getLsbD 3 then if v.getLsbD 1 then { p with readsIsr := v.getLsbD 0 } else p
  else if v.extractLsb' 5 3 = 0b001#3 then
    match lowestBit p.isr with
    | some i => { p with isr := p.isr &&& ~~~(1#8 <<< i) }
    | none => p
  else p

/-- A write to the data port: one of the other words of an initialization, or the mask. -/
def writeData (p : Pic) (v : BitVec 8) : Pic :=
  if p.expects = 2 then
    { p with
      base := v &&& 0xF8#8
      expects := if p.single then (if p.needsIcw4 then 4 else 0) else 3 }
  else if p.expects = 3 then
    { p with cascade := v, expects := if p.needsIcw4 then 4 else 0 }
  else if p.expects = 4 then { p with mode := v, expects := 0 }
  else { p with imr := v }

/-- The first of these requests that is neither masked nor held back. -/
def choose (p : Pic) (irr : BitVec 8) : Option ℕ :=
  match lowestBit (irr &&& ~~~p.imr), lowestBit p.isr with
  | some i, some j => if i < j then some i else none
  | some i, none => some i
  | none, _ => none

/-- A request is taken into service. -/
def serve (p : Pic) (i : ℕ) : Pic :=
  { p with irr := p.irr &&& ~~~(1#8 <<< i), isr := p.isr ||| 1#8 <<< i }

end Pic

/-! ### Both controllers -/

/-- The two controllers. -/
structure Pics where
  master : Pic
  slave : Pic

namespace Pics

/-- `outb`; other ports are none of the controllers'. -/
def outb (s : Pics) (port : UInt16) (value : UInt8) : Pics :=
  if port = 0x20 then { s with master := s.master.writeCommand value.toBitVec }
  else if port = 0x21 then { s with master := s.master.writeData value.toBitVec }
  else if port = 0xA0 then { s with slave := s.slave.writeCommand value.toBitVec }
  else if port = 0xA1 then { s with slave := s.slave.writeData value.toBitVec }
  else s

/-- `inb`. -/
def inb (s : Pics) (port : UInt16) : UInt8 :=
  let command (p : Pic) := UInt8.ofBitVec (if p.readsIsr then p.isr else p.irr)
  if port = 0x20 then command s.master
  else if port = 0x21 then UInt8.ofBitVec s.master.imr
  else if port = 0xA0 then command s.slave
  else if port = 0xA1 then UInt8.ofBitVec s.slave.imr
  else 0xFF

/-- `io_wait`. -/
def ioWait (s : Pics) : Pics := s.outb 0x80 0

/-- What the slave asks for. -/
def slaveChoice (s : Pics) : Option ℕ := s.slave.choose s.slave.irr

/-- What the master asks for: its line 2 is the slave's. -/
def masterChoice (s : Pics) : Option ℕ :=
  s.master.choose
    (if s.slaveChoice.isSome then s.master.irr ||| 1#8 <<< 2 else s.master.irr &&& ~~~(1#8 <<< 2))

/-- The processor acknowledges an interrupt, when these are the requests of the two controllers: the
vector, and the controllers. A controller that has none after all gives its last vector. -/
def acknowledge (s : Pics) (master slave : Option ℕ) : BitVec 8 × Pics :=
  match master with
  | none => (s.master.base + 7, s)
  | some i =>
    let s := { s with master := s.master.serve i }
    if i = 2 then
      match slave with
      | none => (s.slave.base + 7, s)
      | some j => (s.slave.base + BitVec.ofNat 8 j, { s with slave := s.slave.serve j })
    else (s.master.base + BitVec.ofNat 8 i, s)

end Pics

/-! ### The functions -/

/-- `pic_get_register`. -/
def picGetRegister (s : Pics) (command : UInt8) : UInt16 × Pics :=
  let s := (s.outb 0x20 command).outb 0xA0 command
  let a := s.inb 0x20
  let b := s.inb 0xA0
  (b.toUInt16 <<< 8 ||| a.toUInt16, s)

/-- `pic_get_irr`. -/
def picGetIrr (s : Pics) : UInt16 × Pics := picGetRegister s 0x0A

/-- `pic_get_isr`. -/
def picGetIsr (s : Pics) : UInt16 × Pics := picGetRegister s 0x0B

/-- `pic_remap`: both controllers get their four command words in the order of the source, and the
masks that were read before are written back. -/
def picRemap (s : Pics) (offset1 offset2 : UInt8) : Pics :=
  let mask1 := s.inb 0x21
  let mask2 := s.inb 0xA1
  let s := (s.outb 0x20 (0x10 ||| 0x01)).ioWait
  let s := (s.outb 0xA0 (0x10 ||| 0x01)).ioWait
  let s := (s.outb 0x21 offset1).ioWait
  let s := (s.outb 0xA1 offset2).ioWait
  let s := (s.outb 0x21 4).ioWait
  let s := (s.outb 0xA1 2).ioWait
  let s := (s.outb 0x21 0x01).ioWait
  let s := (s.outb 0xA1 0x01).ioWait
  (s.outb 0x21 mask1).outb 0xA1 mask2

/-- The port and the bit of a line; `none` if the shift has no result. -/
def picLine (irq : UInt8) : Option (UInt16 × UInt8) :=
  let (port, irq) : UInt16 × UInt8 := if irq < 8 then (0x21, irq) else (0xA1, irq - 8)
  if irq < 32 then some (port, ((1 : UInt32) <<< irq.toUInt32).toUInt8) else none

/-- `pic_set_mask`; `none` for a number whose bit would be shifted out of its word, which the
language does not define. -/
def picSetMask (s : Pics) (irq : UInt8) : Option Pics :=
  (picLine irq).map fun (port, bit) => s.outb port (s.inb port ||| bit)

/-- `pic_clear_mask`. -/
def picClearMask (s : Pics) (irq : UInt8) : Option Pics :=
  (picLine irq).map fun (port, bit) => s.outb port (s.inb port &&& ~~~bit)

/-- `pic_disable`. -/
def picDisable (s : Pics) : Pics := (s.outb 0x21 0xFF).outb 0xA1 0xFF

/-! ### Events -/

/-- Something happens: a device raises or lowers its line, a mask changes, or an interrupt is
served, with these handlers, while the processor is in this state. It may be that the request, or
that of the slave, is gone by then. -/
inductive IrqOp
  | raise (k : ℕ)
  | lower (k : ℕ)
  | setMask (irq : UInt8)
  | clearMask (irq : UInt8)
  | disable
  | serve (handlers : InterruptHandlers) (c : Cpu)
  | spurious (handlers : InterruptHandlers) (c : Cpu)
  | slaveSpurious (handlers : InterruptHandlers) (c : Cpu)

namespace Pics

/-- The request of a line is set; line 2 is no device's. -/
def raise (s : Pics) (k : ℕ) : Option Pics :=
  if k < 8 ∧ k ≠ 2 then
    some { s with master := { s.master with irr := s.master.irr ||| 1#8 <<< k } }
  else if 8 ≤ k ∧ k < 16 then
    some { s with slave := { s.slave with irr := s.slave.irr ||| 1#8 <<< (k - 8) } }
  else none

/-- It is taken back. -/
def lower (s : Pics) (k : ℕ) : Option Pics :=
  if k < 8 ∧ k ≠ 2 then
    some { s with master := { s.master with irr := s.master.irr &&& ~~~(1#8 <<< k) } }
  else if 8 ≤ k ∧ k < 16 then
    some { s with slave := { s.slave with irr := s.slave.irr &&& ~~~(1#8 <<< (k - 8)) } }
  else none

/-- An interrupt is acknowledged and delivered, and the stub of its vector calls `irq_handler`: the
vector, and the controllers. -/
def interrupt (stub : ℕ → UInt32) (back : UInt32) (s : Pics) (handlers : InterruptHandlers)
    (c : Cpu) (master slave : Option ℕ) : Option (ℕ × Pics) :=
  let (v, s) := s.acknowledge master slave
  (Rexus.interrupt stub back handlers v.toNat 0 c).map fun out =>
    (v.toNat, out.1.foldl (fun s out => s.outb out.1 out.2) s)

/-- One event, and the vector if one has been delivered. -/
def step (stub : ℕ → UInt32) (back : UInt32) (s : Pics) : IrqOp → Option (Option ℕ × Pics)
  | .raise k => (s.raise k).map fun s => (none, s)
  | .lower k => (s.lower k).map fun s => (none, s)
  | .setMask irq => (picSetMask s irq).map fun s => (none, s)
  | .clearMask irq => (picClearMask s irq).map fun s => (none, s)
  | .disable => some (none, picDisable s)
  | .serve handlers c =>
    (s.interrupt stub back handlers c s.masterChoice s.slaveChoice).map fun (v, s) => (some v, s)
  | .spurious handlers c =>
    (s.interrupt stub back handlers c none none).map fun (v, s) => (some v, s)
  | .slaveSpurious handlers c =>
    (s.interrupt stub back handlers c (some 2) none).map fun (v, s) => (some v, s)

end Pics

/-- The number that `irq_handler` reads when the stub of `v` calls it is one of the slave's. -/
def TellsSlave (stub : ℕ → UInt32) (back : UInt32) (v : ℕ) (c : Cpu) : Prop :=
  ∀ entry, handlerEntry (idtInit stub) back v 0 c = some entry →
    40 ≤ (frameAt entry.mem entry.argument).intNo.toNat

/-- An event after which no line is in service: if a line of the slave's is served, the slave is
told. -/
def IrqOp.Ends (stub : ℕ → UInt32) (back : UInt32) (v : Option ℕ) : IrqOp → Prop
  | .serve _ c => ∀ n, v = some n → 40 ≤ n → TellsSlave stub back n c
  | _ => True

/-! ### A set of requests -/

/-- Which lines are requested, and which are masked. -/
structure IrqLines where
  requested : ℕ → Bool
  masked : ℕ → Bool

namespace IrqLines

/-- A request that is not masked, nor is the line of the slave if it is one of the slave's. -/
def deliverable (a : IrqLines) (k : ℕ) : Bool :=
  a.requested k && !a.masked k && (k < 8 || !a.masked 2)

/-- The lines by their priority: those of the slave are at the place of line 2. -/
def priorities : List ℕ := [0, 1] ++ (List.range 8).map (8 + ·) ++ [3, 4, 5, 6, 7]

/-- The request that is delivered next. -/
def next (a : IrqLines) : Option ℕ := priorities.find? a.deliverable

/-- One event, and the vector if one has been delivered; without a request it is the last one of a
controller. -/
def step (a : IrqLines) : IrqOp → Option ℕ × IrqLines
  | .raise k => (none, { a with requested := Function.update a.requested k true })
  | .lower k => (none, { a with requested := Function.update a.requested k false })
  | .setMask irq => (none, { a with masked := Function.update a.masked irq.toNat true })
  | .clearMask irq => (none, { a with masked := Function.update a.masked irq.toNat false })
  | .disable => (none, { a with masked := fun _ => true })
  | .serve _ _ =>
    match a.next with
    | some k => (some (32 + k), { a with requested := Function.update a.requested k false })
    | none => (some 39, a)
  | .spurious _ _ => (some 39, a)
  | .slaveSpurious _ _ => (some 47, a)

end IrqLines

/-! ### Single bits -/

section

variable {r : BitVec 8} {i : ℕ}

theorem lowestBit_single : ∀ i < 8, lowestBit (1#8 <<< i) = some i := by decide

theorem lowestBit_zero : lowestBit 0 = none := by decide

/-- The lowest bit, by what the bits are. -/
theorem lowestBit_eq {f : ℕ → Bool} (h : ∀ k < 8, r.getLsbD k = f k) :
    lowestBit r = (List.range 8).find? f := by
  exact List.find?_congr fun k hk => h k (List.mem_range.mp hk)

end

/-! ### A controller that holds nothing back -/

/-- The controller has been set up and is not serving anything: it expects no further command word,
and its requests and masks are the ones given. -/
structure Pic.Idle (p : Pic) (base : BitVec 8) (requested masked : ℕ → Bool) : Prop where
  isr : p.isr = 0
  base : p.base = base
  expects : p.expects = 0
  irr : ∀ k < 8, p.irr.getLsbD k = requested k
  imr : ∀ k < 8, p.imr.getLsbD k = masked k

namespace Pic

variable {p : Pic} {base : BitVec 8} {requested masked : ℕ → Bool} {i : ℕ}

/-- It chooses by the priority. -/
theorem Idle.choose (h : p.Idle base requested masked) {irr : BitVec 8} {f : ℕ → Bool}
    (hirr : ∀ k < 8, irr.getLsbD k = f k) :
    p.choose irr = (List.range 8).find? fun k => f k && !masked k := by
  have hbits : ∀ k < 8, (irr &&& ~~~p.imr).getLsbD k = (f k && !masked k) := fun k hk => by
    rw [BitVec.getLsbD_and, BitVec.getLsbD_not, hirr k hk, h.imr k hk, decide_eq_true hk,
      Bool.true_and]
  rw [Pic.choose, h.isr, lowestBit_zero, ← lowestBit_eq hbits]
  cases lowestBit (irr &&& ~~~p.imr) with
  | none => rfl
  | some i => rfl

/-- The end of the interrupt that is served. -/
theorem Idle.serve_end (h : p.Idle base requested masked) (hi : i < 8) :
    ((p.serve i).writeCommand 0x20#8).Idle base (Function.update requested i false) masked := by
  have hisr : (p.serve i).isr = 1#8 <<< i := by
    rw [Pic.serve, h.isr]
    exact BitVec.zero_or
  have hend : (p.serve i).writeCommand 0x20#8 = { p.serve i with isr := 0 } := by
    rw [writeCommand, if_neg (by decide), if_neg (by decide), if_pos (by decide), hisr,
      lowestBit_single i hi]
    dsimp only
    rw [BitVec.and_not_self]
  rw [hend]
  refine ⟨rfl, h.base, h.expects, fun k hk => ?_, h.imr⟩
  dsimp only [Pic.serve]
  rw [getLsbD_clear hi, h.irr k hk, Function.update_apply]
  by_cases hki : k = i
  · rw [if_pos hki, decide_eq_true hki, Bool.not_true, Bool.false_and]
  · rw [if_neg hki, decide_eq_false hki, Bool.not_false, Bool.true_and]

/-- The end of an interrupt that is not served. -/
theorem Idle.end_idle (h : p.Idle base requested masked) :
    p.writeCommand 0x20#8 = p := by
  rw [writeCommand, if_neg (by decide), if_neg (by decide), if_pos (by decide), h.isr,
    lowestBit_zero]

theorem Idle.congr (h : p.Idle base requested masked) {requested' masked' : ℕ → Bool}
    (hrequested : ∀ k < 8, requested' k = requested k) (hmasked : ∀ k < 8, masked' k = masked k) :
    p.Idle base requested' masked' where
  isr := h.isr
  base := h.base
  expects := h.expects
  irr k hk := (h.irr k hk).trans (hrequested k hk).symm
  imr k hk := (h.imr k hk).trans (hmasked k hk).symm

/-- A mask is written. -/
theorem Idle.mask (h : p.Idle base requested masked) {v : BitVec 8} {masked' : ℕ → Bool}
    (hv : ∀ k < 8, v.getLsbD k = masked' k) : (p.writeData v).Idle base requested masked' := by
  have hdata : p.writeData v = { p with imr := v } := by
    rw [writeData, h.expects]
    rfl
  rw [hdata]
  exact ⟨h.isr, h.base, h.expects, h.irr, hv⟩

/-- A request is set or taken back. -/
theorem Idle.request (h : p.Idle base requested masked) {v : BitVec 8} {requested' : ℕ → Bool}
    (hv : ∀ k < 8, v.getLsbD k = requested' k) :
    Pic.Idle { p with irr := v } base requested' masked :=
  ⟨h.isr, h.base, h.expects, hv, h.imr⟩

end Pic

/-! ### Both together -/

/-- The controllers hold these requests and masks, and nothing back from an earlier request. Line 2
is the cascade, and is requested by no device. -/
structure Pics.Shows (s : Pics) (a : IrqLines) : Prop where
  master : s.master.Idle 0x20#8 a.requested a.masked
  slave : s.slave.Idle 0x28#8 (fun k => a.requested (8 + k)) fun k => a.masked (8 + k)
  cascade : a.requested 2 = false

namespace Pics

variable {s : Pics} {a : IrqLines} {i j : ℕ} (stub : ℕ → UInt32) (back : UInt32)
  (handlers : InterruptHandlers) (c : Cpu)

theorem Shows.slaveChoice_eq (h : s.Shows a) :
    s.slaveChoice = (List.range 8).find? fun k => a.requested (8 + k) && !a.masked (8 + k) :=
  h.slave.choose h.slave.irr

theorem Shows.masterChoice_eq (h : s.Shows a) :
    s.masterChoice = (List.range 8).find? fun k =>
      (if k = 2 then s.slaveChoice.isSome else a.requested k) && !a.masked k := by
  refine h.master.choose fun k hk => ?_
  cases s.slaveChoice.isSome with
  | true =>
    rw [if_pos rfl, getLsbD_set (by decide), h.master.irr k hk]
    by_cases hk2 : k = 2
    · rw [decide_eq_true hk2, if_pos hk2, Bool.true_or]
    · rw [decide_eq_false hk2, if_neg hk2, Bool.false_or]
  | false =>
    rw [if_neg Bool.false_ne_true, getLsbD_clear (by decide), h.master.irr k hk]
    by_cases hk2 : k = 2
    · rw [decide_eq_true hk2, if_pos hk2, Bool.not_true, Bool.false_and]
    · rw [decide_eq_false hk2, if_neg hk2, Bool.not_false, Bool.true_and]

/-- **The two controllers together choose by the priority of the lines.** -/
theorem Shows.next_eq (h : s.Shows a) :
    a.next = match s.masterChoice with
      | some i => if i = 2 then s.slaveChoice.map (8 + ·) else some i
      | none => none := by
  have hlow (l : List ℕ) (hl : ∀ k ∈ l, k < 8 ∧ k ≠ 2) :
      (l.find? fun k => (if k = 2 then s.slaveChoice.isSome else a.requested k) && !a.masked k) =
        l.find? a.deliverable :=
    List.find?_congr fun k hk => by
      obtain ⟨hlt, hne⟩ := hl k hk
      rw [if_neg hne, IrqLines.deliverable, decide_eq_true hlt, Bool.true_or, Bool.and_true]
  have hrange : List.range 8 = [0, 1] ++ [2] ++ [3, 4, 5, 6, 7] := rfl
  have hslave : ((List.range 8).map (8 + ·)).find? a.deliverable =
      if a.masked 2 then none else s.slaveChoice.map (8 + ·) := by
    have hdeliverable (k : ℕ) : a.deliverable (8 + k) =
        ((a.requested (8 + k) && !a.masked (8 + k)) && !a.masked 2) := by
      rw [IrqLines.deliverable, decide_eq_false (by omega : ¬8 + k < 8), Bool.false_or]
    rw [List.find?_map, h.slaveChoice_eq]
    cases hmasked : a.masked 2 with
    | true =>
      rw [if_pos rfl, Option.map_eq_none_iff, List.find?_eq_none]
      intro k _
      simp [hdeliverable, hmasked]
    | false =>
      rw [if_neg Bool.false_ne_true]
      refine congrArg _ (List.find?_congr fun k _ => ?_)
      simp [hdeliverable, hmasked]
  rw [h.masterChoice_eq, IrqLines.next, IrqLines.priorities, List.find?_append, List.find?_append,
    hslave, hrange, List.find?_append, List.find?_append, hlow [0, 1] (by decide),
    hlow [3, 4, 5, 6, 7] (by decide)]
  cases hfirst : [0, 1].find? a.deliverable with
  | some i =>
    have hi := List.mem_of_find?_eq_some hfirst
    have hne : i ≠ 2 := by rintro rfl; exact absurd hi (by decide)
    simp [hne]
  | none =>
    cases hlast : [3, 4, 5, 6, 7].find? a.deliverable with
    | some i =>
      have hi := List.mem_of_find?_eq_some hlast
      have hne : i ≠ 2 := by rintro rfl; exact absurd hi (by decide)
      cases hmasked : a.masked 2 <;> cases hchoice : s.slaveChoice <;> simp [hmasked, hne]
    | none =>
      cases hmasked : a.masked 2 <;> cases hchoice : s.slaveChoice <;> simp [hmasked]

/-! ### Served interrupts -/

/-- What `irq_handler` writes. -/
theorem foldl_irqHandler (s : Pics) (mem : UInt32 → UInt32) (regs : UInt32) :
    (irqHandler handlers mem regs).1.foldl (fun s out => s.outb out.1 out.2) s =
      ⟨s.master.writeCommand 0x20#8,
        if 40 ≤ (frameAt mem regs).intNo.toNat then s.slave.writeCommand 0x20#8 else s.slave⟩ := by
  rw [irqHandler]
  dsimp only
  split_ifs
  · rfl
  · rfl

/-- What an interrupt does to the controllers, once it has been acknowledged. -/
theorem interrupt_eq {master slave : Option ℕ} {b : BitVec 8} {t : Pics}
    (hack : s.acknowledge master slave = (b, t)) (hge : 32 ≤ b.toNat) (hlt : b.toNat < 48) :
    ∃ n, (TellsSlave stub back b.toNat c ↔ 40 ≤ n) ∧
      s.interrupt stub back handlers c master slave = some (b.toNat,
        ⟨t.master.writeCommand 0x20#8,
          if 40 ≤ n then t.slave.writeCommand 0x20#8 else t.slave⟩) := by
  obtain ⟨entry, hentry, -, -, -, hcall⟩ := Rexus.interrupt_eq stub back handlers hlt 0 c
  refine ⟨(frameAt entry.mem entry.argument).intNo.toNat, ⟨fun h => h entry hentry, ?_⟩, ?_⟩
  · intro h entry' hentry'
    rwa [← Option.some_inj.mp (hentry.symm.trans hentry')]
  · rw [interrupt, hack]
    dsimp only
    rw [hcall, Option.map_some, callHandler, if_neg (Nat.not_lt.mpr hge), foldl_irqHandler]

theorem toNat_vector {base : BitVec 8} (hbase : base.toNat < 248) (hi : i < 8) :
    (base + BitVec.ofNat 8 i).toNat = base.toNat + i := by
  rw [BitVec.toNat_add, BitVec.toNat_ofNat]
  omega

/-- A request of the master's own; it does not matter whether the slave is told. -/
theorem Shows.interrupt_master (h : s.Shows a) (hi : i < 8) (hne : i ≠ 2) (slave : Option ℕ) :
    ∃ s', s.interrupt stub back handlers c (some i) slave = some (32 + i, s') ∧
      s'.Shows { a with requested := Function.update a.requested i false } := by
  have hv : (s.master.base + BitVec.ofNat 8 i).toNat = 32 + i := by
    rw [h.master.base]
    exact toNat_vector (by decide) hi
  have hack : s.acknowledge (some i) slave =
      (s.master.base + BitVec.ofNat 8 i, { s with master := s.master.serve i }) := if_neg hne
  obtain ⟨n, -, heq⟩ := interrupt_eq stub back handlers c hack (by omega) (by omega)
  rw [hv] at heq
  rw [heq, h.slave.end_idle, ite_self]
  refine ⟨_, rfl, h.master.serve_end hi, h.slave.congr (fun k _ => ?_) fun _ _ => rfl, ?_⟩
  · exact Function.update_of_ne (by omega) ..
  · exact (Function.update_of_ne hne.symm ..).trans h.cascade

/-- A request of the slave's: it comes to an end exactly if the slave is told. -/
theorem Shows.interrupt_slave (h : s.Shows a) (hj : j < 8) :
    ∃ s', s.interrupt stub back handlers c (some 2) (some j) = some (40 + j, s') ∧
      (s'.slave.isr = 0 ↔ TellsSlave stub back (40 + j) c) ∧
      (TellsSlave stub back (40 + j) c →
        s'.Shows { a with requested := Function.update a.requested (8 + j) false }) := by
  have hv : (s.slave.base + BitVec.ofNat 8 j).toNat = 40 + j := by
    rw [h.slave.base]
    exact toNat_vector (by decide) hj
  have hack : s.acknowledge (some 2) (some j) = (s.slave.base + BitVec.ofNat 8 j,
      ⟨s.master.serve 2, s.slave.serve j⟩) := rfl
  obtain ⟨n, htells, heq⟩ := interrupt_eq stub back handlers c hack (by omega) (by omega)
  rw [hv] at heq htells
  have hend := h.slave.serve_end hj
  have hshows : Pics.Shows ⟨(s.master.serve 2).writeCommand 0x20#8,
      (s.slave.serve j).writeCommand 0x20#8⟩
      { a with requested := Function.update a.requested (8 + j) false } := by
    refine ⟨(h.master.serve_end (by decide)).congr (fun k hk => ?_) fun _ _ => rfl,
      hend.congr (fun k _ => ?_) fun _ _ => rfl, ?_⟩
    · dsimp only
      rw [Function.update_apply, Function.update_apply, if_neg (by omega)]
      split_ifs with hk2
      · rw [hk2, h.cascade]
      · rfl
    · dsimp only
      rw [Function.update_apply, Function.update_apply]
      simp only [Nat.add_left_cancel_iff]
    · exact (Function.update_of_ne (by omega) ..).trans h.cascade
  refine ⟨_, heq, ?_⟩
  rw [htells]
  split_ifs with hn
  · exact ⟨iff_of_true hend.isr hn, fun _ => hshows⟩
  · refine ⟨iff_of_false (fun hisr => ?_) hn, fun hn' => absurd hn' hn⟩
    have hbit := congrArg (fun r => r.getLsbD j) hisr
    dsimp only [Pic.serve] at hbit
    rw [getLsbD_set hj, decide_eq_true rfl, Bool.true_or] at hbit
    cases hbit.trans BitVec.getLsbD_zero

/-- No request after all. -/
theorem Shows.interrupt_none (h : s.Shows a) (slave : Option ℕ) :
    s.interrupt stub back handlers c none slave = some (39, s) := by
  have hv : (s.master.base + 7).toNat = 39 := by rw [h.master.base]; rfl
  have hack : s.acknowledge none slave = (s.master.base + 7, s) := rfl
  obtain ⟨n, -, heq⟩ := interrupt_eq stub back handlers c hack (by omega) (by omega)
  rw [heq, hv, h.master.end_idle, h.slave.end_idle, ite_self]

/-- No request of the slave's after all: the master has one, and whether the slave is told does not
matter. -/
theorem Shows.interrupt_slaveNone (h : s.Shows a) :
    ∃ s', s.interrupt stub back handlers c (some 2) none = some (47, s') ∧ s'.Shows a := by
  have hv : (s.slave.base + 7).toNat = 47 := by rw [h.slave.base]; rfl
  have hack : s.acknowledge (some 2) none = (s.slave.base + 7,
      { s with master := s.master.serve 2 }) := rfl
  obtain ⟨n, -, heq⟩ := interrupt_eq stub back handlers c hack (by omega) (by omega)
  rw [heq, hv, h.slave.end_idle, ite_self]
  refine ⟨_, rfl, (h.master.serve_end (by decide)).congr (fun k _ => ?_) fun _ _ => rfl, h.slave,
    h.cascade⟩
  rw [Function.update_apply]
  split_ifs with hk2
  · rw [hk2, h.cascade]
  · rfl

/-- The first request is served: it is one less, if the slave is told of the end of its own. -/
theorem Shows.interrupt_next (h : s.Shows a) :
    ∃ v s', s.interrupt stub back handlers c s.masterChoice s.slaveChoice = some (v, s') ∧
      v = (match a.next with
        | some k => 32 + k
        | none => 39) ∧
      (s'.slave.isr = 0 ↔ (40 ≤ v → TellsSlave stub back v c)) ∧
      ((40 ≤ v → TellsSlave stub back v c) → s'.Shows (match a.next with
        | some k => { a with requested := Function.update a.requested k false }
        | none => a)) := by
  have hnext := h.next_eq
  cases hmaster : s.masterChoice with
  | none =>
    rw [hmaster] at hnext
    rw [hnext]
    exact ⟨39, s, h.interrupt_none stub back handlers c _, rfl,
      iff_of_true h.slave.isr (fun hge => absurd hge (by decide)), fun _ => h⟩
  | some i =>
    rw [hmaster] at hnext
    have hmem := h.masterChoice_eq.symm.trans hmaster
    have hi : i < 8 := List.mem_range.mp (List.mem_of_find?_eq_some hmem)
    by_cases hne : i = 2
    · subst hne
      have hslave : s.slaveChoice.isSome = true := by
        have hfound := List.find?_some hmem
        rw [if_pos rfl, Bool.and_eq_true] at hfound
        exact hfound.1
      obtain ⟨j, hj⟩ := Option.isSome_iff_exists.mp hslave
      have hlt : j < 8 := List.mem_range.mp
        (List.mem_of_find?_eq_some (h.slaveChoice_eq.symm.trans hj))
      have hnext : a.next = some (8 + j) := by
        rw [hnext, hj]
        rfl
      obtain ⟨s', heq, hisr, hshows⟩ := h.interrupt_slave stub back handlers c hlt
      rw [hj, hnext]
      have hge : 40 ≤ 40 + j := Nat.le_add_right 40 j
      exact ⟨40 + j, s', heq, Nat.add_assoc 32 8 j, hisr.trans ⟨fun h _ => h, fun h => h hge⟩,
        fun htells => hshows (htells hge)⟩
    · have hnext : a.next = some i := hnext.trans (if_neg hne)
      obtain ⟨s', heq, hshows⟩ := h.interrupt_master stub back handlers c hi hne s.slaveChoice
      rw [hnext]
      exact ⟨32 + i, s', heq, rfl, iff_of_true hshows.slave.isr fun hge => by omega,
        fun _ => hshows⟩

/-! ### Requests and masks -/

theorem Shows.raise (h : s.Shows a) {k : ℕ} {s' : Pics} (hraise : s.raise k = some s') :
    s'.Shows { a with requested := Function.update a.requested k true } := by
  rw [Pics.raise] at hraise
  split_ifs at hraise with hmaster hslave
  · obtain rfl := Option.some_inj.mp hraise
    refine ⟨h.master.request fun n hn => ?_, h.slave.congr (fun n _ => ?_) fun _ _ => rfl, ?_⟩
    · rw [getLsbD_set hmaster.1, h.master.irr n hn]
      dsimp only
      rw [Function.update_apply]
      by_cases hnk : n = k <;> simp [hnk]
    · exact Function.update_of_ne (by omega) ..
    · exact (Function.update_of_ne hmaster.2.symm ..).trans h.cascade
  · obtain rfl := Option.some_inj.mp hraise
    refine ⟨h.master.congr (fun n hn => ?_) fun _ _ => rfl, h.slave.request fun n hn => ?_, ?_⟩
    · exact Function.update_of_ne (by omega) ..
    · rw [getLsbD_set (by omega), h.slave.irr n hn]
      dsimp only
      rw [Function.update_apply]
      have hiff : n = k - 8 ↔ 8 + n = k := by omega
      by_cases hnk : 8 + n = k <;> simp [hnk, hiff]
    · exact (Function.update_of_ne (by omega) ..).trans h.cascade

theorem Shows.lower (h : s.Shows a) {k : ℕ} {s' : Pics} (hlower : s.lower k = some s') :
    s'.Shows { a with requested := Function.update a.requested k false } := by
  rw [Pics.lower] at hlower
  split_ifs at hlower with hmaster hslave
  · obtain rfl := Option.some_inj.mp hlower
    refine ⟨h.master.request fun n hn => ?_, h.slave.congr (fun n _ => ?_) fun _ _ => rfl, ?_⟩
    · rw [getLsbD_clear hmaster.1, h.master.irr n hn]
      dsimp only
      rw [Function.update_apply]
      by_cases hnk : n = k <;> simp [hnk]
    · exact Function.update_of_ne (by omega) ..
    · exact (Function.update_of_ne hmaster.2.symm ..).trans h.cascade
  · obtain rfl := Option.some_inj.mp hlower
    refine ⟨h.master.congr (fun n hn => ?_) fun _ _ => rfl, h.slave.request fun n hn => ?_, ?_⟩
    · exact Function.update_of_ne (by omega) ..
    · rw [getLsbD_clear (by omega), h.slave.irr n hn]
      dsimp only
      rw [Function.update_apply]
      have hiff : n = k - 8 ↔ 8 + n = k := by omega
      by_cases hnk : 8 + n = k <;> simp [hnk, hiff]
    · exact (Function.update_of_ne (by omega) ..).trans h.cascade

theorem toUInt8_shiftLeft (n : UInt8) (hn : n.toNat < 32) :
    ((1 : UInt32) <<< n.toUInt32).toUInt8 = UInt8.ofBitVec (1#8 <<< n.toNat) := by
  have hle : 2 ^ n.toNat < 2 ^ 32 := Nat.pow_lt_pow_right (by decide) hn
  rw [← UInt8.toNat_inj, UInt32.toNat_toUInt8, UInt32.toNat_shiftLeft, UInt8.toNat_toUInt32,
    Nat.mod_eq_of_lt hn]
  show (1 <<< n.toNat) % 2 ^ 32 % 2 ^ 8 = (1 <<< n.toNat) % 2 ^ 8
  rw [Nat.shiftLeft_eq, Nat.one_mul, Nat.mod_eq_of_lt hle]

/-- The port and the bit, in which nothing is set from line 16 on. -/
theorem picLine_eq (irq : UInt8) : picLine irq =
    if irq.toNat < 8 then some (0x21, UInt8.ofBitVec (1#8 <<< irq.toNat))
    else if irq.toNat < 40 then some (0xA1, UInt8.ofBitVec (1#8 <<< (irq.toNat - 8)))
    else none := by
  have hmaster : irq < 8 ↔ irq.toNat < 8 := Iff.rfl
  rw [picLine]
  by_cases hlt : irq.toNat < 8
  · have hrange : irq < 32 := show irq.toNat < 32 by omega
    rw [if_pos (hmaster.mpr hlt), if_pos hlt]
    dsimp only
    rw [if_pos hrange, toUInt8_shiftLeft irq hrange]
  · have hsub : (irq - 8).toNat = irq.toNat - 8 :=
      UInt8.toNat_sub_of_le irq 8 (UInt8.not_lt.mp (mt hmaster.mp hlt))
    have hrange : irq - 8 < 32 ↔ irq.toNat < 40 := by
      rw [UInt8.lt_iff_toNat_lt, hsub]
      exact Nat.sub_lt_iff_lt_add' (Nat.le_of_not_lt hlt)
    rw [if_neg (mt hmaster.mp hlt), if_neg hlt]
    dsimp only
    split_ifs with hin hin' hin'
    · rw [toUInt8_shiftLeft _ hin, hsub]
    · exact absurd (hrange.mp hin) hin'
    · exact absurd (hrange.mpr hin') hin
    · rfl

/-- A mask with one bit set, which is none of its own from 8 on. -/
theorem getLsbD_setMask (r : BitVec 8) (n : ℕ) {k : ℕ} (hk : k < 8) :
    (r ||| 1#8 <<< n).getLsbD k = if k = n then true else r.getLsbD k := by
  rw [BitVec.getLsbD_or, ← BitVec.twoPow_eq, BitVec.getLsbD_twoPow]
  by_cases hkn : k = n
  · subst hkn
    simp [hk]
  · have hne : n ≠ k := fun heq => hkn heq.symm
    simp [hkn, hne]

theorem getLsbD_clearMask (r : BitVec 8) (n : ℕ) {k : ℕ} (hk : k < 8) :
    (r &&& ~~~(1#8 <<< n)).getLsbD k = if k = n then false else r.getLsbD k := by
  rw [BitVec.getLsbD_and, BitVec.getLsbD_not, ← BitVec.twoPow_eq, BitVec.getLsbD_twoPow]
  by_cases hkn : k = n
  · subst hkn
    simp [hk]
  · have hne : n ≠ k := fun heq => hkn heq.symm
    simp [hk, hkn, hne]

/-- A write of a mask to one of the data ports. -/
theorem Shows.outb_mask (h : s.Shows a) (value : BitVec 8 → BitVec 8 → BitVec 8) {irq : UInt8}
    {on : Bool} (hvalue : ∀ r n k, k < 8 →
      (value r (1#8 <<< n)).getLsbD k = if k = n then on else r.getLsbD k) {s' : Pics}
    (hout : (picLine irq).map (fun line => s.outb line.1
      (UInt8.ofBitVec (value (s.inb line.1).toBitVec line.2.toBitVec))) = some s') :
    s'.Shows { a with masked := Function.update a.masked irq.toNat on } := by
  rw [picLine_eq] at hout
  split_ifs at hout with hmaster hslave
  · obtain rfl := Option.some_inj.mp hout
    refine ⟨h.master.mask fun k hk => ?_, h.slave.congr (fun _ _ => rfl) fun k _ => ?_, h.cascade⟩
    · refine (hvalue s.master.imr _ k hk).trans ?_
      dsimp only
      rw [h.master.imr k hk, Function.update_apply]
    · exact Function.update_of_ne (by omega) ..
  · obtain rfl := Option.some_inj.mp hout
    refine ⟨h.master.congr (fun _ _ => rfl) fun k hk => ?_, h.slave.mask fun k hk => ?_, h.cascade⟩
    · exact Function.update_of_ne (by omega) ..
    · refine (hvalue s.slave.imr _ k hk).trans ?_
      have hiff : k = irq.toNat - 8 ↔ 8 + k = irq.toNat := by omega
      dsimp only
      rw [h.slave.imr k hk, Function.update_apply]
      simp only [hiff]
  · cases hout

theorem Shows.setMask (h : s.Shows a) {irq : UInt8} {s' : Pics}
    (hmask : picSetMask s irq = some s') :
    s'.Shows { a with masked := Function.update a.masked irq.toNat true } :=
  h.outb_mask (fun r bit => r ||| bit) (fun r n _ hk => getLsbD_setMask r n hk) hmask

theorem Shows.clearMask (h : s.Shows a) {irq : UInt8} {s' : Pics}
    (hmask : picClearMask s irq = some s') :
    s'.Shows { a with masked := Function.update a.masked irq.toNat false } :=
  h.outb_mask (fun r bit => r &&& ~~~bit) (fun r n _ hk => getLsbD_clearMask r n hk) hmask

theorem Shows.disable (h : s.Shows a) :
    (picDisable s).Shows { a with masked := fun _ => true } := by
  have hones : ∀ k < 8, (0xFF#8).getLsbD k = true := by decide
  exact ⟨h.master.mask hones, h.slave.mask hones, h.cascade⟩

end Pics

/-! ### Setting up -/

/-- A controller that has been initialized. -/
def Pic.initialized (base cascade imr : BitVec 8) : Pic where
  irr := 0
  imr := imr
  isr := 0
  base := base &&& 0xF8#8
  cascade := cascade
  mode := 1
  expects := 0
  needsIcw4 := true
  single := false
  readsIsr := false

/-- The words of an initialization, whatever the controller expected. -/
theorem Pic.write_initialized (p : Pic) (base cascade imr : BitVec 8) :
    ((((p.writeCommand 0x11#8).writeData base).writeData cascade).writeData 1#8).writeData imr =
      .initialized base cascade imr := by
  have hstart : p.writeCommand 0x11#8 = { p with
      irr := 0
      imr := 0
      isr := 0
      expects := 2
      needsIcw4 := true
      single := false
      readsIsr := false } := if_pos (by decide)
  rw [hstart]
  rfl

/-- **Both controllers are set up**, whatever they were doing: the masks are kept, and nothing is
requested or held back. -/
theorem picRemap_eq (s : Pics) (offset1 offset2 : UInt8) :
    picRemap s offset1 offset2 =
      ⟨.initialized offset1.toBitVec 4#8 s.master.imr,
        .initialized offset2.toBitVec 2#8 s.slave.imr⟩ := by
  rw [← Pic.write_initialized s.master, ← Pic.write_initialized s.slave]
  rfl

/-- The masks of the controllers, and no request. -/
def Pics.lines (s : Pics) : IrqLines where
  requested _ := false
  masked k := if k < 8 then s.master.imr.getLsbD k else s.slave.imr.getLsbD (k - 8)

theorem picRemap_shows (s : Pics) : (picRemap s 0x20 0x28).Shows s.lines := by
  rw [picRemap_eq]
  refine ⟨⟨rfl, rfl, rfl, fun k _ => BitVec.getLsbD_zero, fun k hk => ?_⟩,
    ⟨rfl, rfl, rfl, fun k _ => BitVec.getLsbD_zero, fun k _ => ?_⟩, rfl⟩
  · exact (if_pos hk).symm
  · have hge : ¬8 + k < 8 := by omega
    dsimp only [Pics.lines]
    rw [if_neg hge, Nat.add_sub_cancel_left]
    rfl

/-! ### Runs -/

/-- **One event** delivers the same vector from the controllers and from the requests; it leaves no
line in service exactly if the slave is told of the end of its own, and then it changes both
alike. -/
theorem Pics.Shows.step {stub : ℕ → UInt32} {back : UInt32} {s s' : Pics} {a : IrqLines}
    (h : s.Shows a) {op : IrqOp} {v : Option ℕ} (hstep : s.step stub back op = some (v, s')) :
    v = (a.step op).1 ∧ (s'.slave.isr = 0 ↔ op.Ends stub back v) ∧
      (op.Ends stub back v → s'.Shows (a.step op).2) := by
  -- only a served request may leave a line in service
  have hdone : ∀ {v' : Option ℕ} {a' : IrqLines}, op.Ends stub back v → s'.Shows a' → v = v' →
      v = v' ∧ (s'.slave.isr = 0 ↔ op.Ends stub back v) ∧ (op.Ends stub back v → s'.Shows a') :=
    fun hends hshows hv => ⟨hv, iff_of_true hshows.slave.isr hends, fun _ => hshows⟩
  cases op with
  | raise k =>
    obtain ⟨t, ht, heq⟩ := Option.map_eq_some_iff.mp hstep
    obtain ⟨rfl, rfl⟩ := Prod.mk.inj heq
    exact hdone trivial (h.raise ht) rfl
  | lower k =>
    obtain ⟨t, ht, heq⟩ := Option.map_eq_some_iff.mp hstep
    obtain ⟨rfl, rfl⟩ := Prod.mk.inj heq
    exact hdone trivial (h.lower ht) rfl
  | setMask irq =>
    obtain ⟨t, ht, heq⟩ := Option.map_eq_some_iff.mp hstep
    obtain ⟨rfl, rfl⟩ := Prod.mk.inj heq
    exact hdone trivial (h.setMask ht) rfl
  | clearMask irq =>
    obtain ⟨t, ht, heq⟩ := Option.map_eq_some_iff.mp hstep
    obtain ⟨rfl, rfl⟩ := Prod.mk.inj heq
    exact hdone trivial (h.clearMask ht) rfl
  | disable =>
    obtain ⟨rfl, rfl⟩ := Prod.mk.inj (Option.some_inj.mp hstep)
    exact hdone trivial h.disable rfl
  | serve handlers c =>
    obtain ⟨n, t, hserve, hn, hisr, hshows⟩ := h.interrupt_next stub back handlers c
    rw [Pics.step, hserve] at hstep
    obtain ⟨rfl, rfl⟩ := Prod.mk.inj (Option.some_inj.mp hstep)
    have hends : IrqOp.Ends stub back (some n) (.serve handlers c) ↔
        (40 ≤ n → TellsSlave stub back n c) :=
      ⟨fun hall => hall n rfl, fun htells m hm => Option.some_inj.mp hm ▸ htells⟩
    rw [hends, IrqLines.step]
    cases hnext : a.next with
    | some k =>
      rw [hnext] at hn hshows
      exact ⟨congrArg some hn, hisr, hshows⟩
    | none =>
      rw [hnext] at hn hshows
      exact ⟨congrArg some hn, hisr, hshows⟩
  | spurious handlers c =>
    rw [Pics.step, h.interrupt_none stub back handlers c] at hstep
    obtain ⟨rfl, rfl⟩ := Prod.mk.inj (Option.some_inj.mp hstep)
    exact hdone trivial h rfl
  | slaveSpurious handlers c =>
    obtain ⟨t, hserve, hshows⟩ := h.interrupt_slaveNone stub back handlers c
    rw [Pics.step, hserve] at hstep
    obtain ⟨rfl, rfl⟩ := Prod.mk.inj (Option.some_inj.mp hstep)
    exact hdone trivial hshows rfl

/-- The controllers and the requests, side by side, with the vectors that have been delivered. -/
structure IrqRun where
  pics : Pics
  lines : IrqLines
  delivered : List ℕ
  expected : List ℕ

namespace IrqRun

/-- After `pic_remap(0x20, 0x28)`. -/
def start (s : Pics) : IrqRun := ⟨picRemap s 0x20 0x28, s.lines, [], []⟩

/-- One event of both, in which the slave is told of the end of its own. -/
def Step (stub : ℕ → UInt32) (back : UInt32) (t : IrqRun) (op : IrqOp) (u : IrqRun) : Prop :=
  ∃ v, t.pics.step stub back op = some (v, u.pics) ∧ op.Ends stub back v ∧
    u.lines = (t.lines.step op).2 ∧
    u.delivered = t.delivered ++ v.toList ∧ u.expected = t.expected ++ (t.lines.step op).1.toList

end IrqRun

/-- Controllers that mask nothing. -/
def openPics : Pics := ⟨.initialized 0 0 0, .initialized 0 0 0⟩

/-- With a request of the real time clock, line 8. -/
def clockRun : IrqRun where
  pics := ⟨.initialized 0x20 4 0, { Pic.initialized 0x28 2 0 with irr := 1 }⟩
  lines := { openPics.lines with requested := Function.update openPics.lines.requested 8 true }
  delivered := []
  expected := []

/-- It is served: the vector is 40. -/
def clockServed : IrqRun where
  pics := ⟨.initialized 0x20 4 0, .initialized 0x28 2 0⟩
  lines := (clockRun.lines.step (.serve isrInit luckyCpu)).2
  delivered := [40]
  expected := [40]

/-- The stack lies where `irq_handler` takes its frame to be. -/
theorem tellsSlave_lucky : TellsSlave UInt32.ofNat 0 40 luckyCpu := by
  intro entry hentry
  obtain ⟨entry', hentry', henters, hargument, hframe⟩ :=
    handlerEntry_argument UInt32.ofNat 0 (by decide : 40 < 48) 0 luckyCpu
  obtain rfl := Option.some_inj.mp (hentry'.symm.trans hentry)
  have hword : entry'.argument = entry'.esp + 4 := by
    rw [hargument, hframe]
    decide
  exact Nat.le_of_eq (intNo_of_argument henters hword (by decide)).symm

end Rexus
