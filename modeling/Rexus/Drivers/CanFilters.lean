import Rexus.Drivers.Can
import Rexus.Lib.BitField
import Rexus.Lib.Run

/-!
# The filter banks of the CAN controller

`can_add_filter` and `can_remove_filter` of `drivers/can.c`, as they are built for ARM, with the
filter registers of `CAN1`. Slots `2 * n` and `2 * n + 1` of the driver share bank `n` of the
hardware: one bit in `FA1R` that says that it is active, one in `FS1R` that says whether it holds
one filter of 32 bits or two of 16, and the words `FR1` and `FR2`. A filter for extended
identifiers is written to the whole words, any other to one half of each, and removing a filter
switches its bank off.

So the two slots of a bank disturb each other. `CanArm.KeepsSibling` says when a call does not:
a filter is removed only when the other slot of its bank is free, and what is added agrees with
what is there.

## Main results

* `FiltersEncoded.step` — what is in a slot stays encoded in its bank
* `canFilters_run` — every run of such calls, and that the condition is exact

## Conventions

Registers are words that are read as they were last written. The initialisation mode of the filters,
which `can_add_filter` turns on for the writes and off behind them, is the bit `canFmrFinit`, and
outside of a call it is off. What the hardware makes of the words of a bank is a parameter,
`accepts`: any function of the bits of a slot, so that nothing depends on a reading of the manual
but which bits belong to which slot.

A run begins with no filter in use and any contents of the registers. The slots of the driver are
numbered from zero, a filter is put into the first that is free, and a removal names its slot.
-/

namespace Rexus

open Run

/-- The filter registers of `CAN1`; `fr1` and `fr2` are those of `sFilterRegister`. A bit of `fa1r`
makes a bank active, and the code shares one bank between two slots. -/
structure CanFilterRegs where
  fmr : BitVec 32
  fa1r : BitVec 32
  fs1r : BitVec 32
  fr1 : ℕ → BitVec 32
  fr2 : ℕ → BitVec 32

/-- The driver and the registers. The driver knows which of its slots are used; what gets to it is
decided by the registers. -/
structure CanArm where
  can : Can
  regs : CanFilterRegs

/-- `CAN_FMR_FINIT`. -/
def canFmrFinit : BitVec 32 := 1

/-- `can_init` leaves the filter registers as they are. -/
def canArmInit (regs : CanFilterRegs) : CanArm := ⟨canInit, regs⟩

/-- The bit of a slot's half in its bank's words. -/
def scaleBit (i : ℕ) : ℕ := i % 2 * 16

/-! ### The calls -/

/-- What `can_add_filter` does to the registers for slot `i`. -/
def CanFilterRegs.program (r : CanFilterRegs) (i : ℕ) (filter : CanFilter) : CanFilterRegs :=
  let filterNumber := i / 2
  let r := { r with
    fmr := r.fmr ||| canFmrFinit
    fa1r := r.fa1r &&& ~~~(1#32 <<< filterNumber) }
  let r :=
    if filter.extended then
      { r with
        fs1r := r.fs1r ||| 1#32 <<< filterNumber
        fr1 := Function.update r.fr1 filterNumber (filter.idFilter.toBitVec <<< scaleBit i)
        fr2 := Function.update r.fr2 filterNumber (filter.idMask.toBitVec <<< scaleBit i) }
    else
      { r with
        fs1r := r.fs1r &&& ~~~(1#32 <<< filterNumber)
        fr1 := Function.update r.fr1 filterNumber
          (r.fr1 filterNumber &&& ~~~(0xFFFF#32 <<< scaleBit i) |||
            (filter.idFilter.toBitVec &&& 0x7FF#32) <<< scaleBit i)
        fr2 := Function.update r.fr2 filterNumber
          (r.fr2 filterNumber &&& ~~~(0xFFFF#32 <<< scaleBit i) |||
            (filter.idMask.toBitVec &&& 0x7FF#32) <<< scaleBit i) }
  { r with
    fa1r := r.fa1r ||| 1#32 <<< filterNumber
    fmr := r.fmr &&& ~~~canFmrFinit }

/-- What `can_remove_filter` does to the registers for slot `i`. -/
def CanFilterRegs.remove (r : CanFilterRegs) (i : ℕ) : CanFilterRegs :=
  { r with
    fmr := (r.fmr ||| canFmrFinit) &&& ~~~canFmrFinit
    fa1r := r.fa1r &&& ~~~(1#32 <<< (i / 2)) }

/-- The first slot that is not used. -/
def Can.freeSlot (c : Can) : Option ℕ := (List.range 14).find? fun i => !c.filterUsed i

/-- `can_add_filter`; no filter is a null pointer. -/
def canArmAddFilter (s : CanArm) : Option CanFilter → Bool × CanArm
  | none => (false, s)
  | some filter =>
    match s.can.freeSlot with
    | none => (false, s)
    | some i =>
      (true, { can := { s.can with
                  filters := Function.update s.can.filters i filter
                  filterUsed := Function.update s.can.filterUsed i true }
               regs := s.regs.program i filter })

/-- `can_remove_filter`, with the registers: the slot is free again, and the bank it is in is
switched off, though another slot may be in it. -/
def canArmRemoveFilter (s : CanArm) (filterNum : UInt8) : CanArm :=
  if 14 ≤ filterNum.toNat then s
  else
    { can := { s.can with
        filterUsed := Function.update s.can.filterUsed filterNum.toNat false }
      regs := s.regs.remove filterNum.toNat }

/-- But for the registers these are the functions of the driver. -/
theorem canArmAddFilter_can (s : CanArm) (filter : CanFilter) :
    (canArmAddFilter s (some filter)).1 = (canAddFilter s.can filter).1 ∧
      (canArmAddFilter s (some filter)).2.can = (canAddFilter s.can filter).2 := by
  rw [canArmAddFilter, canAddFilter, Can.freeSlot]
  cases (List.range 14).find? fun i => !s.can.filterUsed i <;> exact ⟨rfl, rfl⟩

theorem canArmRemoveFilter_can (s : CanArm) (filterNum : UInt8) :
    (canArmRemoveFilter s filterNum).can = canRemoveFilter s.can filterNum := by
  rw [canArmRemoveFilter, canRemoveFilter]
  split_ifs <;> rfl

/-- A call of the driver's client. A filter may be a null pointer, and a slot may be any number of
eight bits: the functions check both. -/
inductive FilterCall
  | add (filter : Option CanFilter)
  | remove (filterNum : UInt8)

/-- The state a call leaves. -/
def CanArm.step (s : CanArm) : FilterCall → CanArm
  | .add filter => (canArmAddFilter s filter).2
  | .remove filterNum => canArmRemoveFilter s filterNum

/-- The slot a call adds a filter in or removes one from. -/
def CanArm.slot (s : CanArm) : FilterCall → Option ℕ
  | .add none => none
  | .add (some _) => s.can.freeSlot
  | .remove filterNum => if 14 ≤ filterNum.toNat then none else some filterNum.toNat

/-! ### What the registers say of a slot -/

/-- Is the bank of this slot active? -/
def CanFilterRegs.active (r : CanFilterRegs) (i : ℕ) : Bool := r.fa1r.getLsbD (i / 2)

/-- The bits of `FR1` and `FR2` that a slot's filter takes: all of them, or those of its half. -/
def slotMask (extended : Bool) (i : ℕ) : BitVec 32 :=
  if extended then BitVec.allOnes 32 else 0xFFFF#32 <<< scaleBit i

/-- The bits of `FS1R`, `FR1` and `FR2` that encode a slot's filter. -/
def CanFilterRegs.slotBits (r : CanFilterRegs) (extended : Bool) (i : ℕ) :
    Bool × BitVec 32 × BitVec 32 :=
  (r.fs1r.getLsbD (i / 2), r.fr1 (i / 2) &&& slotMask extended i,
    r.fr2 (i / 2) &&& slotMask extended i)

/-- A frame gets through a slot: the slot is used, the hardware accepts the frame by the bits of
the slot (`accepts` is what it makes of them) and its bank is active, and the driver's own test
lets it pass. -/
def CanArm.Passes (accepts : Bool × BitVec 32 × BitVec 32 → CanFrame → Prop) (s : CanArm) (i : ℕ)
    (frame : CanFrame) : Prop :=
  s.can.filterUsed i = true ∧ s.regs.active i = true ∧
    accepts (s.regs.slotBits (s.can.filters i).extended i) frame ∧
    canFrameMatchesFilter frame (s.can.filters i) = true

/-- A used slot has an active bank. -/
def CanArm.UsedActive (s : CanArm) : Prop :=
  ∀ i < 14, s.can.filterUsed i = true → s.regs.active i = true

/-- What a call does to the slots it is not about: none that is used loses its bank or is encoded
otherwise, and removing a filter stops no frame that another used one accepts. -/
structure CanArm.KeepsSlots (s : CanArm) (call : FilterCall) : Prop where
  active : (s.step call).UsedActive
  bits : ∀ i < 14, s.can.filterUsed i = true → s.slot call ≠ some i →
    (s.step call).regs.slotBits (s.can.filters i).extended i =
      s.regs.slotBits (s.can.filters i).extended i
  passes : ∀ filterNum, call = .remove filterNum → ∀ accepts, ∀ i < 14, i ≠ filterNum.toNat →
    ∀ frame, s.Passes accepts i frame → (s.step call).Passes accepts i frame

/-! ### When a call leaves the other slots alone -/

/-- The other slot of the same bank. -/
def sibling (i : ℕ) : ℕ := if i % 2 = 0 then i + 1 else i - 1

/-- Two filters of one bank agree: both are of the same kind, and two that take the whole words
take them for the same bits. -/
def AgreeInBank (filter : CanFilter) (i : ℕ) (other : CanFilter) (j : ℕ) : Prop :=
  filter.extended = other.extended ∧ (filter.extended = true →
    filter.idFilter.toBitVec <<< scaleBit i = other.idFilter.toBitVec <<< scaleBit j ∧
      filter.idMask.toBitVec <<< scaleBit i = other.idMask.toBitVec <<< scaleBit j)

/-- The call leaves the other slot of its bank alone: it is not used, or what is added agrees with
what is there. -/
def CanArm.KeepsSibling (s : CanArm) : FilterCall → Prop
  | .add none => True
  | .add (some filter) => ∀ i ∈ s.can.freeSlot, s.can.filterUsed (sibling i) = true →
      AgreeInBank filter i (s.can.filters (sibling i)) (sibling i)
  | .remove filterNum => filterNum.toNat < 14 → s.can.filterUsed (sibling filterNum.toNat) = false

theorem sibling_div (i : ℕ) : sibling i / 2 = i / 2 := by
  rw [sibling]
  split_ifs <;> omega

theorem sibling_lt {i : ℕ} (hi : i < 14) : sibling i < 14 := by
  rw [sibling]
  split_ifs <;> omega

theorem sibling_ne (i : ℕ) : sibling i ≠ i := by
  rw [sibling]
  split_ifs <;> omega

theorem eq_sibling {i j : ℕ} (hbank : j / 2 = i / 2) (hne : j ≠ i) : j = sibling i := by
  rw [sibling]
  split_ifs <;> omega

/-- The halves of the two slots of a bank do not meet. -/
theorem half_disjoint (i : ℕ) :
    0xFFFF#32 <<< scaleBit i &&& 0xFFFF#32 <<< scaleBit (sibling i) = 0 := by
  rcases Nat.mod_two_eq_zero_or_one i with hi | hi
  · rw [scaleBit, scaleBit, sibling, if_pos hi, hi, show (i + 1) % 2 = 1 by omega]
    rfl
  · rw [scaleBit, scaleBit, sibling, if_neg (by omega), hi, show (i - 1) % 2 = 0 by omega]
    rfl

/-- Eleven bits fit in the half they are shifted to. -/
theorem standard_in_half (x : BitVec 32) (n : ℕ) :
    (x &&& 0x7FF#32) <<< n &&& 0xFFFF#32 <<< n = (x &&& 0x7FF#32) <<< n := by
  rw [← BitVec.shiftLeft_and_distrib, BitVec.and_assoc]
  rfl

/-! ### The banks -/

/-- The word of `FR1` or `FR2` that encodes a filter's identifier or mask in slot `i`. -/
def encodeWord (extended : Bool) (i : ℕ) (x : UInt32) : BitVec 32 :=
  if extended then x.toBitVec <<< scaleBit i else (x.toBitVec &&& 0x7FF#32) <<< scaleBit i

/-- What is written over the word `old`. -/
def programWord (extended : Bool) (i : ℕ) (old : BitVec 32) (x : UInt32) : BitVec 32 :=
  if extended then encodeWord extended i x
  else BitField.write old (0xFFFF#32 <<< scaleBit i) (encodeWord extended i x)

theorem programWord_self (extended : Bool) (i : ℕ) (old : BitVec 32) (x : UInt32) :
    programWord extended i old x &&& slotMask extended i = encodeWord extended i x := by
  cases extended
  · exact BitField.and_of_write (standard_in_half ..) old
  · exact BitVec.and_allOnes

theorem programWord_sibling (i : ℕ) (old : BitVec 32) (x : UInt32) :
    programWord false i old x &&& slotMask false (sibling i) =
      old &&& slotMask false (sibling i) :=
  BitField.and_write_of_disjoint (standard_in_half ..) (half_disjoint i) old

namespace CanFilterRegs

variable (r : CanFilterRegs) {i j : ℕ} (filter : CanFilter)

theorem program_fr1 (i : ℕ) : (r.program i filter).fr1 =
    Function.update r.fr1 (i / 2)
      (programWord filter.extended i (r.fr1 (i / 2)) filter.idFilter) := by
  rw [program, programWord, encodeWord]
  cases filter.extended <;> rfl

theorem program_fr2 (i : ℕ) : (r.program i filter).fr2 =
    Function.update r.fr2 (i / 2)
      (programWord filter.extended i (r.fr2 (i / 2)) filter.idMask) := by
  rw [program, programWord, encodeWord]
  cases filter.extended <;> rfl

theorem program_active (hi : i < 14) (j : ℕ) :
    (r.program i filter).active j = (decide (j / 2 = i / 2) || r.active j) := by
  have hbank : i / 2 < 32 := by omega
  have hfa1r : (r.program i filter).fa1r =
      r.fa1r &&& ~~~(1#32 <<< (i / 2)) ||| 1#32 <<< (i / 2) := by
    rw [program]
    cases filter.extended <;> rfl
  rw [active, hfa1r, BitField.getLsbD_set hbank, BitField.getLsbD_clear hbank, active]
  by_cases h : j / 2 = i / 2 <;> simp [h]

theorem program_scale (hi : i < 14) (j : ℕ) : (r.program i filter).fs1r.getLsbD (j / 2) =
    if j / 2 = i / 2 then filter.extended else r.fs1r.getLsbD (j / 2) := by
  have hbank : i / 2 < 32 := by omega
  rw [program]
  cases filter.extended
  · refine (BitField.getLsbD_clear hbank r.fs1r (j / 2)).trans ?_
    by_cases h : j / 2 = i / 2 <;> simp [h]
  · refine (BitField.getLsbD_set hbank r.fs1r (j / 2)).trans ?_
    by_cases h : j / 2 = i / 2 <;> simp [h]

theorem remove_active (hi : i < 14) (j : ℕ) :
    (r.remove i).active j = (!decide (j / 2 = i / 2) && r.active j) :=
  BitField.getLsbD_clear (by omega) _ _

/-- A filter says nothing of another bank. -/
theorem program_slotBits_of_ne (hi : i < 14) (hbank : j / 2 ≠ i / 2) (extended : Bool) :
    (r.program i filter).slotBits extended j = r.slotBits extended j := by
  rw [slotBits, slotBits, program_scale r filter hi, if_neg hbank, program_fr1, program_fr2,
    Function.update_of_ne hbank, Function.update_of_ne hbank]

/-- The bits of a slot with this filter. -/
def encoding (filter : CanFilter) (i : ℕ) : Bool × BitVec 32 × BitVec 32 :=
  (filter.extended, encodeWord filter.extended i filter.idFilter,
    encodeWord filter.extended i filter.idMask)

/-- A filter is encoded in its slot. -/
theorem program_slotBits_self (hi : i < 14) :
    (r.program i filter).slotBits filter.extended i = encoding filter i := by
  rw [slotBits, program_scale r filter hi, if_pos rfl, program_fr1, program_fr2,
    Function.update_self, Function.update_self, programWord_self, programWord_self, encoding]

/-- What a filter makes of the other slot of its bank. -/
theorem program_slotBits_sibling (hi : i < 14) {other : CanFilter}
    (hother : r.slotBits other.extended (sibling i) = encoding other (sibling i)) :
    (r.program i filter).slotBits other.extended (sibling i) =
        r.slotBits other.extended (sibling i) ↔
      AgreeInBank filter i other (sibling i) := by
  have hbits : (r.program i filter).slotBits other.extended (sibling i) =
      (filter.extended,
        programWord filter.extended i (r.fr1 (i / 2)) filter.idFilter &&&
          slotMask other.extended (sibling i),
        programWord filter.extended i (r.fr2 (i / 2)) filter.idMask &&&
          slotMask other.extended (sibling i)) := by
    rw [slotBits, program_scale r filter hi, if_pos (sibling_div i), program_fr1, program_fr2,
      sibling_div, Function.update_self, Function.update_self]
  by_cases hkind : filter.extended = other.extended
  · have hscale : r.fs1r.getLsbD (i / 2) = other.extended := by
      rw [← sibling_div]
      exact congrArg Prod.fst hother
    cases hext : other.extended
    · -- two halves: the other one is left as it was
      refine iff_of_true ?_ ⟨hkind, fun h => ?_⟩
      · rw [hext] at hbits hscale hkind
        rw [hbits, hkind, programWord_sibling, programWord_sibling, slotBits, sibling_div, hscale]
      · rw [hkind, hext] at h
        cases h
    · have hword : ∀ old x, programWord true i old x &&& slotMask true (sibling i) =
          x.toBitVec <<< scaleBit i := fun _ _ => BitVec.and_allOnes
      rw [← hext, hbits, hother, encoding, AgreeInBank, hkind, hext, hword, hword]
      simp [encodeWord]
  · refine iff_of_false (fun heq => hkind ?_) fun hagree => hkind hagree.1
    rw [hbits, hother] at heq
    exact congrArg Prod.fst heq

end CanFilterRegs

/-! ### Every run -/

/-- Every used slot has an active bank, in which its filter is encoded. -/
structure FiltersEncoded (s : CanArm) : Prop where
  active : s.UsedActive
  bits : ∀ i < 14, s.can.filterUsed i = true →
    s.regs.slotBits (s.can.filters i).extended i = CanFilterRegs.encoding (s.can.filters i) i

theorem filtersEncoded_init (regs : CanFilterRegs) : FiltersEncoded (canArmInit regs) :=
  ⟨fun _ _ hused => absurd hused Bool.false_ne_true,
    fun _ _ hused => absurd hused Bool.false_ne_true⟩

theorem Can.freeSlot_spec {c : Can} {i : ℕ} (h : c.freeSlot = some i) :
    i < 14 ∧ c.filterUsed i = false :=
  ⟨List.mem_range.mp (List.mem_of_find?_eq_some h), by simpa using List.find?_some h⟩

namespace CanArm

variable {s : CanArm} {filter : CanFilter} {filterNum : UInt8} {i : ℕ}

theorem step_add (hfree : s.can.freeSlot = some i) : s.step (.add (some filter)) =
    { can := { s.can with
        filters := Function.update s.can.filters i filter
        filterUsed := Function.update s.can.filterUsed i true }
      regs := s.regs.program i filter } := by
  rw [step, canArmAddFilter, hfree]

theorem step_full (hfree : s.can.freeSlot = none) : s.step (.add (some filter)) = s := by
  rw [step, canArmAddFilter, hfree]

theorem step_remove (hlt : filterNum.toNat < 14) : s.step (.remove filterNum) =
    { can := { s.can with
        filterUsed := Function.update s.can.filterUsed filterNum.toNat false }
      regs := s.regs.remove filterNum.toNat } := by
  rw [step, canArmRemoveFilter, if_neg (Nat.not_le.mpr hlt)]

theorem step_remove_of_ge (hge : 14 ≤ filterNum.toNat) : s.step (.remove filterNum) = s := by
  rw [step, canArmRemoveFilter, if_pos hge]

/-- A slot that is used after one is removed was used and is another one. -/
theorem used_of_remove {j : ℕ}
    (hused : Function.update s.can.filterUsed filterNum.toNat false j = true) :
    j ≠ filterNum.toNat ∧ s.can.filterUsed j = true := by
  by_cases hne : j = filterNum.toNat
  · rw [hne, Function.update_self] at hused
    cases hused
  · exact ⟨hne, (Function.update_of_ne hne false s.can.filterUsed).symm.trans hused⟩

/-- A call that changes nothing. -/
theorem keepsSlots_of_eq {call : FilterCall} (hactive : s.UsedActive) (hstep : s.step call = s) :
    s.KeepsSlots call := by
  refine ⟨?_, fun i _ _ _ => ?_, fun _ _ accepts i _ _ frame hpasses => ?_⟩
  · rwa [hstep]
  · rw [hstep]
  · rwa [hstep]

end CanArm

namespace FiltersEncoded

variable {s : CanArm} {filter : CanFilter} {filterNum : UInt8} {i : ℕ}

theorem add_iff (h : FiltersEncoded s) (hfree : s.can.freeSlot = some i) :
    s.KeepsSlots (.add (some filter)) ↔ s.KeepsSibling (.add (some filter)) := by
  obtain ⟨hi, hunused⟩ := Can.freeSlot_spec hfree
  have hsibling := h.bits _ (sibling_lt hi)
  constructor
  · intro hkeeps i' hi' hused
    obtain rfl := Option.some.inj (hfree.symm.trans hi')
    have hne : s.slot (.add (some filter)) ≠ some (sibling i) := by
      rw [CanArm.slot, hfree]
      exact fun heq => sibling_ne i (Option.some.inj heq).symm
    have hbits := hkeeps.bits _ (sibling_lt hi) hused hne
    rw [CanArm.step_add hfree] at hbits
    exact (s.regs.program_slotBits_sibling filter hi (hsibling hused)).mp hbits
  · intro hagree
    refine ⟨fun j hj hused => ?_, fun j hj hused hne => ?_, fun _ heq => by cases heq⟩
    · rw [CanArm.step_add hfree] at hused ⊢
      show (s.regs.program i filter).active j = true
      rw [CanFilterRegs.program_active _ _ hi]
      by_cases hbank : j / 2 = i / 2
      · simp [hbank]
      · have hji : j ≠ i := by
          rintro rfl
          exact hbank rfl
        rw [h.active j hj ((Function.update_of_ne hji true s.can.filterUsed).symm.trans hused)]
        exact Bool.or_true _
    · rw [CanArm.step_add hfree]
      by_cases hbank : j / 2 = i / 2
      · have hji : j ≠ i := by
          rintro rfl
          exact hne hfree
        obtain rfl := eq_sibling hbank hji
        exact (s.regs.program_slotBits_sibling filter hi (hsibling hused)).mpr
          (hagree i hfree hused)
      · exact s.regs.program_slotBits_of_ne filter hi hbank _

theorem remove_iff (h : FiltersEncoded s) (hlt : filterNum.toNat < 14) :
    s.KeepsSlots (.remove filterNum) ↔ s.KeepsSibling (.remove filterNum) := by
  constructor
  · intro hkeeps hlt
    by_contra hused
    have hactive := hkeeps.active _ (sibling_lt hlt)
    rw [CanArm.step_remove hlt] at hactive
    have hoff := hactive
      ((Function.update_of_ne (sibling_ne _) false s.can.filterUsed).trans (by simpa using hused))
    rw [CanFilterRegs.remove_active _ hlt, sibling_div] at hoff
    simp at hoff
  · intro hfree
    -- a used slot other than this one is not in its bank
    have hbank : ∀ j, j ≠ filterNum.toNat → s.can.filterUsed j = true →
        j / 2 ≠ filterNum.toNat / 2 := by
      intro j hne hused hbank
      rw [eq_sibling hbank hne, hfree hlt] at hused
      cases hused
    have hkept : ∀ j, j ≠ filterNum.toNat → s.can.filterUsed j = true → s.regs.active j = true →
        (s.regs.remove filterNum.toNat).active j = true := by
      intro j hne hused hactive
      rw [CanFilterRegs.remove_active _ hlt, hactive]
      simp [hbank j hne hused]
    refine ⟨fun j hj hused => ?_, fun j hj hused hne => ?_,
      fun n heq accepts j hj hne frame hpasses => ?_⟩
    · rw [CanArm.step_remove hlt] at hused ⊢
      obtain ⟨hne, hused'⟩ := CanArm.used_of_remove hused
      exact hkept j hne hused' (h.active j hj hused')
    · rw [CanArm.step_remove hlt]
      rfl
    · obtain rfl := FilterCall.remove.inj heq
      obtain ⟨hused, hactive, haccepts, hmatches⟩ := hpasses
      rw [CanArm.step_remove hlt]
      exact ⟨(Function.update_of_ne hne false s.can.filterUsed).trans hused,
        hkept j hne hused hactive, haccepts, hmatches⟩

/-- A call leaves the other slots alone exactly if it meets the condition. -/
theorem keepsSlots_iff (h : FiltersEncoded s) (call : FilterCall) :
    s.KeepsSlots call ↔ s.KeepsSibling call := by
  cases call with
  | add filter =>
    cases filter with
    | none => exact iff_of_true (CanArm.keepsSlots_of_eq h.active rfl) trivial
    | some filter =>
      cases hfree : s.can.freeSlot with
      | none =>
        refine iff_of_true (CanArm.keepsSlots_of_eq h.active (CanArm.step_full hfree)) ?_
        intro i hi
        cases hfree.symm.trans hi
      | some i => exact h.add_iff hfree
  | remove filterNum =>
    rcases Nat.lt_or_ge filterNum.toNat 14 with hlt | hge
    · exact h.remove_iff hlt
    · exact iff_of_true (CanArm.keepsSlots_of_eq h.active (CanArm.step_remove_of_ge hge))
        fun hlt => absurd hge (Nat.not_le.mpr hlt)

/-- **One call.** -/
theorem step (h : FiltersEncoded s) {call : FilterCall} (hkeeps : s.KeepsSibling call) :
    FiltersEncoded (s.step call) := by
  have hslots := (h.keepsSlots_iff call).mpr hkeeps
  refine ⟨hslots.active, fun j hj hused => ?_⟩
  cases call with
  | add filter =>
    cases filter with
    | none => exact h.bits j hj hused
    | some filter =>
      cases hfree : s.can.freeSlot with
      | none =>
        rw [CanArm.step_full hfree] at hused ⊢
        exact h.bits j hj hused
      | some i =>
        have hi := (Can.freeSlot_spec hfree).1
        have hbits := hslots.bits j hj
        rw [CanArm.slot, hfree] at hbits
        rw [CanArm.step_add hfree] at hused hbits ⊢
        by_cases hji : j = i
        · subst hji
          dsimp only
          rw [Function.update_self]
          exact s.regs.program_slotBits_self filter hi
        · have hused' := (Function.update_of_ne hji true s.can.filterUsed).symm.trans hused
          dsimp only at hbits ⊢
          rw [Function.update_of_ne hji,
            hbits hused' fun heq => hji (Option.some.inj heq).symm, h.bits j hj hused']
  | remove filterNum =>
    rcases Nat.lt_or_ge filterNum.toNat 14 with hlt | hge
    · rw [CanArm.step_remove hlt] at hused ⊢
      exact h.bits j hj (CanArm.used_of_remove hused).2
    · rw [CanArm.step_remove_of_ge hge] at hused ⊢
      exact h.bits j hj hused

end FiltersEncoded

/-- A call that leaves the other slot of its bank alone. -/
def CanArm.KeepingStep (s : CanArm) (call : FilterCall) (s' : CanArm) : Prop :=
  s.KeepsSibling call ∧ s' = s.step call

/-- **In every run** from `can_init` whose calls leave the other slot of their bank alone, every
used slot has an active bank; and a further call leaves the slots it is not about as they are,
and stops no frame they accept, exactly if it leaves the other slot of its bank alone. -/
theorem canFilters_run {regs : CanFilterRegs} {s : CanArm}
    (hrun : Reaches CanArm.KeepingStep (canArmInit regs) s) :
    s.UsedActive ∧ ∀ call, s.KeepsSlots call ↔ s.KeepsSibling call := by
  have h : FiltersEncoded s := by
    refine hrun.invariant (filtersEncoded_init regs) fun s call s' h hstep => ?_
    obtain ⟨hkeeps, rfl⟩ := hstep
    exact h.step hkeeps
  exact ⟨h.active, h.keepsSlots_iff⟩

/-! ### Two filters in one bank -/

/-- Any call. -/
def CanArm.CallStep (s : CanArm) (call : FilterCall) (s' : CanArm) : Prop := s' = s.step call

/-- Registers as after a reset. -/
def zeroFilterRegs : CanFilterRegs := ⟨0, 0, 0, fun _ => 0, fun _ => 0⟩

/-- A filter for one standard identifier. -/
def standardFilter (id : UInt32) : CanFilter := ⟨0x7FF, id, false⟩

theorem canFilters_run_two : Reaches CanArm.KeepingStep (canArmInit zeroFilterRegs)
      (((canArmInit zeroFilterRegs).step (.add (some (standardFilter 1)))).step
        (.add (some (standardFilter 2)))) ∧
    ((((canArmInit zeroFilterRegs).step (.add (some (standardFilter 1)))).step
      (.add (some (standardFilter 2)))).UsedActive) := by
  have hrun : Reaches CanArm.KeepingStep (canArmInit zeroFilterRegs)
      (((canArmInit zeroFilterRegs).step (.add (some (standardFilter 1)))).step
        (.add (some (standardFilter 2)))) := by
    refine ((Reaches.refl _).tail (i := .add (some (standardFilter 1))) ⟨?_, rfl⟩).tail
      (i := .add (some (standardFilter 2))) ⟨?_, rfl⟩
    · intro i hi _
      obtain rfl : 1 = i := Option.some.inj hi
      exact ⟨rfl, fun h => by cases h⟩
    · intro i hi hused
      obtain rfl : 0 = i := Option.some.inj hi
      cases hused
  exact ⟨hrun, (canFilters_run hrun).1⟩

/-- Two standard filters are added and the second one is removed: the first is still used, but
its bank is off. -/
theorem not_usedActive_removed : ¬ ∀ regs s, Reaches CanArm.CallStep (canArmInit regs) s →
    s.UsedActive ∧ ∀ call, s.KeepsSlots call := by
  intro hall
  have hrun : Reaches CanArm.CallStep (canArmInit zeroFilterRegs)
      ((((canArmInit zeroFilterRegs).step (.add (some (standardFilter 1)))).step
        (.add (some (standardFilter 2)))).step (.remove 1)) :=
    (((Reaches.refl _).tail (i := .add (some (standardFilter 1))) rfl).tail
      (i := .add (some (standardFilter 2))) rfl).tail (i := .remove 1) rfl
  have hactive := (hall _ _ hrun).1 0 (by decide) (by decide)
  exact absurd hactive (by decide)

end Rexus
