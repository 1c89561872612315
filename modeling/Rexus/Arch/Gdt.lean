import Mathlib.Logic.Function.Basic
import Rexus.Lib.BitField

/-!
# Segment descriptors

`arch/x86/gdt.c`. A descriptor has its base in three parts and its limit in two, of which the upper
shares a byte with four flags. The limit of a segment is the offset of its last byte.

What is read from a descriptor is here what the processor reads: the parts, put together by
concatenation.

## Main results

* `gdtSetGate_spec` — what a descriptor is read as after it has been written
* `gatesRight_iff` — for which addresses the descriptor of the TSS is right
* `gdtInit_segments` — the segments that `gdt_init` sets up

## Scope

The descriptors are written with the values that `gdt_init` and `tss_set_gate` give them, and with
any others; a write with a number for which there is no entry has no result, as the array ends
there. The task state segment has only the fields that are not left at zero. Its address is an
argument, since the linker decides where it is, and what is proved of its descriptor is for every
address.

What the two instructions at the end of `gdt_init` do, `lgdt` and `ltr`, is left out, and with it
when the processor reads a descriptor: here it is the one that is in the table. The limit of a
descriptor counts pages if its granularity flag is set, and `size` takes that into account.
-/

namespace Rexus

/-- `gdt_entry_t`. -/
structure GdtEntry where
  limitLow : UInt16
  baseLow : UInt16
  baseMiddle : UInt8
  access : UInt8
  granularity : UInt8
  baseHigh : UInt8

/-- `gdt_ptr_t`. -/
structure GdtPtr where
  limit : UInt16
  base : UInt32

/-- The fields of `tss_entry_t` that are not only cleared. -/
structure TssEntry where
  esp0 : UInt32
  ss0 : UInt32
  iomapBase : UInt16

/-- `gdt_entries`, of which there are six, `gdt_ptr` and `tss_entry`. -/
structure Gdt where
  gdtEntries : ℕ → GdtEntry
  gdtPtr : GdtPtr
  tssEntry : TssEntry

/-- `sizeof(gdt_entry_t)`. -/
def gdtEntrySize : ℕ := 2 * 2 + 4

/-- `sizeof(tss_entry_t)`: twenty-five words and two half words. -/
def tssEntrySize : ℕ := 25 * 4 + 2 * 2

/-- Is there an entry of this number? -/
def InGdt (num : Int32) : Prop := 0 ≤ num.toInt ∧ num.toInt < 6

instance (num : Int32) : Decidable (InGdt num) := inferInstanceAs (Decidable (_ ∧ _))

/-- The fields as `gdt_set_gate` writes them. -/
def gdtEntry (base limit : UInt32) (access gran : UInt8) : GdtEntry where
  baseLow := (base &&& 0xFFFF).toUInt16
  baseMiddle := ((base >>> 16) &&& 0xFF).toUInt8
  baseHigh := ((base >>> 24) &&& 0xFF).toUInt8
  limitLow := (limit &&& 0xFFFF).toUInt16
  granularity := ((limit >>> 16) &&& 0x0F).toUInt8 ||| (gran &&& 0xF0)
  access := access

/-- `gdt_set_gate`, or `none` where it writes outside `gdt_entries`. -/
def gdtSetGate (s : Gdt) (num : Int32) (base limit : UInt32) (access gran : UInt8) : Option Gdt :=
  if InGdt num then
    some { s with
      gdtEntries :=
        Function.update s.gdtEntries num.toInt.toNat (gdtEntry base limit access gran) }
  else none

/-- `tss_set_gate`, where `tss_entry` is at the address `tss`. -/
def tssSetGate (tss : UInt32) (s : Gdt) (num : Int32) (ss0 : UInt16) (esp0 : UInt32) : Option Gdt :=
  let base := tss
  let limit := base + UInt32.ofNat tssEntrySize
  (gdtSetGate s num base limit 0xE9 0x00).map fun s =>
    { s with tssEntry := { s.tssEntry with ss0 := ss0.toUInt32, esp0 } }

/-- `gdt_init`, up to the two instructions at its end that load the registers. -/
def gdtInit (gdt tss : UInt32) (s : Gdt) : Option Gdt := do
  let s := { s with
    gdtPtr := ⟨UInt16.ofNat (gdtEntrySize * 6 - 1), gdt⟩
    tssEntry := { ss0 := 0x10, esp0 := 0, iomapBase := UInt16.ofNat tssEntrySize } }
  let s ← gdtSetGate s 0 0 0 0 0
  let s ← gdtSetGate s 1 0 0xFFFFFFFF 0x9A 0xCF
  let s ← gdtSetGate s 2 0 0xFFFFFFFF 0x92 0xCF
  let s ← gdtSetGate s 3 0 0xFFFFFFFF 0xFA 0xCF
  let s ← gdtSetGate s 4 0 0xFFFFFFFF 0xF2 0xCF
  tssSetGate tss s 5 0x10 0

/-! ### What a descriptor is read as -/

namespace GdtEntry

/-- The base. -/
def base (e : GdtEntry) : BitVec 32 :=
  (e.baseHigh.toBitVec ++ e.baseMiddle.toBitVec) ++ e.baseLow.toBitVec

/-- The limit. -/
def limit (e : GdtEntry) : BitVec 20 :=
  e.granularity.toBitVec.extractLsb' 0 4 ++ e.limitLow.toBitVec

/-- The four flags beside the limit. -/
def flags (e : GdtEntry) : BitVec 4 := e.granularity.toBitVec.extractLsb' 4 4

/-- The bytes of the segment: the uppermost flag says that the limit counts pages. -/
def size (e : GdtEntry) : ℕ :=
  if e.flags.getLsbD 3 then (e.limit.toNat + 1) * 4096 else e.limit.toNat + 1

/-- A descriptor that is read as it was meant, but for the part of the limit it has no room for. -/
structure Describes (e : GdtEntry) (base limit : UInt32) (access gran : UInt8) : Prop where
  base : e.base = base.toBitVec
  limit : e.limit.toNat = limit.toNat % 2 ^ 20
  access : e.access = access
  flags : e.flags = gran.toBitVec.extractLsb' 4 4

end GdtEntry

/-- What the two functions should do, where `tss_entry` is at the address `tss`: a descriptor is
read as it was meant, and that of the TSS has its address and the offset of its last byte. -/
structure GatesRight (tss : UInt32) : Prop where
  gate : ∀ s num base limit access gran, InGdt num →
    ∃ s', gdtSetGate s num base limit access gran = some s' ∧
      (s'.gdtEntries num.toInt.toNat).Describes base limit access gran
  tss : ∀ s num ss0 esp0, InGdt num →
    ∃ s', tssSetGate tss s num ss0 esp0 = some s' ∧
      (s'.gdtEntries num.toInt.toNat).base = tss.toBitVec ∧
      (s'.gdtEntries num.toInt.toNat).limit.toNat = tssEntrySize - 1

/-! ### The parts -/

variable {s : Gdt} {num : Int32}

theorem base_gdtEntry (base limit : UInt32) (access gran : UInt8) :
    (gdtEntry base limit access gran).base = base.toBitVec := by
  have hlow : (gdtEntry base limit access gran).baseLow.toBitVec =
      base.toBitVec.extractLsb' 0 16 := BitField.setWidth_ushiftRight_and rfl base.toBitVec 0
  have hmiddle : (gdtEntry base limit access gran).baseMiddle.toBitVec =
      base.toBitVec.extractLsb' 16 8 := BitField.setWidth_ushiftRight_and rfl base.toBitVec 16
  have hhigh : (gdtEntry base limit access gran).baseHigh.toBitVec =
      base.toBitVec.extractLsb' 24 8 := BitField.setWidth_ushiftRight_and rfl base.toBitVec 24
  rw [GdtEntry.base, hlow, hmiddle, hhigh,
    BitVec.extractLsb'_append_extractLsb'_eq_extractLsb' (by decide : 24 = 16 + 8),
    BitVec.extractLsb'_append_extractLsb'_eq_extractLsb' (by decide : 16 = 0 + 16)]
  exact BitVec.extractLsb'_eq_self

theorem granularity_gdtEntry (base limit : UInt32) (access gran : UInt8) :
    (gdtEntry base limit access gran).granularity.toBitVec =
      (limit.toBitVec >>> 16 &&& 0x0F#32).setWidth 8 ||| gran.toBitVec &&& 0xF0#8 := rfl

theorem limit_gdtEntry (base limit : UInt32) (access gran : UInt8) :
    (gdtEntry base limit access gran).limit = limit.toBitVec.extractLsb' 0 20 := by
  have hlow : (gdtEntry base limit access gran).limitLow.toBitVec =
      limit.toBitVec.extractLsb' 0 16 := BitField.setWidth_ushiftRight_and rfl limit.toBitVec 0
  -- the mask of the flags has nothing in the lower half of the byte
  have hflags : (gran.toBitVec &&& 0xF0#8).extractLsb' 0 4 = 0#4 := by
    have hzero : (0xF0#8).extractLsb' 0 4 = 0#4 := rfl
    rw [BitVec.extractLsb'_and, hzero, BitVec.and_zero]
  have hupper : (gdtEntry base limit access gran).granularity.toBitVec.extractLsb' 0 4 =
      limit.toBitVec.extractLsb' 16 4 := by
    rw [granularity_gdtEntry, BitVec.extractLsb'_or, hflags, BitVec.or_zero,
      BitVec.extractLsb'_setWidth_of_le (by decide), ← BitVec.setWidth_eq_extractLsb' (by decide)]
    exact BitField.setWidth_ushiftRight_and rfl limit.toBitVec 16
  rw [GdtEntry.limit, hlow, hupper,
    BitVec.extractLsb'_append_extractLsb'_eq_extractLsb' (by decide : 16 = 0 + 16)]

theorem flags_gdtEntry (base limit : UInt32) (access gran : UInt8) :
    (gdtEntry base limit access gran).flags = gran.toBitVec.extractLsb' 4 4 := by
  have hmask : (0xF0#8).extractLsb' 4 4 = BitVec.allOnes 4 := rfl
  -- and that of the limit nothing in the upper half
  have hlimit : ((limit.toBitVec >>> 16 &&& 0x0F#32).setWidth 8).extractLsb' 4 4 = 0#4 := by
    have hzero : (0x0F#32).extractLsb' 4 4 = 0#4 := rfl
    rw [BitVec.extractLsb'_setWidth_of_le (by decide), BitVec.extractLsb'_and, hzero,
      BitVec.and_zero]
  rw [GdtEntry.flags, granularity_gdtEntry, BitVec.extractLsb'_or, hlimit, BitVec.zero_or,
    BitVec.extractLsb'_and, hmask, BitVec.and_allOnes]

theorem describes_gdtEntry (base limit : UInt32) (access gran : UInt8) :
    (gdtEntry base limit access gran).Describes base limit access gran where
  base := base_gdtEntry base limit access gran
  limit := by
    rw [limit_gdtEntry, BitVec.extractLsb'_toNat]
    rfl
  access := rfl
  flags := flags_gdtEntry base limit access gran

/-- The bytes of a segment, of what its descriptor was meant to say. -/
theorem GdtEntry.Describes.size_eq {e : GdtEntry} {base limit : UInt32} {access gran : UInt8}
    (h : e.Describes base limit access gran) :
    e.size = if gran.toBitVec.getLsbD 7 then (limit.toNat % 2 ^ 20 + 1) * 4096
      else limit.toNat % 2 ^ 20 + 1 := by
  rw [GdtEntry.size, h.flags, h.limit, BitVec.getLsbD_extractLsb']
  rfl

/-! ### The functions -/

/-- **What is written**: a descriptor that is read as it was meant, and no other. -/
theorem gdtSetGate_spec (hnum : InGdt num) (base limit : UInt32) (access gran : UInt8) :
    ∃ s', gdtSetGate s num base limit access gran = some s' ∧
      (s'.gdtEntries num.toInt.toNat).Describes base limit access gran ∧
      (∀ i, i ≠ num.toInt.toNat → s'.gdtEntries i = s.gdtEntries i) ∧
      s'.gdtPtr = s.gdtPtr ∧ s'.tssEntry = s.tssEntry := by
  rw [gdtSetGate, if_pos hnum]
  refine ⟨_, rfl, ?_, fun i hi => Function.update_of_ne hi _ _, rfl, rfl⟩
  dsimp only
  rw [Function.update_self]
  exact describes_gdtEntry base limit access gran

/-- The descriptor of the TSS has its address, and the limit is that of a segment which goes on to
the end of the TSS from address zero. -/
theorem tssSetGate_spec (tss : UInt32) (hnum : InGdt num) (ss0 : UInt16) (esp0 : UInt32) :
    ∃ s', tssSetGate tss s num ss0 esp0 = some s' ∧
      (s'.gdtEntries num.toInt.toNat).Describes tss (tss + UInt32.ofNat tssEntrySize) 0xE9 0 ∧
      (∀ i, i ≠ num.toInt.toNat → s'.gdtEntries i = s.gdtEntries i) ∧
      s'.gdtPtr = s.gdtPtr ∧ s'.tssEntry = { s.tssEntry with ss0 := ss0.toUInt32, esp0 } := by
  obtain ⟨s', hset, hentry, hother, hptr, htss⟩ := gdtSetGate_spec hnum (s := s) tss
    (tss + UInt32.ofNat tssEntrySize) 0xE9 0
  rw [tssSetGate, hset]
  exact ⟨_, rfl, hentry, hother, hptr, by rw [← htss]⟩

theorem tssLimit_eq_iff (tss : UInt32) :
    (tss + UInt32.ofNat tssEntrySize).toNat % 2 ^ 20 = tssEntrySize - 1 ↔
      tss.toNat % 2 ^ 20 = 2 ^ 20 - 1 := by
  have hsize : (UInt32.ofNat tssEntrySize).toNat = 104 := rfl
  have hlast : tssEntrySize - 1 = 103 := rfl
  rw [UInt32.toNat_add, hsize, hlast]
  omega

theorem GatesRight.low_bits {tss : UInt32} (h : GatesRight tss) :
    tss.toNat % 2 ^ 20 = 2 ^ 20 - 1 := by
  have hnum : InGdt 5 := by decide
  obtain ⟨s', hset, -, hlimit⟩ := h.tss ⟨fun _ => gdtEntry 0 0 0 0, ⟨0, 0⟩, ⟨0, 0, 0⟩⟩ 5 0x10 0 hnum
  obtain ⟨s'', hset', hentry, -⟩ := tssSetGate_spec tss hnum 0x10 0
  obtain rfl := Option.some_inj.mp (hset.symm.trans hset')
  rw [hentry.limit] at hlimit
  exact (tssLimit_eq_iff tss).mp hlimit

/-- **For which addresses the descriptors are right**: those whose low twenty bits are all one, so
that the sum of address and size is the size less one in the bits of the limit. -/
theorem gatesRight_iff (tss : UInt32) :
    GatesRight tss ↔ tss.toNat % 2 ^ 20 = 2 ^ 20 - 1 := by
  refine ⟨GatesRight.low_bits, fun hlow => ⟨fun s num base limit access gran hnum => ?_,
    fun s num ss0 esp0 hnum => ?_⟩⟩
  · obtain ⟨s', hset, hentry, -⟩ := gdtSetGate_spec hnum base limit access gran
    exact ⟨s', hset, hentry⟩
  · obtain ⟨s', hset, hentry, -⟩ := tssSetGate_spec tss hnum ss0 esp0
    exact ⟨s', hset, hentry.base, hentry.limit.trans ((tssLimit_eq_iff tss).mpr hlow)⟩

/-- A TSS at the start of a page. -/
theorem not_gatesRight : ¬ ∀ tss, GatesRight tss := fun h =>
  absurd (h 0xC0105000).low_bits (by decide)

/-- **The segments** after the set-up: two for code and two for data, each of them all of memory,
and one that starts at the TSS and has the low twenty bits of its end for a limit. -/
theorem gdtInit_segments (gdt tss : UInt32) (s : Gdt) :
    ∃ s', gdtInit gdt tss s = some s' ∧
      s'.gdtPtr.limit.toNat = 6 * gdtEntrySize - 1 ∧ s'.gdtPtr.base = gdt ∧
      (∀ i, 1 ≤ i → i ≤ 4 → (s'.gdtEntries i).base = 0#32 ∧ (s'.gdtEntries i).size = 2 ^ 32) ∧
      (s'.gdtEntries 5).base = tss.toBitVec ∧
      (s'.gdtEntries 5).size = (tss.toNat + tssEntrySize) % 2 ^ 20 + 1 := by
  have hflat (e : GdtEntry) (access : UInt8) (he : e = gdtEntry 0 0xFFFFFFFF access 0xCF) :
      e.base = 0#32 ∧ e.size = 2 ^ 32 := by
    have hmeant := describes_gdtEntry 0 0xFFFFFFFF access 0xCF
    rw [he]
    exact ⟨hmeant.base, hmeant.size_eq⟩
  have htss := describes_gdtEntry tss (tss + UInt32.ofNat tssEntrySize) 0xE9 0
  refine ⟨_, rfl, rfl, rfl, fun i hfirst hlast => ?_, htss.base, htss.size_eq.trans ?_⟩
  · obtain rfl | rfl | rfl | rfl : i = 1 ∨ i = 2 ∨ i = 3 ∨ i = 4 := by omega
    · exact hflat _ 0x9A rfl
    · exact hflat _ 0x92 rfl
    · exact hflat _ 0xFA rfl
    · exact hflat _ 0xF2 rfl
  · have hsize : (UInt32.ofNat tssEntrySize).toNat = 104 := rfl
    have hbytes : tssEntrySize = 104 := rfl
    rw [if_neg (by decide), UInt32.toNat_add, hsize, hbytes]
    omega

/-- The last of them has the whole TSS in it, unless the end of the TSS is behind a multiple of
`2 ^ 20` by less than the limit it should have. -/
theorem gdtInit_tss_inside_iff {gdt tss : UInt32} {s' : Gdt} (h : gdtInit gdt tss s = some s') :
    tssEntrySize ≤ (s'.gdtEntries 5).size ↔
      tss.toNat % 2 ^ 20 < 2 ^ 20 - tssEntrySize ∨ tss.toNat % 2 ^ 20 = 2 ^ 20 - 1 := by
  obtain ⟨s'', hinit, -, -, -, -, hsize⟩ := gdtInit_segments gdt tss s
  obtain rfl := Option.some_inj.mp (hinit.symm.trans h)
  have hbytes : tssEntrySize = 104 := rfl
  rw [hsize, hbytes]
  omega

end Rexus
