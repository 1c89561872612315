import Mathlib.Algebra.BigOperators.Intervals
import Rexus.Mem.PmmInit

/-!
# The counter after initialisation

Every marking of `pmm_init` adds one to the counter, whether the block was marked before or not, and
the first loop goes up to the end of the bitmap, which may lie beyond the last block. So the counter
is right if no block is marked twice, and the marks are within the bitmap if its end is.

## Main results

* `card_usedSet_pmmInit` — the markings are the blocks in use and the repeated markings
* `initCounts_pmmInit_iff` — the maps for which the counter and the marks are right

## Scope

This is about the state that `pmm_init` leaves and not about the calls that come after it, which
keep the difference between the counter and the marks as it is as long as they free only what they
were given: see `Pmm.SameDrift`. The maps are those of `Mem/PmmInit.lean`, any list of entries, in
any order and overlapping as they like.

A block is marked again when a reserved entry covers one below the end of the bitmap, or two
reserved entries cover the same. That the counter is right although blocks have been marked twice
takes `2 ^ 32` repeated markings, which a map can bring about only with thousands of entries; the
condition says so rather than leave it out.
-/

namespace Rexus

open FirstFit Loop Pmm

/-! ### What is to hold -/

/-- The counter is the number of the bits that are set, and only bits of blocks are set: among those
that are clear before, none from `mem_blocks` on. -/
structure InitCounts (memory : Bitmap 32) (boot : PmmBoot) : Prop where
  counted : boot.pmm.Counted
  below : ∀ b, Bitmap.test memory b = false → pmmTestBlock boot.pmm b = true →
    b < boot.pmm.memBlocks

/-- Then the number of free blocks is right. -/
theorem Pmm.Counted.freeBlockCount {s : Pmm} (h : s.Counted) :
    pmmGetFreeBlockCount s = (Finset.range s.memBlocks \ s.usedSet).card := by
  have hsub : s.usedSet ⊆ Finset.range s.memBlocks := fun b hb =>
    Finset.mem_range.mpr (lt_of_mem_usedSet hb)
  have hcard := s.card_usedSet_le
  have hle := s.memBlocks_le
  rw [Finset.card_sdiff_of_subset hsub, Finset.card_range, pmmGetFreeBlockCount,
    show s.memUsedBlocks = s.usedSet.card from h]
  omega

/-! ### How often a block is marked -/

instance (e : MmapEntry) : DecidablePred e.Marks := fun _ =>
  inferInstanceAs (Decidable (_ ∧ _ ∧ _))

/-- How often `pmm_init` marks a block: with those below the end of the bitmap, and once for each
reserved entry that covers it. -/
def markTimes (mmap : List MmapEntry) (b : ℕ) : ℕ :=
  (if b < bitmapEnd (availableTop mmap) / 4096 then 1 else 0) + mmap.countP fun e => e.Marks b

/-- How often it marks a block that is marked already. -/
def repeatedMarks (mmap : List MmapEntry) : ℕ :=
  ∑ b ∈ Finset.range (availableTop mmap / 4096), (markTimes mmap b - 1)

/-- The maps for which the counter and the marks are right: the end of the bitmap is not beyond the
last block, and no block is marked twice, or so many are that the counter has come round. -/
def CountCondition (mmap : List MmapEntry) : Prop :=
  bitmapEnd (availableTop mmap) / 4096 ≤ availableTop mmap / 4096 ∧
    2 ^ 32 ∣ repeatedMarks mmap

section

variable {mmap : List MmapEntry}

theorem markTimes_pos_iff {b : ℕ} : 0 < markTimes mmap b ↔
    b < bitmapEnd (availableTop mmap) / 4096 ∨ ∃ e ∈ mmap, e.Marks b := by
  rw [markTimes, Nat.add_pos_iff_pos_or_pos, List.countP_pos_iff]
  refine or_congr ?_ (by simp)
  split_ifs with hb <;> simp [hb]

/-- No marking is repeated if no two of the ranges meet. -/
theorem repeatedMarks_eq_zero_iff : repeatedMarks mmap = 0 ↔
    ∀ b < availableTop mmap / 4096, markTimes mmap b ≤ 1 := by
  rw [repeatedMarks, Finset.sum_eq_zero_iff]
  simp only [Finset.mem_range, Nat.sub_eq_zero_iff_le]

/-- The markings of one entry. -/
theorem markCount_eq (e : MmapEntry) (n : ℕ) :
    e.markCount n = ∑ b ∈ Finset.range n, if e.Marks b then 1 else 0 := by
  rw [← Finset.card_filter, MmapEntry.markCount]
  split_ifs with htype
  · have hfilter : (Finset.range n).filter e.Marks =
        Finset.Ico (blockStart e) (min (blockEnd e) n) := by
      ext b
      simp only [Finset.mem_filter, Finset.mem_range, Finset.mem_Ico, MmapEntry.Marks]
      omega
    rw [hfilter, Nat.card_Ico]
  · have hfilter : (Finset.range n).filter e.Marks = ∅ :=
      Finset.filter_eq_empty_iff.mpr fun b _ hmarks => htype hmarks.1
    rw [hfilter, Finset.card_empty]

/-- The markings of all entries. -/
theorem sum_markCount (mmap : List MmapEntry) (n : ℕ) :
    (mmap.map (MmapEntry.markCount n)).sum =
      ∑ b ∈ Finset.range n, mmap.countP fun e => e.Marks b := by
  induction mmap with
  | nil => simp
  | cons e mmap ih =>
    rw [List.map_cons, List.sum_cons, ih, markCount_eq, ← Finset.sum_add_distrib]
    refine Finset.sum_congr rfl fun b _ => ?_
    rw [List.countP_cons, Nat.add_comm]
    simp

/-- The markings of both loops. -/
theorem sum_markTimes (hend : bitmapEnd (availableTop mmap) / 4096 ≤ availableTop mmap / 4096) :
    bitmapEnd (availableTop mmap) / 4096 +
        (mmap.map (MmapEntry.markCount (availableTop mmap / 4096))).sum =
      ∑ b ∈ Finset.range (availableTop mmap / 4096), markTimes mmap b := by
  have hfilter : (Finset.range (availableTop mmap / 4096)).filter
      (· < bitmapEnd (availableTop mmap) / 4096) =
        Finset.range (bitmapEnd (availableTop mmap) / 4096) := by
    ext b
    simp only [Finset.mem_filter, Finset.mem_range]
    omega
  simp only [markTimes]
  rw [Finset.sum_add_distrib, ← Finset.card_filter, hfilter, Finset.card_range, sum_markCount]

end

/-! ### The counter -/

section

variable {mbootInfo : MultibootInfo}

/-- The blocks in use are those that are marked at least once. -/
theorem card_usedSet_pmmInit (memory : Bitmap 32) (hflag : mbootInfo.flags &&& 0x40#32 ≠ 0#32) :
    (pmmInit memory mbootInfo).pmm.usedSet.card + repeatedMarks mbootInfo.mmap =
      ∑ b ∈ Finset.range (availableTop mbootInfo.mmap / 4096), markTimes mbootInfo.mmap b := by
  have hused : (pmmInit memory mbootInfo).pmm.usedSet =
      (Finset.range (availableTop mbootInfo.mmap / 4096)).filter
        fun b => 0 < markTimes mbootInfo.mmap b := by
    ext b
    rw [mem_usedSet, memBlocks_pmmInit memory hflag, Finset.mem_filter, Finset.mem_range]
    refine and_congr_right fun hb => ?_
    rw [pmmTestBlock_pmmInit memory hflag hb, markTimes_pos_iff]
  rw [hused, Finset.card_filter, repeatedMarks, ← Finset.sum_add_distrib]
  refine Finset.sum_congr rfl fun b _ => ?_
  split_ifs <;> omega

/-- What is clear and not marked is clear. -/
theorem test_of_test_clearBytes {m : Bitmap 32} {size b : ℕ}
    (h : Bitmap.test (clearBytes m size) b = true) : Bitmap.test m b = true := by
  rw [Bitmap.test_eq_getLsbD (by decide), clearBytes] at h
  rw [Bitmap.test_eq_getLsbD (by decide)]
  split_ifs at h with hw
  · rw [BitVec.getLsbD_zero] at h
    cases h
  · rw [BitVec.getLsbD_shiftLeft, BitVec.getLsbD_ushiftRight] at h
    simp only [Bool.and_eq_true, Bool.not_eq_true', decide_eq_true_eq, decide_eq_false_iff_not,
      not_lt] at h
    rw [Nat.add_sub_cancel' h.1.2] at h
    exact h.2

theorem below_iff (hflag : mbootInfo.flags &&& 0x40#32 ≠ 0#32) :
    (∀ memory b, Bitmap.test memory b = false →
        pmmTestBlock (pmmInit memory mbootInfo).pmm b = true →
        b < (pmmInit memory mbootInfo).pmm.memBlocks) ↔
      bitmapEnd (availableTop mbootInfo.mmap) / 4096 ≤ availableTop mbootInfo.mmap / 4096 := by
  constructor
  · intro hbelow
    by_contra hend
    have hb := hbelow (fun _ => 0#32) (availableTop mbootInfo.mmap / 4096) (by simp [Bitmap.test])
      (((marked_pmmInit _ hflag).test _).mpr (Or.inl (Or.inl (Nat.lt_of_not_le hend))))
    rw [memBlocks_pmmInit _ hflag] at hb
    exact Nat.lt_irrefl _ hb
  · intro hend memory b hclear htest
    rw [memBlocks_pmmInit memory hflag]
    rcases ((marked_pmmInit memory hflag).test b).mp htest with (hb | ⟨-, hb⟩) | hset
    · exact Nat.lt_of_lt_of_le hb hend
    · exact hb
    · rw [show Bitmap.test memory b = true from test_of_test_clearBytes hset] at hclear
      cases hclear

/-- **The counter and the marks** are right, whatever the memory of the bitmap holds, exactly for
these maps. -/
theorem initCounts_pmmInit_iff (mbootInfo : MultibootInfo)
    (hflag : mbootInfo.flags &&& 0x40#32 ≠ 0#32) :
    (∀ memory, InitCounts memory (pmmInit memory mbootInfo)) ↔ CountCondition mbootInfo.mmap := by
  have hcounted : bitmapEnd (availableTop mbootInfo.mmap) / 4096 ≤
      availableTop mbootInfo.mmap / 4096 → ∀ memory, ((pmmInit memory mbootInfo).pmm.Counted ↔
        2 ^ 32 ∣ repeatedMarks mbootInfo.mmap) := by
    intro hend memory
    have hcard := card_usedSet_pmmInit memory hflag
    have hle := (pmmInit memory mbootInfo).pmm.card_usedSet_le
    have hblocks := (pmmInit memory mbootInfo).pmm.memBlocks_le
    rw [Counted, memUsedBlocks_pmmInit memory hflag, sum_markTimes hend, ← hcard]
    omega
  constructor
  · intro h
    have hend := (below_iff hflag).mp fun memory => (h memory).below
    exact ⟨hend, (hcounted hend fun _ => 0#32).mp (h fun _ => 0#32).counted⟩
  · rintro ⟨hend, hdvd⟩ memory
    exact ⟨(hcounted hend memory).mpr hdvd, (below_iff hflag).mpr hend memory⟩

end

/-! ### Two maps -/

/-- On a map of one available range no block is marked twice. -/
theorem initCounts_pmmInit_64M :
    InitCounts (fun _ => 0#32) (pmmInit (fun _ => 0#32) ⟨0x40#32, [⟨0, 0x4000000, 1⟩]⟩) := by
  refine (initCounts_pmmInit_iff ⟨0x40#32, [⟨0, 0x4000000, 1⟩]⟩ (by decide)).mpr
    ⟨by decide, ?_⟩ (fun _ => 0#32)
  rw [repeatedMarks_eq_zero_iff.mpr fun b hb => ?_]
  · exact Nat.dvd_zero _
  · have hfree : ¬(⟨0, 0x4000000, 1⟩ : MmapEntry).Marks b := fun hmarks => hmarks.1 rfl
    rw [markTimes, List.countP_cons_of_neg (by simpa using hfree), List.countP_nil]
    split_ifs <;> simp

/-- On the map of a machine with 128 MiB the counter is higher than the number of blocks. -/
theorem not_initCounts_mmap128M :
    ¬ InitCounts (fun _ => 0#32) (pmmInit (fun _ => 0#32) ⟨0x40#32, mmap128M⟩) := by
  intro h
  have hflag : (⟨0x40#32, mmap128M⟩ : MultibootInfo).flags &&& 0x40#32 ≠ 0#32 := by decide
  have hused := memUsedBlocks_pmmInit (fun _ => 0#32) hflag
  have hblocks := memBlocks_pmmInit (fun _ => 0#32) hflag
  have hcard := (pmmInit (fun _ => 0#32) ⟨0x40#32, mmap128M⟩).pmm.card_usedSet_le
  rw [← show _ = _ from h.counted, hused, hblocks] at hcard
  exact absurd hcard (by decide)

end Rexus
