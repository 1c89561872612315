import Rexus.Mem.Pmm

/-!
# The search for free blocks

What `pmm_find_first_free_blocks` of `mem/pmm.c` returns, as the number it is: the branch for a
single block and the scan for a run meet one specification, and the scan would do for both.

## Main results

* `pmmFindFirstFreeBlocks_findsLeast`

## Conventions

The result is a word of 32 bits, as in the source, where `-1` is the word of all ones; `mem_blocks`
is at most `2 ^ 20`, so no block has this number. A count of zero finds nothing. The search reads
the bitmap and nothing else, so it is a function of the allocator alone, and the specification is
said of the bits that are clear and not of what has been freed.

The source looks for a single block in a loop of its own, which returns at the first clear bit; the
loop for a run counts clear bits and starts again behind a set one. Both stop at `mem_blocks`, and
both look at the blocks in order, which is why the run that is found is the least.
-/

namespace Rexus

open FirstFit

/-- The bits of `count` blocks from `b` on are clear, and the blocks lie below `mem_blocks`. -/
def Pmm.Clear (s : Pmm) (count b : ℕ) : Prop :=
  b + count ≤ s.memBlocks ∧ ∀ i, b ≤ i → i < b + count → pmmTestBlock s i = false

/-- The least of the clear runs, if `count` is not zero and there is one. -/
structure FindsLeast (s : Pmm) (count : ℕ) (found : Option ℕ) : Prop where
  none_iff : found = none ↔ count = 0 ∨ ¬ ∃ b, s.Clear count b
  least : ∀ b, found = some b → s.Clear count b ∧ ∀ c, s.Clear count c → b ≤ c

/-- The 32-bit number that is returned. -/
def int32OfFound : Option ℕ → ℤ
  | none => -1
  | some b => (BitVec.ofNat 32 b).toInt

variable {s : Pmm} {count : ℕ}

theorem clear_iff {b : ℕ} :
    s.Clear count b ↔ IsRun (fun i => !pmmTestBlock s i) s.memBlocks count b := by
  refine and_congr_right fun _ => ⟨fun h k hk => ?_, fun h i hbi hi => ?_⟩
  · show (!pmmTestBlock s (b + k)) = true
    rw [h (b + k) (Nat.le_add_right b k) (Nat.add_lt_add_left hk b)]
    rfl
  · have hfree : (!pmmTestBlock s (b + (i - b))) = true := h (i - b) (by omega)
    rwa [Nat.add_sub_cancel' hbi, Bool.not_eq_true'] at hfree

/-- What is found is a block number, and stays one as a signed number. -/
theorem FindsLeast.int32_eq {found : Option ℕ} (h : FindsLeast s count found) :
    (int32OfFound found = -1 ↔ found = none) ∧
      ∀ b, found = some b → int32OfFound found = b := by
  have hvalue : ∀ b, found = some b → int32OfFound found = b := by
    rintro b rfl
    have hlt := (h.least b rfl).1.1
    have hblocks := s.memBlocks_le
    rw [int32OfFound, BitVec.toInt_eq_toNat_of_lt, BitVec.toNat_ofNat, Nat.mod_eq_of_lt (by omega)]
    rw [BitVec.toNat_ofNat, Nat.mod_eq_of_lt (by omega)]
    omega
  refine ⟨⟨fun hneg => ?_, fun hnone => by rw [hnone]; rfl⟩, hvalue⟩
  cases hfound : found with
  | none => rfl
  | some b =>
    have hb := hvalue b hfound
    omega

theorem findsLeast_scanRun (s : Pmm) (count : ℕ) :
    FindsLeast s (count + 1)
      (scanRun (fun i => !pmmTestBlock s i) (count + 1) s.memBlocks 0 0 none) := by
  refine ⟨?_, fun b hb => ?_⟩
  · rw [scanRun_eq_none_iff (Nat.succ_pos count), or_iff_right (Nat.succ_ne_zero count),
      not_exists]
    simp only [clear_iff]
  · obtain ⟨hrun, hleast⟩ := (scanRun_eq_some_iff (Nat.succ_pos count)).mp hb
    exact ⟨clear_iff.mpr hrun, fun c hc => hleast c (clear_iff.mp hc)⟩

theorem findsLeast_find (s : Pmm) (count : ℕ) :
    FindsLeast s count (pmmFindFirstFreeBlocks s count) := by
  refine ⟨?_, fun b hb => ?_⟩
  · rw [pmmFindFirstFreeBlocks_eq_none_iff, not_exists]
    simp only [clear_iff]
    rfl
  · obtain ⟨-, hrun, hleast⟩ := pmmFindFirstFreeBlocks_eq_some_iff.mp hb
    exact ⟨clear_iff.mpr hrun, fun c hc => hleast c (clear_iff.mp hc)⟩

/-- **The search** for any number of blocks returns -1 exactly if the number is zero or there is no
clear run of that length, and else the start of the first; the branch for one block and the scan
for a run meet this specification each. -/
theorem pmmFindFirstFreeBlocks_findsLeast (s : Pmm) (count : ℕ) :
    (int32OfFound (pmmFindFirstFreeBlocks s count) = -1 ↔
        count = 0 ∨ ¬ ∃ b, s.Clear count b) ∧
      (count ≠ 0 ∧ (∃ b, s.Clear count b) →
        ∃ b : ℕ, int32OfFound (pmmFindFirstFreeBlocks s count) = b ∧ s.Clear count b ∧
          ∀ c, s.Clear count c → b ≤ c) ∧
      FindsLeast s 1 (scanOne (fun i => !pmmTestBlock s i) s.memBlocks 0) ∧
      ∀ n, FindsLeast s (n + 1)
        (scanRun (fun i => !pmmTestBlock s i) (n + 1) s.memBlocks 0 0 none) := by
  have h := findsLeast_find s count
  refine ⟨h.int32_eq.1.trans h.none_iff, ?_, findsLeast_find s 1, findsLeast_scanRun s⟩
  rintro ⟨hcount, hrun⟩
  cases hfound : pmmFindFirstFreeBlocks s count with
  | none => exact absurd (h.none_iff.mp hfound) (not_or.mpr ⟨hcount, not_not.mpr hrun⟩)
  | some b => exact ⟨b, hfound ▸ h.int32_eq.2 b hfound, h.least b hfound⟩

end Rexus
