import Mathlib.Algebra.Group.Nat.Defs
import Mathlib.Data.Nat.Init
import Mathlib.Tactic.Common

/-!
# Words that pack an aligned address and flags

An address that is a multiple of `2 ^ k` leaves the low `k` bits of its word free, and page tables,
tagged pointers and the like keep flags there. `pack` puts the two together with a bitwise or; the
two masks take them apart again.

## Main results

* `AlignedWord.high_pack`, `AlignedWord.low_pack` — what was packed is what is unpacked
* `AlignedWord.toNat_high` — masking the low bits rounds down
* `AlignedWord.high_add_low` — an address put together from two words, read as one concatenation

## Conventions

A block is a number `b`, and its address is `b * 2 ^ k`; the two are kept apart, since a block
number is what an allocator counts and an address is what a word has room for. Words have any width.
Nothing is said of what the flags mean: `pack` takes any word, and the lemmas that take the two
apart again ask for one that has only low bits, `f &&& lowMask w k = f`.

An address that is no multiple of `2 ^ k` is not the address of a block. What a program does that
masks such an address and goes on is the business of the program: it works on the block that the
address lies in, and `toNat_high` says which one that is.
-/

namespace AlignedWord

variable {w k : ℕ}

/-- The mask of the low `k` bits. -/
def lowMask (w k : ℕ) : BitVec w := BitVec.ofNat w (2 ^ k - 1)

/-- The word that keeps address `b * 2 ^ k` and the flags `f`. -/
def pack (k b : ℕ) (f : BitVec w) : BitVec w := BitVec.ofNat w (b * 2 ^ k) ||| f

theorem getLsbD_lowMask (w k i : ℕ) :
    (lowMask w k).getLsbD i = (decide (i < w) && decide (i < k)) := by
  rw [lowMask, BitVec.getLsbD_ofNat, Nat.testBit_two_pow_sub_one]

theorem getLsbD_and_lowMask (f : BitVec w) (i : ℕ) :
    (f &&& lowMask w k).getLsbD i = (f.getLsbD i && decide (i < k)) := by
  rw [BitVec.getLsbD_and, getLsbD_lowMask]
  by_cases hi : i < w
  · simp [hi]
  · simp [BitVec.getLsbD_of_ge f i (Nat.le_of_not_lt hi)]

theorem getLsbD_and_not_lowMask (f : BitVec w) (i : ℕ) :
    (f &&& ~~~ lowMask w k).getLsbD i = (f.getLsbD i && !decide (i < k)) := by
  rw [BitVec.getLsbD_and, BitVec.getLsbD_not, getLsbD_lowMask]
  by_cases hi : i < w
  · simp [hi]
  · simp [BitVec.getLsbD_of_ge f i (Nat.le_of_not_lt hi)]

theorem getLsbD_aligned (w k b i : ℕ) :
    (BitVec.ofNat w (b * 2 ^ k)).getLsbD i =
      (decide (i < w) && (decide (k ≤ i) && b.testBit (i - k))) := by
  rw [BitVec.getLsbD_ofNat, ← Nat.shiftLeft_eq, Nat.testBit_shiftLeft]

/-- Masking the low bits rounds down. -/
theorem toNat_high (x : BitVec w) (k : ℕ) :
    (x &&& ~~~lowMask w k).toNat = x.toNat / 2 ^ k * 2 ^ k := by
  refine Nat.eq_of_testBit_eq fun i => ?_
  rw [← Nat.shiftLeft_eq, ← Nat.shiftRight_eq_div_pow, Nat.testBit_shiftLeft,
    Nat.testBit_shiftRight]
  show (x &&& ~~~lowMask w k).getLsbD i = _
  rw [getLsbD_and_not_lowMask]
  by_cases hik : i < k
  · simp [hik, Nat.not_le.mpr hik]
  · simp [hik, Nat.le_of_not_lt hik, Nat.add_sub_cancel' (Nat.le_of_not_lt hik), BitVec.getLsbD]

section Pack

variable {f : BitVec w} (hf : f &&& lowMask w k = f)
include hf

/-- Flags have no bit from `k` on. -/
theorem getLsbD_flags (i : ℕ) : f.getLsbD i = (f.getLsbD i && decide (i < k)) := by
  rw [← getLsbD_and_lowMask, hf]

theorem high_pack (b : ℕ) :
    pack k b f &&& ~~~ lowMask w k = BitVec.ofNat w (b * 2 ^ k) := by
  refine BitVec.eq_of_getLsbD_eq fun i hi => ?_
  rw [getLsbD_and_not_lowMask, pack, BitVec.getLsbD_or, getLsbD_flags hf, getLsbD_aligned]
  by_cases hik : i < k
  · simp [hik, Nat.not_le.mpr hik]
  · simp [hik]

theorem low_pack (b : ℕ) : pack k b f &&& lowMask w k = f := by
  refine BitVec.eq_of_getLsbD_eq fun i hi => ?_
  rw [getLsbD_and_lowMask, pack, BitVec.getLsbD_or, getLsbD_flags hf, getLsbD_aligned]
  by_cases hik : i < k
  · simp [hik, Nat.not_le.mpr hik]
  · simp [hik]

end Pack

/-- The address of one word and the offset of another, side by side. -/
theorem high_add_low {m : ℕ} (e o : BitVec (m + k)) :
    (e &&& ~~~ lowMask (m + k) k) + (o &&& lowMask (m + k) k) =
      e.extractLsb' k m ++ o.extractLsb' 0 k := by
  have hdisjoint : (e &&& ~~~ lowMask (m + k) k) &&& (o &&& lowMask (m + k) k) = 0#(m + k) := by
    refine BitVec.eq_of_getLsbD_eq fun i hi => ?_
    rw [BitVec.getLsbD_and, getLsbD_and_not_lowMask, getLsbD_and_lowMask, BitVec.getLsbD_zero]
    by_cases hik : i < k <;> simp [hik]
  rw [BitVec.add_eq_or_of_and_eq_zero _ _ hdisjoint]
  refine BitVec.eq_of_getLsbD_eq fun i hi => ?_
  rw [BitVec.getLsbD_or, getLsbD_and_not_lowMask, getLsbD_and_lowMask, BitVec.getLsbD_append,
    BitVec.getLsbD_extractLsb', BitVec.getLsbD_extractLsb']
  by_cases hik : i < k
  · simp [hik]
  · have him : i - k < m := by omega
    simp [hik, him, Nat.add_sub_cancel' (Nat.le_of_not_lt hik)]

end AlignedWord
