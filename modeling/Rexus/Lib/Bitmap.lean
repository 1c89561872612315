import Mathlib.Data.Finset.Card
import Mathlib.Data.Finset.Range
import Mathlib.Logic.Function.Basic
import Rexus.Lib.BitField

/-!
# Bitmaps kept in machine words

A bitmap is a sequence of `w`-bit words; bit `b` is bit `b % w` of word `b / w`. The three
operations read, set and clear one bit by masking its word, and the lemmas say that nothing else
changes. `Bitmap.bits` is the set of positions below a bound whose bit is set; set and clear are
`insert` and `erase` on it, which is how every count below is done.

## Main results

* `Bitmap.test_set`, `Bitmap.test_unset`
* `Bitmap.bits_set`, `Bitmap.bits_unset`

## Conventions

A bitmap has no size: it is a map from the numbers of its words to the words, all of which are
there. A program whose bitmap has an end keeps its own bound, and what it does behind that end is
not covered here. A position is a natural number, so the sum of a word's number and a bit's does not
wrap.

The bound of `bits` is any number as well, not only a multiple of the width. A position at or above
it may be set without being counted, as the last bits of the last word are where a bitmap is longer
than what it describes.
-/

/-- A bitmap, word by word. -/
abbrev Bitmap (w : ℕ) : Type := ℕ → BitVec w

namespace Bitmap

variable {w : ℕ}

/-- The mask of one bit in its word. -/
def mask (w b : ℕ) : BitVec w := 1#w <<< (b % w)

/-- Is bit `b` set? -/
def test (m : Bitmap w) (b : ℕ) : Bool := (m (b / w) &&& mask w b) != 0#w

/-- Set bit `b`. -/
def set (m : Bitmap w) (b : ℕ) : Bitmap w :=
  Function.update m (b / w) (m (b / w) ||| mask w b)

/-- Clear bit `b`. -/
def unset (m : Bitmap w) (b : ℕ) : Bitmap w :=
  Function.update m (b / w) (m (b / w) &&& ~~~ mask w b)

theorem getLsbD_mask (b i : ℕ) :
    (mask w b).getLsbD i = (decide (b % w < w) && decide (b % w = i)) :=
  BitVec.getLsbD_twoPow ..

theorem test_eq_getLsbD (hw : 0 < w) (m : Bitmap w) (b : ℕ) :
    test m b = (m (b / w)).getLsbD (b % w) :=
  BitField.and_bit_bne_zero (Nat.mod_lt _ hw) _

/-- Two bits in one word are the same bit exactly when their offsets agree. -/
theorem eq_of_div_mod {b c : ℕ} (hd : c / w = b / w) (hm : b % w = c % w) : c = b := by
  rw [← Nat.div_add_mod c w, ← Nat.div_add_mod b w, hd, hm]

theorem test_set (hw : 0 < w) (m : Bitmap w) (b c : ℕ) :
    test (set m b) c = (decide (c = b) || test m c) := by
  have hb : b % w < w := Nat.mod_lt _ hw
  rw [test_eq_getLsbD hw, test_eq_getLsbD hw, set]
  by_cases hd : c / w = b / w
  · rw [hd, Function.update_self, BitVec.getLsbD_or, getLsbD_mask]
    by_cases hm : b % w = c % w
    · have hc : c % w < w := hm ▸ hb
      simp [hm, hc, eq_of_div_mod hd hm]
    · have hcb : c ≠ b := by rintro rfl; exact hm rfl
      simp [hm, hcb]
  · have hcb : c ≠ b := by rintro rfl; exact hd rfl
    rw [Function.update_of_ne hd]
    simp [hcb]

theorem test_unset (hw : 0 < w) (m : Bitmap w) (b c : ℕ) :
    test (unset m b) c = (!decide (c = b) && test m c) := by
  have hc : c % w < w := Nat.mod_lt _ hw
  rw [test_eq_getLsbD hw, test_eq_getLsbD hw, unset]
  by_cases hd : c / w = b / w
  · rw [hd, Function.update_self, BitVec.getLsbD_and, BitVec.getLsbD_not, getLsbD_mask]
    by_cases hm : b % w = c % w
    · simp [hm, hc, eq_of_div_mod hd hm]
    · have hcb : c ≠ b := by rintro rfl; exact hm rfl
      simp [hm, hcb, hc]
  · have hcb : c ≠ b := by rintro rfl; exact hd rfl
    rw [Function.update_of_ne hd]
    simp [hcb]

/-! ### The set of set bits -/

/-- The set bits below `n`. -/
def bits (m : Bitmap w) (n : ℕ) : Finset ℕ := (Finset.range n).filter fun b => test m b = true

@[simp] theorem mem_bits {m : Bitmap w} {n b : ℕ} :
    b ∈ bits m n ↔ b < n ∧ test m b = true := by
  simp [bits]

theorem bits_subset_range (m : Bitmap w) (n : ℕ) : bits m n ⊆ Finset.range n :=
  Finset.filter_subset _ _

theorem card_bits_le (m : Bitmap w) (n : ℕ) : (bits m n).card ≤ n := by
  simpa using Finset.card_le_card (bits_subset_range m n)

theorem bits_set (hw : 0 < w) (m : Bitmap w) {n b : ℕ} (hb : b < n) :
    bits (set m b) n = insert b (bits m n) := by
  ext c
  simp only [mem_bits, test_set hw, Finset.mem_insert, Bool.or_eq_true, decide_eq_true_eq]
  constructor
  · rintro ⟨hc, rfl | ht⟩
    · exact Or.inl rfl
    · exact Or.inr ⟨hc, ht⟩
  · rintro (rfl | ⟨hc, ht⟩)
    · exact ⟨hb, Or.inl rfl⟩
    · exact ⟨hc, Or.inr ht⟩

theorem bits_unset (hw : 0 < w) (m : Bitmap w) (n b : ℕ) :
    bits (unset m b) n = (bits m n).erase b := by
  ext c
  simp only [mem_bits, test_unset hw, Finset.mem_erase, Bool.and_eq_true, Bool.not_eq_true',
    decide_eq_false_iff_not]
  tauto

end Bitmap
