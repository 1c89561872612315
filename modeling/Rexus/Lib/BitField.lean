import Mathlib.Algebra.Group.Nat.Defs
import Mathlib.Data.Nat.Init
import Mathlib.Tactic.Common

/-!
# Bit fields of a register

A device register packs fields, each the bits under a mask, and single bits that are set and
cleared by a mask of their own. A driver writes a field by clearing the bits under its mask and
putting the new ones there; what lies under a disjoint mask stays.

## Main results

* `BitField.and_of_write`, `BitField.and_write_of_disjoint` — a field is read back as it was
  written, and the others are as they were
* `BitField.setWidth_ushiftRight_and` — a field is taken out by a shift and a mask
* `BitField.getLsbD_set`, `BitField.getLsbD_clear`
* `BitField.shiftLeft_ushiftRight_eq_iff` — a number is read back from the high bits of a word
  exactly if it fits
* `BitField.byte_word` — the four bytes of a word
* `BitField.and_eq_not_iff` — when a word is under a mask what the mask leaves out

## Conventions

A field is known by its mask, a word in which its bits are one. A mask need not be of consecutive
bits, and the words have any width. `write` is the pair of assignments a driver makes, `r &= ~mask`
and `r |= v`, as one word: the value in between is not seen by anyone here, and where the hardware
could see it a model has to keep the two apart.

A value with bits outside its mask spills into other fields; the lemmas that speak of those fields
have a hypothesis against it, and `shiftLeft_ushiftRight_eq_iff` says for which values it fails when
a field is at the top of the word.
-/

namespace BitField

variable {w : ℕ}

/-! ### Fields -/

/-- The register with the bits `v` in the field under `mask`. -/
def write (r mask v : BitVec w) : BitVec w := r &&& ~~~mask ||| v

section

variable {mask v : BitVec w}

theorem and_of_write (hv : v &&& mask = v) (r : BitVec w) : write r mask v &&& mask = v := by
  refine BitVec.eq_of_getLsbD_eq fun i hi => ?_
  have hbit : (v.getLsbD i && mask.getLsbD i) = v.getLsbD i := by rw [← BitVec.getLsbD_and, hv]
  simp only [write, BitVec.getLsbD_and, BitVec.getLsbD_or, BitVec.getLsbD_not, hi]
  cases hm : mask.getLsbD i <;> simp_all

theorem and_write_of_disjoint {other : BitVec w} (hv : v &&& mask = v)
    (hdisjoint : mask &&& other = 0) (r : BitVec w) : write r mask v &&& other = r &&& other := by
  refine BitVec.eq_of_getLsbD_eq fun i hi => ?_
  have hbit : (v.getLsbD i && mask.getLsbD i) = v.getLsbD i := by rw [← BitVec.getLsbD_and, hv]
  have hout : (mask.getLsbD i && other.getLsbD i) = false := by
    rw [← BitVec.getLsbD_and, hdisjoint]
    exact BitVec.getLsbD_zero
  simp only [write, BitVec.getLsbD_and, BitVec.getLsbD_or, BitVec.getLsbD_not, hi]
  cases hm : mask.getLsbD i <;> simp_all

/-- A field is taken out by a shift and a mask. -/
theorem setWidth_ushiftRight_and {n : ℕ} (hmask : mask.setWidth n = BitVec.allOnes n)
    (x : BitVec w) (k : ℕ) : (x >>> k &&& mask).setWidth n = x.extractLsb' k n := by
  rw [BitVec.setWidth_and, hmask, BitVec.and_allOnes, BitVec.setWidth_ushiftRight_eq_extractLsb]

/-- No bit is both under the mask and left out by it. -/
theorem and_eq_not_iff {r : BitVec w} :
    r &&& mask = ~~~mask ↔ mask = BitVec.allOnes w ∧ r = 0#w := by
  constructor
  · intro h
    have hbits : ∀ i < w, mask.getLsbD i = true ∧ r.getLsbD i = false := by
      intro i hi
      have hbit := congrArg (fun x => x.getLsbD i) h
      simp only [BitVec.getLsbD_and, BitVec.getLsbD_not, hi, decide_true, Bool.true_and] at hbit
      cases hm : mask.getLsbD i <;> simp_all
    constructor <;> refine BitVec.eq_of_getLsbD_eq fun i hi => ?_
    · rw [(hbits i hi).1, BitVec.getLsbD_allOnes, decide_eq_true hi]
    · rw [(hbits i hi).2, BitVec.getLsbD_zero]
  · rintro ⟨rfl, rfl⟩
    rw [BitVec.zero_and, BitVec.not_allOnes]

end

/-! ### Single bits -/

theorem getLsbD_set {n : ℕ} (hn : n < w) (r : BitVec w) (m : ℕ) :
    (r ||| 1#w <<< n).getLsbD m = (decide (m = n) || r.getLsbD m) := by
  rw [BitVec.getLsbD_or, ← BitVec.twoPow_eq, BitVec.getLsbD_twoPow, Bool.or_comm]
  simp [hn, eq_comm]

theorem getLsbD_clear {n : ℕ} (hn : n < w) (r : BitVec w) (m : ℕ) :
    (r &&& ~~~(1#w <<< n)).getLsbD m = (!decide (m = n) && r.getLsbD m) := by
  rw [BitVec.getLsbD_and, BitVec.getLsbD_not, ← BitVec.twoPow_eq, BitVec.getLsbD_twoPow]
  by_cases hm : m < w
  · simp [hn, hm, eq_comm, Bool.and_comm]
  · simp [BitVec.getLsbD_of_ge r m (Nat.le_of_not_lt hm)]

theorem and_bit_bne_zero {n : ℕ} (hn : n < w) (r : BitVec w) :
    (r &&& 1#w <<< n != 0) = r.getLsbD n := by
  have hne : 1#w <<< n ≠ 0 := by
    rw [← BitVec.twoPow_eq]
    intro h
    have hbit := congrArg (fun x => x.getLsbD n) h
    simp [hn] at hbit
  rw [← BitVec.twoPow_eq, BitVec.and_twoPow, BitVec.twoPow_eq]
  cases r.getLsbD n
  · exact bne_self_eq_false _
  · exact bne_iff_ne.mpr hne

/-! ### A number in the high bits -/

theorem shiftLeft_ushiftRight_eq_iff {k : ℕ} (hk : k ≤ w) (x : BitVec w) :
    (x <<< k) >>> k = x ↔ x.toNat < 2 ^ (w - k) := by
  have hsplit : 2 ^ w = 2 ^ (w - k) * 2 ^ k := by rw [← Nat.pow_add, Nat.sub_add_cancel hk]
  have hvalue : ((x <<< k) >>> k).toNat = x.toNat % 2 ^ (w - k) := by
    rw [BitVec.toNat_ushiftRight, BitVec.toNat_shiftLeft, Nat.shiftLeft_eq, hsplit,
      Nat.mul_mod_mul_right, Nat.shiftRight_eq_div_pow, Nat.mul_div_cancel _ (Nat.two_pow_pos k)]
  rw [← BitVec.toNat_inj, hvalue]
  exact ⟨fun h => h ▸ Nat.mod_lt _ (Nat.two_pow_pos _), Nat.mod_eq_of_lt⟩

/-- Bits below the shift are shifted out. -/
theorem ushiftRight_or_low {k : ℕ} {low : BitVec w} (hlow : low >>> k = 0#w) (x : BitVec w) :
    (x ||| low) >>> k = x >>> k := by
  rw [BitVec.ushiftRight_or_distrib, hlow, BitVec.or_zero]

/-! ### Four bytes -/

/-- A little-endian word. -/
def word (a b c d : BitVec 8) : BitVec 32 :=
  a.setWidth 32 ||| b.setWidth 32 <<< 8 ||| c.setWidth 32 <<< 16 ||| d.setWidth 32 <<< 24

theorem getLsbD_word (a b c d : BitVec 8) (i : ℕ) : (word a b c d).getLsbD i =
    if i < 8 then a.getLsbD i else if i < 16 then b.getLsbD (i - 8)
    else if i < 24 then c.getLsbD (i - 16) else d.getLsbD (i - 24) := by
  have hout : ∀ (x : BitVec 8) {n : ℕ}, 8 ≤ n → x.getLsbD n = false := fun x _ =>
    BitVec.getLsbD_of_ge x _
  simp only [word, BitVec.getLsbD_or, BitVec.getLsbD_shiftLeft, BitVec.getLsbD_setWidth]
  split_ifs with ha hb hc
  · simp [ha, show i < 32 by omega, show i < 16 by omega, show i < 24 by omega]
  · simp [ha, hb, hout a (Nat.le_of_not_lt ha), show i < 32 by omega, show i < 24 by omega,
      show i - 8 < 32 by omega]
  · simp [ha, hb, hc, hout a (Nat.le_of_not_lt ha), hout b (by omega : 8 ≤ i - 8),
      show i < 32 by omega, show i - 16 < 32 by omega]
  · rw [hout a (Nat.le_of_not_lt ha), hout b (by omega : 8 ≤ i - 8),
      hout c (by omega : 8 ≤ i - 16)]
    by_cases hd : i < 32
    · simp [ha, hb, hc, hd, show i - 24 < 32 by omega]
    · simp [hd, hout d (by omega : 8 ≤ i - 24)]

/-- The bytes are read back. -/
theorem byte_word (a b c d : BitVec 8) :
    (word a b c d).setWidth 8 = a ∧ (word a b c d >>> 8).setWidth 8 = b ∧
      (word a b c d >>> 16).setWidth 8 = c ∧ (word a b c d >>> 24).setWidth 8 = d := by
  refine ⟨?_, ?_, ?_, ?_⟩ <;> refine BitVec.eq_of_getLsbD_eq fun i hi => ?_ <;>
    simp only [BitVec.getLsbD_setWidth, BitVec.getLsbD_ushiftRight, getLsbD_word, hi,
      decide_true, Bool.true_and, if_true, Nat.add_sub_cancel_left]
  · rw [if_neg (by omega), if_pos (by omega)]
  · rw [if_neg (by omega), if_neg (by omega), if_pos (by omega)]
  · rw [if_neg (by omega), if_neg (by omega), if_neg (by omega)]

theorem word_inj {a b c d a' b' c' d' : BitVec 8} :
    word a b c d = word a' b' c' d' ↔ a = a' ∧ b = b' ∧ c = c' ∧ d = d' := by
  constructor
  · intro h
    obtain ⟨ha, hb, hc, hd⟩ := byte_word a b c d
    rw [h] at ha hb hc hd
    obtain ⟨ha', hb', hc', hd'⟩ := byte_word a' b' c' d'
    exact ⟨ha.symm.trans ha', hb.symm.trans hb', hc.symm.trans hc', hd.symm.trans hd'⟩
  · rintro ⟨rfl, rfl, rfl, rfl⟩
    rfl

theorem word_and (a b c d a' b' c' d' : BitVec 8) :
    word a b c d &&& word a' b' c' d' = word (a &&& a') (b &&& b') (c &&& c') (d &&& d') := by
  refine BitVec.eq_of_getLsbD_eq fun i _ => ?_
  simp only [BitVec.getLsbD_and, getLsbD_word]
  split_ifs <;> rfl

theorem word_not (a b c d : BitVec 8) : ~~~word a b c d = word (~~~a) (~~~b) (~~~c) (~~~d) := by
  refine BitVec.eq_of_getLsbD_eq fun i hi => ?_
  simp only [BitVec.getLsbD_not, getLsbD_word, hi, decide_true, Bool.true_and]
  split_ifs with ha hb hc
  · rw [decide_eq_true ha, Bool.true_and]
  · rw [decide_eq_true (by omega), Bool.true_and]
  · rw [decide_eq_true (by omega), Bool.true_and]
  · rw [decide_eq_true (by omega), Bool.true_and]

end BitField
