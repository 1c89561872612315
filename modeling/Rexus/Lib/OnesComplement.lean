import Mathlib.Data.Nat.ModEq
import Mathlib.Tactic.Common

/-!
# One's complement sums

Numbers up to `m = 2 ^ w - 1` are added with the carry out of the top put back at the bottom. Zero
has the two forms `0` and `m`; only a sum of zeros is `0`, so a sum is known from what the numbers
add up to modulo `m`, and can be computed from words that are stored in either order of bytes.

## Main results

* `OnesComplement.represents_sum` — the sum of a list
* `OnesComplement.Represents.unique` — there is only one
* `OnesComplement.Represents.of_carry` — one turn of a loop that folds the carries

## Conventions

`Represents` relates a word to a sum of natural numbers that is not reduced: it is zero only if the
sum is, and otherwise it is the one of `1, …, m` that has the same remainder. This is more than a
congruence modulo `m`, which would not tell `0` from `m`, and it is why a checksum of all ones and
one of all zeros are different things to a program.

The width is any positive number. A program folds the carries of a wider sum as it likes, all at the
end or one after each word: `of_carry` is one turn of either, and `unique` says that it cannot
matter.
-/

namespace OnesComplement

variable {m a b c r r' s : ℕ}

/-- The sum of two numbers, with the carry put back. -/
def add (m a b : ℕ) : ℕ := if a + b ≤ m then a + b else a + b - m

/-- The sum of a list. -/
def sum (m : ℕ) (l : List ℕ) : ℕ := l.foldr (add m) 0

/-- `r` is the one's complement sum of numbers that add up to `s`. -/
structure Represents (m r s : ℕ) : Prop where
  le : r ≤ m
  modEq : r ≡ s [MOD m]
  eq_zero : r = 0 ↔ s = 0

theorem Represents.self (h : s ≤ m) : Represents m s s := ⟨h, rfl, Iff.rfl⟩

theorem add_modEq (m a b : ℕ) : add m a b ≡ a + b [MOD m] := by
  rw [add]
  split_ifs with h
  · rfl
  · have hcarry : a + b = (a + b - m) + m := by omega
    rw [Nat.ModEq, ← Nat.add_mod_right, ← hcarry]

/-- One more number. -/
theorem Represents.add (h : Represents m r s) (ha : a ≤ m) :
    Represents m (OnesComplement.add m a r) (a + s) where
  le := by
    have := h.le
    rw [OnesComplement.add]
    split_ifs <;> omega
  modEq := (add_modEq m a r).trans (h.modEq.add_left a)
  eq_zero := by
    have := h.eq_zero
    rw [OnesComplement.add]
    split_ifs <;> omega

/-- The sum of a list. -/
theorem represents_sum {l : List ℕ} (h : ∀ a ∈ l, a ≤ m) : Represents m (sum m l) l.sum := by
  induction l with
  | nil => exact Represents.self (Nat.zero_le m)
  | cons a l ih =>
    rw [List.sum_cons]
    exact (ih fun b hb => h b (List.mem_cons_of_mem a hb)).add (h a List.mem_cons_self)

/-- Two numbers of one residue, neither or both of which are `0`. -/
theorem Represents.unique (h : Represents m r s) (h' : Represents m r' s) : r = r' := by
  have hmod := h.modEq.trans h'.modEq.symm
  have hle := h.le
  have hle' := h'.le
  have hzero := h.eq_zero.trans h'.eq_zero.symm
  rcases lt_or_eq_of_le hle with hlt | rfl
  · rcases lt_or_eq_of_le hle' with hlt' | rfl
    · exact hmod.eq_of_lt_of_lt hlt hlt'
    · have hdvd : r' ∣ r := (Nat.modEq_zero_iff_dvd.mp (hmod.trans (by simp [Nat.ModEq])))
      have := Nat.eq_zero_of_dvd_of_lt hdvd hlt
      omega
  · have hdvd : r ∣ r' := (Nat.modEq_zero_iff_dvd.mp (hmod.symm.trans (by simp [Nat.ModEq])))
    rcases lt_or_eq_of_le hle' with hlt' | rfl
    · have := Nat.eq_zero_of_dvd_of_lt hdvd hlt'
      omega
    · rfl

/-- The carries of a sum, of whatever width, are put back at its bottom. -/
theorem Represents.of_carry (h : Represents m r (s % (m + 1) + s / (m + 1))) :
    Represents m r s where
  le := h.le
  modEq := by
    refine h.modEq.trans ?_
    have hs : s = s % (m + 1) + s / (m + 1) + m * (s / (m + 1)) := by
      have hdiv := Nat.mod_add_div s (m + 1)
      rw [Nat.add_mul, Nat.one_mul] at hdiv
      omega
    conv_rhs => rw [hs]
    simp [Nat.ModEq]
  eq_zero := by
    rw [h.eq_zero]
    constructor
    · intro h0
      have hdiv := Nat.mod_add_div s (m + 1)
      rw [Nat.eq_zero_of_add_eq_zero_right h0, Nat.eq_zero_of_add_eq_zero_left h0] at hdiv
      omega
    · rintro rfl
      simp

/-- A number that a sum is completed by. -/
theorem Represents.add_eq_top (h : Represents m r s) (hs : s ≠ 0) (hc : c < m)
    (hsum : c + s ≡ 0 [MOD m]) : c + r = m := by
  have hle := h.le
  have hpos : r ≠ 0 := fun h0 => hs (h.eq_zero.mp h0)
  have hdvd : m ∣ c + r := Nat.modEq_zero_iff_dvd.mp ((h.modEq.add_left c).trans hsum)
  obtain ⟨k, hk⟩ := hdvd
  have hk1 : k = 1 := by
    have hlow : k ≠ 0 := by rintro rfl; omega
    have hhigh : k < 2 := by
      by_contra hge
      have := Nat.mul_le_mul_left m (not_lt.mp hge)
      omega
    omega
  rw [hk, hk1, Nat.mul_one]

/-- The sums whose complement is `0`. -/
theorem Represents.eq_top_iff (h : Represents m r s) (hm : m ≠ 0) : r = m ↔ s ≠ 0 ∧ m ∣ s := by
  constructor
  · rintro rfl
    exact ⟨fun h0 => hm (h.eq_zero.mpr h0),
      Nat.modEq_zero_iff_dvd.mp (h.modEq.symm.trans (by simp [Nat.ModEq]))⟩
  · rintro ⟨hs, hdvd⟩
    have hdvd' := Nat.modEq_zero_iff_dvd.mp (h.modEq.trans (Nat.modEq_zero_iff_dvd.mpr hdvd))
    rcases lt_or_eq_of_le h.le with hlt | heq
    · exact absurd (h.eq_zero.mp (Nat.eq_zero_of_dvd_of_lt hdvd' hlt)) hs
    · exact heq

/-- The complement of a sum completes it to a multiple of `m` that is not zero. -/
theorem Represents.complement (h : Represents m r s) (hm : m ≠ 0) :
    s + (m - r) ≠ 0 ∧ m ∣ s + (m - r) := by
  have hle := h.le
  constructor
  · intro h0
    have hr := h.eq_zero.mpr (Nat.eq_zero_of_add_eq_zero_right h0)
    omega
  · have hmod : s + (m - r) ≡ r + (m - r) [MOD m] := h.modEq.symm.add_right (m - r)
    rw [Nat.add_sub_cancel' hle] at hmod
    exact Nat.modEq_zero_iff_dvd.mp (hmod.trans (by simp [Nat.ModEq]))

/-- A multiple of `m` that changes by less than `m` is none any more. -/
theorem not_dvd_of_change (h : m ∣ s) (hc : 0 < c) (hcm : c < m) (h' : a = s + c ∨ a + c = s) :
    ¬ m ∣ a := by
  intro ha
  have hdvd : m ∣ c := by
    rcases h' with rfl | rfl
    · exact (Nat.dvd_add_right h).mp ha
    · exact (Nat.dvd_add_right ha).mp h
  exact absurd (Nat.le_of_dvd hc hdvd) (Nat.not_le.mpr hcm)

end OnesComplement
