import Mathlib.Data.Nat.Bitwise
import Rexus.Lib.Bytes

/-!
# Sums of little-endian words

The little-endian words of a string add up to its bytes with weights: `1` at an even place, `256` at
an odd one. So a byte that changes, and a bit that is flipped, change the sum by what they weigh,
wherever they are and however long the string is.

## Main results

* `WordSum.sum_two_mul` — the words, one after the other
* `WordSum.sum_update`, `WordSum.sum_putLe16` — a byte or a word that is written
* `WordSum.sum_flipBit` — a bit that is flipped

## Conventions

Sums are natural numbers and do not wrap; a program that adds up in a word has to show that its
strings are short enough. A string of odd length has a last byte that counts like one at an even
place, as if a zero were behind it, which is how the internet checksum has it.

The rules about a change, of a byte, of a word or of a bit, are equations between sums with the old
weight on one side and the new one on the other, and so need no subtraction.
-/

namespace WordSum

open Bytes

variable {d e : ℕ → UInt8} {n i p b : ℕ}

/-- What the byte at `k` counts for. -/
def weight (k : ℕ) : ℕ := if k % 2 = 0 then 1 else 256

/-- The sum of `n` bytes. -/
def sum (d : ℕ → UInt8) : ℕ → ℕ
  | 0 => 0
  | n + 1 => sum d n + weight n * (d n).toNat

/-- Bit `b` of the byte at `p` is flipped. -/
def flipBit (d : ℕ → UInt8) (p b : ℕ) : ℕ → UInt8 :=
  Function.update d p (d p ^^^ 1 <<< UInt8.ofNat b)

theorem weight_pos (k : ℕ) : 0 < weight k := by
  rw [weight]
  split_ifs <;> decide

theorem weight_le (k : ℕ) : weight k ≤ 256 := by
  rw [weight]
  split_ifs <;> decide

theorem weight_of_even (h : i % 2 = 0) : weight i = 1 := if_pos h

theorem weight_succ_of_even (h : i % 2 = 0) : weight (i + 1) = 256 := if_neg (by omega)

theorem sum_congr (h : ∀ k < n, d k = e k) : sum d n = sum e n := by
  induction n with
  | zero => rfl
  | succ n ih => rw [sum, sum, ih fun k hk => h k (by omega), h n (Nat.lt_succ_self n)]

/-- The words of a string of even length. -/
theorem sum_two_mul (d : ℕ → UInt8) (m : ℕ) :
    sum d (2 * m) = ((List.range m).map fun k => (le16 d (2 * k)).toNat).sum := by
  induction m with
  | zero => rfl
  | succ m ih =>
    rw [List.range_succ, List.map_append, List.sum_append, ← ih, Nat.mul_succ, sum, sum,
      weight_of_even (by omega), weight_succ_of_even (by omega)]
    simp [le16_toNat]
    omega

/-! ### Writing -/

/-- A byte that is written. -/
theorem sum_update (h : p < n) (x : UInt8) :
    sum (Function.update d p x) n + weight p * (d p).toNat = sum d n + weight p * x.toNat := by
  induction n with
  | zero => exact absurd h (Nat.not_lt_zero p)
  | succ n ih =>
    rw [sum, sum]
    rcases Nat.lt_succ_iff_lt_or_eq.mp h with hlt | rfl
    · have hbefore := ih hlt
      rw [Function.update_of_ne (by omega : n ≠ p)]
      omega
    · have hbefore : sum (Function.update d p x) p = sum d p :=
        sum_congr fun k hk => Function.update_of_ne (by omega) ..
      rw [hbefore, Function.update_self]
      omega

/-- A word is written as two bytes. -/
theorem putLe16_eq_update (d : ℕ → UInt8) (i : ℕ) (v : UInt16) : putLe16 d i v =
    Function.update (Function.update d i (UInt8.ofNat v.toNat)) (i + 1)
      (UInt8.ofNat (v.toNat / 256)) := by
  funext k
  rw [putLe16]
  rcases eq_or_ne k (i + 1) with rfl | hk
  · rw [Function.update_self, if_neg (by omega), if_pos rfl]
  · rw [Function.update_of_ne hk]
    rcases eq_or_ne k i with rfl | hk'
    · rw [Function.update_self, if_pos rfl]
    · rw [Function.update_of_ne hk', if_neg hk', if_neg hk]

/-- A word that is written at an even place. -/
theorem sum_putLe16 (heven : i % 2 = 0) (h : i + 2 ≤ n) (v : UInt16) :
    sum (putLe16 d i v) n + (le16 d i).toNat = sum d n + v.toNat := by
  have hv := v.toNat_lt
  have hlow := sum_update (d := d) (by omega : i < n) (UInt8.ofNat v.toNat)
  have hhigh := sum_update (d := Function.update d i (UInt8.ofNat v.toNat))
    (by omega : i + 1 < n) (UInt8.ofNat (v.toNat / 256))
  rw [Function.update_of_ne (by omega : i + 1 ≠ i), UInt8.toNat_ofNat',
    weight_succ_of_even heven] at hhigh
  rw [UInt8.toNat_ofNat', weight_of_even heven] at hlow
  rw [putLe16_eq_update, le16_toNat]
  omega

/-! ### Flipping a bit -/

/-- A number with one bit flipped is greater or less by the weight of that bit. -/
theorem xor_two_pow (x b : ℕ) : x ^^^ 2 ^ b = x + 2 ^ b ∨ (x ^^^ 2 ^ b) + 2 ^ b = x := by
  have hset : ∀ y : ℕ, y.testBit b = false → y ^^^ 2 ^ b = y + 2 ^ b := by
    intro y hy
    have heven : Even (y / 2 ^ b) := by
      rw [Nat.even_iff, Nat.testBit_eq_decide_div_mod_eq, decide_eq_false_iff_not] at *
      omega
    have hdiv : (y ^^^ 2 ^ b) / 2 ^ b = y / 2 ^ b + 1 := by
      rw [Nat.xor_div_two_pow, Nat.div_self (Nat.two_pow_pos b), Nat.xor_one_of_even heven]
    have hmod : (y ^^^ 2 ^ b) % 2 ^ b = y % 2 ^ b := by
      rw [Nat.xor_mod_two_pow, Nat.mod_self, Nat.xor_zero]
    rw [← Nat.div_add_mod (y ^^^ 2 ^ b) (2 ^ b), hdiv, hmod, Nat.mul_succ, Nat.add_right_comm,
      Nat.div_add_mod]
  cases hx : x.testBit b with
  | false => exact Or.inl (hset x hx)
  | true =>
    have hclear : (x ^^^ 2 ^ b).testBit b = false := by
      rw [Nat.testBit_xor, hx, Nat.testBit_two_pow_self]
      rfl
    refine Or.inr ?_
    rw [← hset _ hclear, Nat.xor_assoc, Nat.xor_self, Nat.xor_zero]

/-- **A bit that is flipped** changes the sum by what it weighs. -/
theorem sum_flipBit (hp : p < n) (hb : b < 8) :
    sum (flipBit d p b) n = sum d n + weight p * 2 ^ b ∨
      sum (flipBit d p b) n + weight p * 2 ^ b = sum d n := by
  have hbit : ∀ b < 8, ((1 : UInt8) <<< UInt8.ofNat b).toNat = 2 ^ b := by decide
  have hupdate := sum_update (d := d) hp (d p ^^^ 1 <<< UInt8.ofNat b)
  rw [UInt8.toNat_xor, hbit b hb] at hupdate
  rcases xor_two_pow (d p).toNat b with h | h
  · rw [h, Nat.mul_add] at hupdate
    exact Or.inl (by rw [flipBit]; omega)
  · have hweight := congrArg (weight p * ·) h
    rw [Nat.mul_add] at hweight
    exact Or.inr (by rw [flipBit]; omega)

end WordSum
