import Mathlib.Data.List.Induction
import Mathlib.Data.Nat.Digits.Lemmas
import Rexus.Lib.While

/-!
# Numerals

The numeral of a number in a base, the highest digit first, and the loop that computes it: the
lowest digit is put into a buffer and cut off, as long as there is more. Decimal numerals and those
of integers are known by what they are read as.

## Main results

* `Numeral.iterate_digitTurn` — the loop leaves the digits in the buffer, the lowest first
* `Numeral.isDecimal_numeral`, `Numeral.isInteger_integer` — the numeral is what it is read as

## Conventions

Digits are numbers below the base, and `numeral` gives them the highest first; a numeral is never
empty. The base is any number of at least two where a lemma needs it. Only for base ten are digits
turned into characters here, by adding the character of zero; a program that writes other bases has
its own table.

The buffer of `digitTurn` has a size, and a write at an index from there on is an error that carries
the index. The loop ends when nothing is left of the number, after as many turns as it has digits,
and every lemma about it asks for at least as much fuel.
-/

namespace Numeral

open Loop

/-- The numeral of a number: one digit for zero, and else no zero in front. -/
def numeral (b : ℕ) (char : ℕ → UInt8) (n : ℕ) : List UInt8 :=
  if n = 0 then [char 0] else ((Nat.digits b n).map char).reverse

/-- `'0' + d`. -/
def decimalChar (d : ℕ) : UInt8 := UInt8.ofNat (48 + d)

/-- An integer, with a sign if it is negative. -/
def integer (z : ℤ) : List UInt8 :=
  if z < 0 then 45 :: numeral 10 decimalChar z.natAbs else numeral 10 decimalChar z.natAbs

/-- The decimal representation of a number: digits, no zero in front of others, and read from left
to right they give the number. -/
structure IsDecimal (text : List UInt8) (n : ℕ) : Prop where
  ne_nil : text ≠ []
  digit : ∀ c ∈ text, 48 ≤ c.toNat ∧ c.toNat < 58
  leading : ∀ rest, text = 48 :: rest → rest = []
  value : text.foldl (fun v c => 10 * v + (c.toNat - 48)) 0 = n

/-- That of an integer: negative ones have a sign in front. -/
def IsInteger (text : List UInt8) (z : ℤ) : Prop :=
  if z < 0 then ∃ rest, text = 45 :: rest ∧ IsDecimal rest z.natAbs else IsDecimal text z.natAbs

/-! ### The loop -/

section

variable {σ : Type*}

/-- A turn of the loop: the lowest digit of what is left is put into a buffer of `size` bytes. A
write behind it is an error, with its index. -/
def digitTurn (size : ℕ) (more : σ → Bool) (digit : σ → UInt8) (shift : σ → σ)
    (w : σ × List UInt8) : Option (Turn (σ × List UInt8) (Except ℕ (List UInt8))) :=
  some (if more w.1 then
    if w.2.length < size then .next (shift w.1, w.2 ++ [digit w.1]) else .done (.error w.2.length)
  else .done (.ok w.2))

variable {b size fuel : ℕ} {char : ℕ → UInt8} {more : σ → Bool} {digit : σ → UInt8} {shift : σ → σ}

/-- **The loop**: from a state that stands for a number, as long as there is more than zero, it puts
the digits of the number into the buffer, the lowest first. -/
theorem iterate_digitTurn (hb : 1 < b) (val : σ → ℕ) (P : σ → Prop)
    (hmore : ∀ s, P s → (more s = true ↔ val s ≠ 0))
    (hdigit : ∀ s, P s → digit s = char (val s % b))
    (hshift : ∀ s, P s → P (shift s) ∧ val (shift s) = val s / b)
    {s : σ} (hs : P s) (buf : List UInt8)
    (hsize : buf.length + (Nat.digits b (val s)).length ≤ size)
    (hfuel : (Nat.digits b (val s)).length < fuel) :
    iterate (digitTurn size more digit shift) fuel (s, buf) =
      some (.ok (buf ++ (Nat.digits b (val s)).map char)) := by
  induction fuel generalizing s buf with
  | zero => exact absurd hfuel (Nat.not_lt_zero _)
  | succ fuel ih =>
    by_cases hzero : val s = 0
    · have hend : more s = false := by
        rw [← Bool.not_eq_true, hmore s hs]
        exact not_not.mpr hzero
      rw [hzero, Nat.digits_zero, List.map_nil, List.append_nil]
      exact iterate_done (by rw [digitTurn, hend]; rfl)
    · rw [Nat.digits_eq_cons_digits_div hb hzero, List.length_cons] at hsize hfuel
      obtain ⟨hnext, hval⟩ := hshift s hs
      have hturn : digitTurn size more digit shift (s, buf) =
          some (.next (shift s, buf ++ [digit s])) := by
        rw [digitTurn, if_pos ((hmore s hs).mpr hzero), if_pos (by dsimp only; omega)]
      rw [iterate_next hturn, ih hnext, hval, Nat.digits_eq_cons_digits_div hb hzero, hdigit s hs]
      · simp
      · rw [hval, List.length_append, List.length_singleton]
        omega
      · rw [hval]
        omega

end

/-! ### What a numeral is read as -/

theorem decimalChar_toNat {d : ℕ} (h : d < 10) : (decimalChar d).toNat = 48 + d := by
  rw [decimalChar, UInt8.toNat_ofNat', Nat.mod_eq_of_lt (by omega)]

/-- Reading a text from left to right is evaluating its digits. -/
theorem foldl_value (text : List UInt8) :
    text.foldl (fun v c => 10 * v + (c.toNat - 48)) 0 =
      Nat.ofDigits 10 (text.map fun c => c.toNat - 48).reverse := by
  induction text using List.reverseRecOn with
  | nil => rfl
  | append_singleton text c ih =>
    rw [List.foldl_append, List.foldl_cons, List.foldl_nil, ih, List.map_append,
      List.reverse_append, List.map_singleton, List.reverse_singleton, List.singleton_append,
      Nat.ofDigits_cons]
    exact Nat.add_comm _ _

theorem isDecimal_numeral (n : ℕ) : IsDecimal (numeral 10 decimalChar n) n := by
  rw [numeral]
  split_ifs with hzero
  · rw [hzero]
    refine ⟨by simp, fun c hc => ?_, by simp, rfl⟩
    rw [List.mem_singleton.mp hc]
    decide
  have hlt : ∀ d ∈ Nat.digits 10 n, d < 10 := fun d hd => Nat.digits_lt_base (by decide) hd
  have hne : Nat.digits 10 n ≠ [] := Nat.digits_ne_nil_iff_ne_zero.mpr hzero
  refine ⟨?_, fun c hc => ?_, fun rest hrest => ?_, ?_⟩
  · simpa using hne
  · rw [List.mem_reverse, List.mem_map] at hc
    obtain ⟨d, hd, rfl⟩ := hc
    rw [decimalChar_toNat (hlt d hd)]
    have := hlt d hd
    omega
  · -- the first character is that of the highest digit, which is not zero
    have hlast := Nat.getLast_digit_ne_zero 10 hzero
    rw [← List.dropLast_append_getLast hne, List.map_append, List.reverse_append] at hrest
    have hfirst := congrArg UInt8.toNat (List.cons.inj hrest).1
    rw [decimalChar_toNat (hlt _ (List.getLast_mem hne))] at hfirst
    exact absurd (Nat.add_left_cancel (hfirst : 48 + _ = 48 + 0)) hlast
  · have hdigits : (Nat.digits 10 n).map ((fun c => c.toNat - 48) ∘ decimalChar) =
        Nat.digits 10 n := by
      conv_rhs => rw [← List.map_id (Nat.digits 10 n)]
      refine List.map_congr_left fun d hd => ?_
      rw [Function.comp_apply, decimalChar_toNat (hlt d hd), Nat.add_sub_cancel_left, id]
    rw [foldl_value, List.map_reverse, List.reverse_reverse, List.map_map, hdigits,
      Nat.ofDigits_digits]

theorem isInteger_integer (z : ℤ) : IsInteger (integer z) z := by
  rw [IsInteger, integer]
  split_ifs
  · exact ⟨_, rfl, isDecimal_numeral _⟩
  · exact isDecimal_numeral _

end Numeral
