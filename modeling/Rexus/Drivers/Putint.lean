import Rexus.Drivers.Printf
import Rexus.Drivers.Vga

/-!
# Integers on the screen

`vga_putint` of `drivers/vga.c`, and `%d` of `console_printf`, which computes the digits with a
different test. Both make a negative number positive first, with `n = -n`. Of the least number that
is no `int`: the overflow is undefined, and what the two functions print of it is up to the
compiler. Here it is an error, `overflow`, and not the result of an arithmetic that wraps, so that
nothing is said of what a build prints.

## Conventions

A function gives `none` without fuel, and an error where the language says nothing or memory is
left: `digits` for a byte behind `buf`, `screen` for a place behind the screen. `PrintsDecimal` asks
for the same text from both functions, with all fuels above a small number, so the loops end by
themselves.

## Main results

* `vgaPutintText_eq` — what is printed of a number that is not the least
* `printsDecimal_iff` — the two print the decimal representation of exactly the other numbers

The screen is that of `Rexus.Drivers.Vga`, and the text goes to it character by character; where the
cursor is does not matter for the text. Numbers are words of thirty-two bits that are read as
signed.
-/

namespace Rexus

open Loop Numeral

/-- How `vga_putint` can fail: the least number is negated, of which the result is no `int`; or a
byte behind `buf` is written, or a place behind the screen. -/
inductive PutintError where
  | overflow
  | digits
  | screen (i : ℕ)

/-- The characters that `vga_putint` gives to `vga_putchar`. -/
def vgaPutintText (fuel : ℕ) (n : Int32) : Option (Except PutintError (List UInt8)) :=
  if n = 0 then some (.ok [48])
  -- `n = -n` overflows
  else if n = Int32.minValue then some (.error .overflow)
  else
    let neg : Bool := n < 0
    let n := if neg then -n else n
    (iterate (digitTurn 12 (fun n => n ≠ 0) intDigit (· / 10)) fuel (n, [])).map fun
      | .error _ => .error .digits
      | .ok buf => .ok ((if neg then [45] else []) ++ buf.reverse)

/-- `vga_putint`. -/
def vgaPutint (fuel : ℕ) (v : Vga) (n : Int32) : Option (Except PutintError Vga) :=
  (vgaPutintText fuel n).map fun
    | .error err => .error err
    | .ok text => (vgaPuts v text).mapError .screen

/-- What the two should do with a number: they return, the buffers for the digits are not left, and
the text is the decimal representation, also where it is the whole format of `console_printf`. -/
def PrintsDecimal (n : Int32) : Prop :=
  ∃ text, IsInteger text n.toInt ∧ ∀ fuel > 13,
    vgaPutintText fuel n = some (.ok text) ∧
      (∀ v, vgaPutint fuel v n = some ((vgaPuts v text).mapError .screen)) ∧
      printfInt fuel n = some (.ok text) ∧
      consolePrintf fuel [37, 100] [.int n] = some (.ok (text ++ [0]))

theorem vgaPutintText_eq {n : Int32} {fuel : ℕ} (hmin : n ≠ Int32.minValue) (hfuel : 10 < fuel) :
    vgaPutintText fuel n = some (.ok (integer n.toInt)) := by
  have hmore : ∀ n : Int32, 0 ≤ n.toInt → (decide (n ≠ 0) = true ↔ n.toInt ≠ 0) := by
    intro n _
    rw [decide_eq_true_iff]
    exact not_congr Int32.toInt_inj.symm
  rw [vgaPutintText]
  by_cases hzero : n = 0
  · rw [if_pos hzero, hzero]
    rfl
  · rw [if_neg hzero, if_neg hmin, integer_of_ne hzero]
    dsimp only
    rw [iterate_absDigits hmin hmore hfuel, Option.map_some]

/-- The negation of the least number is not defined. -/
theorem vgaPutintText_minValue (fuel : ℕ) :
    vgaPutintText fuel Int32.minValue = some (.error .overflow) := by
  rw [vgaPutintText, if_neg (by decide), if_pos rfl]

theorem PrintsDecimal.ne_minValue {n : Int32} (h : PrintsDecimal n) : n ≠ Int32.minValue := by
  rintro rfl
  obtain ⟨text, -, hprints⟩ := h
  have hleast := (hprints 14 (by decide)).1
  rw [vgaPutintText_minValue] at hleast
  cases hleast

/-- **The two print the decimal representation** of every number but the least. -/
theorem printsDecimal_iff (n : Int32) : PrintsDecimal n ↔ n ≠ Int32.minValue := by
  refine ⟨PrintsDecimal.ne_minValue, fun hmin => ?_⟩
  refine ⟨integer n.toInt, isInteger_integer _, fun fuel hfuel => ⟨?_, fun v => ?_, ?_, ?_⟩⟩
  · exact vgaPutintText_eq hmin (by omega)
  · rw [vgaPutint, vgaPutintText_eq hmin (by omega)]
    rfl
  · exact printfInt_eq hmin (by omega)
  · have hlen := length_integer_le n
    have hds : ∀ d ∈ [Directive.int n], d.Defined := List.forall_mem_singleton.mpr hmin
    have hall := consolePrintf_eq hds false [] hfuel
    have htext : printfText [.int n] = integer n.toInt := by
      rw [printfText, List.flatMap_singleton, Directive.text]
    rw [htext, if_pos (by omega), if_neg Bool.false_ne_true, printfPut,
      if_pos (by rw [List.length_singleton]; omega)] at hall
    exact hall

/-- The least number, of which neither function is defined to print anything. -/
theorem not_printsDecimal : ¬ ∀ n : Int32, PrintsDecimal n := fun h =>
  (h Int32.minValue).ne_minValue rfl

end Rexus
