import Rexus.Lib.Numeral

/-!
# Formatted output

`console_printf` of `drivers/console.c`, up to the call of `console_puts` with what it has put into
its buffer. The buffer has 1024 bytes, and nothing tests for its end; nor is it tested that a
percent sign has a character behind it. Both are errors here, as is a write behind the buffer of the
digits.

## Main results

* `printfInt_eq`, `printfHex_eq` — the numbers
* `printfTurn_directive` — one directive of the format
* `consolePrintf_safe_iff` — when no byte outside the format and the buffer is touched

## Conventions

A format is a list of bytes without its zero, and is made of directives: characters that stand for
themselves, and percent signs with the character behind them. The arguments are a list, each an
integer, an unsigned number or a string, and a character is an integer. A directive for which there
is no argument of its kind, or none at all, is an error, since what is read then is not said.

What is between the percent sign and the letter in other libraries, widths and flags, this function
does not know; it takes the first of it for the character of the directive, and prints both as they
are. Numbers are printed from a small buffer of their own, the lowest digit first in it. The loops
run with fuel; for a format of some length there is a bound above which the result is the same.
-/

namespace Rexus

open Loop Numeral

/-! ### The function -/

/-- An argument behind the format; a string is its characters before the null character. -/
inductive PrintfArg where
  | int (n : Int32)
  | uint (n : UInt32)
  | str (s : List UInt8)

/-- What the language gives no meaning to: a byte of the format behind its null character is read,
a byte behind one of the two buffers is written, there is no argument of the kind that the format
says, or the least number is negated, of which the result is no `int`. -/
inductive PrintfError where
  | format
  | buffer
  | digits
  | args
  | overflow

/-- `'0' + (val % 10)`, as a character. -/
def intDigit (val : Int32) : UInt8 := UInt8.ofInt (48 + (val % 10).toInt)

/-- The character of the lowest hexadecimal digit. -/
def hexDigit (val : UInt32) : UInt8 :=
  let digit := (val &&& 0xF).toNat
  if digit < 10 then UInt8.ofNat (48 + digit) else UInt8.ofNat (97 + (digit - 10))

/-- `case 'd'`: the characters that are put into the buffer. -/
def printfInt (fuel : ℕ) (val : Int32) : Option (Except PrintfError (List UInt8)) :=
  if val = 0 then some (.ok [48])
  -- `val = -val` overflows
  else if val = Int32.minValue then some (.error .overflow)
  else
    let negative : Bool := val < 0
    let val := if negative then -val else val
    (iterate (digitTurn 12 (fun val => 0 < val) intDigit (· / 10)) fuel (val, [])).map fun
      | .error _ => .error .digits
      | .ok num =>
        if negative then if num.length < 12 then .ok (num ++ [45]).reverse else .error .digits
        else .ok num.reverse

/-- `case 'x'`: the digits from the last to the first, and then in their order. With `none` the fuel
has not been enough for the loop; there are at most eight turns. -/
def printfHex (fuel : ℕ) (val : UInt32) : Option (Except PrintfError (List UInt8)) :=
  if val = 0 then some (.ok [48])
  else
    (iterate (digitTurn 9 (fun val => 0 < val) hexDigit (· >>> 4)) fuel (val, [])).map fun
      | .error _ => .error .digits
      | .ok num => .ok num.reverse

/-- `switch (*src)`: what is put into the buffer for the character behind a percent sign, and the
arguments that are left. -/
def printfConvert (fuel : ℕ) (c : UInt8) (args : List PrintfArg) :
    Option (Except PrintfError (List UInt8 × List PrintfArg)) :=
  if c = 100 then
    match args with
    | .int val :: args => (printfInt fuel val).map fun r => r.map fun text => (text, args)
    | _ => some (.error .args)
  else if c = 120 then
    match args with
    | .uint val :: args => (printfHex fuel val).map fun r => r.map fun text => (text, args)
    | _ => some (.error .args)
  else if c = 115 then
    match args with
    | .str s :: args => some (.ok (s, args))
    | _ => some (.error .args)
  else if c = 99 then
    match args with
    | .int val :: args => some (.ok ([UInt8.ofInt val.toInt], args))
    | _ => some (.error .args)
  else if c = 37 then some (.ok ([37], args))
  else some (.ok ([37, c], args))

/-- `src`, as an index into the format, the bytes of the buffer before `dst`, and the arguments that
are left. -/
structure PrintfScan where
  src : ℕ
  dst : List UInt8
  args : List PrintfArg

/-- `*dst++ = c`, for each of these bytes. -/
def printfPut (dst bytes : List UInt8) : Except PrintfError (List UInt8) :=
  if dst.length + bytes.length ≤ 1024 then .ok (dst ++ bytes) else .error .buffer

/-- A turn of the loop, in a format that is followed by its null character. The turn that finds the
null character puts one into the buffer. -/
def printfTurn (fuel : ℕ) (format : List UInt8) (w : PrintfScan) :
    Option (Turn PrintfScan (Except PrintfError (List UInt8))) :=
  match (format ++ [0])[w.src]? with
  | none => some (.done (.error .format))
  | some c =>
    if c = 0 then some (.done (printfPut w.dst [0]))
    else if c = 37 then
      match (format ++ [0])[w.src + 1]? with
      | none => some (.done (.error .format))
      | some c =>
        (printfConvert fuel c w.args).map fun
          | .error err => .done (.error err)
          | .ok (bytes, args) =>
            match printfPut w.dst bytes with
            | .error err => .done (.error err)
            | .ok dst => .next ⟨w.src + 2, dst, args⟩
    else
      match printfPut w.dst [c] with
      | .error err => some (.done (.error err))
      | .ok dst => some (.next ⟨w.src + 1, dst, w.args⟩)

/-- `console_printf`: the bytes of the buffer that are written. -/
def consolePrintf (fuel : ℕ) (format : List UInt8) (args : List PrintfArg) :
    Option (Except PrintfError (List UInt8)) :=
  iterate (printfTurn fuel format) fuel ⟨0, [], args⟩

/-! ### Numbers -/

theorem toInt_ten : (10 : Int32).toInt = 10 := rfl

/-- The lowest digit of a number that is not negative. -/
theorem intDigit_eq {val : Int32} (h : 0 ≤ val.toInt) :
    intDigit val = decimalChar (val.toInt.toNat % 10) := by
  have hmod : (val % 10).toInt = ((val.toInt.toNat % 10 : ℕ) : ℤ) := by
    rw [Int32.toInt_mod, toInt_ten, Int.tmod_eq_emod_of_nonneg h]
    omega
  have hsmall : (48 + ((val.toInt.toNat % 10 : ℕ) : ℤ)) % 2 ^ 8 =
      ((48 + val.toInt.toNat % 10 : ℕ) : ℤ) := by
    omega
  rw [intDigit, hmod, UInt8.ofInt, hsmall, Int.toNat_natCast, decimalChar]

theorem toInt_div_ten {val : Int32} (h : 0 ≤ val.toInt) : (val / 10).toInt = val.toInt / 10 := by
  have hne : val ≠ Int32.minValue := by
    rintro rfl
    exact absurd h (by decide)
  rw [Int32.toInt_div_of_ne_left _ _ hne, toInt_ten, Int.tdiv_eq_ediv_of_nonneg h]

/-- The digits of a number that is not negative, whatever test for more there is. -/
theorem iterate_intDigits {more : Int32 → Bool} {val : Int32} {fuel : ℕ} (h : 0 ≤ val.toInt)
    (hmore : ∀ val : Int32, 0 ≤ val.toInt → (more val = true ↔ val.toInt ≠ 0)) (hfuel : 10 < fuel) :
    iterate (digitTurn 12 more intDigit (· / 10)) fuel (val, []) =
      some (.ok ((Nat.digits 10 val.toInt.toNat).map decimalChar)) := by
  have hlen : (Nat.digits 10 val.toInt.toNat).length ≤ 10 := by
    have hlt := val.toInt_lt
    rw [Nat.digits_length_le_iff (by decide)]
    omega
  refine iterate_digitTurn (by decide) (fun val : Int32 => val.toInt.toNat)
    (fun val : Int32 => 0 ≤ val.toInt) (fun val hval => ?_) (fun val hval => intDigit_eq hval)
    (fun val hval => ?_) h [] (by rw [List.length_nil]; omega) (by omega)
  · rw [hmore val hval]
    omega
  · have hdiv := toInt_div_ten hval
    exact ⟨by omega, by omega⟩

/-- The negation of every number but the least. -/
theorem toInt_neg_of_ne {n : Int32} (h : n ≠ Int32.minValue) : (-n).toInt = -n.toInt := by
  have hle := n.le_toInt
  have hlt := n.toInt_lt
  have hne : n.toInt ≠ -2 ^ 31 := fun heq => h (Int32.toInt_inj.mp heq)
  rw [Int32.toInt_neg, Int.bmod_eq_of_le (by omega) (by omega)]

/-- The digits of a number but the least, made positive first. -/
theorem iterate_absDigits {more : Int32 → Bool} {n : Int32} {fuel : ℕ} (h : n ≠ Int32.minValue)
    (hmore : ∀ val : Int32, 0 ≤ val.toInt → (more val = true ↔ val.toInt ≠ 0)) (hfuel : 10 < fuel) :
    iterate (digitTurn 12 more intDigit (· / 10)) fuel
        (if decide (n < 0) = true then -n else n, []) =
      some (.ok ((Nat.digits 10 n.toInt.natAbs).map decimalChar)) := by
  have hneg : n < 0 ↔ n.toInt < 0 := Int32.lt_iff_toInt_lt
  have hval := toInt_neg_of_ne h
  by_cases hlt : n.toInt < 0
  · have habs : (-n).toInt.toNat = n.toInt.natAbs := by omega
    rw [if_pos (decide_eq_true (hneg.mpr hlt)), iterate_intDigits (by omega) hmore hfuel, habs]
  · have habs : n.toInt.toNat = n.toInt.natAbs := by omega
    rw [if_neg (by rw [decide_eq_true_iff, hneg]; exact hlt),
      iterate_intDigits (by omega) hmore hfuel, habs]

theorem length_absDigits (n : Int32) :
    ((Nat.digits 10 n.toInt.natAbs).map decimalChar).length ≤ 10 := by
  have hle := n.le_toInt
  have hlt := n.toInt_lt
  rw [List.length_map, Nat.digits_length_le_iff (by decide)]
  omega

theorem numeral_pos {b n : ℕ} {char : ℕ → UInt8} (h : n ≠ 0) :
    numeral b char n = ((Nat.digits b n).map char).reverse := if_neg h

/-- The numeral of a number that is not zero, from its digits. -/
theorem integer_of_ne {n : Int32} (h : n ≠ 0) :
    integer n.toInt = (if decide (n < 0) = true then [45] else []) ++
      ((Nat.digits 10 n.toInt.natAbs).map decimalChar).reverse := by
  have hneg : n < 0 ↔ n.toInt < 0 := Int32.lt_iff_toInt_lt
  have hne : n.toInt ≠ 0 := fun heq => h (Int32.toInt_inj.mp heq)
  rw [integer, numeral_pos (by omega)]
  by_cases hlt : n.toInt < 0
  · rw [if_pos hlt, if_pos (decide_eq_true (hneg.mpr hlt)), List.singleton_append]
  · rw [if_neg hlt, if_neg (by rw [decide_eq_true_iff, hneg]; exact hlt), List.nil_append]

theorem printfInt_eq {n : Int32} {fuel : ℕ} (hmin : n ≠ Int32.minValue) (hfuel : 10 < fuel) :
    printfInt fuel n = some (.ok (integer n.toInt)) := by
  have hmore : ∀ val : Int32, 0 ≤ val.toInt → (decide (0 < val) = true ↔ val.toInt ≠ 0) := by
    intro val hval
    rw [decide_eq_true_iff, Int32.lt_iff_toInt_lt]
    have hzero : (0 : Int32).toInt = 0 := rfl
    omega
  rw [printfInt]
  by_cases hzero : n = 0
  · rw [if_pos hzero, hzero]
    rfl
  have hroom := length_absDigits n
  rw [if_neg hzero, if_neg hmin, integer_of_ne hzero]
  dsimp only
  rw [iterate_absDigits hmin hmore hfuel, Option.map_some]
  dsimp only
  by_cases hneg : decide (n < 0) = true
  · rw [if_pos hneg, if_pos hneg, if_pos (by omega), List.reverse_append]
    rfl
  · rw [if_neg hneg, if_neg hneg, List.nil_append]

theorem printfInt_minValue (fuel : ℕ) :
    printfInt fuel Int32.minValue = some (.error .overflow) := by
  rw [printfInt, if_neg (by decide), if_pos rfl]

theorem length_integer_le (n : Int32) : (integer n.toInt).length ≤ 11 := by
  by_cases hzero : n = 0
  · rw [hzero]
    decide
  · have hdigits := length_absDigits n
    rw [integer_of_ne hzero, List.length_append, List.length_reverse]
    split_ifs <;> simp only [List.length_singleton, List.length_nil] <;> omega

/-- `'0' + d`, or `'a' + (d - 10)`. -/
def hexChar (d : ℕ) : UInt8 := if d < 10 then UInt8.ofNat (48 + d) else UInt8.ofNat (97 + (d - 10))

theorem printfHex_eq {n : UInt32} {fuel : ℕ} (hfuel : 10 < fuel) :
    printfHex fuel n = some (.ok (numeral 16 hexChar n.toNat)) := by
  have hand (val : UInt32) : (val &&& 0xF).toNat = val.toNat % 16 := by
    rw [UInt32.toNat_and]
    exact Nat.and_two_pow_sub_one_eq_mod val.toNat 4
  have hshift (val : UInt32) : (val >>> 4).toNat = val.toNat / 16 := by
    rw [UInt32.toNat_shiftRight, Nat.shiftRight_eq_div_pow]
    rfl
  rw [printfHex]
  by_cases hzero : n = 0
  · rw [if_pos hzero, hzero]
    rfl
  have hne : n.toNat ≠ 0 := fun h => hzero (UInt32.toNat_inj.mp h)
  have hlen : (Nat.digits 16 n.toNat).length ≤ 8 := by
    have hlt := n.toNat_lt
    rw [Nat.digits_length_le_iff (by decide)]
    omega
  have hdigits : iterate (digitTurn 9 (fun val => 0 < val) hexDigit (· >>> 4)) fuel (n, []) =
      some (.ok ((Nat.digits 16 n.toNat).map hexChar)) := by
    refine iterate_digitTurn (by decide) UInt32.toNat (fun _ => True) (fun val _ => ?_)
      (fun val _ => ?_) (fun val _ => ⟨trivial, hshift val⟩) trivial []
      (by rw [List.length_nil]; omega) (by omega)
    · rw [decide_eq_true_iff, UInt32.lt_iff_toNat_lt]
      exact Nat.pos_iff_ne_zero
    · rw [hexDigit, hexChar, hand]
  rw [if_neg hzero, hdigits, numeral_pos hne]
  rfl

/-! ### Directives -/

/-- A piece of a format with its argument: a character, or a percent sign and what it is followed
by. -/
inductive Directive where
  | literal (c : UInt8) (ne_zero : c ≠ 0) (ne_percent : c ≠ 37)
  | int (n : Int32)
  | hex (n : UInt32)
  | str (s : List UInt8)
  | char (n : Int32)
  | percent
  | other (c : UInt8) (ne_zero : c ≠ 0) (ne : c ∉ [100, 120, 115, 99, (37 : UInt8)])

namespace Directive

/-- Its characters in the format. -/
def format : Directive → List UInt8
  | literal c _ _ => [c]
  | int _ => [37, 100]
  | hex _ => [37, 120]
  | str _ => [37, 115]
  | char _ => [37, 99]
  | percent => [37, 37]
  | other c _ _ => [37, c]

/-- Its argument. -/
def args : Directive → List PrintfArg
  | int n => [.int n]
  | hex n => [.uint n]
  | str s => [.str s]
  | char n => [.int n]
  | _ => []

/-- What is put into the buffer for it. -/
def text : Directive → List UInt8
  | literal c _ _ => [c]
  | int n => integer n.toInt
  | hex n => numeral 16 hexChar n.toNat
  | str s => s
  | char n => [UInt8.ofInt n.toInt]
  | percent => [37]
  | other c _ _ => [37, c]

/-- All but `%d` of the least number. -/
def Defined : Directive → Prop
  | int n => n ≠ Int32.minValue
  | _ => True

end Directive

/-- The format that directives make up; it may be cut off behind the percent sign of one more. -/
def printfFormat (ds : List Directive) (cut : Bool) : List UInt8 :=
  ds.flatMap Directive.format ++ if cut then [37] else []

/-- Their arguments. -/
def printfArgs (ds : List Directive) : List PrintfArg := ds.flatMap Directive.args

/-- The text they expand to. -/
def printfText (ds : List Directive) : List UInt8 := ds.flatMap Directive.text

@[simp] theorem printfFormat_cons (d : Directive) (ds : List Directive) (cut : Bool) :
    printfFormat (d :: ds) cut = d.format ++ printfFormat ds cut := by
  rw [printfFormat, printfFormat, List.flatMap_cons, List.append_assoc]

/-- Behind a percent sign every character is part of a directive. -/
theorem exists_directive (c : UInt8) (hc : c ≠ 0) : ∃ d : Directive, d.format = [37, c] := by
  by_cases h : c ∈ [100, 120, 115, 99, (37 : UInt8)]
  · simp only [List.mem_cons, List.not_mem_nil, or_false] at h
    rcases h with rfl | rfl | rfl | rfl | rfl
    · exact ⟨.int 0, rfl⟩
    · exact ⟨.hex 0, rfl⟩
    · exact ⟨.str [], rfl⟩
    · exact ⟨.char 0, rfl⟩
    · exact ⟨.percent, rfl⟩
  · exact ⟨.other c hc h, rfl⟩

/-- Every string is the format of some directives. -/
theorem exists_directives (format : List UInt8) (h : ∀ c ∈ format, c ≠ 0) :
    ∃ ds cut, printfFormat ds cut = format := by
  match format, h with
  | [], _ => exact ⟨[], false, rfl⟩
  | c :: format, h =>
    obtain ⟨hc, hrest⟩ := List.forall_mem_cons.mp h
    by_cases hpercent : c = 37
    · match format, hrest with
      | [], _ => exact ⟨[], true, by rw [hpercent]; rfl⟩
      | c' :: format, hrest =>
        obtain ⟨hc', hrest⟩ := List.forall_mem_cons.mp hrest
        obtain ⟨d, hd⟩ := exists_directive c' hc'
        obtain ⟨ds, cut, hds⟩ := exists_directives format hrest
        exact ⟨d :: ds, cut, by rw [printfFormat_cons, hd, hds, hpercent]; rfl⟩
    · obtain ⟨ds, cut, hds⟩ := exists_directives format hrest
      exact ⟨.literal c hc hpercent :: ds, cut, by rw [printfFormat_cons, hds]; rfl⟩

variable {fuel : ℕ} {dst rest front bytes : List UInt8} {args args' : List PrintfArg} {c : UInt8}

/-- A percent sign that is followed by a character, which may be the null character. -/
theorem printfTurn_percent (hread : (rest ++ [0])[0]? = some c)
    (hconvert : printfConvert fuel c args = some (.ok (bytes, args'))) :
    printfTurn fuel (front ++ 37 :: rest) ⟨front.length, dst, args⟩ =
      some (if dst.length + bytes.length ≤ 1024 then
        .next ⟨front.length + 2, dst ++ bytes, args'⟩ else .done (.error .buffer)) := by
  have hfirst : (front ++ 37 :: rest ++ [0])[front.length]? = some 37 := by simp
  have hsecond : (front ++ 37 :: rest ++ [0])[front.length + 1]? = some c := by
    rw [List.append_assoc, List.getElem?_append_right (Nat.le_add_right _ _),
      Nat.add_sub_cancel_left]
    exact hread
  rw [printfTurn]
  dsimp only
  rw [hfirst]
  dsimp only
  rw [if_neg (by decide), if_pos rfl, hsecond]
  dsimp only
  rw [hconvert, Option.map_some]
  dsimp only
  by_cases hfit : dst.length + bytes.length ≤ 1024
  · rw [printfPut, if_pos hfit, if_pos hfit]
  · rw [printfPut, if_neg hfit, if_neg hfit]

/-- Any other character. -/
theorem printfTurn_literal (hzero : c ≠ 0) (hpercent : c ≠ 37) :
    printfTurn fuel (front ++ c :: rest) ⟨front.length, dst, args⟩ =
      some (if dst.length + 1 ≤ 1024 then .next ⟨front.length + 1, dst ++ [c], args⟩
      else .done (.error .buffer)) := by
  have hfirst : (front ++ c :: rest ++ [0])[front.length]? = some c := by simp
  rw [printfTurn]
  dsimp only
  rw [hfirst]
  dsimp only
  rw [if_neg hzero, if_neg hpercent]
  by_cases hfit : dst.length + 1 ≤ 1024
  · rw [printfPut, List.length_singleton, if_pos hfit, if_pos hfit]
  · rw [printfPut, List.length_singleton, if_neg hfit, if_neg hfit]

/-- A turn on a directive, in a format that goes on behind it. -/
theorem printfTurn_directive (front rest dst : List UInt8) (args : List PrintfArg) {d : Directive}
    (hd : d.Defined) (hfuel : 10 < fuel) :
    printfTurn fuel (front ++ (d.format ++ rest)) ⟨front.length, dst, d.args ++ args⟩ =
      some (if dst.length + d.text.length ≤ 1024 then
        .next ⟨front.length + d.format.length, dst ++ d.text, args⟩
      else .done (.error .buffer)) := by
  cases d with
  | literal c hzero hpercent => exact printfTurn_literal hzero hpercent
  | int n =>
    refine printfTurn_percent rfl ?_
    change printfConvert fuel 100 (.int n :: args) = some (.ok (integer n.toInt, args))
    rw [printfConvert, if_pos rfl, printfInt_eq hd hfuel]
    rfl
  | hex n =>
    refine printfTurn_percent rfl ?_
    change printfConvert fuel 120 (.uint n :: args) = some (.ok (numeral 16 hexChar n.toNat, args))
    rw [printfConvert, if_neg (by decide), if_pos rfl, printfHex_eq hfuel]
    rfl
  | str s => exact printfTurn_percent rfl rfl
  | char n => exact printfTurn_percent rfl rfl
  | percent => exact printfTurn_percent rfl rfl
  | other c hzero hc =>
    refine printfTurn_percent rfl (?_ : printfConvert fuel c args = some (.ok ([37, c], args)))
    simp only [List.mem_cons, List.not_mem_nil, or_false, not_or] at hc
    obtain ⟨hd, hx, hs, hch, hp⟩ := hc
    unfold printfConvert
    rw [if_neg hd, if_neg hx, if_neg hs, if_neg hch, if_neg hp]

/-- `%d` of the least number ends the function. -/
theorem printfTurn_overflow (front rest dst : List UInt8) (args : List PrintfArg) :
    printfTurn fuel (front ++ (37 :: 100 :: rest))
        ⟨front.length, dst, .int Int32.minValue :: args⟩ =
      some (.done (.error .overflow)) := by
  have hfirst : (front ++ 37 :: 100 :: rest ++ [0])[front.length]? = some 37 := by simp
  have hsecond : (front ++ 37 :: 100 :: rest ++ [0])[front.length + 1]? = some 100 := by
    rw [List.append_assoc, List.getElem?_append_right (Nat.le_add_right _ _),
      Nat.add_sub_cancel_left]
    rfl
  rw [printfTurn]
  dsimp only
  rw [hfirst]
  dsimp only
  rw [if_neg (by decide), if_pos rfl, hsecond]
  dsimp only
  rw [printfConvert, if_pos rfl, printfInt_minValue]
  rfl

/-! ### The whole format -/

/-- **The loop** on directives, as long as the buffer has room for what they expand to. -/
theorem iterate_printfTurn (front rest dst : List UInt8) (args : List PrintfArg)
    {ds : List Directive} (hds : ∀ d ∈ ds, d.Defined) (n : ℕ) (hfuel : 10 < fuel)
    (hdst : dst.length ≤ 1024) :
    iterate (printfTurn fuel (front ++ (ds.flatMap Directive.format ++ rest))) (ds.length + n)
        ⟨front.length, dst, printfArgs ds ++ args⟩ =
      if dst.length + (printfText ds).length ≤ 1024 then
        iterate (printfTurn fuel (front ++ (ds.flatMap Directive.format ++ rest))) n
          ⟨front.length + (ds.flatMap Directive.format).length, dst ++ printfText ds, args⟩
      else some (.error .buffer) := by
  induction ds generalizing front dst with
  | nil =>
    rw [if_pos (by simpa [printfText] using hdst)]
    simp [printfText, printfArgs]
  | cons d ds ih =>
    obtain ⟨hd, hds⟩ := List.forall_mem_cons.mp hds
    have hargs : printfArgs (d :: ds) ++ args = d.args ++ (printfArgs ds ++ args) := by
      rw [printfArgs, List.flatMap_cons, List.append_assoc]
      rfl
    have htext : printfText (d :: ds) = d.text ++ printfText ds := List.flatMap_cons
    have hlen : (d :: ds).length + n = ds.length + n + 1 := by
      rw [List.length_cons]
      omega
    have hturn := printfTurn_directive front (ds.flatMap Directive.format ++ rest) dst
      (printfArgs ds ++ args) hd hfuel
    rw [List.flatMap_cons, List.append_assoc, hargs, htext, hlen, List.length_append,
      List.length_append]
    by_cases hfit : dst.length + d.text.length ≤ 1024
    · rw [if_pos hfit] at hturn
      have hrest := ih (front ++ d.format) (dst ++ d.text) hds
        (by rw [List.length_append]; exact hfit)
      rw [List.append_assoc, List.length_append, List.length_append, List.append_assoc] at hrest
      rw [iterate_next hturn, hrest, Nat.add_assoc, Nat.add_assoc]
    · rw [if_neg hfit] at hturn
      rw [iterate_done hturn, if_neg (by omega)]

/-- The null character behind the format. -/
theorem printfTurn_end :
    printfTurn fuel front ⟨front.length, dst, args⟩ = some (.done (printfPut dst [0])) := by
  have hread : (front ++ [0])[front.length]? = some 0 := by simp
  rw [printfTurn]
  dsimp only
  rw [hread]
  rfl

/-- Behind a percent sign the null character is taken for one of the format, and the next byte is
read. -/
theorem iterate_printfTurn_cut (n : ℕ) :
    iterate (printfTurn fuel (front ++ [37])) (n + 2) ⟨front.length, dst, args⟩ =
      some (if dst.length + 2 ≤ 1024 then .error .format else .error .buffer) := by
  have hconvert : printfConvert fuel 0 args = some (.ok ([37, 0], args)) := rfl
  have hturn : printfTurn fuel (front ++ [37]) ⟨front.length, dst, args⟩ =
      some (if dst.length + 2 ≤ 1024 then .next ⟨front.length + 2, dst ++ [37, 0], args⟩
        else .done (.error .buffer)) := printfTurn_percent rfl hconvert
  by_cases hfit : dst.length + 2 ≤ 1024
  · have hread : (front ++ [37] ++ [0])[front.length + 2]? = none := by simp
    have hbehind : printfTurn fuel (front ++ [37]) ⟨front.length + 2, dst ++ [37, 0], args⟩ =
        some (.done (.error .format)) := by
      rw [printfTurn]
      dsimp only
      rw [hread]
    rw [iterate_next (hturn.trans (by rw [if_pos hfit])), iterate_done hbehind,
      if_pos hfit]
  · rw [iterate_done (hturn.trans (by rw [if_neg hfit])), if_neg hfit]

theorem length_le_flatMap_format (ds : List Directive) :
    ds.length ≤ (ds.flatMap Directive.format).length := by
  induction ds with
  | nil => exact Nat.le_refl 0
  | cons d ds ih =>
    have hpos : 0 < d.format.length := by cases d <;> exact Nat.succ_pos _
    rw [List.flatMap_cons, List.length_append, List.length_cons]
    omega

/-- What becomes of a format, whatever it expands to. -/
theorem consolePrintf_eq {ds : List Directive} (hds : ∀ d ∈ ds, d.Defined) (cut : Bool)
    (args : List PrintfArg) (hfuel : (printfFormat ds cut).length + 11 < fuel) :
    consolePrintf fuel (printfFormat ds cut) (printfArgs ds ++ args) =
      some (if (printfText ds).length ≤ 1024 then
        if cut then if (printfText ds).length + 2 ≤ 1024 then .error .format else .error .buffer
        else printfPut (printfText ds) [0]
      else .error .buffer) := by
  have hle := length_le_flatMap_format ds
  have hlen : (printfFormat ds cut).length =
      (ds.flatMap Directive.format).length + (if cut then [(37 : UInt8)] else []).length :=
    List.length_append
  obtain ⟨n, hn⟩ := Nat.exists_eq_add_of_le (by omega : ds.length + 2 ≤ fuel)
  have hloop := iterate_printfTurn [] (if cut then [37] else []) [] args hds (n + 2)
    (by omega : 10 < fuel) (Nat.zero_le _)
  have hturns : ds.length + (n + 2) = fuel := by omega
  rw [hturns, List.nil_append, List.nil_append, List.length_nil, Nat.zero_add,
    Nat.zero_add] at hloop
  rw [consolePrintf, printfFormat, hloop]
  by_cases hfit : (printfText ds).length ≤ 1024
  · rw [if_pos hfit, if_pos hfit]
    cases cut with
    | true => exact iterate_printfTurn_cut n
    | false =>
      rw [if_neg Bool.false_ne_true, if_neg Bool.false_ne_true, List.append_nil]
      exact iterate_done printfTurn_end
  · rw [if_neg hfit, if_neg hfit]

/-- With `%d` of the least number no format is printed to its end. -/
theorem consolePrintf_overflow {ds : List Directive} (hmem : .int Int32.minValue ∈ ds) (cut : Bool)
    (args : List PrintfArg) (hfuel : (printfFormat ds cut).length + 11 < fuel) :
    ∃ err,
      consolePrintf fuel (printfFormat ds cut) (printfArgs ds ++ args) = some (.error err) := by
  classical
  -- the first of them is reached, or the buffer is left before
  obtain ⟨pre, post, rfl, hpre⟩ : ∃ pre post, ds = pre ++ .int Int32.minValue :: post ∧
      ∀ d ∈ pre, d.Defined := by
    induction ds with
    | nil => cases hmem
    | cons d ds ih =>
      by_cases hd : d.Defined
      · have hmem' : .int Int32.minValue ∈ ds := by
          refine (List.mem_cons.mp hmem).resolve_left ?_
          rintro rfl
          exact hd rfl
        have hlen : (printfFormat ds cut).length + 11 < fuel := by
          rw [printfFormat_cons, List.length_append] at hfuel
          omega
        obtain ⟨pre, post, rfl, hpre⟩ := ih hmem' hlen
        exact ⟨d :: pre, post, rfl, List.forall_mem_cons.mpr ⟨hd, hpre⟩⟩
      · cases d with
        | int n =>
          obtain rfl : n = Int32.minValue := not_not.mp hd
          exact ⟨[], ds, rfl, fun d hd => absurd hd List.not_mem_nil⟩
        | _ => exact absurd trivial hd
  have hformat : printfFormat (pre ++ .int Int32.minValue :: post) cut =
      pre.flatMap Directive.format ++ (37 :: 100 :: printfFormat post cut) := by
    rw [printfFormat, List.flatMap_append, List.flatMap_cons, List.append_assoc, List.append_assoc]
    rfl
  have hargs : printfArgs (pre ++ .int Int32.minValue :: post) ++ args =
      printfArgs pre ++ (.int Int32.minValue :: (printfArgs post ++ args)) := by
    rw [printfArgs, List.flatMap_append, List.flatMap_cons, List.append_assoc, List.append_assoc]
    rfl
  have hle := length_le_flatMap_format pre
  rw [hformat, List.length_append] at hfuel
  obtain ⟨n, hn⟩ := Nat.exists_eq_add_of_le (by omega : pre.length + 1 ≤ fuel)
  have hloop := iterate_printfTurn [] (37 :: 100 :: printfFormat post cut) []
    (.int Int32.minValue :: (printfArgs post ++ args)) hpre (n + 1) (by omega : 10 < fuel)
    (Nat.zero_le _)
  have hturns : pre.length + (n + 1) = fuel := by omega
  rw [hturns, List.nil_append, List.nil_append, List.length_nil, Nat.zero_add,
    Nat.zero_add] at hloop
  rw [consolePrintf, hformat, hargs, hloop]
  split_ifs
  · exact ⟨_, iterate_done (printfTurn_overflow _ _ _ _)⟩
  · exact ⟨_, rfl⟩

/-- **When the function does what the language defines**, and no byte outside the format and the
buffer is touched: the format is not cut off behind a percent sign, what it expands to leaves room
for the null character, and no `%d` gets the least number. -/
theorem consolePrintf_safe_iff (ds : List Directive) (cut : Bool) (args : List PrintfArg) :
    (∃ buffer, (∀ fuel > (printfFormat ds cut).length + 11,
        consolePrintf fuel (printfFormat ds cut) (printfArgs ds ++ args) = some (.ok buffer)) ∧
      buffer.length ≤ 1024) ↔
      cut = false ∧ (printfText ds).length ≤ 1023 ∧ ∀ d ∈ ds, d.Defined := by
  constructor
  · rintro ⟨buffer, hrun, -⟩
    have hok := hrun _ (Nat.lt_succ_self _)
    have hds : ∀ d ∈ ds, d.Defined := by
      intro d hd
      cases d with
      | int n =>
        rintro rfl
        obtain ⟨err, herr⟩ := consolePrintf_overflow hd cut args (Nat.lt_succ_self _)
        cases hok.symm.trans herr
      | _ => trivial
    rw [consolePrintf_eq hds cut args (Nat.lt_succ_self _), printfPut,
      List.length_singleton] at hok
    cases cut with
    | true =>
      rw [if_pos rfl] at hok
      split_ifs at hok <;> cases hok
    | false =>
      rw [if_neg Bool.false_ne_true] at hok
      split_ifs at hok with hfit hroom
      · exact ⟨rfl, by omega, hds⟩
      · cases hok
      · cases hok
  · rintro ⟨rfl, hle, hds⟩
    refine ⟨printfText ds ++ [0], fun fuel hfuel => ?_, ?_⟩
    · rw [consolePrintf_eq hds false args hfuel, if_pos (by omega), if_neg Bool.false_ne_true,
        printfPut, if_pos (by rw [List.length_singleton]; omega)]
    · rw [List.length_append, List.length_singleton]
      omega

/-- The format that is a percent sign. -/
theorem not_consolePrintf_safe :
    ¬ ∀ (ds : List Directive) (cut : Bool) (args : List PrintfArg),
      ∃ buffer, (∀ fuel > (printfFormat ds cut).length + 11,
          consolePrintf fuel (printfFormat ds cut) (printfArgs ds ++ args) = some (.ok buffer)) ∧
        buffer.length ≤ 1024 := by
  intro h
  obtain ⟨buffer, hrun, -⟩ := h [] true []
  have hok := hrun 13 (by decide)
  rw [consolePrintf_eq (fun _ hd => absurd hd List.not_mem_nil) true [] (by decide)] at hok
  cases hok

/-- An error code of a command. -/
example : printfText [.int (-7), .literal 10 (by decide) (by decide)] = [45, 55, 10] := by decide

end Rexus
