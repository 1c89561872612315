import Mathlib.Data.List.TakeWhile
import Rexus.Lib.Numeral

/-!
# Reading numbers from a text

`sscanf` for the conversions `%u` and `%x` and for characters that must be there as they are. A
number is what `strtoul` reads: blanks, a sign, for `%x` a prefix `0x`, and digits. A negative one
is negated in 32 bits, and one that is too large is the greatest there is. What is behind the last
conversion is not looked at.

## Main results

* `Scanf.scanNumber_eq_some_iff` — the numbers that are read, by the text they are read from
* `Scanf.sscanf_fields_iff` — fields with a character between them

## Scope

Of `sscanf` there is what the formats `%u` and `%x` with single characters between them need:
widths, other conversions, and blanks in a format are left out. A text is a list of bytes without
its zero, and the blanks are the six of `isspace` in the locale of a program that has set none.

## Conventions

The result is the list of the numbers that have been converted, which is what `sscanf` counts and
stores; a program that finds fewer than it has asked for has still had those stored. A number of
`32` bits is what `strtoul` makes of its text: a value too large for it becomes the greatest there
is, with either sign, and only then does a minus sign negate. Only the sign counts modulo `2 ^ 32`,
not the digits.
-/

namespace Scanf

/-! ### The functions -/

/-- `isspace`. -/
def isSpace (c : UInt8) : Bool := c = 32 || (9 ≤ c && c ≤ 13)

/-- The value of a digit; letters in either case. -/
def digitVal (c : UInt8) : Option ℕ :=
  if 48 ≤ c.toNat ∧ c.toNat < 58 then some (c.toNat - 48)
  else if 97 ≤ c.toNat ∧ c.toNat < 103 then some (c.toNat - 87)
  else if 65 ≤ c.toNat ∧ c.toNat < 71 then some (c.toNat - 55)
  else none

/-- A digit in base `b`. -/
def isDigit (b : ℕ) (c : UInt8) : Bool := (digitVal c).any (· < b)

/-- The number that the digits are, read from left to right. -/
def value (b : ℕ) (ds : List UInt8) : ℕ := ds.foldl (fun v c => b * v + (digitVal c).getD 0) 0

/-- What a number with a sign is in 32 bits. -/
def convert (negative : Bool) (n : ℕ) : UInt32 :=
  if 2 ^ 32 ≤ n then 0xFFFFFFFF else if negative then -UInt32.ofNat n else UInt32.ofNat n

/-- A minus sign is there, and what is behind a sign. -/
def dropSign : List UInt8 → Bool × List UInt8
  | [] => (false, [])
  | c :: s => if c = 45 then (true, s) else if c = 43 then (false, s) else (false, c :: s)

/-- What is behind `0x`. -/
def dropPrefix (b : ℕ) : List UInt8 → List UInt8
  | z :: x :: s => if b = 16 ∧ z = 48 ∧ (x = 120 ∨ x = 88) then s else z :: x :: s
  | s => s

/-- One conversion: the number, and what is behind it. -/
def scanNumber (b : ℕ) (s : List UInt8) : Option (UInt32 × List UInt8) :=
  let (negative, s) := dropSign (s.dropWhile isSpace)
  let s := dropPrefix b s
  if s.takeWhile (isDigit b) = [] then none
  else some (convert negative (value b (s.takeWhile (isDigit b))), s.dropWhile (isDigit b))

/-- A part of a format: a conversion, or a character. -/
inductive Directive where
  | number (b : ℕ)
  | char (c : UInt8)

/-- `sscanf`: the numbers it has converted when the format ends, or the text does not match it. -/
def sscanf : List Directive → List UInt8 → List UInt32
  | [], _ => []
  | .number b :: format, s =>
    match scanNumber b s with
    | none => []
    | some (u, s) => u :: sscanf format s
  | .char c :: format, s =>
    match s with
    | [] => []
    | d :: s => if d = c then sscanf format s else []

/-- The format of `n + 1` numbers with a character between them. -/
def fields (b : ℕ) (sep : UInt8) : ℕ → List Directive
  | 0 => [.number b]
  | n + 1 => .number b :: .char sep :: fields b sep n

/-! ### The texts -/

/-- The text of a number in base `b`: blanks, a sign, a prefix and digits. -/
structure NumberText where
  blanks : List UInt8
  sign : List UInt8
  pre : List UInt8
  digits : List UInt8

namespace NumberText

/-- The characters. -/
def chars (t : NumberText) : List UInt8 := t.blanks ++ (t.sign ++ (t.pre ++ t.digits))

/-- The number. -/
def number (b : ℕ) (t : NumberText) : UInt32 := convert (t.sign = [45]) (value b t.digits)

/-- The parts are what they may be. -/
structure Ok (b : ℕ) (t : NumberText) : Prop where
  blanks : ∀ c ∈ t.blanks, isSpace c = true
  sign : t.sign = [] ∨ t.sign = [43] ∨ t.sign = [45]
  pre : t.pre = [] ∨ (b = 16 ∧ (t.pre = [48, 120] ∨ t.pre = [48, 88]))
  ne_nil : t.digits ≠ []
  digits : ∀ c ∈ t.digits, isDigit b c = true

/-- The number does not go on in what is behind it, and what begins as a prefix is one. -/
structure Ends (b : ℕ) (t : NumberText) (rest : List UInt8) : Prop where
  digit : ∀ c ∈ rest.head?, isDigit b c = false
  pre : b = 16 → t.pre = [] → t.digits = [48] → ∀ c ∈ rest.head?, c ≠ 120 ∧ c ≠ 88

end NumberText

section

variable {b : ℕ} {s rest : List UInt8} {u : UInt32} {t : NumberText} {c : UInt8}

theorem isDigit_iff : isDigit b c = true ↔ ∃ d, digitVal c = some d ∧ d < b := by
  rw [isDigit, Option.any_eq_true]
  simp

/-- The characters that are digits in some base. -/
theorem digitVal_range {d : ℕ} (h : digitVal c = some d) :
    (48 ≤ c.toNat ∧ c.toNat < 58) ∨ (97 ≤ c.toNat ∧ c.toNat < 103) ∨
      (65 ≤ c.toNat ∧ c.toNat < 71) := by
  rw [digitVal] at h
  split_ifs at h with h₁ h₂ h₃
  · exact Or.inl h₁
  · exact Or.inr (Or.inl h₂)
  · exact Or.inr (Or.inr h₃)

theorem isSpace_iff : isSpace c = true ↔ c.toNat = 32 ∨ (9 ≤ c.toNat ∧ c.toNat ≤ 13) := by
  rw [isSpace, Bool.or_eq_true, Bool.and_eq_true, decide_eq_true_eq, decide_eq_true_eq,
    decide_eq_true_eq, UInt8.le_iff_toNat_le, UInt8.le_iff_toNat_le, ← UInt8.toNat_inj]
  exact Iff.rfl

/-- A digit is neither a blank nor a sign, nor the second character of a prefix. -/
theorem digit_ne (h : isDigit b c = true) :
    isSpace c = false ∧ c ≠ 45 ∧ c ≠ 43 ∧ c ≠ 120 ∧ c ≠ 88 := by
  obtain ⟨d, hd, -⟩ := isDigit_iff.mp h
  have hrange := digitVal_range hd
  have hne : ∀ x : UInt8, c.toNat ≠ x.toNat → c ≠ x := fun x hx heq => hx (congrArg _ heq)
  refine ⟨?_, hne _ ?_, hne _ ?_, hne _ ?_, hne _ ?_⟩
  · rw [← Bool.not_eq_true, isSpace_iff]
    omega
  · show c.toNat ≠ 45
    omega
  · show c.toNat ≠ 43
    omega
  · show c.toNat ≠ 120
    omega
  · show c.toNat ≠ 88
    omega

/-- What stops at the first character that is no `p`. -/
theorem takeWhile_append_of_head {p : UInt8 → Bool} {l : List UInt8} (hl : ∀ c ∈ l, p c = true)
    (hrest : ∀ c ∈ rest.head?, p c = false) :
    (l ++ rest).takeWhile p = l ∧ (l ++ rest).dropWhile p = rest := by
  have hnil : rest.takeWhile p = [] ∧ rest.dropWhile p = rest := by
    cases rest with
    | nil => exact ⟨rfl, rfl⟩
    | cons c rest =>
      have hc : p c = false := hrest c rfl
      exact ⟨List.takeWhile_cons_of_neg (by simp [hc]), List.dropWhile_cons_of_neg (by simp [hc])⟩
  rw [List.takeWhile_append_of_pos hl, List.dropWhile_append_of_pos hl, hnil.1, hnil.2,
    List.append_nil]
  exact ⟨rfl, rfl⟩

namespace NumberText

/-- Behind the sign there is a digit, also where there is a prefix. -/
theorem Ok.head (h : t.Ok b) (rest : List UInt8) : ∃ c l, t.pre ++ (t.digits ++ rest) = c :: l ∧
    isSpace c = false ∧ c ≠ 45 ∧ c ≠ 43 := by
  have hzero : isSpace 48 = false ∧ (48 : UInt8) ≠ 45 ∧ (48 : UInt8) ≠ 43 := by decide
  rcases h.pre with hpre | ⟨-, hpre | hpre⟩
  · obtain ⟨d, ds, hds⟩ := List.exists_cons_of_ne_nil h.ne_nil
    obtain ⟨hspace, hminus, hplus, -⟩ := digit_ne (h.digits d (hds ▸ List.mem_cons_self))
    exact ⟨d, ds ++ rest, by rw [hpre, hds]; rfl, hspace, hminus, hplus⟩
  · exact ⟨48, _, by rw [hpre]; rfl, hzero⟩
  · exact ⟨48, _, by rw [hpre]; rfl, hzero⟩

theorem Ok.dropSign_eq (h : t.Ok b) (rest : List UInt8) :
    (t.sign ++ (t.pre ++ (t.digits ++ rest))).dropWhile isSpace =
        t.sign ++ (t.pre ++ (t.digits ++ rest)) ∧
      dropSign (t.sign ++ (t.pre ++ (t.digits ++ rest))) =
        (decide (t.sign = [45]), t.pre ++ (t.digits ++ rest)) := by
  obtain ⟨c, l, heq, hspace, hminus, hplus⟩ := h.head rest
  rw [heq]
  rcases h.sign with hsign | hsign | hsign
  · rw [hsign, List.nil_append, dropSign, if_neg hminus, if_neg hplus]
    exact ⟨List.dropWhile_cons_of_neg (by simp [hspace]), rfl⟩
  · rw [hsign]
    exact ⟨rfl, rfl⟩
  · rw [hsign]
    exact ⟨rfl, rfl⟩

theorem Ok.dropPrefix_eq (h : t.Ok b) (hrest : t.Ends b rest) :
    dropPrefix b (t.pre ++ (t.digits ++ rest)) = t.digits ++ rest := by
  rcases h.pre with hpre | ⟨hb, hpre | hpre⟩
  · rw [hpre, List.nil_append]
    obtain ⟨d, ds, hds⟩ := List.exists_cons_of_ne_nil h.ne_nil
    rw [hds, List.cons_append]
    cases ds with
    | nil =>
      cases rest with
      | nil => rfl
      | cons x rest =>
        rw [List.nil_append, dropPrefix, if_neg]
        rintro ⟨hb, rfl, hx⟩
        obtain ⟨hx₁, hx₂⟩ := hrest.pre hb hpre hds x rfl
        exact hx.elim hx₁ hx₂
    | cons e ds =>
      obtain ⟨-, -, -, hx₁, hx₂⟩ := digit_ne (h.digits e (by rw [hds]; simp))
      rw [List.cons_append, dropPrefix, if_neg]
      rintro ⟨-, -, hx⟩
      exact hx.elim hx₁ hx₂
  · rw [hpre, List.cons_append, List.cons_append, List.nil_append, dropPrefix]
    exact if_pos ⟨hb, rfl, Or.inl rfl⟩
  · rw [hpre, List.cons_append, List.cons_append, List.nil_append, dropPrefix]
    exact if_pos ⟨hb, rfl, Or.inr rfl⟩

/-- A number that is there is read. -/
theorem Ok.scan (h : t.Ok b) (hrest : t.Ends b rest) :
    scanNumber b (t.chars ++ rest) = some (t.number b, rest) := by
  obtain ⟨hspace, hsign⟩ := h.dropSign_eq rest
  obtain ⟨htake, hdrop⟩ := takeWhile_append_of_head h.digits hrest.digit
  rw [scanNumber, chars, List.append_assoc, List.append_assoc, List.append_assoc,
    List.dropWhile_append_of_pos h.blanks, hspace, hsign]
  dsimp only
  rw [h.dropPrefix_eq hrest, htake, hdrop, if_neg h.ne_nil]
  rfl

end NumberText

/-- What is behind a sign, and the sign. -/
theorem exists_sign (s : List UInt8) : ∃ sign, s = sign ++ (dropSign s).2 ∧
    (sign = [] ∨ sign = [43] ∨ sign = [45]) ∧ (dropSign s).1 = decide (sign = [45]) := by
  cases s with
  | nil => exact ⟨[], rfl, Or.inl rfl, rfl⟩
  | cons c s =>
    rw [dropSign]
    split_ifs with hminus hplus
    · exact ⟨[45], by rw [hminus]; rfl, Or.inr (Or.inr rfl), rfl⟩
    · exact ⟨[43], by rw [hplus]; rfl, Or.inr (Or.inl rfl), rfl⟩
    · exact ⟨[], rfl, Or.inl rfl, rfl⟩

/-- What is behind a prefix, and the prefix. -/
theorem exists_prefix (b : ℕ) (s : List UInt8) : ∃ pre, s = pre ++ dropPrefix b s ∧
    (pre = [] ∨ (b = 16 ∧ (pre = [48, 120] ∨ pre = [48, 88]))) ∧
    (pre = [] → b = 16 → ∀ x l, s = 48 :: x :: l → x ≠ 120 ∧ x ≠ 88) := by
  match s with
  | [] => exact ⟨[], rfl, Or.inl rfl, fun _ _ x l hs => by cases hs⟩
  | [z] => exact ⟨[], rfl, Or.inl rfl, fun _ _ x l hs => by cases hs⟩
  | z :: x :: s =>
    rw [dropPrefix]
    split_ifs with hpre
    · obtain ⟨hb, rfl, rfl | rfl⟩ := hpre
      · exact ⟨[48, 120], rfl, Or.inr ⟨hb, Or.inl rfl⟩, fun hcon => by cases hcon⟩
      · exact ⟨[48, 88], rfl, Or.inr ⟨hb, Or.inr rfl⟩, fun hcon => by cases hcon⟩
    · refine ⟨[], rfl, Or.inl rfl, fun _ hb y l hs => ?_⟩
      obtain ⟨rfl, htail⟩ := List.cons.inj hs
      obtain ⟨rfl, -⟩ := List.cons.inj htail
      exact ⟨fun hy => hpre ⟨hb, rfl, Or.inl hy⟩, fun hy => hpre ⟨hb, rfl, Or.inr hy⟩⟩

/-- **The numbers that are read**, by the text they are read from. -/
theorem scanNumber_eq_some_iff : scanNumber b s = some (u, rest) ↔
    ∃ t : NumberText, s = t.chars ++ rest ∧ t.Ok b ∧ t.Ends b rest ∧ t.number b = u := by
  constructor
  · intro h
    obtain ⟨sign, hsign, hsignOk, hnegative⟩ := exists_sign (s.dropWhile isSpace)
    rw [scanNumber] at h
    dsimp only at h
    rw [hnegative] at h
    generalize (dropSign (s.dropWhile isSpace)).2 = s₁ at hsign h
    obtain ⟨pre, hpre, hpreOk, hno⟩ := exists_prefix b s₁
    generalize dropPrefix b s₁ = s₂ at hpre h
    split_ifs at h with hnil
    obtain ⟨rfl, rfl⟩ := Prod.mk.inj (Option.some_inj.mp h)
    refine ⟨⟨s.takeWhile isSpace, sign, pre, s₂.takeWhile (isDigit b)⟩, ?_, ⟨fun c hc => ?_,
      hsignOk, hpreOk, hnil, fun c hc => ?_⟩, ⟨fun c hc => ?_, fun hb hpre' hzero c hc => ?_⟩, rfl⟩
    · rw [NumberText.chars]
      dsimp only
      rw [List.append_assoc, List.append_assoc, List.append_assoc,
        List.takeWhile_append_dropWhile, ← hpre, ← hsign, List.takeWhile_append_dropWhile]
    · exact List.mem_takeWhile_imp hc
    · exact List.mem_takeWhile_imp hc
    · have hnot := List.head?_dropWhile_not (isDigit b) s₂
      rw [Option.mem_def.mp hc] at hnot
      exact hnot
    · obtain ⟨l, hl⟩ := List.head?_eq_some_iff.mp hc
      refine hno hpre' hb c l ?_
      dsimp only at hzero hpre'
      rw [hpre, hpre', List.nil_append,
        ← List.takeWhile_append_dropWhile (p := isDigit b) (l := s₂), hzero, hl]
      rfl
  · rintro ⟨t, rfl, hok, hends, rfl⟩
    exact hok.scan hends

/-! ### Fields -/

/-- The text has the numbers in it, with `sep` between them, and anything behind the last. -/
def Fields (b : ℕ) (sep : UInt8) : List UInt8 → List UInt32 → Prop
  | _, [] => False
  | s, [u] =>
    ∃ t : NumberText, ∃ rest, s = t.chars ++ rest ∧ t.Ok b ∧ t.Ends b rest ∧ t.number b = u
  | s, u :: us =>
    ∃ t : NumberText, ∃ rest, s = t.chars ++ sep :: rest ∧ t.Ok b ∧ t.number b = u ∧
      Fields b sep rest us

theorem fields_cons {sep : UInt8} {us : List UInt32} (hus : us ≠ []) :
    Fields b sep s (u :: us) ↔ ∃ t : NumberText, ∃ rest, s = t.chars ++ sep :: rest ∧ t.Ok b ∧
      t.number b = u ∧ Fields b sep rest us := by
  obtain ⟨v, vs, rfl⟩ := List.exists_cons_of_ne_nil hus
  exact Iff.rfl

/-- A number and the character behind it. -/
theorem sscanf_number_char {sep : UInt8} {format : List Directive} {us : List UInt32}
    (hus : us ≠ []) : sscanf (.number b :: .char sep :: format) s = u :: us ↔
      ∃ rest, scanNumber b s = some (u, sep :: rest) ∧ sscanf format rest = us := by
  rw [sscanf]
  rcases scanNumber b s with - | ⟨v, rest⟩
  · refine iff_of_false (fun hcon => by cases hcon) ?_
    rintro ⟨rest, hcon, -⟩
    cases hcon
  · dsimp only
    rw [List.cons_eq_cons]
    cases rest with
    | nil =>
      rw [sscanf]
      refine iff_of_false (fun hcon => hus hcon.2.symm) ?_
      rintro ⟨rest, hcon, -⟩
      cases hcon
    | cons c rest =>
      rw [sscanf]
      constructor
      · rintro ⟨rfl, hrest⟩
        split_ifs at hrest with hc
        · exact ⟨rest, by rw [hc], hrest⟩
        · exact absurd hrest.symm hus
      · rintro ⟨rest', hscan, hrest⟩
        obtain ⟨rfl, hcons⟩ := Prod.mk.inj (Option.some_inj.mp hscan)
        obtain ⟨rfl, rfl⟩ := List.cons.inj hcons
        exact ⟨rfl, (if_pos rfl).trans hrest⟩

/-- **Fields are read if they are there.** -/
theorem sscanf_fields_iff {sep : UInt8} (hsep : isDigit b sep = false) (hx : sep ≠ 120 ∧ sep ≠ 88)
    {n : ℕ} {us : List UInt32} (hn : us.length = n + 1) :
    sscanf (fields b sep n) s = us ↔ Fields b sep s us := by
  induction n generalizing s us with
  | zero =>
    obtain ⟨u, rfl⟩ := List.length_eq_one_iff.mp hn
    have hscan : sscanf (fields b sep 0) s = [u] ↔ ∃ rest, scanNumber b s = some (u, rest) := by
      rw [fields, sscanf]
      rcases scanNumber b s with - | ⟨v, rest⟩
      · simp
      · simp [sscanf]
    rw [hscan, Fields, exists_comm]
    simp only [scanNumber_eq_some_iff]
  | succ n ih =>
    obtain ⟨u, us, rfl⟩ := List.exists_cons_of_length_eq_add_one hn
    have hlen : us.length = n + 1 := Nat.succ.inj hn
    have hus : us ≠ [] := List.ne_nil_of_length_eq_add_one hlen
    rw [fields, sscanf_number_char hus, fields_cons hus, exists_comm]
    refine exists_congr fun rest => ?_
    rw [ih hlen, scanNumber_eq_some_iff]
    constructor
    · rintro ⟨⟨t, hs, hok, -, hu⟩, hrest⟩
      exact ⟨t, hs, hok, hu, hrest⟩
    · rintro ⟨t, hs, hok, hu, hrest⟩
      have hhead : ∀ c ∈ (sep :: rest).head?, c = sep := fun c hc => (Option.some_inj.mp hc).symm
      exact ⟨⟨t, hs, hok, ⟨fun c hc => hhead c hc ▸ hsep, fun _ _ _ c hc => hhead c hc ▸ hx⟩, hu⟩,
        hrest⟩

/-! ### Numerals -/

/-- A text that is only digits. -/
theorem ok_digits {ds : List UInt8} (hnil : ds ≠ []) (hds : ∀ c ∈ ds, isDigit b c = true) :
    (⟨[], [], [], ds⟩ : NumberText).Ok b :=
  ⟨fun _ hc => absurd hc List.not_mem_nil, Or.inl rfl, Or.inl rfl, hnil, hds⟩

theorem convert_ofNat {n : ℕ} (h : n < 2 ^ 32) : convert false n = UInt32.ofNat n := by
  rw [convert, if_neg (Nat.not_le.mpr h)]
  rfl

/-- A decimal numeral is read as its number. -/
theorem isDecimal_value {text : List UInt8} {n : ℕ} (h : Numeral.IsDecimal text n) :
    (∀ c ∈ text, isDigit 10 c = true) ∧ value 10 text = n := by
  have hval : ∀ c ∈ text, digitVal c = some (c.toNat - 48) := fun c hc => if_pos (h.digit c hc)
  refine ⟨fun c hc => isDigit_iff.mpr ⟨_, hval c hc, ?_⟩, ?_⟩
  · have hrange := h.digit c hc
    omega
  · rw [← h.value, value]
    refine List.foldl_ext _ _ _ fun v c hc => ?_
    rw [hval c hc, Option.getD_some]

/-- The digits of a number, the lowest last, are read as the number. -/
theorem value_digits {char : ℕ → UInt8} (hb : 1 < b) (hchar : ∀ d < b, digitVal (char d) = some d)
    (n : ℕ) : (∀ c ∈ ((Nat.digits b n).map char).reverse, isDigit b c = true) ∧
      value b ((Nat.digits b n).map char).reverse = n := by
  have hdigit : ∀ d ∈ Nat.digits b n, digitVal (char d) = some d := fun d hd =>
    hchar d (Nat.digits_lt_base hb hd)
  constructor
  · intro c hc
    obtain ⟨d, hd, rfl⟩ := List.mem_map.mp (List.mem_reverse.mp hc)
    exact isDigit_iff.mpr ⟨d, hdigit d hd, Nat.digits_lt_base hb hd⟩
  · rw [value, List.foldl_reverse, List.foldr_map]
    conv_rhs => rw [← Nat.ofDigits_digits b n, Nat.ofDigits_eq_foldr]
    refine List.foldr_ext _ _ _ fun d hd v => ?_
    rw [hdigit d hd, Option.getD_some, Nat.add_comm]
    rfl

/-- The character of a hexadecimal digit. -/
def hexText (d : ℕ) : UInt8 := UInt8.ofNat (if d < 10 then 48 + d else 87 + d)

theorem digitVal_hexText {d : ℕ} (h : d < 16) : digitVal (hexText d) = some d := by
  have hall : ∀ d : Fin 16, digitVal (hexText d) = some d.val := by decide
  exact hall ⟨d, h⟩

/-- Two hexadecimal digits are read as their number. -/
theorem hexText_value {d e : ℕ} (hd : d < 16) (he : e < 16) :
    (∀ c ∈ [hexText d, hexText e], isDigit 16 c = true) ∧
      value 16 [hexText d, hexText e] = 16 * d + e := by
  refine ⟨fun c hc => ?_, ?_⟩
  · rcases List.mem_pair.mp hc with rfl | rfl
    · exact isDigit_iff.mpr ⟨d, digitVal_hexText hd, hd⟩
    · exact isDigit_iff.mpr ⟨e, digitVal_hexText he, he⟩
  · simp [value, digitVal_hexText hd, digitVal_hexText he]

end

end Scanf
