import Mathlib.Data.Fin.VecNotation
import Mathlib.Data.List.GetD
import Rexus.Lib.Run
import Rexus.Lib.Scanf
import Rexus.Net.Packet

/-!
# Addresses as texts

The texts of internet and of hardware addresses: `ipv4_addr_to_string` and `ipv4_string_to_addr` of
`net/ipv4.c`, and `eth_format_mac`, `eth_parse_mac` and `eth_is_valid_mac` of `net/ethernet.c`. What
is accepted is what `sscanf` reads: blanks and a sign before a number, more digits than are needed,
and anything behind the last. A hardware address is stored number by number, so that one that is
refused may be stored in part.

## Main results

* `ipv4StringToAddr_iff`, `ipv4StringToAddr_toString` — the texts that are accepted, and the round
  trip
* `ethParseMac_fields`, `ethParseMac_format` — what is stored, and the round trip of the addresses
  that may be those of a device

## Conventions

A text is the list of its bytes without the zero at its end. The two functions that write a text
write it into a buffer of the caller, which is long enough for what they write; they return the text
here. A function that reads one returns what it says and what it has stored, since `eth_parse_mac`
stores one byte after the other and may refuse a later one.

What a number in a text is worth is the matter of `Rexus.Lib.Scanf`: a sign is allowed, and a number
that is too large for its type is the greatest of it. The functions compare with 255 afterwards, so
a negative number passes only if it comes to a byte modulo `2 ^ 32`, and one that is too large never
does.
-/

namespace Rexus

open Loop Numeral Scanf

/-! ### Internet addresses -/

/-- `ipv4_addr_to_string`: `sprintf(str, "%d.%d.%d.%d", ..)`. -/
def ipv4AddrToString (a : Ipv4Addr) : List UInt8 :=
  [46].intercalate (List.ofFn fun i => integer (a.addr i).toNat)

/-- `ipv4_string_to_addr`: `sscanf(str, "%u.%u.%u.%u", ..)`, and the tests of the numbers. -/
def ipv4StringToAddr (s : List UInt8) : Option Ipv4Addr :=
  match sscanf (fields 10 46 3) s with
  | [a, b, c, d] =>
    if a > 255 ∨ b > 255 ∨ c > 255 ∨ d > 255 then none
    else some ⟨![a.toUInt8, b.toUInt8, c.toUInt8, d.toUInt8]⟩
  | _ => none

section Internet

variable {s rest : List UInt8} {a : Ipv4Addr}

theorem toUInt32_toUInt8 {u : UInt32} (h : ¬ u > 255) : u.toUInt8.toUInt32 = u := by
  rw [gt_iff_lt, UInt32.lt_iff_toNat_lt, Nat.not_lt] at h
  have hle : u.toNat ≤ 255 := h
  apply UInt32.toNat_inj.mp
  rw [UInt8.toNat_toUInt32, UInt32.toNat_toUInt8]
  omega

theorem toUInt32_le (c : UInt8) : ¬ c.toUInt32 > 255 := by
  rw [gt_iff_lt, UInt32.lt_iff_toNat_lt, UInt8.toNat_toUInt32, Nat.not_lt]
  have hlt := c.toNat_lt
  show c.toNat ≤ 255
  omega

/-- The numbers of an address. -/
def Ipv4Addr.numbers (a : Ipv4Addr) : List UInt32 := List.ofFn fun i => (a.addr i).toUInt32

theorem numbers_eq : a.numbers =
    [(a.addr 0).toUInt32, (a.addr 1).toUInt32, (a.addr 2).toUInt32, (a.addr 3).toUInt32] := by
  rw [Ipv4Addr.numbers]
  simp [List.ofFn_succ]

theorem sscanf_numbers_iff :
    sscanf (fields 10 46 3) s = a.numbers ↔ Fields 10 46 s a.numbers :=
  sscanf_fields_iff (by decide) (by decide) (List.length_ofFn : a.numbers.length = 3 + 1)

theorem fields_of_ipv4StringToAddr (h : ipv4StringToAddr s = some a) :
    Fields 10 46 s a.numbers := by
  rw [← sscanf_numbers_iff]
  rw [ipv4StringToAddr] at h
  split at h
  · next u v w x heq =>
    split_ifs at h with hbig
    rw [not_or, not_or, not_or] at hbig
    obtain ⟨hu, hv, hw, hx⟩ := hbig
    rw [heq, ← Option.some_inj.mp h]
    simp [numbers_eq, toUInt32_toUInt8 hu, toUInt32_toUInt8 hv, toUInt32_toUInt8 hw,
      toUInt32_toUInt8 hx]
  · cases h

theorem ipv4StringToAddr_of_fields (h : Fields 10 46 s a.numbers) :
    ipv4StringToAddr s = some a := by
  rw [ipv4StringToAddr, sscanf_numbers_iff.mpr h, numbers_eq]
  dsimp only
  rw [if_neg (by simp [toUInt32_le])]
  have haddr : (![a.addr 0, a.addr 1, a.addr 2, a.addr 3] : Fin 4 → UInt8) = a.addr := by
    funext i
    match i with
    | 0 => rfl
    | 1 => rfl
    | 2 => rfl
    | 3 => rfl
  simp [haddr]

/-- The decimal numeral of a byte, as a field. -/
theorem exists_integerText (c : UInt8) : ∃ t : NumberText, t.chars = integer c.toNat ∧ t.Ok 10 ∧
    t.number 10 = c.toUInt32 := by
  have hdecimal : IsDecimal (integer c.toNat) c.toNat := by
    have hinteger := isInteger_integer c.toNat
    rwa [IsInteger, if_neg (Int.not_lt.mpr (Int.natCast_nonneg _)), Int.natAbs_natCast] at hinteger
  obtain ⟨hdigits, hvalue⟩ := isDecimal_value hdecimal
  refine ⟨⟨[], [], [], integer c.toNat⟩, rfl, ok_digits hdecimal.ne_nil hdigits, ?_⟩
  have hlt := c.toNat_lt
  have hnumber : convert false c.toNat = UInt32.ofNat c.toNat := convert_ofNat (by omega)
  rw [NumberText.number, hvalue]
  exact hnumber.trans (UInt32.ofNat_uInt8ToNat c)

/-- **The round trip**: the text of an address is accepted and gives the address, also in front of
another text that does not begin with a digit. -/
theorem ipv4StringToAddr_toString (a : Ipv4Addr)
    (hrest : ∀ c ∈ rest.head?, isDigit 10 c = false) :
    ipv4StringToAddr (ipv4AddrToString a ++ rest) = some a := by
  apply ipv4StringToAddr_of_fields
  rw [numbers_eq]
  obtain ⟨t, ht, htOk, htNumber⟩ := exists_integerText (a.addr 0)
  obtain ⟨u, hu, huOk, huNumber⟩ := exists_integerText (a.addr 1)
  obtain ⟨v, hv, hvOk, hvNumber⟩ := exists_integerText (a.addr 2)
  obtain ⟨w, hw, hwOk, hwNumber⟩ := exists_integerText (a.addr 3)
  refine ⟨t, _, ?_, htOk, htNumber, u, _, rfl, huOk, huNumber, v, _, rfl, hvOk, hvNumber, w, rest,
    rfl, hwOk, ⟨hrest, fun hcon => absurd hcon (by decide)⟩, hwNumber⟩
  rw [ipv4AddrToString, ht, hu, hv, hw]
  simp

theorem ipv4StringToAddr_toString_port :
    ipv4StringToAddr (ipv4AddrToString ⟨![10, 0, 2, 15]⟩ ++ [58, 56, 48]) =
      some ⟨![10, 0, 2, 15]⟩ :=
  ipv4StringToAddr_toString _ fun c hc => by
    rw [← Option.some_inj.mp hc]
    decide

end Internet

/-! ### Hardware addresses -/

/-- `eth_is_valid_mac`: the results of its two loops, and the test of the bit of a group. -/
def ethIsValidMac (mac : Fin 6 → UInt8) : Bool :=
  if ∀ i, mac i = 0 then false
  else if ∀ i, mac i = 0xFF then false
  else if mac 0 &&& 0x01 ≠ 0 then false
  else true

/-- `%02x`, of a byte. -/
def hexPair (c : UInt8) : List UInt8 := [hexText (c.toNat / 16), hexText (c.toNat % 16)]

/-- `eth_format_mac`: `snprintf(str, 18, "%02x:%02x:%02x:%02x:%02x:%02x", ..)`. -/
def ethFormatMac (mac : Fin 6 → UInt8) : List UInt8 :=
  (hexPair (mac 0) ++ 58 :: (hexPair (mac 1) ++ 58 :: (hexPair (mac 2) ++ 58 ::
    (hexPair (mac 3) ++ 58 :: (hexPair (mac 4) ++ 58 :: hexPair (mac 5)))))).take 17

/-- The test of a number, and the byte it is stored in: one turn of the loop of `eth_parse_mac`.
A number that is no byte ends it, with what has been stored. -/
def parseMacTurn (values : List UInt32) (i : ℕ) (mac : Fin 6 → UInt8) :
    Except (Fin 6 → UInt8) (Fin 6 → UInt8) :=
  let v := (values.getD i 0).toInt32
  if v < 0 ∨ v > 255 then .error mac
  else .ok fun j => if j.val = i then (values.getD i 0).toUInt8 else mac j

/-- `eth_parse_mac`: what it returns, and what `mac` is then. -/
def ethParseMac (s : List UInt8) (mac : Fin 6 → UInt8) : Bool × (Fin 6 → UInt8) :=
  let values := sscanf (fields 16 58 5) s
  if values.length ≠ 6 then (false, mac)
  else
    match tryRange (parseMacTurn values) 6 0 mac with
    | .error mac => (false, mac)
    | .ok mac => (ethIsValidMac mac, mac)

section Hardware

variable {s rest : List UInt8} {mac m : Fin 6 → UInt8} {us : List UInt32} {i : ℕ}

/-- A unicast address that is not all zero; the broadcast address has the bit of a group. -/
theorem ethIsValidMac_iff :
    ethIsValidMac mac = true ↔ mac 0 &&& 0x01 = 0 ∧ ∃ i, mac i ≠ 0 := by
  rw [ethIsValidMac]
  split_ifs with hzero hone hgroup
  · simp [hzero]
  · refine iff_of_false not_false fun h => ?_
    have hbit := h.1
    rw [hone 0] at hbit
    exact absurd hbit (by decide)
  · exact iff_of_false not_false fun h => hgroup h.1
  · exact iff_of_true rfl ⟨not_not.mp hgroup, not_forall.mp hzero⟩

/-- The test of a number, which is an `int`. -/
theorem int_not_byte_iff {u : UInt32} : (u.toInt32 < 0 ∨ u.toInt32 > 255) ↔ 255 < u.toNat := by
  have hint : u.toInt32.toInt = if 2 * u.toNat < 2 ^ 32 then (u.toNat : ℤ) else u.toNat - 2 ^ 32 :=
    BitVec.toInt_eq_toNat_cond _
  have hlt := u.toNat_lt
  have hzero : (0 : Int32).toInt = 0 := rfl
  have hbyte : (255 : Int32).toInt = 255 := rfl
  rw [gt_iff_lt, Int32.lt_iff_toInt_lt, Int32.lt_iff_toInt_lt, hint, hzero, hbyte]
  split_ifs <;> omega

/-- The number `i` is a byte. -/
def IsByte (us : List UInt32) (i : ℕ) : Prop := (us.getD i 0).toNat ≤ 255

instance (us : List UInt32) (i : ℕ) : Decidable (IsByte us i) := Nat.decLe _ _

/-- What `mac` is once the numbers of `us` have been stored, up to the first that is no byte. -/
def storedMac (us : List UInt32) (mac : Fin 6 → UInt8) : Fin 6 → UInt8 := fun j =>
  if ∀ i : Fin 6, i ≤ j → IsByte us i then (us.getD j 0).toUInt8 else mac j

/-- The loop stores the numbers up to the first that is no byte. -/
theorem tryRange_parseMacTurn (us : List UInt32) (mac : Fin 6 → UInt8) :
    tryRange (parseMacTurn us) 6 0 mac =
      if ∀ i : Fin 6, IsByte us i then .ok (storedMac us mac) else .error (storedMac us mac) := by
  have hloop := tryRange_inv (parseMacTurn us)
    (fun i m => (∀ k < i, IsByte us k) ∧
      ∀ j : Fin 6, m j = if j.val < i then (us.getD j 0).toUInt8 else mac j)
    (fun m => ∃ i < 6, (∀ k < i, IsByte us k) ∧ ¬ IsByte us i ∧
      ∀ j : Fin 6, m j = if j.val < i then (us.getD j 0).toUInt8 else mac j)
    (n := 6) (a := 0) (s := mac)
    ⟨fun k hk => absurd hk (Nat.not_lt_zero k), fun j => (if_neg (Nat.not_lt_zero _)).symm⟩
    fun i m _ hi ⟨hbytes, hm⟩ => by
      have hi' : i < 6 := by omega
      by_cases hbig : (us.getD i 0).toInt32 < 0 ∨ (us.getD i 0).toInt32 > 255
      · rw [parseMacTurn, if_pos hbig]
        exact ⟨i, hi', hbytes, Nat.not_le.mpr (int_not_byte_iff.mp hbig), hm⟩
      · rw [parseMacTurn, if_neg hbig]
        rw [int_not_byte_iff, Nat.not_lt] at hbig
        refine ⟨fun k hk => ?_, fun j => ?_⟩
        · rcases Nat.lt_succ_iff_lt_or_eq.mp hk with hk | rfl
          · exact hbytes k hk
          · exact hbig
        · dsimp only
          by_cases hj : j.val = i
          · rw [if_pos hj, if_pos (by omega), hj]
          · rw [if_neg hj, hm j]
            exact if_congr (by omega) rfl rfl
  cases hend : tryRange (parseMacTurn us) 6 0 mac with
  | ok m =>
    rw [hend] at hloop
    obtain ⟨hbytes, hm⟩ := hloop
    rw [if_pos fun i : Fin 6 => hbytes i (by omega)]
    refine congrArg _ (funext fun j => ?_)
    rw [hm j, storedMac, if_pos (by omega), if_pos fun (i : Fin 6) _ => hbytes i (by omega)]
  | error m =>
    rw [hend] at hloop
    obtain ⟨i, hi, hbytes, hbig, hm⟩ := hloop
    rw [if_neg fun hall => hbig (hall ⟨i, hi⟩)]
    refine congrArg _ (funext fun j => ?_)
    rw [hm j, storedMac]
    refine if_congr ⟨fun hj k hk => hbytes k (Nat.lt_of_le_of_lt hk hj), fun hall => ?_⟩ rfl rfl
    by_contra hj
    exact hbig (hall ⟨i, hi⟩ (Nat.not_lt.mp hj))

/-- **What is stored**: with six numbers in the text those before the first that is no byte, also
where the address is refused; else nothing. -/
theorem ethParseMac_fields (s : List UInt8) (mac : Fin 6 → UInt8) :
    (∀ us, us.length = 6 → Fields 16 58 s us →
      ethParseMac s mac = (decide (∀ i : Fin 6, IsByte us i) && ethIsValidMac (storedMac us mac),
        storedMac us mac)) ∧
    ((∀ us, us.length = 6 → ¬ Fields 16 58 s us) → ethParseMac s mac = (false, mac)) := by
  have hread : ∀ us, us.length = 6 → (sscanf (fields 16 58 5) s = us ↔ Fields 16 58 s us) :=
    fun us hus => sscanf_fields_iff (by decide) (by decide) hus
  constructor
  · intro us hus hfields
    rw [ethParseMac, (hread us hus).mpr hfields, if_neg (not_not.mpr hus), tryRange_parseMacTurn]
    by_cases hbytes : ∀ i : Fin 6, IsByte us i
    · rw [if_pos hbytes, decide_eq_true hbytes, Bool.true_and]
    · rw [if_neg hbytes, decide_eq_false hbytes, Bool.false_and]
  · intro hno
    rw [ethParseMac]
    exact if_pos fun hlen => hno _ hlen ((hread _ hlen).mp rfl)

/-- The numbers of a hardware address. -/
def macNumbers (m : Fin 6 → UInt8) : List UInt32 :=
  [(m 0).toUInt32, (m 1).toUInt32, (m 2).toUInt32, (m 3).toUInt32, (m 4).toUInt32, (m 5).toUInt32]

theorem getD_macNumbers (m : Fin 6 → UInt8) (i : Fin 6) :
    (macNumbers m).getD i 0 = (m i).toUInt32 := by
  match i with
  | 0 => rfl
  | 1 => rfl
  | 2 => rfl
  | 3 => rfl
  | 4 => rfl
  | 5 => rfl

theorem isByte_macNumbers (m : Fin 6 → UInt8) (i : Fin 6) : IsByte (macNumbers m) i := by
  have hlt := (m i).toNat_lt
  rw [IsByte, getD_macNumbers, UInt8.toNat_toUInt32]
  omega

theorem storedMac_macNumbers (m mac : Fin 6 → UInt8) : storedMac (macNumbers m) mac = m := by
  funext j
  rw [storedMac, if_pos fun i _ => isByte_macNumbers m i, getD_macNumbers]
  simp

/-- Six numbers that are bytes are those of the address that is stored. -/
theorem macNumbers_storedMac (hus : us.length = 6) (hbytes : ∀ i : Fin 6, IsByte us i) :
    macNumbers (storedMac us mac) = us := by
  refine List.ext_getElem (by rw [hus]; rfl) fun i hi hi' => ?_
  have hnumber := getD_macNumbers (storedMac us mac) ⟨i, hi⟩
  have hbyte := hbytes ⟨i, hi⟩
  rw [storedMac, if_pos fun k _ => hbytes k, List.getD_eq_getElem _ _ hi] at hnumber
  rw [hnumber, List.getD_eq_getElem _ _ hi']
  refine toUInt32_toUInt8 ?_
  rw [IsByte, List.getD_eq_getElem _ _ hi'] at hbyte
  rw [gt_iff_lt, UInt32.lt_iff_toNat_lt]
  exact Nat.not_lt.mpr hbyte

/-- **The texts that are accepted**, and what is stored of them. -/
theorem ethParseMac_iff : ethParseMac s mac = (true, m) ↔
    Fields 16 58 s (macNumbers m) ∧ ethIsValidMac m = true := by
  constructor
  · intro h
    by_cases hfields : ∃ us, us.length = 6 ∧ Fields 16 58 s us
    · obtain ⟨us, hus, hfields⟩ := hfields
      rw [(ethParseMac_fields s mac).1 us hus hfields] at h
      obtain ⟨hok, rfl⟩ := Prod.mk.inj h
      rw [Bool.and_eq_true, decide_eq_true_iff] at hok
      rw [macNumbers_storedMac hus hok.1]
      exact ⟨hfields, hok.2⟩
    · rw [(ethParseMac_fields s mac).2 fun us hus hus' => hfields ⟨us, hus, hus'⟩] at h
      exact absurd (Prod.mk.inj h).1 Bool.false_ne_true
  · rintro ⟨hfields, hvalid⟩
    rw [(ethParseMac_fields s mac).1 _ rfl hfields, storedMac_macNumbers, hvalid, Bool.and_true,
      decide_eq_true (isByte_macNumbers m)]

/-- The text of a byte, as a field. -/
theorem exists_hexText (c : UInt8) : ∃ t : NumberText, t.chars = hexPair c ∧ t.Ok 16 ∧
    t.number 16 = c.toUInt32 := by
  have hlt := c.toNat_lt
  obtain ⟨hdigits, hvalue⟩ := hexText_value (d := c.toNat / 16) (e := c.toNat % 16)
    (by omega) (Nat.mod_lt _ (by decide))
  rw [Nat.div_add_mod] at hvalue
  refine ⟨⟨[], [], [], hexPair c⟩, rfl, ok_digits (List.cons_ne_nil _ _) hdigits, ?_⟩
  have hnumber : convert false c.toNat = UInt32.ofNat c.toNat := convert_ofNat (by omega)
  rw [NumberText.number, hexPair, hvalue]
  exact hnumber.trans (UInt32.ofNat_uInt8ToNat c)

theorem fields_format (m : Fin 6 → UInt8) : Fields 16 58 (ethFormatMac m) (macNumbers m) := by
  obtain ⟨t₀, h₀, hok₀, hn₀⟩ := exists_hexText (m 0)
  obtain ⟨t₁, h₁, hok₁, hn₁⟩ := exists_hexText (m 1)
  obtain ⟨t₂, h₂, hok₂, hn₂⟩ := exists_hexText (m 2)
  obtain ⟨t₃, h₃, hok₃, hn₃⟩ := exists_hexText (m 3)
  obtain ⟨t₄, h₄, hok₄, hn₄⟩ := exists_hexText (m 4)
  obtain ⟨t₅, h₅, hok₅, hn₅⟩ := exists_hexText (m 5)
  refine ⟨t₀, _, ?_, hok₀, hn₀, t₁, _, rfl, hok₁, hn₁, t₂, _, rfl, hok₂, hn₂, t₃, _, rfl, hok₃, hn₃,
    t₄, _, rfl, hok₄, hn₄, t₅, [], rfl, hok₅, ⟨?_, ?_⟩, hn₅⟩
  · rw [h₀, h₁, h₂, h₃, h₄, h₅]
    rfl
  · exact fun c hc => absurd hc (by simp)
  · exact fun _ _ _ c hc => absurd hc (by simp)

/-- **The round trip**: the text of a hardware address is read as the address, and accepted if the
address may be that of a device. -/
theorem ethParseMac_format (m mac : Fin 6 → UInt8) :
    ethParseMac (ethFormatMac m) mac = (ethIsValidMac m, m) := by
  rw [(ethParseMac_fields _ mac).1 _ rfl (fields_format m), storedMac_macNumbers,
    decide_eq_true (isByte_macNumbers m), Bool.true_and]

end Hardware

end Rexus
