import Mathlib.Data.List.Basic
import Mathlib.Data.Nat.Init
import Mathlib.Tactic.Common

/-!
# Cyclic redundancy checks

The remainder of a message by a polynomial over two elements, with the bits reflected: the
register is shifted down by one for each bit of the message, lowest bit of a byte first, and the
polynomial is added when what falls out and the bit differ. A shift is linear, so eight of them are
one word of a table of 256 and the register shifted down by eight.

A program may have a table that is wrong. If every byte of a message finds the right word, the
register is right; and it is right after every prefix of the message exactly then. A register that
has become wrong may come right again: `debt` is what it differs by, which moves down with the
register while every lookup that finds a wrong word adds to it, and what is added may cancel what is
left. It takes time to do so. If the polynomial has its highest bit, a word of the table is told by
its highest byte, and while that byte moves down through the register no other word can cancel it.
So a wrong word cannot be made good within the bytes of one register, the last four bytes of a
message where the register has 32 bits.

## Main results

* `Crc.register_cons` — a byte at a time
* `Crc.lookups_eq` — a register computed with any table, and its debt
* `Crc.lookups_prefixes_iff` — when a table gives the right register throughout
* `Crc.lookups_append_iff` — when it does so at the end, if all but the last bytes find their words

## Scope

The bits are reflected: a register with its highest bit first, which moves up, is not covered. The
register before the message is any, and what a format adds to the register behind it is left to the
user.
-/

namespace Crc

variable {w : ℕ} (poly : BitVec w)

/-! ### Bit by bit -/

/-- One bit of the message. -/
def bitStep (c : BitVec w) (x : Bool) : BitVec w :=
  if c.getLsbD 0 ^^ x then c >>> 1 ^^^ poly else c >>> 1

/-- The bits of a byte, the lowest first. -/
def byteBits (b : BitVec 8) : List Bool := (List.range 8).map b.getLsbD

/-- The register after a message. -/
def register (c : BitVec w) (data : List (BitVec 8)) : BitVec w :=
  (data.flatMap byteBits).foldl (bitStep poly) c

/-! ### Shifts -/

/-- A shift with no bit of a message. -/
def shift (c : BitVec w) : BitVec w := if c.getLsbD 0 then c >>> 1 ^^^ poly else c >>> 1

/-- `n` shifts. -/
def shifts : ℕ → BitVec w → BitVec w
  | 0, c => c
  | n + 1, c => shifts n (shift poly c)

theorem shift_xor (a b : BitVec w) : shift poly (a ^^^ b) = shift poly a ^^^ shift poly b := by
  simp only [shift, BitVec.getLsbD_xor, BitVec.ushiftRight_xor_distrib]
  cases a.getLsbD 0 <;> cases b.getLsbD 0 <;>
    refine BitVec.eq_of_getLsbD_eq fun i _ => ?_ <;>
    simp [Bool.xor_comm, Bool.xor_left_comm]

theorem shifts_xor (n : ℕ) (a b : BitVec w) :
    shifts poly n (a ^^^ b) = shifts poly n a ^^^ shifts poly n b := by
  induction n generalizing a b with
  | zero => rfl
  | succ n ih => rw [shifts, shift_xor, ih, shifts, shifts]

/-- A register with nothing in its low bits only moves down. -/
theorem shifts_of_low_zero {n : ℕ} {c : BitVec w} (h : ∀ i < n, c.getLsbD i = false) :
    shifts poly n c = c >>> n := by
  induction n generalizing c with
  | zero => rfl
  | succ n ih =>
    have hshift : shift poly c = c >>> 1 := by
      rw [shift, h 0 (Nat.succ_pos n), if_neg Bool.false_ne_true]
    rw [shifts, hshift, ih fun i hi => ?_, ← BitVec.shiftRight_add, Nat.add_comm]
    rw [BitVec.getLsbD_ushiftRight]
    exact h (1 + i) (by omega)

/-- The bits of a message may as well be added to the register first. -/
theorem shift_xor_eq (c b : BitVec w) :
    shift poly (c ^^^ b) = bitStep poly c (b.getLsbD 0) ^^^ b >>> 1 := by
  rw [shift, bitStep, BitVec.getLsbD_xor, BitVec.ushiftRight_xor_distrib]
  cases c.getLsbD 0 ^^ b.getLsbD 0
  · rfl
  · rw [if_pos rfl, if_pos rfl, BitVec.xor_assoc, BitVec.xor_comm (b >>> 1), BitVec.xor_assoc]

theorem foldl_bitStep {n : ℕ} (c : BitVec w) {b : BitVec w} (h : ∀ i ≥ n, b.getLsbD i = false) :
    ((List.range n).map b.getLsbD).foldl (bitStep poly) c = shifts poly n (c ^^^ b) := by
  induction n generalizing c b with
  | zero =>
    have hb : b = 0#w := BitVec.eq_of_getLsbD_eq fun i _ => by simpa using h i (Nat.zero_le i)
    rw [hb, BitVec.xor_zero]
    rfl
  | succ n ih =>
    have hbits : (List.range (n + 1)).map b.getLsbD =
        b.getLsbD 0 :: (List.range n).map (b >>> 1).getLsbD := by
      rw [List.range_succ_eq_map, List.map_cons, List.map_map]
      refine congrArg _ (List.map_congr_left fun i _ => ?_)
      rw [BitVec.getLsbD_ushiftRight, Nat.add_comm]
      rfl
    rw [hbits, List.foldl_cons, ih _ fun i hi => ?_, shifts, shift_xor_eq]
    rw [BitVec.getLsbD_ushiftRight]
    exact h (1 + i) (by omega)

/-! ### A byte at a time -/

/-- The word of the table for a byte. -/
def table (i : BitVec 8) : BitVec w := shifts poly 8 (i.setWidth w)

/-- Where a byte is looked up. -/
def index (c : BitVec w) (b : BitVec 8) : BitVec 8 := c.setWidth 8 ^^^ b

/-- A byte of the message, with any table. -/
def lookup (t : BitVec 8 → BitVec w) (c : BitVec w) (b : BitVec 8) : BitVec w :=
  c >>> 8 ^^^ t (index c b)

/-- The register a program computes with its table. -/
def lookups (t : BitVec 8 → BitVec w) (c : BitVec w) (data : List (BitVec 8)) : BitVec w :=
  data.foldl (lookup t) c

section

variable (hw : 8 ≤ w)
include hw

theorem shifts_eight (x : BitVec w) :
    shifts poly 8 x = x >>> 8 ^^^ table poly (x.setWidth 8) := by
  -- `x` is its high part and its low byte
  have hsplit : x = (x ^^^ (x.setWidth 8).setWidth w) ^^^ (x.setWidth 8).setWidth w := by
    rw [BitVec.xor_assoc, BitVec.xor_self, BitVec.xor_zero]
  have hlow : ∀ i < 8, (x ^^^ (x.setWidth 8).setWidth w).getLsbD i = false := by
    intro i hi
    simp [hi, Nat.lt_of_lt_of_le hi hw]
  have hhigh : (x ^^^ (x.setWidth 8).setWidth w) >>> 8 = x >>> 8 := by
    refine BitVec.eq_of_getLsbD_eq fun i _ => ?_
    simp
  conv_lhs => rw [hsplit]
  rw [shifts_xor, shifts_of_low_zero poly hlow, hhigh, table]

theorem foldl_byteBits (c : BitVec w) (b : BitVec 8) :
    (byteBits b).foldl (bitStep poly) c = lookup (table poly) c b := by
  have hbits : byteBits b = (List.range 8).map (b.setWidth w).getLsbD := by
    refine List.map_congr_left fun i hi => ?_
    have hi8 : i < 8 := List.mem_range.mp hi
    rw [BitVec.getLsbD_setWidth, decide_eq_true (Nat.lt_of_lt_of_le hi8 hw), Bool.true_and]
  have hzero : ∀ i ≥ 8, (b.setWidth w).getLsbD i = false := by
    intro i hi
    rw [BitVec.getLsbD_setWidth, BitVec.getLsbD_of_ge b i hi, Bool.and_false]
  have hshift : b.setWidth w >>> 8 = 0#w := by
    refine BitVec.eq_of_getLsbD_eq fun i _ => ?_
    rw [BitVec.getLsbD_ushiftRight, hzero _ (Nat.le_add_right 8 i), BitVec.getLsbD_zero]
  have hindex : (c ^^^ b.setWidth w).setWidth 8 = index c b := by
    rw [index, BitVec.setWidth_xor, BitVec.setWidth_setWidth_of_le _ hw, BitVec.setWidth_eq]
  rw [hbits, foldl_bitStep poly c hzero, shifts_eight poly hw, hindex, lookup,
    BitVec.ushiftRight_xor_distrib, hshift, BitVec.xor_zero]

theorem register_cons (c : BitVec w) (b : BitVec 8) (data : List (BitVec 8)) :
    register poly c (b :: data) = register poly (lookup (table poly) c b) data := by
  rw [register, List.flatMap_cons, List.foldl_append, foldl_byteBits poly hw]
  rfl

/-- **With its own table** a program computes the register. -/
theorem register_eq (c : BitVec w) (data : List (BitVec 8)) :
    register poly c data = lookups (table poly) c data := by
  induction data generalizing c with
  | nil => rfl
  | cons b data ih => rw [register_cons poly hw, ih, lookups, lookups, List.foldl_cons]

end

/-! ### Any table -/

variable (t : BitVec 8 → BitVec w)

/-- What the register of a program with the table `t` differs by after a message, when it differs
by `e` from the register `c` before it. -/
def debt : BitVec w → BitVec w → List (BitVec 8) → BitVec w
  | _, e, [] => e
  | c, e, b :: data =>
    debt (lookup (table poly) c b)
      (e >>> 8 ^^^ (t (index c b ^^^ e.setWidth 8) ^^^ table poly (index c b))) data

/-- Every byte finds the right word, with the right register before it. -/
def Finds : BitVec w → List (BitVec 8) → Prop
  | _, [] => True
  | c, b :: data => t (index c b) = table poly (index c b) ∧ Finds (lookup (table poly) c b) data

theorem lookups_eq (c e : BitVec w) (data : List (BitVec 8)) :
    lookups t (c ^^^ e) data = lookups (table poly) c data ^^^ debt poly t c e data := by
  induction data generalizing c e with
  | nil => rfl
  | cons b data ih =>
    have hindex : index (c ^^^ e) b = index c b ^^^ e.setWidth 8 := by
      rw [index, index, BitVec.setWidth_xor, BitVec.xor_assoc, BitVec.xor_comm (e.setWidth 8),
        BitVec.xor_assoc]
    have hlookup : lookup t (c ^^^ e) b = lookup (table poly) c b ^^^
        (e >>> 8 ^^^ (t (index c b ^^^ e.setWidth 8) ^^^ table poly (index c b))) := by
      rw [lookup, hindex, lookup, BitVec.ushiftRight_xor_distrib]
      refine BitVec.eq_of_getLsbD_eq fun i _ => ?_
      simp [Bool.xor_comm, Bool.xor_left_comm]
    rw [lookups, List.foldl_cons, hlookup, ← lookups, ih, debt]
    rfl

/-- A message comes out right exactly if nothing is left of its debt. -/
theorem lookups_iff (c : BitVec w) (data : List (BitVec 8)) :
    lookups t c data = lookups (table poly) c data ↔ debt poly t c 0#w data = 0#w := by
  have h := lookups_eq poly t c 0#w data
  rw [BitVec.xor_zero] at h
  rw [h]
  constructor
  · intro heq
    exact (BitVec.xor_right_inj _).mp (heq.trans BitVec.xor_zero.symm)
  · intro hzero
    rw [hzero, BitVec.xor_zero]

/-- **Every prefix of a message** comes out right exactly if every byte finds the right word. -/
theorem lookups_prefixes_iff (c : BitVec w) (data : List (BitVec 8)) :
    (∀ k, lookups t c (data.take k) = lookups (table poly) c (data.take k)) ↔
      Finds poly t c data := by
  induction data generalizing c with
  | nil => exact iff_of_true (fun k => by rw [List.take_nil]; rfl) trivial
  | cons b data ih =>
    have hcons : t (index c b) = table poly (index c b) → ∀ k,
        (lookups t c ((b :: data).take (k + 1)) =
            lookups (table poly) c ((b :: data).take (k + 1)) ↔
          lookups t (lookup (table poly) c b) (data.take k) =
            lookups (table poly) (lookup (table poly) c b) (data.take k)) := by
      intro hfirst k
      rw [List.take_succ_cons, lookups, lookups, List.foldl_cons, List.foldl_cons,
        show lookup t c b = lookup (table poly) c b from congrArg _ hfirst]
      rfl
    rw [Finds, ← ih]
    constructor
    · intro h
      have hfirst : t (index c b) = table poly (index c b) :=
        (BitVec.xor_right_inj (c >>> 8)).mp (h 1)
      exact ⟨hfirst, fun k => (hcons hfirst k).mp (h (k + 1))⟩
    · rintro ⟨hfirst, h⟩ k
      cases k with
      | zero => rfl
      | succ k => exact (hcons hfirst k).mpr (h k)

theorem finds_iff (c : BitVec w) (data : List (BitVec 8)) :
    Finds poly t c data ↔ ∀ k (hk : k < data.length),
      t (index (lookups (table poly) c (data.take k)) data[k]) =
        table poly (index (lookups (table poly) c (data.take k)) data[k]) := by
  induction data generalizing c with
  | nil => exact iff_of_true trivial fun k hk => absurd hk (Nat.not_lt_zero k)
  | cons b data ih =>
    rw [Finds, ih]
    constructor
    · rintro ⟨hfirst, h⟩ k hk
      cases k with
      | zero => exact hfirst
      | succ k => exact h k (Nat.lt_of_succ_lt_succ hk)
    · intro h
      exact ⟨h 0 (Nat.succ_pos _), fun k hk => h (k + 1) (Nat.succ_lt_succ hk)⟩

/-! ### A polynomial with its highest bit -/

theorem shifts_succ (n : ℕ) (c : BitVec w) :
    shifts poly (n + 1) c = shift poly (shifts poly n c) := by
  induction n generalizing c with
  | zero => rfl
  | succ n ih => rw [shifts, ih, shifts]

theorem table_xor (i j : BitVec 8) : table poly (i ^^^ j) = table poly i ^^^ table poly j := by
  rw [table, BitVec.setWidth_xor, shifts_xor, table, table]

section

variable {poly} (hpoly : poly.getLsbD (w - 1) = true)
include hpoly

/-- The bits that fall out of a register come in at its top: where there is nothing, nothing has
fallen out. -/
theorem low_zero_of_shifts {n : ℕ} (hn : n ≤ w) {c : BitVec w}
    (h : ∀ i, w - n ≤ i → i < w → (shifts poly n c).getLsbD i = false) :
    ∀ i < n, c.getLsbD i = false := by
  induction n with
  | zero => exact fun i hi => absurd hi (Nat.not_lt_zero i)
  | succ n ih =>
    rw [shifts_succ] at h
    generalize hd : shifts poly n c = d at h ih
    have hlow : d.getLsbD 0 = false := by
      by_contra hd0
      rw [Bool.not_eq_false] at hd0
      have hbit := h (w - 1) (by omega) (by omega)
      have hout : (d >>> 1).getLsbD (w - 1) = false := by
        rw [BitVec.getLsbD_ushiftRight]
        exact BitVec.getLsbD_of_ge d _ (by omega)
      rw [shift, if_pos hd0, BitVec.getLsbD_xor, hout, hpoly] at hbit
      cases hbit
    have hdown : ∀ i, (shift poly d).getLsbD i = d.getLsbD (1 + i) := fun i => by
      rw [shift, if_neg (Bool.eq_false_iff.mp hlow), BitVec.getLsbD_ushiftRight]
    have hc := ih (Nat.le_of_succ_le hn) fun i hi hiw => by
      have hbit := h (i - 1) (by omega) (by omega)
      rwa [hdown, show 1 + (i - 1) = i by omega] at hbit
    have hnext : c.getLsbD n = false := by
      rw [← hd, shifts_of_low_zero poly hc, BitVec.getLsbD_ushiftRight, Nat.add_zero] at hlow
      exact hlow
    intro i hi
    rcases Nat.lt_succ_iff_lt_or_eq.mp hi with hlt | rfl
    · exact hc i hlt
    · exact hnext

/-- A word of the table is told by its highest byte. -/
theorem eq_zero_of_table_top (hw : 8 ≤ w) {x : BitVec 8}
    (h : ∀ i, w - 8 ≤ i → i < w → (table poly x).getLsbD i = false) : x = 0#8 := by
  have hlow := low_zero_of_shifts hpoly hw h
  refine BitVec.eq_of_getLsbD_eq fun i hi => ?_
  have hbit := hlow i hi
  rw [BitVec.getLsbD_setWidth, decide_eq_true (Nat.lt_of_lt_of_le hi hw), Bool.true_and] at hbit
  rw [hbit, BitVec.getLsbD_zero]

/-- Only the first word of the table is zero. -/
theorem table_eq_zero_iff (hw : 8 ≤ w) (i : BitVec 8) : table poly i = 0#w ↔ i = 0#8 := by
  constructor
  · intro h
    exact eq_zero_of_table_top hpoly hw fun k _ _ => by rw [h, BitVec.getLsbD_zero]
  · rintro rfl
    have hself := table_xor poly 0#8 0#8
    rwa [BitVec.xor_self, BitVec.xor_self] at hself

variable {t} (ht : ∀ j, ∃ i, t j = table poly i)
include ht

/-- While what is left after a byte fits into `n` bytes, the byte has found the right word. -/
theorem word_eq_of_left {n : ℕ} (hn : 8 * (n + 1) ≤ w) {e : BitVec w} {j k : BitVec 8}
    (h : ∀ i ≥ 8 * n, (e >>> 8 ^^^ (t j ^^^ table poly k)).getLsbD i = false) :
    t j = table poly k := by
  obtain ⟨i, hi⟩ := ht j
  rw [hi, ← table_xor] at h
  have hzero : i ^^^ k = 0#8 := by
    refine eq_zero_of_table_top hpoly (by omega) fun m hm hmw => ?_
    have hbit := h m (by omega)
    rwa [BitVec.getLsbD_xor, BitVec.getLsbD_ushiftRight, BitVec.getLsbD_of_ge e _ (by omega),
      Bool.false_xor] at hbit
  rw [hi, BitVec.xor_eq_zero_iff.mp hzero]

/-- A debt that is paid by the end fits into the bytes that are left. -/
theorem low_of_debt {c e : BitVec w} {data : List (BitVec 8)} (hlen : 8 * data.length ≤ w)
    (h : debt poly t c e data = 0#w) : ∀ i ≥ 8 * data.length, e.getLsbD i = false := by
  induction data generalizing c e with
  | nil =>
    intro i _
    rw [show e = 0#w from h, BitVec.getLsbD_zero]
  | cons b data ih =>
    rw [List.length_cons] at hlen ⊢
    have hleft := ih (by omega) h
    have hword := word_eq_of_left hpoly ht hlen hleft
    intro i hi
    have hbit := hleft (i - 8) (by omega)
    rwa [hword, BitVec.xor_self, BitVec.xor_zero, BitVec.getLsbD_ushiftRight,
      show 8 + (i - 8) = i by omega] at hbit

theorem finds_of_debt {c : BitVec w} {data : List (BitVec 8)} (hlen : 8 * data.length ≤ w)
    (h : debt poly t c 0#w data = 0#w) : Finds poly t c data := by
  induction data generalizing c with
  | nil => trivial
  | cons b data ih =>
    rw [List.length_cons] at hlen
    have hword := word_eq_of_left hpoly ht hlen (low_of_debt hpoly ht (by omega) h)
    rw [debt, hword, BitVec.xor_self, BitVec.xor_zero, BitVec.zero_ushiftRight] at h
    rw [BitVec.setWidth_zero, BitVec.xor_zero] at hword
    exact ⟨hword, ih (by omega) h⟩

/-- **If all bytes but the last of a register** find the right word, the register comes out right
exactly if these do so too. -/
theorem lookups_append_iff {c : BitVec w} {data rest : List (BitVec 8)}
    (hdata : Finds poly t c data) (hlen : 8 * rest.length ≤ w) :
    lookups t c (data ++ rest) = lookups (table poly) c (data ++ rest) ↔
      Finds poly t c (data ++ rest) := by
  induction data generalizing c with
  | nil =>
    refine ⟨fun h => finds_of_debt hpoly ht hlen ((lookups_iff ..).mp h), fun h => ?_⟩
    have hall := (lookups_prefixes_iff poly t c rest).mpr h rest.length
    rwa [List.take_length] at hall
  | cons b data ih =>
    obtain ⟨hfirst, hdata⟩ := hdata
    rw [List.cons_append, lookups, lookups, List.foldl_cons, List.foldl_cons,
      show lookup t c b = lookup (table poly) c b from congrArg _ hfirst]
    exact (ih hdata).trans (and_iff_right hfirst).symm

end

end Crc
