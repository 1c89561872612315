import Mathlib.Data.List.Basic
import Mathlib.Tactic.Common

/-!
# Sequences of options

An area of options as protocol headers have it: a byte `0` ends it, a byte `1` is padding, and any
other byte is the kind of a record, with a second byte that gives its length, the two included, and
its data. An area is well formed if such items exhaust it, or are followed by the byte that ends it.

Every area is a sequence of items with a tail that is no item, and the tail says whether it is well
formed or not; so a parser is known from what it does on items, one after the other, and on tails.

## Main results

* `Options.area_cases` — how an area starts
* `Options.exists_split`, `Options.split_unique` — the items of an area, and its tail
* `Options.Ends.not_malformed`

## Conventions

A record has at most `253` bytes of data, as its length is one byte and takes in the two in front.
What the kinds mean is not said, and two records of one kind are two items. The tail of an area that
ends with the byte `0` is that byte and all that is behind it, whatever it holds.

`Held` is for a parser that reads from a memory with an end: the bytes of the area are there, and of
other bytes nothing is known. An area whose last byte is the kind of a record, without a length, is
malformed, and a parser that reads the length before it looks at the end reads behind the area.
-/

namespace Options

/-- A kind, which is neither the end nor padding, and data that a length byte has room for. -/
@[ext] structure Record where
  kind : UInt8
  data : List UInt8
  two_le_kind : 2 ≤ kind.toNat
  length_lt : data.length + 2 < 256

/-- Padding, or a record. -/
inductive Item where
  | pad
  | record (r : Record)

/-- The bytes of an item. -/
def Item.encode : Item → List UInt8
  | pad => [1]
  | record r => r.kind :: UInt8.ofNat (r.data.length + 2) :: r.data

/-- The bytes of a sequence of items. -/
def encode (items : List Item) : List UInt8 := items.flatMap Item.encode

/-- The end of a well-formed area. -/
def Ends (tail : List UInt8) : Prop := tail = [] ∨ tail.head? = some 0

/-- What is neither an end nor starts with an item: a kind alone, or with a length that is too small
or goes beyond the area. -/
def Malformed : List UInt8 → Prop
  | [] => False
  | [kind] => 2 ≤ kind.toNat
  | kind :: length :: data =>
    2 ≤ kind.toNat ∧ (length.toNat < 2 ∨ data.length + 2 < length.toNat)

/-- The data of a record of this kind with so many bytes of data. -/
def Item.dataOf (kind : UInt8) (n : ℕ) : Item → Option (List UInt8)
  | pad => none
  | record r => if r.kind = kind ∧ r.data.length = n then some r.data else none

/-- The bytes from `i` on, in a memory in which not every byte is there. -/
def Held (mem : ℕ → Option UInt8) (i : ℕ) (area : List UInt8) : Prop :=
  ∀ k < area.length, mem (i + k) = area[k]?

variable {area area' tail : List UInt8} {item : Item} {items : List Item}
  {mem : ℕ → Option UInt8} {i : ℕ}

@[simp] theorem encode_nil : encode [] = [] := rfl

@[simp] theorem encode_cons : encode (item :: items) = item.encode ++ encode items :=
  List.flatMap_cons

@[simp] theorem encode_append (items items' : List Item) :
    encode (items ++ items') = encode items ++ encode items' := List.flatMap_append

theorem encode_replicate_pad (n : ℕ) :
    encode (List.replicate n .pad) = List.replicate n 1 := by
  induction n with
  | zero => rfl
  | succ n ih => rw [List.replicate_succ, List.replicate_succ, encode_cons, ih]; rfl

theorem Item.length_encode_pos (item : Item) : 0 < item.encode.length := by
  cases item with
  | pad => exact Nat.one_pos
  | record r => exact Nat.succ_pos _

/-- A kind is neither the end nor padding. -/
theorem ne_of_two_le {kind : UInt8} (h : 2 ≤ kind.toNat) : kind ≠ 0 ∧ kind ≠ 1 := by
  refine ⟨?_, ?_⟩ <;> rintro rfl <;> exact absurd h (by decide)

/-- The length byte of a record. -/
theorem Record.length_toNat (r : Record) :
    (UInt8.ofNat (r.data.length + 2)).toNat = r.data.length + 2 := by
  rw [UInt8.toNat_ofNat', Nat.mod_eq_of_lt r.length_lt]

/-! ### Areas in memory -/

theorem Held.left (h : Held mem i (area ++ area')) : Held mem i area := fun k hk => by
  rw [h k (by rw [List.length_append]; omega), List.getElem?_append_left hk]

theorem Held.right (h : Held mem i (area ++ area')) : Held mem (i + area.length) area' :=
  fun k hk => by
    rw [Nat.add_assoc, h (area.length + k) (by rw [List.length_append]; omega),
      List.getElem?_append_right (Nat.le_add_right _ _), Nat.add_sub_cancel_left]

theorem Held.head {a : UInt8} (h : Held mem i (a :: area)) : mem i = some a :=
  h 0 (Nat.succ_pos _)

theorem Held.of_cons {a : UInt8} (h : Held mem i (a :: area)) : Held mem (i + 1) area := by
  have h' : Held mem i ([a] ++ area) := h
  exact h'.right

/-! ### Splitting an area -/

theorem Ends.not_malformed (h : Ends tail) : ¬ Malformed tail := by
  rcases h with rfl | h
  · exact id
  · match tail, h with
    | [kind], h =>
      obtain rfl := Option.some_inj.mp h
      exact Nat.not_le.mpr (by decide : (0 : ℕ) < 2)
    | kind :: length :: data, h =>
      obtain rfl := Option.some_inj.mp h
      exact fun hmalformed => Nat.not_le.mpr (by decide : (0 : ℕ) < 2) hmalformed.1

/-- **How an area starts**: it is an end, it is malformed, or there is an item. -/
theorem area_cases (area : List UInt8) : Ends area ∨ Malformed area ∨
    ∃ (item : Item) (rest : List UInt8), area = item.encode ++ rest := by
  match area with
  | [] => exact Or.inl (Or.inl rfl)
  | kind :: rest =>
    rcases Nat.lt_or_ge kind.toNat 2 with hlt | hkind
    · rcases Nat.lt_succ_iff_lt_or_eq.mp hlt with hlt | hone
      · obtain rfl : kind = 0 := UInt8.toNat_inj.mp (Nat.lt_one_iff.mp hlt)
        exact Or.inl (Or.inr rfl)
      · obtain rfl : kind = 1 := UInt8.toNat_inj.mp hone
        exact Or.inr (Or.inr ⟨.pad, rest, rfl⟩)
    · refine Or.inr ?_
      match rest with
      | [] => exact Or.inl hkind
      | length :: data =>
        by_cases hlength : length.toNat < 2 ∨ data.length + 2 < length.toNat
        · exact Or.inl ⟨hkind, hlength⟩
        · -- the record is what the length byte says
          have hlt := length.toNat_lt
          have htake : (data.take (length.toNat - 2)).length + 2 = length.toNat := by
            rw [List.length_take]
            omega
          have hbyte : UInt8.ofNat ((data.take (length.toNat - 2)).length + 2) = length := by
            rw [htake, UInt8.ofNat_toNat]
          refine Or.inr ⟨.record ⟨kind, data.take (length.toNat - 2), hkind, by omega⟩,
            data.drop (length.toNat - 2), ?_⟩
          dsimp only [Item.encode]
          rw [hbyte, List.cons_append, List.cons_append, List.take_append_drop]

/-- **Every area is a sequence of items**, with an end or something malformed behind them. -/
theorem exists_split (area : List UInt8) :
    ∃ items tail, area = encode items ++ tail ∧ (Ends tail ∨ Malformed tail) := by
  induction hn : area.length using Nat.strongRecOn generalizing area with
  | ind n ih =>
    rcases area_cases area with hends | hmalformed | ⟨item, rest, rfl⟩
    · exact ⟨[], area, rfl, Or.inl hends⟩
    · exact ⟨[], area, rfl, Or.inr hmalformed⟩
    · have hpos := item.length_encode_pos
      rw [List.length_append] at hn
      obtain ⟨items, tail, rfl, htail⟩ := ih rest.length (by omega) rest rfl
      exact ⟨item :: items, tail, by rw [encode_cons, List.append_assoc], htail⟩

/-- An item is known from an area that starts with it. -/
theorem Item.encode_append_inj {item item' : Item} {rest rest' : List UInt8}
    (h : item.encode ++ rest = item'.encode ++ rest') : item = item' ∧ rest = rest' := by
  cases item with
  | pad =>
    cases item' with
    | pad => exact ⟨rfl, (List.cons.inj h).2⟩
    | record r => exact absurd (List.cons.inj h).1.symm (ne_of_two_le r.two_le_kind).2
  | record r =>
    cases item' with
    | pad => exact absurd (List.cons.inj h).1 (ne_of_two_le r.two_le_kind).2
    | record r' =>
      obtain ⟨hkind, h⟩ := List.cons.inj h
      obtain ⟨hlength, h⟩ := List.cons.inj h
      have hlength : r.data.length = r'.data.length := by
        rw [← UInt8.toNat_inj, r.length_toNat, r'.length_toNat] at hlength
        omega
      obtain ⟨hdata, hrest⟩ := List.append_inj h hlength
      exact ⟨congrArg _ (Record.ext hkind hdata), hrest⟩

/-- An area that starts with an item is neither an end nor malformed. -/
theorem Item.not_last (item : Item) (rest : List UInt8) :
    ¬ (Ends (item.encode ++ rest) ∨ Malformed (item.encode ++ rest)) := by
  cases item with
  | pad =>
    rintro ((h | h) | h)
    · exact List.cons_ne_nil _ _ h
    · exact absurd (Option.some_inj.mp h) (by decide)
    · match rest, h with
      | [], h => exact absurd h (by decide : ¬ 2 ≤ (1 : UInt8).toNat)
      | _ :: _, h => exact absurd h.1 (by decide : ¬ 2 ≤ (1 : UInt8).toNat)
  | record r =>
    rintro ((h | h) | ⟨-, h⟩)
    · exact List.cons_ne_nil _ _ h
    · exact (ne_of_two_le r.two_le_kind).1 (Option.some_inj.mp h)
    · rw [r.length_toNat, List.append_eq, List.length_append] at h
      omega

/-- There is one way to split an area. -/
theorem split_unique {items' : List Item} {tail' : List UInt8}
    (htail : Ends tail ∨ Malformed tail) (htail' : Ends tail' ∨ Malformed tail')
    (h : encode items ++ tail = encode items' ++ tail') : items = items' ∧ tail = tail' := by
  induction items generalizing items' with
  | nil =>
    cases items' with
    | nil => exact ⟨rfl, h⟩
    | cons item' items' =>
      rw [encode_nil, List.nil_append, encode_cons, List.append_assoc] at h
      exact absurd (h ▸ htail) (item'.not_last _)
  | cons item items ih =>
    rw [encode_cons, List.append_assoc] at h
    cases items' with
    | nil =>
      rw [encode_nil, List.nil_append] at h
      exact absurd (h ▸ htail') (item.not_last _)
    | cons item' items' =>
      rw [encode_cons, List.append_assoc] at h
      obtain ⟨rfl, hrest⟩ := Item.encode_append_inj h
      obtain ⟨rfl, rfl⟩ := ih hrest
      exact ⟨rfl, rfl⟩

end Options
