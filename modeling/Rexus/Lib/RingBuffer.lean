import Mathlib.Data.List.Range
import Mathlib.Data.Nat.ModEq
import Mathlib.Logic.Function.Basic
import Mathlib.Tactic.Common

/-!
# Bounded rings

A ring of `n` slots with a head, where the next item goes, and a tail, where the oldest is. It is
empty when they are the same, so one slot stays free: a ring with `n - 1` items is full. What is
pending is a list, oldest first; to put is to append to it, and to take is to drop its first.

## Main results

* `RingBuffer.put_eq_none_iff`, `RingBuffer.items_put` — an item is refused exactly if `n - 1` are
  pending
* `RingBuffer.items_take`, `RingBuffer.take_eq_none_iff` — the oldest item is taken, if there is
  one
* `RingBuffer.Fifo.put`, `RingBuffer.Fifo.take` — nothing is lost, repeated or reordered

## Conventions

`none` is a ring that is full, for `put`, and one that is empty, for `take`. The two operations are
divided once more, into the test and what is done behind it: `push` and `pop` are what a program
does that has tested in another way, or with something between the test and the write.

The head and the tail are slots of the ring, so they cannot be out of range, and `n` is not zero.
What is in a slot that is not pending is kept and never read. The rules are about one operation at a
time: an interrupt between the test and the write of an operation is not covered.
-/

/-- A ring of `n` slots. It is empty if head and tail are equal, so it never holds more than `n - 1`
items; what is in the other slots is left from before. -/
structure RingBuffer (n : ℕ) (α : Type*) where
  slot : ℕ → α
  head : ℕ
  tail : ℕ
  head_lt : head < n
  tail_lt : tail < n

namespace RingBuffer

variable {n : ℕ} {α : Type*} {r r' : RingBuffer n α} {a : α}

/-- Both ends are at the first slot. -/
def empty (slot : ℕ → α) (h : 0 < n) : RingBuffer n α := ⟨slot, 0, 0, h, h⟩

/-- An item goes into the slot at the head. -/
def push (r : RingBuffer n α) (a : α) : RingBuffer n α where
  slot := Function.update r.slot r.head a
  head := (r.head + 1) % n
  tail := r.tail
  head_lt := Nat.mod_lt _ (Nat.zero_lt_of_lt r.head_lt)
  tail_lt := r.tail_lt

/-- The item at the tail is left behind. -/
def pop (r : RingBuffer n α) : RingBuffer n α where
  slot := r.slot
  head := r.head
  tail := (r.tail + 1) % n
  head_lt := r.head_lt
  tail_lt := Nat.mod_lt _ (Nat.zero_lt_of_lt r.tail_lt)

/-- An item is put into the ring, unless it is full. -/
def put (r : RingBuffer n α) (a : α) : Option (RingBuffer n α) :=
  if (r.head + 1) % n = r.tail then none else some (r.push a)

/-- The oldest item is taken out, unless the ring is empty. -/
def take (r : RingBuffer n α) : Option (α × RingBuffer n α) :=
  if r.head = r.tail then none else some (r.slot r.tail, r.pop)

/-- How many items are pending. -/
def count (r : RingBuffer n α) : ℕ := (r.head + (n - r.tail)) % n

/-- What is pending, oldest first. -/
def items (r : RingBuffer n α) : List α :=
  (List.range r.count).map fun i => r.slot ((r.tail + i) % n)

/-! ### Positions -/

theorem count_lt (r : RingBuffer n α) : r.count < n := Nat.mod_lt _ (Nat.zero_lt_of_lt r.head_lt)

@[simp] theorem length_items (r : RingBuffer n α) : r.items.length = r.count := by simp [items]

/-- The head is as far behind the tail as there are items. -/
theorem tail_add_count (r : RingBuffer n α) : (r.tail + r.count) % n = r.head := by
  have htail := r.tail_lt
  rw [count, Nat.add_mod_mod, show r.tail + (r.head + (n - r.tail)) = r.head + n by omega,
    Nat.add_mod_right, Nat.mod_eq_of_lt r.head_lt]

/-- Positions less than a turn apart are different slots. -/
theorem add_mod_inj {t i j : ℕ} (hi : i < n) (hj : j < n) (h : (t + i) % n = (t + j) % n) :
    i = j := by
  have hmod : i ≡ j [MOD n] := Nat.ModEq.add_left_cancel' t h
  rwa [Nat.ModEq, Nat.mod_eq_of_lt hi, Nat.mod_eq_of_lt hj] at hmod

theorem count_eq {j : ℕ} (hj : j < n) (h : (r.tail + j) % n = r.head) : r.count = j :=
  add_mod_inj r.count_lt hj (r.tail_add_count.trans h.symm)

theorem count_eq_zero_iff : r.count = 0 ↔ r.head = r.tail := by
  have htail := Nat.mod_eq_of_lt r.tail_lt
  constructor
  · intro h
    rw [← r.tail_add_count, h, Nat.add_zero, htail]
  · intro h
    exact count_eq (Nat.zero_lt_of_lt r.tail_lt) (by rw [Nat.add_zero, htail, h])

@[simp] theorem items_empty (slot : ℕ → α) (h : 0 < n) : (empty slot h).items = [] := by
  rw [← List.length_eq_zero_iff, length_items, count_eq_zero_iff]
  rfl

/-! ### Putting -/

/-- The slot behind the head is as far behind the tail as there would be items. -/
theorem head_succ (r : RingBuffer n α) : (r.head + 1) % n = (r.tail + (r.count + 1)) % n := by
  rw [← Nat.add_assoc, ← r.tail_add_count, Nat.mod_add_mod]

/-- **An item is refused exactly if all slots but one are taken.** -/
theorem put_eq_none_iff : r.put a = none ↔ r.count + 1 = n := by
  have hlt := r.count_lt
  have htail := Nat.mod_eq_of_lt r.tail_lt
  have hput : r.put a = none ↔ (r.head + 1) % n = r.tail := by
    rw [put]
    split_ifs with h
    · exact iff_of_true rfl h
    · exact iff_of_false nofun h
  rw [hput, head_succ]
  constructor
  · intro h
    by_contra hne
    have hlast : r.count + 1 < n := by omega
    exact Nat.succ_ne_zero _
      (add_mod_inj hlast (Nat.zero_lt_of_lt hlast) (h.trans (by rw [Nat.add_zero, htail])))
  · intro h
    rw [h, Nat.add_mod_right, htail]

theorem count_push (h : r.count + 1 < n) : (r.push a).count = r.count + 1 :=
  count_eq h r.head_succ.symm

theorem items_push (h : r.count + 1 < n) : (r.push a).items = r.items ++ [a] := by
  rw [items, count_push h, List.range_succ, List.map_append, List.map_singleton, items]
  have hslot : ∀ i, (r.push a).slot ((r.tail + i) % n) =
      if (r.tail + i) % n = r.head then a else r.slot ((r.tail + i) % n) := fun i => by
    rw [← Function.update_apply]
    rfl
  refine congrArg₂ _ (List.map_congr_left fun i hi => ?_) (congrArg ([·]) ?_)
  · have hi := List.mem_range.mp hi
    have hne : (r.tail + i) % n ≠ r.head := fun hhead => by
      have := count_eq (by omega) hhead
      omega
    exact (hslot i).trans (if_neg hne)
  · exact (hslot r.count).trans (if_pos r.tail_add_count)

theorem put_eq_some (h : r.put a = some r') : r.count + 1 < n ∧ r' = r.push a := by
  have hlt := r.count_lt
  have hfull : r.count + 1 ≠ n := fun hfull => nomatch h.symm.trans (put_eq_none_iff.mpr hfull)
  rw [put] at h
  split_ifs at h
  exact ⟨by omega, (Option.some_inj.mp h).symm⟩

/-- What is put is pending last. -/
theorem items_put (h : r.put a = some r') : r'.items = r.items ++ [a] := by
  obtain ⟨hroom, rfl⟩ := put_eq_some h
  exact items_push hroom

/-! ### Taking -/

theorem items_pop (h : r.head ≠ r.tail) : r.items = r.slot r.tail :: r.pop.items := by
  obtain ⟨m, hm⟩ := Nat.exists_eq_succ_of_ne_zero (mt count_eq_zero_iff.mp h)
  have hlt := r.count_lt
  have hnext : ∀ i, (r.tail + 1) % n + i ≡ r.tail + (i + 1) [MOD n] := fun i => by
    rw [Nat.ModEq, Nat.mod_add_mod, Nat.add_assoc, Nat.add_comm 1 i]
  have hpop : r.pop.count = m := by
    have htail := r.tail_add_count
    rw [hm] at htail
    exact count_eq (by omega) (Eq.trans (hnext m) htail)
  rw [items, hm, List.range_succ_eq_map, List.map_cons, List.map_map, Nat.add_zero,
    Nat.mod_eq_of_lt r.tail_lt, items, hpop]
  refine congrArg _ (List.map_congr_left fun i _ => ?_)
  exact congrArg r.slot (hnext i).symm

/-- What is taken was pending first. -/
theorem items_take (h : r.take = some (a, r')) : r.items = a :: r'.items := by
  rw [take] at h
  split_ifs at h with hne
  obtain ⟨rfl, rfl⟩ := Prod.mk.inj (Option.some_inj.mp h)
  exact items_pop hne

/-- Nothing is taken exactly if nothing is pending. -/
theorem take_eq_none_iff : r.take = none ↔ r.items = [] := by
  have htake : r.take = none ↔ r.head = r.tail := by
    rw [take]
    split_ifs with h
    · exact iff_of_true rfl h
    · exact iff_of_false nofun h
  rw [htake, ← count_eq_zero_iff, ← length_items, List.length_eq_zero_iff]

/-! ### Histories -/

/-- What has been accepted is what has been consumed, and then what is pending. -/
def Fifo (r : RingBuffer n α) (accepted consumed : List α) : Prop := consumed ++ r.items = accepted

variable {accepted consumed : List α}

theorem Fifo.put (h : r.Fifo accepted consumed) (hput : r.put a = some r') :
    r'.Fifo (accepted ++ [a]) consumed := by
  rw [Fifo, items_put hput, ← List.append_assoc, h]

theorem Fifo.take (h : r.Fifo accepted consumed) (htake : r.take = some (a, r')) :
    r'.Fifo accepted (consumed ++ [a]) := by
  rw [Fifo, List.append_assoc, List.singleton_append, ← items_take htake, h]

end RingBuffer
