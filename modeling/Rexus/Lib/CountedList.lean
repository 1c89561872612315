import Mathlib.Algebra.Group.Nat.Defs
import Mathlib.Tactic.Common
import Rexus.Lib.Linked

/-!
# Lists with a counter

A linked list of objects that ends in a null pointer, with a 32-bit counter of its length and a
limit that the code checks. New objects go to the head; an object is taken out through the place
that points to it.

## Main results

* `Linked.CountedList.push`, `Linked.CountedList.remove`
* `Linked.CountedList.iterate_place` — the loop that looks for the place of an object

## Conventions

The list is the one in memory, as in `Lib/Linked.lean`: a head and a map of `next` pointers, in
which the objects are met in order and none twice. The counter is a word of 32 bits and is compared
with the length as a number; that it does not wrap follows from the limit, which is below `2 ^ 32`
and which no list exceeds.

Nothing is said of where the memory of an object comes from, nor of what else it holds. A program
that takes an object out and frees it does two things, of which this is the first.

A list that is empty has a counter of zero, and its head is the null pointer.
-/

namespace Linked

open Loop Links

variable {α : Type*} {l : Links α} {null p a : α} {count : UInt32} {limit n : ℕ} {xs us vs : List α}

/-- The objects of the list, and what the counter says. The limit is part of it, since a counter of
32 bits is the length only as long as something keeps the list short. -/
structure CountedList (l : Links α) (null : α) (count : UInt32) (limit : ℕ) (xs : List α) :
    Prop where
  lists : l.Lists xs null
  nodup : xs.Nodup
  null_notMem : null ∉ xs
  count : count.toNat = xs.length
  length_le : xs.length ≤ limit

namespace CountedList

theorem nil (h : l.head = null) : CountedList l null 0 limit [] :=
  ⟨h, List.nodup_nil, List.not_mem_nil, rfl, Nat.zero_le _⟩

theorem head_eq (h : CountedList l null count limit xs) : l.head = xs.headD null := h.lists.start_eq

/-- The links of the objects are all that matters. -/
theorem congr (h : CountedList l null count limit xs) {l' : Links α} (hhead : l'.head = l.head)
    (hnext : ∀ x ∈ xs, l'.next x = l.next x) : CountedList l' null count limit xs where
  lists := by
    rw [Links.Lists, hhead]
    exact h.lists.congr hnext
  nodup := h.nodup
  null_notMem := h.null_notMem
  count := h.count
  length_le := h.length_le

/-- A new object at the head. -/
theorem push (h : CountedList l null count limit xs) (hlimit : limit < 2 ^ 32)
    (hcount : ¬ limit ≤ count.toNat) (hp : p ≠ null) (hnew : p ∉ xs) {l' : Links α}
    (hhead : l'.head = p) (hp' : l'.next p = l.head) (hnext : ∀ x ∈ xs, l'.next x = l.next x) :
    CountedList l' null (count + 1) limit (p :: xs) where
  lists := ⟨hhead, by
    rw [hp']
    exact h.lists.congr hnext⟩
  nodup := List.nodup_cons.mpr ⟨hnew, h.nodup⟩
  null_notMem := by
    rw [List.mem_cons, not_or]
    exact ⟨Ne.symm hp, h.null_notMem⟩
  count := by
    have hcount' := h.count
    rw [UInt32.toNat_add, hcount', List.length_cons]
    exact Nat.mod_eq_of_lt (Nat.lt_of_le_of_lt (by simp; omega) hlimit)
  length_le := by
    have hcount' := h.count
    rw [List.length_cons]
    omega

variable [DecidableEq α]

/-- The loop `while (*ptr && *ptr != a) ptr = &(*ptr)->next` stops at the place of `a`. -/
theorem iterate_place (h : CountedList l null count limit (us ++ a :: vs)) (hn : limit < n) :
    iterate (placeTurn l fun p => p != null && p != a) n none = some us.getLast? ∧
      l.get us.getLast? = a := by
  refine ⟨Links.iterate_place h.lists (fun x hx => ?_) ?_ ?_, get_getLast? h.lists⟩
  · rw [Bool.and_eq_true, bne_iff_ne, bne_iff_ne]
    refine ⟨fun hx0 => h.null_notMem (hx0 ▸ List.mem_append_left _ hx), ?_⟩
    exact (List.nodup_append.mp h.nodup).2.2 x hx a List.mem_cons_self
  · rw [List.headD_cons, Bool.and_eq_false_iff]
    exact Or.inr (by simp)
  · have hlen := h.length_le
    rw [List.length_append] at hlen
    omega

/-- The object behind `us` is taken out. -/
theorem remove (h : CountedList l null count limit (us ++ a :: vs)) :
    CountedList (l.set us.getLast? (l.next a)) null (count - 1) limit (us ++ vs) := by
  have hsub : (us ++ vs).Sublist (us ++ a :: vs) :=
    (List.Sublist.refl us).append (List.sublist_cons_self a vs)
  have hlen : (us ++ a :: vs).length = (us ++ vs).length + 1 := by
    rw [List.length_append, List.length_append, List.length_cons, Nat.add_assoc]
  refine ⟨lists_remove h.lists h.nodup, h.nodup.sublist hsub,
    fun hnull => h.null_notMem (hsub.subset hnull), ?_, Nat.le_trans hsub.length_le h.length_le⟩
  have hcount := h.count
  rw [hlen] at hcount
  rw [UInt32.toNat_sub_of_le, hcount]
  · rfl
  · rw [UInt32.le_iff_toNat_le, hcount]
    exact Nat.le_add_left 1 _

end CountedList

end Linked
