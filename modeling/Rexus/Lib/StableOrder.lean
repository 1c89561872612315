import Mathlib.Data.List.Sort
import Mathlib.Tactic.Common

/-!
# Stable order

A list kept in the order of a key, later entries behind earlier ones of the same key. When an entry
was made is a number; `Before` compares the keys and then these numbers. An entry goes in before the
first one of a greater key, which is `List.orderedInsert` for the strict order of the keys.

## Main results

* `StableOrder.pairwise_orderedInsert` — a new entry keeps the order
* `StableOrder.foldl_best` — a scan for a least key finds the first entry with the property

## Conventions

Keys are of any linear order and entries of any type; the key of an entry and the time it was made
are functions of it. The times are given in increasing order, and a new entry has a greater one than
all that are in the list. A list that is in the order of `Before` therefore has the entries of one
key in the order in which they came.

The scan of `foldl_best` is the loop of a program that keeps the best entry so far and replaces it
only by a strictly better one; with `≤` in place of `<` it would find the last entry of the least
key instead of the first.
-/

namespace StableOrder

variable {α κ : Type*} [LinearOrder κ] {key : α → κ} {time : α → ℕ} {a b : α} {l us vs : List α}

/-- `a` comes before `b`: it has the smaller key, or the same and is older. -/
def Before (key : α → κ) (time : α → ℕ) (a b : α) : Prop :=
  key a < key b ∨ key a = key b ∧ time a < time b

theorem Before.le (h : Before key time a b) : key a ≤ key b := h.elim le_of_lt fun h => le_of_eq h.1

/-- Entries before the place have keys at most the new one's, and the entry at the place a greater
one. -/
theorem orderedInsert_eq (key : α → κ) (a : α) (l : List α) :
    ∃ us vs, l = us ++ vs ∧ l.orderedInsert (fun a b => key a < key b) a = us ++ a :: vs ∧
      (∀ u ∈ us, key u ≤ key a) ∧ ∀ v ∈ vs.head?, key a < key v := by
  refine ⟨_, _, (List.takeWhile_append_dropWhile (p := fun b => ¬ key a < key b)).symm,
    List.orderedInsert_eq_take_drop _ _ _, fun u hu => ?_, fun v hv => ?_⟩
  · simpa using List.all_eq_true.mp List.all_takeWhile u hu
  · have hdrop := List.head?_dropWhile_not (fun b => decide (¬ key a < key b)) l
    rw [hv] at hdrop
    simpa using hdrop

/-- **A new entry keeps the order.** -/
theorem pairwise_orderedInsert (h : l.Pairwise (Before key time))
    (hnew : ∀ b ∈ l, time b < time a) :
    (l.orderedInsert (fun a b => key a < key b) a).Pairwise (Before key time) := by
  induction l with
  | nil => exact List.pairwise_singleton _ _
  | cons b l ih =>
    obtain ⟨hb, hl⟩ := List.pairwise_cons.mp h
    rw [List.orderedInsert_cons]
    split_ifs with hab
    · refine List.pairwise_cons.mpr ⟨fun c hc => Or.inl ?_, h⟩
      rcases List.mem_cons.mp hc with rfl | hc
      · exact hab
      · exact lt_of_lt_of_le hab (hb c hc).le
    · refine List.pairwise_cons.mpr
        ⟨fun c hc => ?_, ih hl fun c hc => hnew c (List.mem_cons_of_mem b hc)⟩
      rcases (List.mem_orderedInsert _).mp hc with rfl | hc
      · exact (not_lt.mp hab).lt_or_eq.imp_right fun heq => ⟨heq, hnew b List.mem_cons_self⟩
      · exact hb c hc

/-- The first entry with a property comes before every other one with it. -/
theorem before_of_find? {p : α → Bool} (h : l.Pairwise (Before key time)) (ha : l.find? p = some a)
    (hb : b ∈ l) (hp : p b = true) : b = a ∨ Before key time a b := by
  obtain ⟨-, us, vs, rfl, hus⟩ := List.find?_eq_some_iff_append.mp ha
  have hvs := (List.pairwise_cons.mp (List.pairwise_append.mp h).2.1).1
  rcases List.mem_append.mp hb with hb | hb
  · exact absurd hp (by simpa using hus b hb)
  · exact (List.mem_cons.mp hb).imp_right fun hb => hvs b hb

/-- The scan `if (p(x) && (!best || key(x) < key(best))) best = x` over a list in the order of the
key. -/
theorem foldl_best [DecidableEq α] {p : α → Bool} {null : α}
    (h : l.Pairwise fun a b => key a ≤ key b) (hnull : null ∉ l) :
    l.foldl (fun best x => if p x && (best == null || decide (key x < key best)) then x else best)
      null = (l.find? p).getD null := by
  have hkeep : ∀ l : List α, ∀ best, best ≠ null → (∀ x ∈ l, key best ≤ key x) →
      l.foldl (fun best x => if p x && (best == null || decide (key x < key best)) then x else best)
        best = best := by
    intro l
    induction l with
    | nil => exact fun _ _ _ => rfl
    | cons x l ih =>
      intro best hbest hle
      obtain ⟨hx, hl⟩ := List.forall_mem_cons.mp hle
      rw [List.foldl_cons, if_neg]
      · exact ih best hbest hl
      · simp [hbest, hx]
  induction l with
  | nil => rfl
  | cons x l ih =>
    obtain ⟨hx, hl⟩ := List.pairwise_cons.mp h
    obtain ⟨hne, hnull⟩ := not_or.mp (List.mem_cons.not.mp hnull)
    rw [List.foldl_cons, List.find?_cons]
    cases hp : p x with
    | true =>
      rw [if_pos (by simp)]
      exact hkeep l x (Ne.symm hne) hx
    | false =>
      rw [if_neg (by simp)]
      exact ih hl hnull

end StableOrder
