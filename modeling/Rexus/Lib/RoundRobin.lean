import Mathlib.Data.List.Nodup
import Mathlib.Tactic.Common

/-!
# A round robin

The members are in a list, and it is the turn of one of them. New members join at the end. The turn
passes to the first, in cyclic order, that can take it, and with it members may be dropped that
cannot. How long a member waits is a matter of how many stand before it in that order.

## Main results

* `RoundRobin.order_next` — the order once the turn has passed
* `RoundRobin.Step.wait` — a member that can take its turn comes nearer to it with every turn

## Conventions

Members are of any type with decidable equality, and a list has each of them once. `order` is that
of the others: the one whose turn it is waits for all of them, and when no other can take the turn
it stays where it is. Members that are dropped are any that cannot take a turn, but not the one
whose turn it has been.

Time is counted in turns and in newcomers, and not in steps of the program, which may do many things
that are none of these; a step that does nothing here is free. How many turns there are in a stretch
of time is for the program to say.
-/

namespace RoundRobin

variable {α : Type*} [DecidableEq α] {l l' pre post : List α} {c c' p : α}

/-- The other members in the order of their turns, when it is the turn of `c`. -/
def order (l : List α) (c : α) : List α :=
  (l.dropWhile (· ≠ c)).tail ++ l.takeWhile (· ≠ c)

/-- How many turns of others come before that of `p`. -/
def wait (l : List α) (c p : α) : ℕ := (order l c).idxOf p

theorem order_of_split (hpre : c ∉ pre) : order (pre ++ c :: post) c = post ++ pre := by
  have hne : ∀ x ∈ pre, (decide (x ≠ c)) = true := by
    intro x hx
    simpa using ne_of_mem_of_not_mem hx hpre
  rw [order, List.dropWhile_append_of_pos hne, List.takeWhile_append_of_pos hne,
    List.dropWhile_cons_of_neg (by simp), List.takeWhile_cons_of_neg (by simp), List.tail_cons,
    List.append_nil]

theorem exists_split (hc : c ∈ l) :
    ∃ pre post, l = pre ++ c :: post ∧ c ∉ pre ∧ order l c = post ++ pre := by
  obtain ⟨pre, post, rfl, hpre⟩ := List.eq_append_cons_of_mem hc
  exact ⟨pre, post, rfl, hpre, order_of_split hpre⟩

theorem mem_order (hc : c ∈ l) (hp : p ∈ l) (hne : p ≠ c) : p ∈ order l c := by
  obtain ⟨pre, post, rfl, -, horder⟩ := exists_split hc
  rw [horder]
  simpa [hne, or_comm] using hp

theorem length_order (hc : c ∈ l) : (order l c).length + 1 = l.length := by
  obtain ⟨pre, post, rfl, -, horder⟩ := exists_split hc
  rw [horder]
  simp only [List.length_append, List.length_cons]
  omega

theorem wait_lt (hc : c ∈ l) (hp : p ∈ l) (hne : p ≠ c) : wait l c p + 1 < l.length := by
  have hlt := List.idxOf_lt_length_of_mem (mem_order hc hp hne)
  have hlen := length_order hc
  rw [wait]
  omega

/-- The order once the turn has passed to `r`: the one whose turn it was comes last but for those
the turn went past. -/
theorem order_next (hnodup : l.Nodup) (hc : c ∈ l) {r : α} {u v : List α}
    (h : order l c = u ++ r :: v) : order l r = v ++ c :: u := by
  obtain ⟨pre, post, rfl, -, horder⟩ := exists_split hc
  rw [horder] at h
  rcases List.append_eq_append_iff.mp h with ⟨as, rfl, hpre⟩ | ⟨cs, rfl, hcs⟩
  · -- `r` stands before `c` in the list
    subst hpre
    rw [List.append_assoc, List.cons_append] at hnodup ⊢
    have hr : r ∉ as := fun hr => (List.nodup_append.mp hnodup).2.2 r hr r List.mem_cons_self rfl
    rw [order_of_split hr, List.append_assoc, List.cons_append]
  · cases cs with
    | nil =>
      obtain rfl : r :: v = pre := hcs
      have hr : r ∉ ([] : List α) := List.not_mem_nil
      have hnext : order (r :: (v ++ c :: (u ++ []))) r = v ++ c :: (u ++ []) ++ [] :=
        order_of_split hr
      rw [List.cons_append, hnext, List.append_nil, List.append_nil]
    | cons x cs =>
      obtain ⟨rfl, rfl⟩ := List.cons_eq_cons.mp hcs
      have hsplit : pre ++ c :: (u ++ r :: cs) = (pre ++ c :: u) ++ r :: cs := by simp
      rw [hsplit] at hnodup ⊢
      have hr : r ∉ pre ++ c :: u := fun hr =>
        (List.nodup_append.mp hnodup).2.2 r hr r List.mem_cons_self rfl
      rw [order_of_split hr]
      exact (List.append_assoc cs pre (c :: u)).symm

theorem order_filter (hc : c ∈ l) {keep : α → Bool} (hkeep : keep c = true) :
    order (l.filter keep) c = (order l c).filter keep := by
  obtain ⟨pre, post, rfl, hpre, horder⟩ := exists_split hc
  have hpre' : c ∉ pre.filter keep := fun hmem => hpre (List.mem_of_mem_filter hmem)
  rw [horder, List.filter_append, List.filter_append, List.filter_cons_of_pos hkeep,
    order_of_split hpre']

theorem order_join (hc : c ∈ l) (x : α) :
    ∃ post pre, order l c = post ++ pre ∧ order (l ++ [x]) c = post ++ x :: pre := by
  obtain ⟨pre, post, rfl, hpre, horder⟩ := exists_split hc
  refine ⟨post, pre, horder, ?_⟩
  rw [List.append_assoc, List.cons_append, order_of_split hpre, List.append_assoc,
    List.singleton_append]

theorem idxOf_filter_le (l : List α) (keep : α → Bool) (hp : keep p = true) :
    (l.filter keep).idxOf p ≤ l.idxOf p := by
  induction l with
  | nil => exact Nat.le_refl _
  | cons x l ih =>
    by_cases hx : x = p
    · subst hx
      rw [List.filter_cons_of_pos hp, List.idxOf_cons_self]
      exact Nat.zero_le _
    · rw [List.idxOf_cons_ne l hx]
      by_cases hkeep : keep x = true
      · rw [List.filter_cons_of_pos hkeep, List.idxOf_cons_ne _ hx]
        exact Nat.succ_le_succ ih
      · rw [List.filter_cons_of_neg hkeep]
        exact Nat.le_trans ih (Nat.le_succ _)

theorem idxOf_insert_le (post pre : List α) (x : α) :
    (post ++ x :: pre).idxOf p ≤ (post ++ pre).idxOf p + 1 := by
  rw [List.idxOf_append, List.idxOf_append]
  split_ifs
  · exact Nat.le_succ _
  · by_cases hx : x = p
    · rw [hx, List.idxOf_cons_self]
      omega
    · rw [List.idxOf_cons_ne pre hx]
      omega

/-- What can happen: nothing, someone joins, or the turn passes. Counted are the turns and the
newcomers. -/
inductive Step (able : α → Bool) (l : List α) (c : α) : List α → α → ℕ → ℕ → Prop
  | stay : Step able l c l c 0 0
  | join (x : α) : Step able l c (l ++ [x]) c 0 1
  | turn (keep : α → Bool) (hcurrent : keep c = true) (hable : ∀ x, able x = true → keep x = true) :
      Step able l c (l.filter keep) (((order l c).find? able).getD c) 1 0

variable {able : α → Bool} {turns joins : ℕ}

/-- **Every turn brings nearer** a member that can take its own, and every newcomer takes it back by
one at most. -/
theorem Step.wait (h : Step able l c l' c' turns joins) (hnodup : l.Nodup) (hc : c ∈ l)
    (hp : p ∈ l) (hable : able p = true) (hne : p ≠ c) (hne' : p ≠ c') :
    turns + wait l' c' p ≤ wait l c p + joins := by
  cases h with
  | stay => exact Nat.le_of_eq (Nat.zero_add _)
  | join x =>
    obtain ⟨post, pre, horder, horder'⟩ := order_join hc x
    rw [RoundRobin.wait, RoundRobin.wait, horder, horder', Nat.zero_add]
    exact idxOf_insert_le post pre x
  | turn keep hcurrent hkeep =>
    have hmem := mem_order hc hp hne
    obtain ⟨r, hfind⟩ : ∃ r, (order l c).find? able = some r :=
      Option.isSome_iff_exists.mp (List.find?_isSome.mpr ⟨p, hmem, hable⟩)
    obtain ⟨hr, u, v, horder, hpast⟩ := List.find?_eq_some_iff_append.mp hfind
    rw [hfind, Option.getD_some] at hne' ⊢
    -- those the turn went past cannot take it, so `p` stands behind `r`
    have hu : p ∉ u := by
      intro hpu
      have hno := hpast p hpu
      rw [hable] at hno
      exact Bool.noConfusion hno
    have hv : p ∈ v := by
      rw [horder] at hmem
      simpa [hu, hne'] using hmem
    have hr' : r ∈ l := by
      obtain ⟨pre, post, rfl, -, hsplit⟩ := exists_split hc
      have hr : r ∈ post ++ pre := hsplit ▸ horder ▸ List.mem_append_right u List.mem_cons_self
      simpa [or_comm, or_left_comm] using Or.inr (List.mem_append.mp hr)
    have hnext : order (l.filter keep) r = (v ++ c :: u).filter keep := by
      rw [order_filter hr' (hkeep r hr), order_next hnodup hc horder]
    have hle : RoundRobin.wait (l.filter keep) r p ≤ v.idxOf p := by
      rw [RoundRobin.wait, hnext]
      exact List.idxOf_append_of_mem hv ▸ idxOf_filter_le _ keep (hkeep p hable)
    have hbefore : RoundRobin.wait l c p = u.length + (v.idxOf p + 1) := by
      rw [RoundRobin.wait, horder, List.idxOf_append_of_notMem hu,
        List.idxOf_cons_ne v (Ne.symm hne')]
    omega

end RoundRobin
