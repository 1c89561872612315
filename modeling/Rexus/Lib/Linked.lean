import Mathlib.Logic.Function.Basic
import Mathlib.Data.List.Basic
import Rexus.Lib.While

/-!
# Linked lists

A singly linked list is a map `next` from each node to the one after it. `Seg next p xs q` says
that following `next` from `p` meets the nodes of `xs` in order and then arrives at `q`; a list
that ends in a null pointer is a segment that arrives there. Nothing is said of the type of
pointers but that they can be compared.

## Main results

* `Linked.Seg.unlink`, `Linked.Seg.snoc` — taking a node out, putting one at the end
* `Linked.iterate_search`, `Linked.iterate_find`, `Linked.iterate_find_null` — the loop that
  follows `next` up to the first node with a property
* `Linked.iterate_fold` — the loop that does something with every node
* `Linked.Links.iterate_place` — the same loop with a pointer to the pointer
* `Linked.Links.lists_insert`, `Linked.Links.lists_remove` — what the writes through that pointer
  make of the list

## Conventions

The `next` map is total: a pointer to nothing has a `next` too, about which nothing is known, and no
rule reads it without the segment saying that the node is in the list. A segment may end in a null
pointer, or in a node where another segment begins; a list that has run into itself is no segment
that ends in null, and the loops over it do not return.

The loops are those of `Lib/While.lean`, with fuel, and a rule about a loop asks for more fuel than
there are nodes. The body of `iterate_fold` may fail, in which case the loop has no result. Places
are pointers to pointers: `none` is the head, and `some p` the field of node `p`, so that a write
through a place is a write to the one or to the other.
-/

namespace Linked

open Loop

variable {α : Type*} {next next' : α → α} {p q a b : α} {xs ys : List α}

/-- Following `next` from `p` through `xs` leads to `q`. -/
def Seg (next : α → α) : α → List α → α → Prop
  | p, [], q => p = q
  | p, x :: xs, q => p = x ∧ Seg next (next x) xs q

@[simp] theorem seg_nil : Seg next p [] q ↔ p = q := Iff.rfl

@[simp] theorem seg_cons : Seg next p (a :: xs) q ↔ p = a ∧ Seg next (next a) xs q := Iff.rfl

theorem seg_append : Seg next p (xs ++ ys) q ↔ ∃ c, Seg next p xs c ∧ Seg next c ys q := by
  induction xs generalizing p with
  | nil => simp
  | cons x xs ih =>
    rw [List.cons_append, seg_cons, ih]
    simp only [seg_cons, exists_and_left, and_assoc]

namespace Seg

theorem congr (h : Seg next p xs q) (heq : ∀ x ∈ xs, next' x = next x) : Seg next' p xs q := by
  induction xs generalizing p with
  | nil => exact h
  | cons x xs ih =>
    refine ⟨h.1, ?_⟩
    rw [heq x List.mem_cons_self]
    exact ih h.2 fun y hy => heq y (List.mem_cons_of_mem x hy)

/-- Where a segment arrives is fixed by where it starts and what it meets. -/
theorem unique (h : Seg next p xs q) (h' : Seg next p xs b) : q = b := by
  induction xs generalizing p with
  | nil => exact h.symm.trans h'
  | cons x xs ih => exact ih h.2 h'.2

/-- What follows a node. -/
theorem of_append_cons (h : Seg next p (xs ++ a :: ys) q) : Seg next (next a) ys q := by
  obtain ⟨c, -, -, h⟩ := seg_append.mp h
  exact h

/-- A segment starts at its first node, or where it arrives. -/
theorem start_eq (h : Seg next p xs q) : p = xs.headD q := by
  cases xs with
  | nil => exact h
  | cons x xs => exact h.1

theorem next_eq (h : Seg next p (xs ++ a :: ys) q) : next a = ys.headD q :=
  h.of_append_cons.start_eq

/-- What follows a node is a node, or where the segment arrives. -/
theorem next_mem (h : Seg next p xs q) (ha : a ∈ xs) : next a ∈ xs ∨ next a = q := by
  obtain ⟨us, vs, rfl⟩ := List.append_of_mem ha
  rw [h.next_eq]
  cases vs with
  | nil => exact Or.inr rfl
  | cons v vs => exact Or.inl (by simp)

/-- Every node but the last is followed by a node. -/
theorem next_mem_of_mem_init (h : Seg next p (xs ++ [a]) q) {x : α} (hx : x ∈ xs) :
    next x ∈ xs ++ [a] := by
  obtain ⟨us, vs, rfl⟩ := List.append_of_mem hx
  rw [List.append_assoc] at h ⊢
  rw [h.next_eq]
  refine List.mem_append_right us (List.mem_cons_of_mem x ?_)
  cases vs with
  | nil => exact List.mem_singleton_self a
  | cons v vs => exact List.mem_cons_self

/-- Only the node before `b` is followed by `b`. -/
theorem next_ne (h : Seg next p (xs ++ a :: b :: ys) q) (hnodup : (xs ++ a :: b :: ys).Nodup)
    {x : α} (hx : x ∈ xs) : next x ≠ b := by
  obtain ⟨us, vs, rfl⟩ := List.append_of_mem hx
  rw [List.append_assoc] at h hnodup
  rw [h.next_eq]
  have hvs := (List.nodup_cons.mp (List.nodup_append.mp hnodup).2.1).2
  obtain ⟨-, hnodup', hdis⟩ := List.nodup_append.mp hvs
  cases vs with
  | nil =>
    intro hab
    have hmem : a ∉ b :: ys := (List.nodup_cons.mp hnodup').1
    exact hmem (List.mem_cons.mpr (Or.inl hab))
  | cons v vs => exact hdis v List.mem_cons_self b (by simp)

variable [DecidableEq α]

/-- A write to a node that the segment does not meet. -/
theorem update (h : Seg next p xs q) (ha : a ∉ xs) (v : α) :
    Seg (Function.update next a v) p xs q := by
  refine h.congr fun x hx => Function.update_of_ne ?_ _ _
  rintro rfl
  exact ha hx

/-- Taking the node after `a` out. -/
theorem unlink (h : Seg next p (xs ++ a :: b :: ys) q) (hnodup : (xs ++ a :: b :: ys).Nodup) :
    Seg (Function.update next a (next b)) p (xs ++ a :: ys) q := by
  obtain ⟨-, hnodup', hdis⟩ := List.nodup_append.mp hnodup
  rw [List.nodup_cons, List.mem_cons, not_or] at hnodup'
  obtain ⟨c, hxs, rfl, rfl, hys⟩ := seg_append.mp h
  refine seg_append.mpr ⟨c, hxs.update ?_ _, rfl, ?_⟩
  · exact fun hc => hdis c hc c List.mem_cons_self rfl
  · rw [Function.update_self]
    exact hys.update hnodup'.1.2 _

/-- Putting a node after the last one. -/
theorem snoc (h : Seg next p (xs ++ [a]) q) (hnodup : (xs ++ [a]).Nodup) (hb : b ∉ xs ++ [a]) :
    Seg (Function.update next a b) p (xs ++ [a, b]) (next b) := by
  obtain ⟨-, -, hdis⟩ := List.nodup_append.mp hnodup
  obtain ⟨c, hxs, rfl, -⟩ := seg_append.mp h
  rw [List.mem_append, not_or, List.mem_singleton] at hb
  refine seg_append.mpr ⟨c, hxs.update ?_ _, rfl, ?_⟩
  · exact fun hc => hdis c hc c (List.mem_singleton_self _) rfl
  · rw [Function.update_self]
    exact ⟨rfl, Function.update_of_ne hb.2 _ _⟩

end Seg

/-- One turn of the loop `while (!stop(p)) p = p->next;`. -/
def searchTurn (next : α → α) (stop : α → Bool) (p : α) : Option (Turn α α) :=
  some (if stop p then .done p else .next (next p))

/-- The loop stops at the first node with the property it looks for. -/
theorem iterate_search {stop : α → Bool} (h : Seg next p (xs ++ a :: ys) q)
    (hxs : ∀ x ∈ xs, stop x = false) (ha : stop a = true) {n : ℕ} (hn : xs.length < n) :
    iterate (searchTurn next stop) n p = some a := by
  induction xs generalizing p n with
  | nil =>
    obtain ⟨n, rfl⟩ : ∃ k, n = k + 1 := ⟨n - 1, by simp at hn; omega⟩
    obtain rfl : p = a := h.1
    exact iterate_done (by rw [searchTurn, ha]; rfl)
  | cons x xs ih =>
    obtain ⟨n, rfl⟩ : ∃ k, n = k + 1 := ⟨n - 1, by simp at hn; omega⟩
    obtain ⟨rfl, h⟩ := h
    rw [iterate_next (t := next p) (by rw [searchTurn, hxs p List.mem_cons_self]; rfl)]
    exact ih h (fun y hy => hxs y (List.mem_cons_of_mem p hy))
      (by rw [List.length_cons] at hn; omega)

/-- The loop `while (p != q && !stop(p)) p = p->next;` finds the first node with the property, or
comes to the end. -/
theorem iterate_find {stop : α → Bool} (h : Seg next p xs q) (hq : stop q = true) {n : ℕ}
    (hn : xs.length < n) :
    iterate (searchTurn next stop) n p = some ((xs.find? stop).getD q) := by
  have hend : Seg next p (xs ++ [q]) (next q) := seg_append.mpr ⟨q, h, rfl, rfl⟩
  cases hfind : xs.find? stop with
  | none =>
    rw [List.find?_eq_none] at hfind
    exact iterate_search hend (fun x hx => by simpa using hfind x hx) hq hn
  | some a =>
    obtain ⟨ha, us, vs, rfl, hus⟩ := List.find?_eq_some_iff_append.mp hfind
    refine iterate_search h (fun x hx => by simpa using hus x hx) ha ?_
    rw [List.length_append] at hn
    omega

theorem find?_congr {f g : α → Bool} (h : ∀ x ∈ xs, f x = g x) : xs.find? f = xs.find? g := by
  induction xs with
  | nil => rfl
  | cons x xs ih =>
    obtain ⟨hx, h⟩ := List.forall_mem_cons.mp h
    rw [List.find?_cons, List.find?_cons, hx, ih h]

/-- The same loop with a null pointer at the end. -/
theorem iterate_find_null [DecidableEq α] {f : α → Bool} (h : Seg next p xs q) (hq : q ∉ xs)
    {n : ℕ} (hn : xs.length < n) :
    iterate (searchTurn next fun p => p == q || f p) n p = some ((xs.find? f).getD q) := by
  have hfind : xs.find? (fun p => p == q || f p) = xs.find? f := find?_congr fun x hx => by
    have hne : x ≠ q := fun heq => hq (heq ▸ hx)
    rw [beq_eq_false_iff_ne.mpr hne, Bool.false_or]
  rw [iterate_find h (by simp) hn, hfind]

/-- One turn of the loop `while (p) { acc = f(acc, p); p = p->next; }`. -/
def foldTurn [DecidableEq α] {β : Type*} (next : α → α) (null : α) (f : β → α → β) (w : α × β) :
    Option (Turn (α × β) β) :=
  some (if w.1 = null then .done w.2 else .next (next w.1, f w.2 w.1))

/-- The loop goes over the nodes in order. -/
theorem iterate_fold [DecidableEq α] {β : Type*} {f : β → α → β} {b : β} (h : Seg next p xs q)
    (hq : q ∉ xs) {n : ℕ} (hn : xs.length < n) :
    iterate (foldTurn next q f) n (p, b) = some (xs.foldl f b) := by
  induction xs generalizing p b n with
  | nil =>
    obtain rfl : p = q := h
    obtain ⟨n, rfl⟩ := Nat.exists_eq_add_of_lt hn
    exact iterate_done (by rw [foldTurn, if_pos rfl]; rfl)
  | cons x xs ih =>
    obtain ⟨rfl, h⟩ := h
    obtain ⟨n, rfl⟩ : ∃ k, n = k + 1 := ⟨n - 1, by rw [List.length_cons] at hn; omega⟩
    rw [List.mem_cons, not_or] at hq
    have hturn : foldTurn next q f (p, b) = some (.next (next p, f b p)) := by
      rw [foldTurn, if_neg (Ne.symm hq.1)]
    rw [iterate_next hturn]
    exact ih h hq.2 (by rw [List.length_cons] at hn; omega)

/-! ### Pointers to pointers

A loop that is to change the list keeps the place of the pointer it follows: the variable that
holds the head, or the field of a node. -/

/-- The head of a list and the `next` pointers. The pointers of objects that are not in the list are
there, too, and say nothing. -/
@[ext] structure Links (α : Type*) where
  head : α
  next : α → α

namespace Links

variable {l : Links α}

/-- `*ptr`. The place is the head (`none`) or the field of a node. -/
def get (l : Links α) : Option α → α
  | none => l.head
  | some p => l.next p

/-- `*ptr = v`. -/
def set [DecidableEq α] (l : Links α) : Option α → α → Links α
  | none, v => { l with head := v }
  | some p, v => { l with next := Function.update l.next p v }

/-- The nodes of the list that ends in `q`. -/
def Lists (l : Links α) (xs : List α) (q : α) : Prop := Seg l.next l.head xs q

/-- One turn of the loop `while (go(*ptr)) ptr = &(*ptr)->next;`. -/
def placeTurn (l : Links α) (go : α → Bool) (ptr : Option α) :
    Option (Turn (Option α) (Option α)) :=
  some (if go (l.get ptr) then .next (some (l.get ptr)) else .done ptr)

/-- The place behind the nodes of `xs` holds the pointer to the rest. -/
theorem get_getLast? (h : l.Lists (xs ++ ys) q) : l.get xs.getLast? = ys.headD q := by
  rcases List.eq_nil_or_concat' xs with rfl | ⟨us, a, rfl⟩
  · exact h.start_eq
  · rw [List.getLast?_concat]
    rw [Lists, List.append_assoc] at h
    exact h.next_eq

/-- The loop stops behind the nodes it goes over. -/
theorem iterate_place {go : α → Bool} (h : l.Lists (xs ++ ys) q) (hxs : ∀ x ∈ xs, go x = true)
    (hstop : go (ys.headD q) = false) {m : ℕ} (hm : xs.length < m) :
    iterate (placeTurn l go) m none = some xs.getLast? := by
  have hrest : ∀ us vs : List α, us ++ vs = xs → ∀ n, vs.length < n →
      iterate (placeTurn l go) n us.getLast? = some xs.getLast? := by
    intro us vs
    induction vs generalizing us with
    | nil =>
      intro hus n hn
      rw [List.append_nil] at hus
      subst hus
      obtain ⟨n, rfl⟩ := Nat.exists_eq_add_of_lt hn
      have hdone : placeTurn l go us.getLast? = some (.done us.getLast?) := by
        rw [placeTurn, get_getLast? h, hstop]
        rfl
      exact iterate_done hdone
    | cons v vs ih =>
      intro hus n hn
      obtain ⟨n, rfl⟩ : ∃ k, n = k + 1 := ⟨n - 1, by rw [List.length_cons] at hn; omega⟩
      have hget : l.get us.getLast? = v := by
        rw [← hus, List.append_assoc] at h
        exact get_getLast? h
      have hgo : go v = true := hxs v (hus ▸ by simp)
      rw [iterate_next (t := some v) (by rw [placeTurn, hget, if_pos hgo])]
      have := ih (us ++ [v]) (by rw [← hus, List.append_assoc]; rfl) n (by simpa using hn)
      rwa [List.getLast?_concat] at this
  exact hrest [] xs rfl m hm

variable [DecidableEq α]

/-- **A write through the place behind `xs`** links `xs` to another segment. -/
theorem splice {d : α} (h : l.Lists (xs ++ ys) q) (hnodup : xs.Nodup) {zs : List α}
    (hzs : Seg l.next d zs q) (hdis : ∀ z ∈ zs, z ∉ xs) :
    (l.set xs.getLast? d).Lists (xs ++ zs) q := by
  rcases List.eq_nil_or_concat' xs with rfl | ⟨us, a, rfl⟩
  · exact hzs
  · rw [List.getLast?_concat]
    rw [Lists, List.append_assoc] at h ⊢
    obtain ⟨c, hus, rfl, -⟩ := seg_append.mp h
    obtain ⟨-, -, hne⟩ := List.nodup_append.mp hnodup
    refine seg_append.mpr ⟨c, hus.update ?_ _, rfl, ?_⟩
    · exact fun hc => hne c hc c (List.mem_singleton_self c) rfl
    · show Seg (Function.update l.next c d) (Function.update l.next c d c) zs q
      rw [Function.update_self]
      exact hzs.update (fun hc => hdis c hc (by simp)) _

/-- **An insertion** behind `xs`: the new node gets what the place holds, and the place the node. -/
theorem lists_insert {d : α} (h : l.Lists (xs ++ ys) q) (hnodup : (d :: (xs ++ ys)).Nodup) :
    (Links.set { l with next := Function.update l.next d (l.get xs.getLast?) }
      xs.getLast? d).Lists (xs ++ d :: ys) q := by
  obtain ⟨hd, hnodup⟩ := List.nodup_cons.mp hnodup
  obtain ⟨hxs, -, hdis⟩ := List.nodup_append.mp hnodup
  obtain ⟨hdxs, hdys⟩ := not_or.mp (List.mem_append.not.mp hd)
  have hget := get_getLast? h
  obtain ⟨c, hc, hys⟩ := seg_append.mp h
  rw [hys.start_eq, ← hget] at hys
  have hlists : Links.Lists { l with next := Function.update l.next d (l.get xs.getLast?) }
      (xs ++ ys) q := Seg.update h hd _
  refine splice hlists hxs ⟨rfl, ?_⟩ (fun z hz => ?_)
  · show Seg (Function.update l.next d _) (Function.update l.next d _ d) ys q
    rw [Function.update_self]
    exact hys.update hdys _
  · rcases List.mem_cons.mp hz with rfl | hz
    · exact hdxs
    · exact fun hx => hdis z hx z hz rfl

/-- **A removal** of the node behind `xs`: the place gets what the node points to. -/
theorem lists_remove (h : l.Lists (xs ++ a :: ys) q) (hnodup : (xs ++ a :: ys).Nodup) :
    (l.set xs.getLast? (l.next a)).Lists (xs ++ ys) q := by
  obtain ⟨hxs, -, hdis⟩ := List.nodup_append.mp hnodup
  refine splice h hxs h.of_append_cons fun z hz hzx => ?_
  exact hdis z hzx z (List.mem_cons_of_mem a hz) rfl

end Links

end Linked
