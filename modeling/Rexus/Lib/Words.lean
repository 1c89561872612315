import Mathlib.Data.List.TakeWhile
import Rexus.Lib.CString

/-!
# Words

The words of a text are what stands between its separators. `strtok` finds them one after the other
in a buffer, and puts a zero behind each; where to go on is kept between the calls.

## Main results

* `Words.exists_word`, `Words.words_append_of_ends` — the first word, and the words behind it
* `Words.strtok_none`, `Words.strtok_some` — a call of `strtok`, by the text that is left

## Conventions

`strtok` is given the place where the last call has stopped, which the library keeps in a variable
of its own, and it returns the place where the next call goes on; two texts that are cut in turns
are therefore not modelled. Tokens are places in the buffer. The separators are any predicate that
does not hold of zero.

A buffer has a size, and a scan that comes to its end without a zero is an error. The buffer that is
cut has zeros where separators were, and a token is ended by the zero that was there or by one of
these; `Cut` says so of any number of calls, so that a token found early is still the same word
after the later calls.
-/

namespace Words

/-! ### The words of a text -/

section

variable {α : Type*} {sep : α → Bool} {c : α} {s w : List α}

/-- The words of a text: what is between the separators, unless it is nothing. -/
def words (sep : α → Bool) (s : List α) : List (List α) :=
  (s.splitOnP sep).filter fun w => !w.isEmpty

/-- A word: something, without a separator. -/
def IsWord (sep : α → Bool) (w : List α) : Prop := w ≠ [] ∧ ∀ c ∈ w, sep c = false

@[simp] theorem words_nil : words sep [] = [] := rfl

/-- A separator in front. -/
theorem words_cons (hc : sep c = true) : words sep (c :: s) = words sep s := by
  rw [words, List.splitOnP_cons_eq_if_modifyHead, if_pos hc]
  rfl

/-- Separators in front. -/
theorem words_append (hpre : ∀ c ∈ w, sep c = true) : words sep (w ++ s) = words sep s := by
  induction w with
  | nil => rfl
  | cons c w ih =>
    obtain ⟨hc, hpre⟩ := List.forall_mem_cons.mp hpre
    rw [List.cons_append, words_cons hc, ih hpre]

theorem words_of_isWord (hw : IsWord sep w) : words sep w = [w] := by
  rw [words, List.splitOnP_eq_singleton hw.2, List.filter_cons_of_pos (by simpa using hw.1)]
  rfl

/-- A word in front of a separator. -/
theorem words_append_cons (hw : IsWord sep w) (hc : sep c = true) :
    words sep (w ++ c :: s) = w :: words sep s := by
  rw [words, List.splitOnP_append_cons_of_forall_mem hw.2 c hc,
    List.filter_cons_of_pos (by simpa using hw.1)]
  rfl

/-- What is behind a word: nothing, or a separator and the rest. -/
def Ends (sep : α → Bool) : List α → Prop
  | [] => True
  | c :: _ => sep c = true

theorem words_append_of_ends (hw : IsWord sep w) (hs : Ends sep s) :
    words sep (w ++ s) = w :: words sep s.tail := by
  cases s with
  | nil => rw [List.append_nil, words_of_isWord hw]; rfl
  | cons c s => exact words_append_cons hw hs

/-- A text that is not made of separators only begins, behind some, with a word. -/
theorem exists_word (sep : α → Bool) (s : List α) :
    (∀ c ∈ s, sep c = true) ∨ ∃ pre w rest, s = pre ++ (w ++ rest) ∧
      (∀ c ∈ pre, sep c = true) ∧ IsWord sep w ∧ Ends sep rest := by
  induction s with
  | nil => exact Or.inl fun c hc => nomatch hc
  | cons c s ih =>
    cases hc : sep c with
    | true =>
      rcases ih with hall | ⟨pre, w, rest, rfl, hpre, hw, hrest⟩
      · exact Or.inl (List.forall_mem_cons.mpr ⟨hc, hall⟩)
      · exact Or.inr ⟨c :: pre, w, rest, rfl, List.forall_mem_cons.mpr ⟨hc, hpre⟩, hw, hrest⟩
    | false =>
      -- the word goes up to the next separator
      refine Or.inr ⟨[], c :: s.takeWhile (!sep ·), s.dropWhile (!sep ·), ?_,
        fun c hc => (nomatch hc), ⟨List.cons_ne_nil _ _, ?_⟩, ?_⟩
      · rw [List.nil_append, List.cons_append, List.takeWhile_append_dropWhile]
      · refine List.forall_mem_cons.mpr ⟨hc, fun x hx => ?_⟩
        simpa using List.mem_takeWhile_imp hx
      · cases hrest : s.dropWhile (!sep ·) with
        | nil => trivial
        | cons x rest =>
          have hhead := List.head_dropWhile_not (!sep ·) (l := s)
            (by rw [hrest]; exact List.cons_ne_nil _ _)
          simpa [hrest, Ends] using hhead

theorem words_eq_nil (h : ∀ c ∈ s, sep c = true) : words sep s = [] := by
  have happend := words_append (s := []) h
  rwa [List.append_nil] at happend

/-- The words of a text are parts of it. -/
theorem isInfix_of_mem_words (h : w ∈ words sep s) : w <:+: s := by
  induction hn : s.length using Nat.strong_induction_on generalizing s with
  | _ n ih =>
    rcases exists_word sep s with hall | ⟨pre, v, rest, rfl, hpre, hv, hrest⟩
    · rw [words_eq_nil hall] at h
      cases h
    · rw [words_append hpre, words_append_of_ends hv hrest] at h
      rcases List.mem_cons.mp h with rfl | h
      · exact ⟨pre, rest, List.append_assoc ..⟩
      · have hpos := List.length_pos_of_ne_nil hv.1
        have hlt : rest.tail.length < n := by
          rw [← hn, List.length_append, List.length_append, List.length_tail]
          omega
        exact ((ih _ hlt h rfl).trans (List.tail_suffix rest).isInfix).trans
          ⟨pre ++ v, [], by simp⟩

/-- The last of some texts with something between them. -/
theorem intercalate_concat (t : List α) (ws : List (List α)) (w : List α) :
    t.intercalate (ws ++ [w]) = ws.flatMap (· ++ t) ++ w := by
  induction ws with
  | nil => rw [List.nil_append, List.intercalate_singleton]; rfl
  | cons v ws ih =>
    have hne : ws ++ [w] ≠ [] := by simp
    obtain ⟨u, us, hus⟩ := List.exists_cons_of_ne_nil hne
    rw [List.cons_append, hus, List.intercalate_cons_cons, ← hus, ih, List.flatMap_cons]
    simp only [List.append_assoc]

end

/-! ### In a buffer -/

section

open Bytes

variable {d d' d'' : ℕ → UInt8} {delim : UInt8 → Bool} {p : UInt8 → Bool} {s t w : List UInt8}
  {a b k n m size : ℕ}

/-- The string at a place of a buffer. -/
abbrev HoldsAt (d : ℕ → UInt8) (a : ℕ) (s : List UInt8) : Prop := Holds (fun k => d (a + k)) s

/-- The next place from `a` on with such a byte, in a buffer of this size. -/
def scan (p : UInt8 → Bool) (d : ℕ → UInt8) (size a : ℕ) : Except StringError ℕ :=
  match (List.range' a (size - a)).find? fun k => p (d k) with
  | some k => .ok k
  | none => .error .unterminated

/-- `strtok(NULL, delim)`, in a buffer of this size, when `a` is where the last call stopped; a call
with a string begins at its start. The token if there is one, the buffer, and where the next call
goes on. -/
def strtok (delim : UInt8 → Bool) (size : ℕ) (d : ℕ → UInt8) (a : ℕ) :
    Except StringError (Option ℕ × (ℕ → UInt8) × ℕ) :=
  match scan (fun c => c = 0 || !delim c) d size a with
  | .error err => .error err
  | .ok k =>
    if d k = 0 then .ok (none, d, k)
    else
      match scan (fun c => c = 0 || delim c) d size k with
      | .error err => .error err
      | .ok e =>
        if d e = 0 then .ok (some k, d, e) else .ok (some k, Function.update d e 0, e + 1)

/-- Some of the separators between `a` and `b` have become zeros, and nothing else has changed. -/
structure Cut (delim : UInt8 → Bool) (a b : ℕ) (d d' : ℕ → UInt8) : Prop where
  kept : ∀ k, ¬(a ≤ k ∧ k < b ∧ delim (d k) = true) → d' k = d k
  cut : ∀ k, d' k = d k ∨ d' k = 0

theorem Cut.refl (a b : ℕ) (d : ℕ → UInt8) : Cut delim a b d d :=
  ⟨fun _ _ => rfl, fun _ => Or.inl rfl⟩

theorem Cut.trans (h : Cut delim a b d d') (h' : Cut delim a b d' d'') : Cut delim a b d d'' where
  kept k hk := by
    have heq := h.kept k hk
    rw [h'.kept k (heq ▸ hk), heq]
  cut k := by
    rcases h'.cut k with heq | hzero
    · rw [heq]
      exact h.cut k
    · exact Or.inr hzero

theorem Cut.mono (h : Cut delim a b d d') (ha : n ≤ a) (hb : b ≤ m) : Cut delim n m d d' where
  kept k hk := h.kept k fun hin => hk ⟨ha.trans hin.1, hin.2.1.trans_le hb, hin.2.2⟩
  cut := h.cut

theorem Cut.update (ha : a ≤ k) (hb : k < b) (hk : delim (d k) = true) :
    Cut delim a b d (Function.update d k 0) where
  kept j hj := by
    refine Function.update_of_ne ?_ 0 d
    rintro rfl
    exact hj ⟨ha, hb, hk⟩
  cut j := by
    rw [Function.update_apply]
    split_ifs
    · exact Or.inr rfl
    · exact Or.inl rfl

/-- A text without separators is not cut. -/
theorem HoldsAt.cut (h : HoldsAt d n s) (hs : ∀ c ∈ s, delim c = false) (hzero : delim 0 = false)
    (hcut : Cut delim a b d d') : HoldsAt d' n s := by
  refine h.congr fun k hk => hcut.kept _ fun hin => ?_
  rcases Nat.lt_or_eq_of_le hk with hlt | rfl
  · have hget : d (n + k) ∈ s := by
      have htext := h.text
      rw [← htext]
      exact List.mem_ofFn.mpr ⟨⟨k, hlt⟩, by simp⟩
    exact Bool.false_ne_true ((hs _ hget).symm.trans hin.2.2)
  · have hnull : d (n + s.length) = 0 := h.null
    rw [hnull, hzero] at hin
    exact Bool.false_ne_true hin.2.2

theorem HoldsAt.zero (h : HoldsAt d a s) : d (a + s.length) = 0 := h.null

/-- Behind the front of a text comes the rest. -/
theorem HoldsAt.drop (h : HoldsAt d a (s ++ t)) : HoldsAt d (a + s.length) t where
  text := by
    have htext := congrArg (List.drop s.length) h.text
    rw [List.drop_left, List.length_append, drop_slice _ _ (Nat.le_add_right _ _),
      Nat.add_sub_cancel_left] at htext
    refine Eq.trans ?_ htext
    exact slice_congr fun k _ => congrArg d (show a + s.length + (0 + k) = a + (0 + s.length + k) by
      omega)
  null := by
    have hnull := h.zero
    rwa [List.length_append, ← Nat.add_assoc] at hnull
  nonnull c hc := h.nonnull c (List.mem_append_right s hc)

/-- A byte of the text. -/
theorem HoldsAt.get (h : HoldsAt d a s) (hk : k < s.length) : d (a + k) = s[k] := by
  have hget := List.getElem_of_eq h.text (by simpa using hk)
  simpa [slice] using hget

theorem scan_eq (hak : a ≤ k) (hk : k < size) (hp : p (d k) = true)
    (hmin : ∀ j, a ≤ j → j < k → p (d j) = false) : scan p d size a = .ok k := by
  have hfind : ((List.range' a (size - a)).find? fun k => p (d k)) = some k := by
    rw [List.find?_range'_eq_some]
    refine ⟨hp, List.mem_range'_1.mpr ⟨hak, by omega⟩, fun j hj hjk => ?_⟩
    rw [hmin j hj hjk, Bool.not_false]
  rw [scan, hfind]

/-- A scan goes over the bytes of a text that do not end it. -/
theorem scan_of_holds (h : HoldsAt d a (s ++ t)) (hsize : a + s.length < size)
    (hs : ∀ c ∈ s, p c = false) (ht : p ((t ++ [0]).headD 0) = true) :
    scan p d size a = .ok (a + s.length) := by
  refine scan_eq (Nat.le_add_right _ _) hsize ?_ fun j hj hlt => ?_
  · have hrest := h.drop
    cases t with
    | nil =>
      have hzero := hrest.zero
      rw [List.length_nil, Nat.add_zero] at hzero
      rwa [hzero]
    | cons c t =>
      have hfirst := hrest.get (k := 0) (Nat.succ_pos _)
      rw [Nat.add_zero] at hfirst
      rwa [hfirst]
  · obtain ⟨k, rfl⟩ := Nat.exists_eq_add_of_le hj
    have hk : k < s.length := by omega
    have hget := h.get (k := k) (by rw [List.length_append]; omega)
    rw [List.getElem_append_left hk] at hget
    rw [hget]
    exact hs _ (List.getElem_mem hk)

/-- The front of a text, when a zero is put behind it. -/
theorem HoldsAt.front (h : HoldsAt d a (s ++ t)) :
    HoldsAt (Function.update d (a + s.length) 0) a s where
  text := by
    have htext := congrArg (List.take s.length) h.text
    rw [List.take_left, List.length_append, take_slice _ _ (Nat.le_add_right _ _)] at htext
    refine Eq.trans (slice_congr fun k hk => ?_) htext
    exact Function.update_of_ne (by omega) 0 d
  null := Function.update_self ..
  nonnull c hc := h.nonnull c (List.mem_append_left t hc)

/-- No token is left. -/
theorem strtok_none (h : HoldsAt d a s) (hsize : a + s.length < size)
    (hs : ∀ c ∈ s, delim c = true) : strtok delim size d a = .ok (none, d, a + s.length) := by
  have hscan : scan (fun c => c = 0 || !delim c) d size a = .ok (a + s.length) := by
    refine scan_of_holds (t := []) (by rwa [List.append_nil]) hsize (fun c hc => ?_) (by simp)
    rw [hs c hc, decide_eq_false (h.nonnull c hc)]
    rfl
  rw [strtok, hscan]
  exact if_pos h.zero

/-- **A call of `strtok`** that finds a word: it becomes a string of the buffer, and the next call
goes on with what is behind the separator after it. -/
theorem strtok_some (h : HoldsAt d a (s ++ (w ++ t))) (hsize : a + (s ++ (w ++ t)).length < size)
    (hs : ∀ c ∈ s, delim c = true) (hw : IsWord delim w) (ht : Ends delim t) :
    ∃ d' e, strtok delim size d a = .ok (some (a + s.length), d', e) ∧
      HoldsAt d' (a + s.length) w ∧ HoldsAt d' e t.tail ∧ a ≤ e ∧
      e + t.tail.length = a + (s ++ (w ++ t)).length ∧
      Cut delim a (a + (s ++ (w ++ t)).length) d d' := by
  have hlen : (s ++ (w ++ t)).length = s.length + (w.length + t.length) := by
    rw [List.length_append, List.length_append]
  have hrest := h.drop
  have hskip : scan (fun c => c = 0 || !delim c) d size a = .ok (a + s.length) := by
    refine scan_of_holds h (by omega) (fun c hc => ?_) ?_
    · rw [hs c hc, decide_eq_false (h.nonnull c (List.mem_append_left _ hc))]
      rfl
    · obtain ⟨c, v, rfl⟩ := List.exists_cons_of_ne_nil hw.1
      have hc := hw.2 c List.mem_cons_self
      simp [hc]
  have hword : scan (fun c => c = 0 || delim c) d size (a + s.length) =
      .ok (a + s.length + w.length) := by
    refine scan_of_holds hrest (by omega) (fun c hc => ?_) ?_
    · rw [hw.2 c hc, decide_eq_false (hrest.nonnull c (List.mem_append_left _ hc))]
      rfl
    · cases t with
      | nil => rfl
      | cons c t =>
        have hc : delim c = true := ht
        simp [hc]
  have hfirst : d (a + s.length) ≠ 0 := by
    have hne := hrest.ne_zero (k := 0)
      (by rw [List.length_append]; exact Nat.add_pos_left (List.length_pos_of_ne_nil hw.1) _)
    exact hne
  rw [strtok, hskip]
  dsimp only
  rw [if_neg hfirst, hword]
  dsimp only
  cases t with
  | nil =>
    rw [List.append_nil] at hrest
    rw [if_pos hrest.zero]
    refine ⟨_, _, rfl, hrest, ?_, by omega, by simp at hlen ⊢; omega, Cut.refl ..⟩
    have hend := hrest
    rw [← List.append_nil w] at hend
    exact hend.drop
  | cons c t =>
    have hc : delim c = true := ht
    have htail := hrest.drop
    have hget := htail.get (k := 0) (Nat.succ_pos _)
    rw [Nat.add_zero, List.getElem_cons_zero] at hget
    have hne : d (a + s.length + w.length) ≠ 0 := htail.ne_zero (k := 0) (Nat.succ_pos _)
    have hcut : Cut delim a (a + (s ++ (w ++ c :: t)).length) d
        (Function.update d (a + s.length + w.length) 0) :=
      Cut.update (by omega) (by rw [hlen, List.length_cons]; omega) (by rwa [hget])
    rw [if_neg hne]
    refine ⟨_, _, rfl, hrest.front, ?_, by omega,
      by rw [hlen, List.tail_cons, List.length_cons]; omega, hcut⟩
    rw [List.tail_cons]
    have hbehind : HoldsAt d (a + s.length + w.length + 1) t :=
      HoldsAt.drop (s := [c]) (t := t) htail
    refine hbehind.congr fun k _ => Function.update_of_ne ?_ 0 d
    omega

end

end Words
