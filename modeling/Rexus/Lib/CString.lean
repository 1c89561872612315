import Rexus.Lib.Bytes

/-!
# Strings in buffers

A string in a buffer is the bytes before the first zero. A function that looks for this zero does
not know where the buffer ends: in a buffer of which no byte is zero it goes on behind it, which
is an error here.

## Main results

* `Bytes.strlen_of_holds`, `Bytes.strcpy_of_holds`
* `Bytes.Holds.unique` — a buffer holds one string

## Conventions

A buffer is a map from offsets to bytes, together with a size that every function is given. The
bytes from the size on are in the map too, but no function here looks at them: reading one is
`StringError`, and the result of the function is that error. So a function that returns has read
within the buffer.

`Holds` says what the string is without saying anything of the bytes behind its zero; two buffers
that hold the same string may differ there, and a copy by `strcpy` writes the string and its zero
and no more. A string has no zero in it. Writing goes to a buffer of any size, and its bound is left
to whoever knows the string to be short enough.
-/

namespace Bytes

variable {d e : ℕ → UInt8} {s t : List UInt8} {n size : ℕ}

/-- A string runs past the end of its buffer. A function that reads or writes on from there ends
with this error instead of a value, so that its callers cannot go on as if nothing had happened. -/
inductive StringError where
  | unterminated

/-- `strlen(d)`, in a buffer of this size. -/
def strlen (d : ℕ → UInt8) (size : ℕ) : Except StringError ℕ :=
  match (List.range size).find? fun k => d k = 0 with
  | some n => .ok n
  | none => .error .unterminated

/-- `strcpy(d, e)`, from a buffer of this size. -/
def strcpy (d e : ℕ → UInt8) (size : ℕ) : Except StringError (ℕ → UInt8) :=
  match strlen e size with
  | .ok n => .ok (blit d 0 e 0 (n + 1))
  | .error err => .error err

/-- The string in the buffer is `s`: its characters, none of them null, and a null character behind
them. What the buffer has behind that is anything. -/
structure Holds (d : ℕ → UInt8) (s : List UInt8) : Prop where
  text : slice d 0 s.length = s
  null : d s.length = 0
  nonnull : ∀ c ∈ s, c ≠ 0

/-- The bytes before a zero, none of which is one. -/
theorem holds_slice (hnull : d n = 0) (hne : ∀ k < n, d k ≠ 0) : Holds d (slice d 0 n) where
  text := by rw [length_slice]
  null := by rwa [length_slice]
  nonnull c hc := by
    obtain ⟨k, rfl⟩ := List.mem_ofFn.mp hc
    rw [Nat.zero_add]
    exact hne k k.isLt

theorem Holds.ne_zero (h : Holds d s) {k : ℕ} (hk : k < s.length) : d k ≠ 0 := by
  have hget : s[k] = d k := by
    have htext := h.text
    conv_lhs => rw [← List.getElem_of_eq htext (by simpa using hk)]
    simp [slice]
  rw [← hget]
  exact h.nonnull _ (List.getElem_mem hk)

theorem Holds.length_unique (h : Holds d s) (h' : Holds d t) : s.length = t.length := by
  rcases Nat.lt_trichotomy s.length t.length with hlt | heq | hgt
  · exact absurd h.null (h'.ne_zero hlt)
  · exact heq
  · exact absurd h'.null (h.ne_zero hgt)

theorem Holds.unique (h : Holds d s) (h' : Holds d t) : s = t := by
  rw [← h.text, ← h'.text, h.length_unique h']

theorem Holds.congr (h : Holds d s) (heq : ∀ k ≤ s.length, e k = d k) : Holds e s where
  text := (slice_congr fun k hk => by rw [Nat.zero_add, heq k (Nat.le_of_lt hk)]).trans h.text
  null := (heq _ (Nat.le_refl _)).trans h.null
  nonnull := h.nonnull

theorem strlen_of_holds (h : Holds d s) (hsize : s.length < size) :
    strlen d size = .ok s.length := by
  have hfind : ((List.range size).find? fun k => d k = 0) = some s.length := by
    rw [List.find?_range_eq_some]
    refine ⟨decide_eq_true h.null, List.mem_range.mpr hsize, fun k hk => ?_⟩
    rw [decide_eq_false (h.ne_zero hk), Bool.not_false]
  rw [strlen, hfind]

theorem strcpy_of_holds (h : Holds e s) (hsize : s.length < size) (d : ℕ → UInt8) :
    strcpy d e size = .ok (blit d 0 e 0 (s.length + 1)) := by
  rw [strcpy, strlen_of_holds h hsize]

/-- A copy holds the same string. -/
theorem Holds.blit (h : Holds e s) (d : ℕ → UInt8) : Holds (blit d 0 e 0 (s.length + 1)) s :=
  h.congr fun k hk => by rw [blit_of_mem (Nat.zero_le k) (by omega), Nat.zero_add, Nat.sub_zero]

/-- The characters of a string, as a buffer. -/
theorem holds_getD (hs : ∀ c ∈ s, c ≠ 0) : Holds (fun k => s.getD k 0) s where
  text := slice_getD s
  null := by rw [List.getD_eq_getElem?_getD, List.getElem?_eq_none (Nat.le_refl _)]; rfl
  nonnull := hs

end Bytes
