import Mathlib.Algebra.Group.Nat.Defs
import Mathlib.Data.List.Range
import Mathlib.Data.List.OfFn
import Mathlib.Logic.Function.Basic
import Mathlib.Tactic.Common

/-!
# Buffers of bytes

A buffer is a map from offsets to bytes. `slice` reads a run of bytes as a list, `blit` is
`memcpy`, and `memmove` within one buffer, as the source is read before anything is written. Words
of two and four bytes are little-endian.

## Main results

* `Bytes.slice_add` — a slice in two parts
* `Bytes.slice_blit`, `Bytes.slice_blit_of_le` — what a copy writes, and what it leaves
* `Bytes.le16_putLe16` — a word is read back as it was written

## Conventions

Every offset is there: a buffer is a total map, and a program that may read or write behind the end
of its buffer needs a model that says where the end is, as `Options.Held` or the buffers of
`Lib/CString.lean` do. What a buffer holds before it is written is whatever the map says, so memory
that has not been initialised is a map about which nothing is known.

`blit` takes what it copies from a buffer as it was before, all at once. For two buffers this is
`memcpy`, and for a part of a buffer copied into the same one it is `memmove`; a copy byte by byte
into an overlapping part would be another function.
-/

namespace Bytes

variable {d d' e : ℕ → UInt8} {i j m n k : ℕ}

/-- The `n` bytes from `i` on. -/
def slice (d : ℕ → UInt8) (i n : ℕ) : List UInt8 := List.ofFn fun k : Fin n => d (i + k)

/-- `memcpy(d + i, e + j, n)`. -/
def blit (d : ℕ → UInt8) (i : ℕ) (e : ℕ → UInt8) (j n : ℕ) : ℕ → UInt8 := fun k =>
  if i ≤ k ∧ k < i + n then e (j + (k - i)) else d k

/-! ### Slices -/

@[simp] theorem length_slice (d : ℕ → UInt8) (i n : ℕ) : (slice d i n).length = n := by
  simp [slice]

@[simp] theorem slice_zero (d : ℕ → UInt8) (i : ℕ) : slice d i 0 = [] := by simp [slice]

theorem slice_add (d : ℕ → UInt8) (i m n : ℕ) :
    slice d i (m + n) = slice d i m ++ slice d (i + m) n := by
  simp only [slice, List.ofFn_add]
  refine congrArg₂ _ rfl (congrArg List.ofFn (funext fun k => ?_))
  simp [Nat.add_assoc]

/-- One more byte. -/
theorem slice_succ (d : ℕ → UInt8) (i n : ℕ) : slice d i (n + 1) = slice d i n ++ [d (i + n)] := by
  rw [slice_add]
  rfl

theorem slice_congr (h : ∀ k < n, d (i + k) = e (j + k)) : slice d i n = slice e j n :=
  congrArg List.ofFn (funext fun k => h k k.isLt)

theorem slice_inj (h : slice d i n = slice e j n) (hk : k < n) : d (i + k) = e (j + k) :=
  congrFun (List.ofFn_injective h) ⟨k, hk⟩

theorem drop_slice (d : ℕ → UInt8) (i : ℕ) (h : m ≤ n) :
    (slice d i n).drop m = slice d (i + m) (n - m) := by
  obtain ⟨k, rfl⟩ := Nat.exists_eq_add_of_le h
  rw [slice_add, List.drop_left' (length_slice d i m), Nat.add_sub_cancel_left]

theorem take_slice (d : ℕ → UInt8) (i : ℕ) (h : m ≤ n) : (slice d i n).take m = slice d i m := by
  obtain ⟨k, rfl⟩ := Nat.exists_eq_add_of_le h
  rw [slice_add, List.take_left' (length_slice d i m)]

/-- The bytes of a list, as a buffer. -/
theorem slice_getD (l : List UInt8) : slice (fun k => l.getD k 0) 0 l.length = l := by
  refine List.ext_getElem (length_slice ..) fun k _ hk => ?_
  simp only [slice, List.getElem_ofFn, Nat.zero_add, List.getD_eq_getElem?_getD,
    List.getElem?_eq_getElem hk, Option.getD_some]

/-! ### Copies -/

theorem blit_of_mem (h : i ≤ k) (h' : k < i + n) : blit d i e j n k = e (j + (k - i)) :=
  if_pos ⟨h, h'⟩

theorem blit_of_lt (h : k < i) : blit d i e j n k = d k := if_neg (by omega)

theorem blit_of_ge (h : i + n ≤ k) : blit d i e j n k = d k := if_neg (by omega)

/-- What a copy writes. -/
theorem slice_blit (d : ℕ → UInt8) (i : ℕ) (e : ℕ → UInt8) (j n : ℕ) :
    slice (blit d i e j n) i n = slice e j n :=
  slice_congr fun k hk => by
    rw [blit_of_mem (Nat.le_add_right i k) (by omega), Nat.add_sub_cancel_left]

/-- What lies before the copy is left. -/
theorem slice_blit_of_le (h : k + m ≤ i) : slice (blit d i e j n) k m = slice d k m :=
  slice_congr fun _ hl => blit_of_lt (by omega)

/-- A copy behind what is there. -/
theorem slice_blit_append (d : ℕ → UInt8) (m : ℕ) (e : ℕ → UInt8) (j n : ℕ) :
    slice (blit d m e j n) 0 (m + n) = slice d 0 m ++ slice e j n := by
  rw [slice_add, Nat.zero_add, slice_blit, slice_blit_of_le (by omega)]

/-- A queue at the start of a buffer, shortened by a `memmove`. -/
theorem slice_shift (d : ℕ → UInt8) (h : m ≤ n) :
    slice (blit d 0 d m (n - m)) 0 (n - m) = (slice d 0 n).drop m := by
  rw [slice_blit, drop_slice d 0 h, Nat.zero_add]

/-! ### Words -/

/-- The two bytes from `i` on. -/
def le16 (d : ℕ → UInt8) (i : ℕ) : UInt16 := UInt16.ofNat ((d i).toNat + 256 * (d (i + 1)).toNat)

theorem le16_toNat (d : ℕ → UInt8) (i : ℕ) :
    (le16 d i).toNat = (d i).toNat + 256 * (d (i + 1)).toNat := by
  have hlow := (d i).toNat_lt
  have hhigh := (d (i + 1)).toNat_lt
  rw [le16, UInt16.toNat_ofNat', Nat.mod_eq_of_lt (by omega)]

/-- The four bytes from `i` on. -/
def le32 (d : ℕ → UInt8) (i : ℕ) : UInt32 :=
  UInt32.ofNat ((d i).toNat + 2 ^ 8 * (d (i + 1)).toNat + 2 ^ 16 * (d (i + 2)).toNat +
    2 ^ 24 * (d (i + 3)).toNat)

/-- Two bytes are written. -/
def putLe16 (d : ℕ → UInt8) (i : ℕ) (v : UInt16) : ℕ → UInt8 := fun k =>
  if k = i then UInt8.ofNat v.toNat
  else if k = i + 1 then UInt8.ofNat (v.toNat / 256) else d k

theorem putLe16_of_ne (v : UInt16) (h : k ≠ i) (h' : k ≠ i + 1) : putLe16 d i v k = d k := by
  rw [putLe16, if_neg h, if_neg h']

@[simp] theorem le16_putLe16 (d : ℕ → UInt8) (i : ℕ) (v : UInt16) : le16 (putLe16 d i v) i = v := by
  have hv := v.toNat_lt
  rw [← UInt16.toNat_inj, le16]
  simp only [putLe16, if_pos, if_neg (Nat.succ_ne_self i), UInt16.toNat_ofNat', UInt8.toNat_ofNat']
  omega

theorem le16_congr (h : d i = e i) (h' : d (i + 1) = e (i + 1)) : le16 d i = le16 e i := by
  rw [le16, le16, h, h']

theorem le16_putLe16_of_ne (v : UInt16) (h : j + 1 < i ∨ i + 1 < j) :
    le16 (putLe16 d i v) j = le16 d j :=
  le16_congr (putLe16_of_ne v (by omega) (by omega)) (putLe16_of_ne v (by omega) (by omega))

end Bytes
