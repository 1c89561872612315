import Rexus.Lib.Bytes

/-!
# Cutting a run of bytes into pieces

`n` bytes are cut into pieces of `D` bytes, the last of which has what is left. The pieces are
counted from zero; piece `i` begins at `i * D`.

## Main results

* `Pieces.start_lt`, `Pieces.le_count_mul` — no piece begins behind the end, and they reach it
* `Pieces.size_eq` — all pieces but the last are full
* `Pieces.flatMap_slice` — the pieces make up the whole

## Conventions

`D` is positive wherever a piece is spoken of. Of no bytes there are no pieces, and `count` rounds
up, so that the last piece has at least one byte and at most `D`. Lengths are natural numbers; a
program that computes them in words of some width has to show that its sums do not wrap before it
comes here.

The pieces are in order and do not overlap, which is what makes `flatMap_slice` an equation between
lists and not only between sets of bytes.

A program that cuts a run of bytes at other places, or into pieces that overlap, is not covered.
-/

namespace Pieces

open Bytes

variable {n D i : ℕ}

/-- The number of pieces. -/
def count (n D : ℕ) : ℕ := (n + D - 1) / D

/-- The size of piece `i`. -/
def size (n D i : ℕ) : ℕ := min D (n - i * D)

theorem le_count_mul (n : ℕ) (hD : 0 < D) : n ≤ count n D * D := by
  have h := Nat.lt_div_mul_add (a := n + D - 1) hD
  rw [count]
  omega

theorem start_lt (h : i < count n D) : i * D < n := by
  rcases Nat.eq_zero_or_pos D with rfl | hD
  · simp [count] at h
  · have hle := (Nat.le_div_iff_mul_le hD).mp h
    rw [Nat.succ_mul] at hle
    omega

/-- A piece is full if another follows it. -/
theorem end_le (h : i + 1 < count n D) : i * D + D < n := by
  have hlt := start_lt h
  rwa [Nat.succ_mul] at hlt

theorem count_pos (hn : 0 < n) (hD : 0 < D) : 0 < count n D :=
  Nat.div_pos (by omega) hD

/-- All pieces but the last are full. -/
theorem size_eq (h : i < count n D) :
    (if i = count n D - 1 then n - i * D else D) = size n D i := by
  have hD : 0 < D := by
    by_contra h0
    rw [Nat.eq_zero_of_not_pos h0] at h
    simp [count] at h
  have hle := le_count_mul n hD
  rw [size]
  split_ifs with hi
  · have hcount : count n D = i + 1 := by omega
    rw [hcount, Nat.succ_mul] at hle
    omega
  · have hend := end_le (i := i) (by omega : i + 1 < count n D)
    omega

theorem start_add_size_le : i * D ≤ n → i * D + size n D i ≤ n := by
  intro h
  rw [size]
  omega

/-- The next piece begins where this one ends, or there is none. -/
theorem start_add_size (n D i : ℕ) : min n (i * D) + size n D i = min n ((i + 1) * D) := by
  rw [size, Nat.succ_mul]
  omega

/-- The first pieces make up what is before the next. -/
theorem flatMap_slice_range (d : ℕ → UInt8) (n D k : ℕ) :
    (List.range k).flatMap (fun i => slice d (min n (i * D)) (size n D i)) =
      slice d 0 (min n (k * D)) := by
  induction k with
  | zero => simp
  | succ k ih =>
    rw [List.range_succ, List.flatMap_append, ih, ← start_add_size, slice_add]
    simp

/-- **The pieces make up the whole.** -/
theorem flatMap_slice (d : ℕ → UInt8) (n : ℕ) (hD : 0 < D) :
    (List.range (count n D)).flatMap (fun i => slice d (i * D) (size n D i)) = slice d 0 n := by
  have hall := flatMap_slice_range d n D (count n D)
  rw [Nat.min_eq_left (le_count_mul n hD)] at hall
  rw [← hall]
  refine List.flatMap_congr fun i hi => ?_
  rw [Nat.min_eq_right (Nat.le_of_lt (start_lt (List.mem_range.mp hi)))]

end Pieces
