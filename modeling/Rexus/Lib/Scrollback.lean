import Mathlib.Data.Nat.Init
import Mathlib.Logic.Function.Basic
import Mathlib.Tactic.Common

/-!
# Scrolling documents

What a terminal shows: a document of rows without end, of which a window of `h` rows of `w` cells is
seen; the cursor is in the window. Behind the last row of the window comes a blank one, and the
window goes down to it. The rows above the window stay as they are.

## Main results

* `Scrollback.inWindow_put` — the cursor stays in the window
* `Scrollback.put_above` — what has left the window does not change

## Conventions

Rows and columns are natural numbers, and the document has no last row; a cell that has not been
written is what the document began with. `entry` makes the cell of a character, so that a terminal
with colors is one whose entry keeps the color, and the color may change between two characters.

The window only goes down. A cursor that is moved by hand goes to a cell of the window, and a
request for any other is ignored, since a program that draws the window has no row to put it in. To
clear is to write blanks to the window and to nothing above it.
-/

/-- The cells of the document, the first row of the window, and the cursor. -/
structure Scrollback (α : Type*) where
  cell : ℕ → ℕ → α
  top : ℕ
  row : ℕ
  col : ℕ

namespace Scrollback

variable {α : Type*} {t : Scrollback α} {w h : ℕ}

/-- The row of the cursor is in the window. Of the column nothing is said: between a character and
the line break that it causes, it is one behind the last. -/
structure InRows (h : ℕ) (t : Scrollback α) : Prop where
  top_le : t.top ≤ t.row
  row_lt : t.row < t.top + h

/-- The cursor is in the window. -/
structure InWindow (w h : ℕ) (t : Scrollback α) : Prop extends InRows h t where
  col_lt : t.col < w

/-- The start of the next row. -/
def nextRow (h : ℕ) (blank : α) (t : Scrollback α) : Scrollback α :=
  if t.row + 1 < t.top + h then { t with row := t.row + 1, col := 0 }
  else
    { cell := Function.update t.cell (t.row + 1) fun _ => blank
      top := t.top + 1
      row := t.row + 1
      col := 0 }

/-- Behind the last column comes the next row. -/
def wrap (w h : ℕ) (blank : α) (t : Scrollback α) : Scrollback α :=
  if w ≤ t.col then t.nextRow h blank else t

/-- The cell of the cursor is written. -/
def write (t : Scrollback α) (a : α) : Scrollback α :=
  { t with
    cell := Function.update t.cell t.row (Function.update (t.cell t.row) t.col a)
    col := t.col + 1 }

/-- One character, in a cell that `entry` gives for it. -/
def put (w h : ℕ) (entry : UInt8 → α) (t : Scrollback α) (c : UInt8) : Scrollback α :=
  if c = 10 then t.nextRow h (entry 32)
  else if c = 13 then { t with col := 0 }
  else if c = 9 then wrap w h (entry 32) { t with col := 8 * (t.col / 8 + 1) }
  else wrap w h (entry 32) (t.write (entry c))

/-- A text. -/
def print (w h : ℕ) (entry : UInt8 → α) (t : Scrollback α) (str : List UInt8) : Scrollback α :=
  str.foldl (put w h entry) t

/-- The cursor goes to a cell of the window, if there is one. -/
def moveTo (w h : ℕ) (t : Scrollback α) (x y : ℤ) : Scrollback α :=
  if 0 ≤ x ∧ x < w ∧ 0 ≤ y ∧ y < h then { t with row := t.top + y.toNat, col := x.toNat } else t

/-- The window is blank, and the cursor in its first cell. -/
def clear (h : ℕ) (blank : α) (t : Scrollback α) : Scrollback α :=
  { cell := fun i j => if t.top ≤ i ∧ i < t.top + h then blank else t.cell i j
    top := t.top
    row := t.top
    col := 0 }

theorem cell_write (t : Scrollback α) (a : α) (i j : ℕ) :
    (t.write a).cell i j = if i = t.row ∧ j = t.col then a else t.cell i j := by
  dsimp only [write]
  rw [Function.update_apply]
  split_ifs with hi hij hij
  · rw [hij.2, Function.update_self]
  · rw [hi, Function.update_of_ne fun hj => hij ⟨hi, hj⟩]
  · exact absurd hij.1 hi
  · rfl

/-! ### The cursor -/

theorem inWindow_nextRow (hw : 0 < w) (ht : InRows h t) (blank : α) :
    InWindow w h (t.nextRow h blank) := by
  have htop := ht.top_le
  have hrow := ht.row_lt
  rw [nextRow]
  split_ifs with hnext
  · exact ⟨⟨Nat.le_succ_of_le htop, hnext⟩, hw⟩
  · refine ⟨⟨Nat.succ_le_succ htop, ?_⟩, hw⟩
    dsimp only
    omega

theorem inWindow_wrap (hw : 0 < w) (ht : InRows h t) (blank : α) :
    InWindow w h (t.wrap w h blank) := by
  rw [wrap]
  split_ifs with hcol
  · exact inWindow_nextRow hw ht blank
  · exact ⟨ht, Nat.not_le.mp hcol⟩

theorem inWindow_put (ht : InWindow w h t) (entry : UInt8 → α) (c : UInt8) :
    InWindow w h (t.put w h entry c) := by
  have hw : 0 < w := Nat.zero_lt_of_lt ht.col_lt
  rw [put]
  split_ifs
  · exact inWindow_nextRow hw ht.toInRows _
  · exact ⟨⟨ht.top_le, ht.row_lt⟩, hw⟩
  · have htab : InRows h { t with col := 8 * (t.col / 8 + 1) } := ⟨ht.top_le, ht.row_lt⟩
    exact inWindow_wrap hw htab _
  · have hwrite : InRows h (t.write (entry c)) := ⟨ht.top_le, ht.row_lt⟩
    exact inWindow_wrap hw hwrite _

theorem inWindow_moveTo (ht : InWindow w h t) (x y : ℤ) : InWindow w h (t.moveTo w h x y) := by
  rw [moveTo]
  split_ifs with hxy
  · refine ⟨⟨Nat.le_add_right _ _, ?_⟩, ?_⟩
    · dsimp only
      omega
    · dsimp only
      omega
  · exact ht

theorem inWindow_clear (hw : 0 < w) (hh : 0 < h) (blank : α) : InWindow w h (t.clear h blank) :=
  ⟨⟨Nat.le_refl _, Nat.lt_add_of_pos_right hh⟩, hw⟩

/-! ### What has left the window -/

/-- The window has not gone up, and the rows above it are what they were. -/
structure Above (t t' : Scrollback α) : Prop where
  top_le : t.top ≤ t'.top
  cell : ∀ i < t.top, t'.cell i = t.cell i

theorem Above.refl (t : Scrollback α) : Above t t := ⟨Nat.le_refl _, fun _ _ => rfl⟩

theorem Above.trans {t t' t'' : Scrollback α} (h : Above t t') (h' : Above t' t'') : Above t t'' :=
  ⟨Nat.le_trans h.top_le h'.top_le, fun i hi =>
    (h'.cell i (Nat.lt_of_lt_of_le hi h.top_le)).trans (h.cell i hi)⟩

theorem nextRow_above (htop : t.top ≤ t.row) (h : ℕ) (blank : α) : Above t (t.nextRow h blank) := by
  rw [nextRow]
  split_ifs
  · exact ⟨Nat.le_refl _, fun _ _ => rfl⟩
  · refine ⟨Nat.le_succ _, fun i hi => Function.update_of_ne ?_ _ _⟩
    omega

theorem wrap_above (htop : t.top ≤ t.row) (w h : ℕ) (blank : α) :
    Above t (t.wrap w h blank) := by
  rw [wrap]
  split_ifs
  · exact nextRow_above htop h blank
  · exact Above.refl t

theorem put_above (htop : t.top ≤ t.row) (w h : ℕ) (entry : UInt8 → α) (c : UInt8) :
    Above t (t.put w h entry c) := by
  rw [put]
  split_ifs
  · exact nextRow_above htop h _
  · exact ⟨Nat.le_refl _, fun _ _ => rfl⟩
  · have hwrap := wrap_above (t := { t with col := 8 * (t.col / 8 + 1) }) htop w h (entry 32)
    exact ⟨hwrap.top_le, hwrap.cell⟩
  · have hwrite : Above t (t.write (entry c)) := by
      refine ⟨Nat.le_refl _, fun i hi => Function.update_of_ne ?_ _ _⟩
      omega
    exact hwrite.trans (wrap_above (t := t.write (entry c)) htop w h _)

theorem print_above (ht : InWindow w h t) (entry : UInt8 → α) (str : List UInt8) :
    Above t (t.print w h entry str) := by
  induction str generalizing t with
  | nil => exact Above.refl t
  | cons c str ih => exact (put_above ht.top_le w h entry c).trans (ih (inWindow_put ht entry c))

theorem moveTo_above (t : Scrollback α) (w h : ℕ) (x y : ℤ) : Above t (t.moveTo w h x y) := by
  rw [moveTo]
  split_ifs
  · exact ⟨Nat.le_refl _, fun _ _ => rfl⟩
  · exact Above.refl t

theorem clear_above (t : Scrollback α) (h : ℕ) (blank : α) : Above t (t.clear h blank) := by
  refine ⟨Nat.le_refl _, fun i hi => funext fun j => if_neg ?_⟩
  omega

end Scrollback
