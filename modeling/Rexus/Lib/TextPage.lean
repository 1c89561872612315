import Mathlib.Data.Nat.Init
import Mathlib.Logic.Function.Basic
import Mathlib.Tactic.Common

/-!
# Text on an unbounded page

Characters laid out in rows of a fixed width, on a page that goes down as far as the text does: a
line feed goes to the next row, a carriage return to the start of this one, a tab to the next
multiple of eight, and behind the last column of a row comes the first of the next. What has not
been written is blank.

## Main results

* `Page.col_lt_put` — the cursor stays within the width
* `Page.blankBelow_put` — nothing is written below the cursor

## Conventions

A page is a map from rows and columns to characters, and the cursor is where the next one goes. The
width is positive. The characters that do something else than to be written are the line feed, the
carriage return and the tab; every other one is written, those included that a terminal would not
show, such as a backspace. What a screen of finitely many rows shows of a page is not said here.

A tab in the last columns of a row goes to the next row, like any character behind the last column.
-/

/-- A page, and where its next character goes. -/
structure Page where
  cell : ℕ → ℕ → UInt8
  row : ℕ
  col : ℕ

namespace Page

variable {p : Page} {w : ℕ}

/-- Nothing but blanks. -/
def blank : Page := ⟨fun _ _ => 32, 0, 0⟩

/-- The start of the next row. -/
def nextRow (p : Page) : Page := { p with row := p.row + 1, col := 0 }

/-- Behind the last column comes the next row. -/
def wrap (w : ℕ) (p : Page) : Page := if w ≤ p.col then p.nextRow else p

/-- A character is written at the cursor. -/
def write (p : Page) (c : UInt8) : Page :=
  { p with
    cell := Function.update p.cell p.row (Function.update (p.cell p.row) p.col c)
    col := p.col + 1 }

/-- One character, on a page of width `w`. -/
def put (w : ℕ) (p : Page) (c : UInt8) : Page :=
  if c = 10 then p.nextRow
  else if c = 13 then { p with col := 0 }
  else if c = 9 then wrap w { p with col := 8 * (p.col / 8 + 1) }
  else wrap w (p.write c)

/-- A text. -/
def print (w : ℕ) (p : Page) (str : List UInt8) : Page := str.foldl (put w) p

/-- The rows below the cursor are blank. -/
def BlankBelow (p : Page) : Prop := ∀ i j, p.row < i → p.cell i j = 32

theorem blankBelow_blank : blank.BlankBelow := fun _ _ _ => rfl

theorem col_lt_wrap (hw : 0 < w) : (p.wrap w).col < w := by
  rw [wrap]
  split_ifs with h
  · exact hw
  · exact Nat.not_le.mp h

theorem blankBelow_nextRow (h : p.BlankBelow) : p.nextRow.BlankBelow := fun i j hi =>
  h i j (Nat.lt_of_succ_lt hi)

theorem blankBelow_wrap (h : p.BlankBelow) : (p.wrap w).BlankBelow := by
  rw [wrap]
  split_ifs
  · exact blankBelow_nextRow h
  · exact h

theorem cell_write (p : Page) (c : UInt8) (i j : ℕ) :
    (p.write c).cell i j = if i = p.row ∧ j = p.col then c else p.cell i j := by
  dsimp only [write]
  rw [Function.update_apply]
  split_ifs with hi h h
  · rw [h.2, Function.update_self]
  · rw [hi, Function.update_of_ne fun hj => h ⟨hi, hj⟩]
  · exact absurd h.1 hi
  · rfl

theorem blankBelow_write (h : p.BlankBelow) (c : UInt8) : (p.write c).BlankBelow := fun i j hi => by
  have hne : ¬(i = p.row ∧ j = p.col) := fun heq => Nat.ne_of_gt hi heq.1
  rw [cell_write, if_neg hne]
  exact h i j hi

theorem col_lt_put (hw : 0 < w) (p : Page) (c : UInt8) : (p.put w c).col < w := by
  rw [put]
  split_ifs
  · exact hw
  · exact hw
  · exact col_lt_wrap hw
  · exact col_lt_wrap hw

theorem blankBelow_put (h : p.BlankBelow) (c : UInt8) : (p.put w c).BlankBelow := by
  rw [put]
  split_ifs
  · exact blankBelow_nextRow h
  · exact h
  · exact blankBelow_wrap h
  · exact blankBelow_wrap (blankBelow_write h c)

theorem blankBelow_print (h : p.BlankBelow) (str : List UInt8) : (p.print w str).BlankBelow := by
  induction str generalizing p with
  | nil => exact h
  | cons c str ih => exact ih (blankBelow_put h c)

end Page
