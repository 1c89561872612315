import Rexus.Drivers.ConsoleHistory

/-!
# What is typed and what is executed

The keyboard interrupt writes to the buffer, the position and the flag from which the main loop
takes the next line. From Enter to the next `console_update` the buffer holds the line that is to be
executed: a key that comes in between and would change the line does so with the line that has
been entered. The line that somebody types is kept by a line editor, which knows nothing of the
buffer; the cursor is at the end of the line, as `KEY_END` says.

## Main results

* `consolePress_tracks` — before Enter the console does what the line editor does
* `console_lines` — which keys may come between Enter and the update

## Conventions

The line editor is what somebody at the keyboard sees of the console: it has the line up to the
cursor, the lines that have been entered, and where in the history a recalled line came from. It is
a definition of its own and not a reading of the buffer. Left makes the line shorter, as the console
forgets what is behind the cursor.

A run is of keys and updates in any order. To wait is a condition on the state and on the next key:
after Enter, and before the update, nothing is typed, entered or erased, and nothing is recalled. It
is exact: from a state of a run that has waited, a key that does not wait leads to one from which
some line is lost or changed.
-/

namespace Rexus

open Bytes Run

/-! ### The line editor -/

/-- The line that is being typed, the lines that have been entered, and how far back the line was
recalled from. -/
structure LineEditor where
  line : List UInt8
  entered : List (List UInt8)
  recalled : ℕ

namespace LineEditor

/-- The lines that were entered and not empty. -/
def submitted (e : LineEditor) : List (List UInt8) := e.entered.filter (· ≠ [])

/-- The last ten of them, the latest first, behind the line that is new. -/
def choices (e : LineEditor) : List (List UInt8) := [] :: (lastTen e.submitted).reverse

/-- A choice becomes the line. -/
def choose (e : LineEditor) (r : ℕ) : LineEditor :=
  { e with line := e.choices.getD r [], recalled := r }

/-- What a key does. -/
def press (e : LineEditor) : ConsoleKey → LineEditor
  | .enter => ⟨[], e.entered ++ [e.line], 0⟩
  | .backspace => { e with line := e.line.dropLast }
  | .character ch => if e.line.length < 255 then { e with line := e.line ++ [ch] } else e
  | .up =>
    if lastTen e.submitted = [] then e
    else e.choose (min (e.recalled + 1) (lastTen e.submitted).length)
  | .down => if e.recalled = 0 then e else e.choose (e.recalled - 1)
  | .home => { e with line := [] }
  | .left => { e with line := e.line.dropLast }
  | .other => e

variable {e : LineEditor}

/-- A choice that is not the new line is an entry of the history. -/
theorem choose_line {r : ℕ} (hpos : 0 < r) (hle : r ≤ (lastTen e.submitted).length) :
    (lastTen e.submitted)[(lastTen e.submitted).length - r]? = some (e.choose r).line := by
  obtain ⟨j, rfl⟩ : ∃ j, r = j + 1 := ⟨r - 1, by omega⟩
  have hlt : j < (lastTen e.submitted).reverse.length := by rw [List.length_reverse]; omega
  have hget : (lastTen e.submitted).reverse[j]? = some (e.choose (j + 1)).line := by
    show _ = some (([] :: (lastTen e.submitted).reverse).getD (j + 1) [])
    rw [List.getD_cons_succ, List.getD_eq_getElem?_getD, List.getElem?_eq_getElem hlt,
      Option.getD_some]
  rw [List.getElem?_reverse (by omega)] at hget
  rw [← hget]
  congr 1
  omega

/-- An entered line is submitted unless it is empty. -/
theorem submitted_enter (e : LineEditor) :
    (e.press .enter).submitted =
      if 0 < e.line.length then e.submitted ++ [e.line] else e.submitted := by
  show (e.entered ++ [e.line]).filter (· ≠ []) = _
  rw [List.filter_append, submitted]
  split_ifs with h
  · rw [List.filter_cons_of_pos (by simpa using List.ne_nil_of_length_pos h), List.filter_nil]
  · rw [List.filter_cons_of_neg (by simpa using List.eq_nil_of_length_eq_zero (by omega)),
      List.filter_nil, List.append_nil]

/-- Only Enter enters a line. -/
theorem entered_press {key : ConsoleKey} (henter : key ≠ .enter) :
    (e.press key).entered = e.entered := by
  cases key with
  | enter => exact absurd rfl henter
  | character ch =>
    rw [press]
    split_ifs
    · rfl
    · rfl
  | up =>
    rw [press]
    split_ifs
    · rfl
    · rfl
  | down =>
    rw [press]
    split_ifs
    · rfl
    · rfl
  | backspace => rfl
  | home => rfl
  | left => rfl
  | other => rfl

end LineEditor

/-! ### Before Enter -/

/-- The console is at the line of the editor, and at its place in the history. -/
structure Tracks (c : Console) (e : LineEditor) : Prop where
  inv : ConsoleInv c e.submitted
  line : c.line = e.line
  recalled_le : e.recalled ≤ c.historyCount
  position : c.historyPosition = if e.recalled = 0 then -1 else (c.historyCount : ℤ) - e.recalled

section

variable {c : Console} {e : LineEditor}

theorem ConsoleInv.historyCount_eq {submitted : List (List UInt8)} (h : ConsoleInv c submitted) :
    c.historyCount = (lastTen submitted).length :=
  h.count_eq.trans (length_lastTen submitted).symm

/-- The console has recalled what the editor chooses. -/
theorem Recalled.tracks {c' : Console} {r : ℕ}
    (h : Recalled c e.submitted ((c.historyCount : ℤ) - r) c')
    (hcount : c.historyCount = (lastTen e.submitted).length) (hpos : 0 < r)
    (hle : r ≤ c.historyCount) : Tracks c' (e.choose r) where
  inv := h.inv
  line := by
    have hchoose := e.choose_line hpos (hcount ▸ hle)
    have hline := h.line
    rw [← hcount] at hchoose
    rw [show ((c.historyCount : ℤ) - r).toNat = c.historyCount - r by omega, hchoose] at hline
    exact (Option.some_inj.mp hline).symm
  recalled_le := h.count ▸ hle
  position := by
    rw [h.position, h.count]
    exact (if_neg (Nat.ne_of_gt hpos)).symm

theorem consoleUp_tracks (h : Tracks c e) :
    ∃ out c', consoleUp c = .ok (out, c') ∧ Tracks c' (e.press .up) ∧
      c'.inputReady = c.inputReady := by
  have hcount := h.inv.historyCount_eq
  have hle := h.recalled_le
  have hposition := h.position
  rw [LineEditor.press]
  by_cases hnone : lastTen e.submitted = []
  · rw [if_pos hnone]
    rw [hnone] at hcount
    exact ⟨_, _, if_neg (by rw [hcount]; exact Nat.lt_irrefl 0), h, rfl⟩
  · have hpos : 0 < c.historyCount := hcount ▸ List.length_pos_of_ne_nil hnone
    obtain ⟨out, c', heq, hrecalled⟩ := consoleUp_recalled h.inv hpos
    have hprevious : c.previous =
        (c.historyCount : ℤ) - (min (e.recalled + 1) c.historyCount : ℕ) := by
      rw [Console.previous, hposition]
      split_ifs <;> omega
    rw [hprevious] at hrecalled
    rw [if_neg hnone, ← hcount]
    exact ⟨out, c', heq, hrecalled.tracks hcount (by omega) (Nat.min_le_right ..),
      hrecalled.ready⟩

theorem consoleDown_tracks (h : Tracks c e) :
    ∃ out c', consoleDown c = .ok (out, c') ∧ Tracks c' (e.press .down) ∧
      c'.inputReady = c.inputReady := by
  have hcount := h.inv.historyCount_eq
  have hle := h.recalled_le
  have hposition := h.position
  rw [LineEditor.press]
  by_cases hnew : e.recalled = 0
  · rw [if_pos hnew]
    rw [if_pos hnew] at hposition
    exact ⟨_, _, if_neg (not_not.mpr hposition), h, rfl⟩
  · rw [if_neg hnew] at hposition ⊢
    have hrecalled : c.historyPosition ≠ -1 := by omega
    by_cases hlast : (c.historyCount : ℤ) ≤ c.historyPosition + 1
    · obtain ⟨out, heq⟩ := consoleDown_last hrecalled hlast
      have hone : e.recalled - 1 = 0 := by omega
      refine ⟨out, _, heq, ?_, rfl⟩
      rw [hone]
      exact {
        inv := ((h.inv.setPosition (Nat.zero_le _)).setZero (Nat.le_refl _)).resetPosition
        line := slice_zero ..
        recalled_le := Nat.zero_le _
        position := rfl }
    · obtain ⟨out, c', heq, hnext⟩ := consoleDown_recalled h.inv hrecalled (by omega)
      have hstep : c.historyPosition + 1 = (c.historyCount : ℤ) - (e.recalled - 1 : ℕ) := by
        omega
      rw [hstep] at hnext
      exact ⟨out, c', heq, hnext.tracks hcount (by omega) (by omega), hnext.ready⟩

/-- The flag and the place in the history are as they were. -/
structure Edited (c c' : Console) : Prop where
  ready : c'.inputReady = c.inputReady
  count : c'.historyCount = c.historyCount
  position : c'.historyPosition = c.historyPosition

theorem consoleBackspace_edited (c : Console) : Edited c (consoleBackspace c).2 := by
  rw [consoleBackspace]
  split_ifs
  · exact ⟨rfl, rfl, rfl⟩
  · exact ⟨rfl, rfl, rfl⟩

theorem consoleType_edited (c : Console) (ch : UInt8) : Edited c (consoleType c ch).2 := by
  rw [consoleType]
  split_ifs
  · exact ⟨rfl, rfl, rfl⟩
  · exact ⟨rfl, rfl, rfl⟩

theorem consoleLeft_edited (c : Console) : Edited c (consoleLeft c).2 := by
  rw [consoleLeft]
  split_ifs
  · exact ⟨rfl, rfl, rfl⟩
  · exact ⟨rfl, rfl, rfl⟩

/-- A key that edits the line. -/
theorem Tracks.edit (h : Tracks c e) {c' : Console} (hedited : Edited c c')
    (hinv : ConsoleInv c' e.submitted) {line : List UInt8} (hline : c'.line = line) :
    Tracks c' { e with line } where
  inv := hinv
  line := hline
  recalled_le := hedited.count ▸ h.recalled_le
  position := by
    rw [hedited.position, hedited.count]
    exact h.position

/-- **Before Enter the console does what the line editor does.** -/
theorem consolePress_tracks (h : Tracks c e) {key : ConsoleKey} (henter : key ≠ .enter)
    (hkey : ∀ ch, key = .character ch → ch ≠ 0) :
    ∃ out c', consolePress c key = .ok (out, c') ∧ Tracks c' (e.press key) ∧
      c'.inputReady = c.inputReady := by
  cases key with
  | enter => exact absurd rfl henter
  | backspace =>
    have hedited := consoleBackspace_edited c
    have hline := (consoleBackspace_line c).trans (congrArg List.dropLast h.line)
    exact ⟨_, _, rfl, h.edit hedited (consoleBackspace_inv h.inv) hline, hedited.ready⟩
  | character ch =>
    have hedited := consoleType_edited c ch
    have hlen : e.line.length = c.inputPosition := h.line ▸ c.length_line
    refine ⟨_, (consoleType c ch).2, rfl, ?_, hedited.ready⟩
    rw [LineEditor.press, hlen]
    split_ifs with hroom
    · exact h.edit hedited (consoleType_inv h.inv (hkey ch rfl))
        ((consoleType_line hroom ch).trans (congrArg (· ++ [ch]) h.line))
    · rwa [consoleType, if_neg hroom]
  | up => exact consoleUp_tracks h
  | down => exact consoleDown_tracks h
  | home =>
    have hedited : Edited c (consoleHome c).2 := ⟨rfl, rfl, rfl⟩
    have hline : (consoleHome c).2.line = [] := slice_zero ..
    exact ⟨_, (consoleHome c).2, rfl, h.edit hedited (h.inv.setPosition (Nat.zero_le _)) hline,
      rfl⟩
  | left =>
    have hedited := consoleLeft_edited c
    have hline := (consoleLeft_line c).trans (congrArg List.dropLast h.line)
    exact ⟨_, _, rfl, h.edit hedited (consoleLeft_inv h.inv) hline, hedited.ready⟩
  | other => exact ⟨_, _, rfl, h, rfl⟩

/-- And at Enter. -/
theorem Tracks.submit_eq (h : Tracks c e) : c.submit e.submitted = (e.press .enter).submitted := by
  rw [Console.submit, LineEditor.submitted_enter, ← h.line, c.length_line]

end

/-! ### Runs -/

/-- The console, somebody who types, and the lines that have been executed. The editor takes the
same keys and is what the person at the keyboard believes to have typed. -/
structure ConsoleTalk where
  console : Console
  editor : LineEditor
  executed : List (List UInt8)

namespace ConsoleTalk

/-- After `console_init`. -/
def start : ConsoleTalk := ⟨consoleInit, ⟨[], [], 0⟩, []⟩

/-- One event: the console and the editor get the same key, or the console is updated and may
execute a line. An access past the end of a buffer ends the run with an error. -/
def step (t : ConsoleTalk) : ConsoleOp → Except StringError ConsoleTalk
  | .key key ascii =>
    match consoleKeyboardCallback t.console key ascii with
    | .ok (_, console) => .ok ⟨console, t.editor.press (consoleKey key ascii), t.executed⟩
    | .error err => .error err
  | .update =>
    match consoleUpdate t.console with
    | .ok (cmd, console) => .ok ⟨console, t.editor, t.executed ++ cmd.toList⟩
    | .error err => .error err

/-- The step relation of a run: an event that makes no access past the end of a buffer. Keys and
updates come in any order. -/
def Step (t : ConsoleTalk) (op : ConsoleOp) (u : ConsoleTalk) : Prop := t.step op = .ok u

/-- What has been executed is what was entered, in order, and the next update brings it up to
date. -/
def LinesKept (t : ConsoleTalk) : Prop :=
  t.executed <+: t.editor.entered ∧ ∃ u, t.Step .update u ∧ u.executed = u.editor.entered

/-- Between Enter and the update nothing is entered or typed, there is nothing before the cursor
to erase and nothing in the history to recall. -/
def Waits (t : ConsoleTalk) : ConsoleOp → Prop
  | .update => True
  | .key key ascii =>
    t.console.inputReady = true →
      match consoleKey key ascii with
      | .enter | .character _ => False
      | .backspace => t.console.inputPosition = 0
      | .up => t.console.historyCount = 0
      | .down | .home | .left | .other => True

/-- A step that waits. -/
def WaitingStep (t : ConsoleTalk) (op : ConsoleOp) (u : ConsoleTalk) : Prop :=
  t.Waits op ∧ t.Step op u

/-- All that was entered has been executed: no line waits for an update, and the line that is being
edited is in the buffer as the editor has it. -/
structure Idle (t : ConsoleTalk) : Prop where
  ready : t.console.inputReady = false
  tracks : Tracks t.console t.editor
  executed : t.executed = t.editor.entered

/-- The last line is in the buffer, and the next one is empty. -/
structure Pending (t : ConsoleTalk) (line : List UInt8) : Prop where
  ready : t.console.inputReady = true
  inv : ConsoleInv t.console t.editor.submitted
  position : t.console.historyPosition = -1
  holds : Holds t.console.inputBuffer line
  empty : t.editor.line = []
  recalled : t.editor.recalled = 0
  executed : t.executed ++ [line] = t.editor.entered

/-- The invariant of a run that waits. -/
def Inv (t : ConsoleTalk) : Prop := t.Idle ∨ ∃ line, t.Pending line

end ConsoleTalk

namespace ConsoleTalk

variable {t u : ConsoleTalk} {line : List UInt8} {key : UInt16} {ascii : UInt8}

theorem start_idle : start.Idle where
  ready := rfl
  tracks := ⟨consoleInit_inv, rfl, Nat.le_refl 0, rfl⟩
  executed := rfl

theorem step_key {k : ConsoleKey} {out : List UInt8} {c : Console}
    (hkey : consoleKey key ascii = k) (h : consolePress t.console k = .ok (out, c)) :
    t.Step (.key key ascii) ⟨c, t.editor.press k, t.executed⟩ := by
  rw [Step, step, consoleKeyboardCallback_eq, hkey, h]

/-- An update executes the string in the buffer. -/
theorem step_update_ready {submitted : List (List UInt8)} (h : ConsoleInv t.console submitted)
    (hready : t.console.inputReady = true) (hholds : Holds t.console.inputBuffer line) :
    t.Step .update ⟨t.console.clear, t.editor, t.executed ++ [line]⟩ := by
  obtain ⟨l, hl, hlen⟩ := h.holds_buffer
  obtain rfl := hholds.unique hl
  rw [Step, step, consoleUpdate, if_pos hready, strlen_of_holds hl (Nat.lt_succ_of_le hlen)]
  dsimp only
  rw [hl.text, Option.toList_some]
  rfl

/-- Without one it executes nothing. -/
theorem step_update_idle (hready : t.console.inputReady = false) : t.Step .update t := by
  have hnot : ¬t.console.inputReady = true := by rw [hready]; exact Bool.false_ne_true
  rw [Step, step, consoleUpdate, if_neg hnot]
  dsimp only
  rw [Option.toList_none, List.append_nil]

theorem Pending.update (h : t.Pending line) : ∃ u, t.Step .update u ∧ u.Idle :=
  ⟨_, step_update_ready h.inv h.ready h.holds,
    { ready := rfl
      tracks :=
        { inv := h.inv.clear
          line := h.empty.symm
          recalled_le := h.recalled.trans_le (Nat.zero_le _)
          position := by rw [h.recalled]; exact h.position }
      executed := h.executed }⟩

theorem Inv.linesKept (h : t.Inv) : t.LinesKept := by
  rcases h with h | ⟨line, h⟩
  · exact ⟨h.executed ▸ List.prefix_refl _, t, step_update_idle h.ready, h.executed⟩
  · obtain ⟨u, hstep, hidle⟩ := h.update
    exact ⟨⟨[line], h.executed⟩, u, hstep, hidle.executed⟩

/-- A key before Enter, or Enter itself. -/
theorem Idle.press (h : t.Idle) (key : UInt16) (ascii : UInt8) :
    ∃ u, t.Step (.key key ascii) u ∧ u.Inv := by
  by_cases henter : consoleKey key ascii = .enter
  · obtain ⟨out, c, heq, hentered⟩ := consoleEnter_entered h.tracks.inv
    refine ⟨_, step_key henter heq, Or.inr ⟨t.editor.line, ?_⟩⟩
    exact {
      ready := hentered.ready
      inv := h.tracks.submit_eq ▸ hentered.inv
      position := hentered.position
      holds := h.tracks.line ▸ hentered.holds
      empty := rfl
      recalled := rfl
      executed := congrArg (· ++ [t.editor.line]) h.executed }
  · obtain ⟨out, c, heq, htracks, hready⟩ := consolePress_tracks h.tracks henter
      fun ch hch => ne_zero_of_consoleKey hch
    refine ⟨_, step_key rfl heq, Or.inl ⟨hready.trans h.ready, htracks, ?_⟩⟩
    rw [h.executed]
    exact (LineEditor.entered_press henter).symm

/-- A key after which the buffer and the editor are as they were. -/
theorem Pending.press_kept (h : t.Pending line) {k : ConsoleKey} {out : List UInt8} {c : Console}
    (hkey : consoleKey key ascii = k) (hpress : consolePress t.console k = .ok (out, c))
    (hinv : ConsoleInv c t.editor.submitted) (hedited : Edited t.console c)
    (hbuffer : c.inputBuffer = t.console.inputBuffer) (heditor : t.editor.press k = t.editor) :
    ∃ u, t.Step (.key key ascii) u ∧ u.Pending line := by
  refine ⟨_, step_key hkey hpress, ?_⟩
  rw [heditor]
  exact ⟨hedited.ready.trans h.ready, hinv, hedited.position.trans h.position,
    hbuffer ▸ h.holds, h.empty, h.recalled, h.executed⟩

/-- A key that does nothing. -/
theorem Pending.press_idle (h : t.Pending line) {k : ConsoleKey} (hkey : consoleKey key ascii = k)
    (hpress : consolePress t.console k = .ok ([], t.console))
    (heditor : t.editor.press k = t.editor) :
    ∃ u, t.Step (.key key ascii) u ∧ u.Pending line :=
  h.press_kept hkey hpress h.inv ⟨rfl, rfl, rfl⟩ rfl heditor

theorem consoleLeft_inputBuffer (c : Console) :
    (consoleLeft c).2.inputBuffer = c.inputBuffer := by
  rw [consoleLeft]
  split_ifs
  · rfl
  · rfl

/-- A key that waits leaves the line in the buffer, and the next one empty. -/
theorem Pending.press (h : t.Pending line) (hwaits : t.Waits (.key key ascii)) :
    ∃ u, t.Step (.key key ascii) u ∧ u.Pending line := by
  have hwaits := hwaits h.ready
  have hnone : { t.editor with line := [] } = t.editor := by rw [← h.empty]
  have herased : { t.editor with line := t.editor.line.dropLast } = t.editor := by
    rw [h.empty]
    exact hnone
  cases hkey : consoleKey key ascii with
  | enter => rw [hkey] at hwaits; exact hwaits.elim
  | character ch => rw [hkey] at hwaits; exact hwaits.elim
  | backspace =>
    rw [hkey] at hwaits
    have hstart : ¬0 < t.console.inputPosition := Nat.not_lt.mpr (Nat.le_zero.mpr hwaits)
    refine h.press_idle hkey ?_ herased
    rw [consolePress, consoleBackspace, if_neg hstart]
  | up =>
    rw [hkey] at hwaits
    have hcount : lastTen t.editor.submitted = [] :=
      List.eq_nil_of_length_eq_zero (h.inv.historyCount_eq.symm.trans hwaits)
    exact h.press_idle hkey (if_neg (Nat.not_lt.mpr (Nat.le_zero.mpr hwaits))) (if_pos hcount)
  | down => exact h.press_idle hkey (if_neg (not_not.mpr h.position)) (if_pos h.recalled)
  | home =>
    have hpress : consolePress t.console .home = .ok (consoleHome t.console) := rfl
    exact h.press_kept hkey hpress (h.inv.setPosition (Nat.zero_le _)) ⟨rfl, rfl, rfl⟩ rfl hnone
  | left =>
    have hpress : consolePress t.console .left = .ok (consoleLeft t.console) := rfl
    exact h.press_kept hkey hpress (consoleLeft_inv h.inv) (consoleLeft_edited t.console)
      (consoleLeft_inputBuffer t.console) herased
  | other => exact h.press_idle hkey rfl rfl

/-- **A step that waits keeps the invariant.** -/
theorem Inv.step (h : t.Inv) {op : ConsoleOp} (hwaits : t.Waits op) :
    ∃ u, t.Step op u ∧ u.Inv := by
  cases op with
  | update =>
    rcases h with h | ⟨line, h⟩
    · exact ⟨t, step_update_idle h.ready, Or.inl h⟩
    · obtain ⟨u, hstep, hidle⟩ := h.update
      exact ⟨u, hstep, Or.inl hidle⟩
  | key key ascii =>
    rcases h with h | ⟨line, h⟩
    · exact h.press key ascii
    · obtain ⟨u, hstep, hpending⟩ := h.press hwaits
      exact ⟨u, hstep, Or.inr ⟨line, hpending⟩⟩

theorem Inv.reaches (h : t.Inv) (hreaches : Reaches WaitingStep t u) : u.Inv := by
  refine hreaches.invariant h fun a op b ha hab => ?_
  obtain ⟨v, hstep, hv⟩ := ha.step hab.1
  rwa [Except.ok.inj (hab.2.symm.trans hstep)]

/-! ### Steps that do not wait -/

/-- With nothing in the buffer, an Enter and an update show whether something has been typed. -/
theorem empty_of_linesKept {submitted : List (List UInt8)} (h : ConsoleInv t.console submitted)
    (hready : t.console.inputReady = false) (hposition : t.console.inputPosition = 0)
    (hexecuted : t.executed = t.editor.entered)
    (hkept : ∀ v, Reaches WaitingStep t v → v.LinesKept) : t.editor.line = [] := by
  obtain ⟨out, c, heq, hentered⟩ := consoleEnter_entered h
  have hwaits : t.Waits (.key 10 10) := fun hnot => by
    rw [hready] at hnot
    cases hnot
  have henter : t.Step (.key 10 10) ⟨c, t.editor.press .enter, t.executed⟩ := step_key rfl heq
  obtain ⟨-, v, hstep, hlines⟩ := hkept _ ((Reaches.refl t).tail ⟨hwaits, henter⟩)
  have hupdate := step_update_ready (t := ⟨c, t.editor.press .enter, t.executed⟩) hentered.inv
    hentered.ready hentered.holds
  rw [← Except.ok.inj (hupdate.symm.trans hstep)] at hlines
  have hline : t.executed ++ [t.console.line] = t.editor.entered ++ [t.editor.line] := hlines
  rw [hexecuted, List.append_cancel_left_eq, List.singleton_inj] at hline
  rw [← hline, ← List.length_eq_zero_iff, t.console.length_line, hposition]

/-- With a line in the buffer, an update shows whether it is the last one that was entered; and then
the same holds. -/
theorem pending_of_linesKept {submitted : List (List UInt8)} (h : ConsoleInv u.console submitted)
    (hready : u.console.inputReady = true) (hholds : Holds u.console.inputBuffer line)
    (hkept : ∀ v, Reaches WaitingStep u v → v.LinesKept) :
    u.executed ++ [line] = u.editor.entered ∧ u.editor.line = [] := by
  have hupdate := step_update_ready h hready hholds
  have hlines : u.executed ++ [line] = u.editor.entered := by
    obtain ⟨-, v, hstep, hexecuted⟩ := hkept u (Reaches.refl u)
    rwa [← Except.ok.inj (hupdate.symm.trans hstep)] at hexecuted
  have hwaits : u.Waits .update := trivial
  exact ⟨hlines, empty_of_linesKept (t := ⟨u.console.clear, u.editor, u.executed ++ [line]⟩)
    h.clear rfl rfl hlines fun v hv => hkept v (hv.head ⟨hwaits, hupdate⟩)⟩

/-- What is seen of a key: the line in the buffer and the line of the editor. -/
theorem key_of_linesKept (hstep : t.Step (.key key ascii) u)
    (hkept : ∀ v, Reaches WaitingStep u v → v.LinesKept) {k : ConsoleKey}
    (hkey : consoleKey key ascii = k) {out l : List UInt8} {c : Console}
    {submitted : List (List UInt8)} (hpress : consolePress t.console k = .ok (out, c))
    (hinv : ConsoleInv c submitted) (hready : c.inputReady = true) (hl : Holds c.inputBuffer l) :
    t.executed ++ [l] = (t.editor.press k).entered ∧ (t.editor.press k).line = [] := by
  obtain rfl := Except.ok.inj ((step_key hkey hpress).symm.trans hstep)
  exact pending_of_linesKept hinv hready hl hkept

/-- A backspace changes the line that is to be executed: where it has a character, the buffer now
has a zero. -/
theorem Pending.erases (h : t.Pending line) (hpos : 0 < t.console.inputPosition) :
    ¬Holds (consoleBackspace t.console).2.inputBuffer line := by
  intro hl
  have hlength : t.console.inputPosition ≤ line.length :=
    not_lt.mp fun hlt => h.inv.nonzero _ hlt h.holds.null
  refine hl.ne_zero (k := t.console.inputPosition - 1) (by omega) ?_
  rw [consoleBackspace, if_pos hpos]
  exact Function.update_self ..

/-- A line that is recalled is not empty. -/
theorem Pending.recalls (h : t.Pending line) (hpos : 0 < t.console.historyCount) :
    (t.editor.press .up).line ≠ [] := by
  have hcount := h.inv.historyCount_eq
  have hhistory : lastTen t.editor.submitted ≠ [] := List.ne_nil_of_length_pos (hcount ▸ hpos)
  rw [LineEditor.press, if_neg hhistory]
  have hentry := t.editor.choose_line (r := min (t.editor.recalled + 1) _) (by omega)
    (Nat.min_le_right ..)
  exact (h.inv.lines _ (mem_of_mem_lastTen (List.mem_of_getElem? hentry))).1

/-- A key that does not wait is seen, at the latest when the next line is entered and executed. -/
theorem Pending.waits_of_linesKept (h : t.Pending line) (hstep : t.Step (.key key ascii) u)
    (hkept : ∀ v, Reaches WaitingStep u v → v.LinesKept) : t.Waits (.key key ascii) := by
  intro _
  cases hkey : consoleKey key ascii with
  | enter =>
    obtain ⟨out, c, heq, hentered⟩ := consoleEnter_entered h.inv
    obtain ⟨hlines, -⟩ :=
      key_of_linesKept hstep hkept hkey heq hentered.inv hentered.ready hentered.holds
    have hlen := congrArg List.length hlines
    rw [LineEditor.press, ← h.executed] at hlen
    simp at hlen
  | character ch =>
    have hinv := consoleType_inv h.inv (ne_zero_of_consoleKey hkey)
    obtain ⟨l, hl, -⟩ := hinv.holds_buffer
    have hpress : consolePress t.console (.character ch) = .ok (consoleType t.console ch) := rfl
    obtain ⟨-, hempty⟩ := key_of_linesKept hstep hkept hkey hpress hinv
      ((consoleType_edited t.console ch).ready.trans h.ready) hl
    rw [LineEditor.press, h.empty] at hempty
    cases hempty
  | backspace =>
    have hinv := consoleBackspace_inv h.inv
    obtain ⟨l, hl, -⟩ := hinv.holds_buffer
    have hpress : consolePress t.console .backspace = .ok (consoleBackspace t.console) := rfl
    obtain ⟨hlines, -⟩ := key_of_linesKept hstep hkept hkey hpress hinv
      ((consoleBackspace_edited t.console).ready.trans h.ready) hl
    have hboth := hlines.trans h.executed.symm
    rw [List.append_cancel_left_eq, List.singleton_inj] at hboth
    exact Nat.eq_zero_of_not_pos fun hpos => h.erases hpos (hboth ▸ hl)
  | up =>
    refine Nat.eq_zero_of_not_pos fun hpos => h.recalls hpos ?_
    obtain ⟨out, c, heq, hrecalled⟩ := consoleUp_recalled h.inv hpos
    obtain ⟨l, hl, -⟩ := hrecalled.inv.holds_buffer
    exact (key_of_linesKept hstep hkept hkey heq hrecalled.inv
      (hrecalled.ready.trans h.ready) hl).2
  | down => trivial
  | home => trivial
  | left => trivial
  | other => trivial

end ConsoleTalk

open ConsoleTalk

/-- **Every line that is entered is executed once, in order and as it was typed,** in every run in
which the keys wait; and a key that does not is followed by a run of waiting steps in which some
line is not. -/
theorem console_lines {t : ConsoleTalk} (h : Reaches WaitingStep start t) :
    t.LinesKept ∧ ∀ op, t.Waits op ↔
      ∃ u, t.Step op u ∧ ∀ v, Reaches WaitingStep u v → v.LinesKept := by
  have hstart : start.Inv := Or.inl start_idle
  have hinv := hstart.reaches h
  refine ⟨hinv.linesKept, fun op => ⟨fun hwaits => ?_, ?_⟩⟩
  · obtain ⟨u, hstep, hu⟩ := hinv.step hwaits
    exact ⟨u, hstep, fun v hv => (hu.reaches hv).linesKept⟩
  · rintro ⟨u, hstep, hkept⟩
    cases op with
    | update => trivial
    | key key ascii =>
      rcases hinv with hidle | ⟨line, hpending⟩
      · exact fun hready => nomatch hidle.ready.symm.trans hready
      · exact hpending.waits_of_linesKept hstep hkept

/-- The letter `a` is typed. -/
def talkTyped : ConsoleTalk := ⟨(consoleType consoleInit 97).2, ⟨[97], [], 0⟩, []⟩

theorem talkTyped_step : WaitingStep start (.key 97 97) talkTyped :=
  ⟨fun hready => (nomatch hready), rfl⟩

theorem eq_ok_of_toOption {ε α : Type*} {x : Except ε α} {a : α} (h : x.toOption = some a) :
    x = .ok a := by
  cases x with
  | error err => cases h
  | ok b => exact congrArg Except.ok (Option.some_inj.mp h)

/-- The line `a` is entered, and the update executes it. -/
theorem console_lines_entered : ∃ t, Reaches WaitingStep start t ∧ t.executed = [[97]] ∧
    t.LinesKept ∧ ∀ op, t.Waits op ↔
      ∃ u, t.Step op u ∧ ∀ v, Reaches WaitingStep u v → v.LinesKept := by
  have hsteps : ((talkTyped.step (.key 10 10)).toOption.bind fun u =>
      (u.step .update).toOption).map (fun t => t.executed) = some [[97]] := by
    decide +kernel
  obtain ⟨t, ht, hexecuted⟩ := Option.map_eq_some_iff.mp hsteps
  obtain ⟨u, hu, ht⟩ := Option.bind_eq_some_iff.mp ht
  have hentered : WaitingStep talkTyped (.key 10 10) u :=
    ⟨fun hready => absurd hready (by decide), eq_ok_of_toOption hu⟩
  have hupdated : WaitingStep u .update t := ⟨trivial, eq_ok_of_toOption ht⟩
  have hrun : Reaches WaitingStep start t :=
    (((Reaches.refl _).tail talkTyped_step).tail hentered).tail hupdated
  exact ⟨t, hrun, hexecuted, console_lines hrun⟩

/-- The lines `a` and `b` are entered before the update: they are executed as one line `ab`. -/
theorem not_linesKept_merged : ∃ t, Reaches ConsoleTalk.Step start t ∧
    t.editor.entered = [[97], [98]] ∧ t.executed = [[97, 98]] ∧ ¬t.LinesKept := by
  have hrun : (([.key 97 97, .key 10 10, .key 98 98, .key 10 10, .update] : List ConsoleOp).foldlM
      ConsoleTalk.step start).toOption.map (fun t => (t.editor.entered, t.executed)) =
        some ([[97], [98]], [[97, 98]]) := by
    decide +kernel
  rcases ht : ([.key 97 97, .key 10 10, .key 98 98, .key 10 10, .update] : List ConsoleOp).foldlM
    ConsoleTalk.step start with err | t
  · rw [ht] at hrun
    cases hrun
  rw [ht] at hrun
  obtain ⟨hentered, hexecuted⟩ := Prod.mk.inj (Option.some_inj.mp hrun)
  refine ⟨t, Reaches.of_foldlM ht, hentered, hexecuted, ?_⟩
  rintro ⟨hpre, -⟩
  rw [hentered, hexecuted] at hpre
  exact absurd hpre (by decide)

end Rexus
