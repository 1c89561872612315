import Rexus.Drivers.Keyboard
import Rexus.Lib.CString
import Rexus.Lib.Run

/-!
# The console

`drivers/console.c`: the line that is being typed, the history of ten lines, and the flag that tells
`console_update` that a line has been entered. What the keyboard callback prints is part of its
result; it goes to `vga_putchar`. The callback and `console_update` copy strings without a length,
so a buffer without a null byte would be an error.

## Main results

* `consoleKeyboardCallback_eq` — what a key does, by what it is
* `ne_zero_of_consoleKey` — no zero is typed

## Conventions

A key is what the keyboard delivers together with what `keyboard_scancode_to_ascii` makes of it, and
that function is in `Rexus.Drivers.Keyboard`; the two are arguments of the callback here, so that
the console can be spoken of by itself. `consoleKeyboardCallback_eq` divides the keys into the ones
the callback knows: Enter, Backspace, the arrows and so on, and characters.

The buffers have 256 bytes each and are maps from offsets. Their ends are known to the copies, which
fail where there is no zero before them; that this does not happen is in
`Rexus.Drivers.ConsoleHistory`. The callback runs in the interrupt and `console_update` in the main
loop, and each is one step: that one comes in the middle of the other is not modelled. Setting up
the command table and the welcome are in `Rexus.Core.Shell`.
-/

namespace Rexus

open Bytes Loop Run

/-- `input_buffer`, `input_position`, `input_ready`, `history_buffer`, `history_count` and
`history_position`. A buffer is a function of the index; that no access goes past its end is proved,
or an error where the code may do it. -/
structure Console where
  inputBuffer : ℕ → UInt8
  inputPosition : ℕ
  inputReady : Bool
  historyBuffer : ℕ → ℕ → UInt8
  historyCount : ℕ
  historyPosition : ℤ

/-- What is printed, and the state; or the error of a copy. -/
abbrev Printed := Except StringError (List UInt8 × Console)

/-- `console_init`, but for the command table and the welcome message. -/
def consoleInit : Console := ⟨fun _ => 0, 0, false, fun _ _ => 0, 0, -1⟩

/-! ### Enter -/

/-- The entries of a full history are moved down, and the oldest is gone. -/
def consoleShiftHistory (c : Console) : Except StringError Console :=
  match tryRange
    (fun i history =>
      match strcpy (history i) (history (i + 1)) 256 with
      | .ok d => .ok (Function.update history i d)
      | .error err => .error err)
    9 0 c.historyBuffer with
  | .ok historyBuffer => .ok { c with historyBuffer, historyCount := c.historyCount - 1 }
  | .error err => .error err

/-- The line is added to the history. -/
def consoleAddHistory (c : Console) : Except StringError Console :=
  match if c.historyCount = 10 then consoleShiftHistory c else .ok c with
  | .ok c =>
    match strcpy (c.historyBuffer c.historyCount) c.inputBuffer 256 with
    | .ok d =>
      .ok { c with
        historyBuffer := Function.update c.historyBuffer c.historyCount d
        historyCount := c.historyCount + 1 }
    | .error err => .error err
  | .error err => .error err

/-- The branch for `'\n'` and `'\r'`. -/
def consoleEnter (c : Console) : Printed :=
  let c := { c with inputBuffer := Function.update c.inputBuffer c.inputPosition 0 }
  match if 0 < c.inputPosition then consoleAddHistory c else .ok c with
  | .ok c => .ok ([10], { c with inputReady := true, historyPosition := -1 })
  | .error err => .error err

/-! ### Editing -/

/-- The branch for `'\b'`: the character before the cursor is erased. -/
def consoleBackspace (c : Console) : List UInt8 × Console :=
  if 0 < c.inputPosition then
    ([8, 32, 8], { c with
      inputPosition := c.inputPosition - 1
      inputBuffer := Function.update c.inputBuffer (c.inputPosition - 1) 0 })
  else ([], c)

/-- The branch for the other characters: the last byte of the buffer is left for the zero. -/
def consoleType (c : Console) (ch : UInt8) : List UInt8 × Console :=
  if c.inputPosition < 255 then
    ([ch], { c with
      inputBuffer := Function.update (Function.update c.inputBuffer c.inputPosition ch)
        (c.inputPosition + 1) 0
      inputPosition := c.inputPosition + 1 })
  else ([], c)

/-- `while (input_position > 0)`: the line is erased on the screen. -/
def consoleErase (c : Console) : List UInt8 × Console :=
  ((List.replicate c.inputPosition [8, 32, 8]).flatten, { c with inputPosition := 0 })

/-- `input_position = strlen(input_buffer); vga_puts(input_buffer)`, after this has been printed. -/
def consoleShow (printed : List UInt8) (c : Console) : Printed :=
  match strlen c.inputBuffer 256 with
  | .ok n => .ok (printed ++ slice c.inputBuffer 0 n, { c with inputPosition := n })
  | .error err => .error err

/-- An entry of the history is copied to the input buffer, and shown. -/
def consoleRecall (c : Console) (historyPosition : ℤ) : Printed :=
  let (erased, c) := consoleErase c
  match strcpy c.inputBuffer (c.historyBuffer historyPosition.toNat) 256 with
  | .ok inputBuffer => consoleShow erased { c with inputBuffer, historyPosition }
  | .error err => .error err

/-- The case `KEY_UP`. -/
def consoleUp (c : Console) : Printed :=
  if 0 < c.historyCount then
    consoleRecall c
      (if c.historyPosition = -1 then c.historyCount - 1
      else if 0 < c.historyPosition then c.historyPosition - 1
      else c.historyPosition)
  else .ok ([], c)

/-- The case `KEY_DOWN`. -/
def consoleDown (c : Console) : Printed :=
  if c.historyPosition ≠ -1 then
    if c.historyCount ≤ c.historyPosition + 1 then
      let (erased, c) := consoleErase c
      consoleShow erased { c with
        inputBuffer := Function.update c.inputBuffer 0 0
        historyPosition := -1 }
    else consoleRecall c (c.historyPosition + 1)
  else .ok ([], c)

/-- The case `KEY_HOME`. -/
def consoleHome (c : Console) : List UInt8 × Console :=
  (List.replicate c.inputPosition 8, { c with inputPosition := 0 })

/-- The case `KEY_LEFT`. -/
def consoleLeft (c : Console) : List UInt8 × Console :=
  if 0 < c.inputPosition then ([8], { c with inputPosition := c.inputPosition - 1 }) else ([], c)

/-! ### The callback -/

/-- `console_keyboard_callback`, with what `keyboard_scancode_to_ascii` makes of the key. -/
def consoleKeyboardCallback (c : Console) (key : UInt16) (ascii : UInt8) : Printed :=
  if key &&& keyReleased ≠ 0 then .ok ([], c)
  else if key &&& keySpecial = 0 then
    if ascii ≠ 0 then
      if ascii = 10 ∨ ascii = 13 then consoleEnter c
      else if ascii = 8 then .ok (consoleBackspace c)
      else .ok (consoleType c ascii)
    else .ok ([], c)
  else if key = keyUp then consoleUp c
  else if key = keyDown then consoleDown c
  else if key = keyHome then .ok (consoleHome c)
  else if key = keyLeft then .ok (consoleLeft c)
  else .ok ([], c)

/-- `console_update`, and the line that `console_execute_command` is called with. -/
def consoleUpdate (c : Console) : Except StringError (Option (List UInt8) × Console) :=
  if c.inputReady then
    match strlen c.inputBuffer 256 with
    | .ok n =>
      .ok (some (slice c.inputBuffer 0 n),
        { c with inputBuffer := fun _ => 0, inputPosition := 0, inputReady := false })
    | .error err => .error err
  else .ok (none, c)

/-! ### Keys by what they do -/

/-- What a key is to the console. Which code of `keyboard.h` stands for which is decided before, and
any other key changes nothing. -/
inductive ConsoleKey where
  | enter
  | backspace
  | character (ch : UInt8)
  | up
  | down
  | home
  | left
  | other
  deriving DecidableEq

/-- Which key is it? -/
def consoleKey (key : UInt16) (ascii : UInt8) : ConsoleKey :=
  if key &&& keyReleased ≠ 0 then .other
  else if key &&& keySpecial = 0 then
    if ascii = 0 then .other
    else if ascii = 10 ∨ ascii = 13 then .enter
    else if ascii = 8 then .backspace
    else .character ascii
  else if key = keyUp then .up
  else if key = keyDown then .down
  else if key = keyHome then .home
  else if key = keyLeft then .left
  else .other

/-- The branch of the callback for a key. -/
def consolePress (c : Console) : ConsoleKey → Printed
  | .enter => consoleEnter c
  | .backspace => .ok (consoleBackspace c)
  | .character ch => .ok (consoleType c ch)
  | .up => consoleUp c
  | .down => consoleDown c
  | .home => .ok (consoleHome c)
  | .left => .ok (consoleLeft c)
  | .other => .ok ([], c)

theorem consoleKeyboardCallback_eq (c : Console) (key : UInt16) (ascii : UInt8) :
    consoleKeyboardCallback c key ascii = consolePress c (consoleKey key ascii) := by
  rw [consoleKeyboardCallback, consoleKey]
  split_ifs <;> first | rfl | contradiction

/-- The bytes that are typed are not zero. -/
theorem ne_zero_of_consoleKey {key : UInt16} {ascii ch : UInt8}
    (h : consoleKey key ascii = .character ch) : ch ≠ 0 := by
  rw [consoleKey] at h
  split_ifs at h with _ _ h0
  exact ConsoleKey.character.inj h ▸ h0

end Rexus
