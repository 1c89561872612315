import Rexus.Lib.RingBuffer

/-!
# The keyboard

`drivers/keyboard.c`. A scancode changes the state of the modifiers, and a press puts a key into a
ring of 64 slots, from which `keyboard_read_key` takes it. The callback is called from within
`keyboard_buffer_enqueue`, behind the test for a full ring: a key that is not put into the ring is
not delivered either. So with a reader who does not keep up — the main loop of the kernel has none —
the callback is called for 63 keys, and then no more.

## Main results

* `keyboardBufferEnqueue_eq` — when a key is delivered
* `keyboard_calls_iff` — in which runs every key that is pressed is

## Conventions

The scancodes come one by one, each in an interrupt of its own, and any byte may come: prefixes,
codes that no key has, releases without a press. The state has the modifiers, the flag for the
prefix and the ring. The ring is that of `Lib/RingBuffer.lean` with 64 slots, of which one stays
free.

A key is a word of sixteen bits: a character, or a number for a key without one, with bits for the
modifiers. The callback is set or not, and what it does is left to it; the model gives the keys that
it is called with. Whether and when the reader is called is part of a run.
`keyboard_scancode_to_ascii` reads its tables with the scancode as an index, and a read behind their
ends is an error.
-/

namespace Rexus

/-! ### The tables -/

/-- `scancode_to_ascii_lower`. -/
def scancodeToAsciiLower : List UInt8 :=
  -- from scancode 2 on: 1 to 0, minus, equals, backspace
  [0, 0, 49, 50, 51, 52, 53, 54, 55, 56, 57, 48, 45, 61, 8,
   -- tab, q to p, the brackets, enter
   9, 113, 119, 101, 114, 116, 121, 117, 105, 111, 112, 91, 93, 10,
   -- a to l, semicolon, apostrophe, grave accent
   0, 97, 115, 100, 102, 103, 104, 106, 107, 108, 59, 39, 96,
   -- backslash, z to m, comma, full stop, slash
   0, 92, 122, 120, 99, 118, 98, 110, 109, 44, 46, 47, 0,
   -- asterisk, space
   42, 0, 32, 0]

/-- `scancode_to_ascii_upper`. -/
def scancodeToAsciiUpper : List UInt8 :=
  [0, 0, 33, 64, 35, 36, 37, 94, 38, 42, 40, 41, 95, 43, 8,
   9, 81, 87, 69, 82, 84, 89, 85, 73, 79, 80, 123, 125, 10,
   0, 65, 83, 68, 70, 71, 72, 74, 75, 76, 58, 34, 126,
   0, 124, 90, 88, 67, 86, 66, 78, 77, 60, 62, 63, 0,
   42, 0, 32, 0]

/-! ### The keys -/

/-- `KEY_SPECIAL`. -/
def keySpecial : UInt16 := 0x100

/-- `KEY_SHIFT`. -/
def keyShift : UInt16 := 0x200

/-- `KEY_ALT`. -/
def keyAlt : UInt16 := 0x400

/-- `KEY_CTRL`. -/
def keyCtrl : UInt16 := 0x800

/-- `KEY_CAPSLOCK`. -/
def keyCapslock : UInt16 := 0x1000

/-- `KEY_NUMLOCK`. -/
def keyNumlock : UInt16 := 0x2000

/-- `KEY_SCROLLLOCK`. -/
def keyScrolllock : UInt16 := 0x4000

/-- `KEY_RELEASED`. -/
def keyReleased : UInt16 := 0x8000

/-- `KEY_HOME`. -/
def keyHome : UInt16 := keySpecial ||| 0x05

/-- `KEY_END`. -/
def keyEnd : UInt16 := keySpecial ||| 0x06

/-- `KEY_INSERT`. -/
def keyInsert : UInt16 := keySpecial ||| 0x07

/-- `KEY_DELETE`. -/
def keyDelete : UInt16 := keySpecial ||| 0x08

/-- `KEY_PAGE_UP`. -/
def keyPageUp : UInt16 := keySpecial ||| 0x09

/-- `KEY_PAGE_DOWN`. -/
def keyPageDown : UInt16 := keySpecial ||| 0x0A

/-- `KEY_LEFT`. -/
def keyLeft : UInt16 := keySpecial ||| 0x0B

/-- `KEY_RIGHT`. -/
def keyRight : UInt16 := keySpecial ||| 0x0C

/-- `KEY_UP`. -/
def keyUp : UInt16 := keySpecial ||| 0x0D

/-- `KEY_DOWN`. -/
def keyDown : UInt16 := keySpecial ||| 0x0E

/-! ### The driver -/

/-- `keyboard_state_t`. -/
structure KeyboardState where
  shiftPressed : Bool
  altPressed : Bool
  ctrlPressed : Bool
  capsLock : Bool
  numLock : Bool
  scrollLock : Bool

/-- The variables of `keyboard.c`: `keyboard_state`, the static `extended` of
`keyboard_process_scancode`, `keyboard_buffer` with its two ends, and whether `keyboard_callback`
is set. -/
structure Keyboard where
  state : KeyboardState
  extended : Bool
  buffer : RingBuffer 64 UInt16
  callback : Bool

/-- The ring has a slot: `KEYBOARD_BUFFER_SIZE` is 64. -/
theorem keyboardBufferSize_pos : 0 < 64 := by decide

/-- `keyboard_init`: the flags are cleared but for the num lock, and the ring is emptied. What the
handler has seen of an extended code is not touched. -/
def keyboardInit (k : Keyboard) : Keyboard :=
  { k with
    state := ⟨false, false, false, false, true, false⟩
    buffer := RingBuffer.empty (fun _ => 0) keyboardBufferSize_pos }

/-- `keyboard_register_callback`, of a function. -/
def keyboardRegisterCallback (k : Keyboard) : Keyboard := { k with callback := true }

/-- `keyboard_buffer_enqueue`, with the key the callback is called with, if it is called. -/
def keyboardBufferEnqueue (k : Keyboard) (key : UInt16) : Keyboard × Option UInt16 :=
  match k.buffer.put key with
  | none => (k, none)
  | some buffer => ({ k with buffer }, if k.callback then some key else none)

/-- `keyboard_read_key`: the oldest key of the ring, or `0` if there is none, which is no code of a
key. -/
def keyboardReadKey (k : Keyboard) : UInt16 × Keyboard :=
  match k.buffer.take with
  | none => (0, k)
  | some (key, buffer) => (key, { k with buffer })

/-- The first part of `keyboard_process_scancode`: the keys without a prefix. -/
def keyboardNormalKey (s : KeyboardState) (scancode : UInt8) (keyup : Bool) :
    KeyboardState × UInt16 :=
  if scancode = 0x2A ∨ scancode = 0x36 then ({ s with shiftPressed := !keyup }, keyShift)
  else if scancode = 0x1D then ({ s with ctrlPressed := !keyup }, keyCtrl)
  else if scancode = 0x38 then ({ s with altPressed := !keyup }, keyAlt)
  else if scancode = 0x3A then
    ({ s with capsLock := if keyup then s.capsLock else !s.capsLock }, keyCapslock)
  else if scancode = 0x45 then
    ({ s with numLock := if keyup then s.numLock else !s.numLock }, keyNumlock)
  else if scancode = 0x46 then
    ({ s with scrollLock := if keyup then s.scrollLock else !s.scrollLock }, keyScrolllock)
  else (s, (scancodeToAsciiLower.getD scancode.toNat 0).toUInt16)

/-- The second part: the keys behind the prefix `0xE0`. -/
def keyboardExtendedKey (s : KeyboardState) (scancode : UInt8) (keyup : Bool) :
    KeyboardState × UInt16 :=
  if scancode = 0x1D then ({ s with ctrlPressed := !keyup }, keyCtrl)
  else if scancode = 0x38 then ({ s with altPressed := !keyup }, keyAlt)
  else if scancode = 0x47 then (s, keyHome)
  else if scancode = 0x48 then (s, keyUp)
  else if scancode = 0x49 then (s, keyPageUp)
  else if scancode = 0x4B then (s, keyLeft)
  else if scancode = 0x4D then (s, keyRight)
  else if scancode = 0x4F then (s, keyEnd)
  else if scancode = 0x50 then (s, keyDown)
  else if scancode = 0x51 then (s, keyPageDown)
  else if scancode = 0x52 then (s, keyInsert)
  else if scancode = 0x53 then (s, keyDelete)
  else (s, 0)

/-- `keyboard_process_scancode` up to the last test: what a scancode decodes to, a key, which is
zero if there is none, and whether it is released. -/
def keyboardDecode (k : Keyboard) (scancode : UInt8) : Keyboard × UInt16 × Bool :=
  if scancode = 0xE0 then ({ k with extended := true }, 0, false)
  else
    let keyup : Bool := scancode &&& 0x80 ≠ 0
    let scancode := if keyup then scancode &&& 0x7F else scancode
    if ¬k.extended ∧ scancode.toNat < scancodeToAsciiLower.length then
      match keyboardNormalKey k.state scancode keyup with
      | (state, key) => ({ k with state }, if keyup then key ||| keyReleased else key, keyup)
    else if k.extended then
      match keyboardExtendedKey k.state scancode keyup with
      | (state, key) =>
        ({ k with state, extended := false }, if keyup then key ||| keyReleased else key, keyup)
    else (k, if keyup then keyReleased else 0, keyup)

/-- `keyboard_process_scancode`, which is all that `keyboard_handler` does with the scancode it
reads. -/
def keyboardProcessScancode (k : Keyboard) (scancode : UInt8) : Keyboard × Option UInt16 :=
  match keyboardDecode k scancode with
  | (k, key, keyup) => if key ≠ 0 ∧ ¬keyup then keyboardBufferEnqueue k key else (k, none)

/-- `keyboard_scancode_to_ascii`; `none` is a read past the end of a table. -/
def keyboardScancodeToAscii (s : KeyboardState) (scancode : UInt16) : Option UInt8 :=
  if scancode &&& keySpecial ≠ 0 then some 0
  else
    match scancodeToAsciiLower[(scancode &&& 0xFF).toNat]? with
    | none => none
    | some ascii =>
      if s.shiftPressed ∨ (s.capsLock ∧ 97 ≤ ascii ∧ ascii ≤ 122) then
        scancodeToAsciiUpper[(scancode &&& 0xFF).toNat]?
      else some ascii

/-! ### Runs -/

/-- An interrupt with its scancode, or a call of the reader. A call is made as a whole: no interrupt
comes in the middle of one. -/
inductive KeyboardOp where
  | scancode (b : UInt8)
  | readKey

/-- The state after an event, and the key the callback has been called with. -/
def KeyboardOp.run (k : Keyboard) : KeyboardOp → Keyboard × Option UInt16
  | .scancode b => keyboardProcessScancode k b
  | .readKey => ((keyboardReadKey k).2, none)

/-- The key that is pressed, whatever becomes of it. -/
def KeyboardOp.pressed (k : Keyboard) : KeyboardOp → Option UInt16
  | .scancode b =>
    match keyboardDecode k b with
    | (_, key, keyup) => if key ≠ 0 ∧ ¬keyup then some key else none
  | .readKey => none

/-- The calls of the callback in a run. -/
def keyboardCalls : Keyboard → List KeyboardOp → List UInt16
  | _, [] => []
  | k, op :: ops => (op.run k).2.toList ++ keyboardCalls (op.run k).1 ops

/-- The keys pressed in a run. -/
def keyboardPresses : Keyboard → List KeyboardOp → List UInt16
  | _, [] => []
  | k, op :: ops => (op.pressed k).toList ++ keyboardPresses (op.run k).1 ops

/-- Whenever a key is pressed there is room for it: fewer than 63 keys are pending. -/
def RoomForPresses : Keyboard → List KeyboardOp → Prop
  | _, [] => True
  | k, op :: ops =>
    (op.pressed k ≠ none → k.buffer.items.length < 63) ∧ RoomForPresses (op.run k).1 ops

section

variable {k : Keyboard} {key : UInt16} {op : KeyboardOp}

/-- A key is delivered if there is room for it. -/
theorem keyboardBufferEnqueue_eq (k : Keyboard) (key : UInt16) :
    (keyboardBufferEnqueue k key).2 =
      if k.buffer.items.length < 63 ∧ k.callback then some key else none := by
  have hlt := k.buffer.count_lt
  rw [keyboardBufferEnqueue, RingBuffer.length_items]
  cases hput : k.buffer.put key with
  | none =>
    have hfull := RingBuffer.put_eq_none_iff.mp hput
    exact (if_neg fun h => by omega).symm
  | some buffer =>
    obtain ⟨hroom, -⟩ := RingBuffer.put_eq_some hput
    refine if_congr ⟨fun h => ⟨by omega, h⟩, And.right⟩ rfl rfl

/-- Decoding leaves the ring and the callback alone. -/
theorem keyboardDecode_same (k : Keyboard) (scancode : UInt8) :
    (keyboardDecode k scancode).1.buffer = k.buffer ∧
      (keyboardDecode k scancode).1.callback = k.callback := by
  rw [keyboardDecode]
  dsimp only
  split_ifs <;> exact ⟨rfl, rfl⟩

theorem KeyboardOp.run_callback (k : Keyboard) (op : KeyboardOp) :
    (op.run k).1.callback = k.callback := by
  cases op with
  | scancode b =>
    have hsame := (keyboardDecode_same k b).2
    rw [KeyboardOp.run, keyboardProcessScancode]
    dsimp only
    split_ifs
    · rw [keyboardBufferEnqueue]
      split
      · exact hsame
      · exact hsame
    · exact hsame
  | readKey =>
    rw [KeyboardOp.run, keyboardReadKey]
    split
    · rfl
    · rfl

/-- A key that is pressed is delivered exactly if there is room. -/
theorem KeyboardOp.run_called (hcallback : k.callback = true) (op : KeyboardOp) :
    (op.run k).2 = if k.buffer.items.length < 63 then op.pressed k else none := by
  cases op with
  | scancode b =>
    obtain ⟨hbuffer, hcall⟩ := keyboardDecode_same k b
    rw [KeyboardOp.run, keyboardProcessScancode, KeyboardOp.pressed]
    dsimp only
    split_ifs with hkey hroom hroom
    · rw [keyboardBufferEnqueue_eq, hbuffer, hcall]
      exact if_pos ⟨hroom, hcallback⟩
    · rw [keyboardBufferEnqueue_eq, hbuffer]
      exact if_neg fun h => hroom h.1
    · rfl
    · rfl
  | readKey => exact (ite_self none).symm

/-- No more keys are delivered than are pressed. -/
theorem length_keyboardCalls_le (hcallback : k.callback = true) (ops : List KeyboardOp) :
    (keyboardCalls k ops).length ≤ (keyboardPresses k ops).length := by
  induction ops generalizing k with
  | nil => exact Nat.le_refl 0
  | cons op ops ih =>
    have htail := ih ((op.run_callback k).trans hcallback)
    rw [keyboardCalls, keyboardPresses, List.length_append, List.length_append,
      op.run_called hcallback]
    split_ifs
    · exact Nat.add_le_add_left htail _
    · exact (Nat.zero_add _).trans_le (Nat.le_add_left_of_le htail)

end

/-- **Every key that is pressed is delivered once, in order,** exactly in the runs in which there
is room for each. -/
theorem keyboard_calls_iff (k : Keyboard) (ops : List KeyboardOp) :
    keyboardCalls (keyboardRegisterCallback (keyboardInit k)) ops =
        keyboardPresses (keyboardRegisterCallback (keyboardInit k)) ops ↔
      RoomForPresses (keyboardRegisterCallback (keyboardInit k)) ops := by
  have hcallback : (keyboardRegisterCallback (keyboardInit k)).callback = true := rfl
  generalize keyboardRegisterCallback (keyboardInit k) = k at hcallback
  induction ops generalizing k with
  | nil => exact iff_of_true rfl trivial
  | cons op ops ih =>
    have hnext := (op.run_callback k).trans hcallback
    have htail : keyboardCalls (op.run k).1 ops = keyboardPresses (op.run k).1 ops ↔
      RoomForPresses (op.run k).1 ops := ih _ hnext
    rw [keyboardCalls, keyboardPresses, RoomForPresses, op.run_called hcallback, ← htail]
    split_ifs with hroom
    · rw [List.append_cancel_left_eq]
      exact (and_iff_right fun _ => hroom).symm
    · cases hop : op.pressed k with
      | none => exact (and_iff_right fun h => absurd rfl h).symm
      | some key =>
        -- this key is missing, and none is delivered for it later
        refine iff_of_false (fun h => ?_) fun h => hroom (h.1 (Option.some_ne_none key))
        have hle := length_keyboardCalls_le hnext ops
        have hlen := congrArg List.length h
        rw [Option.toList_none, List.nil_append, Option.toList_some, List.singleton_append,
          List.length_cons] at hlen
        omega

/-- The variables before `keyboard_init`. -/
def keyboardCleared : Keyboard :=
  ⟨⟨false, false, false, false, false, false⟩, false,
    RingBuffer.empty (fun _ => 0) keyboardBufferSize_pos, false⟩

/-- The key `1` is pressed sixty-four times, and nobody reads. -/
theorem not_keyboard_calls_full :
    keyboardCalls (keyboardRegisterCallback (keyboardInit keyboardCleared))
        (List.replicate 64 (.scancode 0x02)) ≠
      keyboardPresses (keyboardRegisterCallback (keyboardInit keyboardCleared))
        (List.replicate 64 (.scancode 0x02)) := by
  decide +kernel

end Rexus
