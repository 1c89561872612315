import Rexus.Drivers.ConsoleHistory

/-!
# From scancodes to characters

The keyboard decodes a scancode to a character and calls the console with it; the console takes what
it is called with for a scancode and decodes it again. So the digit `1`, which is the character 49,
becomes the letter at scancode 49; and most letters are beyond the tables. No key comes through as
itself.

## Main results

* `keyboardScancodeToAscii_printable` — what the second decoding makes of a character
* `typing_iff` — for which sequences of keys the console gets what is typed

## Conventions

The keys of a run are the ones with printable characters, the shift keys and caps lock, each pressed
or released, in any order; and the reader of the ring may be called at any time. What is typed is
said by the modifiers and the tables of the keyboard alone: the character in the lower or the upper
table at the scancode. The console begins with an empty line.

A read past the end of a table is an error, and the run has no result from there on. To be typed
right is to have no such error and to have, in the end, the line that was typed; a sequence in which
no character is typed is right, and every other is not.
-/

namespace Rexus

open Bytes

/-! ### What is typed -/

/-- A press of a key with a printable character. -/
def Printable (b : UInt8) : Prop :=
  ∃ ch, scancodeToAsciiLower[b.toNat]? = some ch ∧ 32 ≤ ch ∧ ch ≤ 126

/-- A press or a release of such a key, of a shift key or of caps lock. -/
def TypingKey (b : UInt8) : Prop :=
  Printable (b &&& 0x7F) ∨ b &&& 0x7F = 0x2A ∨ b &&& 0x7F = 0x36 ∨ b &&& 0x7F = 0x3A

instance (b : UInt8) : Decidable (Printable b) :=
  decidable_of_iff (∃ ch ∈ scancodeToAsciiLower[b.toNat]?, 32 ≤ ch ∧ ch ≤ 126) Iff.rfl

/-- The keys that are held, and the lock, as the person at the keyboard has them, which the flags of
the driver follow only for some sequences. -/
structure Modifiers where
  leftShift : Bool
  rightShift : Bool
  capsLock : Bool

namespace Modifiers

/-- After a scancode. -/
def after (m : Modifiers) (b : UInt8) : Modifiers :=
  if b = 0x2A then { m with leftShift := true }
  else if b = 0xAA then { m with leftShift := false }
  else if b = 0x36 then { m with rightShift := true }
  else if b = 0xB6 then { m with rightShift := false }
  else if b = 0x3A then { m with capsLock := !m.capsLock }
  else m

/-- The character of a key: upper when shift is held, or caps lock is on and it is a letter. -/
def character (m : Modifiers) (b : UInt8) : UInt8 :=
  let lower := scancodeToAsciiLower.getD b.toNat 0
  if m.leftShift ∨ m.rightShift ∨ m.capsLock ∧ 97 ≤ lower ∧ lower ≤ 122 then
    scancodeToAsciiUpper.getD b.toNat 0
  else lower

end Modifiers

/-- What is typed in a run. -/
def typedText : Modifiers → List KeyboardOp → List UInt8
  | _, [] => []
  | m, .scancode b :: ops =>
    (if Printable b then [m.character b] else []) ++ typedText (m.after b) ops
  | m, .readKey :: ops => typedText m ops

/-! ### What the console gets -/

/-- The keyboard and the console, whose callback the keyboard calls as soon as it has decoded a key,
before the interrupt is over. -/
structure Typing where
  keyboard : Keyboard
  console : Console

namespace Typing

/-- The callback is called with a key. `none` is a read past the end of a table, or a string
without an end. -/
def deliver (t : Typing) (key : UInt16) : Option Typing :=
  if key &&& keyReleased ≠ 0 then some t
  else
    match keyboardScancodeToAscii t.keyboard.state key with
    | none => none
    | some ascii =>
      match consoleKeyboardCallback t.console key ascii with
      | .ok (_, console) => some { t with console }
      | .error _ => none

/-- One event: what the keyboard has decoded goes to the callback of the console at once. With
`none` the console has made an access past the end of a buffer. -/
def step (t : Typing) (op : KeyboardOp) : Option Typing :=
  match op.run t.keyboard with
  | (keyboard, none) => some { t with keyboard }
  | (keyboard, some key) => deliver { t with keyboard } key

/-- One event after the other. -/
def run : Typing → List KeyboardOp → Option Typing
  | t, [] => some t
  | t, op :: ops =>
    match t.step op with
    | some t => t.run ops
    | none => none

/-- No read is past the end of a table, and what is typed gets to the input buffer. -/
def TypedRight (t : Typing) (m : Modifiers) (ops : List KeyboardOp) : Prop :=
  ∃ u, t.run ops = some u ∧ u.console.line = typedText m ops

end Typing

/-! ### The keyboard -/

section

variable {k : Keyboard} {b : UInt8} {key : UInt16}

/-- What a press without a release decodes to. -/
theorem keyboardDecode_pressed (h : (keyboardDecode k b).2 = (key, false)) (h0 : key ≠ 0) :
    b &&& 0x80 = 0 ∧ (key = (keyboardNormalKey k.state b false).2 ∨
      key = (keyboardExtendedKey k.state b false).2) := by
  rw [keyboardDecode] at h
  by_cases hpre : b = 0xE0
  · rw [if_pos hpre] at h
    exact absurd (Prod.mk.inj h).1.symm h0
  rw [if_neg hpre] at h
  by_cases hup : b &&& 0x80 = 0
  · rw [show decide (b &&& 0x80 ≠ 0) = false from decide_eq_false (not_not.mpr hup)] at h
    simp only [Bool.false_eq_true, if_false] at h
    refine ⟨hup, ?_⟩
    split_ifs at h
    · exact Or.inl (Prod.mk.inj h).1.symm
    · exact Or.inr (Prod.mk.inj h).1.symm
    · exact absurd (Prod.mk.inj h).1.symm h0
  · rw [show decide (b &&& 0x80 ≠ 0) = true from decide_eq_true hup] at h
    simp only [if_true] at h
    split_ifs at h
    · cases (Prod.mk.inj h).2
    · cases (Prod.mk.inj h).2
    · cases (Prod.mk.inj h).2

/-- A key that is delivered is a press, of a key with or without a prefix. -/
theorem keyboardProcessScancode_some (h : (keyboardProcessScancode k b).2 = some key) :
    key ≠ 0 ∧ b &&& 0x80 = 0 ∧ (key = (keyboardNormalKey k.state b false).2 ∨
      key = (keyboardExtendedKey k.state b false).2) := by
  rw [keyboardProcessScancode] at h
  rcases hdecode : keyboardDecode k b with ⟨k', key', keyup⟩
  rw [hdecode] at h
  dsimp only at h
  split_ifs at h with hpressed
  rw [keyboardBufferEnqueue_eq] at h
  split_ifs at h
  obtain rfl := Option.some_inj.mp h
  refine ⟨hpressed.1, keyboardDecode_pressed (k := k) ?_ hpressed.1⟩
  rw [hdecode, Bool.eq_false_iff.mpr hpressed.2]

theorem printable_lt (h : Printable b) : b.toNat < 59 := by
  obtain ⟨ch, hch, -⟩ := h
  exact (List.getElem?_eq_some_iff.mp hch).1

/-- A fact about the printable keys, checked for each. -/
theorem printable_all {p : UInt8 → Prop}
    (h : ∀ n < 59, Printable (UInt8.ofNat n) → p (UInt8.ofNat n)) (hb : Printable b) : p b := by
  have hp := h b.toNat (printable_lt hb)
  rw [UInt8.ofNat_toNat] at hp
  exact hp hb

/-- Behind a prefix a printable key is none. -/
theorem printable_key (hb : Printable b) (s : KeyboardState) :
    (keyboardNormalKey s b false).2 = (scancodeToAsciiLower.getD b.toNat 0).toUInt16 ∧
      (keyboardExtendedKey s b false).2 = 0 := by
  have hcodes : b ∉ ([0x2A, 0x36, 0x1D, 0x38, 0x3A, 0x45, 0x46, 0x47, 0x48, 0x49, 0x4B, 0x4D, 0x4F,
      0x50, 0x51, 0x52, 0x53] : List UInt8) :=
    printable_all (p := (· ∉ _)) (by decide) hb
  simp only [List.mem_cons, not_or] at hcodes
  simp only [keyboardNormalKey, keyboardExtendedKey, hcodes, or_self, if_false, and_self]

/-- A printable key is delivered as its character, if it is. -/
theorem keyboardProcessScancode_printable (hb : Printable b)
    (h : (keyboardProcessScancode k b).2 = some key) :
    key = (scancodeToAsciiLower.getD b.toNat 0).toUInt16 := by
  obtain ⟨h0, -, hkey⟩ := keyboardProcessScancode_some h
  obtain ⟨hnormal, hextended⟩ := printable_key hb k.state
  rcases hkey with hkey | hkey
  · exact hkey.trans hnormal
  · exact absurd (hkey.trans hextended) h0

/-- The character of a key is neither a release nor special. -/
theorem printable_flags (hb : Printable b) :
    (scancodeToAsciiLower.getD b.toNat 0).toUInt16 &&& keyReleased = 0 ∧
      (scancodeToAsciiLower.getD b.toNat 0).toUInt16 &&& keySpecial = 0 :=
  printable_all (p := fun b => (scancodeToAsciiLower.getD b.toNat 0).toUInt16 &&& keyReleased = 0 ∧
    (scancodeToAsciiLower.getD b.toNat 0).toUInt16 &&& keySpecial = 0) (by decide) hb

/-- Decoded once more, it is no control character and no character of this key. -/
theorem keyboardScancodeToAscii_printable (hb : Printable b) (s : KeyboardState) :
    ∀ ascii ∈ keyboardScancodeToAscii s (scancodeToAsciiLower.getD b.toNat 0).toUInt16,
      ascii ∉ ([8, 10, 13, scancodeToAsciiLower.getD b.toNat 0,
        scancodeToAsciiUpper.getD b.toNat 0] : List UInt8) := by
  have hstate : ∀ shift caps : Bool,
      ∀ ascii ∈ keyboardScancodeToAscii ⟨shift, false, false, caps, false, false⟩
          (scancodeToAsciiLower.getD b.toNat 0).toUInt16,
        ascii ∉ ([8, 10, 13, scancodeToAsciiLower.getD b.toNat 0,
          scancodeToAsciiUpper.getD b.toNat 0] : List UInt8) :=
    printable_all (p := fun b => ∀ shift caps : Bool,
      ∀ ascii ∈ keyboardScancodeToAscii ⟨shift, false, false, caps, false, false⟩
          (scancodeToAsciiLower.getD b.toNat 0).toUInt16,
        ascii ∉ ([8, 10, 13, scancodeToAsciiLower.getD b.toNat 0,
          scancodeToAsciiUpper.getD b.toNat 0] : List UInt8)) (by decide +kernel) hb
  exact hstate s.shiftPressed s.capsLock

/-- Shift and caps lock are delivered as themselves, and a release is not. -/
theorem keyboardProcessScancode_modifier (hb : TypingKey b) (hnot : ¬Printable b)
    (h : (keyboardProcessScancode k b).2 = some key) : key = keyShift ∨ key = keyCapslock := by
  obtain ⟨h0, hdown, hkey⟩ := keyboardProcessScancode_some h
  have hpress : b &&& 0x7F = b := by
    have hall : ∀ n < 256, UInt8.ofNat n &&& 0x80 = 0 → UInt8.ofNat n &&& 0x7F = UInt8.ofNat n := by
      decide +kernel
    have hb := hall b.toNat b.toNat_lt
    rw [UInt8.ofNat_toNat] at hb
    exact hb hdown
  rw [TypingKey, hpress] at hb
  rcases hb with hb | rfl | rfl | rfl
  · exact absurd hb hnot
  · rcases hkey with hkey | hkey
    · exact Or.inl hkey
    · exact absurd hkey h0
  · rcases hkey with hkey | hkey
    · exact Or.inl hkey
    · exact absurd hkey h0
  · rcases hkey with hkey | hkey
    · exact Or.inr hkey
    · exact absurd hkey h0

/-- They are no characters. -/
theorem keyboardScancodeToAscii_modifier (h : key = keyShift ∨ key = keyCapslock)
    (s : KeyboardState) : keyboardScancodeToAscii s key = some 0 := by
  have hstate : ∀ shift caps : Bool,
      keyboardScancodeToAscii ⟨shift, false, false, caps, false, false⟩ key = some 0 := by
    rcases h with rfl | rfl <;> decide
  exact hstate s.shiftPressed s.capsLock

end

/-! ### The line -/

namespace Typing

variable {t : Typing} {b : UInt8} {m : Modifiers} {ops : List KeyboardOp}

/-- A key that is no character leaves the console alone. -/
theorem deliver_modifier {key : UInt16} (h : key = keyShift ∨ key = keyCapslock) :
    t.deliver key = some t := by
  have hascii := keyboardScancodeToAscii_modifier h t.keyboard.state
  have hflags : key &&& keyReleased = 0 ∧ consoleKey key 0 = .other := by
    rcases h with rfl | rfl <;> decide
  rw [deliver, if_neg (not_not.mpr hflags.1), hascii]
  dsimp only
  rw [consoleKeyboardCallback_eq, hflags.2]
  rfl

/-- A modifier, a release or a call of the reader leaves the console alone. -/
theorem step_other (t : Typing) (op : KeyboardOp)
    (hop : ∀ b, op = .scancode b → TypingKey b ∧ ¬Printable b) :
    ∃ u, t.step op = some u ∧ u.console = t.console := by
  rw [step]
  cases op with
  | readKey => exact ⟨_, rfl, rfl⟩
  | scancode b =>
    obtain ⟨hb, hnot⟩ := hop b rfl
    rcases hrun : KeyboardOp.run t.keyboard (.scancode b) with ⟨k, _ | key⟩
    · exact ⟨_, rfl, rfl⟩
    · have hkey := keyboardProcessScancode_modifier hb hnot (congrArg Prod.snd hrun)
      exact ⟨_, deliver_modifier hkey, rfl⟩

/-- A printable key puts nothing in the line, or a wrong character behind it. -/
theorem step_printable (hb : Printable b) {u : Typing} (h : t.step (.scancode b) = some u) :
    u.console.line = t.console.line ∨ ∃ ch, u.console.line = t.console.line ++ [ch] ∧
      ch ≠ scancodeToAsciiLower.getD b.toNat 0 ∧ ch ≠ scancodeToAsciiUpper.getD b.toNat 0 := by
  rw [step] at h
  rcases hrun : KeyboardOp.run t.keyboard (.scancode b) with ⟨k, _ | key⟩
  · rw [hrun] at h
    exact Or.inl (Option.some_inj.mp h ▸ rfl)
  rw [hrun] at h
  dsimp only at h
  obtain rfl := keyboardProcessScancode_printable hb (congrArg Prod.snd hrun)
  obtain ⟨hdown, hplain⟩ := printable_flags hb
  rw [deliver, if_neg (not_not.mpr hdown)] at h
  dsimp only at h
  cases hascii : keyboardScancodeToAscii k.state (scancodeToAsciiLower.getD b.toNat 0).toUInt16 with
  | none =>
    rw [hascii] at h
    cases h
  | some ascii =>
    have hwrong := keyboardScancodeToAscii_printable hb k.state ascii hascii
    simp only [List.mem_cons, List.not_mem_nil, or_false, not_or] at hwrong
    obtain ⟨h8, h10, h13, hlower, hupper⟩ := hwrong
    rw [hascii] at h
    dsimp only at h
    rw [consoleKeyboardCallback_eq, consoleKey, if_neg (not_not.mpr hdown), if_pos hplain,
      if_neg (not_or.mpr ⟨h10, h13⟩), if_neg h8] at h
    split_ifs at h with h0
    · exact Or.inl (Option.some_inj.mp h ▸ rfl)
    · obtain rfl := Option.some_inj.mp h
      show (consoleType t.console ascii).2.line = t.console.line ∨
        ∃ ch, (consoleType t.console ascii).2.line = t.console.line ++ [ch] ∧ _
      by_cases hroom : t.console.inputPosition < 255
      · exact Or.inr ⟨ascii, consoleType_line hroom ascii, hlower, hupper⟩
      · refine Or.inl ?_
        rw [consoleType, if_neg hroom]

theorem character_eq (m : Modifiers) (b : UInt8) :
    m.character b = scancodeToAsciiLower.getD b.toNat 0 ∨
      m.character b = scancodeToAsciiUpper.getD b.toNat 0 := by
  rw [Modifiers.character]
  split_ifs
  · exact Or.inr rfl
  · exact Or.inl rfl

/-- The line will never be what is typed: it is shorter, or begins with another character. -/
def Wrong (line text : List UInt8) : Prop :=
  line.length < text.length ∨ line.length = text.length ∧ line.head? ≠ text.head?

theorem Wrong.ne {line text : List UInt8} (h : Wrong line text) : line ≠ text := by
  rintro rfl
  rcases h with h | h
  · exact Nat.lt_irrefl _ h
  · exact h.2 rfl

theorem head?_append_of_length {l l' : List UInt8} (h : 0 < l.length) :
    (l ++ l').head? = l.head? := by
  rw [List.head?_append_of_ne_nil _ (List.ne_nil_of_length_pos h)]

/-- One more character of the text, and at most one of the line. -/
theorem Wrong.append {line text l : List UInt8} (h : Wrong line text) (hl : l.length ≤ 1)
    (ch : UInt8) : Wrong (line ++ l) (text ++ [ch]) := by
  rw [Wrong, List.length_append, List.length_append, List.length_singleton]
  rcases h with h | ⟨hlen, hhead⟩
  · exact Or.inl (by omega)
  rcases Nat.lt_or_ge l.length 1 with hlt | hge
  · exact Or.inl (by omega)
  refine Or.inr ⟨by omega, ?_⟩
  have hpos : 0 < line.length := by
    by_contra hzero
    have hline := List.eq_nil_of_length_eq_zero (Nat.eq_zero_of_not_pos hzero)
    have htext : text = [] := List.eq_nil_of_length_eq_zero (by omega)
    exact hhead (by rw [hline, htext])
  rwa [head?_append_of_length hpos, head?_append_of_length (by omega)]

/-- A printable key begins it. -/
theorem wrong_of_printable (hb : Printable b) (hempty : t.console.line = []) {u : Typing}
    (h : t.step (.scancode b) = some u) (m : Modifiers) : Wrong u.console.line [m.character b] := by
  rcases step_printable hb h with hline | ⟨ch, hline, hlower, hupper⟩
  · rw [hline, hempty]
    exact Or.inl Nat.zero_lt_one
  · rw [hline, hempty]
    refine Or.inr ⟨rfl, fun hhead => ?_⟩
    have hch : ch = m.character b := Option.some_inj.mp hhead
    rcases character_eq m b with heq | heq
    · exact hlower (hch.trans heq)
    · exact hupper (hch.trans heq)

/-- And it stays so. -/
theorem Wrong.run {text : List UInt8} (h : Wrong t.console.line text)
    (hkeys : ∀ b, .scancode b ∈ ops → TypingKey b) {u : Typing} (hrun : t.run ops = some u) :
    Wrong u.console.line (text ++ typedText m ops) := by
  induction ops generalizing t m text with
  | nil =>
    rw [run, Option.some_inj] at hrun
    rwa [← hrun, typedText, List.append_nil]
  | cons op ops ih =>
    have hrest : ∀ b, .scancode b ∈ ops → TypingKey b := fun b hb =>
      hkeys b (List.mem_cons_of_mem _ hb)
    rw [run] at hrun
    cases hstep : t.step op with
    | none =>
      rw [hstep] at hrun
      cases hrun
    | some v =>
      rw [hstep] at hrun
      cases op with
      | readKey =>
        obtain ⟨v', hstep', hconsole⟩ := step_other t .readKey nofun
        obtain rfl := Option.some_inj.mp (hstep.symm.trans hstep')
        exact ih (hconsole ▸ h) hrest hrun
      | scancode b =>
        rw [typedText, ← List.append_assoc]
        split_ifs with hb
        · rcases step_printable hb hstep with hline | ⟨ch, hline, -⟩
          · have happend := h.append (l := []) (Nat.zero_le 1) (m.character b)
            rw [List.append_nil, ← hline] at happend
            exact ih happend hrest hrun
          · have happend := h.append (l := [ch]) (Nat.le_refl 1) (m.character b)
            rw [← hline] at happend
            exact ih happend hrest hrun
        · obtain ⟨v', hstep', hconsole⟩ := step_other t (.scancode b) fun b' hb' =>
            KeyboardOp.scancode.inj hb' ▸ ⟨hkeys b List.mem_cons_self, hb⟩
          obtain rfl := Option.some_inj.mp (hstep.symm.trans hstep')
          rw [List.append_nil]
          exact ih (hconsole ▸ h) hrest hrun

end Typing

open Typing

/-- **What is typed gets to the input buffer**, for a sequence of these keys, exactly if no key with
a printable character is pressed. -/
theorem typing_iff {t : Typing} (hempty : t.console.inputPosition = 0) (m : Modifiers)
    {ops : List KeyboardOp} (hkeys : ∀ b, .scancode b ∈ ops → TypingKey b) :
    t.TypedRight m ops ↔ ∀ b, .scancode b ∈ ops → ¬Printable b := by
  have hline : t.console.line = [] := by
    rw [← List.length_eq_zero_iff, t.console.length_line, hempty]
  clear hempty
  induction ops generalizing t m with
  | nil => exact iff_of_true ⟨t, rfl, hline⟩ nofun
  | cons op ops ih =>
    have hrest : ∀ b, .scancode b ∈ ops → TypingKey b := fun b hb =>
      hkeys b (List.mem_cons_of_mem _ hb)
    -- without a character nothing has happened
    have hother : (∀ b, op = .scancode b → ¬Printable b) →
        ∀ m', typedText m (op :: ops) = typedText m' ops →
          (t.TypedRight m (op :: ops) ↔ ∀ b, .scancode b ∈ op :: ops → ¬Printable b) := by
      intro hnot m' htext
      obtain ⟨u, hstep, hconsole⟩ := step_other t op fun b hb =>
        ⟨hkeys b (hb ▸ List.mem_cons_self), hnot b hb⟩
      rw [TypedRight, run, hstep, htext]
      refine (ih m' hrest (hconsole ▸ hline)).trans ⟨fun h b hb => ?_, fun h b hb =>
        h b (List.mem_cons_of_mem _ hb)⟩
      rcases List.mem_cons.mp hb with hb | hb
      · exact hnot b hb.symm
      · exact h b hb
    cases op with
    | readKey => exact hother nofun m rfl
    | scancode b =>
      by_cases hb : Printable b
      · refine iff_of_false ?_ fun h => h b List.mem_cons_self hb
        rintro ⟨u, hrun, hu⟩
        rw [run] at hrun
        cases hstep : t.step (.scancode b) with
        | none =>
          rw [hstep] at hrun
          cases hrun
        | some v =>
          rw [hstep] at hrun
          rw [typedText, if_pos hb] at hu
          exact ((wrong_of_printable hb hline hstep m).run hrest hrun).ne hu
      · refine hother (fun b' hb' => KeyboardOp.scancode.inj hb' ▸ hb) (m.after b) ?_
        rw [typedText, if_neg hb, List.nil_append]

/-- After `keyboard_init` and `console_init`. -/
def typingStart : Typing := ⟨keyboardRegisterCallback (keyboardInit keyboardCleared), consoleInit⟩

/-- The left shift key, and then the key `1`. -/
theorem typing_iff_shift :
    typingStart.TypedRight ⟨false, false, false⟩ [.scancode 0x2A, .scancode 0xAA, .scancode 2] ↔
      ∀ b, .scancode b ∈ [KeyboardOp.scancode 0x2A, .scancode 0xAA, .scancode 2] →
        ¬Printable b :=
  typing_iff rfl _ fun b hb => by
    rcases List.mem_cons.mp hb with hb | hb
    · exact KeyboardOp.scancode.inj hb ▸ Or.inr (Or.inl rfl)
    rcases List.mem_cons.mp hb with hb | hb
    · exact KeyboardOp.scancode.inj hb ▸ Or.inr (Or.inl rfl)
    · have hone : Printable (2 &&& 0x7F) := by decide
      exact KeyboardOp.scancode.inj (List.mem_singleton.mp hb) ▸ Or.inl hone

/-- The key `1` is pressed: the line is the letter `n`. And the key `a`: the read is past the end of
the table. -/
theorem not_typedRight_one :
    (typingStart.run [.scancode 0x02]).map (·.console.line) = some [110] ∧
      typedText ⟨false, false, false⟩ [.scancode 0x02] = [49] ∧
      ¬typingStart.TypedRight ⟨false, false, false⟩ [.scancode 0x02] ∧
      typingStart.run [.scancode 0x1E] = none := by
  have hrun : (typingStart.run [.scancode 0x02]).map (·.console.line) = some [110] := by
    decide +kernel
  have htext : typedText ⟨false, false, false⟩ [.scancode 0x02] = [49] := by decide
  have hpast : (typingStart.run [.scancode 0x1E]).isNone = true := by decide +kernel
  refine ⟨hrun, htext, ?_, Option.isNone_iff_eq_none.mp hpast⟩
  rintro ⟨u, hu, hline⟩
  rw [hu, Option.map_some, hline, htext] at hrun
  exact absurd hrun (by decide)

end Rexus
