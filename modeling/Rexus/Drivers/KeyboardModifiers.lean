import Mathlib.Data.List.Infix
import Mathlib.Logic.Function.Iterate
import Rexus.Drivers.Keyboard

/-!
# The modifiers of the keyboard

What `keyboard_process_scancode` makes of whole codes: a byte, or the prefix `0xE0` and a byte.
Shift, control and alt have two keys each and one flag, which the release of either key clears. The
test for the size of the table keeps the codes of two of the lock keys from the `switch` that
handles them.

## Main results

* `keyboardCode_state` — what a code does to the state
* `modifiersRight_iff` — in which runs the flags say at any time what the keys do

## Conventions

A key is a scancode with or without the prefix, so the two control keys and the two alt keys are
told apart by it. Whether a key is held, and how often a lock has been pressed, is read off the list
of the codes so far, without reference to the flags. `ModifiersRight` compares the two at the end of
such a list; the result asks for it at the end of every prefix of it.

The codes are whole: a prefix is always followed by a byte that is none. Repeated make codes of a
key that is held are codes like any other, and so are releases of keys that were not held. The
lights of the keyboard and the keys that are delivered are not the matter here.
-/

namespace Rexus

/-! ### Codes and keys -/

/-- A code: a byte that is not the prefix, with a prefix before it or not. -/
structure KeyCode where
  prefixed : Bool
  byte : UInt8
  byte_ne : byte ≠ 0xE0

/-- A key, by its prefix and its scancode. -/
structure KeyId where
  prefixed : Bool
  scancode : UInt8
  deriving DecidableEq

namespace KeyCode

/-- The bytes of a code. -/
def bytes (c : KeyCode) : List UInt8 := if c.prefixed then [0xE0, c.byte] else [c.byte]

/-- A break code. -/
def released (c : KeyCode) : Bool := c.byte &&& 0x80 ≠ 0

/-- The key of a code. -/
def key (c : KeyCode) : KeyId where
  prefixed := c.prefixed
  scancode := if c.released then c.byte &&& 0x7F else c.byte

end KeyCode

namespace KeyId

/-- Left shift. -/
def leftShift : KeyId := ⟨false, 0x2A⟩

/-- Right shift. -/
def rightShift : KeyId := ⟨false, 0x36⟩

/-- Left control. -/
def leftControl : KeyId := ⟨false, 0x1D⟩

/-- Right control. -/
def rightControl : KeyId := ⟨true, 0x1D⟩

/-- Left alt. -/
def leftAlt : KeyId := ⟨false, 0x38⟩

/-- Right alt. -/
def rightAlt : KeyId := ⟨true, 0x38⟩

/-- Caps lock. -/
def capsLock : KeyId := ⟨false, 0x3A⟩

/-- Num lock. -/
def numLock : KeyId := ⟨false, 0x45⟩

/-- Scroll lock. -/
def scrollLock : KeyId := ⟨false, 0x46⟩

end KeyId

/-- A key is held whose last code was a make code. -/
def held (key : KeyId) (codes : List KeyCode) : Bool :=
  codes.foldl (fun h c => if c.key = key then !c.released else h) false

/-- How often a key has been made. -/
def makes (key : KeyId) (codes : List KeyCode) : ℕ :=
  codes.countP fun c => c.key = key ∧ c.released = false

/-- The handler on the bytes of a code. -/
def keyboardCode (k : Keyboard) (c : KeyCode) : Keyboard :=
  c.bytes.foldl (fun k b => (keyboardProcessScancode k b).1) k

/-- What the flags should say after these codes: no prefix is pending, a modifier is pressed if one
of its keys is held, and a lock has been flipped once for each make code. -/
structure ModifiersRight (k₀ : Keyboard) (codes : List KeyCode) (k : Keyboard) : Prop where
  extended : k.extended = false
  shift : k.state.shiftPressed = (held .leftShift codes || held .rightShift codes)
  ctrl : k.state.ctrlPressed = (held .leftControl codes || held .rightControl codes)
  alt : k.state.altPressed = (held .leftAlt codes || held .rightAlt codes)
  capsLock : k.state.capsLock = not^[makes .capsLock codes] k₀.state.capsLock
  numLock : k.state.numLock = not^[makes .numLock codes] k₀.state.numLock
  scrollLock : k.state.scrollLock = not^[makes .scrollLock codes] k₀.state.scrollLock

/-- A key of a modifier is not released while the other one is held. -/
def NotWhileOther (key key' : KeyId) (codes : List KeyCode) (c : KeyCode) : Prop :=
  c.released = true →
    (c.key = key → held key' codes = false) ∧ (c.key = key' → held key codes = false)

/-- The codes that are handled as they should, after these: no make code of num lock or scroll lock,
and no break code of a modifier whose other key is held. -/
structure Handled (codes : List KeyCode) (c : KeyCode) : Prop where
  numLock : c.released = false → c.key ≠ .numLock
  scrollLock : c.released = false → c.key ≠ .scrollLock
  shift : NotWhileOther .leftShift .rightShift codes c
  ctrl : NotWhileOther .leftControl .rightControl codes c
  alt : NotWhileOther .leftAlt .rightAlt codes c

/-- What a code does to the flags. Num lock and scroll lock are behind the size of the table. -/
def KeyCode.apply (c : KeyCode) (s : KeyboardState) : KeyboardState where
  shiftPressed :=
    if c.key = .leftShift ∨ c.key = .rightShift then !c.released else s.shiftPressed
  ctrlPressed :=
    if c.key = .leftControl ∨ c.key = .rightControl then !c.released else s.ctrlPressed
  altPressed := if c.key = .leftAlt ∨ c.key = .rightAlt then !c.released else s.altPressed
  capsLock := if c.key = .capsLock ∧ c.released = false then !s.capsLock else s.capsLock
  numLock := s.numLock
  scrollLock := s.scrollLock

variable {k k₀ : Keyboard} {c : KeyCode} {codes : List KeyCode} {key : KeyId}

@[simp] theorem held_concat : held key (codes ++ [c]) =
    if c.key = key then !c.released else held key codes := by
  rw [held, List.foldl_append]
  rfl

@[simp] theorem makes_concat : makes key (codes ++ [c]) =
    makes key codes + if c.key = key ∧ c.released = false then 1 else 0 := by
  rw [makes, List.countP_append, List.countP_singleton]
  simp [makes]

/-! ### One code -/

/-- The handler does to the flags what decoding does. -/
theorem keyboardProcessScancode_state (k : Keyboard) (b : UInt8) :
    (keyboardProcessScancode k b).1.state = (keyboardDecode k b).1.state ∧
      (keyboardProcessScancode k b).1.extended = (keyboardDecode k b).1.extended := by
  rw [keyboardProcessScancode]
  dsimp only
  split_ifs
  · rw [keyboardBufferEnqueue]
    split <;> exact ⟨rfl, rfl⟩
  · exact ⟨rfl, rfl⟩

/-- The keys of the first `switch`, of a scancode inside the table. -/
theorem keyboardNormalKey_state (s : KeyboardState) {scancode : UInt8} (keyup : Bool)
    (h : scancode.toNat < scancodeToAsciiLower.length) :
    (keyboardNormalKey s scancode keyup).1 =
      { s with
        shiftPressed := if scancode = 0x2A ∨ scancode = 0x36 then !keyup else s.shiftPressed
        ctrlPressed := if scancode = 0x1D then !keyup else s.ctrlPressed
        altPressed := if scancode = 0x38 then !keyup else s.altPressed
        capsLock := if scancode = 0x3A ∧ keyup = false then !s.capsLock else s.capsLock } := by
  have hnum : scancode ≠ 0x45 := by
    rintro rfl
    exact absurd h (by decide)
  have hscroll : scancode ≠ 0x46 := by
    rintro rfl
    exact absurd h (by decide)
  by_cases hshift : scancode = 0x2A ∨ scancode = 0x36
  · rcases hshift with rfl | rfl <;> rfl
  by_cases hctrl : scancode = 0x1D
  · subst hctrl
    rfl
  by_cases halt : scancode = 0x38
  · subst halt
    rfl
  by_cases hcaps : scancode = 0x3A
  · subst hcaps
    cases keyup <;> rfl
  rw [keyboardNormalKey]
  simp [hshift, hctrl, halt, hcaps, hnum, hscroll]

/-- The keys of the second. -/
theorem keyboardExtendedKey_state (s : KeyboardState) (scancode : UInt8) (keyup : Bool) :
    (keyboardExtendedKey s scancode keyup).1 =
      { s with
        ctrlPressed := if scancode = 0x1D then !keyup else s.ctrlPressed
        altPressed := if scancode = 0x38 then !keyup else s.altPressed } := by
  rw [keyboardExtendedKey]
  by_cases hctrl : scancode = 0x1D
  · simp [hctrl]
  · by_cases halt : scancode = 0x38
    · simp [halt]
    · simp only [hctrl, halt, if_false, apply_ite Prod.fst, ite_self]

/-- The byte of a code, decoded. -/
theorem keyboardDecode_byte (k : Keyboard) (c : KeyCode) :
    (keyboardDecode k c.byte).1 =
      if k.extended = false ∧ c.key.scancode.toNat < scancodeToAsciiLower.length then
        { k with state := (keyboardNormalKey k.state c.key.scancode c.released).1 }
      else if k.extended = true then
        { k with
          state := (keyboardExtendedKey k.state c.key.scancode c.released).1
          extended := false }
      else k := by
  have hkeyup : decide (c.byte &&& 0x80 ≠ 0) = c.released := rfl
  have hscancode : (if c.released then c.byte &&& 0x7F else c.byte) = c.key.scancode := rfl
  rw [keyboardDecode, if_neg c.byte_ne]
  simp only [hkeyup, hscancode, Bool.not_eq_true]
  split_ifs <;> rfl

theorem KeyCode.key_eq_iff {p : Bool} {scancode : UInt8} :
    c.key = ⟨p, scancode⟩ ↔ c.prefixed = p ∧ c.key.scancode = scancode :=
  Iff.of_eq (KeyId.mk.injEq ..)

/-- **What a code does to the state**, no prefix being pending. -/
theorem keyboardCode_state (hk : k.extended = false) (c : KeyCode) :
    (keyboardCode k c).state = c.apply k.state ∧ (keyboardCode k c).extended = false := by
  have hlen : scancodeToAsciiLower.length = 59 := rfl
  rw [keyboardCode, KeyCode.bytes]
  simp only [KeyCode.apply, KeyId.leftShift, KeyId.rightShift, KeyId.leftControl,
    KeyId.rightControl, KeyId.leftAlt, KeyId.rightAlt, KeyId.capsLock, KeyCode.key_eq_iff]
  cases hprefixed : c.prefixed with
  | false =>
    obtain ⟨hstate, hextended⟩ := keyboardProcessScancode_state k c.byte
    rw [if_neg Bool.false_ne_true, List.foldl_cons, List.foldl_nil, hstate, hextended,
      keyboardDecode_byte]
    by_cases hlt : c.key.scancode.toNat < scancodeToAsciiLower.length
    · rw [if_pos ⟨hk, hlt⟩]
      refine ⟨?_, hk⟩
      rw [keyboardNormalKey_state _ _ hlt]
      simp
    · -- a scancode behind the table is none of the keys
      have hne (scancode : UInt8) (h : scancode.toNat < 59) : c.key.scancode ≠ scancode := by
        rintro rfl
        omega
      rw [if_neg fun h => hlt h.2, if_neg (by rw [hk]; exact Bool.false_ne_true)]
      refine ⟨?_, hk⟩
      simp [hne 0x2A (by decide), hne 0x36 (by decide), hne 0x1D (by decide),
        hne 0x38 (by decide), hne 0x3A (by decide)]
  | true =>
    obtain ⟨hfirst, hpending⟩ := keyboardProcessScancode_state k 0xE0
    have hsame : (keyboardDecode k 0xE0).1 = { k with extended := true } := rfl
    rw [hsame] at hfirst hpending
    obtain ⟨hstate, hextended⟩ :=
      keyboardProcessScancode_state (keyboardProcessScancode k 0xE0).1 c.byte
    rw [if_pos rfl, List.foldl_cons, List.foldl_cons, List.foldl_nil, hstate, hextended,
      keyboardDecode_byte, hpending, if_neg fun h => Bool.false_ne_true h.1.symm, if_pos rfl]
    refine ⟨?_, rfl⟩
    dsimp only
    rw [hfirst, keyboardExtendedKey_state]
    simp

/-! ### Runs -/

/-- A flag with two keys, behind a code. -/
theorem modifier_concat_iff {a b : KeyId} (hab : a ≠ b) :
    (if c.key = a ∨ c.key = b then !c.released else held a codes || held b codes) =
        (held a (codes ++ [c]) || held b (codes ++ [c])) ↔ NotWhileOther a b codes c := by
  rw [NotWhileOther, held_concat, held_concat]
  by_cases ha : c.key = a
  · have hb : c.key ≠ b := fun h => hab (ha.symm.trans h)
    cases c.released <;> simp [ha, hab]
  · by_cases hb : c.key = b
    · cases c.released <;> simp [hb, hab.symm]
    · simp [ha, hb]

/-- A lock that is flipped once more on a condition. -/
theorem iterate_not_add (n : ℕ) (p : Prop) [Decidable p] (b : Bool) :
    not^[n + if p then 1 else 0] b = if p then !not^[n] b else not^[n] b := by
  by_cases hp : p
  · rw [if_pos hp, if_pos hp, Function.iterate_succ_apply']
  · rw [if_neg hp, if_neg hp, Nat.add_zero]

/-- A flag that is not flipped is right if it should not be. -/
theorem eq_ite_not_iff (b : Bool) (p : Prop) [Decidable p] : b = (if p then !b else b) ↔ ¬ p := by
  by_cases hp : p
  · rw [if_pos hp]
    cases b <;> simp [hp]
  · rw [if_neg hp]
    exact iff_of_true rfl hp

/-- **One code**, from flags that are right. -/
theorem ModifiersRight.concat_iff (h : ModifiersRight k₀ codes k) (c : KeyCode) :
    ModifiersRight k₀ (codes ++ [c]) (keyboardCode k c) ↔ Handled codes c := by
  obtain ⟨hstate, hextended⟩ := keyboardCode_state h.extended c
  have hshift : (keyboardCode k c).state.shiftPressed =
      (held .leftShift (codes ++ [c]) || held .rightShift (codes ++ [c])) ↔
      NotWhileOther .leftShift .rightShift codes c := by
    rw [hstate, KeyCode.apply, h.shift]
    exact modifier_concat_iff (by decide)
  have hctrl : (keyboardCode k c).state.ctrlPressed =
      (held .leftControl (codes ++ [c]) || held .rightControl (codes ++ [c])) ↔
      NotWhileOther .leftControl .rightControl codes c := by
    rw [hstate, KeyCode.apply, h.ctrl]
    exact modifier_concat_iff (by decide)
  have halt : (keyboardCode k c).state.altPressed =
      (held .leftAlt (codes ++ [c]) || held .rightAlt (codes ++ [c])) ↔
      NotWhileOther .leftAlt .rightAlt codes c := by
    rw [hstate, KeyCode.apply, h.alt]
    exact modifier_concat_iff (by decide)
  have hcaps : (keyboardCode k c).state.capsLock =
      not^[makes .capsLock (codes ++ [c])] k₀.state.capsLock := by
    rw [hstate, makes_concat, iterate_not_add, ← h.capsLock]
    rfl
  have hnum : (keyboardCode k c).state.numLock =
      not^[makes .numLock (codes ++ [c])] k₀.state.numLock ↔
      (c.released = false → c.key ≠ .numLock) := by
    rw [hstate, makes_concat, iterate_not_add, ← h.numLock, KeyCode.apply, eq_ite_not_iff]
    exact not_and'
  have hscroll : (keyboardCode k c).state.scrollLock =
      not^[makes .scrollLock (codes ++ [c])] k₀.state.scrollLock ↔
      (c.released = false → c.key ≠ .scrollLock) := by
    rw [hstate, makes_concat, iterate_not_add, ← h.scrollLock, KeyCode.apply, eq_ite_not_iff]
    exact not_and'
  constructor
  · intro h'
    exact ⟨hnum.mp h'.numLock, hscroll.mp h'.scrollLock, hshift.mp h'.shift, hctrl.mp h'.ctrl,
      halt.mp h'.alt⟩
  · intro h'
    exact ⟨hextended, hshift.mpr h'.shift, hctrl.mpr h'.ctrl, halt.mpr h'.alt, hcaps,
      hnum.mpr h'.numLock, hscroll.mpr h'.scrollLock⟩

/-- **In which runs the flags say at any time what the keys do**: those all of whose codes are
handled as they should. -/
theorem modifiersRight_iff (k : Keyboard) (hk : k.extended = false) (codes : List KeyCode) :
    (∀ p, p <+: codes →
        ModifiersRight (keyboardInit k) p (p.foldl keyboardCode (keyboardInit k))) ↔
      ∀ p c, p ++ [c] <+: codes → Handled p c := by
  have hstart : ModifiersRight (keyboardInit k) [] (keyboardInit k) :=
    ⟨hk, rfl, rfl, rfl, rfl, rfl, rfl⟩
  induction codes using List.reverseRecOn with
  | nil =>
    refine iff_of_true (fun p hp => ?_) fun p c hp => ?_
    · rw [List.prefix_nil.mp hp]
      exact hstart
    · exact absurd (List.prefix_nil.mp hp) (List.concat_ne_nil c p)
  | append_singleton codes c ih =>
    simp only [List.prefix_concat_iff]
    constructor
    · intro h
      have hcodes := h codes (Or.inr List.prefix_rfl)
      have hnew := h (codes ++ [c]) (Or.inl rfl)
      rw [List.foldl_append, List.foldl_cons, List.foldl_nil] at hnew
      rintro p c' (heq | hp)
      · obtain ⟨rfl, hc⟩ := List.append_inj' heq rfl
        obtain rfl := List.singleton_inj.mp hc
        exact (hcodes.concat_iff c').mp hnew
      · exact ih.mp (fun p hp => h p (Or.inr hp)) p c' hp
    · intro h
      have hold := ih.mpr fun p c' hp => h p c' (Or.inr hp)
      rintro p (rfl | hp)
      · rw [List.foldl_append, List.foldl_cons, List.foldl_nil]
        exact ((hold codes List.prefix_rfl).concat_iff c).mpr (h codes c (Or.inl rfl))
      · exact hold p hp

/-- One shift key after the other, and caps lock. -/
def shiftsAndLock : List KeyCode :=
  [⟨false, 0x2A, by decide⟩, ⟨false, 0xAA, by decide⟩, ⟨false, 0x36, by decide⟩,
    ⟨false, 0xB6, by decide⟩, ⟨false, 0x3A, by decide⟩, ⟨false, 0xBA, by decide⟩]

theorem modifiersRight_iff_shift :
    (∀ p, p <+: shiftsAndLock →
        ModifiersRight (keyboardInit keyboardCleared) p
          (p.foldl keyboardCode (keyboardInit keyboardCleared))) ↔
      ∀ p c, p ++ [c] <+: shiftsAndLock → Handled p c :=
  modifiersRight_iff keyboardCleared rfl _

/-- Both shift keys are pressed, and the left one is released. -/
theorem not_modifiersRight_shift :
    ¬ ∀ (k : Keyboard) (codes : List KeyCode), k.extended = false →
      ModifiersRight (keyboardInit k) codes (codes.foldl keyboardCode (keyboardInit k)) := fun h =>
  absurd (h keyboardCleared [⟨false, 0x2A, by decide⟩, ⟨false, 0x36, by decide⟩,
    ⟨false, 0xAA, by decide⟩] rfl).shift (by decide)

/-- Num lock, which was on, is pressed. -/
example : (keyboardCode (keyboardInit keyboardCleared) ⟨false, 0x45, by decide⟩).state.numLock =
    true := by decide

end Rexus
