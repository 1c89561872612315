import Rexus.Drivers.ConsoleHistory
import Rexus.Drivers.Vga

/-!
# What is typed and what is shown

The console keeps the line in its buffer and echoes it on the screen. To erase a character it
prints a backspace, a blank and a backspace; but the screen has no backspace: `vga_putchar` writes
all three as characters, and the cursor moves on. So the two agree as long as nothing is erased.

## Main results

* `vgaPutchar_regular` — where the cursor goes
* `echo_iff` — for which keys the screen shows the line

## Conventions

The prompt is whatever is on the screen to the left of the cursor when the line is empty, and the
rest of its row is blank. A line is shown if the characters behind the prompt are those of the line,
the cursor is behind the last of them, and the row is blank from there on; this is asked before the
first key and after every one.

The keys are printable characters and backspaces, any number of them, as long as the line stays
within its row: behind the right edge the line would go on in the next row, and that row would have
to be part of what is shown. Enter and the keys of the history are in `Rexus.Core.Shell`.
-/

namespace Rexus

open Bytes

/-- The console and the screen. What the callback writes to the screen is made from the line it
edits, but neither of the two reads the other. -/
structure Terminal where
  console : Console
  vga : Vga

namespace Terminal

/-- A key, with what it decodes to; what the callback prints goes to the screen. -/
def press (t : Terminal) (key : UInt16 × UInt8) : Option Terminal :=
  match consoleKeyboardCallback t.console key.1 key.2 with
  | .ok (printed, console) =>
    match vgaPuts t.vga printed with
    | .ok vga => some ⟨console, vga⟩
    | .error _ => none
  | .error _ => none

/-- The characters of a row of the screen, from a column up to another. -/
def text (t : Terminal) (row i j : ℕ) : List UInt8 :=
  slice (fun x => vgaCharacter (t.vga.buffer (row * 80 + x))) i (j - i)

/-- The line is empty, the cursor is behind the prompt, and the rest of its row is blank. -/
structure FreshPrompt (t : Terminal) : Prop where
  empty : t.console.inputPosition = 0
  row_lt : t.vga.row < 25
  col_lt : t.vga.col < 80
  blank : ∀ x < 80, t.vga.col ≤ x → vgaCharacter (t.vga.buffer (t.vga.row * 80 + x)) = 32

/-- Behind the prompt, which ended at the cursor of `t₀`, comes the line, and then the cursor;
right of it the row is blank. -/
structure Shown (t₀ t : Terminal) : Prop where
  row : t.vga.row = t₀.vga.row
  col_le : t₀.vga.col ≤ t.vga.col
  line : t.text t₀.vga.row t₀.vga.col t.vga.col = t.console.line
  blank : ∀ x < 80, t.vga.col ≤ x → vgaCharacter (t.vga.buffer (t₀.vga.row * 80 + x)) = 32

/-- The line is shown before the first key and after each. -/
def ShownThroughout (t₀ : Terminal) : Terminal → List (UInt16 × UInt8) → Prop
  | t, [] => Shown t₀ t
  | t, key :: keys => Shown t₀ t ∧ ∃ t', t.press key = some t' ∧ ShownThroughout t₀ t' keys

/-- The line never reaches the right edge of the screen. -/
def WithinRow (t₀ : Terminal) : Terminal → List (UInt16 × UInt8) → Prop
  | t, [] => t₀.vga.col + t.console.inputPosition < 80
  | t, key :: keys =>
    t₀.vga.col + t.console.inputPosition < 80 ∧
      ∀ t', t.press key = some t' → WithinRow t₀ t' keys

/-- Backspace is only pressed when the line is empty. -/
def NothingErased : Terminal → List (UInt16 × UInt8) → Prop
  | _, [] => True
  | t, key :: keys =>
    (consoleKey key.1 key.2 = .backspace → t.console.inputPosition = 0) ∧
      ∀ t', t.press key = some t' → NothingErased t' keys

end Terminal

/-- A printable character, or backspace. -/
def TypesOrErases (key : UInt16 × UInt8) : Prop :=
  consoleKey key.1 key.2 = .backspace ∨
    ∃ ch, consoleKey key.1 key.2 = .character ch ∧ 32 ≤ ch ∧ ch ≤ 126

/-! ### The cursor -/

/-- Any other character is written, and the cursor moves on, at the end of a row to the next, which
is the last one if there is none. -/
theorem vgaPutchar_regular {v : Vga} {c : UInt8} (hc : c ≠ 10 ∧ c ≠ 13 ∧ c ≠ 9) (hrow : v.row < 25)
    (hcol : v.col < 80) :
    ∃ v', vgaPutchar v c = .ok v' ∧
      (v.col + 1 < 80 → v' = { v with
        buffer := Function.update v.buffer (v.row * 80 + v.col) (vgaEntry c v.color)
        col := v.col + 1 }) ∧
      (v.col + 1 = 80 → v'.col = 0 ∧ v'.row = min (v.row + 1) 24) := by
  have hwrite : v.write (v.row * 80 + v.col) (vgaEntry c v.color) = .ok { v with
      buffer := Function.update v.buffer (v.row * 80 + v.col) (vgaEntry c v.color) } :=
    if_pos (by omega)
  rw [vgaPutchar, if_neg hc.1, if_neg hc.2.1, if_neg hc.2.2, hwrite]
  dsimp only
  split_ifs with hwrap
  · rw [vgaNextRow]
    dsimp only
    split_ifs with hlast
    · refine ⟨_, vgaScroll_eq _, fun h => absurd h (by omega), fun _ => ⟨rfl, ?_⟩⟩
      dsimp only [Vga.scrolled]
      omega
    · refine ⟨_, rfl, fun h => absurd h (by omega), fun _ => ⟨rfl, ?_⟩⟩
      dsimp only
      omega
  · exact ⟨_, rfl, fun _ => rfl, fun h => absurd h (by omega)⟩

/-- In any case it goes one column on, around the row. -/
theorem vgaPutchar_col {v : Vga} {c : UInt8} (hc : c ≠ 10 ∧ c ≠ 13 ∧ c ≠ 9) (hrow : v.row < 25)
    (hcol : v.col < 80) :
    ∃ v', vgaPutchar v c = .ok v' ∧ v'.row < 25 ∧ v'.col = (v.col + 1) % 80 := by
  obtain ⟨v', hput, hstay, hwrap⟩ := vgaPutchar_regular hc hrow hcol
  refine ⟨v', hput, ?_⟩
  rcases Nat.lt_or_ge (v.col + 1) 80 with hlt | hge
  · rw [hstay hlt]
    exact ⟨hrow, (Nat.mod_eq_of_lt hlt).symm⟩
  · obtain ⟨hcol', hrow'⟩ := hwrap (by omega)
    exact ⟨by omega, by rw [hcol', show v.col + 1 = 80 by omega]⟩

/-- What is printed to erase a character. -/
theorem vgaPuts_erase {v : Vga} (hrow : v.row < 25) (hcol : v.col < 80) :
    ∃ v', vgaPuts v [8, 32, 8] = .ok v' ∧ v'.col = (v.col + 3) % 80 := by
  obtain ⟨v₁, h₁, hrow₁, hcol₁⟩ := vgaPutchar_col (c := 8) (by decide) hrow hcol
  obtain ⟨v₂, h₂, hrow₂, hcol₂⟩ := vgaPutchar_col (c := 32) (by decide) hrow₁ (by omega)
  obtain ⟨v₃, h₃, -, hcol₃⟩ := vgaPutchar_col (c := 8) (by decide) hrow₂ (by omega)
  refine ⟨v₃, ?_, by omega⟩
  rw [vgaPuts, h₁]
  dsimp only
  rw [vgaPuts, h₂]
  dsimp only
  rw [vgaPuts, h₃]
  rfl

/-! ### The keys -/

namespace Terminal

variable {t₀ t : Terminal} {key : UInt16 × UInt8} {ch : UInt8}

@[simp] theorem length_text (t : Terminal) (row i j : ℕ) : (t.text row i j).length = j - i := by
  simp [text]

/-- The cursor is as far behind the prompt as the line is long. -/
theorem Shown.col_eq (h : Shown t₀ t) : t.vga.col = t₀.vga.col + t.console.inputPosition := by
  have hlen := congrArg List.length h.line
  have hle := h.col_le
  rw [length_text, Console.length_line] at hlen
  omega

theorem FreshPrompt.shown (h : FreshPrompt t₀) : Shown t₀ t₀ where
  row := rfl
  col_le := Nat.le_refl _
  line := by
    rw [Console.line, h.empty, slice_zero, ← List.length_eq_zero_iff, length_text, Nat.sub_self]
  blank := h.blank

/-- A key that erases nothing changes nothing. -/
theorem press_backspace_empty (hkey : consoleKey key.1 key.2 = .backspace)
    (hempty : t.console.inputPosition = 0) : t.press key = some t := by
  have hnothing : ¬0 < t.console.inputPosition := by omega
  rw [press, consoleKeyboardCallback_eq, hkey]
  dsimp only [consolePress]
  rw [consoleBackspace, if_neg hnothing]
  rfl

theorem regular_of_le (h32 : 32 ≤ ch) : ch ≠ 10 ∧ ch ≠ 13 ∧ ch ≠ 9 := by
  rw [UInt8.le_iff_toNat_le] at h32
  refine ⟨?_, ?_, ?_⟩ <;> rintro rfl <;> exact absurd h32 (by decide)

/-- A character that is typed is printed. -/
theorem press_character (hkey : consoleKey key.1 key.2 = .character ch)
    (hroom : t.console.inputPosition < 255) {v' : Vga} (hput : vgaPutchar t.vga ch = .ok v') :
    t.press key = some ⟨(consoleType t.console ch).2, v'⟩ ∧
      (consoleType t.console ch).2.inputPosition = t.console.inputPosition + 1 := by
  have hprinted : (consoleType t.console ch).1 = [ch] := by rw [consoleType, if_pos hroom]
  constructor
  · rw [press, consoleKeyboardCallback_eq, hkey]
    dsimp only [consolePress]
    rw [hprinted]
    dsimp only [vgaPuts]
    rw [hput]
  · rw [consoleType, if_pos hroom]

/-- So it is shown, if the row has room for it. -/
theorem press_character_shown (hkey : consoleKey key.1 key.2 = .character ch) (h32 : 32 ≤ ch)
    (h₀ : t₀.vga.row < 25) (h : Shown t₀ t)
    (hfits : t₀.vga.col + (t.console.inputPosition + 1) < 80) :
    ∃ t', t.press key = some t' ∧ Shown t₀ t' := by
  have hcol := h.col_eq
  have hrow := h.row
  have hroom : t.console.inputPosition < 255 := by omega
  obtain ⟨v', hput, hstay, -⟩ :=
    vgaPutchar_regular (v := t.vga) (regular_of_le h32) (hrow ▸ h₀) (by omega)
  obtain rfl := hstay (by omega)
  obtain ⟨hpress, -⟩ := press_character hkey hroom hput
  -- what is written is at the cursor, and the rest of the row is as it was
  have hcell : ∀ x, vgaCharacter (Function.update t.vga.buffer (t.vga.row * 80 + t.vga.col)
      (vgaEntry ch t.vga.color) (t₀.vga.row * 80 + x)) =
        if x = t.vga.col then ch
        else vgaCharacter (t.vga.buffer (t₀.vga.row * 80 + x)) := fun x => by
    rw [Function.update_apply, hrow]
    by_cases hx : x = t.vga.col
    · rw [if_pos hx, if_pos (by rw [hx]), vgaCharacter_vgaEntry]
    · rw [if_neg hx, if_neg (by omega)]
  refine ⟨_, hpress, hrow, h.col_le.trans (Nat.le_succ _), ?_, fun x hx hle => ?_⟩
  · have hsucc : t.vga.col + 1 - t₀.vga.col = (t.vga.col - t₀.vga.col) + 1 := by omega
    rw [consoleType_line hroom, ← h.line, text, text]
    dsimp only
    rw [hsucc, slice_succ]
    refine congrArg₂ _ (slice_congr fun k hk => ?_) (congrArg ([·]) ?_)
    · exact (hcell _).trans (if_neg (by omega))
    · exact (hcell _).trans (if_pos (by omega))
  · dsimp only at hle
    exact ((hcell x).trans (if_neg (by omega))).trans (h.blank x hx (by omega))

/-- A character that is erased is not: the three that are printed are shown. -/
theorem press_backspace (hkey : consoleKey key.1 key.2 = .backspace)
    (hpos : 0 < t.console.inputPosition) (h₀ : t₀.vga.row < 25) (h : Shown t₀ t)
    (hcol : t.vga.col < 80) : ∃ t', t.press key = some t' ∧ ¬Shown t₀ t' := by
  have hcol₀ := h.col_eq
  obtain ⟨v', hputs, hcol'⟩ := vgaPuts_erase (h.row ▸ h₀) hcol
  have hprinted : (consoleBackspace t.console).1 = [8, 32, 8] := by
    rw [consoleBackspace, if_pos hpos]
  have hposition : (consoleBackspace t.console).2.inputPosition = t.console.inputPosition - 1 := by
    rw [consoleBackspace, if_pos hpos]
  refine ⟨⟨(consoleBackspace t.console).2, v'⟩, ?_, fun hshown => ?_⟩
  · rw [press, consoleKeyboardCallback_eq, hkey]
    dsimp only [consolePress]
    rw [hprinted, hputs]
  · have := hshown.col_eq
    dsimp only at this
    omega

theorem ShownThroughout.head {keys : List (UInt16 × UInt8)} (h : ShownThroughout t₀ t keys) :
    Shown t₀ t := by
  cases keys with
  | nil => exact h
  | cons key keys => exact h.1

theorem WithinRow.head {keys : List (UInt16 × UInt8)} (h : WithinRow t₀ t keys) :
    t₀.vga.col + t.console.inputPosition < 80 := by
  cases keys with
  | nil => exact h
  | cons key keys => exact h.1

/-- The screen shows the line exactly as long as nothing is erased. -/
theorem shownThroughout_iff (h₀ : t₀.vga.row < 25) (h : Shown t₀ t)
    {keys : List (UInt16 × UInt8)} (hkeys : ∀ key ∈ keys, TypesOrErases key)
    (hrow : WithinRow t₀ t keys) : ShownThroughout t₀ t keys ↔ NothingErased t keys := by
  induction keys generalizing t with
  | nil => exact iff_of_true h trivial
  | cons key keys ih =>
    have hrest : ∀ key' ∈ keys, TypesOrErases key' := fun key' hmem =>
      hkeys key' (List.mem_cons_of_mem _ hmem)
    have hcol := h.col_eq
    have hlt := hrow.head
    -- the keys after this one, if the line is still shown
    have hnext : ∀ {t'}, t.press key = some t' → Shown t₀ t' →
        (consoleKey key.1 key.2 = .backspace → t.console.inputPosition = 0) →
        (ShownThroughout t₀ t (key :: keys) ↔ NothingErased t (key :: keys)) := by
      intro t' hpress hshown hnothing
      have hiff := ih hshown hrest (hrow.2 t' hpress)
      constructor
      · rintro ⟨-, u, hu, hthroughout⟩
        obtain rfl := Option.some_inj.mp (hpress.symm.trans hu)
        refine ⟨hnothing, fun u hu => ?_⟩
        obtain rfl := Option.some_inj.mp (hpress.symm.trans hu)
        exact hiff.mp hthroughout
      · rintro ⟨-, hall⟩
        exact ⟨h, t', hpress, hiff.mpr (hall t' hpress)⟩
    rcases hkeys key List.mem_cons_self with hkey | ⟨ch, hkey, h32, -⟩
    · rcases Nat.eq_zero_or_pos t.console.inputPosition with hempty | hpos
      · exact hnext (press_backspace_empty hkey hempty) h fun _ => hempty
      · obtain ⟨t', hpress, hshown⟩ := press_backspace hkey hpos h₀ h (by omega)
        refine iff_of_false ?_ fun hnothing => Nat.ne_of_gt hpos (hnothing.1 hkey)
        rintro ⟨-, u, hu, hthroughout⟩
        obtain rfl := Option.some_inj.mp (hpress.symm.trans hu)
        exact hshown hthroughout.head
    · have hother : consoleKey key.1 key.2 ≠ .backspace := by rw [hkey]; exact nofun
      have hfits : t₀.vga.col + (t.console.inputPosition + 1) < 80 := by
        obtain ⟨v', hput, -⟩ :=
          vgaPutchar_col (v := t.vga) (regular_of_le h32) (h.row ▸ h₀) (by omega)
        obtain ⟨hpress, hposition⟩ := press_character hkey (by omega) hput
        have hhead := (hrow.2 _ hpress).head
        dsimp only at hhead
        omega
      obtain ⟨t', hpress, hshown⟩ := press_character_shown hkey h32 h₀ h hfits
      exact hnext hpress hshown fun hbackspace => absurd hbackspace hother

end Terminal

open Terminal

/-- **The screen shows the line**, for printable characters and backspaces on a fresh prompt,
exactly if backspace is only pressed when the line is empty. -/
theorem echo_iff {t₀ : Terminal} (h : FreshPrompt t₀) {keys : List (UInt16 × UInt8)}
    (hkeys : ∀ key ∈ keys, TypesOrErases key) (hrow : WithinRow t₀ t₀ keys) :
    ShownThroughout t₀ t₀ keys ↔ NothingErased t₀ keys :=
  shownThroughout_iff h.row_lt h.shown hkeys hrow

/-- The prompt in the first row of a blank screen. -/
def promptTerminal : Terminal :=
  ⟨consoleInit, ⟨fun i => vgaEntry ([82, 69, 88, 85, 83, 62, 32].getD i 32) 7, 7, 0, 7⟩⟩

theorem promptTerminal_fresh : FreshPrompt promptTerminal where
  empty := rfl
  row_lt := by decide
  col_lt := by decide
  blank x _ hx := by
    dsimp only [promptTerminal] at hx ⊢
    rw [vgaCharacter_vgaEntry, List.getD_eq_getElem?_getD,
      List.getElem?_eq_none (by simpa using hx), Option.getD_none]

/-- Backspace at the start of the line, and the letters `a` and `b`. -/
theorem echo_iff_typed :
    ShownThroughout promptTerminal promptTerminal [(8, 8), (97, 97), (98, 98)] ↔
      NothingErased promptTerminal [(8, 8), (97, 97), (98, 98)] := by
  have hkeys : ∀ key ∈ [(8, 8), (97, 97), (98, 98)], TypesOrErases key := by
    intro key hkey
    rcases List.mem_cons.mp hkey with rfl | hkey
    · exact Or.inl rfl
    rcases List.mem_cons.mp hkey with rfl | hkey
    · exact Or.inr ⟨97, rfl, by decide, by decide⟩
    · exact Or.inr ⟨98, List.mem_singleton.mp hkey ▸ rfl, by decide, by decide⟩
  have hrow : WithinRow promptTerminal promptTerminal [(8, 8), (97, 97), (98, 98)] := by
    refine ⟨by decide, fun _ h => Option.some_inj.mp h ▸ ⟨(by decide : 7 + 0 < 80), fun _ h => ?_⟩⟩
    refine Option.some_inj.mp h ▸ ⟨(by decide : 7 + 1 < 80), fun _ h => ?_⟩
    exact Option.some_inj.mp h ▸ (by decide : 7 + 2 < 80)
  exact echo_iff promptTerminal_fresh hkeys hrow

/-- The letter `a` is typed, and erased. -/
theorem not_shownThroughout_erased :
    FreshPrompt promptTerminal ∧ (∀ key ∈ [(97, 97), (8, 8)], TypesOrErases key) ∧
      WithinRow promptTerminal promptTerminal [(97, 97), (8, 8)] ∧
      ¬ShownThroughout promptTerminal promptTerminal [(97, 97), (8, 8)] := by
  have hkeys : ∀ key ∈ [(97, 97), (8, 8)], TypesOrErases key := by
    intro key hkey
    rcases List.mem_cons.mp hkey with rfl | hkey
    · exact Or.inr ⟨97, rfl, by decide, by decide⟩
    · exact Or.inl (List.mem_singleton.mp hkey ▸ rfl)
  have hrow : WithinRow promptTerminal promptTerminal [(97, 97), (8, 8)] :=
    ⟨by decide, fun _ h => Option.some_inj.mp h ▸
      ⟨(by decide : 7 + 1 < 80), fun _ h' => Option.some_inj.mp h' ▸ (by decide : 7 + 0 < 80)⟩⟩
  refine ⟨promptTerminal_fresh, hkeys, hrow, fun h => ?_⟩
  have hnothing := (shownThroughout_iff promptTerminal_fresh.row_lt promptTerminal_fresh.shown hkeys
    hrow).mp h
  exact Nat.one_ne_zero ((hnothing.2 _ rfl).1 rfl)

end Rexus
