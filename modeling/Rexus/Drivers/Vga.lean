import Rexus.Lib.Run
import Rexus.Lib.TextPage

/-!
# The text screen

`drivers/vga.c`. The screen is a buffer of 25 rows of 80 entries, each a character and its color;
a character that goes behind the last row first moves all rows up. A write at an index outside the
buffer ends a function with that index as an error.

The screen shows an unbounded page through a window: the last 25 rows up to that of the cursor.

## Main results

* `vgaScroll_eq` — what scrolling comes to
* `vgaPutchar_window` — one character on the screen is one character on the page
* `vgaPuts_page` — so is a text

## Conventions

An entry is a word of sixteen bits, the character in the low byte and the color in the high one. The
buffer is a map from indices, of which only those below 2000 are the screen; a write outside is the
error that `vga_putchar` ends with, and with the cursor in its place there is none. The cursor of
the hardware is in `Rexus.Drivers.VgaScreen`; here it is two variables.

A page is that of `Lib/TextPage.lean` with a width of 80, and has characters and no colors. `Window`
compares the characters of the screen with the rows of the page that are in view: as long as nothing
has scrolled these are its first 25 rows. It says nothing of the colors, which are the matter of
`Rexus.Drivers.VgaScreen` as well.
-/

namespace Rexus

open Loop

/-- `vga_buffer`, `vga_col`, `vga_row` and `vga_curr_color`. The buffer is a function of the index,
and a write behind its end is an error with that index, so that no call goes on after one. -/
structure Vga where
  buffer : ℕ → UInt16
  col : ℕ
  row : ℕ
  color : UInt8

/-- `vga_entry`. -/
def vgaEntry (uc color : UInt8) : UInt16 := uc.toUInt16 ||| color.toUInt16 <<< 8

/-- The character of an entry. -/
def vgaCharacter (entry : UInt16) : UInt8 := entry.toUInt8

/-- `vga_buffer[i] = entry`. -/
def Vga.write (v : Vga) (i : ℕ) (entry : UInt16) : Except ℕ Vga :=
  if i < 2000 then .ok { v with buffer := Function.update v.buffer i entry } else .error i

/-- `vga_clear`: every cell becomes a blank in the current color, and the cursor goes to the first.
The error would be the index of a cell outside. -/
def vgaClear (v : Vga) : Except ℕ Vga :=
  match tryRange (fun y => tryRange (fun x v => v.write (y * 80 + x) (vgaEntry 32 v.color)) 80 0)
    25 0 v with
  | .ok v => .ok { v with row := 0, col := 0 }
  | .error i => .error i

/-- `vga_scroll`: each row takes what the next one has, and the last becomes blank, in the current
color; the row of the cursor is the last, whatever it was. -/
def vgaScroll (v : Vga) : Except ℕ Vga :=
  match tryRange
    (fun y => tryRange (fun x v => v.write (y * 80 + x) (v.buffer ((y + 1) * 80 + x))) 80 0)
    24 0 v with
  | .ok v =>
    match tryRange (fun x v => v.write (24 * 80 + x) (vgaEntry 32 v.color)) 80 0 v with
    | .ok v => .ok { v with row := 24 }
    | .error i => .error i
  | .error i => .error i

/-- `vga_col = 0; vga_row++`, and the screen is scrolled if that is behind the last row. -/
def vgaNextRow (v : Vga) : Except ℕ Vga :=
  let v := { v with col := 0, row := v.row + 1 }
  if 25 ≤ v.row then vgaScroll v else .ok v

/-- `vga_putchar`. The tab goes to `(vga_col + 8) & ~7`. -/
def vgaPutchar (v : Vga) (c : UInt8) : Except ℕ Vga :=
  if c = 10 then vgaNextRow v
  else if c = 13 then .ok { v with col := 0 }
  else if c = 9 then
    let v := { v with col := v.col + 8 - (v.col + 8) % 8 }
    if 80 ≤ v.col then vgaNextRow v else .ok v
  else
    match v.write (v.row * 80 + v.col) (vgaEntry c v.color) with
    | .ok v =>
      let v := { v with col := v.col + 1 }
      if 80 ≤ v.col then vgaNextRow v else .ok v
    | .error i => .error i

/-- `vga_puts`, of the characters before the null character. -/
def vgaPuts : Vga → List UInt8 → Except ℕ Vga
  | v, [] => .ok v
  | v, c :: str =>
    match vgaPutchar v c with
    | .ok v => vgaPuts v str
    | .error i => .error i

/-! ### The loops -/

/-- The character of an entry is the one it was made from. -/
@[simp] theorem vgaCharacter_vgaEntry (uc color : UInt8) :
    vgaCharacter (vgaEntry uc color) = uc := by
  rw [← UInt8.toBitVec_inj]
  ext i hi
  simp [vgaCharacter, vgaEntry]

namespace Vga

variable {v : Vga}

/-- The first `n` entries are replaced. -/
def fill (v : Vga) (n : ℕ) (f : ℕ → UInt16) : Vga :=
  { v with buffer := fun i => if i < n then f i else v.buffer i }

/-- One more entry is replaced. -/
theorem write_fill {n : ℕ} (hn : n < 2000) (v : Vga) (f : ℕ → UInt16) :
    (v.fill n f).write n (f n) = .ok (v.fill (n + 1) f) := by
  have hbuffer : Function.update (v.fill n f).buffer n (f n) = (v.fill (n + 1) f).buffer := by
    funext i
    rw [Function.update_apply]
    dsimp only [fill]
    split_ifs with h h' h' h' h'
    · rw [h]
    · omega
    · rfl
    · omega
    · omega
    · rfl
  rw [write, if_pos hn, hbuffer]
  rfl

end Vga

/-- A loop over a row that writes what `f` says. -/
theorem fillRow_eq (v : Vga) (f : ℕ → UInt16) (body : ℕ → Vga → Except ℕ Vga) {y : ℕ} (hy : y < 25)
    (hbody : ∀ n, y * 80 ≤ n → n < y * 80 + 80 →
      body (n - y * 80) (v.fill n f) = (v.fill n f).write n (f n)) :
    tryRange body 80 0 (v.fill (y * 80) f) = .ok (v.fill ((y + 1) * 80) f) := by
  obtain ⟨w, hloop, rfl⟩ := tryRange_inv_ok body (fun x w => w = v.fill (y * 80 + x) f)
    (n := 80) (a := 0) (s := v.fill (y * 80) f) rfl fun x w _ hx hw => by
      have hturn := hbody (y * 80 + x) (by omega) (by omega)
      rw [Nat.add_sub_cancel_left] at hturn
      rw [hw, hturn, Vga.write_fill (by omega)]
      exact ⟨_, rfl, rfl⟩
  rw [hloop, show (y + 1) * 80 = y * 80 + (0 + 80) by omega]

/-- The loop over the rows around it. -/
theorem fillRows_eq (v : Vga) (f : ℕ → UInt16) (body : ℕ → ℕ → Vga → Except ℕ Vga) {k : ℕ}
    (hk : k ≤ 25) (hbody : ∀ y < k, ∀ n, y * 80 ≤ n → n < y * 80 + 80 →
      body y (n - y * 80) (v.fill n f) = (v.fill n f).write n (f n)) :
    tryRange (fun y => tryRange (body y) 80 0) k 0 v = .ok (v.fill (k * 80) f) := by
  obtain ⟨w, hloop, rfl⟩ := tryRange_inv_ok (fun y => tryRange (body y) 80 0)
    (fun y w => w = v.fill (y * 80) f) (n := k) (a := 0) (s := v) rfl fun y w _ hy hw => by
      rw [hw]
      exact ⟨_, fillRow_eq v f (body y) (by omega) (hbody y (by omega)), rfl⟩
  rw [hloop, Nat.zero_add]

/-- A cleared screen. -/
def Vga.cleared (v : Vga) : Vga :=
  { v.fill 2000 fun _ => vgaEntry 32 v.color with row := 0, col := 0 }

theorem vgaClear_eq (v : Vga) : vgaClear v = .ok v.cleared := by
  have hloop := fillRows_eq v (fun _ => vgaEntry 32 v.color)
    (fun y x w => w.write (y * 80 + x) (vgaEntry 32 w.color)) (k := 25) (Nat.le_refl 25)
    fun y _ n hn _ => by rw [Nat.add_sub_cancel' hn]; rfl
  -- `rw [vgaClear]` would run the loops
  delta vgaClear
  rw [hloop]
  rfl

/-- A scrolled screen: each row is the next one, and the last is blank. -/
def Vga.scrolled (v : Vga) : Vga :=
  { v.fill 2000 fun i => if i < 1920 then v.buffer (i + 80) else vgaEntry 32 v.color with
    row := 24 }

theorem vgaScroll_eq (v : Vga) : vgaScroll v = .ok v.scrolled := by
  let f : ℕ → UInt16 := fun i => if i < 1920 then v.buffer (i + 80) else vgaEntry 32 v.color
  have hrows := fillRows_eq v f
    (fun y x w => w.write (y * 80 + x) (w.buffer ((y + 1) * 80 + x))) (k := 24) (by omega)
    fun y hy n hn hn' => by
      have hf : (v.fill n f).buffer ((y + 1) * 80 + (n - y * 80)) = f n := by
        dsimp only [Vga.fill, f]
        rw [if_neg (by omega), if_pos (by omega),
          show (y + 1) * 80 + (n - y * 80) = n + 80 by omega]
      rw [Nat.add_sub_cancel' hn, hf]
  have hlast := fillRow_eq v f (fun x w => w.write (24 * 80 + x) (vgaEntry 32 w.color)) (y := 24)
    (by omega) fun n hn _ => by
      have hf : f n = vgaEntry 32 v.color := if_neg (by omega)
      rw [Nat.add_sub_cancel' hn, hf]
      rfl
  delta vgaScroll
  rw [hrows]
  dsimp only
  rw [hlast]
  rfl

/-! ### The window -/

/-- The screen shows the last 25 rows of the page up to that of the cursor, or the first 25. -/
structure Window (v : Vga) (p : Page) : Prop where
  row : v.row = p.row - (p.row - 24)
  col : v.col = p.col
  text : ∀ y < 25, ∀ x < 80,
    vgaCharacter (v.buffer (y * 80 + x)) = p.cell (p.row - 24 + y) x

section

variable {v : Vga} {p : Page}

theorem Window.row_lt (h : Window v p) : v.row < 25 := by
  have := h.row
  omega

/-- The next row of the screen is that of the page. -/
theorem vgaNextRow_window (h : Window v p) (hbelow : p.BlankBelow) :
    ∃ v', vgaNextRow v = .ok v' ∧ Window v' p.nextRow := by
  have hrow := h.row
  rw [vgaNextRow]
  dsimp only
  split_ifs with hlast
  · refine ⟨_, vgaScroll_eq _, ?_, rfl, fun y hy x hx => ?_⟩
    · dsimp only [Vga.scrolled, Page.nextRow]
      omega
    · have hi : y * 80 + x < 2000 := by omega
      dsimp only [Vga.scrolled, Vga.fill, Page.nextRow]
      rw [if_pos hi]
      split_ifs with hy'
      · rw [show y * 80 + x + 80 = (y + 1) * 80 + x by omega, h.text (y + 1) (by omega) x hx,
          show p.row - 24 + (y + 1) = p.row + 1 - 24 + y by omega]
      · rw [vgaCharacter_vgaEntry, hbelow _ _ (by omega)]
  · refine ⟨_, rfl, ?_, rfl, fun y hy x hx => ?_⟩
    · dsimp only [Page.nextRow]
      omega
    · dsimp only [Page.nextRow]
      rw [h.text y hy x hx, show p.row - 24 = p.row + 1 - 24 by omega]

/-- The test behind the last column. -/
theorem vgaWrap_window (h : Window v p) (hbelow : p.BlankBelow) :
    ∃ v', (if 80 ≤ v.col then vgaNextRow v else .ok v) = .ok v' ∧ Window v' (p.wrap 80) := by
  rw [Page.wrap, ← h.col]
  split_ifs
  · exact vgaNextRow_window h hbelow
  · exact ⟨v, rfl, h⟩

/-- A character that is written is the one at the cursor. -/
theorem vgaWrite_window (h : Window v p) (hcol : p.col < 80) (c : UInt8) :
    ∃ v', v.write (v.row * 80 + v.col) (vgaEntry c v.color) = .ok v' ∧
      Window { v' with col := v'.col + 1 } (p.write c) := by
  have hrow := h.row
  have hcol' := h.col
  refine ⟨_, if_pos (by omega), hrow, congrArg Nat.succ hcol', fun y hy x hx => ?_⟩
  dsimp only
  rw [Page.cell_write, Function.update_apply]
  have hcell : y * 80 + x = v.row * 80 + v.col ↔
      (p.write c).row - 24 + y = p.row ∧ x = p.col := by
    dsimp only [Page.write]
    omega
  by_cases hi : y * 80 + x = v.row * 80 + v.col
  · rw [if_pos hi, if_pos (hcell.mp hi), vgaCharacter_vgaEntry]
  · rw [if_neg hi, if_neg (mt hcell.mpr hi)]
    exact h.text y hy x hx

/-- **One character on the screen is one character on the page.** -/
theorem vgaPutchar_window (h : Window v p) (hbelow : p.BlankBelow) (hcol : p.col < 80) (c : UInt8) :
    ∃ v', vgaPutchar v c = .ok v' ∧ Window v' (p.put 80 c) := by
  rw [vgaPutchar, Page.put]
  split_ifs with hlf hcr htab
  · exact vgaNextRow_window h hbelow
  · exact ⟨_, rfl, h.row, rfl, h.text⟩
  · have hcol' := h.col
    refine vgaWrap_window ⟨h.row, ?_, h.text⟩ hbelow
    dsimp only
    omega
  · obtain ⟨v', hwrite, hwindow⟩ := vgaWrite_window h hcol c
    rw [hwrite]
    exact vgaWrap_window hwindow (Page.blankBelow_write hbelow c)

theorem vgaPuts_window (h : Window v p) (hbelow : p.BlankBelow) (hcol : p.col < 80)
    (str : List UInt8) : ∃ v', vgaPuts v str = .ok v' ∧ Window v' (p.print 80 str) ∧
      (p.print 80 str).col < 80 := by
  induction str generalizing v p with
  | nil => exact ⟨v, rfl, h, hcol⟩
  | cons c str ih =>
    obtain ⟨v', hput, hwindow⟩ := vgaPutchar_window h hbelow hcol c
    rw [vgaPuts, hput]
    exact ih hwindow (Page.blankBelow_put hbelow c) (Page.col_lt_put (by decide) p c)

end

/-- **The screen is a window on the page**: for every text printed on a cleared screen, no write
goes outside the buffer, the cursor stays on the screen, and what is shown is the end of the page on
which the same text is laid out. -/
theorem vgaPuts_page (v : Vga) (str : List UInt8) :
    ∃ v₀ v₁, vgaClear v = .ok v₀ ∧ vgaPuts v₀ str = .ok v₁ ∧ v₁.row < 25 ∧ v₁.col < 80 ∧
      Window v₁ (Page.blank.print 80 str) := by
  have hclear : Window v.cleared Page.blank := by
    refine ⟨rfl, rfl, fun y hy x hx => ?_⟩
    have hi : y * 80 + x < 2000 := by omega
    dsimp only [Vga.cleared, Vga.fill]
    rw [if_pos hi, vgaCharacter_vgaEntry]
    rfl
  obtain ⟨v', hputs, hwindow, hcol⟩ :=
    vgaPuts_window hclear Page.blankBelow_blank (by decide) str
  exact ⟨v.cleared, v', vgaClear_eq v, hputs, hwindow.row_lt, hwindow.col ▸ hcol, hwindow⟩

end Rexus
