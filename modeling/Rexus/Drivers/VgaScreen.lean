import Rexus.Drivers.Printf
import Rexus.Drivers.Vga
import Rexus.Lib.Scanf
import Rexus.Lib.Scrollback

/-!
# The screen and its cursor

The rest of `drivers/vga.c`: `vga_init`, `vga_set_color`, `vga_set_cursor` and `vga_puthex`, and
`vga_update_cursor`, with which every function that moves the cursor ends. The controller has an
index register at port `0x3D4`, and at `0x3D5` the register that it selects; where it shows the
cursor is in two of them.

After `vga_set_cursor` there may be text below the cursor, so the screen is no longer the end of a
page. It is a terminal that scrolls a document: see `Scrollback`.

## Main results

* `screen_run` — every run of the functions is one of the terminal, with the cursor at its place
* `vgaPuthex_scan` — what `vga_puthex` prints is read back

## Conventions

The registers of the controller are bytes, and a write to the data port goes to the one that was
selected last; registers that the driver does not select keep what they hold. The place of the
cursor is the number of its entry, in two of these. That the writes are there by the time somebody
looks is taken from the hardware.

A run is of any calls of the file after `vga_init`, whatever the screen held before.
`vga_set_cursor` with a place outside the screen does nothing. The color of a call of
`vga_set_color` holds for what is written from then on, and for the blank rows that come in from
below. `vga_puthex` writes its digits into a buffer before it prints them.
-/

namespace Rexus

open Loop Numeral Scanf

/-! ### The controller -/

/-- The registers of the controller, and the index of the one that is selected. -/
structure Crtc where
  index : UInt8
  regs : UInt8 → UInt8

namespace Crtc

/-- `outb`, to the two ports. -/
def outb (c : Crtc) (port : UInt16) (value : UInt8) : Crtc :=
  if port = 0x3D4 then { c with index := value }
  else if port = 0x3D5 then { c with regs := Function.update c.regs c.index value }
  else c

/-- Where the cursor is shown. -/
def location (c : Crtc) : ℕ := 256 * (c.regs 0x0E).toNat + (c.regs 0x0F).toNat

end Crtc

/-- `vga_update_cursor`. -/
def vgaUpdateCursor (v : Vga) (c : Crtc) : Crtc :=
  let pos := UInt16.ofNat (v.row * 80 + v.col)
  let c := c.outb 0x3D4 0x0F
  let c := c.outb 0x3D5 (pos &&& 0xFF).toUInt8
  let c := c.outb 0x3D4 0x0E
  c.outb 0x3D5 ((pos >>> 8) &&& 0xFF).toUInt8

/-! ### The functions -/

/-- `vga_entry_color`. -/
def vgaEntryColor (fg bg : UInt8) : UInt8 := fg ||| bg <<< 4

/-- The screen and its controller. The cursor is kept twice, in the variables of the driver, and in
the registers of the controller, which show it. -/
structure Screen where
  vga : Vga
  crtc : Crtc

namespace Screen

/-- What a function has done to the screen, and `vga_update_cursor`. -/
def update (s : Screen) (r : Except ℕ Vga) : Except ℕ Screen :=
  match r with
  | .ok v => .ok ⟨v, vgaUpdateCursor v s.crtc⟩
  | .error i => .error i

/-- `vga_clear`. -/
def clear (s : Screen) : Except ℕ Screen := s.update (vgaClear s.vga)

/-- `vga_init`: light grey on black. -/
def init (s : Screen) : Except ℕ Screen :=
  clear { s with vga := { s.vga with row := 0, col := 0, color := vgaEntryColor 7 0 } }

/-- `vga_putchar`: each of its cases ends with `vga_update_cursor`. -/
def putchar (s : Screen) (c : UInt8) : Except ℕ Screen := s.update (vgaPutchar s.vga c)

/-- `vga_puts`, of the characters before the null character. -/
def puts (s : Screen) (str : List UInt8) : Except ℕ Screen := str.foldlM putchar s

/-- `vga_set_color`. -/
def setColor (s : Screen) (color : UInt8) : Screen := { s with vga := { s.vga with color } }

/-- `vga_set_cursor`: the cursor goes to a cell of the screen, and stays where it is if there is no
such cell. The arguments are signed, and are compared as such. -/
def setCursor (s : Screen) (x y : ℤ) : Screen :=
  if 0 ≤ x ∧ x < 80 ∧ 0 ≤ y ∧ y < 25 then
    let v := { s.vga with col := x.toNat, row := y.toNat }
    ⟨v, vgaUpdateCursor v s.crtc⟩
  else s

end Screen

/-- A call. `vga_putint` and `vga_puthex` are calls of `vga_putchar` and of `vga_puts`. -/
inductive VgaOp where
  | init
  | clear
  | putchar (c : UInt8)
  | puts (str : List UInt8)
  | setColor (color : UInt8)
  | setCursor (x y : ℤ)

/-- One call; the error is the index at which a call has written behind the buffer. That there is
none is part of what is shown. -/
def Screen.step (s : Screen) : VgaOp → Except ℕ Screen
  | .init => s.init
  | .clear => s.clear
  | .putchar c => s.putchar c
  | .puts str => s.puts str
  | .setColor color => .ok (s.setColor color)
  | .setCursor x y => .ok (s.setCursor x y)

/-! ### What is to be seen -/

/-- A terminal, and the color in which it writes. -/
structure Display where
  term : Scrollback UInt16
  color : UInt8

namespace Display

/-- The entry of a character. -/
def entry (d : Display) (c : UInt8) : UInt16 := vgaEntry c d.color

/-- What a call does. -/
def step (d : Display) : VgaOp → Display
  | .init =>
    let color := vgaEntryColor 7 0
    { term := d.term.clear 25 (vgaEntry 32 color), color }
  | .clear => { d with term := d.term.clear 25 (d.entry 32) }
  | .putchar c => { d with term := d.term.put 80 25 d.entry c }
  | .puts str => { d with term := d.term.print 80 25 d.entry str }
  | .setColor color => { d with color }
  | .setCursor x y => { d with term := d.term.moveTo 80 25 x y }

/-- Nothing but blanks, light grey on black. -/
def start : Display := ⟨⟨fun _ _ => vgaEntry 32 (vgaEntryColor 7 0), 0, 0, 0⟩, vgaEntryColor 7 0⟩

end Display

/-- The buffer is the window: its cells are those of the document from the first row of the window
on, and row and column are counted from there. -/
structure Shows (v : Vga) (t : Scrollback UInt16) : Prop where
  row : t.top + v.row = t.row
  col : v.col = t.col
  cell : ∀ y < 25, ∀ x < 80, v.buffer (y * 80 + x) = t.cell (t.top + y) x

section

variable {v : Vga} {t : Scrollback UInt16}

/-- The next row of the screen is that of the terminal. -/
theorem vgaNextRow_shows (h : Shows v t) (ht : t.InRows 25) :
    ∃ v', vgaNextRow v = .ok v' ∧ Shows v' (t.nextRow 25 (vgaEntry 32 v.color)) ∧
      v'.color = v.color := by
  have hrow := h.row
  have hlt := ht.row_lt
  rw [vgaNextRow, Scrollback.nextRow]
  dsimp only
  by_cases hlast : 25 ≤ v.row + 1
  · have hnext : ¬t.row + 1 < t.top + 25 := by omega
    rw [if_pos hlast, if_neg hnext]
    refine ⟨_, vgaScroll_eq _, ⟨?_, rfl, fun y hy x hx => ?_⟩, rfl⟩
    · dsimp only [Vga.scrolled]
      omega
    · have hi : y * 80 + x < 2000 := by omega
      dsimp only [Vga.scrolled, Vga.fill]
      rw [if_pos hi]
      by_cases hy' : y = 24
      · have hbottom : t.top + 1 + y = t.row + 1 := by omega
        rw [if_neg (by omega), hbottom, Function.update_self]
      · have hother : t.top + 1 + y ≠ t.row + 1 := by omega
        rw [if_pos (by omega), Function.update_of_ne hother, show y * 80 + x + 80 =
          (y + 1) * 80 + x by omega, h.cell (y + 1) (by omega) x hx, Nat.add_right_comm,
          Nat.add_assoc]
  · have hnext : t.row + 1 < t.top + 25 := by omega
    rw [if_neg hlast, if_pos hnext]
    refine ⟨_, rfl, ⟨?_, rfl, h.cell⟩, rfl⟩
    dsimp only
    omega

/-- The test behind the last column. -/
theorem vgaWrap_shows (h : Shows v t) (ht : t.InRows 25) :
    ∃ v', (if 80 ≤ v.col then vgaNextRow v else .ok v) = .ok v' ∧
      Shows v' (t.wrap 80 25 (vgaEntry 32 v.color)) ∧ v'.color = v.color := by
  rw [Scrollback.wrap, ← h.col]
  split_ifs
  · exact vgaNextRow_shows h ht
  · exact ⟨v, rfl, h, rfl⟩

/-- A character that is written is the one at the cursor. -/
theorem vgaWrite_shows (h : Shows v t) (ht : t.InWindow 80 25) (entry : UInt16) :
    ∃ v', v.write (v.row * 80 + v.col) entry = .ok v' ∧
      Shows { v' with col := v'.col + 1 } (t.write entry) ∧ v'.color = v.color := by
  have hrow := h.row
  have hcol := h.col
  have hlt := ht.row_lt
  have hcol_lt := ht.col_lt
  refine ⟨_, if_pos (by omega), ⟨hrow, congrArg Nat.succ hcol, fun y hy x hx => ?_⟩, rfl⟩
  dsimp only
  rw [Scrollback.cell_write, Function.update_apply]
  have hcell : y * 80 + x = v.row * 80 + v.col ↔ (t.write entry).top + y = t.row ∧ x = t.col := by
    dsimp only [Scrollback.write]
    omega
  by_cases hi : y * 80 + x = v.row * 80 + v.col
  · rw [if_pos hi, if_pos (hcell.mp hi)]
  · rw [if_neg hi, if_neg (mt hcell.mpr hi)]
    exact h.cell y hy x hx

/-- **One character on the screen is one character on the terminal.** -/
theorem vgaPutchar_shows (h : Shows v t) (ht : t.InWindow 80 25) (c : UInt8) :
    ∃ v', vgaPutchar v c = .ok v' ∧ Shows v' (t.put 80 25 (fun c => vgaEntry c v.color) c) ∧
      v'.color = v.color := by
  rw [vgaPutchar, Scrollback.put]
  split_ifs with hlf hcr htab
  · exact vgaNextRow_shows h ht.toInRows
  · exact ⟨_, rfl, ⟨h.row, rfl, h.cell⟩, rfl⟩
  · have hcol := h.col
    have hrows : Scrollback.InRows 25 { t with col := 8 * (t.col / 8 + 1) } :=
      ⟨ht.top_le, ht.row_lt⟩
    refine vgaWrap_shows (v := { v with col := v.col + 8 - (v.col + 8) % 8 }) ⟨h.row, ?_, h.cell⟩
      hrows
    dsimp only
    omega
  · obtain ⟨v', hwrite, hshows, hcolor⟩ := vgaWrite_shows h ht (vgaEntry c v.color)
    have hrows : (t.write (vgaEntry c v.color)).InRows 25 := ⟨ht.top_le, ht.row_lt⟩
    rw [hwrite]
    obtain ⟨v'', hwrap, hshows', hcolor'⟩ := vgaWrap_shows hshows hrows
    refine ⟨v'', hwrap, ?_, hcolor'.trans hcolor⟩
    dsimp only at hshows'
    rwa [hcolor] at hshows'

end

/-! ### A run -/

/-- The cursor is shown at this position, and no other register has changed. -/
theorem vgaUpdateCursor_location {v : Vga} (hrow : v.row < 25) (hcol : v.col < 80) (c : Crtc) :
    (vgaUpdateCursor v c).location = v.row * 80 + v.col ∧
      ∀ i, i ≠ 0x0E → i ≠ 0x0F → (vgaUpdateCursor v c).regs i = c.regs i := by
  have hpos : (UInt16.ofNat (v.row * 80 + v.col)).toNat = v.row * 80 + v.col := by
    rw [UInt16.toNat_ofNat', Nat.mod_eq_of_lt (by omega)]
  generalize hw : UInt16.ofNat (v.row * 80 + v.col) = pos at hpos
  have hregs : (vgaUpdateCursor v c).regs =
      Function.update (Function.update c.regs 0x0F (pos &&& 0xFF).toUInt8) 0x0E
        ((pos >>> 8) &&& 0xFF).toUInt8 := by
    rw [vgaUpdateCursor, hw]
    rfl
  constructor
  · have hlow : (pos &&& 0xFF).toUInt8.toNat = pos.toNat % 256 := by
      rw [UInt16.toNat_toUInt8, UInt16.toNat_and, show (0xFF : UInt16).toNat = 2 ^ 8 - 1 from rfl,
        Nat.and_two_pow_sub_one_eq_mod]
      omega
    have hhigh : ((pos >>> 8) &&& 0xFF).toUInt8.toNat = pos.toNat / 256 := by
      rw [UInt16.toNat_toUInt8, UInt16.toNat_and, show (0xFF : UInt16).toNat = 2 ^ 8 - 1 from rfl,
        Nat.and_two_pow_sub_one_eq_mod, UInt16.toNat_shiftRight,
        show (8 : UInt16).toNat % 16 = 8 from rfl, Nat.shiftRight_eq_div_pow]
      omega
    rw [Crtc.location, hregs, Function.update_self, Function.update_of_ne (by decide),
      Function.update_self, hlow, hhigh, ← hpos]
    omega
  · intro i hhigh hlow
    rw [hregs, Function.update_of_ne hhigh, Function.update_of_ne hlow]

/-- What is right of a screen that was initialised as `s₀`: it shows the terminal, the cursor is in
the window and is shown where it is, and the other registers are left alone. -/
structure ScreenRight (s₀ s : Screen) (d : Display) : Prop where
  shows : Shows s.vga d.term
  color : s.vga.color = d.color
  inWindow : d.term.InWindow 80 25
  location : s.crtc.location = s.vga.row * 80 + s.vga.col
  regs : ∀ i, i ≠ 0x0E → i ≠ 0x0F → s.crtc.regs i = s₀.crtc.regs i

namespace ScreenRight

variable {s₀ s : Screen} {d : Display}

/-- What a function has done, with the cursor behind it. -/
theorem update {t : Scrollback UInt16} {v : Vga} {color : UInt8} (hshows : Shows v t)
    (hcolor : v.color = color) (ht : t.InWindow 80 25)
    (hregs : ∀ i, i ≠ 0x0E → i ≠ 0x0F → s.crtc.regs i = s₀.crtc.regs i) :
    ∃ s', s.update (.ok v) = .ok s' ∧ ScreenRight s₀ s' ⟨t, color⟩ := by
  have hrow := hshows.row
  have hlt := ht.row_lt
  obtain ⟨hlocation, hother⟩ :=
    vgaUpdateCursor_location (v := v) (by omega) (hshows.col ▸ ht.col_lt) s.crtc
  exact ⟨_, rfl, hshows, hcolor, ht, hlocation, fun i hhigh hlow =>
    (hother i hhigh hlow).trans (hregs i hhigh hlow)⟩

theorem clear {t : Scrollback UInt16} {color : UInt8} (hcolor : s.vga.color = color)
    (hregs : ∀ i, i ≠ 0x0E → i ≠ 0x0F → s.crtc.regs i = s₀.crtc.regs i) :
    ∃ s', s.clear = .ok s' ∧ ScreenRight s₀ s' ⟨t.clear 25 (vgaEntry 32 color), color⟩ := by
  have hshows : Shows s.vga.cleared (t.clear 25 (vgaEntry 32 color)) := by
    refine ⟨rfl, rfl, fun y hy x hx => ?_⟩
    have hi : y * 80 + x < 2000 := by omega
    have hrow : t.top ≤ t.top + y ∧ t.top + y < t.top + 25 := by omega
    dsimp only [Vga.cleared, Vga.fill, Scrollback.clear]
    rw [if_pos hi, if_pos hrow, hcolor]
  rw [Screen.clear, vgaClear_eq]
  exact update hshows hcolor (Scrollback.inWindow_clear (by decide) (by decide) _) hregs

theorem putchar (h : ScreenRight s₀ s d) (c : UInt8) : ∃ s', s.putchar c = .ok s' ∧
    ScreenRight s₀ s' { d with term := d.term.put 80 25 d.entry c } := by
  obtain ⟨v', hput, hshows, hcolor⟩ := vgaPutchar_shows h.shows h.inWindow c
  rw [h.color] at hshows hcolor
  rw [Screen.putchar, hput]
  exact update hshows hcolor (Scrollback.inWindow_put h.inWindow _ c) h.regs

theorem puts (h : ScreenRight s₀ s d) (str : List UInt8) : ∃ s', s.puts str = .ok s' ∧
    ScreenRight s₀ s' { d with term := d.term.print 80 25 d.entry str } := by
  induction str generalizing s d with
  | nil => exact ⟨s, rfl, h⟩
  | cons c str ih =>
    obtain ⟨s', hput, h'⟩ := h.putchar c
    rw [Screen.puts, List.foldlM_cons, hput]
    exact ih h'

theorem setCursor (h : ScreenRight s₀ s d) (x y : ℤ) :
    ScreenRight s₀ (s.setCursor x y) { d with term := d.term.moveTo 80 25 x y } := by
  have ht := Scrollback.inWindow_moveTo h.inWindow x y
  rw [Screen.setCursor]
  by_cases hxy : 0 ≤ x ∧ x < 80 ∧ 0 ≤ y ∧ y < 25
  · have hmove : d.term.moveTo 80 25 x y =
        { d.term with row := d.term.top + y.toNat, col := x.toNat } := if_pos hxy
    rw [if_pos hxy]
    rw [hmove] at ht ⊢
    obtain ⟨hlocation, hregs⟩ := vgaUpdateCursor_location
      (v := { s.vga with col := x.toNat, row := y.toNat }) (by dsimp only; omega)
      (by dsimp only; omega) s.crtc
    exact ⟨⟨rfl, rfl, h.shows.cell⟩, h.color, ht, hlocation, fun i hhigh hlow =>
      (hregs i hhigh hlow).trans (h.regs i hhigh hlow)⟩
  · have hmove : d.term.moveTo 80 25 x y = d.term := if_neg hxy
    rw [if_neg hxy, hmove]
    exact h

/-- **One call.** -/
theorem step (h : ScreenRight s₀ s d) (op : VgaOp) :
    ∃ s', s.step op = .ok s' ∧ ScreenRight s₀ s' (d.step op) := by
  cases op with
  | init =>
    show ∃ s', s.init = .ok s' ∧ ScreenRight s₀ s'
      ⟨d.term.clear 25 (vgaEntry 32 (vgaEntryColor 7 0)), vgaEntryColor 7 0⟩
    rw [Screen.init]
    generalize vgaEntryColor 7 0 = color
    exact clear rfl h.regs
  | clear => exact clear h.color h.regs
  | putchar c => exact h.putchar c
  | puts str => exact h.puts str
  | setColor color =>
    have hshows : Shows (s.setColor color).vga d.term := ⟨h.shows.row, h.shows.col, h.shows.cell⟩
    exact ⟨_, rfl, hshows, rfl, h.inWindow, h.location, h.regs⟩
  | setCursor x y => exact ⟨_, rfl, h.setCursor x y⟩

/-- What is above the window stays. -/
theorem above_step (h : ScreenRight s₀ s d) (op : VgaOp) :
    Scrollback.Above d.term (d.step op).term := by
  cases op with
  | init => exact Scrollback.clear_above ..
  | clear => exact Scrollback.clear_above ..
  | putchar c => exact Scrollback.put_above h.inWindow.top_le ..
  | puts str => exact Scrollback.print_above h.inWindow _ str
  | setColor color => exact Scrollback.Above.refl _
  | setCursor x y => exact Scrollback.moveTo_above ..

theorem run (h : ScreenRight s₀ s d) (ops : List VgaOp) :
    ∃ s', ops.foldlM Screen.step s = .ok s' ∧ ScreenRight s₀ s' (ops.foldl Display.step d) ∧
      Scrollback.Above d.term (ops.foldl Display.step d).term := by
  induction ops generalizing s d with
  | nil => exact ⟨s, rfl, h, Scrollback.Above.refl _⟩
  | cons op ops ih =>
    obtain ⟨s', hstep, h'⟩ := h.step op
    obtain ⟨s'', hrun, hright, habove⟩ := ih h'
    rw [List.foldlM_cons, hstep]
    exact ⟨s'', hrun, hright, (h.above_step op).trans habove⟩

end ScreenRight

/-- **Every run of the functions** from `vga_init` is one of the terminal: no write goes outside the
buffer, the screen shows the window with the characters and their colors, the controller shows the
cursor where the next character goes, no other register of it changes, and a row that has left the
window stays as it was then. -/
theorem screen_run (s : Screen) (ops : List VgaOp) :
    ∃ s₀ s', s.init = .ok s₀ ∧ ops.foldlM Screen.step s₀ = .ok s' ∧
      ScreenRight s s' (ops.foldl Display.step .start) ∧
      ∀ n, Scrollback.Above ((ops.take n).foldl Display.step .start).term
        (ops.foldl Display.step .start).term := by
  have hinit : ∃ s₀, s.init = .ok s₀ ∧ ScreenRight s s₀ .start := by
    rw [Screen.init, Display.start]
    generalize vgaEntryColor 7 0 = color
    have hblank : Scrollback.clear 25 (vgaEntry 32 color) ⟨fun _ _ => vgaEntry 32 color, 0, 0, 0⟩ =
        ⟨fun _ _ => vgaEntry 32 color, 0, 0, 0⟩ := by
      rw [Scrollback.clear]
      simp only [ite_self]
    rw [← hblank]
    exact ScreenRight.clear rfl fun _ _ _ => rfl
  obtain ⟨s₀, hinit, hright⟩ := hinit
  obtain ⟨s', hrun, hright', -⟩ := hright.run ops
  refine ⟨s₀, s', hinit, hrun, hright', fun n => ?_⟩
  obtain ⟨s₁, -, hright₁, -⟩ := hright.run (ops.take n)
  obtain ⟨-, -, -, habove⟩ := hright₁.run (ops.drop n)
  rwa [← List.foldl_append, List.take_append_drop] at habove

/-! ### Hexadecimal numbers -/

/-- `hex_chars[d]`. -/
def hexUpper (d : ℕ) : UInt8 :=
  [48, 49, 50, 51, 52, 53, 54, 55, 56, 57, 65, 66, 67, 68, 69, 70].getD d 0

/-- `hex_chars[n & 0xF]`. -/
def hexUpperDigit (n : UInt32) : UInt8 := hexUpper (n &&& 0xF).toNat

/-- `vga_puthex`: the characters that it prints, or an index behind `buf`. -/
def vgaPuthexText (fuel : ℕ) (n : UInt32) : Option (Except ℕ (List UInt8)) :=
  if n = 0 then some (.ok [48, 120, 48])
  else
    (iterate (digitTurn 9 (fun n => n ≠ 0) hexUpperDigit (· >>> 4)) fuel (n, [])).map fun
      | .error i => .error i
      | .ok buf => .ok ([48, 120] ++ buf.reverse)

/-- The buffer is not left, and the text is read back as the number by `%x`, in front of anything
that is no digit. -/
theorem vgaPuthex_scan {fuel : ℕ} (hfuel : 9 < fuel) (n : UInt32) {rest : List UInt8}
    (hrest : ∀ c ∈ rest.head?, isDigit 16 c = false) :
    ∃ text, vgaPuthexText fuel n = some (.ok text) ∧
      scanNumber 16 (text ++ rest) = some (n, rest) := by
  have hscan : ∀ ds, ds ≠ [] → (∀ c ∈ ds, isDigit 16 c = true) → value 16 ds = n.toNat →
      scanNumber 16 (48 :: 120 :: ds ++ rest) = some (n, rest) := by
    intro ds hnil hds hvalue
    have hok : (⟨[], [], [48, 120], ds⟩ : NumberText).Ok 16 :=
      ⟨nofun, Or.inl rfl, Or.inr ⟨rfl, Or.inl rfl⟩, hnil, hds⟩
    have hread := hok.scan ⟨hrest, nofun⟩
    have hnumber : convert false n.toNat = n := by
      rw [convert_ofNat n.toNat_lt, UInt32.ofNat_toNat]
    rw [NumberText.number, hvalue] at hread
    rw [← hnumber]
    exact hread
  rw [vgaPuthexText]
  by_cases hzero : n = 0
  · rw [if_pos hzero]
    refine ⟨_, rfl, hscan [48] (List.cons_ne_nil _ _) (fun c hc => ?_) ?_⟩
    · rw [List.mem_singleton.mp hc]
      rfl
    · rw [hzero]
      rfl
  have hne : n.toNat ≠ 0 := fun h => hzero (UInt32.toNat_inj.mp h)
  have hlen : (Nat.digits 16 n.toNat).length ≤ 8 := by
    have hlt := n.toNat_lt
    rw [Nat.digits_length_le_iff (by decide)]
    omega
  have hdigits : iterate (digitTurn 9 (fun n => n ≠ 0) hexUpperDigit (· >>> 4)) fuel (n, []) =
      some (.ok ((Nat.digits 16 n.toNat).map hexUpper)) := by
    refine iterate_digitTurn (by decide) UInt32.toNat (fun _ => True) (fun m _ => ?_)
      (fun m _ => ?_) (fun m _ => ⟨trivial, ?_⟩) trivial [] (by rw [List.length_nil]; omega)
      (by omega)
    · rw [decide_eq_true_iff]
      exact not_congr UInt32.toNat_inj.symm
    · rw [hexUpperDigit, UInt32.toNat_and]
      exact congrArg hexUpper (Nat.and_two_pow_sub_one_eq_mod m.toNat 4)
    · rw [UInt32.toNat_shiftRight, Nat.shiftRight_eq_div_pow]
      rfl
  have hupper : ∀ d < 16, digitVal (hexUpper d) = some d := by decide
  obtain ⟨hds, hvalue⟩ := value_digits (by decide) hupper n.toNat
  rw [if_neg hzero, hdigits]
  refine ⟨_, rfl, hscan ((Nat.digits 16 n.toNat).map hexUpper).reverse ?_ hds hvalue⟩
  rw [ne_eq, List.reverse_eq_nil_iff, List.map_eq_nil_iff, Nat.digits_eq_nil_iff_eq_zero]
  exact hne

theorem vgaPuthex_scan_line : ∃ text, vgaPuthexText 10 0xB8000 = some (.ok text) ∧
    scanNumber 16 (text ++ [10]) = some (0xB8000, [10]) :=
  vgaPuthex_scan (by decide) 0xB8000 fun c hc => by
    rw [← Option.some_inj.mp hc]
    decide

end Rexus
