import Rexus.Core.KernelCommands
import Rexus.Drivers.ConsoleEcho
import Rexus.Drivers.ConsoleLines

/-!
# The shell

The kernel behind `console_init`: the main loop calls `console_update` whenever it wakes up, and
keys come in between. An update may find the memory in any state, and anything on its stack. A run
carries what has been printed, and the screen always shows the end of that, put on an unbounded
page.

What somebody at the keyboard sees is a shell, which knows nothing of buffers, rows or windows: a
line editor, the line that has been entered but not executed, and an unbounded page. The terminal
shows that page, as long as the keys between Enter and the update are quiet.

## Main results

* `kernel_safe` — in no run is a buffer left, and the screen shows what has been printed
* `kernel_refines` — the terminal shows the page of the shell

## Scope

A key and an update are one step each: the interrupt of the keyboard does not come in the middle of
an update, nor of another key. The keys are what the driver of the keyboard gives the callback, with
any code and any character. An event gives `none` if a buffer is left or the fuel for a loop of
`console_printf` is used up; more than a hundred turns are enough for every command, so it is the
first that the theorems exclude. The memory is what `meminfo` reports, and no command changes it.
-/

namespace Rexus

open Bytes Run Words

/-! ### The screen -/

/-- A call that draws on the screen. -/
def ScreenOp.onScreen (v : Vga) : ScreenOp → Except ℕ Vga
  | .puts text => vgaPuts v text
  | .clear => vgaClear v
  | .setColor color => .ok { v with color }

/-- These calls, one after the other. -/
def drawOps : Vga → List ScreenOp → Except ℕ Vga
  | v, [] => .ok v
  | v, op :: ops =>
    match op.onScreen v with
    | .ok v => drawOps v ops
    | .error i => .error i

/-- `console_prompt`. -/
def consolePrompt : List UInt8 := ascii "REXUS> "

/-- What `console_init` draws. -/
def consoleWelcome : List ScreenOp :=
  [consoleClear, consoleSetColor 11 0, consolePuts (ascii "REXUS Kernel Console\n"),
    consolePuts (ascii "Type 'help' for a list of commands\n\n"), consoleSetColor 7 0,
    consolePuts consolePrompt]

/-! ### The kernel -/

/-- A key, with what it decodes to; or an update, with the state of the memory and what is on the
stack of `console_execute_command`. -/
inductive KernelOp where
  | key (key : UInt16) (c : UInt8)
  | update (w : KernelMemory) (cmdCopy : ℕ → UInt8)

namespace Terminal

/-- The console, with what these calls make of the screen. -/
def draw (console : Console) (v : Vga) (ops : List ScreenOp) : Option Terminal :=
  match drawOps v ops with
  | .ok vga => some ⟨console, vga⟩
  | .error _ => none

/-- `console_init` on a screen: the state is cleared, and welcome and prompt are printed. With
`none` something is written behind the screen. -/
def boot (v : Vga) : Option Terminal := draw consoleInit v consoleWelcome

/-- `console_update`: the line is executed, and the prompt is displayed. -/
def update (fuel : ℕ) (w : KernelMemory) (cmdCopy : ℕ → UInt8) (t : Terminal) : Option Terminal :=
  match consoleUpdate t.console with
  | .ok (some cmd, console) =>
    match consoleExecuteCommand kernelTable w fuel cmdCopy cmd with
    | some (.ok ops) => draw console t.vga (ops ++ [consolePuts consolePrompt])
    | _ => none
  | .ok (none, console) => some { t with console }
  | .error _ => none

/-- One event; `none` if a buffer is left, or the fuel for a loop of `console_printf` is used up. -/
def step (fuel : ℕ) (t : Terminal) : KernelOp → Option Terminal
  | .key key c => t.press (key, c)
  | .update w cmdCopy => t.update fuel w cmdCopy

/-- What an event prints: what the callback does for a key, and for an update the command and the
prompt behind it. -/
def prints (fuel : ℕ) (t : Terminal) : KernelOp → List ScreenOp
  | .key key c =>
    match consoleKeyboardCallback t.console key c with
    | .ok (text, _) => [.puts text]
    | .error _ => []
  | .update w cmdCopy =>
    match consoleUpdate t.console with
    | .ok (some cmd, _) =>
      match consoleExecuteCommand kernelTable w fuel cmdCopy cmd with
      | some (.ok ops) => ops ++ [consolePuts consolePrompt]
      | _ => []
    | _ => []

/-- Between Enter and the update no key is pressed that would change the line or the cursor. -/
def Quiet (t : Terminal) : KernelOp → Prop
  | .update _ _ => True
  | .key key c =>
    t.console.inputReady = true →
      match consoleKey key c with
      | .enter | .character _ => False
      | .backspace | .home | .left => t.console.inputPosition = 0
      | .up => t.console.historyCount = 0
      | .down | .other => True

end Terminal

/-! ### The shell -/

/-- What is shown to erase a line. -/
def eraseText (line : List UInt8) : List UInt8 := (List.replicate line.length [8, 32, 8]).flatten

/-- What a key shows. -/
def LineEditor.echo (e : LineEditor) : ConsoleKey → List UInt8
  | .enter => [10]
  | .backspace => if e.line = [] then [] else [8, 32, 8]
  | .character ch => if e.line.length < 255 then [ch] else []
  | .up => if lastTen e.submitted = [] then [] else eraseText e.line ++ (e.press .up).line
  | .down => if e.recalled = 0 then [] else eraseText e.line ++ (e.press .down).line
  | .home => List.replicate e.line.length 8
  | .left => if e.line = [] then [] else [8]
  | .other => []

/-- The editor, the line that is to be executed, and what has been shown. -/
structure Shell where
  editor : LineEditor
  pending : Option (List UInt8)
  page : Page

namespace Shell

/-- The welcome, and the first prompt. -/
def start : Shell := ⟨⟨[], [], 0⟩, none, showOps .blank consoleWelcome⟩

/-- One event. -/
def step (s : Shell) : KernelOp → Shell
  | .key key c =>
    let k := consoleKey key c
    ⟨s.editor.press k, if k = .enter then some s.editor.line else s.pending,
      s.page.print 80 (s.editor.echo k)⟩
  | .update w _ =>
    match s.pending with
    | none => s
    | some line =>
      { s with
        pending := none
        page := (showOps s.page (respond w (words isBlank line))).print 80 consolePrompt }

end Shell

/-! ### Drawing -/

/-- The screen shows the page, and the next character has a place on it. -/
structure OnPage (v : Vga) (p : Page) : Prop where
  window : Window v p
  below : p.BlankBelow
  col_lt : p.col < 80

section

variable {v : Vga} {p : Page}

theorem OnPage.puts (h : OnPage v p) (text : List UInt8) :
    ∃ v', vgaPuts v text = .ok v' ∧ OnPage v' (p.print 80 text) := by
  obtain ⟨v', hputs, hwindow, hcol⟩ := vgaPuts_window h.window h.below h.col_lt text
  exact ⟨v', hputs, hwindow, Page.blankBelow_print h.below text, hcol⟩

theorem onPage_cleared (v : Vga) : OnPage v.cleared .blank where
  window := by
    refine ⟨rfl, rfl, fun y hy x hx => ?_⟩
    have hi : y * 80 + x < 2000 := by omega
    dsimp only [Vga.cleared, Vga.fill]
    rw [if_pos hi, vgaCharacter_vgaEntry]
    rfl
  below := Page.blankBelow_blank
  col_lt := by decide

/-- Each call draws what it says. -/
theorem OnPage.draw (h : OnPage v p) (op : ScreenOp) :
    ∃ v', op.onScreen v = .ok v' ∧ OnPage v' (op.onPage p) := by
  cases op with
  | puts text => exact h.puts text
  | clear => exact ⟨v.cleared, vgaClear_eq v, onPage_cleared v⟩
  | setColor color => exact ⟨_, rfl, ⟨h.window.row, h.window.col, h.window.text⟩, h.below, h.col_lt⟩

theorem drawOps_clear (v : Vga) (ops : List ScreenOp) :
    Rexus.drawOps v (.clear :: ops) = Rexus.drawOps v.cleared ops := by
  rw [Rexus.drawOps, ScreenOp.onScreen, vgaClear_eq]

theorem showOps_consolePuts (p : Page) (text : List UInt8) :
    showOps p [consolePuts text] = p.print 80 text := rfl

theorem OnPage.drawOps (h : OnPage v p) (ops : List ScreenOp) :
    ∃ v', drawOps v ops = .ok v' ∧ OnPage v' (showOps p ops) := by
  induction ops generalizing v p with
  | nil => exact ⟨v, rfl, h⟩
  | cons op ops ih =>
    obtain ⟨v₁, hop, h₁⟩ := h.draw op
    rw [Rexus.drawOps, hop]
    exact ih h₁

end

/-- After `console_init` the screen shows the welcome, whatever it showed before. -/
theorem boot_onPage (v : Vga) :
    ∃ vga, Terminal.boot v = some ⟨consoleInit, vga⟩ ∧ OnPage vga Shell.start.page := by
  obtain ⟨ops, hwelcome⟩ : ∃ ops, consoleWelcome = .clear :: ops := ⟨_, rfl⟩
  have hpage : Shell.start.page = showOps .blank ops := by rw [Shell.start, hwelcome]; rfl
  obtain ⟨vga, hdraw, h⟩ := (onPage_cleared v).drawOps ops
  refine ⟨vga, ?_, ?_⟩
  · rw [Terminal.boot, hwelcome, Terminal.draw, drawOps_clear, hdraw]
  · rw [hpage]
    exact h

/-! ### One event -/

namespace Terminal

variable {fuel : ℕ} {t : Terminal} {p : Page}

theorem press_eq (h : OnPage t.vga p) {key : UInt16} {c : UInt8} {out : List UInt8} {c' : Console}
    (hpress : consolePress t.console (consoleKey key c) = .ok (out, c')) :
    ∃ v', t.step fuel (.key key c) = some ⟨c', v'⟩ ∧ OnPage v' (p.print 80 out) := by
  obtain ⟨v', hputs, hpage⟩ := h.puts out
  refine ⟨v', ?_, hpage⟩
  rw [step, press, consoleKeyboardCallback_eq, hpress]
  dsimp only
  rw [hputs]

theorem update_eq (h : OnPage t.vga p) (w : KernelMemory) (cmdCopy : ℕ → UInt8) {line : List UInt8}
    {c' : Console} (hupdate : consoleUpdate t.console = .ok (some line, c'))
    (hline : ∀ c ∈ line, c ≠ 0) (hsize : line.length < 256) (hfuel : 100 < fuel) :
    ∃ v', t.step fuel (.update w cmdCopy) = some ⟨c', v'⟩ ∧
      OnPage v' ((showOps p (respond w (words isBlank line))).print 80 consolePrompt) := by
  obtain ⟨ops, hexecute, hops⟩ := kernelCommands_respond w cmdCopy hline hsize hfuel
  obtain ⟨v', hdraw, hpage⟩ := h.drawOps (ops ++ [consolePuts consolePrompt])
  rw [showOps_append, hops, showOps_consolePuts] at hpage
  refine ⟨v', ?_, hpage⟩
  rw [step, update, hupdate]
  dsimp only
  rw [hexecute]
  dsimp only
  rw [draw, hdraw]

theorem update_idle (hready : t.console.inputReady = false) (w : KernelMemory)
    (cmdCopy : ℕ → UInt8) : t.step fuel (.update w cmdCopy) = some t := by
  have hupdate : consoleUpdate t.console = .ok (none, t.console) :=
    if_neg (by rw [hready]; exact Bool.false_ne_true)
  rw [step, update, hupdate]

end Terminal

/-- An update takes the string in the buffer. -/
theorem consoleUpdate_ready {c : Console} {submitted : List (List UInt8)}
    (h : ConsoleInv c submitted) (hready : c.inputReady = true) {line : List UInt8}
    (hholds : Holds c.inputBuffer line) :
    consoleUpdate c = .ok (some line, c.clear) ∧ line.length < 256 ∧ ∀ ch ∈ line, ch ≠ 0 := by
  obtain ⟨l, hl, hlen⟩ := h.holds_buffer
  obtain rfl := hholds.unique hl
  have hsize : line.length < 256 := Nat.lt_succ_of_le hlen
  refine ⟨?_, hsize, hl.nonnull⟩
  rw [consoleUpdate, if_pos hready, strlen_of_holds hl hsize]
  dsimp only
  rw [hl.text]
  rfl

/-! ### What a key shows -/

section

variable {c c' : Console} {e : LineEditor} {out line : List UInt8}

/-- What is shown ends with the new line. -/
theorem consoleShow_printed {printed : List UInt8}
    (h : consoleShow printed c = .ok (out, c')) : out = printed ++ c'.line := by
  rw [consoleShow] at h
  cases hlen : strlen c.inputBuffer 256 with
  | error err =>
    rw [hlen] at h
    cases h
  | ok n =>
    rw [hlen] at h
    obtain ⟨rfl, rfl⟩ := Prod.mk.inj (Except.ok.inj h)
    rfl

theorem consoleRecall_printed {i : ℤ} (h : consoleRecall c i = .ok (out, c')) :
    out = eraseText c.line ++ c'.line := by
  rw [eraseText, c.length_line]
  rw [consoleRecall] at h
  dsimp only [consoleErase] at h
  cases hcopy : strcpy c.inputBuffer (c.historyBuffer i.toNat) 256 with
  | error err =>
    rw [hcopy] at h
    cases h
  | ok d =>
    rw [hcopy] at h
    exact consoleShow_printed h

theorem consoleDown_printed (hrecalled : c.historyPosition ≠ -1)
    (h : consoleDown c = .ok (out, c')) : out = eraseText c.line ++ c'.line := by
  rw [consoleDown, if_pos hrecalled] at h
  split_ifs at h
  · rw [eraseText, c.length_line]
    exact consoleShow_printed h
  · exact consoleRecall_printed h

/-- **A key shows what the editor's does**, before Enter. -/
theorem consolePress_echo (h : Tracks c e) {key : ConsoleKey}
    (hpress : consolePress c key = .ok (out, c')) (hnext : key ≠ .enter → Tracks c' (e.press key)) :
    out = e.echo key := by
  have hlen : e.line.length = c.inputPosition := h.line ▸ c.length_line
  have hnil : e.line = [] ↔ ¬0 < c.inputPosition := by
    rw [← List.length_eq_zero_iff, hlen]
    omega
  cases key with
  | enter =>
    obtain ⟨history, henter, -⟩ := consoleEnter_eq h.inv
    have heq := Except.ok.inj (hpress.symm.trans henter)
    exact congrArg Prod.fst heq
  | backspace =>
    have heq : out = (consoleBackspace c).1 := (congrArg Prod.fst (Except.ok.inj hpress)).symm
    rw [heq, consoleBackspace, LineEditor.echo]
    by_cases hpos : 0 < c.inputPosition
    · rw [if_pos hpos, if_neg (by rwa [hnil, not_not])]
    · rw [if_neg hpos, if_pos (hnil.mpr hpos)]
  | character ch =>
    have heq : out = (consoleType c ch).1 := (congrArg Prod.fst (Except.ok.inj hpress)).symm
    rw [heq, consoleType, LineEditor.echo, hlen]
    split_ifs
    · rfl
    · rfl
  | up =>
    have hline := (hnext (by decide)).line
    have hcount := h.inv.historyCount_eq
    rw [LineEditor.echo]
    change consoleUp c = .ok (out, c') at hpress
    rw [consoleUp] at hpress
    by_cases hnone : lastTen e.submitted = []
    · rw [hnone] at hcount
      rw [if_neg (by rw [hcount]; exact Nat.lt_irrefl 0)] at hpress
      rw [if_pos hnone]
      exact (congrArg Prod.fst (Except.ok.inj hpress)).symm
    · rw [if_pos (hcount ▸ List.length_pos_of_ne_nil hnone)] at hpress
      rw [if_neg hnone, ← hline, ← h.line]
      exact consoleRecall_printed hpress
  | down =>
    have hline := (hnext (by decide)).line
    have hposition := h.position
    have hle := h.recalled_le
    rw [LineEditor.echo]
    change consoleDown c = .ok (out, c') at hpress
    by_cases hnew : e.recalled = 0
    · rw [if_pos hnew] at hposition ⊢
      rw [consoleDown, if_neg (not_not.mpr hposition)] at hpress
      exact (congrArg Prod.fst (Except.ok.inj hpress)).symm
    · rw [if_neg hnew] at hposition ⊢
      rw [← hline, ← h.line]
      exact consoleDown_printed (by omega) hpress
  | home =>
    have heq : out = (consoleHome c).1 := (congrArg Prod.fst (Except.ok.inj hpress)).symm
    rw [heq, consoleHome, LineEditor.echo, hlen]
  | left =>
    have heq : out = (consoleLeft c).1 := (congrArg Prod.fst (Except.ok.inj hpress)).symm
    rw [heq, consoleLeft, LineEditor.echo]
    by_cases hpos : 0 < c.inputPosition
    · rw [if_pos hpos, if_neg (by rwa [hnil, not_not])]
    · rw [if_neg hpos, if_pos (hnil.mpr hpos)]
  | other => exact (congrArg Prod.fst (Except.ok.inj hpress)).symm

end

/-! ### Every run -/

/-- An event draws what it prints. -/
theorem Terminal.onPage_step {fuel : ℕ} {t u : Terminal} {p : Page} (h : OnPage t.vga p)
    {op : KernelOp} (hstep : t.step fuel op = some u) :
    OnPage u.vga (showOps p (t.prints fuel op)) := by
  cases op with
  | key key c =>
    rw [Terminal.step, press] at hstep
    rw [prints]
    cases hpress : consoleKeyboardCallback t.console key c with
    | error i =>
      rw [hpress] at hstep
      cases hstep
    | ok out =>
      obtain ⟨v', hputs, hpage⟩ := h.puts out.1
      rw [hpress] at hstep
      dsimp only at hstep
      rw [hputs] at hstep
      exact Option.some_inj.mp hstep ▸ hpage
  | update w cmdCopy =>
    rw [Terminal.step, Terminal.update] at hstep
    rw [prints]
    cases hupdate : consoleUpdate t.console with
    | error i =>
      rw [hupdate] at hstep
      cases hstep
    | ok taken =>
      obtain ⟨line, console⟩ := taken
      rw [hupdate] at hstep
      cases line with
      | none => exact Option.some_inj.mp hstep ▸ h
      | some cmd =>
        dsimp only at hstep ⊢
        cases hexecute : consoleExecuteCommand kernelTable w fuel cmdCopy cmd with
        | none =>
          rw [hexecute] at hstep
          cases hstep
        | some result =>
          rw [hexecute] at hstep
          cases result with
          | error i => cases hstep
          | ok ops =>
            obtain ⟨v', hdraw, hpage⟩ := h.drawOps (ops ++ [consolePuts consolePrompt])
            dsimp only at hstep
            rw [draw, hdraw] at hstep
            exact Option.some_inj.mp hstep ▸ hpage

/-- The terminal, and what has been printed since the start, as the list of the calls of the screen
that the commands, the console and the prompt have made. -/
structure KernelRun where
  terminal : Terminal
  printed : List ScreenOp

namespace KernelRun

/-- One event, with what it has printed. A call that runs past a buffer, or out of fuel, is no step,
so what is shown of a run is completed by what says that each event is one. -/
def Step (fuel : ℕ) (a : KernelRun) (op : KernelOp) (b : KernelRun) : Prop :=
  a.terminal.step fuel op = some b.terminal ∧
    b.printed = a.printed ++ a.terminal.prints fuel op

/-- What holds in every run: the buffers of the console hold strings, and the screen shows what has
been printed. -/
structure Sound (a : KernelRun) : Prop where
  buffers : ∃ submitted, ConsoleInv a.terminal.console submitted
  page : OnPage a.terminal.vga (showOps .blank a.printed)

variable {fuel : ℕ} {a b : KernelRun}

theorem Sound.step (h : a.Sound) (hfuel : 100 < fuel) (op : KernelOp) :
    ∃ u, a.terminal.step fuel op = some u ∧ ∃ submitted, ConsoleInv u.console submitted := by
  obtain ⟨submitted, hinv⟩ := h.buffers
  cases op with
  | key key c =>
    obtain ⟨out, c', hpress, hinv'⟩ := consolePress_inv hinv (consoleKey key c)
      fun ch hch => ne_zero_of_consoleKey hch
    obtain ⟨v', hstep, -⟩ := Terminal.press_eq h.page hpress
    exact ⟨_, hstep, _, hinv'⟩
  | update w cmdCopy =>
    by_cases hready : a.terminal.console.inputReady = true
    · obtain ⟨line, hholds, -⟩ := hinv.holds_buffer
      obtain ⟨hupdate, hsize, hline⟩ := consoleUpdate_ready hinv hready hholds
      obtain ⟨v', hstep, -⟩ := Terminal.update_eq h.page w cmdCopy hupdate hline hsize hfuel
      exact ⟨_, hstep, _, hinv.clear⟩
    · exact ⟨_, Terminal.update_idle (Bool.not_eq_true _ ▸ hready) w cmdCopy, submitted, hinv⟩

theorem Sound.next (h : a.Sound) (hfuel : 100 < fuel) {op : KernelOp} (hstep : a.Step fuel op b) :
    b.Sound := by
  obtain ⟨u, hu, hbuffers⟩ := h.step hfuel op
  obtain rfl := Option.some_inj.mp (hstep.1.symm.trans hu)
  refine ⟨hbuffers, ?_⟩
  rw [hstep.2, showOps_append]
  exact Terminal.onPage_step h.page hstep.1

end KernelRun

/-- **In no run is a buffer left**, be it of the console, of a command, of `console_printf` or of
the screen, whichever keys come between which updates; and the screen always shows the end of what
has been printed, from the welcome on. -/
theorem kernel_safe (v : Vga) (fuel : ℕ) (hfuel : 100 < fuel) :
    ∃ t₀, Terminal.boot v = some t₀ ∧
      ∀ a, Reaches (KernelRun.Step fuel) ⟨t₀, consoleWelcome⟩ a →
        (∀ op, ∃ b, a.Step fuel op b) ∧ a.terminal.vga.row < 25 ∧ a.terminal.vga.col < 80 ∧
          Window a.terminal.vga (showOps .blank a.printed) := by
  obtain ⟨vga, hboot, hpage₀⟩ := boot_onPage v
  refine ⟨_, hboot, fun a hreaches => ?_⟩
  have hsound : a.Sound := hreaches.invariant (I := KernelRun.Sound)
    ⟨⟨_, consoleInit_inv⟩, hpage₀⟩ fun a op b ha hab => ha.next hfuel hab
  have hstep (op : KernelOp) : ∃ b, a.Step fuel op b := by
    obtain ⟨u, hu, -⟩ := hsound.step hfuel op
    exact ⟨⟨u, _⟩, hu, rfl⟩
  have hpage := hsound.page
  exact ⟨hstep, hpage.window.row_lt, hpage.window.col ▸ hpage.col_lt, hpage.window⟩

/-- A screen of null characters, before `console_init`. -/
def zeroVga : Vga := ⟨fun _ => 0, 0, 0, 7⟩

theorem kernel_safe_zero :
    ∃ t₀, Terminal.boot zeroVga = some t₀ ∧
      ∀ a, Reaches (KernelRun.Step 101) ⟨t₀, consoleWelcome⟩ a →
        (∀ op, ∃ b, a.Step 101 op b) ∧ a.terminal.vga.row < 25 ∧ a.terminal.vga.col < 80 ∧
          Window a.terminal.vga (showOps .blank a.printed) :=
  kernel_safe zeroVga 101 (by decide)

/-! ### Quiet runs -/

/-- The terminal is at the page of the shell; the console is at the line of its editor, or has the
line that is to be executed in its buffer. -/
structure Refines (t : Terminal) (s : Shell) : Prop where
  page : OnPage t.vga s.page
  console : match s.pending with
    | none => ConsoleTalk.Idle ⟨t.console, s.editor, s.editor.entered⟩
    | some line => ∃ executed, ConsoleTalk.Pending ⟨t.console, s.editor, executed⟩ line

/-- A quiet key, between Enter and the update, does and shows nothing. -/
theorem quiet_press {t : Terminal} {e : LineEditor} {executed : List (List UInt8)}
    {line : List UInt8} (h : ConsoleTalk.Pending ⟨t.console, e, executed⟩ line) {key : UInt16}
    {c : UInt8} (hquiet : t.Quiet (.key key c)) :
    consoleKey key c ≠ .enter ∧ consolePress t.console (consoleKey key c) = .ok ([], t.console) ∧
      e.press (consoleKey key c) = e ∧ e.echo (consoleKey key c) = [] := by
  have hquiet := hquiet h.ready
  have hempty : e.line = [] := h.empty
  have hnil : { e with line := [] } = e := by rw [← hempty]
  cases hkey : consoleKey key c with
  | enter => rw [hkey] at hquiet; exact hquiet.elim
  | character ch => rw [hkey] at hquiet; exact hquiet.elim
  | backspace =>
    rw [hkey] at hquiet
    have hstart : ¬0 < t.console.inputPosition := Nat.not_lt.mpr (Nat.le_zero.mpr hquiet)
    refine ⟨by decide, ?_, ?_, if_pos hempty⟩
    · rw [consolePress, consoleBackspace, if_neg hstart]
    · rw [LineEditor.press, hempty]
      exact hnil
  | home =>
    rw [hkey] at hquiet
    have hstart : { t.console with inputPosition := 0 } = t.console := by rw [← hquiet]
    refine ⟨by decide, ?_, hnil, ?_⟩
    · rw [consolePress, consoleHome, hstart, hquiet]
      rfl
    · rw [LineEditor.echo, hempty]
      rfl
  | left =>
    rw [hkey] at hquiet
    have hstart : ¬0 < t.console.inputPosition := Nat.not_lt.mpr (Nat.le_zero.mpr hquiet)
    refine ⟨by decide, ?_, ?_, if_pos hempty⟩
    · rw [consolePress, consoleLeft, if_neg hstart]
    · rw [LineEditor.press, hempty]
      exact hnil
  | up =>
    rw [hkey] at hquiet
    have hnone : lastTen e.submitted = [] :=
      List.eq_nil_of_length_eq_zero (h.inv.historyCount_eq.symm.trans hquiet)
    exact ⟨by decide, if_neg (Nat.not_lt.mpr (Nat.le_zero.mpr hquiet)), if_pos hnone, if_pos hnone⟩
  | down => exact ⟨by decide, if_neg (not_not.mpr h.position), if_pos h.recalled, if_pos h.recalled⟩
  | other => exact ⟨by decide, rfl, rfl, rfl⟩

section

variable {fuel : ℕ} {t : Terminal} {s : Shell}

/-- A key before Enter, or Enter itself. -/
theorem Refines.press_idle (h : Refines t s) (hnone : s.pending = none) (key : UInt16) (c : UInt8) :
    ∃ u, t.step fuel (.key key c) = some u ∧ Refines u (s.step (.key key c)) := by
  have hidle := h.console
  rw [hnone] at hidle
  have htracks : Tracks t.console s.editor := hidle.tracks
  by_cases henter : consoleKey key c = .enter
  · obtain ⟨out, c', hpress, hentered⟩ := consoleEnter_entered htracks.inv
    have hkey : consolePress t.console (consoleKey key c) = .ok (out, c') := by rwa [henter]
    obtain ⟨v', hstep, hpage⟩ := Terminal.press_eq h.page hkey
    rw [consolePress_echo htracks hkey fun hne => absurd henter hne] at hpage
    refine ⟨_, hstep, hpage, ?_⟩
    rw [Shell.step]
    dsimp only
    rw [if_pos henter, henter]
    exact ⟨s.editor.entered, {
      ready := hentered.ready
      inv := htracks.submit_eq ▸ hentered.inv
      position := hentered.position
      holds := htracks.line ▸ hentered.holds
      empty := rfl
      recalled := rfl
      executed := rfl }⟩
  · obtain ⟨out, c', hpress, hnext, hready⟩ := consolePress_tracks htracks henter
      fun ch hch => ne_zero_of_consoleKey hch
    obtain ⟨v', hstep, hpage⟩ := Terminal.press_eq h.page hpress
    rw [consolePress_echo htracks hpress fun _ => hnext] at hpage
    refine ⟨_, hstep, hpage, ?_⟩
    rw [Shell.step]
    dsimp only
    rw [if_neg henter, hnone]
    exact ⟨hready.trans hidle.ready, hnext, rfl⟩

/-- A quiet key between Enter and the update. -/
theorem Refines.press_pending (h : Refines t s) {line : List UInt8} (hsome : s.pending = some line)
    {key : UInt16} {c : UInt8} (hquiet : t.Quiet (.key key c)) :
    ∃ u, t.step fuel (.key key c) = some u ∧ Refines u (s.step (.key key c)) := by
  have hconsole := h.console
  rw [hsome] at hconsole
  obtain ⟨executed, hpending⟩ := hconsole
  obtain ⟨henter, hpress, heditor, hecho⟩ := quiet_press hpending hquiet
  obtain ⟨v', hstep, hpage⟩ := Terminal.press_eq h.page hpress
  rw [← hecho] at hpage
  refine ⟨_, hstep, hpage, ?_⟩
  rw [Shell.step]
  dsimp only
  rw [if_neg henter, hsome, heditor]
  exact ⟨executed, hpending⟩

theorem Refines.update (h : Refines t s) (hfuel : 100 < fuel) (w : KernelMemory)
    (cmdCopy : ℕ → UInt8) :
    ∃ u, t.step fuel (.update w cmdCopy) = some u ∧ Refines u (s.step (.update w cmdCopy)) := by
  have hconsole := h.console
  rw [Shell.step]
  cases hpending : s.pending with
  | none =>
    rw [hpending] at hconsole
    exact ⟨t, Terminal.update_idle hconsole.ready w cmdCopy, h⟩
  | some line =>
    rw [hpending] at hconsole
    obtain ⟨executed, hline⟩ := hconsole
    obtain ⟨hupdate, hsize, hne⟩ := consoleUpdate_ready hline.inv hline.ready hline.holds
    obtain ⟨v', hstep, hpage⟩ := Terminal.update_eq h.page w cmdCopy hupdate hne hsize hfuel
    have htracks : Tracks t.console.clear s.editor := {
      inv := hline.inv.clear
      line := hline.empty.symm
      recalled_le := hline.recalled.trans_le (Nat.zero_le _)
      position := by rw [hline.recalled]; exact hline.position }
    refine ⟨_, hstep, ?_, ⟨rfl, htracks, rfl⟩⟩
    dsimp only
    exact hpage

/-- **A quiet event of the terminal is one of the shell.** -/
theorem Refines.step (h : Refines t s) (hfuel : 100 < fuel) {op : KernelOp} (hquiet : t.Quiet op) :
    ∃ u, t.step fuel op = some u ∧ Refines u (s.step op) := by
  cases op with
  | update w cmdCopy => exact h.update hfuel w cmdCopy
  | key key c =>
    cases hpending : s.pending with
    | none => exact h.press_idle hpending key c
    | some line => exact h.press_pending hpending hquiet

end

/-- The terminal and the shell, side by side, after the same keys and updates. The shell knows no
buffer and no screen, only the lines that are typed and what they make it print. -/
structure Session where
  terminal : Terminal
  shell : Shell

/-- A quiet event of both. -/
def Session.Step (fuel : ℕ) (a : Session) (op : KernelOp) (b : Session) : Prop :=
  a.terminal.Quiet op ∧ a.terminal.step fuel op = some b.terminal ∧ b.shell = a.shell.step op

/-- **The terminal shows the page of the shell**, after every run in which the keys between Enter
and the update are quiet, whatever the lines are and how long; and the line that is being typed is
that of its editor. -/
theorem kernel_refines (v : Vga) (fuel : ℕ) (hfuel : 100 < fuel) :
    ∃ t₀, Terminal.boot v = some t₀ ∧
      ∀ a, Reaches (Session.Step fuel) ⟨t₀, Shell.start⟩ a →
        Window a.terminal.vga a.shell.page ∧
          a.terminal.console.inputReady = a.shell.pending.isSome ∧
          (a.shell.pending = none → a.terminal.console.line = a.shell.editor.line) ∧
          ∀ op, a.terminal.Quiet op → ∃ b, a.Step fuel op b := by
  obtain ⟨vga, hboot, hpage₀⟩ := boot_onPage v
  refine ⟨_, hboot, fun a hreaches => ?_⟩
  have hrefines : Refines a.terminal a.shell := by
    refine hreaches.invariant (I := fun a => Refines a.terminal a.shell)
      ⟨hpage₀, ConsoleTalk.start_idle⟩ fun a op b ha hab => ?_
    obtain ⟨hquiet, hstep, hshell⟩ := hab
    obtain ⟨u, hu, hnext⟩ := ha.step hfuel hquiet
    rw [hshell, Option.some_inj.mp (hstep.symm.trans hu)]
    exact hnext
  have hconsole := hrefines.console
  refine ⟨hrefines.page.window, ?_, fun hnone => ?_, fun op hquiet => ?_⟩
  · cases hpending : a.shell.pending with
    | none => rw [hpending] at hconsole; exact hconsole.ready
    | some line =>
      rw [hpending] at hconsole
      obtain ⟨executed, hline⟩ := hconsole
      exact hline.ready
  · rw [hnone] at hconsole
    exact hconsole.tracks.line
  · obtain ⟨u, hu, -⟩ := hrefines.step hfuel hquiet
    exact ⟨⟨u, _⟩, hquiet, hu, rfl⟩

theorem kernel_refines_zero :
    ∃ t₀, Terminal.boot zeroVga = some t₀ ∧
      ∀ a, Reaches (Session.Step 101) ⟨t₀, Shell.start⟩ a →
        Window a.terminal.vga a.shell.page ∧
          a.terminal.console.inputReady = a.shell.pending.isSome ∧
          (a.shell.pending = none → a.terminal.console.line = a.shell.editor.line) ∧
          ∀ op, a.terminal.Quiet op → ∃ b, a.Step 101 op b :=
  kernel_refines zeroVga 101 (by decide)

end Rexus
