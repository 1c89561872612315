import Rexus.Drivers.Printf
import Rexus.Drivers.Vga
import Rexus.Lib.Words

/-!
# Commands

The command table of `drivers/console.c`, and how a line becomes a call. `console_execute_command`
copies the line to a buffer of its own and cuts it into words there; the handler of a command gets
pointers into that buffer. What a handler prints is part of its result. The copy and the buffer of
`console_printf` have a fixed size that nothing tests, so a line that is too long is an error.

## Main results

* `consoleParseArgs_eq` — the arguments are the first sixteen words of the line
* `console_dispatch` — the command that is called, and what is said of others

## Conventions

A line is at most 255 characters long, as the buffer of the console allows, and has no zero in it;
the statement about the dispatch asks for that. Arguments are separated by blanks and tabs, there
are at most sixteen of them, and what is behind the sixteenth is not looked at. A line without a
word does nothing.

A handler is a function of its arguments, which are places in the copy of the line, and of a state
that it may read. What it prints is a list of calls to the screen, in order; it returns a number, or
an error if it leaves a buffer, or nothing if the fuel for one of its loops is used up. The table
has room for thirty-two commands, and a registration behind the last is refused.
-/

namespace Rexus

open Bytes Loop Words

/-! ### What is printed -/

/-- The characters of a string literal. -/
def ascii (s : String) : List UInt8 := s.toList.map fun c => UInt8.ofNat c.toNat

/-- A call of `vga_puts` or `vga_putchar`, of `vga_clear`, or of `vga_set_color`: what a command
does to the screen, apart from the screen it is done to. -/
inductive ScreenOp where
  | puts (text : List UInt8)
  | clear
  | setColor (color : UInt8)

/-- `console_puts`. -/
def consolePuts (str : List UInt8) : ScreenOp := .puts str

/-- `console_putchar`. -/
def consolePutchar (c : UInt8) : ScreenOp := .puts [c]

/-- `console_clear`. -/
def consoleClear : ScreenOp := .clear

/-- `console_set_color`, with `vga_entry_color`. -/
def consoleSetColor (fg bg : UInt8) : ScreenOp := .setColor (fg ||| bg <<< 4)

/-- What can go wrong in a command: a string or the buffer of `console_printf` is left. -/
inductive CommandError where
  | string (err : StringError)
  | printf (err : PrintfError)

/-- What a command returns; `none` if it has not. -/
abbrev CommandResult (α : Type) := Option (Except CommandError α)

/-- `console_printf`, of which the part before the first null character is printed. -/
def consolePrintfPuts (fuel : ℕ) (format : List UInt8) (args : List PrintfArg) :
    CommandResult ScreenOp :=
  (consolePrintf fuel format args).map fun
    | .ok buffer => .ok (consolePuts (buffer.takeWhile (· ≠ 0)))
    | .error err => .error (.printf err)

/-! ### The table -/

/-- `argv`, as places in a buffer of 256 bytes, and the buffer; `argc` is the length of `argv`. -/
structure CommandArgs where
  argv : List ℕ
  buffer : ℕ → UInt8

/-- `console_command_t`, with the name as its characters. A handler may read the state `ω` of the
kernel. -/
structure ConsoleCommand (ω : Type) where
  name : List UInt8
  handler : ω → ℕ → CommandArgs → CommandResult (List ScreenOp × Int32)

/-- `command_table`, up to `command_count`. -/
abbrev CommandTable (ω : Type) := List (ConsoleCommand ω)

/-- `console_register_command`: the command goes to the end of the table, if there is room; else
nothing happens, and the caller is not told. -/
def consoleRegisterCommand {ω : Type} (table : CommandTable ω) (command : ConsoleCommand ω) :
    CommandTable ω :=
  if table.length < 32 then table ++ [command] else table

/-! ### Execution -/

/-- The string at a place of a buffer of 256 bytes. -/
def stringAt (d : ℕ → UInt8) (a : ℕ) : Except StringError (List UInt8) :=
  match strlen (fun k => d (a + k)) (256 - a) with
  | .ok n => .ok (slice (fun k => d (a + k)) 0 n)
  | .error err => .error err

/-- The delimiters `" \t"`. -/
def isBlank (c : UInt8) : Bool := c = 32 || c = 9

/-- The loop of `console_parse_args`, when there is room for `n` more arguments. -/
def consoleParseLoop : ℕ → Option ℕ → (ℕ → UInt8) → ℕ → List ℕ →
    Except StringError CommandArgs
  | 0, _, cmd, _, argv => .ok ⟨argv, cmd⟩
  | _ + 1, none, cmd, _, argv => .ok ⟨argv, cmd⟩
  | n + 1, some token, cmd, next, argv =>
    match strtok isBlank 256 cmd next with
    | .ok (token', cmd, next) => consoleParseLoop n token' cmd next (argv ++ [token])
    | .error err => .error err

/-- `console_parse_args`: the words of the line, at most sixteen, as places in the buffer that the
function has cut up. A line that has no end in its buffer is an error. -/
def consoleParseArgs (cmd : ℕ → UInt8) : Except StringError CommandArgs :=
  match strtok isBlank 256 cmd 0 with
  | .ok (token, cmd, next) => consoleParseLoop 16 token cmd next []
  | .error err => .error err

/-- The call of a handler, and the message if it fails. -/
def consoleCall {ω : Type} (w : ω) (fuel : ℕ) (command : ConsoleCommand ω) (args : CommandArgs) :
    CommandResult (List ScreenOp) :=
  match command.handler w fuel args with
  | some (.ok (ops, result)) =>
    if result ≠ 0 then
      (consolePrintfPuts fuel (ascii "Command returned error code: %d\n") [.int result]).map
        fun r => r.map fun op => ops ++ [op]
    else some (.ok ops)
  | some (.error err) => some (.error err)
  | none => none

/-- `console_execute_command`; `cmdCopy` is the buffer on its stack as it was before. -/
def consoleExecuteCommand {ω : Type} (table : CommandTable ω) (w : ω) (fuel : ℕ)
    (cmdCopy : ℕ → UInt8) (commandLine : List UInt8) : CommandResult (List ScreenOp) :=
  match strcpy cmdCopy (fun k => commandLine.getD k 0) 256 with
  | .error err => some (.error (.string err))
  | .ok cmdCopy =>
    match consoleParseArgs cmdCopy with
    | .error err => some (.error (.string err))
    | .ok args =>
      match args.argv with
      | [] => some (.ok [])
      | arg0 :: _ =>
        match stringAt args.buffer arg0 with
        | .error err => some (.error (.string err))
        | .ok name =>
          match table.find? fun command => command.name = name with
          | some command => consoleCall w fuel command args
          | none =>
            (consolePrintfPuts fuel (ascii "Unknown command: %s\n") [.str name]).map
              fun r => r.map fun op => [op]

/-! ### Arguments -/

section

variable {d d' : ℕ → UInt8} {s w : List UInt8} {ws : List (List UInt8)} {argv : List ℕ}
  {a n : ℕ}

/-- The strings at these places. -/
def Arguments (d : ℕ → UInt8) (argv : List ℕ) (ws : List (List UInt8)) : Prop :=
  List.Forall₂ (fun a w => HoldsAt d a w ∧ a + w.length < 256) argv ws

theorem stringAt_of_holds (h : HoldsAt d a w) (hlt : a + w.length < 256) :
    stringAt d a = .ok w := by
  rw [stringAt, strlen_of_holds h (by omega)]
  exact congrArg Except.ok h.text

/-- Cutting off more words leaves the arguments. -/
theorem Arguments.cut (h : Arguments d argv ws) (hws : ∀ w ∈ ws, IsWord isBlank w) {b e : ℕ}
    (hcut : Cut isBlank b e d d') : Arguments d' argv ws := by
  induction h with
  | nil => exact List.Forall₂.nil
  | cons harg _ ih =>
    obtain ⟨hw, hws⟩ := List.forall_mem_cons.mp hws
    exact List.Forall₂.cons ⟨harg.1.cut hw.2 rfl hcut, harg.2⟩ (ih hws)

theorem Arguments.concat (h : Arguments d argv ws) (ha : HoldsAt d a w)
    (hlt : a + w.length < 256) : Arguments d (argv ++ [a]) (ws ++ [w]) :=
  List.rel_append h (List.Forall₂.cons ⟨ha, hlt⟩ List.Forall₂.nil)

/-- What a call of `strtok` finds: nothing, or a word and the text that is left. -/
theorem strtok_blank (h : HoldsAt d a s) (hsize : a + s.length < 256) :
    (words isBlank s = [] ∧ strtok isBlank 256 d a = .ok (none, d, a + s.length)) ∨
      ∃ t w rest d' e, words isBlank s = w :: words isBlank rest ∧
        strtok isBlank 256 d a = .ok (some t, d', e) ∧ IsWord isBlank w ∧
        HoldsAt d' t w ∧ t + w.length < 256 ∧ HoldsAt d' e rest ∧ a ≤ e ∧
        e + rest.length = a + s.length ∧ Cut isBlank a (a + s.length) d d' := by
  rcases exists_word isBlank s with hall | ⟨pre, w, rest, rfl, hpre, hw, hrest⟩
  · exact Or.inl ⟨words_eq_nil hall, strtok_none h hsize hall⟩
  · obtain ⟨d', e, htok, ht, he, hae, hlen, hcut⟩ := strtok_some h hsize hpre hw hrest
    refine Or.inr ⟨_, w, rest.tail, d', e, ?_, htok, hw, ht, ?_, he, hae, hlen, hcut⟩
    · rw [words_append hpre, words_append_of_ends hw hrest]
    · rw [List.length_append, List.length_append] at hsize
      omega

/-- The loop, with a token that is still to be stored, or none. -/
theorem consoleParseLoop_eq (n : ℕ) (token : Option ℕ) {pending done : List (List UInt8)}
    (hpending : Arguments d token.toList pending) (hdone : Arguments d argv done)
    (hwords : ∀ w ∈ done ++ pending, IsWord isBlank w)
    (h : HoldsAt d a s) (hsize : a + s.length < 256)
    (hnone : token = none → words isBlank s = []) :
    ∃ args, consoleParseLoop n token d a argv = .ok args ∧
      Arguments args.buffer args.argv (done ++ (pending ++ words isBlank s).take n) ∧
      Cut isBlank a (a + s.length) d args.buffer := by
  induction n generalizing token pending done d a s argv with
  | zero =>
    refine ⟨⟨argv, d⟩, rfl, ?_, Cut.refl ..⟩
    rw [List.take_zero, List.append_nil]
    exact hdone
  | succ n ih =>
    cases token with
    | none =>
      obtain rfl : pending = [] := List.forall₂_nil_left_iff.mp hpending
      refine ⟨⟨argv, d⟩, rfl, ?_, Cut.refl ..⟩
      rw [hnone rfl, List.append_nil, List.take_nil, List.append_nil]
      exact hdone
    | some t =>
      obtain ⟨w, ws, hw, hnil, rfl⟩ := List.forall₂_cons_left_iff.mp hpending
      obtain rfl : ws = [] := List.forall₂_nil_left_iff.mp hnil
      have hconcat := hdone.concat hw.1 hw.2
      rcases strtok_blank h hsize with ⟨hnil, htok⟩ |
        ⟨t', w', rest, d', e, hcons, htok, hw', ht', hlt', he, hae, hlen, hcut⟩
      · obtain ⟨args, hloop, hargs, hbuffer⟩ := ih none List.Forall₂.nil hconcat
          (by rwa [List.append_nil]) (HoldsAt.drop (t := []) (by rwa [List.append_nil])) hsize
          fun _ => rfl
        rw [consoleParseLoop, htok]
        refine ⟨args, hloop, ?_, hbuffer.mono (Nat.le_add_right _ _) (Nat.le_refl _)⟩
        rw [hnil, List.append_nil, List.take_succ_cons]
        rwa [words_nil, List.append_nil, List.append_assoc] at hargs
      · have hnext : ∀ v ∈ (done ++ [w]) ++ [w'], IsWord isBlank v := fun v hv => by
          rcases List.mem_append.mp hv with hv | hv
          · exact hwords v hv
          · exact List.mem_singleton.mp hv ▸ hw'
        obtain ⟨args, hloop, hargs, hbuffer⟩ := ih (some t')
          (List.Forall₂.cons ⟨ht', hlt'⟩ List.Forall₂.nil) (hconcat.cut hwords hcut) hnext he
          (by omega) fun hnone => nomatch hnone
        rw [consoleParseLoop, htok]
        refine ⟨args, hloop, ?_, hcut.trans (hbuffer.mono hae (by omega))⟩
        rw [hcons, List.singleton_append, List.take_succ_cons]
        rwa [List.append_assoc] at hargs

/-- **The arguments are the first sixteen words of the line**, and the buffer is changed only where
a blank is cut off. -/
theorem consoleParseArgs_eq (h : Holds d s) (hsize : s.length < 256) :
    ∃ args, consoleParseArgs d = .ok args ∧
      Arguments args.buffer args.argv ((words isBlank s).take 16) ∧
      Cut isBlank 0 s.length d args.buffer := by
  have hat : HoldsAt d 0 s := h.congr fun k _ => congrArg d (Nat.zero_add k)
  rcases strtok_blank hat (by omega) with ⟨hnil, htok⟩ |
    ⟨t, w, rest, d', e, hcons, htok, hw, ht, hlt, he, -, hlen, hcut⟩
  · rw [consoleParseArgs, htok, hnil]
    exact ⟨_, rfl, List.Forall₂.nil, Cut.refl ..⟩
  · obtain ⟨args, hloop, hargs, hbuffer⟩ := consoleParseLoop_eq 16 (some t)
      (List.Forall₂.cons ⟨ht, hlt⟩ List.Forall₂.nil) (List.Forall₂.nil : Arguments d' [] [])
      (fun v hv => List.mem_singleton.mp hv ▸ hw) he (by omega) (fun hnone => nomatch hnone)
    rw [Nat.zero_add] at hlen hcut
    rw [consoleParseArgs, htok]
    refine ⟨args, hloop, ?_, hcut.trans (hbuffer.mono (Nat.zero_le _) (by omega))⟩
    rw [hcons]
    exact hargs

end

/-! ### Messages -/

/-- Characters which a test finds to be neither a null character nor a percent sign. -/
theorem plain_of_all {s : List UInt8} (h : s.all (fun c => c != 0 && c != 37) = true) :
    ∀ c ∈ s, c ≠ 0 ∧ c ≠ 37 := by
  intro c hc
  simpa using List.all_eq_true.mp h c hc

/-- Characters that stand for themselves in a format. -/
def literals (s : List UInt8) (h : ∀ c ∈ s, c ≠ 0 ∧ c ≠ 37) : List Directive :=
  s.pmap (fun c hc => .literal c hc.1 hc.2) h

section

variable {fuel : ℕ} {pre : List UInt8}

theorem flatMap_literals {α : Type} (f : Directive → List α) (g : UInt8 → List α)
    (hf : ∀ c hzero hpercent, f (.literal c hzero hpercent) = g c) (s : List UInt8)
    (h : ∀ c ∈ s, c ≠ 0 ∧ c ≠ 37) : (literals s h).flatMap f = s.flatMap g := by
  induction s with
  | nil => rfl
  | cons c s ih =>
    have hc := h c List.mem_cons_self
    have hcons : literals (c :: s) h =
        .literal c hc.1 hc.2 :: literals s fun c hc => h c (List.mem_cons_of_mem _ hc) := rfl
    rw [hcons, List.flatMap_cons, List.flatMap_cons, hf, ih]

@[simp] theorem format_literals (s : List UInt8) (h : ∀ c ∈ s, c ≠ 0 ∧ c ≠ 37) :
    (literals s h).flatMap Directive.format = s :=
  (flatMap_literals _ (fun c => [c]) (fun _ _ _ => rfl) s h).trans (List.flatMap_singleton' s)

@[simp] theorem text_literals (s : List UInt8) (h : ∀ c ∈ s, c ≠ 0 ∧ c ≠ 37) :
    (literals s h).flatMap Directive.text = s :=
  (flatMap_literals _ (fun c => [c]) (fun _ _ _ => rfl) s h).trans (List.flatMap_singleton' s)

@[simp] theorem args_literals (s : List UInt8) (h : ∀ c ∈ s, c ≠ 0 ∧ c ≠ 37) :
    (literals s h).flatMap Directive.args = [] :=
  (flatMap_literals _ (fun _ => []) (fun _ _ _ => rfl) s h).trans (by simp)

/-- A format that expands to a text which fits the buffer is printed as that text. -/
theorem consolePrintfPuts_eq {ds : List Directive} (hds : ∀ d ∈ ds, d.Defined)
    (hne : ∀ c ∈ printfText ds, c ≠ 0) (hlen : (printfText ds).length ≤ 1023)
    (hfuel : (printfFormat ds false).length + 11 < fuel) :
    consolePrintfPuts fuel (printfFormat ds false) (printfArgs ds) =
      some (.ok (consolePuts (printfText ds))) := by
  have hprintf := consolePrintf_eq hds false [] hfuel
  rw [List.append_nil, if_pos (by omega), if_neg Bool.false_ne_true, printfPut,
    if_pos (by rw [List.length_singleton]; omega)] at hprintf
  have htake : (printfText ds ++ [0]).takeWhile (· ≠ 0) = printfText ds := by
    rw [List.takeWhile_append_of_pos fun c hc => decide_eq_true (hne c hc),
      List.takeWhile_cons_of_neg (by decide), List.append_nil]
  rw [consolePrintfPuts, hprintf, Option.map_some]
  dsimp only
  rw [htake]

theorem defined_literals (s : List UInt8) (h : ∀ c ∈ s, c ≠ 0 ∧ c ≠ 37) :
    ∀ d ∈ literals s h, d.Defined := by
  intro d hd
  obtain ⟨c, hc, rfl⟩ := List.mem_pmap.mp hd
  trivial

/-- A message: some characters, one directive, and a line feed. -/
theorem consolePrintfPuts_message {d : Directive} (hdefined : d.Defined)
    (h : ∀ c ∈ pre, c ≠ 0 ∧ c ≠ 37)
    (hd : ∀ c ∈ d.text, c ≠ 0) (hlen : pre.length + d.text.length ≤ 1000)
    (hfuel : pre.length + 20 < fuel) :
    consolePrintfPuts fuel (pre ++ (d.format ++ [10])) d.args =
      some (.ok (consolePuts (pre ++ (d.text ++ [10])))) := by
  let ds := literals pre h ++ [d, .literal 10 (by decide) (by decide)]
  have hformat : printfFormat ds false = pre ++ (d.format ++ [10]) := by
    simp [ds, printfFormat, Directive.format]
  have htext : printfText ds = pre ++ (d.text ++ [10]) := by
    simp [ds, printfText, Directive.text]
  have hargs : printfArgs ds = d.args := by simp [ds, printfArgs, Directive.args]
  have hdformat : d.format.length ≤ 2 := by cases d <;> simp [Directive.format]
  rw [← hformat, ← hargs, ← htext]
  have hds : ∀ d ∈ ds, d.Defined := by
    refine List.forall_mem_append.mpr ⟨defined_literals pre h, ?_⟩
    exact List.forall_mem_cons.mpr ⟨hdefined, List.forall_mem_singleton.mpr trivial⟩
  refine consolePrintfPuts_eq hds (fun c hc => ?_) ?_ ?_
  · rw [htext] at hc
    rcases List.mem_append.mp hc with hc | hc
    · exact (h c hc).1
    rcases List.mem_append.mp hc with hc | hc
    · exact hd c hc
    · exact List.mem_singleton.mp hc ▸ by decide
  · rw [htext, List.length_append, List.length_append, List.length_singleton]
    omega
  · rw [hformat, List.length_append, List.length_append, List.length_singleton]
    omega

end

/-! ### Which command -/

section

variable {ω : Type} (table : CommandTable ω) (w : ω) {fuel : ℕ} (cmdCopy : ℕ → UInt8)
  {line name : List UInt8} {rest : List (List UInt8)}

/-- What is said of a command that is not in the table. -/
def unknownCommand (name : List UInt8) : ScreenOp :=
  consolePuts (ascii "Unknown command: " ++ (name ++ [10]))

theorem consolePrintfPuts_unknown (hname : ∀ c ∈ name, c ≠ 0) (hlen : name.length < 256)
    (hfuel : 50 < fuel) :
    consolePrintfPuts fuel (ascii "Unknown command: %s\n") [.str name] =
      some (.ok (unknownCommand name)) := by
  have hformat : ascii "Unknown command: %s\n" =
      ascii "Unknown command: " ++ ((Directive.str name).format ++ [10]) := by rfl
  have hpre : ∀ c ∈ ascii "Unknown command: ", c ≠ 0 ∧ c ≠ 37 := plain_of_all rfl
  have hprelen : (ascii "Unknown command: ").length = 17 := by rfl
  rw [hformat]
  refine consolePrintfPuts_message (d := .str name) trivial hpre hname ?_ (by omega)
  change (ascii "Unknown command: ").length + name.length ≤ 1000
  omega

/-- The table after any registrations: those that found room. -/
theorem foldl_consoleRegisterCommand (commands : List (ConsoleCommand ω)) :
    commands.foldl consoleRegisterCommand [] = commands.take 32 := by
  induction commands using List.reverseRecOn with
  | nil => rfl
  | append_singleton commands command ih =>
    rw [List.foldl_append, List.foldl_cons, List.foldl_nil, ih, consoleRegisterCommand,
      List.length_take]
    split_ifs with hroom
    · rw [List.take_of_length_le (by omega), List.take_of_length_le]
      rw [List.length_append, List.length_singleton]
      omega
    · rw [List.take_append_of_le_length (by omega)]

/-- A line of blanks. -/
theorem consoleExecuteCommand_blank (hline : ∀ c ∈ line, c ≠ 0) (hsize : line.length < 256)
    (hwords : words isBlank line = []) :
    consoleExecuteCommand table w fuel cmdCopy line = some (.ok []) := by
  have hholds := holds_getD hline
  obtain ⟨args, hparse, hargs, -⟩ := consoleParseArgs_eq (hholds.blit cmdCopy) hsize
  rw [hwords, List.take_nil] at hargs
  have hnil : args.argv = [] := List.forall₂_nil_right_iff.mp hargs
  rw [consoleExecuteCommand, strcpy_of_holds hholds hsize]
  dsimp only
  rw [hparse]
  dsimp only
  rw [hnil]

/-- A line with words: the first is looked up, and the handler gets them all, up to sixteen. -/
theorem consoleExecuteCommand_words (fuel : ℕ) (hline : ∀ c ∈ line, c ≠ 0)
    (hsize : line.length < 256) (hwords : words isBlank line = name :: rest) :
    ∃ args, Arguments args.buffer args.argv ((name :: rest).take 16) ∧
      consoleExecuteCommand table w fuel cmdCopy line =
        match table.find? fun command => command.name = name with
        | some command => consoleCall w fuel command args
        | none =>
          (consolePrintfPuts fuel (ascii "Unknown command: %s\n") [.str name]).map
            fun r => r.map fun op => [op] := by
  have hholds := holds_getD hline
  obtain ⟨args, hparse, hargs, -⟩ := consoleParseArgs_eq (hholds.blit cmdCopy) hsize
  rw [hwords] at hargs
  refine ⟨args, hargs, ?_⟩
  rw [List.take_succ_cons] at hargs
  obtain ⟨arg0, argv, harg0, -, heq⟩ := List.forall₂_cons_right_iff.mp hargs
  rw [consoleExecuteCommand, strcpy_of_holds hholds hsize]
  dsimp only
  rw [hparse]
  dsimp only
  rw [heq]
  dsimp only
  rw [stringAt_of_holds harg0.1 harg0.2]

/-- **Which command is called**, after any registrations: a line of blanks does nothing; else the
first command registered under the first word gets the words of the line, up to sixteen, if it is
one of the first thirty-two; and otherwise the word is reported as unknown. -/
theorem console_dispatch (commands : List (ConsoleCommand ω)) (line : List UInt8)
    (hline : ∀ c ∈ line, c ≠ 0) (hsize : line.length < 256) (fuel : ℕ) (hfuel : 50 < fuel) :
    match words isBlank line with
    | [] =>
      consoleExecuteCommand (commands.foldl consoleRegisterCommand []) w fuel cmdCopy line =
        some (.ok [])
    | name :: rest =>
      ∃ args, Arguments args.buffer args.argv ((name :: rest).take 16) ∧
        consoleExecuteCommand (commands.foldl consoleRegisterCommand []) w fuel cmdCopy line =
          match (commands.take 32).find? fun command => command.name = name with
          | some command => consoleCall w fuel command args
          | none => some (.ok [unknownCommand name]) := by
  split
  next hwords => exact consoleExecuteCommand_blank _ w cmdCopy hline hsize hwords
  next name rest hwords =>
    obtain ⟨args, hargs, heq⟩ :=
      consoleExecuteCommand_words (commands.take 32) w cmdCopy fuel hline hsize hwords
    refine ⟨args, hargs, ?_⟩
    have hpart : name <:+: line := isInfix_of_mem_words (hwords ▸ List.mem_cons_self)
    have hunknown := consolePrintfPuts_unknown (fun c hc => hline c (hpart.subset hc))
      (hpart.length_le.trans_lt hsize) hfuel
    rw [foldl_consoleRegisterCommand, heq]
    split
    next command hfind => rfl
    next hfind =>
      rw [hunknown]
      rfl

/-- A command that prints a star for each of its arguments. -/
def starCommand : ConsoleCommand Unit where
  name := ascii "star"
  handler _ _ args := some (.ok (List.replicate args.argv.length (consolePutchar 42), 0))

theorem console_dispatch_star :
    consoleExecuteCommand (consoleRegisterCommand [] starCommand) () 51 (fun _ => 0)
      (ascii "star it") = some (.ok [consolePutchar 42, consolePutchar 42]) := by
  have hwords : words isBlank (ascii "star it") = [ascii "star", ascii "it"] := by decide
  have hline : ∀ c ∈ ascii "star it", c ≠ 0 := fun c hc => (plain_of_all rfl c hc).1
  have hrun := console_dispatch () (fun _ => 0) [starCommand] (ascii "star it") hline (by decide)
    51 (by decide)
  rw [hwords] at hrun
  obtain ⟨args, hargs, heq⟩ := hrun
  have hcall : consoleCall () 51 starCommand args =
      some (.ok (List.replicate args.argv.length (consolePutchar 42))) := rfl
  have hlen : args.argv.length = 2 := hargs.length_eq
  rw [hlen] at hcall
  exact heq.trans hcall

end

end Rexus
