import Rexus.Drivers.Commands
import Rexus.Mem.Pmm

/-!
# The commands of the kernel

The five commands that `core/kmain.c` registers, and what each line comes to on the screen: the
response to its words. `meminfo` prints what the memory manager says, in kilobytes and megabytes; it
computes the bytes in 32 bits.

## Main results

* `kernelCommands_respond` — the commands print the responses

## Conventions

A response is a list of operations on the screen, said by the words of the line alone: no buffer,
place or format appears in it. The state that the commands read is the size of the memory and the
allocator, and none of them changes it. Every command returns zero, so no message about a failure is
printed for them.

`meminfo` goes through `console_printf` with numbers that are taken for signed ones; as they are the
bytes divided by 1024 at least, they are never negative. What a line that names no command comes to
is part of the response.

## The page

`ScreenOp.onPage` is what an operation does to the unbounded page of `Lib/TextPage.lean`. Clearing
begins a new page. A color does not show on it.
-/

namespace Rexus

open Bytes Loop Words Numeral

/-! ### The handlers -/

/-- What the commands read: `mem_size`, and the state of the memory manager. Both may change between
two commands, and no command changes them. -/
structure KernelMemory where
  memSize : UInt32
  pmm : Pmm

/-- `pmm_get_memory_size`. -/
def pmmGetMemorySize (w : KernelMemory) : UInt32 := w.memSize

/-- `pmm_get_used_block_count`. -/
def pmmGetUsedBlockCount (s : Pmm) : ℕ := s.memUsedBlocks

/-- The result of a handler that prints this and returns zero. -/
def commandDone (ops : List ScreenOp) : CommandResult (List ScreenOp × Int32) :=
  some (.ok (ops, 0))

/-- `help_command`. -/
def helpCommand (_ : KernelMemory) (_ : ℕ) (_ : CommandArgs) :
    CommandResult (List ScreenOp × Int32) :=
  commandDone [consolePuts (ascii "REXUS Kernel Commands:\n"),
    consolePuts (ascii "  help     - Display this help text\n"),
    consolePuts (ascii "  clear    - Clear the screen\n"),
    consolePuts (ascii "  info     - Display system information\n"),
    consolePuts (ascii "  echo     - Display text\n"),
    consolePuts (ascii "  meminfo  - Display memory information\n")]

/-- `clear_command`. -/
def clearCommand (_ : KernelMemory) (_ : ℕ) (_ : CommandArgs) :
    CommandResult (List ScreenOp × Int32) :=
  commandDone [consoleClear]

/-- `info_command`. -/
def infoCommand (_ : KernelMemory) (_ : ℕ) (_ : CommandArgs) :
    CommandResult (List ScreenOp × Int32) :=
  commandDone [consolePuts (ascii "REXUS Kernel - A specialized kernel for embedded systems\n"),
    consolePuts (ascii "Version: 0.1.0\n"), consolePuts (ascii "Architecture: x86\n"),
    consolePuts (ascii "Features: Memory Management, Process Scheduling, Console\n")]

/-- `echo_command`: the loop begins behind the name of the command. -/
def echoCommand (_ : KernelMemory) (_ : ℕ) (args : CommandArgs) :
    CommandResult (List ScreenOp × Int32) :=
  let argc := args.argv.length
  match tryRange
    (fun i ops =>
      match stringAt args.buffer (args.argv.getD i 0) with
      | .ok arg =>
        let ops := ops ++ [consolePuts arg]
        .ok (if i < argc - 1 then ops ++ [consolePutchar 32] else ops)
      | .error err => .error err)
    (argc - 1) 1 [] with
  | .ok ops => commandDone (ops ++ [consolePutchar 10])
  | .error err => some (.error (.string err))

/-- A message of `meminfo_command` with two numbers, which are taken for signed ones. -/
def printMemory (fuel : ℕ) (format : List UInt8) (bytes : UInt32) : CommandResult ScreenOp :=
  consolePrintfPuts fuel format [.int (bytes / 1024).toInt32, .int (bytes / 1024 / 1024).toInt32]

/-- Calls one after the other. -/
def printAll : List (CommandResult ScreenOp) → CommandResult (List ScreenOp × Int32)
  | [] => commandDone []
  | some (.ok op) :: calls =>
    (printAll calls).map fun r => r.map fun done => (op :: done.1, done.2)
  | some (.error err) :: _ => some (.error err)
  | none :: _ => none

/-- `meminfo_command`: the sizes in KB and MB, as the allocator has them when the command is
executed. The fuel is for the conversions of `console_printf`. -/
def meminfoCommand (w : KernelMemory) (fuel : ℕ) (_ : CommandArgs) :
    CommandResult (List ScreenOp × Int32) :=
  let totalMem := pmmGetMemorySize w
  let usedMem := UInt32.ofNat (pmmGetUsedBlockCount w.pmm) * 4096
  let freeMem := UInt32.ofNat (pmmGetFreeBlockCount w.pmm) * 4096
  printAll [consolePrintfPuts fuel (ascii "Memory Information:\n") [],
    printMemory fuel (ascii "  Total: %d KB (%d MB)\n") totalMem,
    printMemory fuel (ascii "  Used:  %d KB (%d MB)\n") usedMem,
    printMemory fuel (ascii "  Free:  %d KB (%d MB)\n") freeMem]

/-- The commands in the order in which `kmain` registers them. -/
def kernelCommands : List (ConsoleCommand KernelMemory) :=
  [⟨ascii "help", helpCommand⟩, ⟨ascii "clear", clearCommand⟩, ⟨ascii "info", infoCommand⟩,
    ⟨ascii "echo", echoCommand⟩, ⟨ascii "meminfo", meminfoCommand⟩]

/-- The table after `console_init` and the registrations. -/
def kernelTable : CommandTable KernelMemory := kernelCommands.foldl consoleRegisterCommand []

/-! ### Responses -/

/-- What is on the page after an operation. -/
def ScreenOp.onPage (p : Page) : ScreenOp → Page
  | .puts text => p.print 80 text
  | .clear => .blank
  | .setColor _ => p

/-- What is on the page after these operations. -/
def showOps (p : Page) (ops : List ScreenOp) : Page := ops.foldl ScreenOp.onPage p

/-- A line of `meminfo`: this many bytes. -/
def memoryLine (label : String) (bytes : ℕ) : List UInt8 :=
  ascii label ++ numeral 10 decimalChar (bytes / 1024) ++ ascii " KB (" ++
    numeral 10 decimalChar (bytes / 1024 / 1024) ++ ascii " MB)\n"

/-- The text of `meminfo`. -/
def memoryText (w : KernelMemory) : List UInt8 :=
  ascii "Memory Information:\n" ++ memoryLine "  Total: " w.memSize.toNat ++
    memoryLine "  Used:  " (w.pmm.memUsedBlocks * 4096 % 2 ^ 32) ++
    memoryLine "  Free:  " (pmmGetFreeBlockCount w.pmm * 4096 % 2 ^ 32)

/-- The text of `help`. -/
def helpLines : List (List UInt8) :=
  [ascii "REXUS Kernel Commands:\n", ascii "  help     - Display this help text\n",
    ascii "  clear    - Clear the screen\n", ascii "  info     - Display system information\n",
    ascii "  echo     - Display text\n", ascii "  meminfo  - Display memory information\n"]

/-- The text of `info`. -/
def infoLines : List (List UInt8) :=
  [ascii "REXUS Kernel - A specialized kernel for embedded systems\n", ascii "Version: 0.1.0\n",
    ascii "Architecture: x86\n", ascii "Features: Memory Management, Process Scheduling, Console\n"]

/-- The response to a line with these words. -/
def respond (w : KernelMemory) : List (List UInt8) → List ScreenOp
  | [] => []
  | name :: args =>
    if name = ascii "help" then helpLines.map .puts
    else if name = ascii "clear" then [.clear]
    else if name = ascii "info" then infoLines.map .puts
    else if name = ascii "echo" then [.puts ([32].intercalate (args.take 15) ++ [10])]
    else if name = ascii "meminfo" then [.puts (memoryText w)]
    else [unknownCommand name]

section

variable {p : Page} {d : ℕ → UInt8} {argv : List ℕ} {ws : List (List UInt8)} {w : KernelMemory}
  {fuel : ℕ} {args : CommandArgs} {name : List UInt8}

theorem print_append (p : Page) (s t : List UInt8) :
    p.print 80 (s ++ t) = (p.print 80 s).print 80 t := List.foldl_append

@[simp] theorem showOps_nil (p : Page) : showOps p [] = p := rfl

@[simp] theorem showOps_cons (p : Page) (op : ScreenOp) (ops : List ScreenOp) :
    showOps p (op :: ops) = showOps (op.onPage p) ops := rfl

@[simp] theorem showOps_append (p : Page) (ops ops' : List ScreenOp) :
    showOps p (ops ++ ops') = showOps (showOps p ops) ops' := List.foldl_append

/-- Texts one after the other are their concatenation. -/
theorem showOps_puts (p : Page) (texts : List (List UInt8)) :
    showOps p (texts.map .puts) = p.print 80 texts.flatten := by
  induction texts generalizing p with
  | nil => rfl
  | cons text texts ih =>
    rw [List.map_cons, showOps_cons, ih, List.flatten_cons, print_append]
    rfl

/-! ### The echo -/

theorem Arguments.stringAt (h : Arguments d argv ws) {k : ℕ} (hk : k < ws.length) :
    stringAt d (argv.getD k 0) = .ok ws[k] := by
  obtain ⟨hlen, hget⟩ := List.forall₂_iff_get.mp h
  obtain ⟨hholds, hlt⟩ := hget k (hlen ▸ hk) hk
  rw [List.getD_eq_getElem?_getD, List.getElem?_eq_getElem (hlen ▸ hk), Option.getD_some]
  exact stringAt_of_holds hholds hlt

/-- What has been printed when the loop has gone over `k` of the texts. -/
def echoed (ws : List (List UInt8)) (k : ℕ) : List UInt8 :=
  if k < ws.length then (ws.take k).flatMap (· ++ [32]) else [32].intercalate ws

theorem echoed_succ {k : ℕ} (hk : k < ws.length) :
    echoed ws (k + 1) = echoed ws k ++ ws[k] ++ if k + 1 < ws.length then [32] else [] := by
  rw [echoed, echoed, if_pos hk]
  split_ifs with hlast
  · rw [List.take_succ_eq_append_getElem hk, List.flatMap_append]
    simp
  · have hws : ws.take k ++ [ws[k]] = ws := by
      rw [← List.take_succ_eq_append_getElem hk, List.take_of_length_le (by omega)]
    conv_lhs => rw [← hws]
    rw [intercalate_concat, List.append_nil]

/-- **`echo` prints its arguments**, with one blank between them. -/
theorem echoCommand_eq (w : KernelMemory) (fuel : ℕ)
    (h : Arguments args.buffer args.argv (name :: ws)) :
    ∃ ops, echoCommand w fuel args = commandDone ops ∧
      ∀ p, showOps p ops = p.print 80 ([32].intercalate ws ++ [10]) := by
  have hlen : args.argv.length = ws.length + 1 := h.length_eq
  obtain ⟨ops, hloop, hops⟩ := tryRange_inv_ok
    (fun i ops =>
      match stringAt args.buffer (args.argv.getD i 0) with
      | .ok arg =>
        let ops := ops ++ [consolePuts arg]
        .ok (if i < args.argv.length - 1 then ops ++ [consolePutchar 32] else ops)
      | .error err => .error err)
    (fun i ops => ∀ p, showOps p ops = p.print 80 (echoed ws (i - 1)))
    (n := args.argv.length - 1) (a := 1) (s := []) (fun p => by
      rw [echoed]
      split_ifs with hpos
      · rfl
      · obtain rfl : ws = [] := List.eq_nil_of_length_eq_zero (Nat.eq_zero_of_not_pos hpos)
        rfl)
    fun i ops hi hlt hops => by
      obtain ⟨k, rfl⟩ : ∃ k, i = k + 1 := ⟨i - 1, by omega⟩
      have hk : k < ws.length := by omega
      have harg := h.stringAt (k := k + 1) (by rw [List.length_cons]; omega)
      rw [harg]
      refine ⟨_, rfl, fun p => ?_⟩
      rw [Nat.add_sub_cancel, echoed_succ hk, hlen, Nat.add_sub_cancel]
      rw [Nat.add_sub_cancel] at hops
      split_ifs with hlast
      · rw [showOps_append, showOps_append, hops, print_append, print_append]
        rfl
      · rw [showOps_append, hops, List.append_nil, print_append]
        rfl
  rw [Nat.add_comm, Nat.add_sub_cancel, hlen, Nat.add_sub_cancel, echoed,
    if_neg (Nat.lt_irrefl _)] at hops
  refine ⟨ops ++ [consolePutchar 10], ?_, fun p => ?_⟩
  · rw [echoCommand]
    dsimp only
    rw [hloop]
  · rw [showOps_append, hops, print_append]
    rfl

/-! ### The numbers -/

/-- A number that is not negative when it is taken for a signed one. -/
theorem integer_toInt32 {n : UInt32} (hn : n.toNat < 2 ^ 31) :
    n.toInt32 ≠ Int32.minValue ∧ integer n.toInt32.toInt = numeral 10 decimalChar n.toNat := by
  have hint : n.toInt32.toInt = n.toNat :=
    BitVec.toInt_eq_toNat_of_lt (Nat.mul_lt_mul_of_pos_left hn (by decide : 0 < 2))
  have hmin : n.toInt32 ≠ Int32.minValue := by
    intro heq
    rw [heq] at hint
    have hleast : Int32.minValue.toInt = -2147483648 := by decide
    omega
  refine ⟨hmin, ?_⟩
  rw [hint, integer, if_neg (by omega), Int.natAbs_natCast]

/-- The digits of a number that is not zero are characters. -/
theorem ne_zero_of_mem_numeral {n : ℕ} {c : UInt8} (hc : c ∈ numeral 10 decimalChar n) : c ≠ 0 := by
  rintro rfl
  have hdigit := (isDecimal_numeral n).digit 0 hc
  exact absurd hdigit.1 (by decide)

theorem length_numeral_le {n : ℕ} (hn : n < 10 ^ 10) :
    (numeral 10 decimalChar n).length ≤ 10 := by
  rw [numeral]
  split_ifs
  · simp
  · rw [List.length_reverse, List.length_map, Nat.digits_length_le_iff (by decide)]
    exact hn

theorem ne_zero_of_mem_memoryLine {label : String} (hlabel : ∀ c ∈ ascii label, c ≠ 0 ∧ c ≠ 37)
    {n : ℕ} {c : UInt8} (hc : c ∈ memoryLine label n) : c ≠ 0 := by
  have hkb : ∀ c ∈ ascii " KB (", c ≠ 0 ∧ c ≠ 37 := plain_of_all rfl
  have hmb : ∀ c ∈ ascii " MB)\n", c ≠ 0 ∧ c ≠ 37 := plain_of_all rfl
  simp only [memoryLine, List.mem_append] at hc
  rcases hc with (((hc | hc) | hc) | hc) | hc
  · exact (hlabel c hc).1
  · exact ne_zero_of_mem_numeral hc
  · exact (hkb c hc).1
  · exact ne_zero_of_mem_numeral hc
  · exact (hmb c hc).1

theorem length_memoryLine_le {label : String} (hlen : (ascii label).length ≤ 20) {n : ℕ}
    (hn : n < 2 ^ 32) : (memoryLine label n).length ≤ 60 := by
  have hkb := length_numeral_le (n := n / 1024) (by omega)
  have hmb := length_numeral_le (n := n / 1024 / 1024) (by omega)
  have hunits : (ascii " KB (").length = 5 ∧ (ascii " MB)\n").length = 5 := ⟨rfl, rfl⟩
  simp only [memoryLine, List.length_append]
  omega

/-- One line of `meminfo`. -/
theorem printMemory_eq {label : String} (bytes : UInt32)
    (hlabel : (ascii label).all (fun c => c != 0 && c != 37) = true)
    (hlen : (ascii label).length ≤ 20) (hfuel : 100 < fuel) :
    printMemory fuel (ascii label ++ (ascii "%d KB (" ++ ascii "%d MB)\n")) bytes =
      some (.ok (.puts (memoryLine label bytes.toNat))) := by
  have hkb : ∀ c ∈ ascii " KB (", c ≠ 0 ∧ c ≠ 37 := plain_of_all rfl
  have hmb : ∀ c ∈ ascii " MB)\n", c ≠ 0 ∧ c ≠ 37 := plain_of_all rfl
  have hplain := plain_of_all hlabel
  let kb := (bytes / 1024).toInt32
  let mb := (bytes / 1024 / 1024).toInt32
  let ds := literals (ascii label) hplain ++ ([.int kb] ++ (literals (ascii " KB (") hkb ++
    ([.int mb] ++ literals (ascii " MB)\n") hmb)))
  have hbytes := bytes.toNat_lt
  have hkbdiv : (bytes / 1024).toNat = bytes.toNat / 1024 := UInt32.toNat_div ..
  have hmbdiv : (bytes / 1024 / 1024).toNat = bytes.toNat / 1024 / 1024 := by
    rw [UInt32.toNat_div, UInt32.toNat_div]
    rfl
  obtain ⟨hkbmin, hkbtext⟩ := integer_toInt32 (n := bytes / 1024) (by omega)
  obtain ⟨hmbmin, hmbtext⟩ := integer_toInt32 (n := bytes / 1024 / 1024) (by omega)
  rw [hkbdiv] at hkbtext
  rw [hmbdiv] at hmbtext
  have hds : ∀ d ∈ ds, d.Defined := by
    refine List.forall_mem_append.mpr ⟨defined_literals _ hplain, ?_⟩
    refine List.forall_mem_append.mpr ⟨List.forall_mem_singleton.mpr hkbmin, ?_⟩
    refine List.forall_mem_append.mpr ⟨defined_literals _ hkb, ?_⟩
    exact List.forall_mem_append.mpr ⟨List.forall_mem_singleton.mpr hmbmin, defined_literals _ hmb⟩
  have hformat : printfFormat ds false =
      ascii label ++ (ascii "%d KB (" ++ ascii "%d MB)\n") := by
    simp [ds, printfFormat, Directive.format, ascii]
  have htext : printfText ds = memoryLine label bytes.toNat := by
    simp [ds, kb, mb, printfText, Directive.text, hkbtext, hmbtext, memoryLine]
  have hargs : printfArgs ds = [.int kb, .int mb] := by simp [ds, printfArgs, Directive.args]
  have hne : ∀ c ∈ printfText ds, c ≠ 0 := fun c hc => ne_zero_of_mem_memoryLine hplain (htext ▸ hc)
  have hshort := length_memoryLine_le hlen hbytes
  rw [← htext] at hshort
  rw [printMemory, ← hformat, ← htext, ← hargs]
  refine consolePrintfPuts_eq hds hne (by omega) ?_
  have hunits : (ascii "%d KB (").length = 7 ∧ (ascii "%d MB)\n").length = 7 := ⟨rfl, rfl⟩
  rw [hformat, List.length_append, List.length_append]
  omega

/-- Texts that are printed without an error. -/
theorem printAll_puts (texts : List (List UInt8)) :
    printAll (texts.map fun text => some (.ok (.puts text))) = commandDone (texts.map .puts) := by
  induction texts with
  | nil => rfl
  | cons text texts ih =>
    rw [List.map_cons, printAll, ih]
    rfl

/-- A text without directives. -/
theorem consolePrintfPuts_plain {text : List UInt8} (htext : ∀ c ∈ text, c ≠ 0 ∧ c ≠ 37)
    (hlen : text.length ≤ 80) (hfuel : 100 < fuel) :
    consolePrintfPuts fuel text [] = some (.ok (.puts text)) := by
  have hformat : printfFormat (literals text htext) false = text := by simp [printfFormat]
  have hexpand : printfText (literals text htext) = text := by simp [printfText]
  have hargs : printfArgs (literals text htext) = [] := by simp [printfArgs]
  have hputs : consolePrintfPuts fuel (printfFormat (literals text htext) false)
      (printfArgs (literals text htext)) = _ :=
    consolePrintfPuts_eq (defined_literals text htext) (fun c hc => (htext c (hexpand ▸ hc)).1)
      (by rw [hexpand]; omega) (by rw [hformat]; omega)
  rwa [hformat, hexpand, hargs] at hputs

theorem meminfoCommand_eq (w : KernelMemory) (args : CommandArgs) (hfuel : 100 < fuel) :
    ∃ ops, meminfoCommand w fuel args = commandDone ops ∧
      ∀ p, showOps p ops = p.print 80 (memoryText w) := by
  have hbytes (n : ℕ) : (UInt32.ofNat n * 4096).toNat = n * 4096 % 2 ^ 32 := by
    rw [UInt32.toNat_mul, UInt32.toNat_ofNat']
    exact Nat.mod_mul_mod n 4096 (2 ^ 32)
  have hhead := consolePrintfPuts_plain (plain_of_all (s := ascii "Memory Information:\n") rfl)
    (by decide) hfuel
  have hline (label : String) (bytes : UInt32)
      (hlabel : (ascii label).all (fun c => c != 0 && c != 37) = true)
      (hlen : (ascii label).length ≤ 20) := printMemory_eq bytes hlabel hlen hfuel
  have hused := hline "  Used:  " (UInt32.ofNat (pmmGetUsedBlockCount w.pmm) * 4096) rfl (by decide)
  have hfree := hline "  Free:  " (UInt32.ofNat (pmmGetFreeBlockCount w.pmm) * 4096) rfl (by decide)
  rw [hbytes] at hused hfree
  let texts := [ascii "Memory Information:\n", memoryLine "  Total: " w.memSize.toNat,
    memoryLine "  Used:  " (w.pmm.memUsedBlocks * 4096 % 2 ^ 32),
    memoryLine "  Free:  " (pmmGetFreeBlockCount w.pmm * 4096 % 2 ^ 32)]
  refine ⟨texts.map .puts, ?_, fun p => ?_⟩
  · rw [← printAll_puts]
    refine congrArg printAll ?_
    exact congrArg₂ List.cons hhead (congrArg₂ List.cons (hline "  Total: " _ rfl (by decide))
      (congrArg₂ List.cons hused (congrArg₂ List.cons hfree rfl)))
  · rw [showOps_puts]
    simp [texts, memoryText]

/-! ### The commands together -/

theorem consoleCall_done {command : ConsoleCommand KernelMemory} {ops : List ScreenOp}
    (h : command.handler w fuel args = commandDone ops) :
    consoleCall w fuel command args = some (.ok ops) := by
  rw [consoleCall, h]
  rfl

/-- A command of the kernel prints the response. -/
theorem kernelCall_respond (h : Arguments args.buffer args.argv (name :: ws.take 15))
    (hfuel : 100 < fuel) {command : ConsoleCommand KernelMemory}
    (hcommand : kernelTable.find? (fun command => command.name = name) = some command) :
    ∃ ops, consoleCall w fuel command args = some (.ok ops) ∧
      ∀ p, showOps p ops = showOps p (respond w (name :: ws)) := by
  have hmem := List.mem_of_find?_eq_some hcommand
  have hname : command.name = name := by simpa using List.find?_some hcommand
  subst hname
  change command ∈ kernelCommands at hmem
  simp only [kernelCommands, List.mem_cons, List.not_mem_nil, or_false] at hmem
  rcases hmem with rfl | rfl | rfl | rfl | rfl
  · have hhelp : helpCommand w fuel args = commandDone (helpLines.map .puts) := rfl
    refine ⟨_, consoleCall_done hhelp, fun p => ?_⟩
    rw [respond, if_pos rfl]
  · have hclear : clearCommand w fuel args = commandDone [.clear] := rfl
    refine ⟨_, consoleCall_done hclear, fun p => ?_⟩
    rw [respond, if_neg (by decide), if_pos rfl]
  · have hinfo : infoCommand w fuel args = commandDone (infoLines.map .puts) := rfl
    refine ⟨_, consoleCall_done hinfo, fun p => ?_⟩
    rw [respond, if_neg (by decide), if_neg (by decide), if_pos rfl]
  · obtain ⟨ops, hecho, hops⟩ := echoCommand_eq w fuel h
    refine ⟨ops, consoleCall_done hecho, fun p => ?_⟩
    rw [respond, if_neg (by decide), if_neg (by decide), if_neg (by decide), if_pos rfl, hops]
    simp [ScreenOp.onPage]
  · obtain ⟨ops, hmeminfo, hops⟩ := meminfoCommand_eq w args hfuel
    refine ⟨ops, consoleCall_done hmeminfo, fun p => ?_⟩
    rw [respond, if_neg (by decide), if_neg (by decide), if_neg (by decide), if_neg (by decide),
      if_pos rfl, hops]
    simp [ScreenOp.onPage]

/-- **The commands print the responses**, whatever was on the stack, and no buffer is left. -/
theorem kernelCommands_respond (w : KernelMemory) (cmdCopy : ℕ → UInt8) {line : List UInt8}
    (hline : ∀ c ∈ line, c ≠ 0) (hsize : line.length < 256) (hfuel : 100 < fuel) :
    ∃ ops, consoleExecuteCommand kernelTable w fuel cmdCopy line = some (.ok ops) ∧
      ∀ p, showOps p ops = showOps p (respond w (words isBlank line)) := by
  cases hwords : words isBlank line with
  | nil => exact ⟨[], consoleExecuteCommand_blank _ w cmdCopy hline hsize hwords, fun p => rfl⟩
  | cons name ws =>
    obtain ⟨args, hargs, heq⟩ :=
      consoleExecuteCommand_words kernelTable w cmdCopy fuel hline hsize hwords
    rw [heq]
    cases hfind : kernelTable.find? (fun command => command.name = name) with
    | some command => exact kernelCall_respond hargs hfuel hfind
    | none =>
      have hpart : name <:+: line := isInfix_of_mem_words (hwords ▸ List.mem_cons_self)
      have hunknown := consolePrintfPuts_unknown (fun c hc => hline c (hpart.subset hc))
        (hpart.length_le.trans_lt hsize) (by omega : 50 < fuel)
      have hnone := List.find?_eq_none.mp hfind
      refine ⟨[unknownCommand name], ?_, fun p => ?_⟩
      · dsimp only
        rw [hunknown]
        rfl
      · have hother (command : ConsoleCommand KernelMemory) (hmem : command ∈ kernelCommands) :
            name ≠ command.name := fun heq => hnone command hmem (by simp [heq])
        have hhelp := hother _ (List.mem_of_getElem? (i := 0) rfl)
        have hclear := hother _ (List.mem_of_getElem? (i := 1) rfl)
        have hinfo := hother _ (List.mem_of_getElem? (i := 2) rfl)
        have hecho := hother _ (List.mem_of_getElem? (i := 3) rfl)
        have hmeminfo := hother _ (List.mem_of_getElem? (i := 4) rfl)
        rw [respond, if_neg hhelp, if_neg hclear, if_neg hinfo, if_neg hecho, if_neg hmeminfo]

end

end Rexus
