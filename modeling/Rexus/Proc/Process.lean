import Rexus.Lib.Linked
import Rexus.Mem.Vmm

/-!
# Processes

`proc/process.c`: the list of processes, their creation, and the round-robin walk that picks the
next one. A process control block is a block of the allocator; the records are kept beside the
memory, by the address of their block, so that the allocator decides whether a record may be used
and the memory holds page tables and stacks. The walk frees the terminated processes it passes; the
list of those it has freed is carried along for the proofs, and nothing depends on it.

A pointer search and the walk itself are unbounded loops, run with fuel. An operation gives `none`
without fuel, when it halts on a page fault, and when it writes past the end of a name.

## What a proof uses

* `processGetNext` — the walk, and `processWalkTurn`, one turn of it
* `Kernel.freeProcess` — what reaping a process does to the allocator
* `processOp` — the operations a run is made of

## The records

In the source a record is the first bytes of its block, and the block is written when somebody else
gets it. Here the records are a map of their own, `Kernel.pcb`, which no write to the memory
changes. The two agree as long as the blocks of the records that a call reads are in use when it is
made: no allocation of the call can return one of them then, and no other write of `process.c` goes
to them. Within the runs of `Rexus.Proc.SchedRun` this is part of the invariant, as every listed
process has its block. The results that are about any kernel and any pointers ask for it:
`RecordsInUse` in `Rexus.Proc.Blocked`.

Of the processor there are the two registers of the stack, which are all that `process_switch`
saves. The calls come one after the other: a tick of the timer is a call of its own, and one that
comes in the middle of another call is not modelled. The messages that `process_init` prints are
left out.
-/

namespace Rexus

open Linked Loop

/-! ### The data -/

/-- `process_state_t`. -/
inductive ProcessState where
  | ready
  | running
  | blocked
  | terminated
  deriving DecidableEq

/-- `process_priority_t`. -/
inductive ProcessPriority where
  | low
  | normal
  | high
  | realTime
  deriving DecidableEq

/-- `process_t`. The name is the string kept in `name[32]`; pointers are numbers, with `0` for null.
The record lies at an address, but is kept apart from the memory that is modelled. -/
structure Process where
  pid : UInt32
  name : List UInt8
  state : ProcessState
  priority : ProcessPriority
  esp : UInt32
  ebp : UInt32
  eip : UInt32
  pageDirectory : ℕ
  stack : ℕ
  stackSize : ℕ
  sleepUntil : UInt32
  exitCode : Int32
  next : ℕ

/-- `memset(proc, 0, sizeof(process_t))`. -/
def Process.zero : Process where
  pid := 0
  name := []
  state := .ready
  priority := .low
  esp := 0
  ebp := 0
  eip := 0
  pageDirectory := 0
  stack := 0
  stackSize := 0
  sleepUntil := 0
  exitCode := 0
  next := 0

/-- The memory, the process records, the variables of `process.c`, and of the processor the two
stack registers and the kernel stack of the task state segment. -/
structure Kernel where
  mem : Mem
  pcb : ℕ → Process
  processList : ℕ
  currentProcess : ℕ
  nextPid : UInt32
  systemTime : UInt32
  esp : UInt32
  ebp : UInt32
  tssEsp0 : UInt32

namespace Kernel

/-- `*p = q`. -/
def setPcb (k : Kernel) (p : ℕ) (q : Process) : Kernel :=
  { k with pcb := Function.update k.pcb p q }

/-- `p->state = st`. -/
def setState (k : Kernel) (p : ℕ) (st : ProcessState) : Kernel :=
  k.setPcb p { k.pcb p with state := st }

/-- `p->next = q`. -/
def setNext (k : Kernel) (p q : ℕ) : Kernel := k.setPcb p { k.pcb p with next := q }

/-- The `next` pointers. -/
def next (k : Kernel) (p : ℕ) : ℕ := (k.pcb p).next

/-- A state of the block allocator. -/
def setPmm (k : Kernel) (pmm : Pmm) : Kernel := { k with mem := { k.mem with pmm } }

end Kernel

/-! ### The operations -/

/-- `process_init`, given the address of `process_idle`. -/
def processInit (k : Kernel) (processIdle : UInt32) : Kernel :=
  match pmmAllocBlock k.mem.pmm with
  | (idle, pmm) =>
    match pmmAllocBlock pmm with
    | (stack, pmm) =>
      let top := UInt32.ofNat (stack + 4096)
      let k := (k.setPmm pmm).setPcb idle
        { Process.zero with
          name := [0x69, 0x64, 0x6C, 0x65]
          pid := 0
          state := .running
          priority := .low
          pageDirectory := k.mem.currentDirectory
          stackSize := 4096
          stack := stack
          esp := top
          ebp := top
          eip := processIdle }
      { k with processList := idle, currentProcess := idle }

/-- `*--stack = v`, with `stack` the address `sp`. -/
def push (s : Mem × ℕ) (v : BitVec 32) : Mem × ℕ := (s.1.setWord (s.2 - 4) 0 v, s.2 - 4)

/-- The words `process_create` pushes: the argument, a return address, the flags, the code segment,
the entry point and the eight registers. -/
def firstFrame (entry arg : UInt32) : List (BitVec 32) :=
  [arg.toBitVec, 0#32, 0x202#32, 0x08#32, entry.toBitVec, 0#32, 0#32, 0#32, 0#32, 0#32, 0#32, 0#32,
    0#32]

/-- The end of the list: `while (p->next) p = p->next`. -/
def lastProcess (fuel : ℕ) (k : Kernel) : Option ℕ :=
  iterate (searchTurn k.next fun p => k.next p == 0) fuel k.processList

/-- The stack of a new process is set up. -/
def Kernel.startProcess (k : Kernel) (proc stack : ℕ) (entry arg : UInt32) : Kernel :=
  match (firstFrame entry arg).foldl push (k.mem, stack + 16384) with
  | (mem, sp) =>
    ({ k with mem } : Kernel).setPcb proc
      { k.pcb proc with
        stackSize := 16384
        stack := stack
        esp := UInt32.ofNat sp
        ebp := UInt32.ofNat sp
        eip := entry }

/-- A new process is put at the end of the list. -/
def processAppend (fuel : ℕ) (k : Kernel) (proc : ℕ) : Option (ℕ × Kernel) :=
  (lastProcess fuel k).map fun p => (proc, k.setNext p proc)

/-- `pmm_free_block(proc)`. -/
def Kernel.freeRecord (k : Kernel) (proc : ℕ) : Kernel := k.setPmm (pmmFreeBlock k.mem.pmm proc)

/-- `process_create` from the allocation of the stack on. -/
def processStack (fuel : ℕ) (k : Kernel) (proc : ℕ) (entry arg : UInt32) : Option (ℕ × Kernel) :=
  match pmmAllocBlocks k.mem.pmm (16384 / 4096) with
  | (stack, pmm) =>
    let k := k.setPmm pmm
    if stack = 0 then
      some (0, ({ k with mem := vmmFreeDirectory k.mem (k.pcb proc).pageDirectory } :
        Kernel).freeRecord proc)
    else processAppend fuel (k.startProcess proc stack entry arg) proc

/-- `process_create` from the clone on. -/
def processClone (fuel : ℕ) (k : Kernel) (proc : ℕ) (entry arg : UInt32) : Option (ℕ × Kernel) :=
  match vmmCloneDirectory k.mem k.mem.currentDirectory with
  | none => none
  | some (dir, mem) =>
    let k := ({ k with mem } : Kernel).setPcb proc { k.pcb proc with pageDirectory := dir }
    if dir = 0 then some (0, k.freeRecord proc) else processStack fuel k proc entry arg

/-- The kernel with the record of a new process. -/
def Kernel.newRecord (k : Kernel) (proc : ℕ) (name : List UInt8) (priority : ProcessPriority) :
    Kernel :=
  { k.setPcb proc { Process.zero with name, pid := k.nextPid, state := .ready, priority } with
    nextPid := k.nextPid + 1 }

/-- `process_create`: the process, or null. -/
def processCreate (fuel : ℕ) (k : Kernel) (name : List UInt8) (entry arg : UInt32)
    (priority : ProcessPriority) : Option (ℕ × Kernel) :=
  match pmmAllocBlock k.mem.pmm with
  | (proc, pmm) =>
    if proc = 0 then some (0, k.setPmm pmm)
    -- `strcpy` would write past the end of `name[32]`
    else if 32 ≤ name.length then none
    else processClone fuel ((k.setPmm pmm).newRecord proc name priority) proc entry arg

/-- The search for the process before `x`: `while (prev && prev->next != next)`. -/
def findPrev (fuel : ℕ) (k : Kernel) (x : ℕ) : Option ℕ :=
  iterate (searchTurn k.next fun p => p == 0 || k.next p == x) fuel k.processList

/-- `if (next->stack) pmm_free_blocks(next->stack, next->stack_size / PAGE_SIZE)`. -/
def Kernel.freeStack (k : Kernel) (x : ℕ) : Kernel :=
  if (k.pcb x).stack = 0 then k
  else k.setPmm (pmmFreeBlocks k.mem.pmm (k.pcb x).stack ((k.pcb x).stackSize / 4096))

/-- `if (next->page_directory) vmm_free_directory(next->page_directory)`. -/
def Kernel.freePageDirectory (k : Kernel) (x : ℕ) : Kernel :=
  if (k.pcb x).pageDirectory = 0 then k
  else { k with mem := vmmFreeDirectory k.mem (k.pcb x).pageDirectory }

/-- The third case of the walk: the terminated process `x` is taken out of the list and freed. The
result is the process the walk goes on from. -/
def processReap (fuel : ℕ) (k : Kernel) (x : ℕ) : Option (ℕ × Kernel) :=
  (findPrev fuel k x).map fun prev =>
    let k := if prev = 0 then k else k.setNext prev (k.next x)
    let k := (k.freeStack x).freePageDirectory x
    let temp := if k.next x = 0 then k.processList else k.next x
    (temp, k.setPmm (pmmFreeBlock k.mem.pmm x))

/-- Where the walk of `process_get_next` is, the processes it has freed so far, and the state. The
freed ones are a record of the run; the code keeps no list of them. -/
structure Walk where
  next : ℕ
  reaped : List ℕ
  kernel : Kernel

/-- A process whose sleep is over. -/
def Kernel.wakes (k : Kernel) (p : ℕ) : Prop :=
  (k.pcb p).state = .blocked ∧ (k.pcb p).sleepUntil ≠ 0 ∧ (k.pcb p).sleepUntil ≤ k.systemTime

instance (k : Kernel) (p : ℕ) : Decidable (k.wakes p) := instDecidableAnd

/-- The test `while (next != start)`; behind it the idle process is returned. -/
def walkOn (start : ℕ) (w : Walk) : Turn Walk Walk :=
  if w.next = start then .done { w with next := w.kernel.processList } else .next w

/-- One turn of the loop of `process_get_next`. -/
def processWalkTurn (fuel start : ℕ) (w : Walk) : Option (Turn Walk Walk) :=
  let k := w.kernel
  let x := w.next
  if (k.pcb x).state = .ready then some (.done w)
  else if k.wakes x then some (.done { w with kernel := k.setState x .ready })
  else if (k.pcb x).state = .terminated then
    (processReap fuel k x).map fun (temp, k) =>
      if temp = 0 then .done ⟨k.processList, w.reaped ++ [x], k⟩
      -- `continue` goes to the test of the loop
      else walkOn start ⟨temp, w.reaped ++ [x], k⟩
  else some (walkOn start ⟨if k.next x = 0 then k.processList else k.next x, w.reaped, k⟩)

/-- `process_get_next`: the process to be run next, with the records that the walk has freed on its
way. With `none` the fuel has not been enough for the turns of the walk. -/
def processGetNext (fuel : ℕ) (k : Kernel) : Option Walk :=
  if k.processList = 0 then some ⟨0, [], k⟩
  else
    let next := k.next k.currentProcess
    let start := if next = 0 then k.processList else next
    iterate (processWalkTurn fuel start) fuel ⟨start, [], k⟩

/-- `if (prev->state == PROCESS_STATE_RUNNING) prev->state = PROCESS_STATE_READY`. -/
def Kernel.preempt (k : Kernel) (prev : ℕ) : Kernel :=
  if (k.pcb prev).state = .running then k.setState prev .ready else k

/-- The address space of `next`, unless it is that of `prev`. -/
def Kernel.switchDirectory (k : Kernel) (prev next : ℕ) : Kernel :=
  if (k.pcb prev).pageDirectory = (k.pcb next).pageDirectory then k
  else { k with mem := vmmSwitchPageDirectory k.mem (k.pcb next).pageDirectory }

/-- The stack registers are saved in `prev` and loaded from `next`. -/
def Kernel.switchStack (k : Kernel) (prev next : ℕ) : Kernel :=
  let k := k.setPcb prev { k.pcb prev with esp := k.esp, ebp := k.ebp }
  { k with esp := (k.pcb next).esp, ebp := (k.pcb next).ebp }

/-- `process_switch`, as far as the kernel's state goes: the stack registers are saved and loaded,
and the function goes on as the process it has switched to. -/
def processSwitch (k : Kernel) (next : ℕ) : Kernel :=
  if next = 0 then k
  else
    let prev := k.currentProcess
    let k := ({ k.preempt prev with currentProcess := next } : Kernel).setState next .running
    let k := k.switchDirectory prev next
    let k := { k with tssEsp0 := (k.pcb next).esp }
    k.switchStack prev next

/-- `process_yield`, with the processes it has freed. -/
def processYield (fuel : ℕ) (k : Kernel) : Option (List ℕ × Kernel) :=
  (processGetNext fuel k).map fun w =>
    let next := if w.next = 0 then w.kernel.processList else w.next
    (w.reaped,
      if next = w.kernel.currentProcess then w.kernel else processSwitch w.kernel next)

/-- `process_exit`: the current process is terminated, and the next one is switched to. The list is
what the walk has reaped; `none` if the walk does not end. -/
def processExit (fuel : ℕ) (k : Kernel) (code : Int32) : Option (List ℕ × Kernel) :=
  if k.currentProcess = 0 then some ([], k)
  else
    processYield fuel (k.setPcb k.currentProcess
      { k.pcb k.currentProcess with exitCode := code, state := .terminated })

/-- `process_sleep`: the current process is blocked until the sum of the time and `ms`, which may
wrap, and the next one is switched to; `none` if the walk does not end. -/
def processSleep (fuel : ℕ) (k : Kernel) (ms : UInt32) : Option (List ℕ × Kernel) :=
  if k.currentProcess = 0 then some ([], k)
  else
    processYield fuel (k.setPcb k.currentProcess
      { k.pcb k.currentProcess with sleepUntil := k.systemTime + ms, state := .blocked })

/-- A new state for a process, and a yield if it is the current one: `process_block` and
`process_terminate`. -/
def processStop (st : ProcessState) (fuel : ℕ) (k : Kernel) (proc : ℕ) :
    Option (List ℕ × Kernel) :=
  if proc = 0 then some ([], k)
  else if proc = k.currentProcess then processYield fuel (k.setState proc st)
  else some ([], k.setState proc st)

/-- `process_block`. Its state is not looked at, and its sleep is left as it is; if it is the
current process, the next one is switched to. With `none` that walk does not end. -/
def processBlock : ℕ → Kernel → ℕ → Option (List ℕ × Kernel) := processStop .blocked

/-- `process_terminate`. The record is only marked, and freed by a later walk; if it is the current
process, the next one is switched to. With `none` that walk does not end. -/
def processTerminate : ℕ → Kernel → ℕ → Option (List ℕ × Kernel) := processStop .terminated

/-- `process_unblock`: a blocked process is made ready, asleep or not, and its sleep is left as it
is; nothing happens to another, or for a null pointer. -/
def processUnblock (k : Kernel) (proc : ℕ) : Kernel :=
  if proc ≠ 0 ∧ (k.pcb proc).state = .blocked then k.setState proc .ready else k

/-- `process_timer_tick`: the time goes on by one, and with every tenth tick the current process
yields; `none` if the walk does not end. -/
def processTimerTick (fuel : ℕ) (k : Kernel) : Option (List ℕ × Kernel) :=
  let k := { k with systemTime := k.systemTime + 1 }
  if k.systemTime % 10 = 0 then processYield fuel k else some ([], k)

/-! ### Runs -/

/-- The calls a run is made of, with the arguments of the caller. `process_exit`, `process_sleep`
and `process_yield` are about the current process, and the tick is the handler's. -/
inductive ProcessOp where
  | create (name : List UInt8) (entry arg : UInt32) (priority : ProcessPriority)
  | exit (code : Int32)
  | sleep (ms : UInt32)
  | block (proc : ℕ)
  | unblock (proc : ℕ)
  | terminate (proc : ℕ)
  | yield
  | timerTick

/-- What a call leaves: the process it has created, those it has freed, and the state. -/
structure Outcome where
  created : List ℕ
  reaped : List ℕ
  kernel : Kernel

/-- The outcome of a call that creates no process. -/
def Outcome.ofReaped (e : List ℕ × Kernel) : Outcome := ⟨[], e.1, e.2⟩

/-- One call; `none` if the fuel does not suffice for the walk, which is so for any fuel if the walk
does not end. -/
def processOp (fuel : ℕ) (k : Kernel) : ProcessOp → Option Outcome
  | .create name entry arg priority =>
    (processCreate fuel k name entry arg priority).map fun (proc, k) =>
      ⟨if proc = 0 then [] else [proc], [], k⟩
  | .exit code => (processExit fuel k code).map .ofReaped
  | .sleep ms => (processSleep fuel k ms).map .ofReaped
  | .block proc => (processBlock fuel k proc).map .ofReaped
  | .unblock proc => some ⟨[], [], processUnblock k proc⟩
  | .terminate proc => (processTerminate fuel k proc).map .ofReaped
  | .yield => (processYield fuel k).map .ofReaped
  | .timerTick => (processTimerTick fuel k).map .ofReaped

end Rexus
