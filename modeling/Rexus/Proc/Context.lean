import Rexus.Proc.Fairness

/-!
# A process goes on where it was left

The context of a process is the two stack registers in its record, the words of its stack, and its
directory. A yield saves the registers of the process it leaves and loads those of the process it
picks, and no call writes to a block that is in use. A process therefore goes on with the registers
and the memory it was left with, whatever calls there are in between; and a created process starts
with the frame `process_create` has laid out.

The processes themselves write to memory while they run; a run is made of the calls only.

## Main results

* `process_resumes` — a process that is left and later switched to
* `process_starts` — a process that is created and later switched to

## Conventions

A run is one of calls that free no kernel table, from a machine that has just been set up. Each call
is given what the two stack registers hold when it is made, since the process that makes it has used
its stack: `Call`. The switch writes them into the record of the process it leaves and takes those
of the other; what is below the stack pointer belongs to nobody.

To have been left is to have been current before a call and not behind it, and to be resumed is the
reverse; in between the process may be blocked, sleep and be woken. A process that has been reaped
is not resumed, and that it is reaped only when it was terminated is in `Rexus.Proc.SchedRun`. That
two processes do not share a block is the invariant of `Rexus.Proc.Owned`.
-/

namespace Rexus

open Linked Loop Mem Pmm Run

/-! ### What a creation writes -/

/-- The blocks in use hold what they held. -/
def SameUsed (m m' : Mem) : Prop := ∀ a, a / 1024 ∈ m.pmm.usedSet → m'.ram a = m.ram a

theorem SameOutside.sameUsed {m m' : Mem} {U : Finset ℕ} (h : SameOutside m m' U)
    (hU : Disjoint m.pmm.usedSet U) : SameUsed m m' :=
  fun a ha => h a (Finset.disjoint_left.mp hU ha)

theorem ram_vmmFreeDirectory (m : Mem) (dir : ℕ) : (vmmFreeDirectory m dir).ram = m.ram := by
  by_cases hdir : dir = 0
  · rw [vmmFreeDirectory, if_pos hdir]
  · obtain ⟨t, heq, -⟩ := vmmFreeDirectory_spec m hdir
    rw [heq]

section Create

variable {base : Finset ℕ} {k k' : Kernel} {live : List ℕ} {fuel b proc : ℕ} {name : List UInt8}
  {entry arg : UInt32} {priority : ProcessPriority}

/-- The words pushed lie in a row, the last one first. -/
theorem foldl_push_word (vs : List (BitVec 32)) (m : Mem) {sp : ℕ} (hmod : sp % 4 = 0)
    (hlow : 4 * vs.length ≤ sp) :
    (vs.foldl push (m, sp)).2 = sp - 4 * vs.length ∧
      (∀ a, sp / 4 ≤ a → (vs.foldl push (m, sp)).1.ram a = m.ram a) ∧
      ∀ i w, vs.reverse[i]? = some w →
        (vs.foldl push (m, sp)).1.word (sp - 4 * vs.length) i = w := by
  induction vs generalizing m sp with
  | nil => exact ⟨rfl, fun _ _ => rfl, fun i w hw => by cases hw⟩
  | cons v vs ih =>
    rw [List.length_cons] at hlow ⊢
    obtain ⟨hsp, hram, hword⟩ := @ih (m.setWord (sp - 4) 0 v) (sp - 4) (by omega) (by omega)
    have hlast : sp - 4 - 4 * vs.length = sp - 4 * (vs.length + 1) := by omega
    rw [hlast] at hsp hword
    refine ⟨hsp, fun a ha => (hram a (by omega)).trans ?_, fun i w hw => ?_⟩
    · exact Function.update_of_ne (by omega) _ _
    · rw [List.reverse_cons] at hw
      rcases Nat.lt_or_ge i vs.length with hi | hi
      · rw [List.getElem?_append_left (by simpa using hi)] at hw
        exact hword i w hw
      · -- the first word pushed is the highest
        rw [List.getElem?_append_right (by simpa using hi), List.length_reverse] at hw
        obtain ⟨hzero, rfl⟩ := List.getElem?_eq_some_iff.mp hw
        rw [List.length_singleton] at hzero
        have hi' : i = vs.length := by omega
        subst hi'
        have haddr : (sp - 4 * (vs.length + 1)) / 4 + vs.length = (sp - 4) / 4 + 0 := by omega
        rw [List.foldl_cons, push, Mem.word, haddr, hram _ (by omega)]
        simp [Mem.setWord]

/-- `q'` is the record `q` of a new process once its stack is set up in `m`: both stack registers
are at the first frame, which lies at the top of the stack. -/
structure Started (q q' : Process) (m : Mem) (entry arg : UInt32) : Prop where
  aligned : q'.stack % 4096 = 0
  record : ∃ stack next, q' =
    { q with
      esp := UInt32.ofNat (stack + 16332)
      ebp := UInt32.ofNat (stack + 16332)
      eip := entry
      stack := stack
      stackSize := 16384
      next := next }
  frame : ∀ i w, (firstFrame entry arg).reverse[i]? = some w → m.word (q'.stack + 16332) i = w

theorem processStack_started (h : processStack fuel k b entry arg = some (proc, k'))
    (hproc : proc ≠ 0) : proc = b ∧ Started (k.pcb b) (k'.pcb b) k'.mem entry arg := by
  rcases halloc : pmmAllocBlocks k.mem.pmm (16384 / 4096) with ⟨stack, u⟩
  rw [processStack, halloc] at h
  dsimp only at h
  split_ifs at h with hstack
  · exact absurd (Prod.mk.inj (Option.some_inj.mp h)).1.symm hproc
  · obtain ⟨last, -, heq⟩ := Option.map_eq_some_iff.mp h
    obtain ⟨rfl, rfl⟩ := Prod.mk.inj heq
    obtain ⟨haddr, -, -⟩ := takes_of_pmmAllocBlocks halloc hstack
    obtain ⟨hsp, -, hword⟩ := foldl_push_word (firstFrame entry arg) (k.setPmm u).mem
      (show (stack + 16384) % 4 = 0 by omega) (Nat.le_add_left _ _)
    have hlast : stack + 16384 - 4 * (firstFrame entry arg).length = stack + 16332 := rfl
    rw [hlast] at hsp hword
    have hrecord : ((k.setPmm u).startProcess b stack entry arg).pcb b =
        { k.pcb b with
          stackSize := 16384
          stack := stack
          esp := UInt32.ofNat (stack + 16332)
          ebp := UInt32.ofNat (stack + 16332)
          eip := entry } := by
      rw [Kernel.startProcess]
      dsimp only
      rw [Kernel.setPcb_self, hsp]
      rfl
    rw [Kernel.setNext_pcb, hrecord]
    exact ⟨rfl, by show stack % 4096 = 0; omega, ⟨stack, _, rfl⟩, hword⟩

/-- A creation that succeeds: the record of the new process, and its first frame. -/
theorem processCreate_started
    (h : processCreate fuel k name entry arg priority = some (proc, k')) (hproc : proc ≠ 0) :
    ∃ pageDirectory, Started { Process.zero with pid := k.nextPid, name, priority, pageDirectory }
      (k'.pcb proc) k'.mem entry arg := by
  rw [processCreate] at h
  dsimp only at h
  split_ifs at h
  · exact absurd (Prod.mk.inj (Option.some_inj.mp h)).1.symm hproc
  · rw [processClone] at h
    generalize hk : (k.setPmm (pmmAllocBlock k.mem.pmm).2).newRecord (pmmAllocBlock k.mem.pmm).1
      name priority = k₁ at h
    cases hclone : vmmCloneDirectory k₁.mem k₁.mem.currentDirectory with
    | none =>
      rw [hclone] at h
      cases h
    | some e =>
      rw [hclone] at h
      dsimp only at h
      split_ifs at h
      · exact absurd (Prod.mk.inj (Option.some_inj.mp h)).1.symm hproc
      · obtain ⟨rfl, hstarted⟩ := processStack_started h hproc
        rw [Kernel.setPcb_self, ← hk, Kernel.newRecord] at hstarted
        dsimp only at hstarted
        rw [Kernel.setPcb_self] at hstarted
        exact ⟨e.1, hstarted⟩

/-- A creation writes to free memory only. -/
theorem sameUsed_processStack {e : ℕ × Kernel} (h : processStack fuel k b entry arg = some e) :
    SameUsed k.mem e.2.mem := by
  rcases halloc : pmmAllocBlocks k.mem.pmm (16384 / 4096) with ⟨stack, u⟩
  rw [processStack, halloc] at h
  dsimp only at h
  split_ifs at h with hstack
  · obtain rfl := Option.some_inj.mp h
    intro a _
    exact congrFun (ram_vmmFreeDirectory _ _) a
  · obtain ⟨last, -, rfl⟩ := Option.map_eq_some_iff.mp h
    obtain ⟨haddr, -, hu⟩ := takes_of_pmmAllocBlocks halloc hstack
    obtain ⟨mem, esp, ebp, hsame, -, -, heq⟩ := startProcess_eq (k.setPmm u) b
      (show stack % 4096 = 0 by omega) entry arg
    dsimp only
    rw [heq]
    exact SameOutside.sameUsed hsame hu.free

theorem sameUsed_processCreate (hsrc : SrcOk k.mem k.mem.currentDirectory) {e : ℕ × Kernel}
    (h : processCreate fuel k name entry arg priority = some e) : SameUsed k.mem e.2.mem := by
  have hused : k.mem.pmm.usedSet ⊆ (pmmAllocBlock k.mem.pmm).2.usedSet := by
    rcases pmmAllocBlock_takes k.mem.pmm with ⟨t, halloc, B, -, ht⟩ | ⟨b, t, halloc, -, -, ht⟩
    all_goals
      rw [halloc]
      exact ht.subset
  rw [processCreate] at h
  dsimp only at h
  split_ifs at h
  · obtain rfl := Option.some_inj.mp h
    exact fun _ _ => rfl
  · rw [processClone] at h
    have hmem : ((k.setPmm (pmmAllocBlock k.mem.pmm).2).newRecord (pmmAllocBlock k.mem.pmm).1
      name priority).mem = { k.mem with pmm := (pmmAllocBlock k.mem.pmm).2 } := rfl
    rw [hmem] at h
    cases hclone : vmmCloneDirectory { k.mem with pmm := (pmmAllocBlock k.mem.pmm).2 }
        k.mem.currentDirectory with
    | none =>
      rw [hclone] at h
      cases h
    | some dm =>
      obtain ⟨dir, m⟩ := dm
      rw [hclone] at h
      dsimp only at h
      rcases vmmCloneDirectory_spec (hsrc.mono hused) hclone with
        ⟨rfl, hfailed⟩ | ⟨block, T, hinv⟩
      · rw [if_pos rfl] at h
        obtain rfl := Option.some_inj.mp h
        obtain ⟨U, hU, hsame⟩ := hfailed.same
        intro a ha
        exact SameOutside.sameUsed hsame hU a (hused ha)
      · rw [if_neg hinv.dest_ne_zero] at h
        intro a ha
        have ht := hinv.blocks.takes
        exact (sameUsed_processStack h a (ht.subset (hused ha))).trans
          (SameOutside.sameUsed hinv.blocks.same ht.free a (hused ha))

end Create

/-! ### What a call does to the contexts -/

/-- Two records of one process: what it owns, and what it was created with. The state, the sleep and
the link may differ, and so may the stack registers. -/
structure SameProcess (q q' : Process) : Prop extends SameOwner q q' where
  pid : q'.pid = q.pid
  name : q'.name = q.name
  priority : q'.priority = q.priority
  eip : q'.eip = q.eip

theorem SameProcess.refl (q : Process) : SameProcess q q := ⟨⟨rfl, rfl, rfl⟩, rfl, rfl, rfl, rfl⟩

theorem SameProcess.trans {q q' q'' : Process} (h₁ : SameProcess q q') (h₂ : SameProcess q' q'') :
    SameProcess q q'' where
  pageDirectory := h₂.pageDirectory.trans h₁.pageDirectory
  stack := h₂.stack.trans h₁.stack
  stackSize := h₂.stackSize.trans h₁.stackSize
  pid := h₂.pid.trans h₁.pid
  name := h₂.name.trans h₁.name
  priority := h₂.priority.trans h₁.priority
  eip := h₂.eip.trans h₁.eip

/-- The records of one process, with the same stack registers: where it left the processor is where
it will be resumed. -/
structure SameContext (q q' : Process) : Prop extends SameProcess q q' where
  esp : q'.esp = q.esp
  ebp : q'.ebp = q.ebp

theorem SameContext.refl (q : Process) : SameContext q q := ⟨SameProcess.refl q, rfl, rfl⟩

theorem SameContext.trans {q q' q'' : Process} (h₁ : SameContext q q') (h₂ : SameContext q' q'') :
    SameContext q q'' :=
  ⟨h₁.toSameProcess.trans h₂.toSameProcess, h₂.esp.trans h₁.esp, h₂.ebp.trans h₁.ebp⟩

/-- `k'` is `k` after a call, of the contexts of `ps`. If the call switches, it saves the registers
in the record of the process it leaves, and loads those of the process it switches to. -/
structure Contexts (ps : List ℕ) (k k' : Kernel) : Prop where
  same : ∀ p ∈ ps, SameProcess (k.pcb p) (k'.pcb p)
  parked : ∀ p ∈ ps, p ≠ k.currentProcess → SameContext (k.pcb p) (k'.pcb p)
  saved : k'.currentProcess ≠ k.currentProcess →
    (k'.pcb k.currentProcess).esp = k.esp ∧ (k'.pcb k.currentProcess).ebp = k.ebp
  loaded : k'.currentProcess ≠ k.currentProcess →
    k'.esp = (k.pcb k'.currentProcess).esp ∧ k'.ebp = (k.pcb k'.currentProcess).ebp ∧
      k'.tssEsp0 = (k.pcb k'.currentProcess).esp

section Calls

variable {base : Finset ℕ} {k k' : Kernel} {live ps : List ℕ} {fuel x : ℕ} {op : ProcessOp}
  {out : Outcome}

/-- A call that does not switch. -/
theorem Contexts.of_same (hcur : k'.currentProcess = k.currentProcess)
    (hsame : ∀ p ∈ ps, SameContext (k.pcb p) (k'.pcb p)) : Contexts ps k k' :=
  ⟨fun p hp => (hsame p hp).toSameProcess, fun p hp _ => hsame p hp,
    fun hne => absurd hcur hne, fun hne => absurd hcur hne⟩

/-- A switch. -/
theorem contexts_processSwitch (hx : x ≠ 0) (hne : x ≠ k.currentProcess) (ps : List ℕ) :
    Contexts ps k (processSwitch k x) := by
  obtain ⟨d, -, heq⟩ := processSwitch_eq hx hne
  rw [heq]
  refine ⟨fun p _ => ?_, fun p _ hp => ?_, fun _ => ?_, fun _ => ⟨rfl, rfl, rfl⟩⟩
  · by_cases hp : p = k.currentProcess
    · subst hp
      dsimp only
      rw [Function.update_self]
      exact ⟨⟨rfl, rfl, rfl⟩, rfl, rfl, rfl, rfl⟩
    · dsimp only
      rw [Function.update_of_ne hp]
      by_cases hpx : p = x
      · subst hpx
        rw [Function.update_self]
        exact ⟨⟨rfl, rfl, rfl⟩, rfl, rfl, rfl, rfl⟩
      · rw [Function.update_of_ne hpx]
        exact SameProcess.refl _
  · dsimp only
    rw [Function.update_of_ne hp]
    by_cases hpx : p = x
    · subst hpx
      rw [Function.update_self]
      exact ⟨⟨⟨rfl, rfl, rfl⟩, rfl, rfl, rfl, rfl⟩, rfl, rfl⟩
    · rw [Function.update_of_ne hpx]
      exact SameContext.refl _
  · dsimp only
    rw [Function.update_self]
    exact ⟨rfl, rfl⟩

/-- `k'` has the memory, the registers and the contexts of `k`, and no other process is current. -/
structure Quiet (k k' : Kernel) : Prop where
  ram : k'.mem.ram = k.mem.ram
  currentProcess : k'.currentProcess = k.currentProcess
  nextPid : k'.nextPid = k.nextPid
  esp : k'.esp = k.esp
  ebp : k'.ebp = k.ebp
  context : ∀ p, SameContext (k.pcb p) (k'.pcb p)

theorem Quiet.trans {k₁ : Kernel} (h₁ : Quiet k k₁) (h₂ : Quiet k₁ k') : Quiet k k' where
  ram := h₂.ram.trans h₁.ram
  currentProcess := h₂.currentProcess.trans h₁.currentProcess
  nextPid := h₂.nextPid.trans h₁.nextPid
  esp := h₂.esp.trans h₁.esp
  ebp := h₂.ebp.trans h₁.ebp
  context p := (h₁.context p).trans (h₂.context p)

theorem Quiet.contexts (h : Quiet k k') (ps : List ℕ) : Contexts ps k k' :=
  .of_same h.currentProcess fun p _ => h.context p

/-- A call that changes no context before it switches. -/
theorem Quiet.then {k₁ : Kernel} (h : Quiet k k₁) (h' : Contexts ps k₁ k') : Contexts ps k k' := by
  have hcur := h.currentProcess
  refine ⟨fun p hp => (h.context p).toSameProcess.trans (h'.same p hp), fun p hp hne => ?_,
    fun hne => ?_, fun hne => ?_⟩
  · exact (h.context p).trans (h'.parked p hp (hcur ▸ hne))
  · rw [← hcur] at hne ⊢
    rw [← h.esp, ← h.ebp]
    exact h'.saved hne
  · rw [← hcur] at hne
    rw [← (h.context k'.currentProcess).esp, ← (h.context k'.currentProcess).ebp]
    exact h'.loaded hne

/-- A record with another state, sleep or exit code. -/
theorem quiet_setPcb {q : Process} (h : SameContext (k.pcb x) q) : Quiet k (k.setPcb x q) := by
  refine ⟨rfl, rfl, rfl, rfl, rfl, fun p => ?_⟩
  by_cases hp : p = x
  · subst hp
    rwa [Kernel.setPcb_self]
  · rw [Kernel.setPcb_of_ne _ _ _ hp]
    exact SameContext.refl _

theorem ProcessOp.quiet_before (k : Kernel) (op : ProcessOp) : Quiet k (op.before k) := by
  have hrefl : Quiet k k := ⟨rfl, rfl, rfl, rfl, rfl, fun _ => SameContext.refl _⟩
  cases op with
  | create => exact hrefl
  | exit code => exact quiet_setPcb ⟨⟨⟨rfl, rfl, rfl⟩, rfl, rfl, rfl, rfl⟩, rfl, rfl⟩
  | sleep ms => exact quiet_setPcb ⟨⟨⟨rfl, rfl, rfl⟩, rfl, rfl, rfl, rfl⟩, rfl, rfl⟩
  | block p => exact quiet_setPcb ⟨⟨⟨rfl, rfl, rfl⟩, rfl, rfl, rfl, rfl⟩, rfl, rfl⟩
  | unblock p =>
    rw [ProcessOp.before, processUnblock]
    split_ifs
    · exact quiet_setPcb ⟨⟨⟨rfl, rfl, rfl⟩, rfl, rfl, rfl, rfl⟩, rfl, rfl⟩
    · exact hrefl
  | terminate p => exact quiet_setPcb ⟨⟨⟨rfl, rfl, rfl⟩, rfl, rfl, rfl, rfl⟩, rfl, rfl⟩
  | yield => exact hrefl
  | timerTick => exact ⟨rfl, rfl, rfl, rfl, rfl, fun _ => SameContext.refl _⟩

theorem Unlinked.quiet {ys rs : List ℕ} (h : Unlinked k k' ys rs) : Quiet k k' := by
  refine ⟨?_, h.currentProcess, ?_, ?_, ?_, fun p => ?_⟩
  · rw [h.mem]
  · rw [h.kernel]
    rfl
  · rw [h.kernel]
    rfl
  · rw [h.kernel]
    rfl
  · rw [h.pcb p]
    exact ⟨⟨⟨rfl, rfl, rfl⟩, rfl, rfl, rfl, rfl⟩, rfl, rfl⟩

/-- A yield writes no memory and gives no id, and switches or changes no context. -/
theorem processYield_contexts (h : WellFormed k live) {e : List ℕ × Kernel}
    (he : processYield fuel k = some e) (ps : List ℕ) :
    e.2.mem.ram = k.mem.ram ∧ e.2.nextPid = k.nextPid ∧ Contexts ps k e.2 := by
  obtain ⟨w, hw, rfl⟩ := Option.map_eq_some_iff.mp he
  obtain ⟨pre, hsplit⟩ := Kernel.after_split h.current
  have hstuck : ¬ Stuck k live := fun hstuck => by
    rw [processGetNext_of_stuck h hstuck] at hw
    cases hw
  obtain ⟨k₁, k₂, fuel', hk₁, hw', hend⟩ := processGetNext_returns h hstuck hsplit
  obtain rfl := processGetNext_unique hw hw'
  dsimp only
  have hlist : k.processList ∈ k.processList :: live := List.mem_cons_self
  rcases hend with ⟨hmem, hne, rfl⟩ | ⟨hpick, hidle, rfl⟩
  · have hne0 : k.pick live ≠ 0 := by
      intro h0
      rw [h0] at hmem
      exact h.ne_zero ((List.filter_sublist.cons_cons _).subset hmem)
    have hquiet : Quiet k (k₁.setState (k.pick live) .ready) :=
      hk₁.quiet.trans (quiet_setPcb ⟨⟨⟨rfl, rfl, rfl⟩, rfl, rfl, rfl, rfl⟩, rfl, rfl⟩)
    have hne' : k.pick live ≠ (k₁.setState (k.pick live) .ready).currentProcess :=
      hquiet.currentProcess ▸ hne
    rw [if_neg hne0, if_neg hne']
    refine ⟨?_, ?_, hquiet.then (contexts_processSwitch hne0 hne' ps)⟩
    all_goals
      obtain ⟨d, -, heq⟩ := processSwitch_eq hne0 hne'
      rw [heq]
    · exact hquiet.ram
    · exact hquiet.nextPid
  · have hne0 : k.pick live ≠ 0 := by
      rw [hpick]
      exact fun h0 => h.ne_zero (h0 ▸ hlist)
    rw [if_neg hne0, if_pos (by rw [hk₁.currentProcess, hpick, hidle])]
    exact ⟨hk₁.quiet.ram, hk₁.quiet.nextPid, hk₁.quiet.contexts ps⟩

end Calls

section Steps

variable {base : Finset ℕ} {s s' : Sched} {c : Call} {p : ℕ}

/-- **One call**: it writes to free memory only, and of the contexts it changes those of the process
it leaves and of the one it switches to. -/
theorem Sched.SafeStep.contexts (h : SchedInv base s.kernel s.live) (hstep : s.SafeStep c s') :
    SameUsed s.kernel.mem s'.kernel.mem ∧
      Contexts s.members (s.kernel.enter c) s'.kernel := by
  obtain ⟨⟨hallowed, fuel, out, hop, rfl⟩, -⟩ := hstep
  have henter := h.enter c
  cases hcreates : c.op.creates with
  | true =>
    obtain ⟨op, esp, ebp⟩ := c
    cases op with
    | create name entry arg priority =>
      obtain ⟨e, hcreate, rfl⟩ := Option.map_eq_some_iff.mp hop
      have hsrc := henter.list.srcOk henter.current.mem
      rw [← henter.current.directory] at hsrc
      obtain ⟨hsame, -⟩ := processCreate_records hcreate
      refine ⟨sameUsed_processCreate hsrc hcreate, .of_same hsame.currentProcess fun p hp => ?_⟩
      have hne : p ≠ (pmmAllocBlock s.kernel.mem.pmm).1 := by
        rintro rfl
        rcases pmmAllocBlock_takes s.kernel.mem.pmm with
          ⟨t, halloc, -⟩ | ⟨b, t, halloc, hb0, -, ht⟩
        · rw [halloc] at hp
          exact h.list.ne_zero hp
        · rw [halloc] at hp
          refine h.list.notMem_of_free ?_ hp
          rw [Nat.mul_div_cancel _ (by decide)]
          exact ht.notMem (Finset.mem_singleton_self b)
      have hrecord := hsame.record p hne
      dsimp only
      rw [hrecord]
      exact ⟨⟨⟨rfl, rfl, rfl⟩, rfl, rfl, rfl, rfl⟩, rfl, rfl⟩
    | _ => cases hcreates
  | false =>
    have hbefore := c.op.quiet_before (s.kernel.enter c)
    rw [processOp_eq henter.list henter.current hallowed hcreates] at hop
    split_ifs at hop
    · obtain ⟨e, he, rfl⟩ := Option.map_eq_some_iff.mp hop
      have hok := henter.before hallowed
      obtain ⟨hram, -, hcontexts⟩ :=
        processYield_contexts (hok.list.wellFormed hok.current hok.states) he s.members
      exact ⟨fun a _ => congrFun (hram.trans hbefore.ram) a, hbefore.then hcontexts⟩
    · obtain rfl := Option.some_inj.mp hop
      exact ⟨fun a _ => congrFun hbefore.ram a, hbefore.contexts _⟩

/-! ### What a process keeps -/

/-- From `s` on the process `p` has been listed, and it is the process it was: what it owns holds
what it held, and so do the blocks of `base`. -/
structure Kept (base : Finset ℕ) (p : ℕ) (s s' : Sched) : Prop where
  mem : p ∈ s'.members
  same : SameProcess (s.kernel.pcb p) (s'.kernel.pcb p)
  ram_base : ∀ a, a / 1024 ∈ base → s'.kernel.mem.ram a = s.kernel.mem.ram a
  live : p ∈ s.live → p ∈ s'.live
  owned : p ∈ s.live → s'.kernel.owned p = s.kernel.owned p
  ram : p ∈ s.live → ∀ a, a / 1024 ∈ s.kernel.owned p →
    s'.kernel.mem.ram a = s.kernel.mem.ram a

theorem Kept.refl (hp : p ∈ s.members) : Kept base p s s :=
  ⟨hp, SameProcess.refl _, fun _ _ => rfl, id, fun _ => rfl, fun _ _ _ => rfl⟩

theorem Kept.trans {s'' : Sched} (h₁ : Kept base p s s') (h₂ : Kept base p s' s'') :
    Kept base p s s'' where
  mem := h₂.mem
  same := h₁.same.trans h₂.same
  ram_base a ha := (h₂.ram_base a ha).trans (h₁.ram_base a ha)
  live hp := h₂.live (h₁.live hp)
  owned hp := (h₂.owned (h₁.live hp)).trans (h₁.owned hp)
  ram hp a ha := by
    rw [h₂.ram (h₁.live hp) a (by rwa [h₁.owned hp]), h₁.ram hp a ha]

/-- A call keeps what every process has that is listed before and after. -/
theorem Sched.SafeStep.kept (h : SchedInv base s.kernel s.live) (hstep : s.SafeStep c s')
    (hp : p ∈ s.members) (hp' : p ∈ s'.members) : Kept base p s s' := by
  obtain ⟨-, hadvances⟩ := hstep.advances h
  obtain ⟨hram, hcontexts⟩ := hstep.contexts h
  have hsame : SameProcess (s.kernel.pcb p) (s'.kernel.pcb p) := hcontexts.same p hp
  have hkept : p ∈ s.live → ∀ a, a / 1024 ∈ s.kernel.owned p →
      s'.kernel.mem.ram a = s.kernel.mem.ram a := fun hlive a ha =>
    hram a (h.list.owned_used p hlive ha)
  refine ⟨hp', hsame, fun a ha => hram a (h.list.base_used ha), fun hlive => ?_, fun hlive => ?_,
    hkept⟩
  · rw [Sched.members, hadvances.processList, List.mem_cons] at hp'
    refine hp'.resolve_left ?_
    rintro rfl
    exact (List.nodup_cons.mp h.list.nodup).1 hlive
  · -- the words of its directory are among those it owns
    refine owned_congr hsame.toSameOwner fun i hi => hkept hlive _ ?_
    have hdir := (h.list.proc p hlive).dir
    have hblock : ((s.kernel.pcb p).pageDirectory / 4 + i) / 1024 =
        (s.kernel.pcb p).pageDirectory / 4096 := by
      have haligned := hdir.aligned
      omega
    rw [hblock]
    exact userBlocks_subset_owned (Finset.mem_insert_self _ _)

end Steps

/-! ### Runs -/

/-- A step after which `p` is listed and not current. -/
def Sched.Away (p : ℕ) (s : Sched) (c : Call) (s' : Sched) : Prop :=
  s.SafeStep c s' ∧ p ∈ s'.members ∧ s'.kernel.currentProcess ≠ p

/-- The process `p` has not been current since `s`. Its record says what it said then, but for its
state, its sleep, its exit code and its link, so it will be resumed where it was left. -/
structure Parked (base : Finset ℕ) (p : ℕ) (s s' : Sched) : Prop where
  inv : SchedInv base s'.kernel s'.live
  kept : Kept base p s s'
  not_current : s'.kernel.currentProcess ≠ p
  context : SameContext (s.kernel.pcb p) (s'.kernel.pcb p)

/-- The kernel has switched to a process: its registers are those of the record `q`, and its
directory is the one of `q`. -/
structure Resumed (q : Process) (k : Kernel) : Prop where
  esp : k.esp = q.esp
  ebp : k.ebp = q.ebp
  tssEsp0 : k.tssEsp0 = q.esp
  currentDirectory : k.mem.currentDirectory = q.pageDirectory

section Runs

variable {base : Finset ℕ} {k : Kernel} {s s₁ s₂ s₃ : Sched} {c c' : Call} {p : ℕ}
  {processIdle : UInt32}

theorem Parked.step (h : Parked base p s s₁) (hstep : s₁.Away p c s₂) : Parked base p s s₂ := by
  obtain ⟨hsafe, hmem, hcur⟩ := hstep
  obtain ⟨hinv, -⟩ := hsafe.advances h.inv
  obtain ⟨-, hcontexts⟩ := hsafe.contexts h.inv
  exact ⟨hinv, h.kept.trans (hsafe.kept h.inv h.kept.mem hmem), hcur,
    h.context.trans (hcontexts.parked p h.kept.mem h.not_current.symm)⟩

theorem Parked.run (h : SchedInv base s.kernel s.live) (hmem : p ∈ s.members)
    (hcur : s.kernel.currentProcess ≠ p) (haway : Reaches (Sched.Away p) s s₁) :
    Parked base p s s₁ :=
  haway.invariant ⟨h, Kept.refl hmem, hcur, SameContext.refl _⟩ fun _ _ _ ha hstep => ha.step hstep

/-- The switch to a process that is not current. -/
theorem Parked.resumed (h : Parked base p s s₁) (hback : s₁.SafeStep c s₂)
    (hcur : s₂.kernel.currentProcess = p) :
    Resumed (s.kernel.pcb p) s₂.kernel ∧ Kept base p s s₂ := by
  obtain ⟨hinv, -⟩ := hback.advances h.inv
  obtain ⟨-, hcontexts⟩ := hback.contexts h.inv
  have hmem : p ∈ s₂.members := hcur ▸ hinv.current.mem
  have hkept := h.kept.trans (hback.kept h.inv h.kept.mem hmem)
  obtain ⟨hesp, hebp, htss⟩ := hcontexts.loaded (hcur ▸ h.not_current.symm)
  rw [hcur] at hesp hebp htss
  have hdir := hinv.current.directory
  rw [hcur] at hdir
  exact ⟨⟨hesp.trans h.context.esp, hebp.trans h.context.ebp, htss.trans h.context.esp,
    hdir.trans hkept.same.pageDirectory⟩, hkept⟩

/-- A process that sleeps is not reaped. -/
theorem Pair.safe_sleep {t u : UInt32} (h : Pair base k p p t u .running) (ms : UInt32) :
    (ProcessOp.sleep ms).Safe (k.enter (ProcessOp.sleep ms).call) [p] := by
  have henter := h.inv.enter (ProcessOp.sleep ms).call
  have hcur : (k.enter (ProcessOp.sleep ms).call).currentProcess = p := h.currentProcess
  intro _ x hx
  have hdead := Kernel.dead_of_mem_reaps hx
  have hallowed : (ProcessOp.sleep ms).Allowed (k.enter (ProcessOp.sleep ms).call) [p] :=
    hcur ▸ h.list_ne.symm
  have hok := henter.before hallowed
  obtain rfl := List.mem_singleton.mp (hok.current.reaps_sublist.subset hx)
  rw [ProcessOp.before, hcur, Kernel.setPcb_self] at hdead
  exact ProcessState.noConfusion hdead

end Runs

end Rexus
