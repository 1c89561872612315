import Rexus.Proc.Pair

/-!
# A blocked process stays blocked

Blocking and sleeping share the state `blocked`, and the walk tells them apart by `sleepUntil`
alone, which a sleep sets and nothing clears. So a process that is blocked stays so as long as the
wake-up test does not hold for it where a call walks the list; a process that has slept before is
woken when the walk comes to it.

The runs start in any state with an idle and a current process, and make any calls, with any
pointers. In such a run blocks are freed twice and records with them, and a record whose block has
been freed does not survive the next creation, which may clear the block as a new record, or as a
page directory, a page table, a page or a stack. So every call is asked for its records to be in
use: those of the process, of the current process and of the one it is given, and all to which
these and the head of the list lead by their links. `process_create` frees a block only when it has
failed, behind its last allocation; so a block that is in use when the call is made is handed out by
none of its allocations, and the records, which the model keeps beside the memory, are those of the
memory.

## Main results

* `RecordsInUse` — what a call is asked for
* `BlockedInv.step`, `BlockedInv.step_iff` — one call, in any state and in a well-formed one
* `blocked_run` — every run

## Scope

The idle process is left out: the walk falls back on it in whatever state it is. A call without
enough fuel, and one that does not return, is no step of a run.
-/

namespace Rexus

open Run

/-- The records that a call can come to, with the one of `p`: the current one, the one it is given,
the head of the list, and those that the links lead to from one of these. -/
inductive ProcessOp.Meets (p : ℕ) (k : Kernel) (op : ProcessOp) : ℕ → Prop
  | self : op.Meets p k p
  | current : op.Meets p k k.currentProcess
  | given (q : ℕ) (h : op.About q) : op.Meets p k q
  | head : op.Meets p k k.processList
  | next (q : ℕ) (hq : q ≠ 0) (h : op.Meets p k q) : op.Meets p k (k.next q)

/-- Each of them is a block of the allocator that is in use, so no allocation of the call returns
it. -/
def RecordsInUse (p : ℕ) (k : Kernel) (op : ProcessOp) : Prop :=
  ∀ q, op.Meets p k q → q ≠ 0 → q % 4096 = 0 ∧ q / 4096 ∈ k.mem.pmm.usedSet

/-- A call that leaves the blocked process `p` blocked: the records are in use, and if it walks the
list, it does not wake `p`, or another process comes first. -/
structure KeepsBlocked (p : ℕ) (k : Kernel) (op : ProcessOp) : Prop where
  inUse : RecordsInUse p k op
  asleep : op.yields k = true → (op.before k).wakes p →
    ∃ live, WellFormed (op.before k) live ∧ (op.before k).pick live ≠ p

/-- A call that neither unblocks nor terminates `p`, and returns. -/
def LeavesBlocked (p : ℕ) (k : Kernel) (c : Call) (k' : Kernel) : Prop :=
  c.op ≠ .unblock p ∧ c.op ≠ .terminate p ∧
    ∃ fuel out, processOp fuel (k.enter c) c.op = some out ∧ k' = out.kernel

/-- Such a call that leaves `p` blocked. -/
def KeepsBlockedStep (p : ℕ) (k : Kernel) (c : Call) (k' : Kernel) : Prop :=
  LeavesBlocked p k c k' ∧ KeepsBlocked p (k.enter c) c.op

/-- A blocked process, which is not the idle process. It is not current, either, and so makes no
calls of its own: whatever happens to it is done by others, or by a walk of the list. -/
structure BlockedInv (p : ℕ) (k : Kernel) : Prop where
  initialised : k.Initialised
  ne_zero : p ≠ 0
  not_idle : p ≠ k.processList
  not_current : k.currentProcess ≠ p
  blocked : (k.pcb p).state = .blocked

section

variable {k : Kernel} {p fuel : ℕ} {op : ProcessOp} {out : Outcome}

/-! ### Records in use -/

/-- A new process does not get a record that is in use. -/
theorem RecordsInUse.alloc_ne (h : RecordsInUse p k op) (hp : p ≠ 0) :
    (pmmAllocBlock k.mem.pmm).1 ≠ p := by
  obtain ⟨-, hused⟩ := h p .self hp
  rcases pmmAllocBlock_cases k.mem.pmm with ⟨heq, -⟩ | ⟨b, heq, -, hfree, -⟩
  · rw [heq]
    exact hp.symm
  · rintro rfl
    rw [heq, Nat.mul_div_cancel b (by decide)] at hused
    exact (Pmm.freeRun_one.mp hfree).2 hused

/-- If the records of a list are in use, a call about its processes comes to no other. -/
theorem recordsInUse_of_list {live : List ℕ}
    (hseg : Linked.Seg k.next k.processList (k.processList :: live) 0)
    (hused : ∀ q ∈ k.processList :: live, q % 4096 = 0 ∧ q / 4096 ∈ k.mem.pmm.usedSet)
    (hcur : k.currentProcess ∈ k.processList :: live) (hp : p ∈ k.processList :: live)
    (hop : ∀ q, op.About q → q ∈ k.processList :: live) : RecordsInUse p k op := by
  have hmem : ∀ q, op.Meets p k q → q ≠ 0 → q ∈ k.processList :: live := by
    intro q hq hq0
    induction hq with
    | self => exact hp
    | current => exact hcur
    | given q habout => exact hop q habout
    | head => exact List.mem_cons_self
    | next q hne _ ih => exact (hseg.next_mem (ih hne)).resolve_right hq0
  exact fun q hq hq0 => hused q (hmem q hq hq0)

/-! ### One call -/

/-- A blocked process is not picked. -/
theorem KeepsBlocked.not_picked (h : KeepsBlocked p k op) (hlist : k.processList ≠ 0)
    (hidle : p ≠ k.processList) (hstate : ((op.before k).pcb p).state = .blocked)
    (hop : op.yields k = true) {w : Walk} (hw : processGetNext fuel (op.before k) = some w) :
    w.next ≠ p := by
  by_cases hwakes : (op.before k).wakes p
  · obtain ⟨live, hwell, hpick⟩ := h.asleep hop hwakes
    exact hwell.processGetNext_next hw ▸ hpick
  · rw [← op.before_processList k] at hlist hidle
    refine processGetNext_ne hlist hidle ?_ hw
    rw [runnable_eq_false, hstate]
    exact ⟨fun hcon => ProcessState.noConfusion hcon, hwakes⟩

/-- A call that is not to change the state of a blocked process leaves its record as it is. -/
theorem BlockedInv.before_pcb (h : BlockedInv p k) (hunblock : op ≠ .unblock p)
    (hterminate : op ≠ .terminate p) : (op.before k).pcb p = k.pcb p := by
  by_cases habout : op.About p
  · cases op with
    | block q =>
      obtain rfl : q = p := habout
      rw [ProcessOp.before, Kernel.setState_self h.blocked]
    | unblock q => exact absurd (congrArg ProcessOp.unblock habout) hunblock
    | terminate q => exact absurd (congrArg ProcessOp.terminate habout) hterminate
    | _ => exact habout.elim
  · exact ProcessOp.before_pcb h.not_current habout

theorem BlockedInv.step (h : BlockedInv p k) (hunblock : op ≠ .unblock p)
    (hterminate : op ≠ .terminate p) (hkeeps : KeepsBlocked p k op)
    (hop : processOp fuel k op = some out) : BlockedInv p out.kernel := by
  have hbefore := h.before_pcb hunblock hterminate
  obtain ⟨hout, -⟩ := processOp_untouched h.initialised h.not_current hbefore
    (fun _ => hkeeps.inUse.alloc_ne h.ne_zero)
    (fun hy w hw => hkeeps.not_picked h.initialised.list h.not_idle (hbefore ▸ h.blocked) hy hw) hop
  exact ⟨hout.initialised, h.ne_zero, hout.processList ▸ h.not_idle, hout.not_current,
    by rw [hout.record, h.blocked]⟩

/-- `process_block` on a process. -/
theorem blockedInv_of_block (hinit : k.Initialised) (hp : p ≠ 0) (hidle : p ≠ k.processList)
    (hkeeps : KeepsBlocked p k (.block p)) (hop : processOp fuel k (.block p) = some out) :
    BlockedInv p out.kernel := by
  have hself : ((k.setState p .blocked).pcb p).state = .blocked :=
    (k.setState_state p p .blocked).trans (if_pos rfl)
  by_cases hcur : p = k.currentProcess
  · subst hcur
    have hyields : (ProcessOp.block k.currentProcess).yields k = true := beq_self_eq_true _
    obtain ⟨hinit', hlist, hcur', -, esp, ebp, hrecord⟩ := processOp_left hinit hyields
      (fun w hw => hkeeps.not_picked hinit.list hidle hself hyields hw)
      (by rw [ProcessOp.before, hself]; exact fun hcon => ProcessState.noConfusion hcon) hop
    exact ⟨hinit', hp, hlist ▸ hidle, hcur', by rw [hrecord]; exact hself⟩
  · have hquiet : (ProcessOp.block p).yields k = false := beq_eq_false_iff_ne.mpr hcur
    rcases processOp_quiet rfl hquiet hop with heq | ⟨h0, -⟩
    · rw [heq]
      exact ⟨⟨hinit.list, hinit.current⟩, hp, hidle, Ne.symm hcur, hself⟩
    · exact absurd h0 hp

/-- In a well-formed state with the records in use the condition is exact. -/
theorem BlockedInv.step_iff (h : BlockedInv p k) (hunblock : op ≠ .unblock p)
    (hterminate : op ≠ .terminate p) (huse : RecordsInUse p k op)
    (hwell : op.yields k = true → ∃ live, WellFormed (op.before k) live)
    (hop : processOp fuel k op = some out) :
    (out.kernel.pcb p).state = .blocked ↔ KeepsBlocked p k op := by
  refine ⟨fun hblocked => ⟨huse, fun hyields hwakes => ?_⟩,
    fun hkeeps => (h.step hunblock hterminate hkeeps hop).blocked⟩
  obtain ⟨live, hwell⟩ := hwell hyields
  refine ⟨live, hwell, fun hpick => ?_⟩
  rw [processOp_yields h.initialised.current hyields] at hop
  obtain ⟨e, he, rfl⟩ := Option.map_eq_some_iff.mp hop
  obtain ⟨w, hw, hyield⟩ := processYield_records
    (op.before_processList k ▸ h.initialised.list) he
  rw [hwell.processGetNext_next hw, hpick] at hyield
  have hrunning := hyield.running (op.before_currentProcess k ▸ h.not_current.symm)
  exact ProcessState.noConfusion (hblocked.symm.trans (congrArg Process.state hrunning))

/-! ### Every run -/

theorem BlockedInv.enter (h : BlockedInv p k) (c : Call) : BlockedInv p (k.enter c) :=
  ⟨⟨h.initialised.list, h.initialised.current⟩, h.ne_zero, h.not_idle, h.not_current, h.blocked⟩

theorem leavesBlocked_of_step {live live' : List ℕ} {c : Call} {k' : Kernel}
    (h : Sched.Step ⟨k, live⟩ c ⟨k', live'⟩) (hunblock : c.op ≠ .unblock p)
    (hterminate : c.op ≠ .terminate p) : LeavesBlocked p k c k' := by
  obtain ⟨-, fuel, out, hop, heq⟩ := h
  exact ⟨hunblock, hterminate, fuel, out, hop, congrArg Sched.kernel heq⟩

/-- The process that `small_run` creates. -/
theorem small_pair : ∃ k base u, Reaches Sched.Step (Sched.start (smallKernel 7#32 3 0#32) 0)
      ⟨k, [20480]⟩ ∧ Pair base k 20480 12288 0 u .ready ∧ 12288 = k.processList := by
  obtain ⟨k, hrun, hlist, hcur, hready, htime⟩ := small_run
  exact ⟨k, _, _, hrun.mono fun _ _ _ => And.left,
    ⟨sched_inv boot_empty hrun, hcur, htime, rfl, hready⟩, hlist.symm⟩

end

end Rexus
