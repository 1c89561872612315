import Rexus.Proc.Create

/-!
# One call of the scheduler

The eight calls of a run. All but `process_create` change one record, or the time, and then may
yield. Two calls can go wrong, both because `vmm_free_directory` frees the kernel tables a clone
shares: reaping a process whose directory refers to one, and a creation that has no stack.

## Main results

* `processOp_eq` — a call is a change of one record and perhaps a yield
* `SchedInv.step` — one call keeps the invariant

## Conventions

`before` is the state that a call hands to `process_yield`, and `yields` whether it does:
`process_block` and `process_terminate` yield only for the current process, and the timer at every
tenth tick. With these two a call is said once, and what holds of a yield is not proved eight times.

The outcome of a call has the process it has created, if any, the processes it has reaped, and the
state. That a call returns is not assumed of these lemmas' conclusions but of their hypotheses; the
fuel is any. Pointers to processes that are not listed are excluded by `Allowed`, since a call with
one would change a record that nobody has.
-/

namespace Rexus

open Linked Loop Mem Pmm

/-! ### Calls -/

/-- The state a call passes on: to `process_yield`, if it yields. -/
def ProcessOp.before (k : Kernel) : ProcessOp → Kernel
  | .create .. => k
  | .exit code => k.setPcb k.currentProcess
      { k.pcb k.currentProcess with exitCode := code, state := .terminated }
  | .sleep ms => k.setPcb k.currentProcess
      { k.pcb k.currentProcess with sleepUntil := k.systemTime + ms, state := .blocked }
  | .block p => k.setState p .blocked
  | .unblock p => processUnblock k p
  | .terminate p => k.setState p .terminated
  | .yield => k
  | .timerTick => { k with systemTime := k.systemTime + 1 }

/-- Does the call yield? -/
def ProcessOp.yields (k : Kernel) : ProcessOp → Bool
  | .create .. | .unblock _ => false
  | .exit _ | .sleep _ | .yield => true
  | .block p | .terminate p => p == k.currentProcess
  | .timerTick => (k.systemTime + 1) % 10 == 0

/-- Is the call `process_create`? -/
def ProcessOp.creates : ProcessOp → Bool
  | .create .. => true
  | _ => false

/-- Is the call given the process `p`? -/
def ProcessOp.About (p : ℕ) : ProcessOp → Prop
  | .block q | .unblock q | .terminate q => q = p
  | _ => False

/-- The calls the callers promise: block, unblock and terminate are given listed processes, and the
idle process is not blocked, slept, exited or terminated. -/
def ProcessOp.Allowed (k : Kernel) (live : List ℕ) : ProcessOp → Prop
  | .create .. | .yield | .timerTick => True
  | .exit _ | .sleep _ => k.currentProcess ≠ k.processList
  | .block p | .terminate p => p ∈ live
  | .unblock p => p ∈ k.processList :: live

/-- The calls that free no kernel table: a name fits its field; a creation has a stack, or nothing
shared to give back; and no process the walk reaps refers to a kernel table. -/
def ProcessOp.Safe (k : Kernel) (live : List ℕ) : ProcessOp → Prop
  | .create name .. => name.length < 32 ∧
      (StackRefused k → NoKernel k.mem k.mem.currentDirectory)
  | op => op.yields k = true → ∀ p ∈ (op.before k).reaps ((op.before k).after live),
      NoKernel k.mem (k.pcb p).pageDirectory

section Ops

variable {base : Finset ℕ} {k : Kernel} {live : List ℕ} {fuel : ℕ} {out : Outcome} {op : ProcessOp}

/-- A call that yields, whatever pointer it is given. -/
theorem processOp_yields (hcur : k.currentProcess ≠ 0) (hop : op.yields k = true) :
    processOp fuel k op = (processYield fuel (op.before k)).map .ofReaped := by
  have hstop : ∀ st q, (q == k.currentProcess) = true →
      (processStop st fuel k q).map Outcome.ofReaped =
        (processYield fuel (k.setState q st)).map .ofReaped := by
    intro st q hq
    rw [beq_iff_eq] at hq
    rw [processStop, if_neg (hq ▸ hcur), if_pos hq]
  cases op with
  | create => cases hop
  | unblock q => cases hop
  | exit code => simp [processOp, processExit, hcur, ProcessOp.before]
  | sleep ms => simp [processOp, processSleep, hcur, ProcessOp.before]
  | block q => exact hstop .blocked q hop
  | terminate q => exact hstop .terminated q hop
  | yield => rfl
  | timerTick =>
    rw [processOp, processTimerTick]
    have htime : (k.systemTime + 1) % 10 = 0 := by simpa [ProcessOp.yields] using hop
    simp [ProcessOp.before, htime]

/-- A call that does not yield, on a process. -/
theorem processOp_still (hcreates : op.creates = false) (habout : ¬ op.About 0)
    (hop : op.yields k = false) : processOp fuel k op = some ⟨[], [], op.before k⟩ := by
  have hstop : ∀ st q, q ≠ 0 → (q == k.currentProcess) = false →
      (processStop st fuel k q).map Outcome.ofReaped = some ⟨[], [], k.setState q st⟩ := by
    intro st q hq0 hq
    rw [processStop, if_neg hq0, if_neg (beq_eq_false_iff_ne.mp hq)]
    rfl
  cases op with
  | create => cases hcreates
  | exit code => cases hop
  | sleep ms => cases hop
  | yield => cases hop
  | unblock q => rfl
  | block q => exact hstop .blocked q habout hop
  | terminate q => exact hstop .terminated q habout hop
  | timerTick =>
    have htime : (k.systemTime + 1) % 10 ≠ 0 := by simpa [ProcessOp.yields] using hop
    rw [processOp, processTimerTick]
    simp only [if_neg htime]
    rfl

/-- All calls but `process_create` come to a change of state and perhaps a yield. -/
theorem processOp_eq (hlist : ListInv base k live) (hcur : CurrentOk k live)
    (hallowed : op.Allowed k live) (hop : op.creates = false) :
    processOp fuel k op =
      if op.yields k = true then (processYield fuel (op.before k)).map .ofReaped
      else some ⟨[], [], op.before k⟩ := by
  have hne : ∀ p ∈ k.processList :: live, p ≠ 0 := by
    rintro p hp rfl
    exact hlist.ne_zero hp
  split_ifs with hyields
  · exact processOp_yields (hne _ hcur.mem) hyields
  · refine processOp_still hop (fun habout => ?_) (Bool.eq_false_of_not_eq_true hyields)
    cases op with
    | block q => exact hne q (List.mem_cons_of_mem _ hallowed) habout
    | terminate q => exact hne q (List.mem_cons_of_mem _ hallowed) habout
    | unblock q => exact hne q hallowed habout
    | _ => exact habout.elim

/-- What holds where a call passes on: the invariant of the list, and of the states what a yield
needs, or all of it where there is no yield. -/
structure BeforeOk (base : Finset ℕ) (k : Kernel) (live : List ℕ) (yields : Bool) : Prop where
  list : ListInv base k live
  current : CurrentOk k live
  states : YieldOk k live
  done : yields = false → StatesOk k live

theorem SchedInv.beforeOk (h : SchedInv base k live) (yields : Bool) :
    BeforeOk base k live yields :=
  ⟨h.list, h.current, h.states.yieldOk, fun _ => h.states⟩

/-- A created process gets another state than running. -/
theorem SchedInv.beforeOk_setPcb (h : SchedInv base k live) {p : ℕ} (hp : p ∈ live) {q : Process}
    (hq : SameOwner (k.pcb p) q) (hnext : q.next = (k.pcb p).next) (hstate : q.state ≠ .running) :
    BeforeOk base (k.setPcb p q) live (p == k.currentProcess) := by
  have hidle : k.processList ≠ p := by
    rintro rfl
    exact (List.nodup_cons.mp h.list.nodup).1 hp
  have hidle' : (k.setPcb p q).pcb k.processList = k.pcb k.processList :=
    Kernel.setPcb_of_ne _ _ _ hidle
  have hothers : ∀ x ∈ k.processList :: live, x ≠ k.currentProcess →
      ((k.setPcb p q).pcb x).state ≠ .running := by
    intro x hx hxc
    by_cases hxp : x = p
    · subst hxp
      rwa [Kernel.setPcb_self]
    · rw [Kernel.setPcb_of_ne _ _ _ hxp]
      exact h.states.others x hx hxc
  have hready : k.currentProcess ≠ k.processList →
      ((k.setPcb p q).pcb k.processList).state = .ready := by
    rw [hidle']
    exact h.states.idle
  refine ⟨h.list.setPcb hq hnext, ⟨h.current.mem, ?_⟩, ⟨fun hcur => ?_, hothers, hready⟩,
    fun hne => ⟨?_, hothers, hready⟩⟩
  · by_cases hpc : k.currentProcess = p
    · subst hpc
      show _ = ((k.setPcb k.currentProcess q).pcb k.currentProcess).pageDirectory
      rw [Kernel.setPcb_self, hq.pageDirectory]
      exact h.current.directory
    · show _ = ((k.setPcb p q).pcb k.currentProcess).pageDirectory
      rw [Kernel.setPcb_of_ne _ _ _ hpc]
      exact h.current.directory
  · have hcur' : k.currentProcess = k.processList := hcur
    show ((k.setPcb p q).pcb k.currentProcess).state = .running
    rw [hcur', hidle', ← hcur']
    exact h.states.current
  · show ((k.setPcb p q).pcb k.currentProcess).state = .running
    rw [beq_eq_false_iff_ne] at hne
    rw [Kernel.setPcb_of_ne _ _ _ (Ne.symm hne)]
    exact h.states.current

theorem SchedInv.before (h : SchedInv base k live) (hallowed : op.Allowed k live) :
    BeforeOk base (op.before k) live (op.yields k) := by
  have hcurrent : k.currentProcess ≠ k.processList → k.currentProcess ∈ live := fun hne =>
    (List.mem_cons.mp h.current.mem).resolve_left hne
  have hframe : ∀ time, Frame k { k with systemTime := time } live := fun _ =>
    ⟨rfl, rfl, rfl, fun _ _ => rfl, ⟨∅, Finset.disjoint_empty_right _, fun _ _ => rfl⟩,
      Finset.Subset.refl _⟩
  cases op with
  | create => exact h.beforeOk _
  | exit code =>
    have := h.beforeOk_setPcb (hcurrent hallowed)
      (q := { k.pcb k.currentProcess with exitCode := code, state := .terminated })
      ⟨rfl, rfl, rfl⟩ rfl (fun hcon => ProcessState.noConfusion hcon)
    rwa [beq_self_eq_true] at this
  | sleep ms =>
    have := h.beforeOk_setPcb (hcurrent hallowed)
      (q := { k.pcb k.currentProcess with sleepUntil := k.systemTime + ms, state := .blocked })
      ⟨rfl, rfl, rfl⟩ rfl (fun hcon => ProcessState.noConfusion hcon)
    rwa [beq_self_eq_true] at this
  | block p =>
    exact h.beforeOk_setPcb hallowed ⟨rfl, rfl, rfl⟩ rfl (fun hcon => ProcessState.noConfusion hcon)
  | unblock p =>
    rw [ProcessOp.before, processUnblock]
    split_ifs with hp
    · -- it is blocked, so neither current nor the idle process
      have hne : p ≠ k.currentProcess := by
        rintro rfl
        rw [h.states.current] at hp
        exact ProcessState.noConfusion hp.2
      have hlive : p ∈ live := by
        refine (List.mem_cons.mp hallowed).resolve_left ?_
        rintro rfl
        rw [h.states.idle hne.symm] at hp
        exact ProcessState.noConfusion hp.2
      have := h.beforeOk_setPcb hlive (q := { k.pcb p with state := .ready }) ⟨rfl, rfl, rfl⟩ rfl
        (fun hcon => ProcessState.noConfusion hcon)
      rwa [beq_eq_false_iff_ne.mpr hne] at this
    · exact h.beforeOk _
  | terminate p =>
    exact h.beforeOk_setPcb hallowed ⟨rfl, rfl, rfl⟩ rfl (fun hcon => ProcessState.noConfusion hcon)
  | yield => exact h.beforeOk _
  | timerTick => exact (h.frame (hframe _)).beforeOk _

/-- What a call has created and reaped. The clauses on the memory say that what a reaped process had
is released once, and that the counter of the allocator moves with it. -/
structure OutcomeOk (k : Kernel) (live : List ℕ) (out : Outcome) : Prop where
  sublist : out.reaped.Sublist live
  terminated : ∀ p ∈ out.reaped, (k.pcb p).state = .terminated
  not_current : ∀ p ∈ out.reaped, p ≠ k.currentProcess ∧ p ≠ out.kernel.currentProcess
  /-- The record and the stack of each were in use, -/
  used : ∀ p ∈ out.reaped, insert (p / 4096) (k.pcb p).stackBlocks ⊆ k.mem.pmm.usedSet
  /-- and are free. -/
  freed : ∀ p ∈ out.reaped,
    Disjoint (insert (p / 4096) (k.pcb p).stackBlocks) out.kernel.mem.pmm.usedSet
  /-- No two of them own the same, and what was freed is counted once. -/
  apart : out.reaped.Pairwise fun p q => Disjoint (k.owned p) (k.owned q)
  drift : SameDrift k.mem.pmm out.kernel.mem.pmm

theorem ProcessOp.before_mem (k : Kernel) (op : ProcessOp) : (op.before k).mem = k.mem := by
  cases op with
  | unblock p =>
    rw [ProcessOp.before, processUnblock]
    split_ifs <;> rfl
  | _ => rfl

/-- Before a yield nothing changes but the record of the current process, and the time. -/
theorem ProcessOp.before_of_yields (hop : op.yields k = true) :
    (op.before k).currentProcess = k.currentProcess ∧
      ∀ x, x ≠ k.currentProcess → (op.before k).pcb x = k.pcb x := by
  have hstate : ∀ p st, (p == k.currentProcess) = true → ∀ x, x ≠ k.currentProcess →
      (k.setState p st).pcb x = k.pcb x := by
    intro p st hp x hx
    rw [beq_iff_eq] at hp
    exact Kernel.setPcb_of_ne _ _ _ (hp ▸ hx)
  cases op with
  | create => cases hop
  | exit code => exact ⟨rfl, fun x hx => Kernel.setPcb_of_ne _ _ _ hx⟩
  | sleep ms => exact ⟨rfl, fun x hx => Kernel.setPcb_of_ne _ _ _ hx⟩
  | block p => exact ⟨rfl, hstate p _ hop⟩
  | unblock p => cases hop
  | terminate p => exact ⟨rfl, hstate p _ hop⟩
  | yield => exact ⟨rfl, fun _ _ => rfl⟩
  | timerTick => exact ⟨rfl, fun _ _ => rfl⟩

/-- What a yield reaps, told of the state before the call. -/
theorem ReapOk.outcomeOk {rs : List ℕ} {k' : Kernel} (hlist : ListInv base (op.before k) live)
    (hop : op.yields k = true) (h : ReapOk (op.before k) k' live rs) :
    OutcomeOk k live ⟨[], rs, k'⟩ := by
  obtain ⟨hcur, hpcb⟩ := ProcessOp.before_of_yields hop
  have hmem := op.before_mem k
  have hne : ∀ p ∈ rs, p ≠ k.currentProcess := fun p hp => hcur ▸ (h.not_current p hp).1
  have howned : ∀ p ∈ rs, (op.before k).owned p = k.owned p := fun p hp => by
    rw [Kernel.owned, Kernel.owned, hpcb p (hne p hp), hmem]
  have hgives := h.gives
  rw [hmem] at hgives
  have hsub : ∀ p ∈ rs, insert (p / 4096) (k.pcb p).stackBlocks ⊆ (op.before k).ownedBy rs := by
    intro p hp b hb
    refine mem_ownedBy.mpr ⟨p, hp, ?_⟩
    rw [howned p hp]
    rcases Finset.mem_insert.mp hb with rfl | hb
    · exact mem_owned_self k p
    · exact stackBlocks_subset_owned hb
  refine ⟨h.sublist, fun p hp => ?_, fun p hp => ⟨hne p hp, (h.not_current p hp).2⟩,
    fun p hp => (hsub p hp).trans hgives.used, fun p hp => ?_, ?_, hgives.drift⟩
  · have hstate := h.terminated p hp
    rwa [hpcb p (hne p hp)] at hstate
  · show Disjoint _ k'.mem.pmm.usedSet
    rw [hgives.usedSet]
    exact Finset.disjoint_sdiff.mono_left (hsub p hp)
  · refine (hlist.disjoint.sublist h.sublist).imp_of_mem fun hp hq hpq => ?_
    rwa [howned _ hp, howned _ hq] at hpq

/-- **One call keeps the invariant.** -/
theorem SchedInv.step (h : SchedInv base k live) (hallowed : op.Allowed k live)
    (hsafe : op.Safe k live) (hop : processOp fuel k op = some out) :
    SchedInv base out.kernel (live.filter (· ∉ out.reaped) ++ out.created) ∧
      OutcomeOk k live out := by
  cases hcreates : op.creates with
  | true =>
    cases op with
    | create name entry arg priority =>
      obtain ⟨⟨proc, k'⟩, hcreate, rfl⟩ := Option.map_eq_some_iff.mp hop
      obtain ⟨hinv, B, hB⟩ := processCreate_spec h hsafe.2 hcreate
      refine ⟨by simpa using hinv,
        ⟨List.nil_sublist _, ?_, ?_, ?_, ?_, List.Pairwise.nil, hB.drift⟩⟩
      all_goals exact fun p hp => absurd hp List.not_mem_nil
    | _ => cases hcreates
  | false =>
    have hbefore := h.before hallowed
    have hreaps : op.yields k = true → ∀ p ∈ (op.before k).reaps ((op.before k).after live),
        NoKernel k.mem (k.pcb p).pageDirectory := by
      cases op with
      | create => cases hcreates
      | _ => exact hsafe
    rw [processOp_eq h.list h.current hallowed hcreates] at hop
    split_ifs at hop with hyields
    · obtain ⟨⟨rs, k'⟩, hyield, rfl⟩ := Option.map_eq_some_iff.mp hop
      obtain ⟨hcur, hpcb⟩ := ProcessOp.before_of_yields hyields
      have hno : ∀ p ∈ (op.before k).reaps ((op.before k).after live),
          NoKernel (op.before k).mem ((op.before k).pcb p).pageDirectory := by
        intro p hp
        have hne : p ≠ k.currentProcess := by
          rintro rfl
          refine (hbefore.list.wellFormed hbefore.current hbefore.states).current_notMem_after ?_
          rw [hcur]
          exact Kernel.reaps_subset hp
        rw [op.before_mem k, hpcb p hne]
        exact hreaps hyields p hp
      obtain ⟨hinv, hreap⟩ := processYield_spec hbefore.list hbefore.current hbefore.states hno
        hyield
      refine ⟨?_, hreap.outcomeOk hbefore.list hyields⟩
      show SchedInv base k' (live.filter (· ∉ rs) ++ [])
      rwa [List.append_nil]
    · obtain rfl := Option.some_inj.mp hop
      rw [Bool.not_eq_true] at hyields
      have hinv : SchedInv base (op.before k) live :=
        ⟨hbefore.list, hbefore.current, hbefore.done hyields⟩
      refine ⟨by simpa using hinv, ⟨List.nil_sublist _, ?_, ?_, ?_, ?_, List.Pairwise.nil, ?_⟩⟩
      · exact fun p hp => absurd hp List.not_mem_nil
      · exact fun p hp => absurd hp List.not_mem_nil
      · exact fun p hp => absurd hp List.not_mem_nil
      · exact fun p hp => absurd hp List.not_mem_nil
      · rw [op.before_mem k]
        exact SameDrift.refl _

end Ops

end Rexus
