import Rexus.Proc.SchedRun

/-!
# Runs without a terminated process

While no listed process is terminated every call but `process_create` returns and reaps nothing.
With the idle process and one other in the list, each call then has one outcome: `Pair` says where
such a run stands, and one lemma for each call where it goes.

## Main results

* `SchedInv.call` — a call that returns, and what it picks
* `Pair.switch`, `Pair.sleep`, `Pair.unblock`, `Pair.block`, `Pair.tick`

## What it is for

The lemmas are about one small system, and are the symbolic execution of the calls in it: they say
which of the two processes is current after each call, in which state the other is, and what the
time is. Nothing in the source is special for two processes; a longer list only makes more cases.

The runs that show what a result of `Rexus.Proc.Context`, `Rexus.Proc.Sleep` or
`Rexus.Proc.Fairness` comes to are put together from these lemmas. They begin with the machine of
fourteen blocks on which one process has been created, and make calls with empty stack registers.
-/

namespace Rexus

open Linked Run

section

variable {base : Finset ℕ} {k : Kernel} {live : List ℕ} {op : ProcessOp} {p c : ℕ}

/-- No listed process is terminated where the call walks the list, so it returns. -/
theorem SchedInv.call (h : SchedInv base k live) (hallowed : op.Allowed k live)
    (hcreates : op.creates = false)
    (halive : ∀ x ∈ live, ((op.before k).pcb x).state ≠ .terminated) :
    ∃ fuel out, processOp fuel k op = some out ∧ out.created = [] ∧ out.reaped = [] ∧
      SchedInv base out.kernel live ∧
      (op.yields k = true → Yielded (op.before k) out.kernel ((op.before k).pick live)) ∧
      (op.yields k = false → out.kernel = op.before k) := by
  have hbefore := h.before hallowed
  have hwell := hbefore.list.wellFormed hbefore.current hbefore.states
  have hreaps : (op.before k).reaps ((op.before k).after live) = [] := by
    rw [List.eq_nil_iff_forall_not_mem]
    intro x hx
    exact halive x (hbefore.current.reaps_sublist.subset hx) (Kernel.dead_of_mem_reaps hx)
  have hsafe : op.Safe k live := by
    cases op with
    | create => cases hcreates
    | _ =>
      intro _ x hx
      rw [hreaps] at hx
      exact absurd hx List.not_mem_nil
  obtain ⟨fuel, out, hop, hcreated, hreaped, hyield, hquiet⟩ : ∃ fuel out,
      processOp fuel k op = some out ∧ out.created = [] ∧ out.reaped = [] ∧
      (op.yields k = true → Yielded (op.before k) out.kernel ((op.before k).pick live)) ∧
      (op.yields k = false → out.kernel = op.before k) := by
    simp only [processOp_eq h.list h.current hallowed hcreates]
    by_cases hyields : op.yields k = true
    · have hstuck : ¬ Stuck (op.before k) live := by
        rintro ⟨-, ⟨x, hx, hdead⟩, -⟩
        exact halive x (List.mem_of_mem_head? hx) (by simpa [Kernel.dead] using hdead)
      obtain ⟨pre, hsplit⟩ := hbefore.current.split
      obtain ⟨k₁, k₂, fuel, -, hw, -⟩ := processGetNext_returns hwell hstuck hsplit
      obtain ⟨e, he⟩ : ∃ e, processYield fuel (op.before k) = some e :=
        ⟨_, Option.map_eq_some_iff.mpr ⟨_, hw, rfl⟩⟩
      obtain ⟨w, hw', hyield⟩ := processYield_records hbefore.list.idle.ne_zero he
      obtain rfl := Option.some_inj.mp (hw.symm.trans hw')
      have hreaped : e.1 = [] := by
        obtain ⟨w', hw', rfl⟩ := Option.map_eq_some_iff.mp he
        obtain rfl := Option.some_inj.mp (hw.symm.trans hw')
        exact hreaps
      refine ⟨fuel, .ofReaped e, ?_, rfl, hreaped, fun _ => hyield, fun hno => ?_⟩
      · rw [if_pos hyields, he]
        rfl
      · rw [hyields] at hno
        exact Bool.noConfusion hno
    · refine ⟨0, ⟨[], [], op.before k⟩, if_neg hyields, rfl, rfl, fun hyes => absurd hyes hyields,
        fun _ => rfl⟩
  refine ⟨fuel, out, hop, hcreated, hreaped, ?_, hyield, hquiet⟩
  have hinv := (h.step hallowed hsafe hop).1
  rw [hcreated, hreaped, List.append_nil] at hinv
  simpa using hinv

/-- The call, made with empty stack registers. -/
def ProcessOp.call (op : ProcessOp) : Call := ⟨op, 0, 0⟩

/-- The same as a step of a run. -/
theorem SchedInv.callStep (h : SchedInv base k live) (hallowed : op.Allowed k live)
    (hcreates : op.creates = false)
    (halive : ∀ x ∈ live, ((op.before (k.enter op.call)).pcb x).state ≠ .terminated) :
    ∃ k', Sched.Step ⟨k, live⟩ op.call ⟨k', live⟩ ∧ SchedInv base k' live ∧
      (op.yields (k.enter op.call) = true → Yielded (op.before (k.enter op.call)) k'
        ((op.before (k.enter op.call)).pick live)) ∧
      (op.yields (k.enter op.call) = false → k' = op.before (k.enter op.call)) := by
  have hallowed' : op.Allowed (k.enter op.call) live := by
    cases op with
    | _ => exact hallowed
  obtain ⟨fuel, out, hop, hcreated, hreaped, hinv, hyield, hquiet⟩ :=
    (h.enter op.call).call hallowed' hcreates halive
  refine ⟨out.kernel, ⟨hallowed, fuel, out, hop, ?_⟩, hinv, hyield, hquiet⟩
  simp [hcreated, hreaped]

/-! ### The idle process and one other -/

/-- The list is the idle process and `p`; `c` is current, `t` the time, and `p` is in state `st` and
sleeps until `u`. -/
structure Pair (base : Finset ℕ) (k : Kernel) (p c : ℕ) (t u : UInt32) (st : ProcessState) :
    Prop where
  inv : SchedInv base k [p]
  currentProcess : k.currentProcess = c
  systemTime : k.systemTime = t
  sleepUntil : (k.pcb p).sleepUntil = u
  state : (k.pcb p).state = st

theorem Kernel.pick_of_idle (hcur : k.currentProcess = k.processList) :
    k.pick [p] = if k.runnable p = true then p else k.processList := by
  rw [Kernel.pick, Kernel.after, hcur]
  by_cases hrun : k.runnable p = true
  · simp [Kernel.ahead, hrun]
  · simp [Kernel.ahead, hrun]

theorem Kernel.pick_of_last (hcur : k.currentProcess = p) (hne : k.processList ≠ p) :
    k.pick [p] = k.processList := by
  rw [Kernel.pick, Kernel.after, hcur]
  simp [Kernel.ahead, hne]

variable {t u : UInt32} {st : ProcessState}

namespace Pair

theorem list_ne (h : Pair base k p c t u st) : k.processList ≠ p := by
  rintro rfl
  exact (List.nodup_cons.mp h.inv.list.nodup).1 (List.mem_singleton_self _)

theorem step (h : Pair base k p c t u st) (op : ProcessOp) (hallowed : op.Allowed k [p])
    (hcreates : op.creates = false)
    (halive : ((op.before (k.enter op.call)).pcb p).state ≠ .terminated) :
    ∃ k', Sched.Step ⟨k, [p]⟩ op.call ⟨k', [p]⟩ ∧ SchedInv base k' [p] ∧
      (op.yields (k.enter op.call) = true → Yielded (op.before (k.enter op.call)) k'
        ((op.before (k.enter op.call)).pick [p])) ∧
      (op.yields (k.enter op.call) = false → k' = op.before (k.enter op.call)) :=
  h.inv.callStep hallowed hcreates fun x hx => by rwa [List.mem_singleton.mp hx]

/-- The idle process yields to `p`, which can run. -/
theorem switch (h : Pair base k p c t u st) (hc : c = k.processList)
    (hrun : k.runnable p = true) :
    ∃ k', Sched.Step ⟨k, [p]⟩ ProcessOp.yield.call ⟨k', [p]⟩ ∧ Pair base k' p p t u .running ∧
      k'.processList = k.processList := by
  have hcur : k.currentProcess = k.processList := h.currentProcess.trans hc
  have halive : (k.pcb p).state ≠ .terminated := by
    intro hdead
    simp [Kernel.runnable, Kernel.wakes, hdead] at hrun
  obtain ⟨k', hstep, hinv, hyield, -⟩ := h.step .yield trivial rfl halive
  let k₀ := ProcessOp.yield.before (k.enter ProcessOp.yield.call)
  have hyield : Yielded k₀ k' p := by
    have hpick : k₀.pick [p] = p := (Kernel.pick_of_idle (k := k₀) hcur).trans (if_pos hrun)
    have := hyield rfl
    rwa [hpick] at this
  have hrecord := hyield.running (show p ≠ k.currentProcess from hcur ▸ h.list_ne.symm)
  exact ⟨k', hstep, ⟨hinv, hyield.currentProcess, hyield.systemTime.trans h.systemTime,
    by rw [hrecord]; exact h.sleepUntil, by rw [hrecord]⟩, hyield.processList⟩

/-- `p` is current and sleeps. -/
theorem sleep (h : Pair base k p p t u .running) (ms : UInt32) :
    ∃ k', Sched.Step ⟨k, [p]⟩ (ProcessOp.sleep ms).call ⟨k', [p]⟩ ∧
      Pair base k' p k.processList t (t + ms) .blocked ∧ k'.processList = k.processList := by
  have hcur := h.currentProcess
  let k₀ := (ProcessOp.sleep ms).before (k.enter (ProcessOp.sleep ms).call)
  have hself : k₀.pcb p = { k.pcb p with sleepUntil := k.systemTime + ms, state := .blocked } := by
    rw [← hcur]
    exact Kernel.setPcb_self _ _ _
  obtain ⟨k', hstep, hinv, hyield, -⟩ := h.step (.sleep ms)
    (hcur ▸ h.list_ne.symm) rfl (by
      show (k₀.pcb p).state ≠ _
      rw [hself]
      exact fun hcon => ProcessState.noConfusion hcon)
  have hyield : Yielded k₀ k' k.processList := by
    have := hyield rfl
    rw [Kernel.pick_of_last (k := k₀) hcur h.list_ne] at this
    exact this
  obtain ⟨esp, ebp, hleft⟩ := hyield.left (show k.processList ≠ k.currentProcess from
    hcur ▸ h.list_ne)
  rw [show k₀.currentProcess = p from hcur, hself] at hleft
  exact ⟨k', hstep, ⟨hinv, hyield.currentProcess, hyield.systemTime.trans h.systemTime,
    by rw [hleft, h.systemTime], by rw [hleft]; rfl⟩, hyield.processList⟩

/-- A call that changes the state of `p`, and does not yield. -/
theorem quiet (h : Pair base k p c t u st) {st' : ProcessState}
    (hallowed : op.Allowed k [p]) (hcreates : op.creates = false)
    (hyields : op.yields (k.enter op.call) = false) (hst' : st' ≠ .terminated)
    (hbefore : op.before (k.enter op.call) = (k.enter op.call).setState p st') :
    ∃ k', Sched.Step ⟨k, [p]⟩ op.call ⟨k', [p]⟩ ∧ Pair base k' p c t u st' ∧
      k'.processList = k.processList := by
  have hself : ((k.enter op.call).setState p st').pcb p = { k.pcb p with state := st' } :=
    Kernel.setPcb_self _ _ _
  obtain ⟨k', hstep, hinv, -, hquiet⟩ := h.step op hallowed hcreates (by rwa [hbefore, hself])
  obtain rfl := (hquiet hyields).trans hbefore
  exact ⟨_, hstep, ⟨hinv, h.currentProcess, h.systemTime, by rw [hself, h.sleepUntil],
    by rw [hself]⟩, rfl⟩

theorem unblock (h : Pair base k p c t u .blocked) :
    ∃ k', Sched.Step ⟨k, [p]⟩ (ProcessOp.unblock p).call ⟨k', [p]⟩ ∧ Pair base k' p c t u .ready ∧
      k'.processList = k.processList := by
  have hp : p ≠ 0 := by
    rintro rfl
    exact h.inv.list.ne_zero (by simp)
  refine h.quiet (by simp [ProcessOp.Allowed]) rfl rfl
    (fun hcon => ProcessState.noConfusion hcon) ?_
  exact if_pos ⟨hp, h.state⟩

theorem block (h : Pair base k p c t u st) (hc : c = k.processList) :
    ∃ k', Sched.Step ⟨k, [p]⟩ (ProcessOp.block p).call ⟨k', [p]⟩ ∧ Pair base k' p c t u .blocked ∧
      k'.processList = k.processList := by
  refine h.quiet (List.mem_singleton_self p) rfl (beq_eq_false_iff_ne.mpr ?_)
    (fun hcon => ProcessState.noConfusion hcon) rfl
  show p ≠ k.currentProcess
  rw [h.currentProcess, hc]
  exact h.list_ne.symm

/-- The timer is counted up; if that walks the list, it does not wake `p`. -/
theorem tick (h : Pair base k p c t u .blocked) (hc : c = k.processList)
    (hwakes : (t + 1) % 10 = 0 → ¬(u ≠ 0 ∧ u ≤ t + 1)) :
    ∃ k', Sched.Step ⟨k, [p]⟩ ProcessOp.timerTick.call ⟨k', [p]⟩ ∧
      Pair base k' p c (t + 1) u .blocked ∧ k'.processList = k.processList := by
  have hcur : k.currentProcess = k.processList := h.currentProcess.trans hc
  let k₀ := ProcessOp.timerTick.before (k.enter ProcessOp.timerTick.call)
  have hstate : (k₀.pcb p).state = .blocked := h.state
  have hsleep : (k₀.pcb p).sleepUntil = u := h.sleepUntil
  have htime : k₀.systemTime = t + 1 := congrArg (· + 1) h.systemTime
  obtain ⟨k', hstep, hinv, hyield, hquiet⟩ := h.step .timerTick trivial rfl (by
    show (k₀.pcb p).state ≠ _
    rw [hstate]
    exact fun hcon => ProcessState.noConfusion hcon)
  by_cases hy : ProcessOp.timerTick.yields (k.enter ProcessOp.timerTick.call) = true
  · have hten : (t + 1) % 10 = 0 := by
      rw [← htime]
      exact beq_iff_eq.mp hy
    have hrun : k₀.runnable p = false := by
      rw [runnable_eq_false, Kernel.wakes, hstate, htime, hsleep]
      exact ⟨fun hcon => ProcessState.noConfusion hcon, fun hcon => hwakes hten hcon.2⟩
    have hpick : k₀.pick [p] = k.processList := by
      rw [Kernel.pick_of_idle (k := k₀) hcur, hrun]
      rfl
    have hyield : Yielded k₀ k' k.processList := by
      have := hyield hy
      rwa [hpick] at this
    have hrecord := hyield.record p h.list_ne.symm (hcur ▸ h.list_ne.symm)
    exact ⟨k', hstep, ⟨hinv, hyield.currentProcess.trans hc.symm, hyield.systemTime.trans htime,
      by rw [hrecord]; exact hsleep, by rw [hrecord]; exact hstate⟩, hyield.processList⟩
  · obtain rfl := hquiet (by simpa using hy)
    exact ⟨_, hstep, ⟨hinv, h.currentProcess, htime, h.sleepUntil, h.state⟩, rfl⟩

end Pair

end

end Rexus
