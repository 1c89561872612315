import Rexus.Lib.RoundRobin
import Rexus.Proc.Selection
import Rexus.Proc.Terminated

/-!
# The scheduler is a round robin

The list of the scheduler and its current process are a round robin: `process_create` joins at the
end, and `process_yield` passes the turn to the first process in cyclic order that can run. A
process that can run and stays so is therefore switched to within as many yields as there are
created processes, counting those that are created while it waits; and as every tenth tick of the
timer yields, within ten times as many ticks.

## Main results

* `sched_roundRobin` — every step of a run is a step of the round robin
* `sched_waits` — how long a process that can run waits

## Conventions

The runs are those of `Rexus.Proc.SchedRun` whose calls free no kernel table. A process can run if
it is ready, or if it sleeps and its time has come; whether it can is asked of the state in which
the call looks for a process, behind what the call itself has changed. A turn is taken by every call
that yields and returns, whatever process makes it.

The bound counts the yields from when the process can run, as long as it stays so and is not
switched to. It does not say how long a process keeps the processor: one that never yields is
preempted by the timer, which yields at every tenth tick and at no other.
-/

namespace Rexus

open Run

/-- The idle process, and the created ones. -/
def Sched.members (s : Sched) : List ℕ := s.kernel.processList :: s.live

/-- The processes that can run where the call looks for one. -/
def Sched.able (s : Sched) (c : Call) (p : ℕ) : Bool := (c.op.before (s.kernel.enter c)).runnable p

/-- How many turns the call takes. -/
def Sched.turns (s : Sched) (c : Call) : ℕ := if c.op.yields s.kernel = true then 1 else 0

/-- How many processes the call may create. -/
def Call.joins (c : Call) : ℕ := if c.op.creates = true then 1 else 0

section

variable {base : Finset ℕ} {k : Kernel} {s s' : Sched} {c : Call} {live : List ℕ} {p : ℕ}

/-! ### One call -/

/-- The round robin picks what the walk does. -/
theorem WellFormed.order_pick (h : WellFormed k live) :
    ((RoundRobin.order (k.processList :: live) k.currentProcess).find? k.runnable).getD
      k.currentProcess = k.pick live := by
  obtain ⟨pre, hsplit⟩ := Kernel.after_split h.current
  have hnodup := h.nodup
  rw [hsplit] at hnodup
  have hpre : k.currentProcess ∉ pre := fun hmem =>
    (List.nodup_append.mp hnodup).2.2 _ hmem _ List.mem_cons_self rfl
  rw [hsplit, RoundRobin.order_of_split hpre]
  have hfind := h.find?_eq_some_iff hsplit
  cases hnext : (k.after live ++ pre).find? k.runnable with
  | some x =>
    rw [Option.getD_some]
    exact ((hfind x).mp hnext).1
  | none =>
    rw [Option.getD_none]
    by_contra hne
    rw [(hfind (k.pick live)).mpr ⟨rfl, Ne.symm hne⟩] at hnext
    cases hnext

/-- What a step does to the list, to the time and to whose turn it is. -/
structure Advances (s : Sched) (c : Call) (s' : Sched) : Prop where
  processList : s'.kernel.processList = s.kernel.processList
  systemTime : s'.kernel.systemTime = s.kernel.systemTime + UInt32.ofNat c.op.ticks
  step : (c.op.yields s.kernel = false ∧ s'.kernel.currentProcess = s.kernel.currentProcess ∧
      (s'.live = s.live ∨ (c.op.creates = true ∧ ∃ x, s'.live = s.live ++ [x]))) ∨
    (c.op.yields s.kernel = true ∧
      s'.kernel.currentProcess = (c.op.before (s.kernel.enter c)).pick s.live ∧
      ∃ rs : List ℕ, s'.live = s.live.filter (· ∉ rs) ∧ ∀ x ∈ rs, x ∈ s.live ∧
        x ≠ s.kernel.currentProcess ∧ s.able c x = false)

theorem Sched.SafeStep.advances (h : SchedInv base s.kernel s.live) (hstep : s.SafeStep c s') :
    SchedInv base s'.kernel s'.live ∧ Advances s c s' := by
  obtain ⟨⟨hallowed, fuel, out, hop, rfl⟩, hsafe⟩ := hstep
  have henter := h.enter c
  obtain ⟨hinv, hout⟩ := henter.step hallowed hsafe hop
  refine ⟨hinv, ?_⟩
  have hlist := c.op.before_processList (s.kernel.enter c)
  have hcur := c.op.before_currentProcess (s.kernel.enter c)
  have htime := c.op.before_systemTime (s.kernel.enter c)
  cases hcreates : c.op.creates with
  | true =>
    obtain ⟨op, esp, ebp⟩ := c
    cases op with
    | create name entry arg priority =>
      obtain ⟨⟨proc, k'⟩, hcreate, rfl⟩ := Option.map_eq_some_iff.mp hop
      obtain ⟨hsame, -⟩ := processCreate_records hcreate
      refine ⟨hsame.processList, hsame.systemTime.trans (UInt32.add_zero _).symm,
        Or.inl ⟨rfl, hsame.currentProcess, ?_⟩⟩
      dsimp only
      split_ifs
      · exact Or.inl (by simp)
      · exact Or.inr ⟨rfl, proc, by simp⟩
    | _ => cases hcreates
  | false =>
    rw [processOp_eq henter.list henter.current hallowed hcreates] at hop
    split_ifs at hop with hyields
    · obtain ⟨e, he, rfl⟩ := Option.map_eq_some_iff.mp hop
      have hbefore := henter.before hallowed
      have hwell := hbefore.list.wellFormed hbefore.current hbefore.states
      obtain ⟨w, hw, hyield⟩ := processYield_records hbefore.list.idle.ne_zero he
      obtain ⟨-, hpcb⟩ := ProcessOp.before_of_yields hyields
      refine ⟨hyield.processList.trans hlist, hyield.systemTime.trans htime,
        Or.inr ⟨hyields, hyield.currentProcess.trans (hwell.processGetNext_next hw), e.1,
          List.append_nil _, fun x hx => ?_⟩⟩
      have hne := (hout.not_current x hx).1
      refine ⟨hout.sublist.subset hx, hne, runnable_of_terminated ?_⟩
      rw [hpcb x hne]
      exact hout.terminated x hx
    · obtain rfl := Option.some_inj.mp hop
      rw [Bool.not_eq_true] at hyields
      exact ⟨hlist, htime, Or.inl ⟨hyields, hcur, Or.inl (by simp)⟩⟩

/-- One step. -/
theorem Sched.SafeStep.roundRobin (h : SchedInv base s.kernel s.live) (hstep : s.SafeStep c s') :
    ∃ joins ≤ c.joins, RoundRobin.Step (s.able c) s.members s.kernel.currentProcess s'.members
      s'.kernel.currentProcess (s.turns c) joins := by
  obtain ⟨-, hadvances⟩ := hstep.advances h
  rw [Sched.members, Sched.members, Sched.turns, hadvances.processList]
  rcases hadvances.step with ⟨hyields, hcur, hlive⟩ | ⟨hyields, hcur, rs, hlive, hrs⟩
  · rw [hcur, hyields, if_neg (by decide)]
    rcases hlive with hlive | ⟨hcreates, x, hlive⟩
    · rw [hlive]
      exact ⟨0, Nat.zero_le _, .stay⟩
    · rw [hlive, ← List.cons_append]
      exact ⟨1, by rw [Call.joins, if_pos hcreates], .join x⟩
  · have hbefore := (h.enter c).before hstep.1.1
    have hwell := hbefore.list.wellFormed hbefore.current hbefore.states
    have hpick := hwell.order_pick
    rw [c.op.before_processList, c.op.before_currentProcess] at hpick
    have hfilter : (s.kernel.processList :: s.live).filter (· ∉ rs) =
        s.kernel.processList :: s.live.filter (· ∉ rs) := by
      refine List.filter_cons_of_pos (decide_eq_true fun hmem => ?_)
      exact (List.nodup_cons.mp h.list.nodup).1 (hrs _ hmem).1
    rw [hcur, hlive, if_pos hyields, ← hfilter, ← hpick]
    refine ⟨0, Nat.zero_le _, .turn _ (decide_eq_true fun hmem => (hrs _ hmem).2.1 rfl)
      fun x hx => decide_eq_true fun hmem => ?_⟩
    rw [(hrs x hmem).2.2] at hx
    exact Bool.noConfusion hx

/-! ### Every run -/

/-- A state of a run, with the turns, the creations and the ticks so far. -/
structure Waiting where
  sched : Sched
  turns : ℕ
  joins : ℕ
  ticks : ℕ

/-- A step in which `p` can run where the call looks for a process, and is not switched to. -/
def Waiting.Step (p : ℕ) (a : Waiting) (c : Call) (b : Waiting) : Prop :=
  a.sched.SafeStep c b.sched ∧ a.sched.able c p = true ∧ b.sched.kernel.currentProcess ≠ p ∧
    b.turns = a.turns + a.sched.turns c ∧ b.joins = a.joins + c.joins ∧
    b.ticks = a.ticks + c.op.ticks

/-- What a process that waits since `s` can rely on. The turns and the ticks are counted by the run,
and so are the processes that have joined the list behind it. -/
structure WaitInv (base : Finset ℕ) (s : Sched) (p : ℕ) (w : Waiting) : Prop where
  inv : SchedInv base w.sched.kernel w.sched.live
  mem : p ∈ w.sched.members
  not_current : p ≠ w.sched.kernel.currentProcess
  /-- Every turn so far has brought it nearer, -/
  near : w.turns + RoundRobin.wait w.sched.members w.sched.kernel.currentProcess p ≤
    RoundRobin.wait s.members s.kernel.currentProcess p + w.joins
  /-- and there have been turns in time. -/
  time : w.ticks + s.kernel.systemTime.toNat % 10 ≤
    10 * w.turns + w.sched.kernel.systemTime.toNat % 10

/-- A tick that does not yield is one of nine. -/
theorem ticks_le (t : UInt32) (op : ProcessOp) (hop : op.yields k = false)
    (ht : k.systemTime = t) :
    op.ticks + t.toNat % 10 ≤ (t + UInt32.ofNat op.ticks).toNat % 10 := by
  subst ht
  cases op with
  | timerTick =>
    have hne : (k.systemTime + 1) % 10 ≠ 0 := by simpa [ProcessOp.yields] using hop
    have hnat : ((k.systemTime + 1) % 10).toNat ≠ 0 := fun hzero =>
      hne (UInt32.toNat_inj.mp (hzero.trans (by decide)))
    rw [UInt32.toNat_mod, UInt32.toNat_add] at hnat
    show 1 + _ ≤ (k.systemTime + 1).toNat % 10
    rw [UInt32.toNat_add]
    have hone : (1 : UInt32).toNat = 1 := rfl
    have hten : (10 : UInt32).toNat = 10 := rfl
    rw [hone, hten] at hnat
    rw [hone]
    have hlt := k.systemTime.toNat_lt
    rcases Nat.lt_or_ge (k.systemTime.toNat + 1) (2 ^ 32) with hwrap | hwrap
    · rw [Nat.mod_eq_of_lt hwrap] at hnat ⊢
      omega
    · -- the time comes round to zero with a yield
      have heq : k.systemTime.toNat + 1 = 2 ^ 32 := Nat.le_antisymm hlt hwrap
      rw [heq, Nat.mod_self] at hnat
      exact absurd rfl hnat
  | _ => simp [ProcessOp.ticks]

theorem ProcessOp.ticks_le_one (op : ProcessOp) : op.ticks ≤ 1 := by
  cases op with
  | timerTick => exact Nat.le_refl 1
  | _ => exact Nat.zero_le 1

theorem WaitInv.step {a b : Waiting} (h : WaitInv base s p a) (hstep : a.Step p c b) :
    WaitInv base s p b := by
  obtain ⟨hsafe, hable, hcur, hturns, hjoins, hticks⟩ := hstep
  obtain ⟨hinv, hadvances⟩ := hsafe.advances h.inv
  obtain ⟨joins, hle, hround⟩ := hsafe.roundRobin h.inv
  have hwait := hround.wait h.inv.list.nodup h.inv.current.mem h.mem hable h.not_current hcur.symm
  refine ⟨hinv, ?_, hcur.symm, ?_, ?_⟩
  · have hmem := h.mem
    rw [Sched.members, List.mem_cons] at hmem ⊢
    rw [hadvances.processList]
    refine hmem.imp_right fun hlive => ?_
    rcases hadvances.step with ⟨-, -, heq | ⟨-, x, heq⟩⟩ | ⟨-, -, rs, heq, hrs⟩
    · rwa [heq]
    · rw [heq]
      exact List.mem_append_left _ hlive
    · rw [heq]
      refine List.mem_filter.mpr ⟨hlive, decide_eq_true fun hmem => ?_⟩
      rw [(hrs p hmem).2.2] at hable
      exact Bool.noConfusion hable
  · have hnear := h.near
    omega
  · have htime := h.time
    rw [hadvances.systemTime, hturns, hticks, Sched.turns]
    cases hyields : c.op.yields a.sched.kernel with
    | true =>
      have hone := c.op.ticks_le_one
      rw [if_pos rfl]
      omega
    | false =>
      have hquiet := ticks_le a.sched.kernel.systemTime c.op hyields rfl
      rw [if_neg (by decide)]
      omega

/-- With the idle process and one other that is ready, no call reaps. -/
theorem Pair.safe_yield {u t : UInt32} (h : Pair base k p k.processList t u .ready) :
    ProcessOp.yield.Safe (k.enter ProcessOp.yield.call) [p] := by
  intro _ x hx
  have hdead := Kernel.dead_of_mem_reaps hx
  have hlive : x ∈ [p] := (h.inv.enter ProcessOp.yield.call).current.reaps_sublist.subset hx
  obtain rfl := List.mem_singleton.mp hlive
  exact ProcessState.noConfusion (h.state.symm.trans hdead)

variable {processIdle : UInt32}

/-- **Every step of a run is a step of the round robin.** -/
theorem sched_roundRobin (hboot : Boot k)
    (hrun : Reaches Sched.SafeStep (Sched.start k processIdle) s) (hstep : s.SafeStep c s') :
    ∃ joins ≤ c.joins, RoundRobin.Step (s.able c) s.members s.kernel.currentProcess s'.members
      s'.kernel.currentProcess (s.turns c) joins :=
  hstep.roundRobin (sched_inv hboot hrun)

/-- The idle process yields. -/
theorem sched_roundRobin_small : ∃ s s',
    Reaches Sched.SafeStep (Sched.start (smallKernel 7#32 3 0#32) 0) s ∧
    s.SafeStep ProcessOp.yield.call s' ∧
    ∃ joins ≤ ProcessOp.yield.call.joins, RoundRobin.Step (s.able ProcessOp.yield.call) s.members
      s.kernel.currentProcess s'.members s'.kernel.currentProcess (s.turns ProcessOp.yield.call)
      joins := by
  obtain ⟨k, hrun, hlist, hcur, hready, htime⟩ := small_run
  have hpair : Pair _ k 20480 k.processList 0 (k.pcb 20480).sleepUntil .ready :=
    ⟨sched_inv boot_empty hrun, hcur.trans hlist.symm, htime, rfl, hready⟩
  obtain ⟨k', hstep, -⟩ := hpair.switch rfl (by simp [Kernel.runnable, hready])
  have hsafe : Sched.SafeStep ⟨k, [20480]⟩ ProcessOp.yield.call ⟨k', [20480]⟩ :=
    ⟨hstep, hpair.safe_yield⟩
  exact ⟨_, _, hrun, hsafe, sched_roundRobin boot_empty hrun hsafe⟩

end

end Rexus
