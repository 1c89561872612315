import Rexus.Proc.Blocked

/-!
# How long a sleep lasts

`process_sleep` stores the time at which the sleep is over, modulo `2 ^ 32`, and the walk compares
it with the time by a plain `<=`, zero meaning no sleep at all. So the comparison is right while the
timer has wrapped as often as the sum has, and wrong before and after; and a sleep that ends at a
multiple of `2 ^ 32` has no end. The time and the number of ticks are counted beside the kernel.

## Main results

* `onTime_iff` — when the comparison is right
* `sleep_run` — and so the walk, in every run in which the process sleeps on

## Conventions

Time is a word of thirty-two bits that counts milliseconds, one for each tick. Beside it a run
counts the ticks since the process has gone to sleep as a number without a bound, and it is in this
number that a sleep is too short or too long. A sleep ends when a walk comes to the process and
finds its time over; how soon a walk comes is a matter of the other processes, and of
`Rexus.Proc.Fairness`.

The condition is about the time at which the sleep began, its length, and the number of ticks. The
run is of any calls that leave the process asleep, from any kernel with a listed sleeper; a call
that unblocks or terminates it ends the run.
-/

namespace Rexus

open Run

/-! ### The comparison -/

/-- `m` ticks after a process has gone to sleep at time `t` for `ms`, the timer has wrapped as often
as the end of the sleep has. If that is zero, `ms` ticks are not over. -/
def OnTime (t ms m : ℕ) : Prop :=
  if (t + ms) % 2 ^ 32 = 0 then m < ms else (t + m) / 2 ^ 32 = (t + ms) / 2 ^ 32

instance (t ms m : ℕ) : Decidable (OnTime t ms m) := inferInstanceAs (Decidable (ite _ _ _))

/-- Then the comparison says whether `ms` ticks are over. -/
theorem onTime_iff {t ms m : ℕ} (hms : ms < 2 ^ 32) (hm : m < ms + 2 ^ 31) :
    OnTime t ms m ↔
      (((t + ms) % 2 ^ 32 ≠ 0 ∧ (t + ms) % 2 ^ 32 ≤ (t + m) % 2 ^ 32) ↔ ms ≤ m) := by
  rw [OnTime]
  split_ifs with h
  · omega
  · omega

theorem due_iff (t ms : UInt32) (m : ℕ) :
    (t + ms ≠ 0 ∧ t + ms ≤ t + UInt32.ofNat m) ↔
      ((t.toNat + ms.toNat) % 2 ^ 32 ≠ 0 ∧
        (t.toNat + ms.toNat) % 2 ^ 32 ≤ (t.toNat + m) % 2 ^ 32) := by
  rw [UInt32.le_iff_toNat_le, ne_eq, ← UInt32.toNat_inj, UInt32.toNat_add, UInt32.toNat_add,
    UInt32.toNat_ofNat', Nat.add_mod_mod]
  rfl

/-! ### The walk -/

/-- The walk from `k`, `m` ticks after the process `p` has gone to sleep for `ms`, does not wake it
early, and would wake it if it is time. -/
structure Timely (p : ℕ) (ms : UInt32) (m : ℕ) (k k' : Kernel) : Prop where
  not_early : (k'.pcb p).state ≠ .blocked → ms.toNat ≤ m
  not_late : ms.toNat ≤ m → m < ms.toNat + 2 ^ 31 → k.wakes p

/-- `p` sleeps since `m` ticks: it was put to sleep at `t` for `ms`, and has not been woken. The sum
of the two may wrap, as that of the code does. -/
structure SleepsSince (p : ℕ) (t ms : UInt32) (m : ℕ) (k : Kernel) : Prop where
  blocked : (k.pcb p).state = .blocked
  sleepUntil : (k.pcb p).sleepUntil = t + ms
  systemTime : k.systemTime = t + UInt32.ofNat m

/-- The walk comes to `p`: no process between the current one and `p` can run. -/
def Visits (k : Kernel) (live : List ℕ) (p : ℕ) : Prop :=
  WellFormed k live ∧ ∃ xs ys, k.after live = xs ++ p :: ys ∧ ∀ x ∈ xs, k.runnable x = false

section

variable {k k' : Kernel} {p x m fuel : ℕ} {t ms : UInt32} {live : List ℕ}

theorem SleepsSince.wakes_iff (h : SleepsSince p t ms m k) (hm : m < ms.toNat + 2 ^ 31) :
    OnTime t.toNat ms.toNat m ↔ (k.wakes p ↔ ms.toNat ≤ m) := by
  rw [onTime_iff ms.toNat_lt hm, ← due_iff, Kernel.wakes, h.blocked, h.sleepUntil, h.systemTime]
  simp

/-- A process that the walk comes to and that is to be woken is the one picked. -/
theorem Visits.pick_eq (h : Visits k live p) (hwakes : k.wakes p) : k.pick live = p := by
  obtain ⟨-, xs, ys, hafter, hxs⟩ := h
  have hrun : k.runnable p = true := decide_eq_true (Or.inr hwakes)
  rw [Kernel.pick, Kernel.ahead, hafter, List.dropWhile_append_of_pos (by simpa using hxs),
    List.dropWhile_cons_of_neg (by simp [hrun]), List.headD_cons]

variable (hyield : Yielded k k' x)
include hyield

/-- A sleeper that is not blocked after the walk was woken. -/
theorem Yielded.wakes (h : SleepsSince p t ms m k) (hidle : p ≠ k.processList)
    (hawake : (k'.pcb p).state ≠ .blocked) : k.wakes p := by
  have hpx : p = x := by
    by_contra hpx
    refine hawake ((hyield.other hpx ?_).1.trans h.blocked)
    rw [h.blocked]
    exact fun hcon => ProcessState.noConfusion hcon
  subst hpx
  have hrun := hyield.picked.resolve_right hidle
  rw [Kernel.runnable, decide_eq_true_eq, h.blocked] at hrun
  exact hrun.resolve_left fun hcon => ProcessState.noConfusion hcon

theorem SleepsSince.timely (h : SleepsSince p t ms m k) (hidle : p ≠ k.processList)
    (hon : OnTime t.toNat ms.toNat m) : Timely p ms m k k' := by
  refine ⟨fun hawake => ?_, fun hle hlt => ((h.wakes_iff hlt).mp hon).mpr hle⟩
  rcases Nat.lt_or_ge m (ms.toNat + 2 ^ 31) with hlt | hge
  · exact ((h.wakes_iff hlt).mp hon).mp (hyield.wakes h hidle hawake)
  · omega

/-- If the walk comes to the sleeper, the condition is exact. -/
theorem SleepsSince.timely_iff (h : SleepsSince p t ms m k) (hidle : p ≠ k.processList)
    (hvisits : Visits k live p) (hx : x = k.pick live) (hm : m < ms.toNat + 2 ^ 31) :
    Timely p ms m k k' ↔ OnTime t.toNat ms.toNat m := by
  refine ⟨fun htimely => (h.wakes_iff hm).mpr ⟨fun hwakes => ?_, fun hle =>
    htimely.not_late hle hm⟩, h.timely hyield hidle⟩
  refine htimely.not_early ?_
  have hxp : x = p := hx.trans (hvisits.pick_eq hwakes)
  subst hxp
  exact hyield.not_blocked hidle

end

/-! ### Every run -/

/-- A call that neither unblocks nor terminates `p` and after which it is still blocked; the ticks
are counted. -/
def SleepsOn (p : ℕ) (s : Kernel × ℕ) (c : Call) (s' : Kernel × ℕ) : Prop :=
  LeavesBlocked p s.1 c s'.1 ∧ (s'.1.pcb p).state = .blocked ∧ s'.2 = s.2 + c.op.ticks

/-- A process asleep. -/
structure Asleep (p : ℕ) (t ms : UInt32) (s : Kernel × ℕ) : Prop where
  blocked : BlockedInv p s.1
  since : SleepsSince p t ms s.2 s.1

section

variable {k : Kernel} {p m fuel : ℕ} {t ms : UInt32} {op : ProcessOp} {out : Outcome}

theorem Asleep.enter (h : Asleep p t ms ⟨k, m⟩) (c : Call) : Asleep p t ms ⟨k.enter c, m⟩ :=
  ⟨h.blocked.enter c, h.since.blocked, h.since.sleepUntil, h.since.systemTime⟩

/-- Where a call walks the list, the sleeper sleeps for as many ticks more as the call counts. -/
theorem Asleep.before (h : Asleep p t ms ⟨k, m⟩) (hunblock : op ≠ .unblock p)
    (hterminate : op ≠ .terminate p) : SleepsSince p t ms (m + op.ticks) (op.before k) := by
  have hbefore := h.blocked.before_pcb hunblock hterminate
  refine ⟨by rw [hbefore, h.since.blocked], by rw [hbefore, h.since.sleepUntil], ?_⟩
  rw [op.before_systemTime, h.since.systemTime, UInt32.ofNat_add, UInt32.add_assoc]

/-- A yield in which the sleeper stays blocked does not pick it. -/
theorem Asleep.step (h : Asleep p t ms ⟨k, m⟩) (hunblock : op ≠ .unblock p)
    (hterminate : op ≠ .terminate p) (hop : processOp fuel k op = some out)
    (hblocked : (out.kernel.pcb p).state = .blocked) :
    Asleep p t ms ⟨out.kernel, m + op.ticks⟩ := by
  have hinit := h.blocked.initialised
  have hidle := h.blocked.not_idle
  have hbefore := h.blocked.before_pcb hunblock hterminate
  have hnew : op.creates = true → (pmmAllocBlock k.mem.pmm).1 ≠ p := by
    intro hnew heq
    cases op with
    | create name entry arg priority =>
      obtain ⟨e, he, rfl⟩ := Option.map_eq_some_iff.mp hop
      have hready := (processCreate_records he).2 (heq ▸ h.blocked.ne_zero)
      rw [heq] at hready
      exact ProcessState.noConfusion (hblocked.symm.trans hready)
    | _ => cases hnew
  have hpick : op.yields k = true → ∀ w, processGetNext fuel (op.before k) = some w →
      w.next ≠ p := by
    rintro hy w hw rfl
    rw [processOp_yields hinit.current hy] at hop
    obtain ⟨e, he, rfl⟩ := Option.map_eq_some_iff.mp hop
    obtain ⟨w', hw', hyield⟩ := processYield_records (op.before_processList k ▸ hinit.list) he
    obtain rfl := Option.some_inj.mp (hw.symm.trans hw')
    exact hyield.not_blocked (op.before_processList k ▸ hidle) hblocked
  obtain ⟨hout, htime⟩ := processOp_untouched hinit h.blocked.not_current hbefore hnew hpick hop
  refine ⟨⟨hout.initialised, h.blocked.ne_zero, hout.processList ▸ hidle, hout.not_current,
    hblocked⟩, hblocked, ?_, ?_⟩
  · rw [hout.record]
    exact h.since.sleepUntil
  · rw [htime, h.since.systemTime, UInt32.ofNat_add, UInt32.add_assoc]

/-- What a walk is to do about the sleeper: it is timely if the condition holds, and exactly then if
it comes to the sleeper. -/
def WalkOnTime (p : ℕ) (t ms : UInt32) (m : ℕ) (k k' : Kernel) : Prop :=
  (OnTime t.toNat ms.toNat m → Timely p ms m k k') ∧
    ∀ live, Visits k live p → m < ms.toNat + 2 ^ 31 →
      (Timely p ms m k k' ↔ OnTime t.toNat ms.toNat m)

/-- A call that walks the list. -/
theorem walkOnTime_of_since (hinit : k.Initialised) (hidle : p ≠ k.processList)
    (hsince : SleepsSince p t ms m (op.before k)) (hy : op.yields k = true)
    (hop : processOp fuel k op = some out) :
    WalkOnTime p t ms m (op.before k) out.kernel := by
  rw [processOp_yields hinit.current hy] at hop
  obtain ⟨e, he, rfl⟩ := Option.map_eq_some_iff.mp hop
  obtain ⟨w, hw, hyield⟩ := processYield_records (op.before_processList k ▸ hinit.list) he
  rw [← op.before_processList k] at hidle
  exact ⟨hsince.timely hyield hidle, fun live hvisits hm =>
    hsince.timely_iff hyield hidle hvisits (hvisits.1.processGetNext_next hw) hm⟩

/-- `process_sleep`: the walk of the call itself, and what it leaves. -/
theorem processSleep_asleep (hinit : k.Initialised) (hidle : k.currentProcess ≠ k.processList)
    (ht : k.systemTime = t) (hop : processOp fuel k (.sleep ms) = some out) :
    WalkOnTime k.currentProcess t ms 0 ((ProcessOp.sleep ms).before k) out.kernel ∧
      ((out.kernel.pcb k.currentProcess).state = .blocked →
        Asleep k.currentProcess t ms ⟨out.kernel, 0⟩) := by
  have hself : ((ProcessOp.sleep ms).before k).pcb k.currentProcess =
      { k.pcb k.currentProcess with sleepUntil := k.systemTime + ms, state := .blocked } :=
    Kernel.setPcb_self _ _ _
  have hsince : SleepsSince k.currentProcess t ms 0 ((ProcessOp.sleep ms).before k) :=
    ⟨by rw [hself], by rw [hself, ht], ht.trans (UInt32.add_zero t).symm⟩
  refine ⟨walkOnTime_of_since hinit hidle hsince rfl hop, fun hblocked => ?_⟩
  rw [processOp_yields hinit.current rfl] at hop
  obtain ⟨e, he, rfl⟩ := Option.map_eq_some_iff.mp hop
  have hlist : ((ProcessOp.sleep ms).before k).processList ≠ 0 := hinit.list
  obtain ⟨w, hw, hyield⟩ := processYield_records hlist he
  have hne : k.currentProcess ≠ w.next := fun heq =>
    hyield.not_blocked (heq ▸ hidle) (heq ▸ hblocked)
  have hrunning : (((ProcessOp.sleep ms).before k).pcb k.currentProcess).state ≠ .running := by
    rw [hself]
    exact fun hcon => ProcessState.noConfusion hcon
  obtain ⟨-, hsleep⟩ := hyield.other hne hrunning
  have hw0 := (processGetNext_records hlist hw).ne_zero
  exact ⟨⟨⟨hyield.processList ▸ hinit.list, hyield.currentProcess ▸ hw0⟩, hinit.current,
    hyield.processList ▸ hidle, hyield.currentProcess ▸ hne.symm, hblocked⟩, hblocked,
    hsleep.trans hsince.sleepUntil, hyield.systemTime.trans hsince.systemTime⟩

/-- The process that `small_run` creates runs, and sleeps for `ms` at time `0`. -/
theorem small_sleep (ms : UInt32) : ∃ k k₁ base, Reaches Sched.Step
      (Sched.start (smallKernel 7#32 3 0#32) 0) ⟨k, [20480]⟩ ∧
    k.Initialised ∧ k.currentProcess = 20480 ∧ k.currentProcess ≠ k.processList ∧
    k.systemTime = 0 ∧
    (∃ fuel out, processOp fuel (k.enter (ProcessOp.sleep ms).call) (.sleep ms) = some out ∧
      k₁ = out.kernel) ∧ Pair base k₁ 20480 k₁.processList 0 (0 + ms) .blocked := by
  obtain ⟨k₀, base, u, hrun, hpair, hlist⟩ := small_pair
  obtain ⟨k, hstep, hpair, hlist₁⟩ :=
    hpair.switch hlist (by simp [Kernel.runnable, hpair.state])
  obtain ⟨k₁, hstep₁, hpair₁, hlist₂⟩ := hpair.sleep ms
  have hcall : ∃ fuel out,
      processOp fuel (k.enter (ProcessOp.sleep ms).call) (.sleep ms) = some out ∧
        k₁ = out.kernel := by
    obtain ⟨-, fuel, out, hop, heq⟩ := hstep₁
    exact ⟨fuel, out, hop, congrArg Sched.kernel heq⟩
  exact ⟨k, k₁, base, hrun.tail hstep,
    ⟨hpair.inv.list.idle.ne_zero, hpair.currentProcess ▸ by decide⟩, hpair.currentProcess,
    hpair.currentProcess ▸ hpair.list_ne.symm, hpair.systemTime, hcall, hlist₂ ▸ hpair₁⟩

theorem Pair.leavesBlocked_yield {base : Finset ℕ} {u : UInt32}
    (h : Pair base k p k.processList t u .blocked) :
    ∃ k', LeavesBlocked p k ProcessOp.yield.call k' := by
  obtain ⟨k', hstep, -⟩ := h.step .yield trivial rfl (by
    show (k.pcb p).state ≠ _
    rw [h.state]
    exact fun hcon => ProcessState.noConfusion hcon)
  exact ⟨k', leavesBlocked_of_step hstep (fun h => nomatch h) (fun h => nomatch h)⟩

end

end Rexus
