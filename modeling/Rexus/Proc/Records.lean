import Mathlib.Data.Set.Insert
import Rexus.Proc.SchedStep

/-!
# What a call does to the records

What a call does to the record of one process does not depend on the list being in order. For any
state, and whatever pointers a call is given: a creation writes the record it has got a block for,
the walk changes links, and wakes at most the process it returns, and a switch changes the two
processes it is between.

## What a proof uses

* `SameRecords` — the records are the same, but for their links
* `processCreate_records`, `processGetNext_records`, `processYield_records`
* `processOp_untouched`, `processOp_left` — a process a call leaves alone, and one that it leaves

## Scope

No invariant is assumed: the list may be broken, and the pointers that a call is given may be any
numbers, so the lemmas hold of a kernel in which something has already gone wrong. What they need is
only that the call returns. A process that a call leaves alone is one that is neither current nor
named by it nor reaped, and that the walk does not wake; its record is then the same but for its
link.

The contents of the blocks are not the matter of this module, only the records beside them: see
`Rexus.Proc.Process` for when the two agree. The walk is run with fuel, and a lemma about it is an
induction over its turns, with one case for each thing that a turn may do.
-/

namespace Rexus

open Linked Loop

/-- `k'` has the records of `k` but for their links, and for the records of `S`. -/
structure SameRecords (S : Set ℕ) (k k' : Kernel) : Prop where
  processList : k'.processList = k.processList
  currentProcess : k'.currentProcess = k.currentProcess
  systemTime : k'.systemTime = k.systemTime
  record : ∀ x, x ∉ S → k'.pcb x = { k.pcb x with next := k'.next x }

namespace SameRecords

variable {S : Set ℕ} {k k' k'' : Kernel} {p x : ℕ}

theorem refl (S : Set ℕ) (k : Kernel) : SameRecords S k k := ⟨rfl, rfl, rfl, fun _ _ => rfl⟩

theorem trans (h₁ : SameRecords S k k') (h₂ : SameRecords S k' k'') : SameRecords S k k'' where
  processList := h₂.processList.trans h₁.processList
  currentProcess := h₂.currentProcess.trans h₁.currentProcess
  systemTime := h₂.systemTime.trans h₁.systemTime
  record x hx := by rw [h₂.record x hx, h₁.record x hx]

theorem mono {T : Set ℕ} (h : SameRecords S k k') (hST : S ⊆ T) : SameRecords T k k' :=
  ⟨h.processList, h.currentProcess, h.systemTime, fun x hx => h.record x fun hS => hx (hST hS)⟩

theorem setPmm (h : SameRecords S k k') (t : Pmm) : SameRecords S k (k'.setPmm t) :=
  ⟨h.processList, h.currentProcess, h.systemTime, h.record⟩

theorem setMem (h : SameRecords S k k') (m : Mem) : SameRecords S k { k' with mem := m } :=
  ⟨h.processList, h.currentProcess, h.systemTime, h.record⟩

/-- One of the records of `S` is written. -/
theorem setPcb (h : SameRecords S k k') (hp : p ∈ S) (q : Process) :
    SameRecords S k (k'.setPcb p q) := by
  refine ⟨h.processList, h.currentProcess, h.systemTime, fun x hx => ?_⟩
  have hxp : x ≠ p := fun hxp => hx (hxp ▸ hp)
  rw [Kernel.next, Kernel.setPcb_of_ne _ _ _ hxp]
  exact h.record x hx

theorem setNext (h : SameRecords S k k') (p q : ℕ) : SameRecords S k (k'.setNext p q) := by
  refine ⟨h.processList, h.currentProcess, h.systemTime, fun x hx => ?_⟩
  rw [Kernel.setNext_next, Kernel.setNext_pcb, h.record x hx]

theorem state (h : SameRecords S k k') (hx : x ∉ S) : (k'.pcb x).state = (k.pcb x).state := by
  rw [h.record x hx]

theorem wakes (h : SameRecords S k k') (hx : x ∉ S) : k'.wakes x ↔ k.wakes x := by
  rw [Kernel.wakes, h.record x hx, h.systemTime]
  exact Iff.rfl

theorem runnable (h : SameRecords S k k') (hx : x ∉ S) : k'.runnable x = k.runnable x := by
  simp only [Kernel.runnable, h.state hx, h.wakes hx]

end SameRecords

/-! ### A creation -/

section Create

variable {k k₀ : Kernel} {fuel proc r : ℕ} {entry arg : UInt32}

/-- The records of `k` with a new one at `proc`, which is ready. -/
structure AddsRecord (k k' : Kernel) (proc : ℕ) : Prop where
  same : SameRecords {proc} k k'
  ready : (k'.pcb proc).state = .ready

namespace AddsRecord

variable {k' : Kernel}

theorem setPcb (h : AddsRecord k k' proc) {q : Process} (hq : q.state = .ready) :
    AddsRecord k (k'.setPcb proc q) proc :=
  ⟨h.same.setPcb (Set.mem_singleton _) q, by rw [Kernel.setPcb_self, hq]⟩

theorem setMem (h : AddsRecord k k' proc) (m : Mem) : AddsRecord k { k' with mem := m } proc :=
  ⟨h.same.setMem m, h.ready⟩

theorem setNext (h : AddsRecord k k' proc) (p q : ℕ) : AddsRecord k (k'.setNext p q) proc := by
  refine ⟨h.same.setNext p q, ?_⟩
  rw [Kernel.setNext_pcb, h.ready]

theorem freeRecord (h : AddsRecord k k' proc) : AddsRecord k (k'.freeRecord proc) proc :=
  h.setMem _

theorem startProcess (h : AddsRecord k k' proc) (stack : ℕ) :
    AddsRecord k (k'.startProcess proc stack entry arg) proc := by
  rw [Kernel.startProcess]
  exact (h.setMem _).setPcb h.ready

theorem processStack {e : ℕ × Kernel} (h : AddsRecord k k₀ proc)
    (he : processStack fuel k₀ proc entry arg = some e) : AddsRecord k e.2 proc := by
  rw [Rexus.processStack] at he
  dsimp only at he
  split_ifs at he
  · obtain rfl := Option.some_inj.mp he
    exact ((h.setMem _).setMem _).freeRecord
  · obtain ⟨last, -, rfl⟩ := Option.map_eq_some_iff.mp he
    exact ((h.setMem _).startProcess _).setNext _ _

theorem processClone {e : ℕ × Kernel} (h : AddsRecord k k₀ proc)
    (he : processClone fuel k₀ proc entry arg = some e) : AddsRecord k e.2 proc := by
  rw [Rexus.processClone] at he
  cases hclone : vmmCloneDirectory k₀.mem k₀.mem.currentDirectory with
  | none =>
    rw [hclone] at he
    cases he
  | some dm =>
    rw [hclone] at he
    dsimp only at he
    have hdir := (h.setMem dm.2).setPcb (q := { k₀.pcb proc with pageDirectory := dm.1 }) h.ready
    split_ifs at he
    · obtain rfl := Option.some_inj.mp he
      exact hdir.freeRecord
    · exact hdir.processStack he

end AddsRecord

/-- A creation writes the record it has got a block for, whether it fails later or not. -/
theorem processCreate_records {name : List UInt8} {priority : ProcessPriority} {e : ℕ × Kernel}
    (h : processCreate fuel k name entry arg priority = some e) :
    SameRecords {(pmmAllocBlock k.mem.pmm).1} k e.2 ∧
      ((pmmAllocBlock k.mem.pmm).1 ≠ 0 →
        (e.2.pcb (pmmAllocBlock k.mem.pmm).1).state = .ready) := by
  rw [processCreate] at h
  dsimp only at h
  split_ifs at h with hnull
  · obtain rfl := Option.some_inj.mp h
    exact ⟨(SameRecords.refl _ k).setPmm _, fun hne => absurd hnull hne⟩
  · have hnew : AddsRecord k ((k.setPmm (pmmAllocBlock k.mem.pmm).2).newRecord
        (pmmAllocBlock k.mem.pmm).1 name priority) (pmmAllocBlock k.mem.pmm).1 := by
      have hsame := ((SameRecords.refl {(pmmAllocBlock k.mem.pmm).1} k).setPmm
        (pmmAllocBlock k.mem.pmm).2).setPcb (Set.mem_singleton _)
          { Process.zero with name, pid := k.nextPid, state := .ready, priority }
      exact ⟨⟨hsame.processList, hsame.currentProcess, hsame.systemTime, hsame.record⟩,
        congrArg Process.state (Kernel.setPcb_self _ _ _)⟩
    have hall := hnew.processClone h
    exact ⟨hall.same, fun _ => hall.ready⟩

end Create

/-! ### The walk -/

section Walk

variable {k k' : Kernel} {fuel x : ℕ}

theorem processReap_records {e : ℕ × Kernel} (h : processReap fuel k x = some e) :
    SameRecords ∅ k e.2 := by
  obtain ⟨prev, -, rfl⟩ := Option.map_eq_some_iff.mp h
  dsimp only
  rw [Kernel.release_eq]
  refine SameRecords.setPmm ?_ _
  split_ifs
  · exact SameRecords.refl _ k
  · exact (SameRecords.refl _ k).setNext _ _

/-- Where the walk ends: at a process that can run, which it makes ready, or at the head of the
list. -/
structure WalkEnds (k : Kernel) (w : Walk) : Prop where
  ne_zero : w.next ≠ 0
  found : ∃ k₁, SameRecords ∅ k k₁ ∧
    ((k.runnable w.next = true ∧ w.kernel = k₁.setState w.next .ready) ∨
      (w.next = k.processList ∧ w.kernel = k₁))

/-- Along the walk only links change. -/
structure WalkSame (k : Kernel) (w : Walk) : Prop where
  ne_zero : w.next ≠ 0
  same : SameRecords ∅ k w.kernel

theorem WalkSame.ends_list {w : Walk} (hlist : k.processList ≠ 0) (h : SameRecords ∅ k w.kernel)
    (hw : w.next = w.kernel.processList) : WalkEnds k w :=
  ⟨by rwa [hw, h.processList], _, h, Or.inr ⟨hw.trans h.processList, rfl⟩⟩

/-- What one turn may come to. -/
def TurnOk (k : Kernel) : Turn Walk Walk → Prop
  | .next w => WalkSame k w
  | .done w => WalkEnds k w

theorem turnOk_walkOn (hlist : k.processList ≠ 0) {w : Walk} (h : WalkSame k w) (start : ℕ) :
    TurnOk k (walkOn start w) := by
  rw [walkOn]
  split_ifs
  · exact WalkSame.ends_list hlist h.same rfl
  · exact h

theorem WalkSame.turn (hlist : k.processList ≠ 0) {w : Walk} (h : WalkSame k w) {start : ℕ}
    {turn : Turn Walk Walk} (hturn : processWalkTurn fuel start w = some turn) :
    TurnOk k turn := by
  have hlist' : w.kernel.processList ≠ 0 := h.same.processList ▸ hlist
  by_cases hrun : w.kernel.runnable w.next = true
  · rw [processWalkTurn_runnable hrun] at hturn
    obtain rfl := Option.some_inj.mp hturn
    rw [h.same.runnable (Set.notMem_empty _)] at hrun
    exact ⟨h.ne_zero, w.kernel, h.same, Or.inl ⟨hrun, rfl⟩⟩
  · rw [Bool.not_eq_true] at hrun
    by_cases hdead : (w.kernel.pcb w.next).state = .terminated
    · obtain ⟨hready, hwakes⟩ := runnable_eq_false.mp hrun
      rw [processWalkTurn] at hturn
      dsimp only at hturn
      rw [if_neg hready, if_neg hwakes, if_pos hdead] at hturn
      obtain ⟨e, he, rfl⟩ := Option.map_eq_some_iff.mp hturn
      have hreap := h.same.trans (processReap_records he)
      split_ifs with htemp
      · exact WalkSame.ends_list hlist hreap rfl
      · exact turnOk_walkOn hlist ⟨htemp, hreap⟩ start
    · rw [processWalkTurn_pass fuel start w hrun (by simpa [Kernel.dead] using hdead)] at hturn
      obtain rfl := Option.some_inj.mp hturn
      refine turnOk_walkOn hlist ?_ start
      refine ⟨?_, h.same⟩
      dsimp only
      split_ifs with hnext
      · exact hlist'
      · exact hnext

theorem processGetNext_records (hlist : k.processList ≠ 0) {w : Walk}
    (h : processGetNext fuel k = some w) : WalkEnds k w := by
  rw [processGetNext, if_neg hlist] at h
  dsimp only at h
  refine iterate_inv (WalkSame k) (WalkEnds k) ⟨?_, SameRecords.refl _ k⟩
    (fun v t hv ht => hv.turn hlist ht) (fun v t hv ht => hv.turn hlist ht) h
  split_ifs with hnext
  · exact hlist
  · exact hnext

/-! ### A yield -/

/-- `k'` is `k` once a yield has picked `x`, which the kernel has switched to unless it was the
current process already. -/
structure Yielded (k k' : Kernel) (x : ℕ) : Prop where
  picked : k.runnable x = true ∨ x = k.processList
  processList : k'.processList = k.processList
  currentProcess : k'.currentProcess = x
  systemTime : k'.systemTime = k.systemTime
  running : x ≠ k.currentProcess →
    k'.pcb x = { k.pcb x with state := .running, next := k'.next x }
  /-- The current process may have been woken, and goes on. -/
  resumed : x = k.currentProcess → x ≠ k.processList → (k'.pcb x).state = .ready
  record : ∀ p, p ≠ x → p ≠ k.currentProcess → k'.pcb p = { k.pcb p with next := k'.next p }
  /-- The process that is left is ready if it was running; its registers are saved. -/
  left : x ≠ k.currentProcess → ∃ esp ebp, k'.pcb k.currentProcess =
    { k.pcb k.currentProcess with
      state := if (k.pcb k.currentProcess).state = .running then .ready
        else (k.pcb k.currentProcess).state
      next := k'.next k.currentProcess
      esp := esp
      ebp := ebp }

/-- A switch from a kernel whose records are those of `k`, but for the state of the process
switched to. -/
theorem yielded_processSwitch (hx : x ≠ 0) (hne : x ≠ k.currentProcess)
    (hpicked : k.runnable x = true ∨ x = k.processList) (h : SameRecords {x} k k')
    (hstate : ∃ st, k'.pcb x = { k.pcb x with state := st, next := k'.next x }) :
    Yielded k (processSwitch k' x) x := by
  obtain ⟨st, hstate⟩ := hstate
  have hne' : x ≠ k'.currentProcess := h.currentProcess ▸ hne
  obtain ⟨d, -, heq⟩ := processSwitch_eq hx hne'
  have hrecord : ∀ p, p ≠ x → k'.pcb p = { k.pcb p with next := k'.next p } := fun p hp =>
    h.record p hp
  have hnext : (processSwitch k' x).next = k'.next := by
    rw [heq]
    funext p
    by_cases hpc : p = k'.currentProcess
    · subst hpc
      simp [Kernel.next]
    · by_cases hpx : p = x
      · subst hpx
        simp [Kernel.next, hpc]
      · simp [Kernel.next, hpc, hpx]
  refine ⟨hpicked, by rw [heq, ← h.processList], by rw [heq], by rw [heq, ← h.systemTime],
    fun _ => ?_, fun hcur => absurd hcur hne, fun p hpx hpc => ?_, fun _ => ?_⟩
  · rw [hnext, heq]
    dsimp only
    rw [Function.update_of_ne hne', Function.update_self, hstate]
  · rw [hnext, ← hrecord p hpx, heq]
    have hpc' : p ≠ k'.currentProcess := h.currentProcess ▸ hpc
    simp [hpc', hpx]
  · refine ⟨k'.esp, k'.ebp, ?_⟩
    rw [hnext, heq, ← h.currentProcess]
    dsimp only
    rw [Function.update_self, hrecord _ hne'.symm]

theorem processYield_records (hlist : k.processList ≠ 0) {e : List ℕ × Kernel}
    (h : processYield fuel k = some e) :
    ∃ w, processGetNext fuel k = some w ∧ Yielded k e.2 w.next := by
  obtain ⟨w, hw, rfl⟩ := Option.map_eq_some_iff.mp h
  obtain ⟨hne0, k₁, hk₁, hend⟩ := processGetNext_records hlist hw
  refine ⟨w, hw, ?_⟩
  dsimp only
  rw [if_neg hne0]
  have hpicked : k.runnable w.next = true ∨ w.next = k.processList :=
    hend.imp And.left And.left
  -- the state of the process returned may have changed, no other
  have hsame : SameRecords {w.next} k w.kernel ∧ (∃ st,
      w.kernel.pcb w.next = { k.pcb w.next with state := st, next := w.kernel.next w.next }) ∧
      (w.next ≠ k.processList → (w.kernel.pcb w.next).state = .ready) := by
    have hk₁' := hk₁.mono (Set.empty_subset {w.next})
    have hnext := hk₁.record w.next (Set.notMem_empty _)
    have hready : ((k₁.setState w.next .ready).pcb w.next).state = .ready :=
      (k₁.setState_state _ _ _).trans (if_pos rfl)
    rcases hend with ⟨-, heq⟩ | ⟨hlast, heq⟩
    · refine ⟨heq ▸ hk₁'.setPcb (Set.mem_singleton _) _, ⟨.ready, ?_⟩, fun _ => heq ▸ hready⟩
      rw [heq, Kernel.setState_next, Kernel.setState, Kernel.setPcb_self, hnext]
    · rw [heq]
      exact ⟨hk₁', ⟨_, hnext⟩, fun hne => absurd hlast hne⟩
  obtain ⟨hsame, hstate, hready⟩ := hsame
  split_ifs with hcur
  · rw [hsame.currentProcess] at hcur
    exact ⟨hpicked, hsame.processList, hsame.currentProcess.trans hcur.symm, hsame.systemTime,
      fun hne => absurd hcur hne, fun _ => hready, fun p hp _ => hsame.record p hp,
      fun hne => absurd hcur hne⟩
  · rw [hsame.currentProcess] at hcur
    exact yielded_processSwitch hne0 hcur hpicked hsame hstate

namespace Yielded

variable {p : ℕ}

/-- A process that is not picked keeps its state, unless it was running, and its sleep. -/
theorem other (h : Yielded k k' x) (hp : p ≠ x) (hstate : (k.pcb p).state ≠ .running) :
    (k'.pcb p).state = (k.pcb p).state ∧ (k'.pcb p).sleepUntil = (k.pcb p).sleepUntil := by
  by_cases hcur : p = k.currentProcess
  · subst hcur
    obtain ⟨esp, ebp, hleft⟩ := h.left hp.symm
    rw [hleft]
    exact ⟨if_neg hstate, rfl⟩
  · rw [h.record p hp hcur]
    exact ⟨rfl, rfl⟩

/-- A process that is picked is not blocked after, unless it is the idle process. -/
theorem not_blocked (h : Yielded k k' x) (hidle : x ≠ k.processList) :
    (k'.pcb x).state ≠ .blocked := by
  by_cases hcur : x = k.currentProcess
  · rw [h.resumed hcur hidle]
    exact fun hcon => ProcessState.noConfusion hcon
  · rw [h.running hcur]
    exact fun hcon => ProcessState.noConfusion hcon

end Yielded

/-- What cannot run is not returned, unless it is the head of the list. -/
theorem processGetNext_ne (hlist : k.processList ≠ 0) {p : ℕ} (hp : p ≠ k.processList)
    (hrun : k.runnable p = false) {w : Walk} (h : processGetNext fuel k = some w) :
    w.next ≠ p := by
  rintro rfl
  obtain ⟨-, k₁, -, ⟨hrun', -⟩ | ⟨heq, -⟩⟩ := processGetNext_records hlist h
  · rw [hrun] at hrun'
    exact Bool.noConfusion hrun'
  · exact hp heq

end Walk

/-! ### A call -/

/-- There is an idle process and a current one, as `process_init` leaves it. -/
structure Kernel.Initialised (k : Kernel) : Prop where
  list : k.processList ≠ 0
  current : k.currentProcess ≠ 0

/-- How often the call counts the timer up. -/
def ProcessOp.ticks : ProcessOp → ℕ
  | .timerTick => 1
  | _ => 0

section Call

variable {k : Kernel} {fuel p : ℕ} {op : ProcessOp} {out : Outcome}

theorem ProcessOp.before_processList (k : Kernel) (op : ProcessOp) :
    (op.before k).processList = k.processList := by
  cases op with
  | unblock p =>
    rw [ProcessOp.before, processUnblock]
    split_ifs <;> rfl
  | _ => rfl

theorem ProcessOp.before_currentProcess (k : Kernel) (op : ProcessOp) :
    (op.before k).currentProcess = k.currentProcess := by
  cases op with
  | unblock p =>
    rw [ProcessOp.before, processUnblock]
    split_ifs <;> rfl
  | _ => rfl

theorem ProcessOp.before_systemTime (k : Kernel) (op : ProcessOp) :
    (op.before k).systemTime = k.systemTime + UInt32.ofNat op.ticks := by
  cases op with
  | timerTick => rfl
  | unblock p =>
    rw [ProcessOp.before, processUnblock]
    split_ifs <;> exact (UInt32.add_zero _).symm
  | _ => exact (UInt32.add_zero _).symm

/-- A call writes the record of the current process, or of the one it is given. -/
theorem ProcessOp.before_pcb (hcur : k.currentProcess ≠ p) (hop : ¬ op.About p) :
    (op.before k).pcb p = k.pcb p := by
  cases op with
  | exit code => exact Kernel.setPcb_of_ne _ _ _ hcur.symm
  | sleep ms => exact Kernel.setPcb_of_ne _ _ _ hcur.symm
  | block q => exact Kernel.setPcb_of_ne _ _ _ (Ne.symm hop)
  | terminate q => exact Kernel.setPcb_of_ne _ _ _ (Ne.symm hop)
  | unblock q =>
    rw [ProcessOp.before, processUnblock]
    split_ifs
    · exact Kernel.setPcb_of_ne _ _ _ (Ne.symm hop)
    · rfl
  | _ => rfl

/-- A call that does not yield. Given a null pointer it does nothing. -/
theorem processOp_quiet (hcreates : op.creates = false) (hop : op.yields k = false)
    (h : processOp fuel k op = some out) :
    out.kernel = op.before k ∨ (op.About 0 ∧ out.kernel = k) := by
  by_cases habout : op.About 0
  · refine Or.inr ⟨habout, ?_⟩
    cases op with
    | block q =>
      obtain rfl : q = 0 := habout
      rw [← Option.some_inj.mp h]
      rfl
    | terminate q =>
      obtain rfl : q = 0 := habout
      rw [← Option.some_inj.mp h]
      rfl
    | unblock q =>
      obtain rfl : q = 0 := habout
      rw [← Option.some_inj.mp h]
      rfl
    | _ => exact habout.elim
  · rw [processOp_still hcreates habout hop] at h
    exact Or.inl (by rw [← Option.some_inj.mp h])

/-- A process that a creation has made is ready. -/
theorem processOp_created (hcreates : op.creates = true) (hp : p ≠ 0)
    (hproc : (pmmAllocBlock k.mem.pmm).1 = p) (h : processOp fuel k op = some out) :
    (out.kernel.pcb p).state = .ready := by
  cases op with
  | create name entry arg priority =>
    obtain ⟨e, he, rfl⟩ := Option.map_eq_some_iff.mp h
    have hready := (processCreate_records he).2 (hproc ▸ hp)
    rwa [hproc] at hready
  | _ => cases hcreates

/-- What holds of a process that a call leaves alone: it is not current, and its record is the
same but for its link. -/
structure Untouched (k k' : Kernel) (p : ℕ) : Prop where
  initialised : k'.Initialised
  processList : k'.processList = k.processList
  not_current : k'.currentProcess ≠ p
  record : k'.pcb p = { k.pcb p with next := k'.next p }

/-- A process that is not current, and that a call neither writes nor gives its record away nor
picks, is left alone. -/
theorem processOp_untouched (hinit : k.Initialised) (hcur : k.currentProcess ≠ p)
    (hbefore : (op.before k).pcb p = k.pcb p)
    (hcreates : op.creates = true → (pmmAllocBlock k.mem.pmm).1 ≠ p)
    (hpick : op.yields k = true → ∀ w, processGetNext fuel (op.before k) = some w → w.next ≠ p)
    (h : processOp fuel k op = some out) :
    Untouched k out.kernel p ∧
      out.kernel.systemTime = k.systemTime + UInt32.ofNat op.ticks := by
  by_cases hop : op.yields k = true
  · rw [processOp_yields hinit.current hop] at h
    obtain ⟨e, he, rfl⟩ := Option.map_eq_some_iff.mp h
    have hlist : (op.before k).processList ≠ 0 := op.before_processList k ▸ hinit.list
    obtain ⟨w, hw, hyield⟩ := processYield_records hlist he
    have hne := hpick hop w hw
    have hrecord := hyield.record p hne.symm (op.before_currentProcess k ▸ hcur.symm)
    rw [hbefore] at hrecord
    exact ⟨⟨⟨hyield.processList ▸ hlist, hyield.currentProcess ▸
      (processGetNext_records hlist hw).ne_zero⟩,
      hyield.processList.trans (op.before_processList k), hyield.currentProcess ▸ hne, hrecord⟩,
      hyield.systemTime.trans (op.before_systemTime k)⟩
  · rw [Bool.not_eq_true] at hop
    cases hnew : op.creates with
    | true =>
      cases op with
      | create name entry arg priority =>
        obtain ⟨e, he, rfl⟩ := Option.map_eq_some_iff.mp h
        obtain ⟨hsame, -⟩ := processCreate_records he
        exact ⟨⟨⟨hsame.processList ▸ hinit.list, hsame.currentProcess ▸ hinit.current⟩,
          hsame.processList, hsame.currentProcess ▸ hcur,
          hsame.record p (Ne.symm (hcreates rfl))⟩,
          hsame.systemTime.trans (UInt32.add_zero _).symm⟩
      | _ => cases hnew
    | false =>
      rcases processOp_quiet hnew hop h with heq | ⟨habout, heq⟩
      · have hlist := op.before_processList k
        have hcurrent := op.before_currentProcess k
        rw [heq]
        refine ⟨⟨⟨hlist ▸ hinit.list, hcurrent ▸ hinit.current⟩, hlist, hcurrent ▸ hcur, ?_⟩,
          op.before_systemTime k⟩
        rw [Kernel.next, hbefore]
      · have hticks : op.ticks = 0 := by
          cases op with
          | timerTick => exact habout.elim
          | _ => rfl
        rw [heq, hticks]
        exact ⟨⟨hinit, rfl, hcur, rfl⟩, (UInt32.add_zero _).symm⟩

/-- A current process that yields and is not picked is left. -/
theorem processOp_left (hinit : k.Initialised) (hop : op.yields k = true)
    (hpick : ∀ w, processGetNext fuel (op.before k) = some w → w.next ≠ k.currentProcess)
    (hstate : ((op.before k).pcb k.currentProcess).state ≠ .running)
    (h : processOp fuel k op = some out) :
    out.kernel.Initialised ∧ out.kernel.processList = k.processList ∧
      out.kernel.currentProcess ≠ k.currentProcess ∧
      out.kernel.systemTime = k.systemTime + UInt32.ofNat op.ticks ∧
      ∃ esp ebp, out.kernel.pcb k.currentProcess =
        { (op.before k).pcb k.currentProcess with
          next := out.kernel.next k.currentProcess
          esp := esp
          ebp := ebp } := by
  rw [processOp_yields hinit.current hop] at h
  obtain ⟨e, he, rfl⟩ := Option.map_eq_some_iff.mp h
  have hlist : (op.before k).processList ≠ 0 := op.before_processList k ▸ hinit.list
  obtain ⟨w, hw, hyield⟩ := processYield_records hlist he
  have hne := hpick w hw
  obtain ⟨esp, ebp, hleft⟩ := hyield.left (op.before_currentProcess k ▸ hne)
  rw [op.before_currentProcess k, if_neg hstate] at hleft
  exact ⟨⟨hyield.processList ▸ hlist, hyield.currentProcess ▸
    (processGetNext_records hlist hw).ne_zero⟩,
    hyield.processList.trans (op.before_processList k), hyield.currentProcess ▸ hne,
    hyield.systemTime.trans (op.before_systemTime k), esp, ebp, hleft⟩

end Call

end Rexus
