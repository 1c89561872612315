import Rexus.Proc.SchedRun

/-!
# Which process is selected

What `process_get_next` of `proc/process.c` does, said by the list alone: with the current process
between `pre` and `post`, the processes after it in cyclic order are those of `post ++ pre`. The
idle process is the first of the list, and ready if it is not current, so that the walk goes no
further than it.

## Main results

* `processGetNext_selects` — a walk that returns selects the first that can run

## Conventions

What the walk does is said by the list before it, `Listed`, and by two tests of a record: whether
the walk stops at it, and whether it reaps it. The time is that of the kernel, and a sleeper is
tested by the plain comparison of the source; what this means for a sleep is in `Rexus.Proc.Sleep`.

`Selects` has all that a walk does: the process it has found and made ready, those it has taken out
and freed, the list that is left in its old order, and that nothing else of the records or the
memory is different. It is said of every well-formed state, not only of those that a run reaches;
and of a walk that returns, with any fuel.
-/

namespace Rexus

open Linked

/-- What a walk that returns has done, the others being in this order after the current process:
it has found the first that can run, and made it ready, or the idle process if there is none; it
has taken out the terminated ones before that; and no other record has changed, but for its link. -/
structure Selects (k : Kernel) (live order : List ℕ) (w : Walk) : Prop where
  next : w.next = (order.find? k.runnable).getD k.processList
  reaped : w.reaped = (order.takeWhile (!k.runnable ·)).filter k.dead
  seg : Seg w.kernel.next w.kernel.processList
    ((k.processList :: live).filter (· ∉ w.reaped)) 0
  record : ∀ x, w.kernel.pcb x =
    if order.find? k.runnable = some x then
      { k.pcb x with state := .ready, next := w.kernel.next x }
    else { k.pcb x with next := w.kernel.next x }
  processList : w.kernel.processList = k.processList
  currentProcess : w.kernel.currentProcess = k.currentProcess

section

variable {k : Kernel} {live pre post : List ℕ} {fuel : ℕ}

/-- Behind the end of the list nothing is passed: the idle process is ready, or it is current and
there is nothing there. -/
theorem WellFormed.head_runnable (h : WellFormed k live)
    (hsplit : k.processList :: live = pre ++ k.currentProcess :: post) :
    ∀ x ∈ pre.head?, x = k.processList ∧ k.runnable x = true := by
  intro x hx
  obtain ⟨rest, rfl⟩ := List.head?_eq_some_iff.mp hx
  obtain ⟨hlist, hlive⟩ := List.cons_eq_cons.mp hsplit
  refine ⟨hlist.symm, hlist ▸ h.states.runnable_idle.mpr fun hcur => ?_⟩
  have hnodup := h.nodup
  rw [List.nodup_cons, hlive, ← hcur] at hnodup
  exact hnodup.1 (List.mem_append_right rest List.mem_cons_self)

theorem WellFormed.find?_order (h : WellFormed k live)
    (hsplit : k.processList :: live = pre ++ k.currentProcess :: post) :
    ((post ++ pre).find? k.runnable).getD k.processList = (k.ahead post).headD k.processList := by
  have hpost : post.find? k.runnable = (k.ahead post).head? :=
    post.find?_eq_head?_dropWhile_not k.runnable
  rw [List.find?_append, hpost]
  cases hahead : k.ahead post with
  | cons x rest => rfl
  | nil =>
    cases pre with
    | nil => rfl
    | cons x rest =>
      obtain ⟨rfl, hrun⟩ := h.head_runnable hsplit x rfl
      rw [List.find?_cons_of_pos hrun]
      rfl

theorem WellFormed.takeWhile_order (h : WellFormed k live)
    (hsplit : k.processList :: live = pre ++ k.currentProcess :: post) :
    (post ++ pre).takeWhile (!k.runnable ·) = k.passed post := by
  have hpre : pre.takeWhile (!k.runnable ·) = [] := by
    cases pre with
    | nil => rfl
    | cons x rest =>
      obtain ⟨-, hrun⟩ := h.head_runnable hsplit x rfl
      rw [List.takeWhile_cons_of_neg]
      simp [hrun]
  rw [List.takeWhile_append, hpre, List.append_nil, Kernel.passed]
  split_ifs with hall
  · exact (List.takeWhile_prefix _).eq_of_length hall |>.symm
  · rfl

theorem WellFormed.after_of_split (h : WellFormed k live)
    (hsplit : k.processList :: live = pre ++ k.currentProcess :: post) : k.after live = post := by
  have hpre : ∀ x ∈ pre, (decide (x ≠ k.currentProcess)) = true := by
    intro x hx
    have hnodup := h.nodup
    rw [hsplit] at hnodup
    exact decide_eq_true ((List.nodup_append.mp hnodup).2.2 x hx _ List.mem_cons_self)
  rw [Kernel.after, hsplit, List.dropWhile_append_of_pos hpre,
    List.dropWhile_cons_of_neg (by simp), List.tail_cons]

theorem WellFormed.pick_mem (h : WellFormed k live) : k.pick live ∈ k.processList :: live := by
  obtain ⟨pre, hsplit⟩ := Kernel.after_split h.current
  rw [Kernel.pick]
  cases hahead : k.ahead (k.after live) with
  | nil => exact List.mem_cons_self
  | cons x rest =>
    have hx : x ∈ k.after live := Kernel.ahead_subset (hahead ▸ List.mem_cons_self)
    rw [hsplit]
    exact List.mem_append_right pre (List.mem_cons_of_mem _ hx)

/-- The first that can run is the one the walk makes ready, if it makes any. -/
theorem WellFormed.find?_eq_some_iff (h : WellFormed k live)
    (hsplit : k.processList :: live = pre ++ k.currentProcess :: post) (x : ℕ) :
    (post ++ pre).find? k.runnable = some x ↔ x = k.pick live ∧ k.pick live ≠ k.currentProcess := by
  have hnext := h.find?_order hsplit
  rw [← h.after_of_split hsplit] at hnext ⊢
  constructor
  · intro hfind
    have hx : x = k.pick live := by rwa [hfind, Option.getD_some] at hnext
    have hrun : k.runnable (k.pick live) = true := hx ▸ List.find?_some hfind
    exact ⟨hx, h.runnable_pick hrun⟩
  · rintro ⟨rfl, hne⟩
    have hrun : k.runnable (k.pick live) = true := by
      by_contra hrun
      obtain ⟨-, hpick, hcur⟩ := h.of_not_runnable_pick hrun
      exact hne (hpick.trans hcur.symm)
    cases hfind : (k.after live ++ pre).find? k.runnable with
    | some y => rw [hfind, Option.getD_some] at hnext; exact congrArg some hnext
    | none =>
      have hmem : k.pick live ∈ pre ++ k.currentProcess :: k.after live :=
        h.after_of_split hsplit ▸ hsplit ▸ h.pick_mem
      refine absurd hrun (List.find?_eq_none.mp hfind _ ?_)
      simpa [hne, or_comm] using hmem

/-- **A walk that returns** selects the first process in cyclic order after the current one that can
run, or the idle process if there is none. -/
theorem processGetNext_selects (h : WellFormed k live)
    (hsplit : k.processList :: live = pre ++ k.currentProcess :: post) {w : Walk}
    (hw : processGetNext fuel k = some w) : Selects k live (post ++ pre) w := by
  have hafter := h.after_of_split hsplit
  have hstuck : ¬ Stuck k live := fun hstuck => by
    rw [processGetNext_of_stuck h hstuck] at hw
    cases hw
  obtain ⟨k₁, k₂, fuel', hk₁, hw', hend⟩ := processGetNext_returns h hstuck (hafter.symm ▸ hsplit)
  obtain rfl := processGetNext_unique hw hw'
  have hlist := (h.listed hsplit).filter_reaps hsplit
  rw [hafter] at hk₁
  rw [← hlist] at hk₁
  -- only the state of the process found differs from what the walk has left
  have hkernel : k₂.next = k₁.next ∧ k₂.processList = k.processList ∧
      k₂.currentProcess = k.currentProcess ∧ ∀ x, k₂.pcb x =
        if (post ++ pre).find? k.runnable = some x then { k₁.pcb x with state := .ready }
        else k₁.pcb x := by
    rcases hend with ⟨-, hne, rfl⟩ | ⟨hpick, hcur, rfl⟩
    · refine ⟨Kernel.setState_next .., hk₁.processList, hk₁.currentProcess, fun x => ?_⟩
      simp only [h.find?_eq_some_iff hsplit, hne, ne_eq, not_false_eq_true, and_true]
      split_ifs with hx
      · subst hx
        exact Kernel.setPcb_self ..
      · exact Kernel.setPcb_of_ne _ _ _ hx
    · refine ⟨rfl, hk₁.processList, hk₁.currentProcess, fun x => ?_⟩
      rw [if_neg]
      rw [h.find?_eq_some_iff hsplit]
      exact fun hx => hx.2 (hpick.trans hcur.symm)
  obtain ⟨hnext, hhead, hcurrent, hrecord⟩ := hkernel
  refine ⟨?_, ?_, ?_, fun x => ?_, hhead, hcurrent⟩
  · rw [h.find?_order hsplit, ← hafter]
    rfl
  · rw [h.takeWhile_order hsplit, hafter]
    rfl
  · show Seg k₂.next k₂.processList _ 0
    have hidle : k.processList ∉ k.reaps post := fun hmem =>
      (h.listed hsplit).list_notMem (Kernel.reaps_subset hmem)
    have hfilter : (k.processList :: live).filter (· ∉ k.reaps post) =
        k.processList :: live.filter (· ∉ k.reaps post) :=
      List.filter_cons_of_pos (decide_eq_true hidle)
    rw [hnext, hhead, hafter]
    exact hfilter.symm ▸ hk₁.seg
  · show k₂.pcb x = _
    rw [hrecord, hk₁.pcb, hnext]

end

/-! ### Three processes -/

/-- The idle process at 4096 is current; the one after it has slept until 3, and the last is
terminated. -/
def sleeperKernel : Kernel :=
  { smallKernel 7#32 3 0#32 with
    pcb := fun p =>
      if p = 4096 then { Process.zero with state := .running, next := 8192 }
      else if p = 8192 then { Process.zero with state := .blocked, sleepUntil := 3, next := 12288 }
      else { Process.zero with state := .terminated }
    processList := 4096
    currentProcess := 4096
    systemTime := 5 }

theorem sleeperKernel_wellFormed : WellFormed sleeperKernel [8192, 12288] := by
  refine ⟨⟨rfl, rfl, rfl, rfl⟩, by decide, by decide, List.mem_cons_self, ?_⟩
  exact ⟨fun _ => rfl, by decide, fun hne => absurd rfl hne⟩

/-- The sleeper is selected. -/
theorem processGetNext_selects_sleeper : ∃ w, processGetNext 3 sleeperKernel = some w ∧
    Selects sleeperKernel [8192, 12288] [8192, 12288] w := by
  have hsplit : sleeperKernel.processList :: [8192, 12288] =
      [] ++ sleeperKernel.currentProcess :: [8192, 12288] := rfl
  obtain ⟨w, hw⟩ : ∃ w, processGetNext 3 sleeperKernel = some w := ⟨_, rfl⟩
  exact ⟨w, hw, processGetNext_selects sleeperKernel_wellFormed hsplit hw⟩

end Rexus
