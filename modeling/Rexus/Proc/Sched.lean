import Rexus.Proc.Owned

/-!
# The scheduler keeps the list

The operations that end in `process_yield`. Before the walk they change the state of one process,
or the time; then the walk reaps what it passes, and the kernel switches to where it has ended. The
invariant is in two halves: `ListInv` for the list and what its processes own, which holds
throughout, and `StatesOk` for the states, which the change before the walk may break for the
current process alone.

## Main results

* `processSwitch_spec` — what a switch changes
* `processGetNext_returns_iff` — when the walk returns
* `processYield_spec` — a yield that returns keeps the invariant, and what it reaps

## Conventions

The current process is running and no other is, between two calls; within a call that yields, the
current process may be in any state before the walk. The idle process is ready whenever it is not
current, which is why a walk that finds nothing else ends at it. `Stuck` is the state in which a
walk does not end, and it is said of the state alone: the idle process is current, the one behind it
is terminated, and none can run.

A walk that returns has done so with some fuel, and then with all that is greater. Between the walk
and the switch nothing happens, since a call is one step.
-/

namespace Rexus

open Linked Loop Mem Pmm

/-! ### The switch -/

/-- `k'` is `k` after a switch to `next`: the two processes have their new states, the directory of
`next` is loaded if that of the other was, and no process owns anything else than before. -/
structure Switched (k k' : Kernel) (next : ℕ) : Prop where
  pmm : k'.mem.pmm = k.mem.pmm
  ram : k'.mem.ram = k.mem.ram
  currentDirectory : k.mem.currentDirectory = (k.pcb k.currentProcess).pageDirectory →
    k'.mem.currentDirectory = (k.pcb next).pageDirectory
  processList : k'.processList = k.processList
  currentProcess : k'.currentProcess = next
  state_next : (k'.pcb next).state = .running
  state_prev : (k'.pcb k.currentProcess).state =
    if (k.pcb k.currentProcess).state = .running then .ready
    else (k.pcb k.currentProcess).state
  state_other : ∀ x, x ≠ next → x ≠ k.currentProcess → (k'.pcb x).state = (k.pcb x).state
  owner : ∀ x, SameOwner (k.pcb x) (k'.pcb x)
  next_eq : k'.next = k.next

theorem Kernel.preempt_eq (k : Kernel) (p : ℕ) :
    k.preempt p =
      k.setState p (if (k.pcb p).state = .running then .ready else (k.pcb p).state) := by
  rw [Kernel.preempt]
  split_ifs
  · rfl
  · exact (Kernel.setState_self rfl).symm

theorem Kernel.switchDirectory_eq (k : Kernel) (prev next : ℕ) :
    ∃ d, k.switchDirectory prev next = { k with mem := { k.mem with currentDirectory := d } } ∧
      ((k.pcb next).pageDirectory ≠ 0 → k.mem.currentDirectory = (k.pcb prev).pageDirectory →
        d = (k.pcb next).pageDirectory) := by
  rw [Kernel.switchDirectory]
  split_ifs with h
  · exact ⟨k.mem.currentDirectory, rfl, fun _ hd => hd.trans h⟩
  · by_cases h0 : (k.pcb next).pageDirectory = 0
    · exact ⟨k.mem.currentDirectory, by rw [vmmSwitchPageDirectory, if_pos h0],
        fun hd => absurd h0 hd⟩
    · exact ⟨_, by rw [vmmSwitchPageDirectory, if_neg h0], fun _ _ => rfl⟩

section Switch

variable {k : Kernel} {next : ℕ}

/-- What a switch does, in one step. -/
theorem processSwitch_eq (hnext : next ≠ 0) (hne : next ≠ k.currentProcess) :
    ∃ d, ((k.pcb next).pageDirectory ≠ 0 →
        k.mem.currentDirectory = (k.pcb k.currentProcess).pageDirectory →
        d = (k.pcb next).pageDirectory) ∧
      processSwitch k next =
        { k with
          mem := { k.mem with currentDirectory := d }
          pcb := Function.update
            (Function.update k.pcb next { k.pcb next with state := .running }) k.currentProcess
            { k.pcb k.currentProcess with
              state := if (k.pcb k.currentProcess).state = .running then .ready
                else (k.pcb k.currentProcess).state
              esp := k.esp
              ebp := k.ebp }
          currentProcess := next
          esp := (k.pcb next).esp
          ebp := (k.pcb next).ebp
          tssEsp0 := (k.pcb next).esp } := by
  rw [processSwitch, if_neg hnext]
  dsimp only
  rw [Kernel.preempt_eq]
  obtain ⟨d, hd, hdir⟩ := Kernel.switchDirectory_eq
    (({ k.setState k.currentProcess (if (k.pcb k.currentProcess).state = .running then .ready
      else (k.pcb k.currentProcess).state) with currentProcess := next } : Kernel).setState next
        .running) k.currentProcess next
  rw [hd]
  refine ⟨d, ?_, ?_⟩
  · simpa [Kernel.setState, Kernel.setPcb, hne, hne.symm] using hdir
  · simp only [Kernel.switchStack, Kernel.setState, Kernel.setPcb, Function.update_self,
      Function.update_of_ne hne, Function.update_of_ne hne.symm]
    rw [Function.update_comm hne.symm, Function.update_idem]

theorem processSwitch_spec (hnext : next ≠ 0) (hne : next ≠ k.currentProcess)
    (hdir : (k.pcb next).pageDirectory ≠ 0) : Switched k (processSwitch k next) next := by
  obtain ⟨d, hd, heq⟩ := processSwitch_eq hnext hne
  rw [heq]
  have hcases : ∀ x, x = k.currentProcess ∨ (x = next ∧ x ≠ k.currentProcess) ∨
      (x ≠ next ∧ x ≠ k.currentProcess) := by
    intro x
    by_cases h : x = k.currentProcess
    · exact Or.inl h
    · exact Or.inr ((em (x = next)).imp (fun h' => ⟨h', h⟩) fun h' => ⟨h', h⟩)
  refine ⟨rfl, rfl, hd hdir, rfl, rfl, by simp [hne], by simp, fun x hx hx' => by simp [hx, hx'],
    fun x => ?_, funext fun x => ?_⟩
  · rcases hcases x with rfl | ⟨rfl, h⟩ | ⟨h, h'⟩
    · constructor <;> simp
    · constructor <;> simp [h]
    · constructor <;> simp [h, h']
  · rcases hcases x with rfl | ⟨rfl, h⟩ | ⟨h, h'⟩
    · simp [Kernel.next]
    · simp [Kernel.next, h]
    · simp [Kernel.next, h, h']

end Switch

/-! ### The states -/

/-- The current process runs and no other does; the idle process is ready unless it is current. -/
structure StatesOk (k : Kernel) (live : List ℕ) : Prop where
  current : (k.pcb k.currentProcess).state = .running
  others : ∀ p ∈ k.processList :: live, p ≠ k.currentProcess → (k.pcb p).state ≠ .running
  idle : k.currentProcess ≠ k.processList → (k.pcb k.processList).state = .ready

/-- What holds of the states as `process_yield` is called: as before, but that a created process
which is current may be in any state. -/
structure YieldOk (k : Kernel) (live : List ℕ) : Prop where
  current : k.currentProcess = k.processList → (k.pcb k.currentProcess).state = .running
  others : ∀ p ∈ k.processList :: live, p ≠ k.currentProcess → (k.pcb p).state ≠ .running
  idle : k.currentProcess ≠ k.processList → (k.pcb k.processList).state = .ready

theorem StatesOk.yieldOk {k : Kernel} {live : List ℕ} (h : StatesOk k live) : YieldOk k live :=
  ⟨fun _ => h.current, h.others, h.idle⟩

/-- The current process is in the list, and its directory is the current one. -/
structure CurrentOk (k : Kernel) (live : List ℕ) : Prop where
  mem : k.currentProcess ∈ k.processList :: live
  directory : k.mem.currentDirectory = (k.pcb k.currentProcess).pageDirectory

/-- The whole invariant: what the processes of the list own, which of them is current, and what
states they are in. Of records that are not in the list it says nothing. -/
structure SchedInv (base : Finset ℕ) (k : Kernel) (live : List ℕ) : Prop where
  list : ListInv base k live
  current : CurrentOk k live
  states : StatesOk k live

/-! ### The walk and the invariant -/

/-- The processes after the current one. -/
def Kernel.after (k : Kernel) (live : List ℕ) : List ℕ :=
  ((k.processList :: live).dropWhile (· ≠ k.currentProcess)).tail

/-- The first of them that can run, or the head of the list. -/
def Kernel.pick (k : Kernel) (live : List ℕ) : ℕ := (k.ahead (k.after live)).headD k.processList

/-- What the walk relies on: a list of records, with the current process in it, and their states. -/
structure WellFormed (k : Kernel) (live : List ℕ) : Prop where
  seg : Seg k.next k.processList (k.processList :: live) 0
  nodup : (k.processList :: live).Nodup
  ne_zero : 0 ∉ k.processList :: live
  current : k.currentProcess ∈ k.processList :: live
  states : YieldOk k live

section Walk

variable {base : Finset ℕ} {k k' : Kernel} {live pre post : List ℕ}

theorem Kernel.after_split (h : k.currentProcess ∈ k.processList :: live) :
    ∃ pre, k.processList :: live = pre ++ k.currentProcess :: k.after live := by
  obtain ⟨pre, post, hsplit, hpre⟩ := List.eq_append_cons_of_mem h
  refine ⟨pre, ?_⟩
  rw [Kernel.after, hsplit, List.dropWhile_append_of_pos, List.dropWhile_cons_of_neg (by simp),
    List.tail_cons]
  intro x hx
  rw [decide_eq_true_eq]
  rintro rfl
  exact hpre hx

theorem CurrentOk.split (h : CurrentOk k live) :
    ∃ pre, k.processList :: live = pre ++ k.currentProcess :: k.after live :=
  Kernel.after_split h.mem

theorem ListInv.listed (h : ListInv base k live)
    (hsplit : k.processList :: live = pre ++ k.currentProcess :: post) : Listed k pre post :=
  ⟨hsplit ▸ h.seg, hsplit ▸ h.nodup, hsplit ▸ h.ne_zero⟩

/-- The list without what the walk has reaped. -/
theorem Listed.filter_reaps (h : Listed k pre post)
    (hsplit : k.processList :: live = pre ++ k.currentProcess :: post) :
    k.processList :: live.filter (· ∉ k.reaps post) = pre ++ k.currentProcess :: k.keeps post := by
  obtain ⟨-, hnodup, hdis⟩ := List.nodup_append.mp h.nodup
  rw [List.nodup_cons] at hnodup
  have hreaps : ∀ x, x ∉ post → x ∉ k.reaps post := fun x hx hmem => hx (Kernel.reaps_subset hmem)
  have hpre : pre.filter (· ∉ k.reaps post) = pre := by
    rw [List.filter_eq_self]
    intro x hx
    rw [decide_eq_true_eq]
    exact hreaps x fun hmem => hdis x hx x (List.mem_cons_of_mem _ hmem) rfl
  have hpost : post.filter (· ∉ k.reaps post) = k.keeps post := by
    have hsplit := Kernel.passed_append_ahead k post
    have hnodup' := hnodup.2
    rw [← hsplit] at hnodup'
    obtain ⟨-, -, hdis'⟩ := List.nodup_append.mp hnodup'
    have hfilter : post.filter (· ∉ k.reaps post) =
        (k.passed post ++ k.ahead post).filter (· ∉ k.reaps post) := by rw [hsplit]
    rw [hfilter, List.filter_append, Kernel.keeps]
    congr 1
    · refine List.filter_congr fun x hx => ?_
      simp [Kernel.reaps, hx]
    · rw [List.filter_eq_self]
      intro x hx
      rw [decide_eq_true_eq]
      exact fun hmem => hdis' x (List.mem_of_mem_filter hmem) x hx rfl
  have hlist := List.filter_cons_of_pos (p := (· ∉ k.reaps post)) (l := live)
    (decide_eq_true (hreaps _ h.list_notMem))
  have hcurrent := List.filter_cons_of_pos (p := (· ∉ k.reaps post)) (l := post)
    (decide_eq_true (hreaps _ hnodup.1))
  rw [← hlist, hsplit, List.filter_append, hpre, hcurrent, hpost]

theorem ListInv.disjoint_of_ne (h : ListInv base k live) {p q : ℕ} (hp : p ∈ live) (hq : q ∈ live)
    (hne : p ≠ q) : Disjoint (k.owned p) (k.owned q) := by
  have : Std.Symm fun p q => Disjoint (k.owned p) (k.owned q) := ⟨fun _ _ h => h.symm⟩
  exact h.disjoint.forall hp hq hne

/-- Reaping processes of the list. -/
theorem ListInv.gives (h : ListInv base k live) {rs : List ℕ} (hsub : rs.Sublist live)
    (hno : ∀ p ∈ rs, NoKernel k.mem (k.pcb p).pageDirectory) :
    Gives k.mem.pmm (rs.foldl k.freeProcess k.mem.pmm) (k.ownedBy rs) :=
  gives_freeProcesses (fun p hp => h.proc p (hsub.subset hp)) hno (h.disjoint.sublist hsub)
    fun p hp => h.owned_used p (hsub.subset hp)

theorem Unlinked.mem {ys rs : List ℕ} (h : Unlinked k k' ys rs) :
    k'.mem = { k.mem with pmm := rs.foldl k.freeProcess k.mem.pmm } := by
  rw [h.kernel]
  rfl

/-- The walk keeps the invariant of the list. -/
theorem ListInv.unlinked (h : ListInv base k live) {ys rs : List ℕ} (hk' : Unlinked k k' ys rs)
    (hsub : rs.Sublist live) (hys : ys = k.processList :: live.filter (· ∉ rs))
    (hno : ∀ p ∈ rs, NoKernel k.mem (k.pcb p).pageDirectory) :
    ListInv base k' (live.filter (· ∉ rs)) := by
  have hgives := h.gives hsub hno
  refine h.transfer hk'.processList (hys ▸ hk'.seg) List.filter_sublist
    (fun x _ => by rw [hk'.pcb]; exact ⟨rfl, rfl, rfl⟩)
    ⟨∅, Finset.disjoint_empty_right _, by rw [hk'.mem]; exact fun _ _ => rfl⟩ ?_ fun p hp => ?_
  · rw [hk'.mem, hgives.usedSet]
    refine Finset.subset_sdiff.mpr ⟨h.base_used, ?_⟩
    rw [Kernel.ownedBy, Finset.disjoint_biUnion_right]
    exact fun q hq => h.owned_base q (hsub.subset (List.mem_toFinset.mp hq))
  · obtain ⟨hlive, hrs⟩ := List.mem_filter.mp hp
    rw [decide_eq_true_eq] at hrs
    rw [hk'.mem, hgives.usedSet]
    refine Finset.subset_sdiff.mpr ⟨h.owned_used p hlive, ?_⟩
    rw [Kernel.ownedBy, Finset.disjoint_biUnion_right]
    intro q hq
    have hq' := List.mem_toFinset.mp hq
    refine h.disjoint_of_ne hlive (hsub.subset hq') ?_
    rintro rfl
    exact hrs hq'

end Walk

/-! ### The yield -/

/-- What a call has reaped: terminated processes of the list, none of them the current one before or
after the call, and with each all that it owned. -/
structure ReapOk (k k' : Kernel) (live rs : List ℕ) : Prop where
  sublist : rs.Sublist live
  terminated : ∀ p ∈ rs, (k.pcb p).state = .terminated
  not_current : ∀ p ∈ rs, p ≠ k.currentProcess ∧ p ≠ k'.currentProcess
  /-- What these processes owned was in use, now it is free, and the rest is as it was. -/
  gives : Gives k.mem.pmm k'.mem.pmm (k.ownedBy rs)

section Yield

variable {base : Finset ℕ} {k k' : Kernel} {live rs pre post : List ℕ} {fuel : ℕ}

/-- A switch keeps the invariant of the list and makes the states right. -/
theorem SchedInv.of_switched (hlist : ListInv base k live)
    (hdir : k.mem.currentDirectory = (k.pcb k.currentProcess).pageDirectory) {next : ℕ}
    (hnext : next ∈ k.processList :: live) (hstates : YieldOk k live)
    (h : Switched k k' next) : SchedInv base k' live := by
  have hstate : ∀ p ∈ k.processList :: live, p ≠ next → (k'.pcb p).state ≠ .running := by
    intro p hp hpn
    by_cases hpc : p = k.currentProcess
    · subst hpc
      rw [h.state_prev]
      split_ifs with hr
      · exact fun hcon => ProcessState.noConfusion hcon
      · exact hr
    · rw [h.state_other p hpn hpc]
      exact hstates.others p hp hpc
  refine ⟨hlist.transfer h.processList (h.next_eq ▸ hlist.seg) (List.Sublist.refl _)
    (fun x _ => h.owner x) ⟨∅, Finset.disjoint_empty_right _, fun a _ => congrFun h.ram a⟩
    (h.pmm ▸ hlist.base_used) (h.pmm ▸ hlist.owned_used), ⟨?_, ?_⟩, ⟨?_, ?_, fun hidle => ?_⟩⟩
  · rwa [h.currentProcess, h.processList]
  · rw [h.currentProcess, h.currentDirectory hdir, (h.owner next).pageDirectory]
  · rw [h.currentProcess, h.state_next]
  · rw [h.currentProcess, h.processList]
    exact hstate
  · rw [h.currentProcess, h.processList] at hidle
    rw [h.processList]
    by_cases hcur : k.processList = k.currentProcess
    · rw [hcur, h.state_prev, if_pos (hstates.current hcur.symm)]
    · rw [h.state_other _ hidle.symm hcur]
      exact hstates.idle (Ne.symm hcur)

/-- A new record for a process that owns what it owned. -/
theorem ListInv.setPcb (h : ListInv base k live) {p : ℕ} {q : Process}
    (hq : SameOwner (k.pcb p) q) (hnext : q.next = (k.pcb p).next) :
    ListInv base (k.setPcb p q) live := by
  have hnext' : (k.setPcb p q).next = k.next := by
    funext x
    by_cases hx : x = p
    · subst hx
      simp [Kernel.next, hnext]
    · simp [Kernel.next, hx, Kernel.setPcb_of_ne]
  refine h.transfer rfl (hnext' ▸ h.seg) (List.Sublist.refl _) (fun x _ => ?_)
    ⟨∅, Finset.disjoint_empty_right _, fun _ _ => rfl⟩ h.base_used h.owned_used
  by_cases hx : x = p
  · subst hx
    rwa [Kernel.setPcb_self]
  · rw [Kernel.setPcb_of_ne _ _ _ hx]
    exact SameOwner.refl _

theorem Kernel.setState_state (k : Kernel) (p x : ℕ) (st : ProcessState) :
    ((k.setState p st).pcb x).state = if x = p then st else (k.pcb x).state := by
  split_ifs with hx
  · subst hx
    simp [Kernel.setState]
  · rw [Kernel.setState, Kernel.setPcb_of_ne _ _ _ hx]

theorem CurrentOk.after_sublist (h : CurrentOk k live) : (k.after live).Sublist live := by
  obtain ⟨pre, hsplit⟩ := h.split
  cases pre with
  | nil =>
    obtain ⟨-, hlive⟩ := List.cons_eq_cons.mp hsplit
    exact hlive ▸ List.Sublist.refl _
  | cons x pre =>
    have hlive : live = pre ++ k.currentProcess :: k.after live := (List.cons_eq_cons.mp hsplit).2
    have hsub : (k.after live).Sublist (pre ++ k.currentProcess :: k.after live) :=
      (List.sublist_cons_self _ _).trans (List.sublist_append_right _ _)
    rwa [← hlive] at hsub

theorem CurrentOk.reaps_sublist (h : CurrentOk k live) :
    (k.reaps (k.after live)).Sublist live :=
  (List.filter_sublist.trans (List.takeWhile_sublist _)).trans h.after_sublist

theorem YieldOk.runnable_idle (h : YieldOk k live) :
    k.runnable k.processList = true ↔ k.currentProcess ≠ k.processList := by
  rw [Kernel.runnable, decide_eq_true_eq]
  constructor
  · intro hrun hcur
    have hstate := h.current hcur
    rw [hcur] at hstate
    rcases hrun with hready | ⟨hblocked, -⟩
    · rw [hstate] at hready
      exact ProcessState.noConfusion hready
    · rw [hstate] at hblocked
      exact ProcessState.noConfusion hblocked
  · exact fun hcur => Or.inl (h.idle hcur)

theorem ListInv.wellFormed (hlist : ListInv base k live) (hcur : CurrentOk k live)
    (hstates : YieldOk k live) : WellFormed k live :=
  ⟨hlist.seg, hlist.nodup, hlist.ne_zero, hcur.mem, hstates⟩

namespace WellFormed

theorem listed (h : WellFormed k live)
    (hsplit : k.processList :: live = pre ++ k.currentProcess :: post) : Listed k pre post :=
  ⟨hsplit ▸ h.seg, hsplit ▸ h.nodup, hsplit ▸ h.ne_zero⟩

theorem current_notMem_after (h : WellFormed k live) : k.currentProcess ∉ k.after live := by
  obtain ⟨pre, hsplit⟩ := Kernel.after_split h.current
  have hL := h.listed hsplit
  exact (List.nodup_cons.mp (List.nodup_append.mp hL.nodup).2.1).1

theorem pre_eq_nil (h : WellFormed k live)
    (hsplit : k.processList :: live = pre ++ k.currentProcess :: post)
    (hidle : k.currentProcess = k.processList) : pre = [] := by
  cases pre with
  | nil => rfl
  | cons x pre =>
    have hx : k.processList = x := (List.cons_eq_cons.mp hsplit).1
    have hnodup := h.nodup
    rw [hsplit, List.cons_append, List.nodup_cons] at hnodup
    refine absurd ?_ hnodup.1
    rw [← hx, hidle]
    simp

theorem after_eq (h : WellFormed k live) (hidle : k.currentProcess = k.processList) :
    k.after live = live := by
  obtain ⟨pre, hsplit⟩ := Kernel.after_split h.current
  obtain rfl := h.pre_eq_nil hsplit hidle
  exact (List.cons_eq_cons.mp hsplit).2.symm

/-- The idle process is not picked for being able to run while it is current. -/
theorem runnable_pick (h : WellFormed k live) (hrun : k.runnable (k.pick live) = true) :
    k.pick live ≠ k.currentProcess := by
  intro heq
  rw [Kernel.pick] at hrun heq
  cases hahead : k.ahead (k.after live) with
  | nil =>
    rw [hahead, List.headD_nil] at hrun heq
    exact h.states.runnable_idle.mp hrun heq.symm
  | cons x rest =>
    rw [hahead, List.headD_cons] at heq
    refine h.current_notMem_after (Kernel.ahead_subset (k := k) ?_)
    rw [hahead, heq]
    exact List.mem_cons_self

/-- If the process picked cannot run, it is the idle process, which is current, and no other can. -/
theorem of_not_runnable_pick (h : WellFormed k live) (hrun : k.runnable (k.pick live) ≠ true) :
    k.ahead live = [] ∧ k.pick live = k.processList ∧ k.currentProcess = k.processList := by
  have hahead : k.ahead (k.after live) = [] := by
    cases hahead : k.ahead (k.after live) with
    | nil => rfl
    | cons x rest =>
      rw [Kernel.pick, hahead, List.headD_cons] at hrun
      exact absurd (Kernel.runnable_of_ahead hahead) hrun
  have hpick : k.pick live = k.processList := by rw [Kernel.pick, hahead, List.headD_nil]
  rw [hpick, Ne, h.states.runnable_idle, not_not] at hrun
  rw [h.after_eq hrun] at hahead
  exact ⟨hahead, hpick, hrun⟩

end WellFormed

/-- The end of a yield: the process the walk has found is made ready, and switched to. -/
theorem SchedInv.of_found (hlist : ListInv base k live) (hcur : CurrentOk k live)
    (hstates : YieldOk k live) {r : ℕ} (hr : r ∈ k.processList :: live)
    (hne : r ≠ k.currentProcess) :
    SchedInv base (processSwitch (k.setState r .ready) r) live ∧
      (processSwitch (k.setState r .ready) r).mem.pmm = k.mem.pmm ∧
      (processSwitch (k.setState r .ready) r).currentProcess = r := by
  have hr0 : r ≠ 0 := by
    rintro rfl
    exact hlist.ne_zero hr
  have hlist' : ListInv base (k.setState r .ready) live := hlist.setPcb ⟨rfl, rfl, rfl⟩ rfl
  have hdir : ∀ x, ((k.setState r .ready).pcb x).pageDirectory = (k.pcb x).pageDirectory := by
    intro x
    by_cases hx : x = r
    · subst hx
      simp [Kernel.setState]
    · rw [Kernel.setState, Kernel.setPcb_of_ne _ _ _ hx]
  have hswitch := processSwitch_spec (k := k.setState r .ready) hr0 hne
    (by rw [hdir]; exact (hlist.srcOk hr).dir.ne_zero)
  refine ⟨SchedInv.of_switched hlist' (hcur.directory.trans (hdir _).symm) hr
    ⟨fun hidle => ?_, fun p hp hpc => ?_, fun hidle => ?_⟩ hswitch, hswitch.pmm,
    hswitch.currentProcess⟩
  · rw [Kernel.setState_state]
    exact (if_neg hne.symm).trans (hstates.current hidle)
  · rw [Kernel.setState_state]
    split_ifs
    · exact fun hcon => ProcessState.noConfusion hcon
    · exact hstates.others p hp hpc
  · rw [Kernel.setState_state]
    split_ifs
    · rfl
    · exact hstates.idle hidle

/-- `k₁` is `k` after a walk that has reaped `rs`: the invariant holds of what is left. -/
structure WalkOk (base : Finset ℕ) (k k₁ : Kernel) (live rs : List ℕ) : Prop where
  list : ListInv base k₁ (live.filter (· ∉ rs))
  current : CurrentOk k₁ (live.filter (· ∉ rs))
  states : YieldOk k₁ (live.filter (· ∉ rs))
  processList : k₁.processList = k.processList
  currentProcess : k₁.currentProcess = k.currentProcess
  gives : Gives k.mem.pmm k₁.mem.pmm (k.ownedBy rs)

theorem Unlinked.walkOk (hlist : ListInv base k live) (hcur : CurrentOk k live)
    (hstates : YieldOk k live)
    (hno : ∀ p ∈ k.reaps (k.after live), NoKernel k.mem (k.pcb p).pageDirectory)
    (hsplit : k.processList :: live = pre ++ k.currentProcess :: k.after live)
    (h : Unlinked k k' (pre ++ k.currentProcess :: k.keeps (k.after live))
      (k.reaps (k.after live))) : WalkOk base k k' live (k.reaps (k.after live)) := by
  have hfilter := (hlist.listed hsplit).filter_reaps hsplit
  have hsub := hcur.reaps_sublist
  refine ⟨hlist.unlinked h hsub hfilter.symm hno, ⟨?_, ?_⟩, ⟨?_, fun p => ?_, ?_⟩, h.processList,
    h.currentProcess, ?_⟩
  · rw [h.currentProcess, h.processList, hfilter]
    exact List.mem_append_right _ List.mem_cons_self
  · rw [h.mem, h.currentProcess, h.pcb]
    exact hcur.directory
  · rw [h.currentProcess, h.processList, h.state]
    exact hstates.current
  · rw [h.currentProcess, h.processList, h.state]
    exact fun hp => hstates.others p ((List.filter_sublist.cons_cons _).subset hp)
  · rw [h.currentProcess, h.processList, h.state]
    exact hstates.idle
  · rw [h.mem]
    exact hlist.gives hsub hno

/-- The idle process is current, the process after it is terminated, and none can run. The walk
frees the process it began at, and goes round the others for ever. -/
def Stuck (k : Kernel) (live : List ℕ) : Prop :=
  k.currentProcess = k.processList ∧ (∃ x ∈ live.head?, k.dead x = true) ∧
    ∀ x ∈ live, k.runnable x = false

theorem YieldOk.idle_passed (h : YieldOk k live) (hidle : k.currentProcess = k.processList) :
    k.runnable k.processList = false ∧ k.dead k.processList = false := by
  have hstate := h.current hidle
  rw [hidle] at hstate
  refine ⟨?_, by simp [Kernel.dead, hstate]⟩
  rw [← Bool.not_eq_true, h.runnable_idle, not_not]
  exact hidle

theorem processGetNext_of_stuck (h : WellFormed k live) (hstuck : Stuck k live) (fuel : ℕ) :
    processGetNext fuel k = none := by
  obtain ⟨hidle, ⟨x, hx, hdead⟩, hnone⟩ := hstuck
  obtain ⟨rest, rfl⟩ := List.head?_eq_some_iff.mp hx
  obtain ⟨pre, hsplit⟩ := Kernel.after_split h.current
  obtain rfl := h.pre_eq_nil hsplit hidle
  rw [h.after_eq hidle] at hsplit
  obtain ⟨hrun, halive⟩ := h.states.idle_passed hidle
  refine (h.listed hsplit).processGetNext_stuck ?_ hrun halive hdead fuel
  rw [Kernel.ahead, List.dropWhile_eq_nil_iff]
  exact fun y hy => by simp [hnone y hy]

/-- Otherwise it returns the process it is to pick: another process that can run and is still
listed, or the idle process, which is current. -/
theorem processGetNext_returns (h : WellFormed k live) (hstuck : ¬ Stuck k live)
    (hsplit : k.processList :: live = pre ++ k.currentProcess :: k.after live) :
    ∃ k₁ k₂ fuel,
      Unlinked k k₁ (pre ++ k.currentProcess :: k.keeps (k.after live)) (k.reaps (k.after live)) ∧
      processGetNext fuel k = some ⟨k.pick live, k.reaps (k.after live), k₂⟩ ∧
      ((k.pick live ∈ k.processList :: live.filter (· ∉ k.reaps (k.after live)) ∧
          k.pick live ≠ k.currentProcess ∧ k₂ = k₁.setState (k.pick live) .ready) ∨
        (k.pick live = k.processList ∧ k.currentProcess = k.processList ∧ k₂ = k₁)) := by
  have hL := h.listed hsplit
  have hfilter := hL.filter_reaps hsplit
  by_cases hrun : k.runnable (k.pick live) = true
  · obtain ⟨k₁, hk₁, fuel, hw⟩ := hL.processGetNext_of_runnable hrun
    refine ⟨k₁, _, fuel, hk₁, hw, Or.inl ⟨?_, h.runnable_pick hrun, rfl⟩⟩
    rw [Kernel.pick]
    cases hahead : k.ahead (k.after live) with
    | nil => exact List.mem_cons_self
    | cons x rest =>
      rw [List.headD_cons, hfilter, Kernel.keeps, hahead]
      simp
  · obtain ⟨hahead, hpick, hidle⟩ := h.of_not_runnable_pick hrun
    obtain rfl := h.pre_eq_nil hsplit hidle
    obtain ⟨hidleRun, halive⟩ := h.states.idle_passed hidle
    have hfirst : ∀ x ∈ (k.after live).head?, k.dead x = false := by
      intro x hx
      by_contra hdead
      rw [Bool.not_eq_false] at hdead
      rw [h.after_eq hidle] at hx
      refine hstuck ⟨hidle, ⟨x, hx, hdead⟩, fun y hy => ?_⟩
      rw [Kernel.ahead, List.dropWhile_eq_nil_iff] at hahead
      simpa using hahead y hy
    rw [← h.after_eq hidle] at hahead
    obtain ⟨k₁, hk₁, fuel, hw⟩ := hL.processGetNext_of_wrap hahead hidleRun halive hfirst
    exact ⟨k₁, k₁, fuel, hk₁, hpick ▸ hw, Or.inr ⟨hpick, hidle, rfl⟩⟩

/-- A walk that returns, returns the process it is to pick. -/
theorem WellFormed.processGetNext_next (h : WellFormed k live) {w : Walk}
    (hw : processGetNext fuel k = some w) : w.next = k.pick live := by
  obtain ⟨pre, hsplit⟩ := Kernel.after_split h.current
  have hstuck : ¬ Stuck k live := fun hstuck => by
    rw [processGetNext_of_stuck h hstuck] at hw
    cases hw
  obtain ⟨k₁, k₂, fuel', -, hw', -⟩ := processGetNext_returns h hstuck hsplit
  exact congrArg Walk.next (processGetNext_unique hw hw')

/-- **When the walk returns.** -/
theorem processGetNext_returns_iff (hlist : ListInv base k live) (hcur : CurrentOk k live)
    (hstates : YieldOk k live) :
    (∃ fuel w, processGetNext fuel k = some w) ↔ ¬ Stuck k live := by
  constructor
  · rintro ⟨fuel, w, hw⟩ hstuck
    rw [processGetNext_of_stuck (hlist.wellFormed hcur hstates) hstuck] at hw
    cases hw
  · intro hstuck
    obtain ⟨pre, hsplit⟩ := hcur.split
    obtain ⟨k₁, k₂, fuel, -, hw, -⟩ :=
      processGetNext_returns (hlist.wellFormed hcur hstates) hstuck hsplit
    exact ⟨fuel, _, hw⟩

/-- Where a walk that returns ends, and what holds there. -/
theorem processGetNext_spec (hlist : ListInv base k live) (hcur : CurrentOk k live)
    (hstates : YieldOk k live)
    (hno : ∀ p ∈ k.reaps (k.after live), NoKernel k.mem (k.pcb p).pageDirectory)
    {w : Walk} (h : processGetNext fuel k = some w) :
    ∃ k₁, WalkOk base k k₁ live w.reaped ∧ w.reaped = k.reaps (k.after live) ∧
      ((w.next ∈ k.processList :: live.filter (· ∉ w.reaped) ∧ w.next ≠ k.currentProcess ∧
          w.kernel = k₁.setState w.next .ready) ∨
        (w.next = k.processList ∧ k.currentProcess = k.processList ∧ w.kernel = k₁)) := by
  obtain ⟨pre, hsplit⟩ := hcur.split
  have hstuck := (processGetNext_returns_iff hlist hcur hstates).mp ⟨fuel, w, h⟩
  obtain ⟨k₁, k₂, fuel', hk₁, hw, hend⟩ :=
    processGetNext_returns (hlist.wellFormed hcur hstates) hstuck hsplit
  obtain rfl := processGetNext_unique h hw
  exact ⟨k₁, hk₁.walkOk hlist hcur hstates hno hsplit, rfl, hend⟩

/-- **A yield that returns keeps the invariant**, and reaps terminated processes only. -/
theorem processYield_spec (hlist : ListInv base k live) (hcur : CurrentOk k live)
    (hstates : YieldOk k live)
    (hno : ∀ p ∈ k.reaps (k.after live), NoKernel k.mem (k.pcb p).pageDirectory)
    (h : processYield fuel k = some (rs, k')) :
    SchedInv base k' (live.filter (· ∉ rs)) ∧ ReapOk k k' live rs := by
  obtain ⟨⟨r, rs', k₂⟩, hw, heq⟩ := Option.map_eq_some_iff.mp h
  obtain ⟨k₁, hk₁, hrs, hend⟩ := processGetNext_spec hlist hcur hstates hno hw
  dsimp only at hk₁ hrs hend heq
  obtain ⟨rfl, hk'⟩ := Prod.mk.inj heq
  have hsub : rs'.Sublist live := hrs ▸ hcur.reaps_sublist
  have hterminated : ∀ p ∈ rs', (k.pcb p).state = .terminated := fun p hp =>
    Kernel.dead_of_mem_reaps (hrs ▸ hp)
  have hcurrent : ∀ p ∈ rs', p ≠ k.currentProcess := by
    rintro p hp rfl
    exact (hlist.wellFormed hcur hstates).current_notMem_after (Kernel.reaps_subset (hrs ▸ hp))
  have hkept : ∀ p ∈ k.processList :: live.filter (· ∉ rs'), p ∉ rs' := by
    intro p hp
    rcases List.mem_cons.mp hp with rfl | hp
    · exact fun hmem => (List.nodup_cons.mp hlist.nodup).1 (hsub.subset hmem)
    · simpa using (List.mem_filter.mp hp).2
  rcases hend with ⟨hr, hne, rfl⟩ | ⟨rfl, hidle, rfl⟩
  · have hr0 : r ≠ 0 := by
      rintro rfl
      exact hk₁.list.ne_zero (hk₁.processList ▸ hr)
    have hne₁ : r ≠ (k₁.setState r .ready).currentProcess := hk₁.currentProcess ▸ hne
    rw [if_neg hr0, if_neg hne₁] at hk'
    obtain ⟨hinv, hpmm, hnext⟩ := SchedInv.of_found hk₁.list hk₁.current hk₁.states
      (hk₁.processList ▸ hr) hne₁
    rw [hk'] at hinv hpmm hnext
    refine ⟨hinv, hsub, hterminated, fun p hp => ⟨hcurrent p hp, ?_⟩, hpmm ▸ hk₁.gives⟩
    rw [hnext]
    rintro rfl
    exact hkept p hr hp
  · have hlist0 : k.processList ≠ 0 := hlist.idle.ne_zero
    have hidle₁ : k₂.currentProcess = k₂.processList := by
      rw [hk₁.currentProcess, hk₁.processList, hidle]
    rw [if_neg hlist0, if_pos (by rw [hk₁.currentProcess, hidle])] at hk'
    subst hk'
    refine ⟨⟨hk₁.list, hk₁.current, hk₁.states.current hidle₁, hk₁.states.others,
      hk₁.states.idle⟩, hsub, hterminated, fun p hp => ⟨hcurrent p hp, ?_⟩, hk₁.gives⟩
    rw [hk₁.currentProcess]
    exact hcurrent p hp

end Yield

end Rexus
