import Mathlib.Data.List.TakeWhile
import Rexus.Proc.Process

/-!
# The walk of the scheduler

`process_get_next` follows the list from the process after the current one, and edits it on the way:
a terminated process is unlinked and freed, a sleeper whose time has come is woken. The list is
`pre ++ skip ++ rest`, the walk being at the head of `skip ++ rest`; it passes the processes of
`skip`, none of which can run, and reaps the terminated ones among them.

## Main results

* `processReap_eq` — one process taken out and freed
* `iterate_walk` — the walk passes a run of processes that cannot run
* `Listed.processGetNext_of_runnable`, `Listed.processGetNext_of_wrap`,
  `Listed.processGetNext_stuck` — where it ends, and when it does not

## Conventions

The walk is a loop with three cases in each turn: a process that can run ends it, one that is
terminated is taken out and freed, and any other is passed. The list is followed by the links as
they are in that turn, since a reaped process is taken out by a write to the link before it; for
that the source searches from the head of the list. Fuel counts the turns, and a walk over a list
needs no more of them than there are processes, and one for the end.

`passed` and `ahead` divide the processes behind the current one into those the walk goes past and
the rest, by the state before the walk. Behind the end of the list the walk goes on at its head.
What reaping does to the allocator is `freeProcess`, in the order of the source: stack, directory,
record.
-/

namespace Rexus

open Linked Loop Pmm

/-- Freeing a directory changes nothing but the allocator. -/
theorem vmmFreeDirectory_eq (m : Mem) (dir : ℕ) :
    vmmFreeDirectory m dir = { m with pmm := (vmmFreeDirectory m dir).pmm } := by
  by_cases hdir : dir = 0
  · rw [vmmFreeDirectory, if_pos hdir]
  · obtain ⟨t, heq, -⟩ := vmmFreeDirectory_spec m hdir
    rw [heq]

namespace Kernel

/-- A process the walk stops at. -/
def runnable (k : Kernel) (x : ℕ) : Bool := (k.pcb x).state = .ready ∨ k.wakes x

/-- A process the walk reaps. -/
def dead (k : Kernel) (x : ℕ) : Bool := (k.pcb x).state = .terminated

/-- The allocator once the stack, the directory and the block of process `x` are freed. -/
def freeProcess (k : Kernel) (t : Pmm) (x : ℕ) : Pmm :=
  let t := if (k.pcb x).stack = 0 then t
    else pmmFreeBlocks t (k.pcb x).stack ((k.pcb x).stackSize / 4096)
  pmmFreeBlock (vmmFreeDirectory { k.mem with pmm := t } (k.pcb x).pageDirectory).pmm x

variable (k : Kernel) (p q : ℕ) (v : Process) (st : ProcessState) (t : Pmm)

@[simp] theorem setPcb_self : (k.setPcb p v).pcb p = v := by simp [setPcb]

theorem setPcb_of_ne {x : ℕ} (h : x ≠ p) : (k.setPcb p v).pcb x = k.pcb x := by simp [setPcb, h]

/-- Of a record only the link is written. -/
theorem setNext_pcb (x : ℕ) :
    (k.setNext p q).pcb x = { k.pcb x with next := Function.update k.next p q x } := by
  by_cases hx : x = p
  · subst hx
    rw [setNext, setPcb_self, Function.update_self]
  · rw [setNext, setPcb_of_ne _ _ _ hx, Function.update_of_ne hx]
    rfl

@[simp] theorem setNext_next : (k.setNext p q).next = Function.update k.next p q := by
  funext x
  rw [next, setNext_pcb]

@[simp] theorem setState_next : (k.setState p st).next = k.next := by
  funext x
  by_cases hx : x = p
  · subst hx
    simp [setState, next]
  · simp [setState, next, hx, setPcb_of_ne]

@[simp] theorem setPmm_next : (k.setPmm t).next = k.next := rfl

theorem freePageDirectory_eq (x : ℕ) :
    k.freePageDirectory x = k.setPmm (vmmFreeDirectory k.mem (k.pcb x).pageDirectory).pmm := by
  rw [freePageDirectory, setPmm, ← vmmFreeDirectory_eq]
  split_ifs with h
  · rw [h]
    rfl
  · rfl

/-- Freeing a process changes nothing but the allocator. -/
theorem release_eq (x : ℕ) :
    ((k.freeStack x).freePageDirectory x).setPmm
        (pmmFreeBlock ((k.freeStack x).freePageDirectory x).mem.pmm x) =
      k.setPmm (k.freeProcess k.mem.pmm x) := by
  rw [freePageDirectory_eq, freeStack, freeProcess]
  split_ifs <;> rfl

theorem release_next (x y : ℕ) :
    ((k.freeStack x).freePageDirectory x).next y = k.next y := by
  rw [freePageDirectory_eq, freeStack]
  split_ifs <;> rfl

theorem release_processList (x : ℕ) :
    ((k.freeStack x).freePageDirectory x).processList = k.processList := by
  rw [freePageDirectory_eq, freeStack]
  split_ifs <;> rfl

end Kernel

/-! ### More fuel -/

section Fuel

variable {k : Kernel} {fuel fuel' start x : ℕ}

theorem processReap_mono (hle : fuel ≤ fuel') {e : ℕ × Kernel}
    (h : processReap fuel k x = some e) : processReap fuel' k x = some e := by
  obtain ⟨prev, hprev, he⟩ := Option.map_eq_some_iff.mp h
  exact Option.map_eq_some_iff.mpr ⟨prev, iterate_mono (fun _ _ => id) hle hprev, he⟩

theorem processWalkTurn_mono (hle : fuel ≤ fuel') {w : Walk} {turn : Turn Walk Walk}
    (h : processWalkTurn fuel start w = some turn) :
    processWalkTurn fuel' start w = some turn := by
  rw [processWalkTurn] at h ⊢
  dsimp only at h ⊢
  split_ifs at h ⊢ with hready hwakes hterminated
  · exact h
  · exact h
  · obtain ⟨e, he, hturn⟩ := Option.map_eq_some_iff.mp h
    exact Option.map_eq_some_iff.mpr ⟨e, processReap_mono hle he, hturn⟩
  all_goals exact h

theorem processGetNext_mono (hle : fuel ≤ fuel') {w : Walk}
    (h : processGetNext fuel k = some w) : processGetNext fuel' k = some w := by
  rw [processGetNext] at h ⊢
  split_ifs at h ⊢
  all_goals first
    | exact h
    | exact iterate_mono (fun _ _ => processWalkTurn_mono hle) hle h

/-- A walk that returns always returns the same. -/
theorem processGetNext_unique {w w' : Walk} (h : processGetNext fuel k = some w)
    (h' : processGetNext fuel' k = some w') : w = w' := by
  have hw := processGetNext_mono (Nat.le_max_left fuel fuel') h
  have hw' := processGetNext_mono (Nat.le_max_right fuel fuel') h'
  exact Option.some_inj.mp (hw.symm.trans hw')

end Fuel

/-! ### One process reaped -/

/-- The process the walk goes on with, when those of `xs` are left: after the last one the head of
the list comes again. -/
theorem headD_ite {xs : List ℕ} {list : ℕ} (h0 : 0 ∉ xs) :
    (if xs.headD 0 = 0 then list else xs.headD 0) = xs.headD list := by
  cases xs with
  | nil => rfl
  | cons x xs =>
    refine if_neg ?_
    rintro rfl
    exact h0 List.mem_cons_self

theorem headD_ne {xs : List ℕ} {list start : ℕ} (hlist : list ≠ start) (hxs : start ∉ xs) :
    xs.headD list ≠ start := by
  cases xs with
  | nil => exact hlist
  | cons x xs =>
    rintro rfl
    exact hxs List.mem_cons_self

section Reap

variable {k k' : Kernel} {pre post : List ℕ} {prev x fuel : ℕ}

theorem findPrev_eq (hseg : Seg k.next k.processList (pre ++ prev :: x :: post) 0)
    (hnodup : (pre ++ prev :: x :: post).Nodup) (h0 : 0 ∉ pre ++ prev :: x :: post)
    (hfuel : pre.length < fuel) : findPrev fuel k x = some prev := by
  refine iterate_search hseg (fun y hy => ?_) ?_ hfuel
  · have hy0 : y ≠ 0 := by
      rintro rfl
      exact h0 (List.mem_append_left _ hy)
    simp [hy0, hseg.next_ne hnodup hy]
  · simp [hseg.next_eq]

/-- A terminated process is unlinked, its stack, its directory and its block are freed, and the walk
goes on with the one after it, or with the head of the list. -/
theorem processReap_eq (hseg : Seg k.next k.processList (pre ++ prev :: x :: post) 0)
    (hnodup : (pre ++ prev :: x :: post).Nodup) (h0 : 0 ∉ pre ++ prev :: x :: post)
    (hfuel : pre.length < fuel) :
    processReap fuel k x = some (post.headD k.processList,
      (k.setNext prev (k.next x)).setPmm (k.freeProcess k.mem.pmm x)) := by
  have hprev0 : prev ≠ 0 := by
    rintro rfl
    exact h0 (by simp)
  have hne : x ≠ prev := by
    rintro rfl
    exact (List.nodup_cons.mp (List.nodup_append.mp hnodup).2.1).1 List.mem_cons_self
  have hrecord : (k.setNext prev (k.next x)).pcb x = k.pcb x := k.setPcb_of_ne _ _ hne
  have hnext : k.next x = post.headD 0 := by
    rw [List.append_cons] at hseg
    exact hseg.next_eq
  rw [processReap, findPrev_eq hseg hnodup h0 hfuel, Option.map_some, if_neg hprev0]
  dsimp only
  rw [Kernel.release_eq, Kernel.release_next, Kernel.release_processList]
  have hself : (k.setNext prev (k.next x)).next x = k.next x := congrArg Process.next hrecord
  refine congrArg some (Prod.ext ?_ ?_)
  · rw [hself, hnext]
    exact headD_ite fun hmem => h0 (by simp [hmem])
  · rw [Kernel.freeProcess, hrecord]
    rfl

end Reap

/-! ### The walk so far -/

/-- `k'` is `k` once the processes of `rs` are reaped: its list is `ys`, and only `next` pointers
and the allocator have changed. -/
structure Unlinked (k k' : Kernel) (ys rs : List ℕ) : Prop where
  kernel : k' = { k.setPmm (rs.foldl k.freeProcess k.mem.pmm) with pcb := k'.pcb }
  pcb : ∀ x, k'.pcb x = { k.pcb x with next := k'.next x }
  seg : Seg k'.next k.processList ys 0

namespace Unlinked

variable {k k' : Kernel} {pre post ys rs : List ℕ} {prev x : ℕ}

theorem refl (h : Seg k.next k.processList ys 0) : Unlinked k k ys [] := ⟨rfl, fun _ => rfl, h⟩

theorem processList (h : Unlinked k k' ys rs) : k'.processList = k.processList := by
  rw [h.kernel]
  rfl

theorem currentProcess (h : Unlinked k k' ys rs) : k'.currentProcess = k.currentProcess := by
  rw [h.kernel]
  rfl

theorem state (h : Unlinked k k' ys rs) (x : ℕ) : (k'.pcb x).state = (k.pcb x).state := by
  rw [h.pcb]

theorem wakes (h : Unlinked k k' ys rs) (x : ℕ) : k'.wakes x ↔ k.wakes x := by
  rw [Kernel.wakes, h.pcb, h.kernel]
  exact Iff.rfl

/-- One more process reaped. -/
theorem reap (h : Unlinked k k' (pre ++ prev :: x :: post) rs)
    (hnodup : (pre ++ prev :: x :: post).Nodup) :
    Unlinked k ((k'.setNext prev (k'.next x)).setPmm (k'.freeProcess k'.mem.pmm x))
      (pre ++ prev :: post) (rs ++ [x]) where
  kernel := by
    have hfree : k'.freeProcess k'.mem.pmm x =
        (rs ++ [x]).foldl k.freeProcess k.mem.pmm := by
      rw [List.foldl_append, Kernel.freeProcess, h.pcb, h.kernel]
      rfl
    rw [hfree]
    nth_rewrite 1 [h.kernel]
    rfl
  pcb y := by
    rw [Kernel.setPmm_next, Kernel.setNext_next]
    show (k'.setNext prev (k'.next x)).pcb y = _
    rw [Kernel.setNext_pcb, h.pcb]
  seg := by
    rw [Kernel.setPmm_next, Kernel.setNext_next]
    exact h.seg.unlink hnodup

end Unlinked

/-! ### The turns of the loop -/

section Turns

variable {k k' : Kernel} {start fuel : ℕ} {w : Walk}

theorem runnable_eq_false {x : ℕ} :
    k.runnable x = false ↔ (k.pcb x).state ≠ .ready ∧ ¬ k.wakes x := by
  simp [Kernel.runnable]

theorem Kernel.setState_self {x : ℕ} {st : ProcessState} (h : (k.pcb x).state = st) :
    k.setState x st = k := by
  rw [Kernel.setState, Kernel.setPcb, ← h]
  exact congrArg (fun f => { k with pcb := f }) (Function.update_eq_self x k.pcb)

/-- The walk stops at a process that can run, and makes it ready. -/
theorem processWalkTurn_runnable (h : w.kernel.runnable w.next = true) :
    processWalkTurn fuel start w =
      some (.done { w with kernel := w.kernel.setState w.next .ready }) := by
  rw [Kernel.runnable, decide_eq_true_eq] at h
  rw [processWalkTurn]
  dsimp only
  by_cases hready : (w.kernel.pcb w.next).state = .ready
  · rw [if_pos hready, Kernel.setState_self hready]
  · rw [if_neg hready, if_pos (h.resolve_left hready)]

theorem processWalkTurn_dead (start : ℕ) (w : Walk) (h : w.kernel.dead w.next = true) {temp : ℕ}
    (hreap : processReap fuel w.kernel w.next = some (temp, k')) (htemp : temp ≠ 0) :
    processWalkTurn fuel start w = some (walkOn start ⟨temp, w.reaped ++ [w.next], k'⟩) := by
  have hstate : (w.kernel.pcb w.next).state = .terminated := by simpa [Kernel.dead] using h
  rw [processWalkTurn]
  dsimp only
  rw [if_neg (by rw [hstate]; decide), if_neg (by simp [Kernel.wakes, hstate]), if_pos hstate,
    hreap, Option.map_some]
  exact congrArg some (if_neg htemp)

theorem processWalkTurn_pass (fuel start : ℕ) (w : Walk) (hrun : w.kernel.runnable w.next = false)
    (hdead : w.kernel.dead w.next = false) :
    processWalkTurn fuel start w = some (walkOn start
      ⟨if w.kernel.next w.next = 0 then w.kernel.processList else w.kernel.next w.next, w.reaped,
        w.kernel⟩) := by
  obtain ⟨hready, hwakes⟩ := runnable_eq_false.mp hrun
  have hstate : (w.kernel.pcb w.next).state ≠ .terminated := by simpa [Kernel.dead] using hdead
  rw [processWalkTurn]
  dsimp only
  rw [if_neg hready, if_neg hwakes, if_neg hstate]

theorem walkOn_of_ne (h : w.next ≠ start) : walkOn start w = .next w := if_neg h

end Turns

namespace Unlinked

variable {k k' : Kernel} {ys rs : List ℕ}

theorem runnable (h : Unlinked k k' ys rs) (x : ℕ) : k'.runnable x = k.runnable x := by
  simp [Kernel.runnable, h.state, h.wakes]

theorem dead (h : Unlinked k k' ys rs) (x : ℕ) : k'.dead x = k.dead x := by
  simp [Kernel.dead, h.state]

end Unlinked

/-- **The walk passes the processes of `skip`**, none of which can run, and reaps the terminated
ones. -/
theorem iterate_walk {k : Kernel} {start : ℕ} {skip rest : List ℕ}
    (hskip : ∀ x ∈ skip, k.runnable x = false) (hlist0 : k.processList ≠ 0)
    (hstart : start ∉ (skip ++ rest).tail) (hlist : skip ≠ [] → k.processList ≠ start)
    {k' : Kernel} {pre rs : List ℕ} (h : Unlinked k k' (pre ++ (skip ++ rest)) rs)
    (hpre : pre ≠ []) (hnodup : (pre ++ (skip ++ rest)).Nodup) (h0 : 0 ∉ pre ++ (skip ++ rest)) :
    ∃ k'', Unlinked k k'' (pre ++ (skip.filter (!k.dead ·) ++ rest)) (rs ++ skip.filter k.dead) ∧
      ∀ fuel n, pre.length + skip.length < fuel →
        iterate (processWalkTurn fuel start) (n + skip.length)
          ⟨(skip ++ rest).headD k.processList, rs, k'⟩ =
        iterate (processWalkTurn fuel start) n
          ⟨rest.headD k.processList, rs ++ skip.filter k.dead, k''⟩ := by
  induction skip generalizing pre rs k' with
  | nil => exact ⟨k', by simpa using h, by simp⟩
  | cons x skip ih =>
    have hlist' := hlist (List.cons_ne_nil x skip)
    have htail : start ∉ skip ++ rest := hstart
    have hnext : (skip ++ rest).headD k.processList ≠ start := headD_ne hlist' htail
    have hnext0 : (skip ++ rest).headD k.processList ≠ 0 := by
      refine headD_ne hlist0 fun hmem => h0 ?_
      exact List.mem_append_right _ (List.mem_cons_of_mem x hmem)
    have hrest := @ih (fun y hy => hskip y (List.mem_cons_of_mem x hy))
      (fun hmem => htail (List.mem_of_mem_tail hmem)) fun _ => hlist'
    have hlen : (x :: skip).length = skip.length + 1 := List.length_cons
    rw [hlen]
    cases hdead : k.dead x with
    | true =>
      obtain ⟨pre', prev, rfl⟩ := (List.eq_nil_or_concat' pre).resolve_left hpre
      have hsplit : ∀ zs : List ℕ, pre' ++ [prev] ++ zs = pre' ++ prev :: zs := by simp
      rw [hsplit, List.cons_append] at h hnodup h0
      rw [List.length_append, List.length_singleton]
      have hseg := h.seg
      rw [← h.processList] at hseg
      have hsub : (pre' ++ prev :: (skip ++ rest)).Sublist (pre' ++ prev :: x :: (skip ++ rest)) :=
        ((List.sublist_cons_self x _).cons_cons prev).append_left pre'
      have hnodup' : (pre' ++ prev :: (skip ++ rest)).Nodup := hnodup.sublist hsub
      obtain ⟨k'', hk'', heq⟩ := @hrest _ (pre' ++ [prev]) (rs ++ [x])
        (by rw [hsplit]; exact h.reap hnodup) (by simp) (by rwa [hsplit])
        (by rw [hsplit]; exact fun hmem => h0 (hsub.subset hmem))
      refine ⟨k'', by simpa [hdead] using hk'', fun fuel n hfuel => ?_⟩
      have hreap := processReap_eq hseg hnodup h0 (show pre'.length < fuel by omega)
      rw [h.processList] at hreap
      have hturn := processWalkTurn_dead start ⟨x, rs, k'⟩
        (by rw [h.dead, hdead]) hreap hnext0
      rw [walkOn_of_ne hnext] at hturn
      rw [← Nat.add_assoc]
      show iterate _ _ (Walk.mk x rs k') = _
      rw [iterate_next hturn, heq fuel n (by simp; omega)]
      simp [hdead]
    | false =>
      have hk' := h
      rw [List.cons_append, List.append_cons] at h hnodup h0
      obtain ⟨k'', hk'', heq⟩ := @hrest _ (pre ++ [x]) rs h (by simp) hnodup h0
      refine ⟨k'', by simpa [hdead] using hk'', fun fuel n hfuel => ?_⟩
      have hpass := processWalkTurn_pass fuel start ⟨x, rs, k'⟩
        (by rw [h.runnable, hskip x List.mem_cons_self]) (by rw [h.dead, hdead])
      have hptr : (if k'.next x = 0 then k'.processList else k'.next x) =
          (skip ++ rest).headD k.processList := by
        rw [hk'.seg.next_eq, h.processList]
        exact headD_ite fun hmem => h0 (List.mem_append_right _ hmem)
      rw [hptr, walkOn_of_ne hnext] at hpass
      rw [← Nat.add_assoc]
      show iterate _ _ (Walk.mk x rs k') = _
      rw [iterate_next hpass, heq fuel n (by simp; omega)]
      simp [hdead]

/-! ### Where the walk ends -/

/-- The list is `pre`, the current process, and `post`. It is finite, has no process twice, and ends
with a null pointer, so that a walk that starts behind the current process sees `post`, and then
`pre`. -/
structure Listed (k : Kernel) (pre post : List ℕ) : Prop where
  seg : Seg k.next k.processList (pre ++ k.currentProcess :: post) 0
  nodup : (pre ++ k.currentProcess :: post).Nodup
  ne_zero : 0 ∉ pre ++ k.currentProcess :: post

namespace Kernel

variable (k : Kernel) (post : List ℕ)

/-- The processes after the current one that the walk passes. -/
def passed : List ℕ := post.takeWhile (!k.runnable ·)

/-- Those it does not get to: the first of them can run. -/
def ahead : List ℕ := post.dropWhile (!k.runnable ·)

/-- Those it reaps. -/
def reaps : List ℕ := (k.passed post).filter k.dead

/-- Those it leaves in the list. -/
def keeps : List ℕ := (k.passed post).filter (!k.dead ·) ++ k.ahead post

theorem passed_append_ahead : k.passed post ++ k.ahead post = post :=
  List.takeWhile_append_dropWhile

variable {k post}

theorem runnable_of_mem_passed {x : ℕ} (hx : x ∈ k.passed post) : k.runnable x = false := by
  simpa using List.mem_takeWhile_imp hx

theorem runnable_of_ahead {x : ℕ} {rest : List ℕ} (h : k.ahead post = x :: rest) :
    k.runnable x = true := by
  have hdrop : post.dropWhile (!k.runnable ·) = x :: rest := h
  have hhead := List.head_dropWhile_not (!k.runnable ·) (l := post)
    (by rw [hdrop]; exact List.cons_ne_nil x rest)
  simpa only [hdrop, List.head_cons, Bool.not_eq_false'] using hhead

theorem ahead_subset : k.ahead post ⊆ post := (List.dropWhile_sublist _).subset

theorem reaps_subset : k.reaps post ⊆ post := fun _ hx =>
  (List.takeWhile_sublist _).subset (List.mem_of_mem_filter hx)

theorem dead_of_mem_reaps {x : ℕ} (hx : x ∈ k.reaps post) : (k.pcb x).state = .terminated := by
  simpa [dead] using (List.mem_filter.mp hx).2

theorem keeps_sublist : (k.keeps post).Sublist post := by
  have h := (List.filter_sublist (p := (!k.dead ·)) (l := k.passed post)).append_right
    (k.ahead post)
  rwa [passed_append_ahead] at h

end Kernel

namespace Listed

variable {k : Kernel} {pre post : List ℕ}

theorem list_ne_zero (h : Listed k pre post) : k.processList ≠ 0 := by
  intro h0
  have hstart := h.seg.start_eq
  rw [h0] at hstart
  refine h.ne_zero ?_
  cases pre with
  | nil => exact hstart ▸ List.mem_cons_self
  | cons x pre => exact hstart ▸ List.mem_cons_self

/-- The head of the list is not after the current process. -/
theorem list_notMem (h : Listed k pre post) : k.processList ∉ post := by
  intro hmem
  have hstart := h.seg.start_eq
  obtain ⟨-, hnodup, hdis⟩ := List.nodup_append.mp h.nodup
  cases pre with
  | nil =>
    have : k.processList = k.currentProcess := hstart
    exact (List.nodup_cons.mp hnodup).1 (this ▸ hmem)
  | cons x pre =>
    have : k.processList = x := hstart
    exact hdis x List.mem_cons_self _ (List.mem_cons_of_mem _ hmem) this.symm

theorem processGetNext_eq (h : Listed k pre post) (fuel : ℕ) :
    processGetNext fuel k =
      iterate (processWalkTurn fuel (post.headD k.processList)) fuel
        ⟨post.headD k.processList, [], k⟩ := by
  have hnext : k.next k.currentProcess = post.headD 0 := h.seg.next_eq
  have h0 : 0 ∉ post := fun hmem =>
    h.ne_zero (List.mem_append_right _ (List.mem_cons_of_mem _ hmem))
  rw [processGetNext, if_neg h.list_ne_zero]
  dsimp only
  rw [hnext, headD_ite h0]

/-- The walk as far as the first process that can run, or the end of the list. -/
theorem iterate_passed (h : Listed k pre post) :
    ∃ k', Unlinked k k' (pre ++ k.currentProcess :: k.keeps post) (k.reaps post) ∧
      ∀ fuel n, pre.length + 1 + (k.passed post).length < fuel →
        iterate (processWalkTurn fuel (post.headD k.processList)) (n + (k.passed post).length)
            ⟨post.headD k.processList, [], k⟩ =
          iterate (processWalkTurn fuel (post.headD k.processList)) n
            ⟨(k.ahead post).headD k.processList, k.reaps post, k'⟩ := by
  have hsplit : ∀ zs : List ℕ, pre ++ [k.currentProcess] ++ zs = pre ++ k.currentProcess :: zs := by
    simp
  have hpost := Kernel.passed_append_ahead k post
  have hnodup : post.Nodup := (List.nodup_cons.mp (List.nodup_append.mp h.nodup).2.1).2
  have htail : post.headD k.processList ∉ post.tail := by
    cases post with
    | nil => exact List.not_mem_nil
    | cons x post => exact (List.nodup_cons.mp hnodup).1
  have hlist : k.passed post ≠ [] → k.processList ≠ post.headD k.processList := by
    intro hne heq
    refine h.list_notMem ?_
    cases post with
    | nil => exact absurd rfl hne
    | cons x post => exact heq ▸ List.mem_cons_self
  have hwalk := @iterate_walk k (post.headD k.processList) (k.passed post) (k.ahead post)
    (fun x => Kernel.runnable_of_mem_passed) h.list_ne_zero (by rwa [hpost]) hlist
    k (pre ++ [k.currentProcess]) [] (by rw [hpost, hsplit]; exact Unlinked.refl h.seg) (by simp)
    (by rw [hpost, hsplit]; exact h.nodup) (by rw [hpost, hsplit]; exact h.ne_zero)
  rw [hsplit, List.nil_append, hpost, List.length_append] at hwalk
  exact hwalk

/-- The walk ends at the first process after the current one that can run, or at the head of the
list, if that one can. -/
theorem processGetNext_of_runnable (h : Listed k pre post)
    (hrun : k.runnable ((k.ahead post).headD k.processList) = true) :
    ∃ k', Unlinked k k' (pre ++ k.currentProcess :: k.keeps post) (k.reaps post) ∧
      ∃ fuel, processGetNext fuel k = some
        ⟨(k.ahead post).headD k.processList, k.reaps post,
          k'.setState ((k.ahead post).headD k.processList) .ready⟩ := by
  obtain ⟨k', hk', heq⟩ := h.iterate_passed
  refine ⟨k', hk', pre.length + 2 + (k.passed post).length, ?_⟩
  rw [h.processGetNext_eq, heq _ _ (by omega)]
  exact iterate_done (processWalkTurn_runnable (by rwa [hk'.runnable]))

/-- Nothing after the current process can run. -/
theorem keeps_eq (hahead : k.ahead post = []) :
    k.passed post = post ∧ k.keeps post = post.filter (!k.dead ·) := by
  have hpassed : k.passed post = post := by
    have h := Kernel.passed_append_ahead k post
    rwa [hahead, List.append_nil] at h
  exact ⟨hpassed, by rw [Kernel.keeps, hpassed, hahead, List.append_nil]⟩

/-- The current process is the head of the list and no process after it can run: the walk comes
round to where it began, unless it has freed that process. -/
theorem processGetNext_of_wrap (h : Listed k [] post) (hahead : k.ahead post = [])
    (hrun : k.runnable k.processList = false) (hdead : k.dead k.processList = false)
    (hfirst : ∀ x ∈ post.head?, k.dead x = false) :
    ∃ k', Unlinked k k' (k.currentProcess :: k.keeps post) (k.reaps post) ∧
      ∃ fuel, processGetNext fuel k = some ⟨k.processList, k.reaps post, k'⟩ := by
  obtain ⟨k', hk', heq⟩ := h.iterate_passed
  refine ⟨k', hk', 2 + (k.passed post).length, ?_⟩
  rw [h.processGetNext_eq, heq _ _ (by rw [List.length_nil]; omega), hahead, List.headD_nil]
  have hlist : k.processList = k.currentProcess := h.seg.start_eq
  have h0 : 0 ∉ k.keeps post := fun hmem =>
    h.ne_zero (List.mem_cons_of_mem _ (Kernel.keeps_sublist.subset hmem))
  have hstart : (k.keeps post).headD k.processList = post.headD k.processList := by
    rw [(keeps_eq hahead).2]
    cases post with
    | nil => rfl
    | cons x post => simp [hfirst x rfl]
  have hpass := processWalkTurn_pass (2 + (k.passed post).length) (post.headD k.processList)
    ⟨k.processList, k.reaps post, k'⟩
    (by rwa [hk'.runnable]) (by rwa [hk'.dead])
  have hptr : (if k'.next k.processList = 0 then k'.processList else k'.next k.processList) =
      post.headD k.processList := by
    have hseg := hk'.seg
    rw [hlist, hseg.2.start_eq, hk'.processList, headD_ite h0, ← hlist, hstart]
  rw [hptr] at hpass
  refine iterate_done (hpass.trans (congrArg some ?_))
  rw [walkOn, if_pos rfl, hk'.processList]

/-- If the walk has freed the process it began at, and none can run, it does not end. -/
theorem processGetNext_stuck {x : ℕ} (h : Listed k [] (x :: post))
    (hahead : k.ahead (x :: post) = []) (hrun : k.runnable k.processList = false)
    (hdead : k.dead k.processList = false) (hfirst : k.dead x = true) (fuel : ℕ) :
    processGetNext fuel k = none := by
  obtain ⟨k', hk', heq⟩ := h.iterate_passed
  have hlist : k.processList = k.currentProcess := h.seg.start_eq
  obtain ⟨hpassed, hkeeps⟩ := keeps_eq hahead
  have hmem : ∀ y ∈ k.currentProcess :: k.keeps (x :: post),
      k.runnable y = false ∧ k.dead y = false := by
    intro y hy
    rcases List.mem_cons.mp hy with rfl | hy
    · exact ⟨hlist ▸ hrun, hlist ▸ hdead⟩
    · rw [hkeeps, List.mem_filter] at hy
      exact ⟨Kernel.runnable_of_mem_passed (hpassed ▸ hy.1), by simpa using hy.2⟩
  -- the walk goes round the processes it has kept, and the one it began at is not among them
  have hround : ∀ n, iterate (processWalkTurn (fuel + 2 + (k.passed (x :: post)).length) x) n
      ⟨k.processList, k.reaps (x :: post), k'⟩ = none := by
    refine iterate_eq_none
      (fun w => ∃ y rs, w = ⟨y, rs, k'⟩ ∧ y ∈ k.currentProcess :: k.keeps (x :: post))
      ⟨_, _, rfl, hlist ▸ List.mem_cons_self⟩ ?_
    rintro _ ⟨y, rs, rfl, hy⟩
    have hpass := processWalkTurn_pass (fuel + 2 + (k.passed (x :: post)).length) x ⟨y, rs, k'⟩
      (by rw [hk'.runnable, (hmem y hy).1])
      (by rw [hk'.dead, (hmem y hy).2])
    have hnext : (if k'.next y = 0 then k'.processList else k'.next y) ∈
        k.currentProcess :: k.keeps (x :: post) := by
      split_ifs with h0
      · rw [hk'.processList, hlist]
        exact List.mem_cons_self
      · exact (hk'.seg.next_mem hy).resolve_right h0
    refine Or.inr ⟨_, hpass.trans (congrArg some (walkOn_of_ne ?_)), _, _, rfl, hnext⟩
    rintro rfl
    rw [(hmem _ hnext).2] at hfirst
    exact Bool.noConfusion hfirst
  by_contra hne
  obtain ⟨w, hw⟩ := Option.ne_none_iff_exists'.mp hne
  have hmore := processGetNext_mono
    (show fuel ≤ fuel + 2 + (k.passed (x :: post)).length by omega) hw
  rw [h.processGetNext_eq, heq _ (fuel + 2) (by rw [List.length_nil]; omega), hahead] at hmore
  rw [List.headD_cons, List.headD_nil, hround] at hmore
  cases hmore

end Listed

end Rexus
