import Rexus.Mem.VmmCloneSpec
import Rexus.Proc.Sched

/-!
# Creating a process

`process_create` takes a block for the record, clones the current directory, takes four blocks for
the stack, and puts the process at the end of the list. What it has taken by the end was free at the
start, so the new process owns what no other does. When an allocation fails it gives back what it
has taken; giving back the directory frees the kernel tables it refers to, if there are any.

## Main results

* `CloneInv.userDir` — a clone is the directory of a created process
* `processCreate_spec` — a creation that returns keeps the invariant

## Conventions

A creation asks the allocator for the record first, then for what a clone takes, and last for the
stack, and each of these may be refused. What it gives back then is in `Rexus.Proc.CreateUndo`; here
it is followed as far as the list is concerned, which stays as it was. `none` is a halt in the
clone, or a name that does not fit its field: the source copies it with `strcpy` into thirty-two
bytes.

The new process is put at the end of the list, which is found by a walk; with fuel for one turn more
than there are processes it is found. The id is drawn from a counter of thirty-two bits, also by a
creation that fails later on.
-/

namespace Rexus

open Linked Loop Mem Pmm

/-! ### The blocks of a new process -/

section Blocks

variable {m₀ m : Mem} {src dest : ℕ} {block : CloneSlot → ℕ} {T base : Finset ℕ}

/-- A clone is the directory of a created process: its user tables are new, and its kernel tables
those of its source. -/
theorem CloneInv.userDir (h : CloneInv m₀ src dest 1024 (1024 * 1024) block T m)
    (hsrc : SrcOk m₀ src) (hkernel : ∀ i < 1024, 768 ≤ i → present (m₀.word src i) = true →
      tableBlock m₀ src i ∈ base) : UserDir m base dest ∧ userBlocks m dest ⊆ T := by
  have hshared : ∀ i < 1024, 768 ≤ i → present (m.word dest i) = true →
      present (m₀.word src i) = true ∧ m.word dest i = m₀.word src i := by
    intro i hi hge hp
    have hp' := ((h.present_dirWord hi).mp hp).2
    exact ⟨hp', h.word_kernel hi hi hge hp'⟩
  refine ⟨⟨h.dest_ne_zero, h.dest_mod, fun i hi hp => ?_, fun i hi j hj => h.userTable_inj hi hj,
    fun i hi => h.userTable_ne_dir hi, fun i hi hge hp => ?_⟩,
    Finset.insert_subset ?_ fun b hb => ?_⟩
  · rcases Nat.lt_or_ge i 768 with hlt | hge
    · obtain ⟨hlive, -⟩ := h.live_userTable hlt hp
      have hptr := h.tableOf_user (show i < 1024 by omega) hlt hlive.2.2
      have h0 := h.blocks.ne_zero _ hlive
      omega
    · obtain ⟨hp', hword⟩ := hshared i hi hge hp
      rw [hword]
      exact (hsrc.table i hi hp').ne_zero
  · obtain ⟨hp', hword⟩ := hshared i hi hge hp
    rw [tableBlock, hword]
    exact hkernel i hi hge hp'
  · rw [h.dest_div]
    exact h.blocks.mem trivial
  · obtain ⟨i, hi, hp, rfl⟩ := mem_tableBlocks.mp hb
    obtain ⟨hlive, hblock⟩ := h.live_userTable hi hp
    rw [hblock]
    exact h.blocks.mem hlive

/-- A null pointer of `pmm_alloc_blocks` is a refusal, or a run from block `0` marked and lost. -/
theorem takes_of_pmmAllocBlocks_zero {s t : Pmm} {n : ℕ} (h : pmmAllocBlocks s n = (0, t)) :
    ∃ B, Takes s t B := by
  rcases pmmAllocBlocks_cases s n with ⟨h', -⟩ | ⟨b, h', -, hrun, -⟩
  · rw [h', Prod.mk.injEq] at h
    exact ⟨∅, h.2 ▸ Takes.refl s⟩
  · rw [h', Prod.mk.injEq] at h
    exact ⟨_, h.2 ▸ takes_pmmMarkBlocks hrun⟩

/-- The words pushed on a stack are words of the stack. -/
theorem foldl_push {stack : ℕ} (vs : List (BitVec 32)) (m : Mem) {sp : ℕ}
    (hlow : stack + 4 * vs.length ≤ sp) (hhigh : sp ≤ stack + 16384) (hmod : stack % 4096 = 0) :
    SameOutside m (vs.foldl push (m, sp)).1 (Finset.Ico (stack / 4096) (stack / 4096 + 4)) ∧
      (vs.foldl push (m, sp)).1.pmm = m.pmm ∧
      (vs.foldl push (m, sp)).1.currentDirectory = m.currentDirectory := by
  induction vs generalizing m sp with
  | nil => exact ⟨SameOutside.refl _ _, rfl, rfl⟩
  | cons v vs ih =>
    rw [List.length_cons] at hlow
    obtain ⟨hsame, hpmm, hdir⟩ := @ih (m.setWord (sp - 4) 0 v) (sp - 4) (by omega) (by omega)
    refine ⟨fun a ha => (hsame a ha).trans ?_, hpmm, hdir⟩
    rw [Finset.mem_Ico] at ha
    exact Function.update_of_ne (by omega) _ _

end Blocks

/-! ### Before the new process is listed -/

/-- `k'` differs from `k` in free memory, in records that are not listed, and in blocks allocated
since. -/
structure Frame (k k' : Kernel) (live : List ℕ) : Prop where
  processList : k'.processList = k.processList
  currentProcess : k'.currentProcess = k.currentProcess
  currentDirectory : k'.mem.currentDirectory = k.mem.currentDirectory
  pcb : ∀ x ∈ k.processList :: live, k'.pcb x = k.pcb x
  ram : ∃ U, Disjoint k.mem.pmm.usedSet U ∧ SameOutside k.mem k'.mem U
  used : k.mem.pmm.usedSet ⊆ k'.mem.pmm.usedSet

section Frame

variable {base : Finset ℕ} {k k' : Kernel} {live : List ℕ} {proc last : ℕ}

theorem SchedInv.frame (h : SchedInv base k live) (hf : Frame k k' live) :
    SchedInv base k' live := by
  have hcur : k'.pcb k.currentProcess = k.pcb k.currentProcess := hf.pcb _ h.current.mem
  have hidle : k'.pcb k.processList = k.pcb k.processList := hf.pcb _ List.mem_cons_self
  refine ⟨h.list.transfer hf.processList ?_ (List.Sublist.refl _) (fun x hx => ?_) hf.ram
    (h.list.base_used.trans hf.used) fun p hp => (h.list.owned_used p hp).trans hf.used, ⟨?_, ?_⟩,
    ⟨?_, fun p hp hpc => ?_, fun hne => ?_⟩⟩
  · exact h.list.seg.congr fun x hx => congrArg Process.next (hf.pcb x hx)
  · rw [hf.pcb x hx]
    exact SameOwner.refl _
  · rw [hf.currentProcess, hf.processList]
    exact h.current.mem
  · rw [hf.currentDirectory, hf.currentProcess, hcur]
    exact h.current.directory
  · rw [hf.currentProcess, hcur]
    exact h.states.current
  · rw [hf.processList] at hp
    rw [hf.currentProcess] at hpc
    rw [hf.pcb p hp]
    exact h.states.others p hp hpc
  · rw [hf.currentProcess, hf.processList] at hne
    rw [hf.processList, hidle]
    exact h.states.idle hne

/-- A record whose block was free is not listed. -/
theorem ListInv.notMem_of_free (h : ListInv base k live) (hfree : proc / 4096 ∉ k.mem.pmm.usedSet) :
    proc ∉ k.processList :: live := fun hmem => hfree (h.block_used hmem).2

theorem sameOwner_setNext (k : Kernel) (p q x : ℕ) :
    SameOwner (k.pcb x) ((k.setNext p q).pcb x) := by
  rw [Kernel.setNext_pcb]
  exact ⟨rfl, rfl, rfl⟩

theorem owned_setNext (k : Kernel) (p q x : ℕ) : (k.setNext p q).owned x = k.owned x :=
  owned_congr (sameOwner_setNext k p q x) fun _ _ => rfl

theorem state_setNext (k : Kernel) (p q x : ℕ) :
    ((k.setNext p q).pcb x).state = (k.pcb x).state := by
  rw [Kernel.setNext_pcb]

/-- The list with a process at its end, which owns blocks that are in use and no other's. -/
theorem ListInv.append (h : ListInv base k live) (hok : ProcOk k base proc)
    (hused : k.owned proc ⊆ k.mem.pmm.usedSet) (hbase : Disjoint base (k.owned proc))
    (hdis : ∀ p ∈ live, Disjoint (k.owned p) (k.owned proc)) (hproc : proc ∉ k.processList :: live)
    (hnext : k.next proc = 0) {us : List ℕ} (hlast : k.processList :: live = us ++ [last]) :
    ListInv base (k.setNext last proc) (live ++ [proc]) := by
  have howner := sameOwner_setNext k last proc
  have hcons : k.processList :: (live ++ [proc]) = us ++ [last, proc] := by
    rw [← List.cons_append, hlast, List.append_assoc]
    rfl
  have hmem : ∀ p ∈ live ++ [proc], p ∈ live ∨ p = proc := by simp
  refine ⟨?_, ?_, ?_, fun p hp => ?_, h.base_used, fun p hp => ?_, fun p hp => ?_, ?_⟩
  · have hseg := h.seg
    have hnodup := h.nodup
    rw [hlast] at hseg hnodup hproc
    have hsnoc := hseg.snoc hnodup hproc
    rw [hnext] at hsnoc
    rw [Kernel.setNext_next]
    show Seg _ k.processList (k.processList :: (live ++ [proc])) 0
    rwa [hcons]
  · show (k.processList :: (live ++ [proc])).Nodup
    rw [← List.cons_append]
    exact List.nodup_append.mpr ⟨h.nodup, List.nodup_singleton _, fun a ha b hb => by
      rw [List.mem_singleton] at hb
      rintro rfl
      exact hproc (hb ▸ ha)⟩
  · have hi := h.idle
    exact ⟨hi.ne_zero, hi.aligned, hi.mem, (howner _).pageDirectory ▸ hi.dir_ne_zero,
      (howner _).pageDirectory ▸ hi.dir_aligned, (howner _).pageDirectory ▸ hi.dir_mem,
      (howner _).pageDirectory ▸ hi.table⟩
  · rcases hmem p hp with hp | rfl
    · exact (h.proc p hp).congr (howner p) fun _ _ => rfl
    · exact hok.congr (howner p) fun _ _ => rfl
  · rw [owned_setNext]
    rcases hmem p hp with hp | rfl
    · exact h.owned_used p hp
    · exact hused
  · rw [owned_setNext]
    rcases hmem p hp with hp | rfl
    · exact h.owned_base p hp
    · exact hbase
  · refine List.pairwise_append.mpr ⟨?_, List.pairwise_singleton _ _, fun p hp q hq => ?_⟩
    · exact h.disjoint.imp fun hpq => by rwa [owned_setNext, owned_setNext]
    · rw [List.mem_singleton] at hq
      rw [owned_setNext, owned_setNext, hq]
      exact hdis p hp

theorem CurrentOk.append (h : CurrentOk k live) :
    CurrentOk (k.setNext last proc) (live ++ [proc]) where
  mem := by
    show k.currentProcess ∈ k.processList :: (live ++ [proc])
    rw [← List.cons_append]
    exact List.mem_append_left _ h.mem
  directory := h.directory.trans (sameOwner_setNext k last proc _).pageDirectory.symm

theorem StatesOk.append (h : StatesOk k live) (hstate : (k.pcb proc).state ≠ .running) :
    StatesOk (k.setNext last proc) (live ++ [proc]) where
  current := (state_setNext ..).trans h.current
  others p hp hpc := by
    rw [state_setNext]
    have hp' : p ∈ k.processList :: (live ++ [proc]) := hp
    rw [← List.cons_append, List.mem_append, List.mem_singleton] at hp'
    rcases hp' with hp' | rfl
    · exact h.others p hp' hpc
    · exact hstate
  idle hne := (state_setNext ..).trans (h.idle hne)

/-- Putting a process at the end of the list. -/
theorem SchedInv.append (h : SchedInv base k live) (hok : ProcOk k base proc)
    (hused : k.owned proc ⊆ k.mem.pmm.usedSet) (hbase : Disjoint base (k.owned proc))
    (hdis : ∀ p ∈ live, Disjoint (k.owned p) (k.owned proc)) (hproc : proc ∉ k.processList :: live)
    (hstate : (k.pcb proc).state ≠ .running) (hnext : k.next proc = 0) {us : List ℕ}
    (hlast : k.processList :: live = us ++ [last]) :
    SchedInv base (k.setNext last proc) (live ++ [proc]) where
  list := h.list.append hok hused hbase hdis hproc hnext hlast
  current := h.current.append
  states := h.states.append hstate

end Frame

/-! ### The creation -/

/-- `process_create` would take the branch behind `if (!proc->stack)`: it has a block for the record
and a directory, but no stack. -/
def StackRefused (k : Kernel) : Prop :=
  ∃ proc t dir mem t', pmmAllocBlock k.mem.pmm = (proc, t) ∧ proc ≠ 0 ∧
    vmmCloneDirectory { k.mem with pmm := t } k.mem.currentDirectory = some (dir, mem) ∧ dir ≠ 0 ∧
    pmmAllocBlocks mem.pmm (16384 / 4096) = (0, t')

section Create

variable {base : Finset ℕ} {k k' : Kernel} {live : List ℕ} {b proc last fuel : ℕ}

/-- The search for the end of the list. -/
theorem ListInv.lastProcess (h : ListInv base k live) (hlast : lastProcess fuel k = some last) :
    ∃ us, k.processList :: live = us ++ [last] := by
  obtain ⟨us, a, hus⟩ := (List.eq_nil_or_concat' (k.processList :: live)).resolve_left
    (List.cons_ne_nil _ _)
  have hseg := h.seg
  have h0 := h.ne_zero
  rw [hus] at hseg h0
  have hfound : iterate (searchTurn k.next fun p => k.next p == 0) (us.length + 1) k.processList =
      some a := iterate_search hseg (fun x hx => ?_) ?_ (Nat.lt_succ_self _)
  · exact ⟨us, by rw [hus, iterate_unique hfound hlast]⟩
  · have hmem := hseg.next_mem_of_mem_init hx
    rw [beq_eq_false_iff_ne]
    intro hnext
    exact h0 (hnext ▸ hmem)
  · rw [beq_iff_eq]
    exact hseg.next_eq

/-- `k₁` is `k` with the memory `m` and a record at `p` that is not linked. -/
structure Recorded (k k₁ : Kernel) (p : ℕ) (m : Mem) : Prop where
  mem : k₁.mem = m
  processList : k₁.processList = k.processList
  currentProcess : k₁.currentProcess = k.currentProcess
  pcb : ∀ x, x ≠ p → k₁.pcb x = k.pcb x
  state : (k₁.pcb p).state = .ready
  next : k₁.next p = 0

theorem recorded_newRecord (k : Kernel) (p : ℕ) (t : Pmm) (name : List UInt8)
    (priority : ProcessPriority) :
    Recorded k ((k.setPmm t).newRecord p name priority) p { k.mem with pmm := t } := by
  have hself : ((k.setPmm t).newRecord p name priority).pcb p =
      { Process.zero with name, pid := k.nextPid, state := .ready, priority } :=
    Kernel.setPcb_self _ _ _
  exact ⟨rfl, rfl, rfl, fun x hx => Kernel.setPcb_of_ne _ _ _ hx, congrArg Process.state hself,
    congrArg Process.next hself⟩

theorem Recorded.setMem {k₁ : Kernel} {p : ℕ} {m : Mem} (h : Recorded k k₁ p m) (m' : Mem) :
    Recorded k { k₁ with mem := m' } p m' :=
  ⟨rfl, h.processList, h.currentProcess, h.pcb, h.state, h.next⟩

theorem Recorded.setPmm {k₁ : Kernel} {p : ℕ} {m : Mem} (h : Recorded k k₁ p m) (u : Pmm) :
    Recorded k (k₁.setPmm u) p { m with pmm := u } := by
  have hmem := h.mem
  subst hmem
  exact h.setMem _

theorem Recorded.freeRecord {k₁ : Kernel} {p : ℕ} {m : Mem} (h : Recorded k k₁ p m) :
    Recorded k (k₁.freeRecord p) p { m with pmm := pmmFreeBlock m.pmm p } := by
  rw [Kernel.freeRecord, h.mem]
  exact h.setPmm _

/-- The record is written, but for its state and its link. -/
theorem Recorded.setPcb {k₁ : Kernel} {p : ℕ} {m : Mem} (h : Recorded k k₁ p m) {q : Process}
    (hstate : q.state = (k₁.pcb p).state) (hnext : q.next = k₁.next p) :
    Recorded k (k₁.setPcb p q) p m := by
  refine ⟨h.mem, h.processList, h.currentProcess, fun x hx => ?_, ?_, ?_⟩
  · rw [Kernel.setPcb_of_ne _ _ _ hx]
    exact h.pcb x hx
  · rw [Kernel.setPcb_self, hstate]
    exact h.state
  · rw [Kernel.next, Kernel.setPcb_self, hnext]
    exact h.next

/-- A record in a block that was free. -/
theorem Recorded.frame {k₁ : Kernel} {m : Mem} (h : Recorded k k₁ (b * 4096) m)
    (hlist : ListInv base k live) (hfree : b ∉ k.mem.pmm.usedSet)
    (hdir : m.currentDirectory = k.mem.currentDirectory)
    (hram : ∃ U, Disjoint k.mem.pmm.usedSet U ∧ SameOutside k.mem m U)
    (hused : k.mem.pmm.usedSet ⊆ m.pmm.usedSet) : Frame k k₁ live := by
  refine ⟨h.processList, h.currentProcess, by rw [h.mem, hdir], fun x hx => h.pcb x ?_,
    by rwa [h.mem], by rwa [h.mem]⟩
  rintro rfl
  refine hlist.notMem_of_free ?_ hx
  rwa [Nat.mul_div_cancel _ (by decide)]

/-- A creation that fails gives back the block of the record. -/
theorem Recorded.failed {k₁ : Kernel} {m : Mem} (h : Recorded k k₁ (b * 4096) m)
    (hlist : ListInv base k live) {t : Pmm} (ht : Takes k.mem.pmm t {b})
    (hB : ∃ B, Takes t m.pmm B) (hram : ∃ U, Disjoint t.usedSet U ∧ SameOutside k.mem m U)
    (hdir : m.currentDirectory = k.mem.currentDirectory) :
    Frame k (k₁.freeRecord (b * 4096)) live ∧
      ∃ B, Takes k.mem.pmm (k₁.freeRecord (b * 4096)).mem.pmm B := by
  obtain ⟨B, hB⟩ := hB
  obtain ⟨U, hU, hsame⟩ := hram
  have hdiv : b * 4096 / 4096 = b := Nat.mul_div_cancel _ (by decide)
  have hall := ht.trans hB
  have hb : b ∈ {b} ∪ B := Finset.mem_union_left _ (Finset.mem_singleton_self b)
  have hgives : Gives m.pmm (pmmFreeBlock m.pmm (b * 4096)) {b} := by
    have := gives_pmmFreeBlock (s := m.pmm) (p := b * 4096)
      (by rw [hdiv]; exact hall.taken_subset hb)
    rwa [hdiv] at this
  have htakes := hall.give hgives (Finset.singleton_subset_iff.mpr hb)
  have hrecorded := h.freeRecord
  refine ⟨hrecorded.frame hlist (ht.notMem (Finset.mem_singleton_self b)) hdir
    ⟨U, hU.mono_left ht.subset, hsame⟩ htakes.subset, ({b} ∪ B) \ {b}, ?_⟩
  rw [hrecorded.mem]
  exact htakes

/-- Freeing a clone without kernel tables, after the stack was refused. -/
theorem takes_of_refused {m₀ m : Mem} {src dest : ℕ} {block : CloneSlot → ℕ} {T : Finset ℕ}
    (hinv : CloneInv m₀ src dest 1024 (1024 * 1024) block T m) (hno : NoKernel m₀ src) {t : Pmm}
    {B : Finset ℕ} (ht : Takes m.pmm t B) :
    ∃ u, vmmFreeDirectory { m with pmm := t } dest = { m with pmm := u } ∧
      ∃ B, Takes m₀.pmm u B := by
  obtain ⟨u, heq, hu⟩ := hinv.freeDirectory (fun i hi _ hge => hno i hi hge) ht
  exact ⟨u, heq, _, hu⟩

/-- A process whose blocks were free is put at the end of the list. -/
theorem SchedInv.start (h : SchedInv base k live) (hf : Frame k k' live)
    (hok : ProcOk k' base proc) {A : Finset ℕ} (htaken : Takes k.mem.pmm k'.mem.pmm A)
    (hsub : k'.owned proc ⊆ A) (hstate : (k'.pcb proc).state = .ready)
    (hnext : k'.next proc = 0) (hlast : lastProcess fuel k' = some last) :
    SchedInv base (k'.setNext last proc) (live ++ [proc]) := by
  have h' := h.frame hf
  obtain ⟨us, hus⟩ := h'.list.lastProcess hlast
  have hfree : ∀ B ⊆ k.mem.pmm.usedSet, Disjoint B (k'.owned proc) := fun B hB =>
    (htaken.free.mono_left hB).mono_right hsub
  refine h'.append hok (hsub.trans htaken.taken_subset) (hfree _ h.list.base_used) (fun p hp => ?_)
    ?_ (hstate ▸ fun hcon => nomatch hcon) hnext hus
  · obtain ⟨U, hU, hsame⟩ := hf.ram
    have hpcb := hf.pcb p (List.mem_cons_of_mem _ hp)
    have howned : k'.owned p = k.owned p := by
      refine owned_congr (by rw [hpcb]; exact SameOwner.refl _) fun i hi => ?_
      exact word_eq_of_owned (h.list.proc p hp).dir.aligned hsame
        (hU.mono_left (h.list.owned_used p hp)) hi
    rw [howned]
    exact hfree _ (h.list.owned_used p hp)
  · rw [hf.processList]
    exact h.list.notMem_of_free (htaken.notMem (hsub (mem_owned_self k' proc)))

/-- The kernel once the stack of the new process is set up. -/
theorem startProcess_eq (k : Kernel) (p : ℕ) {stack : ℕ} (hmod : stack % 4096 = 0)
    (entry arg : UInt32) :
    ∃ mem esp ebp, SameOutside k.mem mem (Finset.Ico (stack / 4096) (stack / 4096 + 4)) ∧
      mem.pmm = k.mem.pmm ∧ mem.currentDirectory = k.mem.currentDirectory ∧
      k.startProcess p stack entry arg = ({ k with mem } : Kernel).setPcb p
        { k.pcb p with stackSize := 16384, stack, esp, ebp, eip := entry } := by
  obtain ⟨hpush, hpmm, hcur⟩ := foldl_push (firstFrame entry arg) k.mem
    (show stack + 4 * 13 ≤ stack + 16384 by omega) (Nat.le_refl _) hmod
  exact ⟨_, _, _, hpush, hpmm, hcur, rfl⟩

theorem Recorded.startProcess {k₁ : Kernel} {p : ℕ} {m : Mem} (h : Recorded k k₁ p m) {stack : ℕ}
    (hmod : stack % 4096 = 0) (entry arg : UInt32) :
    ∃ mem, SameOutside m mem (Finset.Ico (stack / 4096) (stack / 4096 + 4)) ∧
      mem.pmm = m.pmm ∧ mem.currentDirectory = m.currentDirectory ∧
      Recorded k (k₁.startProcess p stack entry arg) p mem ∧
      ((k₁.startProcess p stack entry arg).pcb p).pageDirectory = (k₁.pcb p).pageDirectory ∧
      ((k₁.startProcess p stack entry arg).pcb p).stack = stack ∧
      ((k₁.startProcess p stack entry arg).pcb p).stackSize = 16384 := by
  obtain ⟨mem, esp, ebp, hsame, hpmm, hcur, heq⟩ := startProcess_eq k₁ p hmod entry arg
  rw [h.mem] at hsame hpmm hcur
  rw [heq]
  refine ⟨mem, hsame, hpmm, hcur, (h.setMem mem).setPcb rfl rfl, ?_, ?_, ?_⟩
  all_goals rw [Kernel.setPcb_self]

/-- The record of a process whose directory and stack are in blocks of their own, and what the
process owns then. -/
theorem procOk_started {mem : Mem} {dest : ℕ} {T : Finset ℕ} (hmem : k.mem = mem) (hb0 : b ≠ 0)
    (hdir : (k.pcb (b * 4096)).pageDirectory = dest) (hstack : (k.pcb (b * 4096)).stack ≠ 0)
    (huser : UserDir mem base dest) (hsub : userBlocks mem dest ⊆ T) (hbT : b ∉ T)
    (hbS : b ∉ (k.pcb (b * 4096)).stackBlocks)
    (hTS : Disjoint T (k.pcb (b * 4096)).stackBlocks) :
    ProcOk k base (b * 4096) ∧
      k.owned (b * 4096) ⊆ {b} ∪ (T ∪ (k.pcb (b * 4096)).stackBlocks) := by
  have hdiv : b * 4096 / 4096 = b := Nat.mul_div_cancel _ (by decide)
  constructor
  · refine ⟨by omega, Nat.mul_mod_left _ _, hstack, ?_, ?_, ?_, ?_⟩
    · rwa [hmem, hdir]
    · rwa [hdiv]
    · rw [hdiv, hmem, hdir]
      exact fun hcon => hbT (hsub hcon)
    · rw [hmem, hdir]
      exact hTS.symm.mono_right hsub
  · rw [Kernel.owned, hdiv, hmem, hdir, Finset.insert_eq]
    refine Finset.union_subset_union_right (Finset.union_subset Finset.subset_union_right ?_)
    exact hsub.trans Finset.subset_union_left

/-- The new process once its stack is set up: the record, the directory and the stack are in blocks
that were free, three times apart. -/
theorem Recorded.started {k₁ : Kernel} {m : Mem} {u : Pmm}
    (hk₁ : Recorded k k₁ (b * 4096) { m with pmm := u }) (h : ListInv base k live) {t : Pmm}
    (ht : Takes k.mem.pmm t {b}) (hb0 : b ≠ 0) {src dest : ℕ} {block : CloneSlot → ℕ}
    {T : Finset ℕ} (hsrc : SrcOk { k.mem with pmm := t } src)
    (hkernel : ∀ i < 1024, 768 ≤ i → present (k.mem.word src i) = true →
      tableBlock k.mem src i ∈ base)
    (hinv : CloneInv { k.mem with pmm := t } src dest 1024 (1024 * 1024) block T m)
    (hdest : (k₁.pcb (b * 4096)).pageDirectory = dest) {stack : ℕ} (hstack : stack ≠ 0)
    (hmod : stack % 4096 = 0)
    (hu : Takes m.pmm u (Finset.Ico (stack / 4096) (stack / 4096 + 4))) {entry arg : UInt32}
    (hk' : k₁.startProcess (b * 4096) stack entry arg = k') :
    Recorded k k' (b * 4096) k'.mem ∧ Frame k k' live ∧ ProcOk k' base (b * 4096) ∧
      ∃ A, Takes k.mem.pmm k'.mem.pmm A ∧ k'.owned (b * 4096) ⊆ A := by
  obtain ⟨mem, hpush, hpmm, hcur, hrecorded, hdir', hstack', hsize⟩ :=
    hk₁.startProcess hmod entry arg
  rw [hk'] at hrecorded hdir' hstack' hsize
  obtain rfl := hrecorded.mem
  have htaken := ht.trans (hinv.blocks.takes.trans hu)
  have hTS := hinv.blocks.takes.disjoint_of_trans hu
  have hb := Finset.disjoint_left.mp (ht.disjoint_of_trans (hinv.blocks.takes.trans hu))
    (Finset.mem_singleton_self b)
  rw [Finset.mem_union, not_or] at hb
  obtain ⟨hdir, hsub⟩ := hinv.userDir hsrc hkernel
  have hword : ∀ i < 1024, k'.mem.word dest i = m.word dest i := fun i hi =>
    hpush.word hinv.dest_mod hi
      (Finset.disjoint_left.mp hTS (hsub (Finset.mem_insert_self _ _)))
  have huser : userBlocks k'.mem dest ⊆ T := by
    rw [userBlocks_congr hword]
    exact hsub
  have hstackBlocks : (k'.pcb (b * 4096)).stackBlocks =
      Finset.Ico (stack / 4096) (stack / 4096 + 4) := by
    rw [Process.stackBlocks, hstack', hsize]
  have hall : Takes k.mem.pmm k'.mem.pmm
      ({b} ∪ (T ∪ Finset.Ico (stack / 4096) (stack / 4096 + 4))) := by
    rw [hpmm]
    exact htaken
  have hframe : Frame k k' live :=
    hrecorded.frame h (ht.notMem (Finset.mem_singleton_self b))
      (hcur.trans hinv.blocks.current)
      ⟨_, hall.free.mono_right Finset.subset_union_right, hinv.blocks.same.trans hpush⟩
      hall.subset
  rw [← hstackBlocks] at hb hTS hall
  obtain ⟨hok, howned⟩ := procOk_started rfl hb0 (hdir'.trans hdest) (by rwa [hstack'])
    (hdir.congr hword) huser hb.1 hb.2 hTS
  exact ⟨hrecorded, hframe, hok, _, hall, howned⟩

/-- The creation from the stack on. -/
theorem processStack_spec (h : SchedInv base k live) {t : Pmm} (ht : Takes k.mem.pmm t {b})
    (hb0 : b ≠ 0) {m : Mem} {src dest : ℕ} {block : CloneSlot → ℕ} {T : Finset ℕ}
    (hsrc : SrcOk { k.mem with pmm := t } src)
    (hkernel : ∀ i < 1024, 768 ≤ i → present (k.mem.word src i) = true →
      tableBlock k.mem src i ∈ base)
    (hinv : CloneInv { k.mem with pmm := t } src dest 1024 (1024 * 1024) block T m)
    (hsafe : ∀ t', pmmAllocBlocks m.pmm (16384 / 4096) = (0, t') → NoKernel k.mem src)
    {k₁ : Kernel} (hk₁ : Recorded k k₁ (b * 4096) m)
    (hdest : (k₁.pcb (b * 4096)).pageDirectory = dest) {entry arg : UInt32}
    (hcreate : processStack fuel k₁ (b * 4096) entry arg = some (proc, k')) :
    SchedInv base k' (live ++ if proc = 0 then [] else [proc]) ∧
      ∃ B, Takes k.mem.pmm k'.mem.pmm B := by
  have hptr : b * 4096 ≠ 0 := by omega
  rcases halloc : pmmAllocBlocks m.pmm (16384 / 4096) with ⟨stack, u⟩
  rw [processStack, hk₁.mem, halloc] at hcreate
  dsimp only at hcreate
  split_ifs at hcreate with hstack
  · -- no stack: the directory and the record are given back
    subst hstack
    obtain ⟨rfl, rfl⟩ := Prod.mk.inj (Option.some_inj.mp hcreate)
    obtain ⟨B, hB⟩ := takes_of_pmmAllocBlocks_zero halloc
    obtain ⟨v, hfree, hv⟩ := takes_of_refused hinv (hsafe u halloc) hB
    have hmem : vmmFreeDirectory (k₁.setPmm u).mem ((k₁.setPmm u).pcb (b * 4096)).pageDirectory =
        { m with pmm := v } := by
      rw [← hfree, ← hdest, ← hk₁.mem]
      rfl
    have hk₂ := hk₁.setMem { m with pmm := v }
    rw [hmem]
    obtain ⟨hf, htakes⟩ := hk₂.failed h.list ht hv
      ⟨T, hinv.blocks.takes.free, hinv.blocks.same⟩ hinv.blocks.current
    rw [if_pos rfl, List.append_nil]
    exact ⟨h.frame hf, htakes⟩
  · obtain ⟨last, hlast, heq⟩ := Option.map_eq_some_iff.mp hcreate
    obtain ⟨rfl, rfl⟩ := Prod.mk.inj heq
    obtain ⟨haddr, -, hu⟩ := takes_of_pmmAllocBlocks halloc hstack
    have hmod : stack % 4096 = 0 := by omega
    obtain ⟨hrecorded, hframe, hok, A, hall, howned⟩ := (hk₁.setPmm u).started h.list ht hb0 hsrc
      hkernel hinv hdest hstack hmod hu rfl
    rw [if_neg hptr]
    exact ⟨h.start hframe hok hall howned hrecorded.state hrecorded.next hlast, _, hall⟩

/-- **A creation that returns keeps the invariant** and frees nothing that was in use, unless it
has no stack for a process that shares kernel tables. -/
theorem processCreate_spec (h : SchedInv base k live)
    (hsafe : StackRefused k → NoKernel k.mem k.mem.currentDirectory) {name : List UInt8}
    {entry arg : UInt32} {priority : ProcessPriority}
    (hcreate : processCreate fuel k name entry arg priority = some (proc, k')) :
    SchedInv base k' (live ++ if proc = 0 then [] else [proc]) ∧
      ∃ B, Takes k.mem.pmm k'.mem.pmm B := by
  have hsrc₀ := h.list.srcOk h.current.mem
  have hkernel : ∀ i < 1024, 768 ≤ i → present (k.mem.word k.mem.currentDirectory i) = true →
      tableBlock k.mem k.mem.currentDirectory i ∈ base := by
    intro i hi hge
    rw [h.current.directory]
    exact h.list.kernel_mem h.current.mem hi hge
  rw [← h.current.directory] at hsrc₀
  rw [processCreate] at hcreate
  rcases pmmAllocBlock_takes k.mem.pmm with ⟨t, halloc, B, -, ht⟩ | ⟨b, t, halloc, hb0, -, ht⟩
  · rw [halloc] at hcreate
    obtain ⟨rfl, rfl⟩ := Prod.mk.inj (Option.some_inj.mp hcreate)
    rw [if_pos rfl, List.append_nil]
    exact ⟨h.frame ⟨rfl, rfl, rfl, fun _ _ => rfl, ⟨∅, Finset.disjoint_empty_right _,
      fun _ _ => rfl⟩, ht.subset⟩, B, ht⟩
  have hptr : b * 4096 ≠ 0 := by omega
  rw [halloc] at hcreate
  dsimp only at hcreate
  rw [if_neg hptr] at hcreate
  split_ifs at hcreate with hname
  have hk₁ := recorded_newRecord k (b * 4096) t name priority
  generalize (k.setPmm t).newRecord (b * 4096) name priority = k₁ at *
  have hsrc := hsrc₀.mono ht.subset
  rw [processClone, hk₁.mem] at hcreate
  cases hclone : vmmCloneDirectory { k.mem with pmm := t } k.mem.currentDirectory with
  | none =>
    rw [hclone] at hcreate
    cases hcreate
  | some e =>
    obtain ⟨dir, m⟩ := e
    rw [hclone] at hcreate
    dsimp only at hcreate
    have hk₂ : ∀ d, Recorded k (({ k₁ with mem := m } : Kernel).setPcb (b * 4096)
        { k₁.pcb (b * 4096) with pageDirectory := d }) (b * 4096) m :=
      fun _ => (hk₁.setMem m).setPcb rfl rfl
    rcases vmmCloneDirectory_spec hsrc hclone with ⟨rfl, hfailed⟩ | ⟨block, T, hinv⟩
    · rw [if_pos rfl] at hcreate
      obtain ⟨rfl, rfl⟩ := Prod.mk.inj (Option.some_inj.mp hcreate)
      obtain ⟨hf, htakes⟩ := (hk₂ 0).failed h.list ht hfailed.takes hfailed.same hfailed.current
      rw [if_pos rfl, List.append_nil]
      exact ⟨h.frame hf, htakes⟩
    · rw [if_neg hinv.dest_ne_zero] at hcreate
      refine processStack_spec h ht hb0 hsrc hkernel hinv (fun t' ht' => hsafe ?_) (hk₂ dir)
        ?_ hcreate
      · exact ⟨b * 4096, t, dir, m, t', halloc, hptr, hclone, hinv.dest_ne_zero, ht'⟩
      · rw [Kernel.setPcb_self]

/-- A creation where the current directory has kernel entries only, as far as the stack. -/
theorem processCreate_of_kernel {name : List UInt8} {entry arg : UInt32}
    {priority : ProcessPriority} {d : ℕ} {t u : Pmm} (hname : name.length < 32)
    (hsrc : SrcOk { k.mem with pmm := t } k.mem.currentDirectory)
    (huser : ∀ i < 768, present (k.mem.word k.mem.currentDirectory i) = false)
    (hb : pmmAllocBlock k.mem.pmm = (b * 4096, t)) (hb0 : b ≠ 0)
    (hd : pmmAllocBlock t = (d * 4096, u)) (hd0 : d ≠ 0) :
    ∃ k₁ m, processCreate fuel k name entry arg priority =
        processStack fuel k₁ (b * 4096) entry arg ∧
      Recorded k k₁ (b * 4096) m ∧ (k₁.pcb (b * 4096)).pageDirectory = d * 4096 ∧ m.pmm = u ∧
      m.currentDirectory = k.mem.currentDirectory ∧ SameOutside k.mem m {d} ∧
      ∀ i < 1024, (present (m.word (d * 4096) i) = true ↔
          present (k.mem.word k.mem.currentDirectory i) = true) ∧
        (present (k.mem.word k.mem.currentDirectory i) = true →
          m.word (d * 4096) i = k.mem.word k.mem.currentDirectory i) := by
  have hptr : b * 4096 ≠ 0 := Nat.mul_ne_zero hb0 (by decide)
  have hdir : d * 4096 ≠ 0 := Nat.mul_ne_zero hd0 (by decide)
  obtain ⟨m, hclone, hpmm, hcur, hsame, hword⟩ :=
    vmmCloneDirectory_of_kernel hsrc huser hd hd0
  have hpresent : ∀ i < 1024, present (m.word (d * 4096) i) = true ↔
      present (k.mem.word k.mem.currentDirectory i) = true := by
    rcases vmmCloneDirectory_spec hsrc hclone with ⟨hzero, -⟩ | ⟨block, T, hinv⟩
    · exact absurd hzero hdir
    · exact fun i hi => (hinv.present_dirWord hi).trans (and_iff_right hi)
  have hk₁ := recorded_newRecord k (b * 4096) t name priority
  refine ⟨(({ (k.setPmm t).newRecord (b * 4096) name priority with mem := m } : Kernel).setPcb
    (b * 4096) { ((k.setPmm t).newRecord (b * 4096) name priority).pcb (b * 4096) with
      pageDirectory := d * 4096 }), m, ?_, ?_, ?_, hpmm, hcur, hsame,
    fun i hi => ⟨hpresent i hi, hword i hi⟩⟩
  · rw [processCreate, hb]
    dsimp only
    rw [if_neg hptr, if_neg (Nat.not_le.mpr hname), processClone, hk₁.mem, hclone]
    exact if_neg hdir
  · exact (hk₁.setMem m).setPcb rfl rfl
  · rw [Kernel.setPcb_self]

end Create

end Rexus
