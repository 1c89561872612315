import Rexus.Mem.VmmClone
import Rexus.Proc.Walk

/-!
# What a process owns

A created process owns blocks of the allocator: its control block, its stack, its directory and the
user tables of its directory. The kernel tables it only borrows. The blocks in use when the first
process starts, the idle process and its directory among them, are the *base*: nothing of it is ever
freed, unless a directory that refers to kernel tables is.

## Main results

* `ListInv` — the invariant of the list: what its processes own is in use, disjoint, and apart from
  the base; `ListInv.transfer` says which changes keep it
* `gives_freeProcesses` — reaping processes without kernel tables gives back what they own

## Conventions

Ownership is said of blocks, by their numbers, and is read off the record of a process and the
entries of its directory: nothing stores it. The base is a set that is fixed when the first process
starts. Two processes own disjoint sets, none of which meets the base, and all of them are in use,
which is what a free of one of them needs for leaving the others alone.

A directory that refers to kernel tables shares them with every other that does, and
`vmm_free_directory` does not know. So reaping such a process frees part of the base, and from then
on the invariant is gone; the lemmas about reaping have it as a hypothesis, `NoKernel`, that the
directory refers to none.
-/

namespace Rexus

open Linked Loop Mem Pmm

/-! ### Directories -/

/-- No entry of the kernel's part of `dir` is present. -/
def NoKernel (m : Mem) (dir : ℕ) : Prop := ∀ i < 1024, 768 ≤ i → present (m.word dir i) = false

/-- The block of a directory and those of its user tables. -/
def userBlocks (m : Mem) (dir : ℕ) : Finset ℕ := insert (dir / 4096) (tableBlocks m dir 768)

/-- The directory of a created process: its user tables are its own, its kernel tables are in
`base`. -/
structure UserDir (m : Mem) (base : Finset ℕ) (dir : ℕ) : Prop where
  ne_zero : dir ≠ 0
  aligned : dir % 4096 = 0
  table_ne_zero : ∀ i < 1024, present (m.word dir i) = true → tableOf (m.word dir i) ≠ 0
  inj : ∀ i < 768, ∀ j < 768, present (m.word dir i) = true → present (m.word dir j) = true →
    tableBlock m dir i = tableBlock m dir j → i = j
  ne_dir : ∀ i < 768, present (m.word dir i) = true → tableBlock m dir i ≠ dir / 4096
  kernel : ∀ i < 1024, 768 ≤ i → present (m.word dir i) = true → tableBlock m dir i ∈ base

section Directories

variable {m m' : Mem} {base : Finset ℕ} {dir : ℕ}

theorem userBlocks_congr (hword : ∀ i < 1024, m'.word dir i = m.word dir i) :
    userBlocks m' dir = userBlocks m dir := by
  rw [userBlocks, userBlocks, tableBlocks_congr (by decide) hword]

theorem UserDir.congr (h : UserDir m base dir) (hword : ∀ i < 1024, m'.word dir i = m.word dir i) :
    UserDir m' base dir where
  ne_zero := h.ne_zero
  aligned := h.aligned
  table_ne_zero i hi := by
    rw [hword i hi]
    exact h.table_ne_zero i hi
  inj i hi j hj := by
    rw [tableBlock, tableBlock, hword i (by omega), hword j (by omega)]
    exact h.inj i hi j hj
  ne_dir i hi := by
    rw [tableBlock, hword i (by omega)]
    exact h.ne_dir i hi
  kernel i hi hge := by
    rw [tableBlock, hword i hi]
    exact h.kernel i hi hge

/-- Without kernel tables a directory frees its own blocks and no others. -/
theorem directoryBlocks_of_noKernel (hno : NoKernel m dir) :
    directoryBlocks m dir = userBlocks m dir := by
  refine congrArg (insert (dir / 4096)) (Finset.ext fun b => ?_)
  rw [mem_tableBlocks, mem_tableBlocks]
  constructor
  · rintro ⟨i, hi, hp, hb⟩
    refine ⟨i, ?_, hp, hb⟩
    by_contra hge
    rw [hno i hi (by omega)] at hp
    exact Bool.noConfusion hp
  · rintro ⟨i, hi, hp, hb⟩
    exact ⟨i, by omega, hp, hb⟩

theorem UserDir.gives (h : UserDir m base dir) (hno : NoKernel m dir)
    (hused : userBlocks m dir ⊆ m.pmm.usedSet) :
    Gives m.pmm (vmmFreeDirectory m dir).pmm (userBlocks m dir) := by
  rw [← directoryBlocks_of_noKernel hno] at hused ⊢
  have huser : ∀ i < 1024, present (m.word dir i) = true → i < 768 := by
    intro i hi hp
    by_contra hge
    rw [hno i hi (by omega)] at hp
    exact Bool.noConfusion hp
  refine gives_vmmFreeDirectory h.ne_zero ⟨fun i hi hp => ?_, fun i hi j hj hpi hpj => ?_, ?_,
    fun i hi hp => h.ne_dir i (huser i hi hp) hp⟩
  · exact hused (Finset.mem_insert_of_mem (mem_tableBlocks.mpr ⟨i, hi, hp, rfl⟩))
  · exact h.inj i (huser i hi hpi) j (huser j hj hpj) hpi hpj
  · exact hused (Finset.mem_insert_self _ _)

/-- Such a directory can be cloned. -/
theorem UserDir.srcOk (h : UserDir m base dir) (hused : userBlocks m dir ⊆ m.pmm.usedSet)
    (hbase : base ⊆ m.pmm.usedSet) : SrcOk m dir where
  dir := ⟨h.ne_zero, h.aligned, hused (Finset.mem_insert_self _ _)⟩
  table i hi hp := by
    refine ⟨h.table_ne_zero i hi hp, tableOf_mod _, ?_⟩
    rcases Nat.lt_or_ge i 768 with hlt | hge
    · exact hused (Finset.mem_insert_of_mem (mem_tableBlocks.mpr ⟨i, hlt, hp, rfl⟩))
    · exact hbase (h.kernel i hi hge hp)

end Directories

/-! ### Processes -/

/-- The blocks of the stack of a process. -/
def Process.stackBlocks (q : Process) : Finset ℕ :=
  Finset.Ico (q.stack / 4096) (q.stack / 4096 + q.stackSize / 4096)

/-- What process `p` owns. -/
def Kernel.owned (k : Kernel) (p : ℕ) : Finset ℕ :=
  insert (p / 4096) ((k.pcb p).stackBlocks ∪ userBlocks k.mem (k.pcb p).pageDirectory)

/-- Two records of one process, which own the same. -/
structure SameOwner (q q' : Process) : Prop where
  pageDirectory : q'.pageDirectory = q.pageDirectory
  stack : q'.stack = q.stack
  stackSize : q'.stackSize = q.stackSize

theorem SameOwner.refl (q : Process) : SameOwner q q := ⟨rfl, rfl, rfl⟩

/-- A created process: a record of its own page, with a stack and a directory of a user, none of
which shares a block with another of the three. -/
structure ProcOk (k : Kernel) (base : Finset ℕ) (p : ℕ) : Prop where
  ne_zero : p ≠ 0
  aligned : p % 4096 = 0
  stack : (k.pcb p).stack ≠ 0
  dir : UserDir k.mem base (k.pcb p).pageDirectory
  stack_notMem : p / 4096 ∉ (k.pcb p).stackBlocks
  dir_notMem : p / 4096 ∉ userBlocks k.mem (k.pcb p).pageDirectory
  disjoint : Disjoint (k.pcb p).stackBlocks (userBlocks k.mem (k.pcb p).pageDirectory)

section Processes

variable {k k' : Kernel} {base : Finset ℕ} {p : ℕ} {t : Pmm}

theorem mem_owned_self (k : Kernel) (p : ℕ) : p / 4096 ∈ k.owned p := Finset.mem_insert_self _ _

theorem stackBlocks_subset_owned : (k.pcb p).stackBlocks ⊆ k.owned p :=
  fun _ hb => Finset.mem_insert_of_mem (Finset.mem_union_left _ hb)

theorem userBlocks_subset_owned : userBlocks k.mem (k.pcb p).pageDirectory ⊆ k.owned p :=
  fun _ hb => Finset.mem_insert_of_mem (Finset.mem_union_right _ hb)

/-- The words of the directory of a process, once what is written is outside what it owns. -/
theorem word_eq_of_owned (hdir : (k.pcb p).pageDirectory % 4096 = 0) {U : Finset ℕ}
    (hsame : SameOutside k.mem k'.mem U) (hU : Disjoint (k.owned p) U) {i : ℕ} (hi : i < 1024) :
    k'.mem.word (k.pcb p).pageDirectory i = k.mem.word (k.pcb p).pageDirectory i :=
  hsame.word hdir hi (Finset.disjoint_left.mp hU
    (userBlocks_subset_owned (Finset.mem_insert_self _ _)))

theorem owned_congr (hq : SameOwner (k.pcb p) (k'.pcb p))
    (hword : ∀ i < 1024, k'.mem.word (k.pcb p).pageDirectory i =
      k.mem.word (k.pcb p).pageDirectory i) : k'.owned p = k.owned p := by
  rw [Kernel.owned, Kernel.owned, Process.stackBlocks, Process.stackBlocks, hq.pageDirectory,
    hq.stack, hq.stackSize, userBlocks_congr hword]

theorem ProcOk.congr (h : ProcOk k base p) (hq : SameOwner (k.pcb p) (k'.pcb p))
    (hword : ∀ i < 1024, k'.mem.word (k.pcb p).pageDirectory i =
      k.mem.word (k.pcb p).pageDirectory i) : ProcOk k' base p := by
  have hstack : (k'.pcb p).stackBlocks = (k.pcb p).stackBlocks := by
    rw [Process.stackBlocks, hq.stack, hq.stackSize]
    rfl
  have huser : userBlocks k'.mem (k'.pcb p).pageDirectory =
      userBlocks k.mem (k.pcb p).pageDirectory := by
    rw [hq.pageDirectory, userBlocks_congr hword]
  refine ⟨h.ne_zero, h.aligned, ?_, ?_, ?_, ?_, ?_⟩
  · rw [hq.stack]
    exact h.stack
  · rw [hq.pageDirectory]
    exact h.dir.congr hword
  · rw [hstack]
    exact h.stack_notMem
  · rw [huser]
    exact h.dir_notMem
  · rw [hstack, huser]
    exact h.disjoint

/-- Reaping a process without kernel tables gives back what it owns. -/
theorem ProcOk.gives (h : ProcOk k base p) (hno : NoKernel k.mem (k.pcb p).pageDirectory)
    (hused : k.owned p ⊆ t.usedSet) : Gives t (k.freeProcess t p) (k.owned p) := by
  have hstack := gives_pmmFreeBlocks (s := t) (p := (k.pcb p).stack)
    (n := (k.pcb p).stackSize / 4096) (stackBlocks_subset_owned.trans hused)
  -- what the stack gives back leaves the directory and the control block in use
  have huser : userBlocks k.mem (k.pcb p).pageDirectory ⊆
      (pmmFreeBlocks t (k.pcb p).stack ((k.pcb p).stackSize / 4096)).usedSet := by
    rw [hstack.usedSet]
    exact Finset.subset_sdiff.mpr ⟨userBlocks_subset_owned.trans hused, h.disjoint.symm⟩
  have hcongr : UserDir { k.mem with
      pmm := pmmFreeBlocks t (k.pcb p).stack ((k.pcb p).stackSize / 4096) } base
      (k.pcb p).pageDirectory := h.dir.congr fun _ _ => rfl
  have hdir := hcongr.gives hno huser
  have hboth := hstack.trans hdir
  have hself : p / 4096 ∈ (vmmFreeDirectory { k.mem with
      pmm := pmmFreeBlocks t (k.pcb p).stack ((k.pcb p).stackSize / 4096) }
      (k.pcb p).pageDirectory).pmm.usedSet := by
    rw [hboth.usedSet, Finset.mem_sdiff, Finset.mem_union, not_or]
    exact ⟨hused (mem_owned_self k p), h.stack_notMem, h.dir_notMem⟩
  have hall := hboth.trans (gives_pmmFreeBlock hself)
  rw [Finset.union_comm _ {p / 4096}, ← Finset.insert_eq] at hall
  rw [Kernel.freeProcess, if_neg h.stack]
  exact hall

end Processes

/-! ### The list -/

/-- What the processes of `rs` own. -/
def Kernel.ownedBy (k : Kernel) (rs : List ℕ) : Finset ℕ := rs.toFinset.biUnion k.owned

theorem mem_ownedBy {k : Kernel} {rs : List ℕ} {b : ℕ} :
    b ∈ k.ownedBy rs ↔ ∃ p ∈ rs, b ∈ k.owned p := by
  simp [Kernel.ownedBy]

/-- Reaping processes without kernel tables gives back what they own. -/
theorem gives_freeProcesses {k : Kernel} {base : Finset ℕ} {rs : List ℕ}
    (hok : ∀ p ∈ rs, ProcOk k base p) (hno : ∀ p ∈ rs, NoKernel k.mem (k.pcb p).pageDirectory)
    (hdis : rs.Pairwise fun p q => Disjoint (k.owned p) (k.owned q)) {t : Pmm}
    (hused : ∀ p ∈ rs, k.owned p ⊆ t.usedSet) :
    Gives t (rs.foldl k.freeProcess t) (k.ownedBy rs) := by
  induction rs generalizing t with
  | nil => exact Gives.refl t
  | cons p rs ih =>
    obtain ⟨hp, hrs⟩ := List.pairwise_cons.mp hdis
    have hfirst := (hok p List.mem_cons_self).gives (hno p List.mem_cons_self)
      (hused p List.mem_cons_self)
    have hrest := ih (fun q hq => hok q (List.mem_cons_of_mem p hq))
      (fun q hq => hno q (List.mem_cons_of_mem p hq)) hrs (t := k.freeProcess t p) fun q hq => by
        rw [hfirst.usedSet]
        exact Finset.subset_sdiff.mpr ⟨hused q (List.mem_cons_of_mem p hq), (hp q hq).symm⟩
    have hunion : k.ownedBy (p :: rs) = k.owned p ∪ k.ownedBy rs := by
      rw [Kernel.ownedBy, List.toFinset_cons, Finset.biUnion_insert]
      rfl
    rw [hunion]
    exact hfirst.trans hrest

/-- The idle process: its control block, its directory and the tables of its directory are in the
base. -/
structure IdleOk (k : Kernel) (base : Finset ℕ) : Prop where
  ne_zero : k.processList ≠ 0
  aligned : k.processList % 4096 = 0
  mem : k.processList / 4096 ∈ base
  dir_ne_zero : (k.pcb k.processList).pageDirectory ≠ 0
  dir_aligned : (k.pcb k.processList).pageDirectory % 4096 = 0
  dir_mem : (k.pcb k.processList).pageDirectory / 4096 ∈ base
  table : ∀ i < 1024, present (k.mem.word (k.pcb k.processList).pageDirectory i) = true →
    tableOf (k.mem.word (k.pcb k.processList).pageDirectory i) ≠ 0 ∧
      tableBlock k.mem (k.pcb k.processList).pageDirectory i ∈ base

/-- **The invariant of the list**: the idle process and behind it `live`, the created processes. -/
structure ListInv (base : Finset ℕ) (k : Kernel) (live : List ℕ) : Prop where
  seg : Seg k.next k.processList (k.processList :: live) 0
  nodup : (k.processList :: live).Nodup
  idle : IdleOk k base
  proc : ∀ p ∈ live, ProcOk k base p
  base_used : base ⊆ k.mem.pmm.usedSet
  owned_used : ∀ p ∈ live, k.owned p ⊆ k.mem.pmm.usedSet
  owned_base : ∀ p ∈ live, Disjoint base (k.owned p)
  disjoint : live.Pairwise fun p q => Disjoint (k.owned p) (k.owned q)

namespace ListInv

variable {base : Finset ℕ} {k k' : Kernel} {live live' : List ℕ} {p : ℕ}

theorem ne_zero (h : ListInv base k live) : 0 ∉ k.processList :: live := by
  intro hmem
  rcases List.mem_cons.mp hmem with heq | hmem
  · exact h.idle.ne_zero heq.symm
  · exact (h.proc 0 hmem).ne_zero rfl

/-- The directories of the listed processes can be cloned. -/
theorem srcOk (h : ListInv base k live) (hp : p ∈ k.processList :: live) :
    SrcOk k.mem (k.pcb p).pageDirectory := by
  rcases List.mem_cons.mp hp with rfl | hp
  · exact ⟨⟨h.idle.dir_ne_zero, h.idle.dir_aligned, h.base_used h.idle.dir_mem⟩, fun i hi hpres =>
      ⟨(h.idle.table i hi hpres).1, tableOf_mod _, h.base_used (h.idle.table i hi hpres).2⟩⟩
  · exact (h.proc p hp).dir.srcOk (userBlocks_subset_owned.trans (h.owned_used p hp)) h.base_used

/-- The kernel tables of the listed processes are in the base. -/
theorem kernel_mem (h : ListInv base k live) (hp : p ∈ k.processList :: live) {i : ℕ}
    (hi : i < 1024) (hge : 768 ≤ i)
    (hpres : present (k.mem.word (k.pcb p).pageDirectory i) = true) :
    tableBlock k.mem (k.pcb p).pageDirectory i ∈ base := by
  rcases List.mem_cons.mp hp with rfl | hp
  · exact (h.idle.table i hi hpres).2
  · exact (h.proc p hp).dir.kernel i hi hge hpres

/-- No block of a listed process is free. -/
theorem block_used (h : ListInv base k live) (hp : p ∈ k.processList :: live) :
    p % 4096 = 0 ∧ p / 4096 ∈ k.mem.pmm.usedSet := by
  rcases List.mem_cons.mp hp with rfl | hp
  · exact ⟨h.idle.aligned, h.base_used h.idle.mem⟩
  · exact ⟨(h.proc p hp).aligned, h.owned_used p hp (mem_owned_self k p)⟩

/-- Changes that keep the invariant: some processes leave the list, what the others own stays in
use and is not written. -/
theorem transfer (h : ListInv base k live) (hlist : k'.processList = k.processList)
    (hseg : Seg k'.next k.processList (k.processList :: live') 0) (hsub : live'.Sublist live)
    (hpcb : ∀ x ∈ k.processList :: live', SameOwner (k.pcb x) (k'.pcb x))
    (hram : ∃ U, Disjoint k.mem.pmm.usedSet U ∧ SameOutside k.mem k'.mem U)
    (hbase : base ⊆ k'.mem.pmm.usedSet)
    (howned : ∀ p ∈ live', k.owned p ⊆ k'.mem.pmm.usedSet) : ListInv base k' live' := by
  obtain ⟨U, hU, hsame⟩ := hram
  have hword : ∀ p ∈ live', ∀ i < 1024, k'.mem.word (k.pcb p).pageDirectory i =
      k.mem.word (k.pcb p).pageDirectory i := by
    intro p hp i hi
    have hp' := hsub.subset hp
    exact word_eq_of_owned (h.proc p hp').dir.aligned hsame
      (hU.mono_left (h.owned_used p hp')) hi
  have howner : ∀ p ∈ live', k'.owned p = k.owned p := fun p hp =>
    owned_congr (hpcb p (List.mem_cons_of_mem _ hp)) (hword p hp)
  have hidle : ∀ i < 1024, k'.mem.word (k.pcb k.processList).pageDirectory i =
      k.mem.word (k.pcb k.processList).pageDirectory i := fun i hi =>
    hsame.word h.idle.dir_aligned hi
      (Finset.disjoint_left.mp hU (h.base_used h.idle.dir_mem))
  refine ⟨by rwa [hlist], ?_, ?_, fun p hp => ?_, hbase, fun p hp => ?_, fun p hp => ?_, ?_⟩
  · rw [hlist]
    exact h.nodup.sublist (hsub.cons_cons _)
  · obtain ⟨hdir, -, -⟩ := hpcb k.processList List.mem_cons_self
    refine ⟨hlist ▸ h.idle.ne_zero, hlist ▸ h.idle.aligned, hlist ▸ h.idle.mem, ?_, ?_, ?_,
      fun i hi => ?_⟩
    · rw [hlist, hdir]
      exact h.idle.dir_ne_zero
    · rw [hlist, hdir]
      exact h.idle.dir_aligned
    · rw [hlist, hdir]
      exact h.idle.dir_mem
    · rw [hlist, hdir, tableBlock, hidle i hi]
      exact h.idle.table i hi
  · exact (h.proc p (hsub.subset hp)).congr (hpcb p (List.mem_cons_of_mem _ hp)) (hword p hp)
  · rw [howner p hp]
    exact howned p hp
  · rw [howner p hp]
    exact h.owned_base p (hsub.subset hp)
  · refine (h.disjoint.sublist hsub).imp_of_mem fun hp hq hpq => ?_
    rwa [howner _ hp, howner _ hq]

end ListInv

end Rexus
