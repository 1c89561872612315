import Rexus.Lib.Run
import Rexus.Proc.Records

/-!
# Runs of the scheduler

A run starts where `process_init` ends and makes the eight calls in any order. Beside the kernel it
carries the created processes not yet reaped, in creation order; the code keeps them in its list,
and nowhere else. The results are for runs whose calls free no kernel table. On a machine with
fourteen blocks a run without this condition loses a listed process, and one with it reaches a
state where the walk never returns.

## Main results

* `sched_run` — the list, the states and the reaped processes, in every run whose calls free no
  kernel table
* `sched_returns` — when the walk returns, in every state of such a run

## What a run is

A call is one of the eight, with its arguments and with the two stack registers at the time.
`Allowed` has what the callers promise and the functions do not test: pointers are to listed
processes, and the idle process neither sleeps nor is blocked, exited or terminated. `Safe` has what
decides whether the list survives: a name fits its field, a creation that has no stack has nothing
to give back that is shared, and a process that is reaped refers to no kernel table. Both are
conditions on the state before the call.

Only calls that return are steps, and whether a call returns is a result of its own. `SafeStep` runs
are the subject of the other modules of this part as well; what the calls that are not safe may do
is shown on a small machine at the end.
-/

namespace Rexus

open Linked Loop Mem Pmm Run

/-! ### Runs -/

/-- A call, and what the stack registers hold as it is made. `process_switch` saves them for the
process that is left; a call that does not switch does not look at them. -/
structure Call where
  op : ProcessOp
  esp : UInt32
  ebp : UInt32

/-- The kernel as the call is made. -/
def Kernel.enter (k : Kernel) (c : Call) : Kernel := { k with esp := c.esp, ebp := c.ebp }

/-- The kernel, and the created processes that have not been reaped, in creation order. -/
structure Sched where
  kernel : Kernel
  live : List ℕ

namespace Sched

/-- The state `process_init` leaves. -/
def start (k : Kernel) (processIdle : UInt32) : Sched := ⟨processInit k processIdle, []⟩

/-- One call that its callers may make, and that returns. -/
def Step (s : Sched) (c : Call) (s' : Sched) : Prop :=
  c.op.Allowed s.kernel s.live ∧ ∃ fuel out, processOp fuel (s.kernel.enter c) c.op = some out ∧
    s' = ⟨out.kernel, s.live.filter (· ∉ out.reaped) ++ out.created⟩

/-- One such call that frees no kernel table. -/
def SafeStep (s : Sched) (c : Call) (s' : Sched) : Prop :=
  s.Step c s' ∧ c.op.Safe (s.kernel.enter c) s.live

end Sched

/-- The kernel as `process_init` is called: the current directory and its tables are allocated, and
there is a block for the idle process. -/
structure Boot (k : Kernel) : Prop where
  src : SrcOk k.mem k.mem.currentDirectory
  idle : (pmmAllocBlock k.mem.pmm).1 ≠ 0

/-- What a state of a run is to be. The run keeps a record of the processes created and not yet
reaped; the code has the links alone, and must agree with the record. -/
structure SchedSpec (s : Sched) : Prop where
  /-- The list is finite: the idle process, and the created processes in creation order. -/
  list : Seg s.kernel.next s.kernel.processList (s.kernel.processList :: s.live) 0
  nodup : (s.kernel.processList :: s.live).Nodup
  allocated : ∀ p ∈ s.kernel.processList :: s.live, Allocated s.kernel.mem p
  current : s.kernel.currentProcess ∈ s.kernel.processList :: s.live
  running : ∀ p ∈ s.kernel.processList :: s.live,
    (s.kernel.pcb p).state = .running ↔ p = s.kernel.currentProcess

section Runs

variable {base : Finset ℕ} {s : Sched} {k : Kernel} {processIdle : UInt32}

theorem SchedInv.schedSpec (h : SchedInv base s.kernel s.live) : SchedSpec s where
  list := h.list.seg
  nodup := h.list.nodup
  allocated p hp := by
    obtain ⟨haligned, hused⟩ := h.list.block_used hp
    refine ⟨?_, haligned, hused⟩
    rintro rfl
    exact h.list.ne_zero hp
  current := h.current.mem
  running p hp := by
    refine ⟨fun hrun => ?_, ?_⟩
    · by_contra hne
      exact h.states.others p hp hne hrun
    · rintro rfl
      exact h.states.current

/-- What `process_init` leaves, if there is a block for the idle process. -/
theorem processInit_spec (hidle : (pmmAllocBlock k.mem.pmm).1 ≠ 0) (processIdle : UInt32) :
    ∃ b u, b ≠ 0 ∧ b ∈ u.usedSet ∧ k.mem.pmm.usedSet ⊆ u.usedSet ∧
      (processInit k processIdle).mem = { k.mem with pmm := u } ∧
      (processInit k processIdle).processList = b * 4096 ∧
      (processInit k processIdle).currentProcess = b * 4096 ∧
      ∃ q : Process, (processInit k processIdle).pcb (b * 4096) = q ∧
        q.state = .running ∧ q.next = 0 ∧ q.pageDirectory = k.mem.currentDirectory := by
  rcases pmmAllocBlock_takes k.mem.pmm with ⟨t, halloc, -⟩ | ⟨b, t, halloc, hb0, -, ht⟩
  · exact absurd (congrArg Prod.fst halloc) hidle
  obtain ⟨stack, u, hstack, hsub⟩ : ∃ stack u, pmmAllocBlock t = (stack, u) ∧
      t.usedSet ⊆ u.usedSet := by
    rcases pmmAllocBlock_takes t with ⟨u, hu, B, -, hB⟩ | ⟨c, u, hu, -, -, hB⟩
    · exact ⟨0, u, hu, hB.subset⟩
    · exact ⟨_, u, hu, hB.subset⟩
  refine ⟨b, u, hb0, hsub (ht.taken_subset (Finset.mem_singleton_self b)), ht.subset.trans hsub,
    ?_, ?_, ?_, ?_⟩
  all_goals rw [processInit, halloc]
  · dsimp only
    rw [hstack]
    rfl
  · exact ⟨_, Kernel.setPcb_self _ _ _, rfl, rfl, rfl⟩

/-- The blocks in use are the base. -/
theorem Boot.schedInv (h : Boot k) (processIdle : UInt32) :
    SchedInv (processInit k processIdle).mem.pmm.usedSet (processInit k processIdle) [] := by
  obtain ⟨b, u, hb0, hb, hused, hmem, hlist, hcurrent, q, hq, hstate, hnext, hdir⟩ :=
    processInit_spec h.idle processIdle
  have hidle : IdleOk (processInit k processIdle) (processInit k processIdle).mem.pmm.usedSet := by
    refine ⟨?_, ?_, ?_, ?_, ?_, ?_, ?_⟩
    · rw [hlist]
      omega
    · rw [hlist]
      exact Nat.mul_mod_left _ _
    · rwa [hlist, hmem, Nat.mul_div_cancel _ (by decide)]
    all_goals rw [hlist, hq, hdir]
    · exact h.src.dir.ne_zero
    · exact h.src.dir.aligned
    · rw [hmem]
      exact hused h.src.dir.used
    · rw [hmem]
      exact fun i hi hp => ⟨(h.src.table i hi hp).ne_zero, hused (h.src.table i hi hp).used⟩
  refine ⟨⟨⟨rfl, ?_⟩, List.nodup_singleton _, hidle, ?_, Finset.Subset.refl _, ?_, ?_,
    List.Pairwise.nil⟩, ⟨?_, ?_⟩, ⟨?_, ?_, ?_⟩⟩
  · rw [hlist]
    exact (congrArg Process.next hq).trans hnext
  · exact fun p hp => absurd hp List.not_mem_nil
  · exact fun p hp => absurd hp List.not_mem_nil
  · exact fun p hp => absurd hp List.not_mem_nil
  · rw [hlist, hcurrent]
    exact List.mem_cons_self
  · rw [hcurrent, hq, hdir, hmem]
  · rw [hcurrent, hq, hstate]
  · intro p hp hne
    rw [List.mem_singleton] at hp
    rw [hp, hlist, hcurrent] at hne
    exact absurd rfl hne
  · rw [hlist, hcurrent]
    exact fun hne => absurd rfl hne

theorem SchedInv.enter (h : SchedInv base k live) (c : Call) : SchedInv base (k.enter c) live :=
  h.frame ⟨rfl, rfl, rfl, fun _ _ => rfl, ⟨∅, Finset.disjoint_empty_right _, fun _ _ => rfl⟩,
    Finset.Subset.refl _⟩

/-- The invariant in every run. -/
theorem sched_inv (hboot : Boot k) (hrun : Reaches Sched.SafeStep (Sched.start k processIdle) s) :
    SchedInv (processInit k processIdle).mem.pmm.usedSet s.kernel s.live := by
  refine hrun.invariant (I := fun s =>
    SchedInv (processInit k processIdle).mem.pmm.usedSet s.kernel s.live)
    (hboot.schedInv processIdle) fun a c b ha hstep => ?_
  obtain ⟨⟨hallowed, fuel, out, hop, rfl⟩, hsafe⟩ := hstep
  exact ((ha.enter c).step hallowed hsafe hop).1

end Runs

/-! ### A small machine -/

section Small

variable {k k' : Kernel} {fuel b d : ℕ}

/-- The states of a small machine: the blocks in use are those of `U`, and the current directory is
in block `1` and has at most one table, in block `2` at 3 GiB. -/
structure Small (k : Kernel) (e : BitVec 32) (U : Finset ℕ) : Prop where
  memBlocks : k.mem.pmm.memBlocks = 14
  base : {0, 1, 3} ⊆ U
  used : k.mem.pmm.usedSet = U
  counted : k.mem.pmm.Counted
  dir : k.mem.currentDirectory = 4096
  word : ∀ i < 1024, k.mem.word 4096 i = if i = 768 then e else 0#32
  table : present e = true → tableOf e = 8192
  list : k.processList = 12288

/-- The least free block. -/
def Least (U : Finset ℕ) (b : ℕ) : Prop := b < 14 ∧ b ∉ U ∧ ∀ c < b, c ∈ U

instance (U : Finset ℕ) (b : ℕ) : Decidable (Least U b) := instDecidableAnd

theorem Least.alloc {s : Pmm} {U : Finset ℕ} (h : Least U b) (hs : s.memBlocks = 14)
    (hused : s.usedSet = U) (hcount : s.Counted) :
    ∃ t, pmmAllocBlock s = (b * 4096, t) ∧ t.memBlocks = 14 ∧ t.usedSet = insert b U ∧
      t.Counted := by
  subst hused
  have hb : b < s.memBlocks := hs ▸ h.1
  exact ⟨_, pmmAllocBlock_least hcount hb h.2.1 h.2.2, hs, usedSet_pmmSetBlock hb,
    hcount.of_sameDrift (sameDrift_pmmSetBlock hb h.2.1)⟩

namespace Small

variable {e : BitVec 32} {U : Finset ℕ}

theorem noUser (h : Small k e U) :
    ∀ i < 768, present (k.mem.word k.mem.currentDirectory i) = false := by
  intro i hi
  rw [h.dir, h.word i (by omega), if_neg (by omega)]
  rfl

theorem ne_base (h : Small k e U) {x : ℕ} (hx : x ∉ U) : x ≠ 0 ∧ x ≠ 1 ∧ x ≠ 3 := by
  have hmem : x ∉ ({0, 1, 3} : Finset ℕ) := fun hcon => hx (h.base hcon)
  simpa using hmem

theorem srcOk (h : Small k e U) {s : Pmm} (hs : U ⊆ s.usedSet)
    (h2 : present e = true → 2 ∈ s.usedSet) :
    SrcOk { k.mem with pmm := s } k.mem.currentDirectory := by
  rw [h.dir]
  refine ⟨⟨by decide, by decide, hs (h.base (by decide))⟩, fun i hi hp => ?_⟩
  have hword : ({ k.mem with pmm := s } : Mem).word 4096 i = if i = 768 then e else 0#32 :=
    h.word i hi
  rw [hword] at hp ⊢
  split_ifs at hp ⊢
  · rw [h.table hp]
    exact ⟨by decide, by decide, h2 hp⟩
  · exact absurd hp (by decide)

/-- A creation up to the stack. -/
theorem create (h : Small k e U) (fuel : ℕ) (hb : Least U b)
    (hd : Least (insert b U) d) (h2 : present e = true → 2 ∈ insert b U) :
    ∃ k₁ m, processCreate fuel k [] 0 0 .normal =
        processStack fuel k₁ (b * 4096) 0 0 ∧
      Recorded k k₁ (b * 4096) m ∧ (k₁.pcb (b * 4096)).pageDirectory = d * 4096 ∧
      Small { k with mem := m } e (insert d (insert b U)) ∧
      ∀ i < 1024, (present (m.word (d * 4096) i) = true ↔ i = 768 ∧ present e = true) ∧
        (present (m.word (d * 4096) i) = true → m.word (d * 4096) i = e) := by
  obtain ⟨t, halloc, ht, htU, htc⟩ := hb.alloc h.memBlocks h.used h.counted
  obtain ⟨u, halloc', hu, huU, huc⟩ := hd.alloc ht htU htc
  have hb0 := (h.ne_base hb.2.1).1
  have hd' := h.ne_base fun hdU => hd.2.1 (Finset.mem_insert_of_mem hdU)
  have hsrc := h.srcOk (htU ▸ Finset.subset_insert b U) (htU ▸ h2)
  obtain ⟨k₁, m, hcreate, hk₁, hdir, hpmm, hcur, hsame, hclone⟩ :=
    processCreate_of_kernel (show [].length < 32 by decide) hsrc h.noUser halloc hb0 halloc' hd'.1
  refine ⟨k₁, m, hcreate, hk₁, hdir, ⟨?_, ?_, ?_, ?_, ?_, ?_, h.table, h.list⟩, ?_⟩
  · rw [hpmm, hu]
  · exact h.base.trans ((Finset.subset_insert b U).trans (Finset.subset_insert d _))
  · rw [hpmm, huU]
  · rw [hpmm]
    exact huc
  · exact hcur.trans h.dir
  · intro i hi
    show m.word 4096 i = _
    rw [hsame.word (by decide) hi (by simpa using hd'.2.1.symm), h.word i hi]
  · intro i hi
    obtain ⟨hp, hw⟩ := hclone i hi
    rw [h.dir, h.word i hi] at hp hw
    rw [hp]
    split_ifs at hw ⊢ with hi768
    · exact ⟨(and_iff_right hi768).symm, hw⟩
    · exact ⟨iff_of_false (by decide) fun hcon => hi768 hcon.1,
        fun hcon => absurd hcon (by decide)⟩

/-- Freeing a directory whose only table is in block `2`. -/
theorem gives_directory {m : Mem} (hd0 : d ≠ 0) (hd2 : d ≠ 2) (hused : {d, 2} ⊆ m.pmm.usedSet)
    (htable : tableOf e = 8192) (he : present e = true)
    (hword : ∀ i < 1024, (present (m.word (d * 4096) i) = true ↔ i = 768 ∧ present e = true) ∧
      (present (m.word (d * 4096) i) = true → m.word (d * 4096) i = e)) :
    ∃ t, vmmFreeDirectory m (d * 4096) = { m with pmm := t } ∧ Gives m.pmm t {d, 2} := by
  have hdiv : d * 4096 / 4096 = d := Nat.mul_div_cancel _ (by decide)
  have htables : ∀ i < 1024, present (m.word (d * 4096) i) = true →
      i = 768 ∧ tableBlock m (d * 4096) i = 2 := by
    intro i hi hp
    obtain ⟨hp', hw⟩ := hword i hi
    exact ⟨(hp'.mp hp).1, by rw [tableBlock, hw hp, htable]⟩
  have hblocks : directoryBlocks m (d * 4096) = {d, 2} := by
    rw [directoryBlocks, hdiv]
    refine congrArg (insert d) (Finset.ext fun x => ?_)
    rw [mem_tableBlocks, Finset.mem_singleton]
    constructor
    · rintro ⟨i, hi, hp, rfl⟩
      exact (htables i hi hp).2
    · intro hx
      have hp := (hword 768 (by decide)).1.mpr ⟨rfl, he⟩
      exact ⟨768, by decide, hp, hx ▸ (htables 768 (by decide) hp).2⟩
  have howns : OwnsTables m (d * 4096) := by
    refine ⟨fun i hi hp => ?_, fun i hi j hj hpi hpj _ => ?_, ?_, fun i hi hp => ?_⟩
    · rw [(htables i hi hp).2]
      exact hused (by simp)
    · rw [(htables i hi hpi).1, (htables j hj hpj).1]
    · rw [hdiv]
      exact hused (by simp)
    · rw [(htables i hi hp).2, hdiv]
      exact hd2.symm
  obtain ⟨t, hfree, -, -, hgives⟩ :=
    vmmFreeDirectory_spec m (Nat.mul_ne_zero hd0 (by decide) : d * 4096 ≠ 0)
  exact ⟨t, hfree, hblocks ▸ hgives howns⟩

/-- A creation that has no stack frees the table the directories share. -/
theorem create_refused (h : Small k e U) (fuel : ℕ) (hb : Least U b)
    (hd : Least (insert b U) d) (h2 : 2 ∈ U) (he : present e = true)
    (hrun : ∀ c < 11, ¬ Disjoint (insert d (insert b U)) (Finset.Ico c (c + 4))) :
    ∃ k', processCreate fuel k [] 0 0 .normal = some (0, k') ∧
      Small k' e ((insert d (insert b U) \ {d, 2}) \ {b}) ∧ k'.next 12288 = k.next 12288 := by
  obtain ⟨k₁, m, hcreate, hk₁, hdir, hm, hclone⟩ :=
    h.create fuel hb hd fun _ => Finset.mem_insert_of_mem h2
  have hb' := h.ne_base hb.2.1
  have hd' := h.ne_base fun hdU => hd.2.1 (Finset.mem_insert_of_mem hdU)
  have hbd : b ≠ d := fun hbd => hd.2.1 (hbd ▸ Finset.mem_insert_self _ _)
  have hb2 : b ≠ 2 := fun hb2 => hb.2.1 (hb2 ▸ h2)
  have hd2 : d ≠ 2 := fun hd2 => hd.2.1 (hd2 ▸ Finset.mem_insert_of_mem h2)
  have hdiv : b * 4096 / 4096 = b := Nat.mul_div_cancel _ (by decide)
  have hused : m.pmm.usedSet = insert d (insert b U) := hm.used
  have hnone : pmmAllocBlocks m.pmm (16384 / 4096) = (0, m.pmm) := by
    refine pmmAllocBlocks_none fun c hc => ?_
    obtain ⟨hle, hdis⟩ := freeRun_iff.mp hc
    have hblocks : m.pmm.memBlocks = 14 := hm.memBlocks
    rw [hused] at hdis
    exact hrun c (by omega) hdis
  obtain ⟨t, hfree, hgives⟩ := gives_directory (m := m) hd'.1 hd2
    (by rw [hused]; simp [Finset.insert_subset_iff, h2]) (h.table he) he hclone
  have hrecord := gives_pmmFreeBlock (s := t) (p := b * 4096) (by
    rw [hdiv, hgives.usedSet, hused]
    simp [hbd, hb2])
  have hk₂ : ({ k₁.setPmm m.pmm with
      mem := vmmFreeDirectory (k₁.setPmm m.pmm).mem
        ((k₁.setPmm m.pmm).pcb (b * 4096)).pageDirectory } : Kernel) =
      { k₁ with mem := { m with pmm := t } } := by
    rw [← hfree, ← hdir, ← hk₁.mem]
    rfl
  refine ⟨({ k₁ with mem := { m with pmm := t } } : Kernel).freeRecord (b * 4096), ?_, ?_,
    congrArg Process.next (hk₁.pcb _ (by omega))⟩
  · rw [hcreate, processStack, hk₁.mem, hnone]
    dsimp only
    rw [if_pos rfl, hk₂]
  · have hall := hgives.trans hrecord
    rw [hdiv] at hall
    refine ⟨hall.memBlocks.trans hm.memBlocks, ?_, ?_, hm.counted.of_sameDrift hall.drift, hm.dir,
      hm.word, h.table, hk₁.processList.trans h.list⟩
    · intro x hx
      have hx' := h.base hx
      simp only [Finset.mem_insert, Finset.mem_singleton] at hx
      simp only [Finset.mem_sdiff, Finset.mem_insert, Finset.mem_singleton, hx', or_true, true_and]
      omega
    · show (pmmFreeBlock t (b * 4096)).usedSet = _
      rw [hrecord.usedSet, hdiv, hgives.usedSet, hused]

/-- A creation that has a stack. -/
theorem create_listed (h : Small k e U) (fuel : ℕ) (hb : Least U b)
    (hd : Least (insert b U) d) (h2 : present e = true → 2 ∈ insert b U)
    (hnext : k.next 12288 = 0) {c : ℕ}
    (hrun : c + 4 ≤ 14 ∧ Disjoint (insert d (insert b U)) (Finset.Ico c (c + 4)))
    (hleast : ∀ a < c, ¬ Disjoint (insert d (insert b U)) (Finset.Ico a (a + 4))) :
    ∃ k', processCreate (fuel + 1) k [] 0 0 .normal = some (b * 4096, k') ∧
      Small k' e (insert d (insert b U) ∪ Finset.Ico c (c + 4)) ∧
      k'.currentProcess = k.currentProcess ∧ (k'.pcb (b * 4096)).state = .ready := by
  obtain ⟨k₁, m, hcreate, hk₁, hdir, hm, -⟩ :=
    h.create (fuel + 1) hb hd h2
  have hb' := h.ne_base hb.2.1
  have hbase : ∀ x ∈ ({0, 1, 3} : Finset ℕ), x ∉ Finset.Ico c (c + 4) := fun x hx =>
    Finset.disjoint_left.mp hrun.2 (hm.base hx)
  have hc0 : c ≠ 0 := by
    rintro rfl
    exact hbase 0 (by decide) (by decide)
  have hused : m.pmm.usedSet = insert d (insert b U) := hm.used
  have hblocks : m.pmm.memBlocks = 14 := hm.memBlocks
  have hfree : FreeRun m.pmm 4 c := freeRun_iff.mpr ⟨hblocks ▸ hrun.1, hused ▸ hrun.2⟩
  have halloc : pmmAllocBlocks m.pmm (16384 / 4096) = (c * 4096, pmmMarkBlocks m.pmm c 4) := by
    refine pmmAllocBlocks_least hm.counted (by decide) hfree fun a ha hcon => ?_
    exact hleast a ha (hused ▸ (freeRun_iff.mp hcon).2)
  have hrec : Recorded k (k₁.setPmm (pmmMarkBlocks m.pmm c 4)) (b * 4096)
      { m with pmm := pmmMarkBlocks m.pmm c 4 } := by
    refine ⟨?_, hk₁.processList, hk₁.currentProcess, hk₁.pcb, hk₁.state, hk₁.next⟩
    rw [← hk₁.mem]
    rfl
  obtain ⟨mem, hsame, hpmm, hcur, hk₂, -⟩ :=
    hrec.startProcess (Nat.mul_mod_left c 4096) 0 0
  rw [Nat.mul_div_cancel _ (by decide)] at hsame
  generalize hk : (k₁.setPmm (pmmMarkBlocks m.pmm c 4)).startProcess (b * 4096) (c * 4096) 0 0 =
    k₂ at hk₂
  have hnext' : k₂.next 12288 = 0 := by
    rw [Kernel.next, hk₂.pcb _ (by omega)]
    exact hnext
  have hlast : lastProcess (fuel + 1) k₂ = some 12288 := by
    rw [lastProcess, hk₂.processList, h.list]
    refine iterate_done ?_
    rw [searchTurn, hnext']
    rfl
  have htakes : Takes m.pmm k₂.mem.pmm (Finset.Ico c (c + 4)) := by
    rw [hk₂.mem, hpmm]
    exact takes_pmmMarkBlocks hfree
  refine ⟨k₂.setNext 12288 (b * 4096), ?_, ⟨?_, ?_, ?_, ?_, ?_, ?_, h.table, ?_⟩,
    hk₂.currentProcess, ?_⟩
  · rw [hcreate, processStack, hk₁.mem, halloc]
    dsimp only
    rw [if_neg (Nat.mul_ne_zero hc0 (by decide)), hk, processAppend, hlast]
    rfl
  · exact htakes.memBlocks.trans hblocks
  · exact hm.base.trans Finset.subset_union_left
  · rw [← hused]
    exact htakes.usedSet
  · exact hm.counted.of_sameDrift htakes.drift
  · exact (congrArg Mem.currentDirectory hk₂.mem).trans (hcur.trans hm.dir)
  · intro i hi
    show k₂.mem.word 4096 i = _
    rw [hk₂.mem, hsame.word (by decide) hi (hbase 1 (by decide))]
    exact hm.word i hi
  · exact hk₂.processList.trans h.list
  · rw [Kernel.setNext_pcb]
    exact hk₂.state

theorem enter (h : Small k e U) (c : Call) : Small (k.enter c) e U :=
  ⟨h.memBlocks, h.base, h.used, h.counted, h.dir, h.word, h.table, h.list⟩

end Small

/-- A machine with fourteen blocks, of which those in `map` are in use, and whose current directory
is in block `1` and has the entry `e` at 3 GiB. -/
def smallKernel (map : BitVec 32) (used : Fin 15) (e : BitVec 32) : Kernel where
  mem :=
    { pmm :=
        { memoryMap := fun _ => map
          memBlocks := 14
          memUsedBlocks := used
          memBlocks_le := by decide
          memUsedBlocks_lt := by omega }
      ram := fun a => if a = 1792 then e else 0#32
      currentDirectory := 4096 }
  pcb _ := Process.zero
  processList := 0
  currentProcess := 0
  nextPid := 1
  systemTime := 0
  esp := 0
  ebp := 0
  tssEsp0 := 0

theorem word_smallKernel (map : BitVec 32) (used : Fin 15) (e : BitVec 32) (i : ℕ) :
    (smallKernel map used e).mem.word 4096 i = if i = 768 then e else 0#32 := by
  show (if 4096 / 4 + i = 1792 then e else 0#32) = _
  rcases eq_or_ne i 768 with rfl | hi
  · rfl
  · rw [if_neg hi, if_neg (by omega)]

/-- Blocks `0` to `4`, `10` and `12` are in use, block `2` for a table of the current directory. -/
theorem small_shared : Small (processInit (smallKernel 0x1407#32 5 0x2007#32) 0) 0x2007#32
    {0, 1, 2, 3, 4, 10, 12} :=
  ⟨rfl, by decide, by decide, by decide, rfl, fun i _ => word_smallKernel 0x1407#32 5 0x2007#32 i,
    fun _ => by decide, rfl⟩

/-- Blocks `0` to `4` are in use. -/
theorem small_empty : Small (processInit (smallKernel 7#32 3 0#32) 0) 0#32 {0, 1, 2, 3, 4} :=
  ⟨rfl, by decide, by decide, by decide, rfl, fun i _ => word_smallKernel 7#32 3 0#32 i,
    fun h => absurd h (by decide), rfl⟩


theorem boot_smallKernel {map : BitVec 32} {used : Fin 15} {e : BitVec 32}
    (hdir : 1 ∈ (smallKernel map used e).mem.pmm.usedSet)
    (htable : present e = true → Allocated (smallKernel map used e).mem (tableOf e))
    (hidle : (pmmAllocBlock (smallKernel map used e).mem.pmm).1 ≠ 0) :
    Boot (smallKernel map used e) := by
  have hsrc : Allocated (smallKernel map used e).mem 4096 := ⟨by decide, by decide, hdir⟩
  refine ⟨⟨hsrc, fun i _ hp => ?_⟩, hidle⟩
  show Allocated _ (tableOf ((smallKernel map used e).mem.word 4096 i))
  have hp' : present ((smallKernel map used e).mem.word 4096 i) = true := hp
  rw [word_smallKernel] at hp' ⊢
  split_ifs at hp' ⊢
  · exact htable hp'
  · exact absurd hp' (by decide)

theorem boot_shared : Boot (smallKernel 0x1407#32 5 0x2007#32) :=
  boot_smallKernel (by decide) (fun _ => ⟨by decide, by decide, by decide⟩) (by decide)

theorem boot_empty : Boot (smallKernel 7#32 3 0#32) :=
  boot_smallKernel (by decide) (fun h => absurd h (by decide)) (by decide)

/-- A creation of a process without a name. -/
def createCall : Call := ⟨.create [] 0 0 .normal, 0, 0⟩

theorem Sched.step_createCall {live : List ℕ} {proc : ℕ}
    (h : processCreate fuel (k.enter createCall) [] 0 0 .normal = some (proc, k')) :
    Sched.Step ⟨k, live⟩ createCall ⟨k', live ++ if proc = 0 then [] else [proc]⟩ := by
  refine ⟨trivial, fuel, _, Option.map_eq_some_iff.mpr ⟨_, h, rfl⟩, ?_⟩
  simp

/-- One process is created: its record is in block `5`. -/
theorem small_step : ∃ k', (Sched.start (smallKernel 7#32 3 0#32) 0).SafeStep createCall
      ⟨k', [20480]⟩ ∧ k'.processList = 12288 ∧ k'.currentProcess = 12288 ∧
    (k'.pcb 20480).state = .ready ∧ k'.systemTime = 0 := by
  have hsmall := small_empty.enter createCall
  obtain ⟨k', h, hk', hcur, hstate⟩ := hsmall.create_listed 0
    (b := 5) (d := 6)
    (by decide) (by decide) (by decide) rfl (c := 7) (by decide) (by decide)
  refine ⟨k', ?_, hk'.list, hcur, hstate, (processCreate_records h).1.systemTime⟩
  have hno : NoKernel ((processInit (smallKernel 7#32 3 0#32) 0).enter createCall).mem
      ((processInit (smallKernel 7#32 3 0#32) 0).enter createCall).mem.currentDirectory := by
    intro i hi _
    rw [hsmall.dir, hsmall.word i hi]
    split_ifs <;> rfl
  exact ⟨Sched.step_createCall h, by decide, fun _ => hno⟩

theorem small_run : ∃ k', Reaches Sched.SafeStep (Sched.start (smallKernel 7#32 3 0#32) 0)
      ⟨k', [20480]⟩ ∧ k'.processList = 12288 ∧ k'.currentProcess = 12288 ∧
    (k'.pcb 20480).state = .ready ∧ k'.systemTime = 0 := by
  obtain ⟨k', hstep, hk'⟩ := small_step
  exact ⟨k', (Reaches.refl _).tail hstep, hk'⟩

end Small

/-! ### The main results -/

section Main

variable {s : Sched} {k : Kernel} {processIdle : UInt32}

/-- **The list, the states and the reaped processes, in every run whose calls free no kernel
table.** -/
theorem sched_run (hboot : Boot k) (hrun : Reaches Sched.SafeStep (Sched.start k processIdle) s) :
    SchedSpec s ∧ ∀ (c : Call) fuel out, c.op.Allowed s.kernel s.live →
      c.op.Safe (s.kernel.enter c) s.live → processOp fuel (s.kernel.enter c) c.op = some out →
        OutcomeOk (s.kernel.enter c) s.live out := by
  have hinv := sched_inv hboot hrun
  exact ⟨hinv.schedSpec, fun c fuel out hallowed hsafe hop =>
    ((hinv.enter c).step hallowed hsafe hop).2⟩

/-- A machine with twenty-four blocks, of which those in `map` are in use, and an empty current
directory in block `1`. -/
def roomyKernel (map : BitVec 32) (used : Fin 25) : Kernel where
  mem :=
    { pmm :=
        { memoryMap := fun _ => map
          memBlocks := 24
          memUsedBlocks := used
          memBlocks_le := by decide
          memUsedBlocks_lt := by omega }
      ram := fun _ => 0#32
      currentDirectory := 4096 }
  pcb _ := Process.zero
  processList := 0
  currentProcess := 0
  nextPid := 1
  systemTime := 0
  esp := 0
  ebp := 0
  tssEsp0 := 0

theorem boot_roomyKernel : Boot (roomyKernel 7#32 3) := by
  have hdir : 1 ∈ (roomyKernel 7#32 3).mem.pmm.usedSet := by decide
  exact ⟨⟨⟨by decide, by decide, hdir⟩, fun i _ hp =>
    absurd (show present 0#32 = true from hp) (by decide)⟩, by decide⟩

/-- The first of the created processes is terminated, whatever the stack registers hold. -/
def terminateCall : Call := ⟨.terminate 20480, 0, 0⟩

/-- The current process yields; the walk comes to the terminated process and frees it. -/
def yieldCall : Call := ⟨.yield, 0, 0⟩

/-- The words of a directory say that no kernel table is there. -/
def noKernelWords (k : Kernel) (dir : ℕ) : Bool :=
  (List.range 1024).all fun i => !present (k.mem.word dir i)

theorem noKernel_of_words {k : Kernel} {dir : ℕ} (h : noKernelWords k dir = true) :
    NoKernel k.mem dir := fun i hi _ => by
  simpa using List.all_eq_true.mp h i (List.mem_range.mpr hi)

/-- Two processes are created, the first of them is terminated, and the idle process yields. -/
theorem roomyKernel_calls : ∃ k₁ k₂ k₃ k₄ : Kernel,
    processOp 16 ((processInit (roomyKernel 7#32 3) 0).enter createCall) createCall.op =
        some ⟨[20480], [], k₁⟩ ∧
      processOp 16 (k₁.enter createCall) createCall.op = some ⟨[45056], [], k₂⟩ ∧
      processOp 16 (k₂.enter terminateCall) terminateCall.op = some ⟨[], [], k₃⟩ ∧
      processOp 16 (k₃.enter yieldCall) yieldCall.op = some ⟨[], [20480], k₄⟩ ∧
      noKernelWords k₁ k₁.mem.currentDirectory = true ∧ k₂.currentProcess = 12288 ∧
      k₃.reaps (k₃.after [20480, 45056]) = [20480] ∧
      noKernelWords k₃ (k₃.pcb 20480).pageDirectory = true := by
  have hrun : ((processOp 16 ((processInit (roomyKernel 7#32 3) 0).enter createCall)
      createCall.op).bind fun o₁ =>
        (processOp 16 (o₁.kernel.enter createCall) createCall.op).bind fun o₂ =>
          (processOp 16 (o₂.kernel.enter terminateCall) terminateCall.op).bind fun o₃ =>
            (processOp 16 (o₃.kernel.enter yieldCall) yieldCall.op).map fun o₄ =>
              ([o₁, o₂, o₃, o₄].map fun o => (o.created, o.reaped),
                noKernelWords o₁.kernel o₁.kernel.mem.currentDirectory, o₂.kernel.currentProcess,
                o₃.kernel.reaps (o₃.kernel.after [20480, 45056]),
                noKernelWords o₃.kernel (o₃.kernel.pcb 20480).pageDirectory)) =
      some ([([20480], []), ([45056], []), ([], []), ([], [20480])], true, 12288, [20480],
        true) := by
    decide +kernel
  obtain ⟨⟨_, _, k₁⟩, h₁, hrun⟩ := Option.bind_eq_some_iff.mp hrun
  obtain ⟨⟨_, _, k₂⟩, h₂, hrun⟩ := Option.bind_eq_some_iff.mp hrun
  obtain ⟨⟨_, _, k₃⟩, h₃, hrun⟩ := Option.bind_eq_some_iff.mp hrun
  obtain ⟨⟨_, _, k₄⟩, h₄, hrun⟩ := Option.map_eq_some_iff.mp hrun
  simp only [List.map_cons, List.map_nil, Prod.mk.injEq, List.cons.injEq, and_true] at hrun
  obtain ⟨⟨⟨rfl, rfl⟩, ⟨rfl, rfl⟩, ⟨rfl, rfl⟩, rfl, rfl⟩, hdir, hcur, hreaps, hwords⟩ := hrun
  exact ⟨k₁, k₂, k₃, k₄, h₁, h₂, h₃, h₄, hdir, hcur, hreaps, hwords⟩

/-- The run whose last call reaps the process that was terminated. -/
theorem sched_run_reaped : ∃ s, Reaches Sched.SafeStep (Sched.start (roomyKernel 7#32 3) 0) s ∧
    s.live = [45056] ∧ SchedSpec s := by
  obtain ⟨k₁, k₂, k₃, k₄, h₁, h₂, h₃, h₄, hdir, hcur, hreaps, hwords⟩ := roomyKernel_calls
  have hstep₁ : Sched.SafeStep (Sched.start (roomyKernel 7#32 3) 0) createCall ⟨k₁, [20480]⟩ :=
    ⟨⟨trivial, 16, _, h₁, rfl⟩, by decide, fun _ => noKernel_of_words (by decide +kernel)⟩
  have hstep₂ : Sched.SafeStep ⟨k₁, [20480]⟩ createCall ⟨k₂, [20480, 45056]⟩ :=
    ⟨⟨trivial, 16, _, h₂, rfl⟩, by decide, fun _ => noKernel_of_words hdir⟩
  have hstep₃ : Sched.SafeStep ⟨k₂, [20480, 45056]⟩ terminateCall ⟨k₃, [20480, 45056]⟩ := by
    refine ⟨⟨List.mem_cons_self, 16, _, h₃, rfl⟩, fun hyields => ?_⟩
    have hyields' : (20480 == k₂.currentProcess) = true := hyields
    rw [hcur] at hyields'
    exact absurd hyields' (by decide)
  have hstep₄ : Sched.SafeStep ⟨k₃, [20480, 45056]⟩ yieldCall ⟨k₄, [45056]⟩ := by
    refine ⟨⟨trivial, 16, _, h₄, rfl⟩, fun _ p hp => ?_⟩
    have hp' : p ∈ k₃.reaps (k₃.after [20480, 45056]) := hp
    rw [hreaps] at hp'
    obtain rfl := List.mem_singleton.mp hp'
    exact noKernel_of_words hwords
  have hrun : Reaches Sched.SafeStep (Sched.start (roomyKernel 7#32 3) 0) ⟨k₄, [45056]⟩ :=
    ((((Reaches.refl _).tail hstep₁).tail hstep₂).tail hstep₃).tail hstep₄
  exact ⟨_, hrun, rfl, (sched_run boot_roomyKernel hrun).1⟩

/-- Two creations without a stack, with one in between that has one: the second of them frees the
record of the process in between. -/
theorem not_schedSpec_shared : Boot (smallKernel 0x1407#32 5 0x2007#32) ∧
    ∃ s, Reaches Sched.Step (Sched.start (smallKernel 0x1407#32 5 0x2007#32) 0) s ∧
      ¬ SchedSpec s := by
  obtain ⟨k₁, h₁, hk₁, hnext⟩ := (small_shared.enter createCall).create_refused 0
    (b := 5) (d := 6)
    (by decide) (by decide) (by decide) (by decide) (by decide)
  obtain ⟨k₂, h₂, hk₂, -⟩ := (hk₁.enter createCall).create_listed 0
    (b := 2) (d := 5)
    (by decide) (by decide) (by decide) hnext (c := 6) (by decide) (by decide)
  obtain ⟨k₃, h₃, hk₃, -⟩ := (hk₂.enter createCall).create_refused 0
    (b := 11) (d := 13)
    (by decide) (by decide) (by decide) (by decide) (by decide)
  refine ⟨boot_shared, ⟨k₃, [8192]⟩, ?_, fun hspec => ?_⟩
  · have hrun₁ : Reaches Sched.Step (Sched.start _ 0) ⟨k₁, []⟩ :=
      (Reaches.refl _).tail (Sched.step_createCall h₁)
    have hrun₂ : Reaches Sched.Step (Sched.start _ 0) ⟨k₂, [8192]⟩ :=
      hrun₁.tail (Sched.step_createCall h₂)
    exact hrun₂.tail (Sched.step_createCall h₃)
  · have hused := (hspec.allocated 8192 (by simp)).used
    rw [hk₃.used] at hused
    exact absurd hused (by decide)

/-- **When the walk returns, and the calls that make it**, in every state of such a run. -/
theorem sched_returns (hboot : Boot k)
    (hrun : Reaches Sched.SafeStep (Sched.start k processIdle) s) :
    ((∃ fuel w, processGetNext fuel s.kernel = some w) ↔ ¬ Stuck s.kernel s.live) ∧
      ∀ c : Call, c.op.Allowed s.kernel s.live → c.op.creates = false →
        ((∃ fuel out, processOp fuel (s.kernel.enter c) c.op = some out) ↔
          ¬ (c.op.yields s.kernel = true ∧ Stuck (c.op.before (s.kernel.enter c)) s.live)) := by
  have hinv := sched_inv hboot hrun
  refine ⟨processGetNext_returns_iff hinv.list hinv.current hinv.states.yieldOk,
    fun c hallowed hcreates => ?_⟩
  have henter := hinv.enter c
  have hbefore := henter.before hallowed
  have hreturns := processGetNext_returns_iff hbefore.list hbefore.current hbefore.states
  simp only [processOp_eq henter.list henter.current hallowed hcreates]
  by_cases hyields : c.op.yields s.kernel = true
  · have hyields' : c.op.yields (s.kernel.enter c) = true := hyields
    rw [and_iff_right hyields, ← hreturns]
    simp only [if_pos hyields']
    constructor
    · rintro ⟨fuel, out, hout⟩
      obtain ⟨e, he, -⟩ := Option.map_eq_some_iff.mp hout
      obtain ⟨w, hw, -⟩ := Option.map_eq_some_iff.mp he
      exact ⟨fuel, w, hw⟩
    · rintro ⟨fuel, w, hw⟩
      exact ⟨fuel, _, Option.map_eq_some_iff.mpr
        ⟨_, Option.map_eq_some_iff.mpr ⟨w, hw, rfl⟩, rfl⟩⟩
  · have hyields' : ¬ c.op.yields (s.kernel.enter c) = true := hyields
    simp only [if_neg hyields']
    exact iff_of_true ⟨0, _, rfl⟩ fun hcon => hyields hcon.1

theorem sched_returns_empty :
    ∃ s, Reaches Sched.SafeStep (Sched.start (smallKernel 7#32 3 0#32) 0) s ∧
      s.live = [20480] ∧ ∃ fuel w, processGetNext fuel s.kernel = some w := by
  obtain ⟨k', hrun, -, -, hready, -⟩ := small_run
  refine ⟨_, hrun, rfl, (sched_returns boot_empty hrun).1.mpr fun hstuck => ?_⟩
  obtain ⟨-, ⟨x, hx, hdead⟩, -⟩ := hstuck
  obtain rfl := Option.some_inj.mp hx
  simp [Kernel.dead, hready] at hdead

/-- A process is created and terminated, and the idle process yields: the walk goes round for
ever. -/
theorem not_sched_returns_empty : Boot (smallKernel 7#32 3 0#32) ∧
    ∃ s, Reaches Sched.Step (Sched.start (smallKernel 7#32 3 0#32) 0) s ∧
      (∀ fuel, processGetNext fuel s.kernel = none) ∧
        ∀ fuel, processYield fuel s.kernel = none := by
  obtain ⟨k', hrun, hlist, hcur, -⟩ := small_run
  let c : Call := ⟨.terminate 20480, 0, 0⟩
  let k₂ := (k'.enter c).setState 20480 .terminated
  have hne : (20480 == (k'.enter c).currentProcess) = false := by
    rw [show (k'.enter c).currentProcess = 12288 from hcur]
    rfl
  have hinv := (sched_inv boot_empty hrun).enter c
  have hallowed : c.op.Allowed (k'.enter c) [20480] := List.mem_singleton_self _
  have hop : processOp 0 (k'.enter c) c.op = some ⟨[], [], k₂⟩ := by
    rw [processOp_eq hinv.list hinv.current hallowed rfl,
      if_neg (by rw [show c.op.yields (k'.enter c) = false from hne]; decide)]
    rfl
  have hstep : Sched.Step ⟨k', [20480]⟩ c ⟨k₂, [20480]⟩ := ⟨hallowed, 0, _, hop, rfl⟩
  have hsafe : c.op.Safe (k'.enter c) [20480] := fun hy =>
    absurd ((show c.op.yields (k'.enter c) = false from hne) ▸ hy) (by decide)
  have hrun₂ := hrun.tail ⟨hstep, hsafe⟩
  have hinv₂ := sched_inv boot_empty hrun₂
  have hdead : (k₂.pcb 20480).state = .terminated := by
    rw [Kernel.setState_state, if_pos rfl]
  have hstuck : Stuck k₂ [20480] := by
    refine ⟨hcur.trans hlist.symm, ⟨20480, rfl, by simp [Kernel.dead, hdead]⟩, fun x hx => ?_⟩
    obtain rfl := List.mem_singleton.mp hx
    simp [Kernel.runnable, Kernel.wakes, hdead]
  have hnone := processGetNext_of_stuck
    (hinv₂.list.wellFormed hinv₂.current hinv₂.states.yieldOk) hstuck
  refine ⟨boot_empty, ⟨k₂, [20480]⟩, hrun₂.mono fun _ _ _ => And.left, hnone, fun fuel => ?_⟩
  rw [processYield, hnone]
  rfl

end Main

end Rexus
