import Rexus.Mem.VmmCloneOrder
import Rexus.Proc.SchedRun

/-!
# Creations that return null

A creation that returns null gives back the record's block, and when it has no stack the directory
too. Three things stay changed. If block `0` is the least free block, it is marked and never given
to anyone. The copies of pages are not freed with the directory. And a directory that is complete
shares the kernel's tables, which are freed with it. Otherwise everything is as it was, and which of
these happens is decided by the number of blocks there are to give.

## Main results

* `CreateUndone` — nothing has changed: the list, the allocator, the page tables
* `createUndone_iff` — when nothing has changed after a creation that returns null

## Conventions

The condition is about the state before the call: the blocks that the allocator has to give, in
number and, where block `0` matters, by name, and the entries of the current directory. It is exact.
The counter of the allocator may be anything, so the number of blocks to give is `Pmm.avail` and not
the number of clear bits.

To be undone is said of what others can see: the head of the list and the records in blocks that
were in use, the bitmap and the counter, and the current directory with its tables. The memory of
blocks that were free may have been written, and the counter of the ids goes on.
-/

namespace Rexus

open Linked Loop Mem Pmm

/-! ### What is to be as it was -/

/-- The head of the list and every record in a block that was in use, the allocator, and the current
directory with its tables are in `k'` what they were in `k`. -/
structure CreateUndone (k k' : Kernel) : Prop where
  processList : k'.processList = k.processList
  record : ∀ p, p / 4096 ∈ k.mem.pmm.usedSet → k'.pcb p = k.pcb p
  blocks : SameAllocator k.mem.pmm k'.mem.pmm
  currentDirectory : k'.mem.currentDirectory = k.mem.currentDirectory
  directory : ∀ i < 1024,
    k'.mem.word k.mem.currentDirectory i = k.mem.word k.mem.currentDirectory i
  table : ∀ i < 1024, present (k.mem.word k.mem.currentDirectory i) = true → ∀ j < 1024,
    k'.mem.word (tableOf (k.mem.word k.mem.currentDirectory i)) j =
      k.mem.word (tableOf (k.mem.word k.mem.currentDirectory i)) j

/-- Of the blocks there are to give the record takes one, and a clone of the current directory the
next. Block `0` is not free, none of those goes to the copy of a page, and a clone that is finished
shares no table. -/
structure CreateUndoable (k : Kernel) : Prop where
  blockZero : k.mem.pmm.avail ≠ 0 → 0 ∈ k.mem.pmm.usedSet
  noCopy : ∀ v, .page v ∉
    (cloneSlots k.mem k.mem.currentDirectory).take (k.mem.pmm.avail - 1)
  noKernel : (cloneSlots k.mem k.mem.currentDirectory).length < k.mem.pmm.avail →
    NoKernel k.mem k.mem.currentDirectory

section Undone

variable {k k' k₁ : Kernel} {s t u : Pmm} {m : Mem} {b dir : ℕ} {B : Finset ℕ}

/-- The block of the record is given back. -/
theorem takes_freeRecord (ht : Takes s t {b}) (hu : Takes t u B) :
    Takes s (pmmFreeBlock u (b * 4096)) B := by
  refine ht.giveBack hu fun hb => ?_
  have hgives := gives_pmmFreeBlock (s := u) (p := b * 4096)
  rw [Nat.mul_div_cancel _ (by decide)] at hgives
  exact hgives (Finset.singleton_subset_iff.mp hb)

/-- Where only free memory was written, and one record in it, the allocator decides. -/
theorem Recorded.undone_iff (h : Recorded k k' (b * 4096) m)
    (hsrc : SrcOk k.mem k.mem.currentDirectory) (hfree : b ∉ k.mem.pmm.usedSet)
    (hram : ∃ U, Disjoint k.mem.pmm.usedSet U ∧ SameOutside k.mem m U)
    (hcur : m.currentDirectory = k.mem.currentDirectory) :
    CreateUndone k k' ↔ SameAllocator k.mem.pmm m.pmm := by
  obtain ⟨U, hU, hsame⟩ := hram
  have hword : ∀ p, p % 4096 = 0 → p / 4096 ∈ k.mem.pmm.usedSet → ∀ i < 1024,
      k'.mem.word p i = k.mem.word p i := by
    intro p hp hused i hi
    rw [h.mem]
    exact hsame.word hp hi (Finset.disjoint_left.mp hU hused)
  constructor
  · intro hundone
    have hblocks := hundone.blocks
    rwa [h.mem] at hblocks
  · intro hblocks
    refine ⟨h.processList, fun p hp => h.pcb p ?_, by rwa [h.mem], by rw [h.mem, hcur],
      hword _ hsrc.dir.aligned hsrc.dir.used, fun i hi hpi => ?_⟩
    · rintro rfl
      rw [Nat.mul_div_cancel _ (by decide)] at hp
      exact hfree hp
    · exact hword _ (hsrc.table i hi hpi).aligned (hsrc.table i hi hpi).used

end Undone

/-! ### What a creation that returns null has done -/

section Null

variable {k k' k₁ : Kernel} {m m₁ : Mem} {t : Pmm} {fuel b dir : ℕ} {name : List UInt8}
  {entry arg : UInt32} {priority : ProcessPriority}

/-- What is given back of a clone: nothing if there is none, and the directory if there is no
stack. -/
inductive GivenBack (m : Mem) (dir : ℕ) : Mem → Prop where
  | clone (hdir : dir = 0) : GivenBack m dir m
  | stack {u : Pmm} (hdir : dir ≠ 0) (h : pmmAllocBlocks m.pmm (16384 / 4096) = (0, u)) :
    GivenBack m dir (vmmFreeDirectory { m with pmm := u } dir)

theorem processStack_null (hk₁ : Recorded k k₁ (b * 4096) m) (hb0 : b ≠ 0)
    (hdir : (k₁.pcb (b * 4096)).pageDirectory = dir) (hdir0 : dir ≠ 0)
    (h : processStack fuel k₁ (b * 4096) entry arg = some (0, k')) :
    ∃ m₁, GivenBack m dir m₁ ∧
      Recorded k k' (b * 4096) { m₁ with pmm := pmmFreeBlock m₁.pmm (b * 4096) } := by
  rcases halloc : pmmAllocBlocks m.pmm (16384 / 4096) with ⟨stack, u⟩
  rw [processStack, hk₁.mem, halloc] at h
  dsimp only at h
  split_ifs at h with hstack
  · subst hstack
    obtain ⟨-, rfl⟩ := Prod.mk.inj (Option.some_inj.mp h)
    have hmem : vmmFreeDirectory (k₁.setPmm u).mem ((k₁.setPmm u).pcb (b * 4096)).pageDirectory =
        vmmFreeDirectory { m with pmm := u } dir := by
      rw [← hdir, ← hk₁.mem]
      rfl
    rw [hmem]
    exact ⟨_, .stack hdir0 halloc, (hk₁.setMem _).freeRecord⟩
  · obtain ⟨last, -, heq⟩ := Option.map_eq_some_iff.mp h
    exact absurd (congrArg Prod.fst heq) (Nat.mul_ne_zero hb0 (by decide))

/-- Everything a creation that returns null can have done: nothing but the refused allocation, or a
record and a clone, of which the record's block and the directory are given back. -/
theorem processCreate_null (h : processCreate fuel k name entry arg priority = some (0, k')) :
    (∃ t, pmmAllocBlock k.mem.pmm = (0, t) ∧ k' = k.setPmm t) ∨
      ∃ b t dir m m₁, pmmAllocBlock k.mem.pmm = (b * 4096, t) ∧ b ≠ 0 ∧
        Takes k.mem.pmm t {b} ∧
        vmmCloneDirectory { k.mem with pmm := t } k.mem.currentDirectory = some (dir, m) ∧
        GivenBack m dir m₁ ∧
        Recorded k k' (b * 4096) { m₁ with pmm := pmmFreeBlock m₁.pmm (b * 4096) } := by
  rw [processCreate] at h
  rcases pmmAllocBlock_takes k.mem.pmm with ⟨t, halloc, -⟩ | ⟨b, t, halloc, hb0, -, ht⟩
  · rw [halloc] at h
    exact Or.inl ⟨t, halloc, (congrArg Prod.snd (Option.some_inj.mp h)).symm⟩
  have hptr : b * 4096 ≠ 0 := Nat.mul_ne_zero hb0 (by decide)
  rw [halloc] at h
  dsimp only at h
  rw [if_neg hptr] at h
  split_ifs at h with hname
  have hk₁ := recorded_newRecord k (b * 4096) t name priority
  generalize (k.setPmm t).newRecord (b * 4096) name priority = k₁ at *
  rw [processClone, hk₁.mem] at h
  cases hclone : vmmCloneDirectory { k.mem with pmm := t } k.mem.currentDirectory with
  | none =>
    rw [hclone] at h
    cases h
  | some e =>
    obtain ⟨dir, m⟩ := e
    rw [hclone] at h
    dsimp only at h
    have hk₂ : Recorded k (({ k₁ with mem := m } : Kernel).setPcb (b * 4096)
        { k₁.pcb (b * 4096) with pageDirectory := dir }) (b * 4096) m :=
      (hk₁.setMem m).setPcb rfl rfl
    split_ifs at h with hdir
    · obtain ⟨-, rfl⟩ := Prod.mk.inj (Option.some_inj.mp h)
      exact Or.inr ⟨b, t, dir, m, m, halloc, hb0, ht, hclone, .clone hdir, hk₂.freeRecord⟩
    · obtain ⟨m₁, hback, hk'⟩ := processStack_null hk₂ hb0
        (congrArg Process.pageDirectory (Kernel.setPcb_self _ _ _)) hdir h
      exact Or.inr ⟨b, t, dir, m, m₁, halloc, hb0, ht, hclone, hback, hk'⟩

end Null

/-! ### What is left of the clone -/

section Left

variable {m₀ m m₁ : Mem} {src dir : ℕ}

theorem GivenBack.same (hsrc : SrcOk m₀ src) (hclone : vmmCloneDirectory m₀ src = some (dir, m))
    (h : GivenBack m dir m₁) : (∃ U, Disjoint m₀.pmm.usedSet U ∧ SameOutside m₀ m₁ U) ∧
      m₁.currentDirectory = m₀.currentDirectory := by
  have hm : (∃ U, Disjoint m₀.pmm.usedSet U ∧ SameOutside m₀ m U) ∧
      m.currentDirectory = m₀.currentDirectory := by
    rcases vmmCloneDirectory_spec hsrc hclone with ⟨-, hfailed⟩ | ⟨block, T, hinv⟩
    · exact ⟨hfailed.same, hfailed.current⟩
    · exact ⟨⟨T, hinv.blocks.takes.free, hinv.blocks.same⟩, hinv.blocks.current⟩
  cases h with
  | clone hdir => exact hm
  | stack hdir halloc =>
    obtain ⟨u, heq, -⟩ := vmmFreeDirectory_spec { m with pmm := _ } hdir
    rw [heq]
    exact hm

/-- The copies of pages are left, and a kernel table is lost if the clone was finished. -/
theorem GivenBack.cases (hsrc : SrcOk m₀ src) (h0 : 0 ∈ m₀.pmm.usedSet)
    (hclone : vmmCloneDirectory m₀ src = some (dir, m)) (h : GivenBack m dir m₁) :
    (((cloneSlots m₀ src).length ≤ m₀.pmm.avail → NoKernel m₀ src) ∧
      ∃ B, Takes m₀.pmm m₁.pmm B ∧
        (B = ∅ ↔ ∀ v, .page v ∉ (cloneSlots m₀ src).take m₀.pmm.avail)) ∨
    ((cloneSlots m₀ src).length ≤ m₀.pmm.avail ∧ ¬ NoKernel m₀ src ∧
      ∃ i < 1024, present (m₀.word src i) = true ∧ tableBlock m₀ src i ∉ m₁.pmm.usedSet) := by
  rcases vmmCloneDirectory_order hsrc h0 hclone with ⟨rfl, hlt, hB⟩ | ⟨hdir, hle⟩
  · cases h with
    | clone => exact Or.inl ⟨fun hle => absurd hlt (Nat.not_lt.mpr hle), hB⟩
    | stack hdir => exact absurd rfl hdir
  cases h with
  | clone hzero => exact absurd hzero hdir
  | stack _ halloc =>
    obtain ⟨block, T, hinv⟩ :=
      (vmmCloneDirectory_spec hsrc hclone).resolve_left fun hzero => hdir hzero.1
    obtain rfl := pmmAllocBlocks_zero halloc fun hrun =>
      (freeRun_one.mp hrun).2 (hinv.blocks.takes.subset h0)
    by_cases hno : NoKernel m₀ src
    · obtain ⟨u, B, heq, hB, hpage⟩ := hinv.freed fun i hi _ hge => hno i hi hge
      refine Or.inl ⟨fun _ => hno, B, ?_, ?_⟩
      · rw [show ({ m with pmm := m.pmm } : Mem) = m from rfl, heq]
        exact hB
      · rw [hpage, List.take_of_length_le hle]
        simp only [mem_cloneSlots]
    · -- the finished clone refers to the table itself
      obtain ⟨i, hi, hge, hp⟩ : ∃ i < 1024, 768 ≤ i ∧ present (m₀.word src i) = true := by
        simpa [NoKernel] using hno
      refine Or.inr ⟨hle, hno, i, hi, hp, fun hused => ?_⟩
      rw [usedSet_vmmFreeDirectory _ hdir, Finset.mem_sdiff, directoryBlocks, Finset.mem_insert,
        mem_tableBlocks] at hused
      refine hused.2 (Or.inr ⟨i, hi, (hinv.present_dirWord hi).mpr ⟨hi, hp⟩, ?_⟩)
      show tableBlock m dir i = _
      rw [tableBlock, tableBlock, hinv.word_kernel hi hi hge hp]

end Left

/-! ### When nothing has changed -/

section Main

variable {k k' : Kernel} {fuel : ℕ} {name : List UInt8} {entry arg : UInt32}
  {priority : ProcessPriority}

/-- **When a creation that returns null has changed nothing**: exactly if block `0` is not free,
the blocks there are to give do not reach a copy of a page, and a clone they suffice for shares no
table. -/
theorem createUndone_iff (hsrc : SrcOk k.mem k.mem.currentDirectory)
    (h : processCreate fuel k name entry arg priority = some (0, k')) :
    CreateUndone k k' ↔ CreateUndoable k := by
  rcases processCreate_null h with ⟨t, halloc, rfl⟩ | ⟨b, t, dir, m, m₁, halloc, hb0, ht, hclone,
    hback, hk'⟩
  · -- the record was refused, or block `0` was taken for it
    have hundone : CreateUndone k (k.setPmm t) ↔ SameAllocator k.mem.pmm t :=
      ⟨fun h => h.blocks, fun h => ⟨rfl, fun _ _ => rfl, h, rfl, fun _ _ => rfl,
        fun _ _ _ _ _ => rfl⟩⟩
    rw [hundone]
    rcases pmmAllocBlock_null halloc with ⟨rfl, havail⟩ | ⟨ht, havail⟩
    · refine iff_of_true (SameAllocator.refl _) ⟨fun hne => absurd havail hne, fun v => ?_, ?_⟩
      · rw [havail]
        exact List.not_mem_nil
      · rw [havail]
        exact fun hlt => absurd hlt (Nat.not_lt_zero _)
    · rw [sameAllocator_iff ht]
      exact iff_of_false (Finset.singleton_ne_empty 0) fun hundo =>
        ht.notMem (Finset.mem_singleton_self 0) (hundo.blockZero havail)
  obtain ⟨h0, havail⟩ := pmmAllocBlock_given halloc hb0
  have hbfree := ht.notMem (Finset.mem_singleton_self b)
  have hsrc' := hsrc.mono ht.subset
  obtain ⟨⟨U, hU, hsame⟩, hcur⟩ := hback.same hsrc' hclone
  rw [hk'.undone_iff hsrc hbfree ⟨U, hU.mono_left ht.subset, hsame⟩ hcur]
  have hslots : cloneSlots { k.mem with pmm := t } k.mem.currentDirectory =
      cloneSlots k.mem k.mem.currentDirectory := rfl
  rcases hback.cases hsrc' (ht.subset h0) hclone with ⟨hno, B, hB, hpage⟩ |
    ⟨hle, hno, i, hi, hp, hlost⟩
  · rw [sameAllocator_iff (takes_freeRecord ht hB), hpage, hslots]
    constructor
    · intro hcopy
      refine ⟨fun _ => h0, ?_, fun hlt => hno ?_⟩
      · rwa [havail, Nat.add_sub_cancel]
      · rw [havail] at hlt
        exact Nat.le_of_lt_succ hlt
    · intro hundo
      have hcopy := hundo.noCopy
      rwa [havail, Nat.add_sub_cancel] at hcopy
  · refine iff_of_false (fun hblocks => hlost ?_) fun hundo => hno (hundo.noKernel ?_)
    · have hset := usedSet_eq_of_bitmap hblocks.memBlocks hblocks.bitmap
      have hused := (hsrc.table i hi hp).used
      rw [← hset, usedSet_pmmFreeBlock] at hused
      exact Finset.mem_of_mem_erase hused
    · rw [havail]
      exact Nat.lt_succ_of_le hle

/-- A creation that has a record and no directory returns null. -/
theorem processCreate_noDirectory {b : ℕ} {t u : Pmm} (hname : name.length < 32)
    (halloc : pmmAllocBlock k.mem.pmm = (b * 4096, t)) (hb0 : b ≠ 0)
    (hnone : pmmAllocBlock t = (0, u)) :
    ∃ k', processCreate fuel k name entry arg priority = some (0, k') := by
  have hclone : vmmCloneDirectory { k.mem with pmm := t } k.mem.currentDirectory =
      some (0, { k.mem with pmm := u }) := by
    rw [vmmCloneDirectory, vmmCreateDirectory, hnone]
    rfl
  rw [processCreate, halloc]
  dsimp only
  rw [if_neg (Nat.mul_ne_zero hb0 (by decide)), if_neg (Nat.not_le.mpr hname), processClone,
    (recorded_newRecord k (b * 4096) t name priority).mem, hclone]
  exact ⟨_, if_pos rfl⟩

/-- With one free block the record gets it, the directory gets none, and it is given back. -/
theorem createUndone_full :
    ∃ k', processCreate 0 (processInit (smallKernel 0x1FE7#32 11 0x2007#32) 0) [] 0 0 .normal =
        some (0, k') ∧
      CreateUndone (processInit (smallKernel 0x1FE7#32 11 0x2007#32) 0) k' := by
  have hsmall : Small (processInit (smallKernel 0x1FE7#32 11 0x2007#32) 0) 0x2007#32
      (Finset.range 13) :=
    ⟨rfl, by decide, by decide, by decide, rfl,
      fun i _ => word_smallKernel 0x1FE7#32 11 0x2007#32 i, fun _ => by decide, rfl⟩
  have hleast : Least (Finset.range 13) 13 := by decide
  obtain ⟨t, halloc, ht, htU, htc⟩ := hleast.alloc hsmall.memBlocks hsmall.used hsmall.counted
  have hnone : pmmAllocBlock t = (0, t) := by
    rcases pmmAllocBlock_cases t with ⟨heq, -⟩ | ⟨c, -, -, hrun, -⟩
    · exact heq
    · obtain ⟨hc, hfree⟩ := freeRun_one.mp hrun
      rw [htU, Finset.mem_insert, Finset.mem_range] at hfree
      omega
  have havail : (processInit (smallKernel 0x1FE7#32 11 0x2007#32) 0).mem.pmm.avail = 1 := by decide
  obtain ⟨k', hcreate⟩ := processCreate_noDirectory (show [].length < 32 by decide) halloc
    (by decide) hnone
  refine ⟨k', hcreate, (createUndone_iff ?_ hcreate).mpr ⟨fun _ => ?_, fun v => ?_, fun hlt => ?_⟩⟩
  · exact hsmall.srcOk hsmall.used.ge fun _ => by decide
  · rw [hsmall.used]
    decide
  · rw [havail]
    exact List.not_mem_nil
  · rw [havail] at hlt
    exact absurd (List.length_eq_zero_iff.mp (Nat.lt_one_iff.mp hlt)) (List.cons_ne_nil _ _)

/-- A creation that gets a record and a directory but no stack frees the kernel's table. -/
theorem not_createUndone_shared :
    SrcOk (processInit (smallKernel 0x1407#32 5 0x2007#32) 0).mem
        (processInit (smallKernel 0x1407#32 5 0x2007#32) 0).mem.currentDirectory ∧
      ∃ k', processCreate 0 (processInit (smallKernel 0x1407#32 5 0x2007#32) 0) [] 0 0 .normal =
          some (0, k') ∧
        ¬ CreateUndone (processInit (smallKernel 0x1407#32 5 0x2007#32) 0) k' := by
  obtain ⟨k', hcreate, hk', -⟩ := small_shared.create_refused 0 (b := 5) (d := 6)
    (by decide) (by decide) (by decide) (by decide) (by decide)
  refine ⟨small_shared.srcOk small_shared.used.ge fun _ => by decide, k', hcreate,
    fun hundone => ?_⟩
  have hset := usedSet_eq_of_bitmap hundone.blocks.memBlocks hundone.blocks.bitmap
  rw [hk'.used, small_shared.used] at hset
  exact absurd hset (by decide)

end Main

end Rexus
