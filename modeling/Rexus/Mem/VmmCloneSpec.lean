import Rexus.Mem.VmmClone

/-!
# What a clone maps, and what freeing it frees

A process gets its address space from `vmm_clone_directory` and loses it through
`vmm_free_directory`. The first does what it is for. The second is not its inverse: it frees every
table the directory refers to, the kernel's included, which the clone shares with its source, and no
page, so the copied ones are lost.

## Main results

* `vmmCloneDirectory_maps` — the clone maps what its source maps, with private copies of the
  writable user pages
* `vmmFreeDirectory_clone_iff` — for which sources freeing the clone undoes it

## What is specified

`CloneSpec` is what somebody who makes a process needs: every address translates in the clone as in
the source, to the same flags, except that a writable user page goes to a page of its own with the
same contents; the copies and the new tables are nobody else's; and the source, and all memory in
use before, is as it was. It does not mention the walk or the slots. The contents of the copies are
not part of it: a copy is read through the current directory, whichever the source is, and so it has
what the current directory maps at the address.

`FreeRestores` is about the allocator and the tables of the source only: what the memory of a freed
block holds does not matter. It is asked for every source whose clone has succeeded.
-/

namespace Rexus

open AlignedWord Loop Mem Pmm

/-! ### The clone as an address space -/

/-- What a caller of `vmm_clone_directory` expects of the new directory. -/
structure CloneSpec (m₀ : Mem) (src dest : ℕ) (m : Mem) : Prop where
  /-- The same addresses translate, -/
  translates : ∀ va, (vmmGetMapping m dest va).isSome = (vmmGetMapping m src va).isSome
  /-- and where they do the flags agree. -/
  flags : ∀ va, (vmmGetMapping m src va).isSome →
    pageEntry m dest (pageNumber va) &&& 0xFFF#32 = pageEntry m src (pageNumber va) &&& 0xFFF#32
  /-- From 3 GiB on the tables are shared. -/
  kernel : ∀ va : BitVec 32, 0xC0000000 ≤ va.toNat →
    (vmmGetPageTable m dest (pageDirIndex va) false).1 =
      (vmmGetPageTable m src (pageDirIndex va) false).1
  /-- Below, a read-only page keeps its frame, -/
  readOnly : ∀ va : BitVec 32, va.toNat < 0xC0000000 →
    present (pageEntry m src (pageNumber va)) = true →
    writable (pageEntry m src (pageNumber va)) = false →
    vmmGetMapping m dest va = vmmGetMapping m src va
  /-- a writable page gets one that was free, -/
  fresh : ∀ va : BitVec 32, va.toNat < 0xC0000000 →
    present (pageEntry m src (pageNumber va)) = true →
    writable (pageEntry m src (pageNumber va)) = true →
    ∃ f, FreeRun m₀.pmm 1 f ∧ tableOf (pageEntry m dest (pageNumber va)) = f * 4096 ∧
      vmmGetMapping m dest va = some (BitVec.ofNat 32 (f * 4096) + pageOffset va)
  /-- and no two of them the same. -/
  distinct : ∀ va va' : BitVec 32, va.toNat < 0xC0000000 → va'.toNat < 0xC0000000 →
    present (pageEntry m src (pageNumber va)) = true →
    writable (pageEntry m src (pageNumber va)) = true →
    present (pageEntry m src (pageNumber va')) = true →
    writable (pageEntry m src (pageNumber va')) = true →
    tableOf (pageEntry m dest (pageNumber va)) = tableOf (pageEntry m dest (pageNumber va')) →
    pageNumber va = pageNumber va'
  /-- No entry of the source changes. -/
  srcDir : ∀ i < 1024, m.word src i = m₀.word src i
  srcPages : ∀ v, pageEntry m src v = pageEntry m₀ src v

section Maps

variable {m₀ m : Mem} {src dest : ℕ} {block : CloneSlot → ℕ} {T : Finset ℕ} {v v' : BitVec 20}

theorem pageEntry_eq (m : Mem) (dir : ℕ) (v : BitVec 20) :
    pageEntry m dir v = if present (m.word dir (v.toNat / 1024)) then
      if tableOf (m.word dir (v.toNat / 1024)) = 0 then 0#32
      else m.word (tableOf (m.word dir (v.toNat / 1024))) (v.toNat % 1024) else 0#32 := by
  cases hp : present (m.word dir (v.toNat / 1024)) with
  | true =>
    rw [pageEntry, vmmGetPageTable_present (dirIndex_lt v) hp, if_pos rfl]
  | false =>
    rw [pageEntry_of_absent hp]
    rfl

/-- The entry of a page of the source. -/
theorem pageEntry_src (hsrc : SrcOk m₀ src) (v : BitVec 20) :
    pageEntry m₀ src v = if present (m₀.word src (v.toNat / 1024)) then srcEntry m₀ src v.toNat
      else 0#32 := by
  rw [pageEntry_eq]
  split_ifs with hp ht
  · exact absurd ht (hsrc.table _ (dirIndex_lt v) hp).ne_zero
  · rfl
  · rfl

namespace CloneInv

variable (h : CloneInv m₀ src dest 1024 (1024 * 1024) block T m) (hsrc : SrcOk m₀ src)
include h

/-- The entry of a user page of the clone. -/
theorem pageEntry_user (hv : v.toNat / 1024 < 768) :
    pageEntry m dest v = if present (m₀.word src (v.toNat / 1024)) then
      clonePageEntry m₀ src block v.toNat else 0#32 := by
  have hidx := dirIndex_lt v
  have hpresent := h.present_dirWord hidx
  split_ifs with hp
  · have hlive : Live m₀ src 1024 (1024 * 1024) (.table (v.toNat / 1024)) := ⟨hidx, hv, hp⟩
    have hptr := h.tableOf_user hidx hv hp
    have h0 := h.blocks.ne_zero _ hlive
    rw [pageEntry_of_present (hpresent.mpr ⟨hidx, hp⟩) (by rw [hptr]; omega), hptr,
      h.tableWord _ hlive]
    exact if_pos v.isLt
  · refine pageEntry_of_absent ?_
    rw [← Bool.not_eq_true, hpresent]
    exact fun hcon => hp hcon.2

/-- The tables of the kernel pages are the source's. -/
theorem kernelWord {i : ℕ} (hi : i < 1024) (hkernel : 768 ≤ i) :
    m.word dest i = m₀.word src i ∨
      (present (m.word dest i) = false ∧ present (m₀.word src i) = false) := by
  cases hp : present (m₀.word src i) with
  | true => exact Or.inl (h.word_kernel hi hi hkernel hp)
  | false =>
    refine Or.inr ⟨?_, rfl⟩
    rw [← Bool.not_eq_true, h.present_dirWord hi, hp]
    exact fun hcon => Bool.noConfusion hcon.2

include hsrc

/-- The walk has not changed the source. -/
theorem pageEntry_src_eq (v : BitVec 20) : pageEntry m src v = pageEntry m₀ src v := by
  rw [pageEntry_eq, pageEntry_eq, h.src_word hsrc (dirIndex_lt v)]
  split_ifs with hp ht
  · rfl
  · exact h.srcTable_word hsrc (dirIndex_lt v) hp (tableIndex_lt v)
  · rfl

theorem vmmGetPageTable_kernel {i : ℕ} (hkernel : 768 ≤ i) :
    (vmmGetPageTable m dest i false).1 = (vmmGetPageTable m src i false).1 := by
  by_cases hi : i < 1024
  · rcases h.kernelWord hi hkernel with heq | ⟨hd, hs⟩
    · have hsame : m.word dest i = m.word src i := heq.trans (h.src_word hsrc hi).symm
      cases hp : present (m.word src i) with
      | true =>
        rw [vmmGetPageTable_present hi (hsame ▸ hp), vmmGetPageTable_present hi hp, hsame]
      | false => rw [vmmGetPageTable_absent (hsame ▸ hp), vmmGetPageTable_absent hp]
    · rw [vmmGetPageTable_absent hd,
        vmmGetPageTable_absent (by rw [h.src_word hsrc hi, hs])]
  · rw [vmmGetPageTable, vmmGetPageTable, if_pos (Nat.le_of_not_lt hi),
      if_pos (Nat.le_of_not_lt hi)]

theorem pageEntry_kernel (hv : 768 ≤ v.toNat / 1024) : pageEntry m dest v = pageEntry m src v := by
  rw [pageEntry, pageEntry, h.vmmGetPageTable_kernel hsrc hv]

/-- In each entry of the clone: present, writable and the flags are the source's. -/
theorem pageEntry_flags (v : BitVec 20) :
    present (pageEntry m dest v) = present (pageEntry m src v) ∧
      (present (pageEntry m src v) = true →
        pageEntry m dest v &&& 0xFFF#32 = pageEntry m src v &&& 0xFFF#32) := by
  rcases Nat.lt_or_ge (v.toNat / 1024) 768 with hv | hv
  · rw [h.pageEntry_src_eq hsrc, h.pageEntry_user hv, pageEntry_src hsrc]
    split_ifs with hp
    · rw [clonePageEntry]
      split_ifs with hpe hwe
      · refine ⟨?_, fun _ => low_pack (k := 12) ?_ _⟩
        · rw [present_pack, present_eq, present_eq]
          show ((srcEntry m₀ src v.toNat) &&& lowMask 32 12).getLsbD 0 = _
          rw [getLsbD_and_lowMask]
          exact Bool.and_true _
        · exact (BitVec.and_assoc _ _ _).trans (congrArg _ (BitVec.and_self))
      · exact ⟨rfl, fun _ => rfl⟩
      · exact ⟨by rw [Bool.not_eq_true] at hpe; rw [hpe]; rfl, fun hcon => absurd hcon hpe⟩
    · exact ⟨rfl, fun _ => rfl⟩
  · rw [h.pageEntry_kernel hsrc hv]
    exact ⟨rfl, fun _ => rfl⟩

/-- A writable user page of the clone is in its slot's block. -/
theorem pageEntry_writable (hv : v.toNat / 1024 < 768)
    (hpe : present (pageEntry m src v) = true) (hwe : writable (pageEntry m src v) = true) :
    Live m₀ src 1024 (1024 * 1024) (.page v.toNat) ∧
      tableOf (pageEntry m dest v) = block (.page v.toNat) * 4096 := by
  rw [h.pageEntry_src_eq hsrc, pageEntry_src hsrc] at hpe hwe
  rw [h.pageEntry_user hv]
  split_ifs at hpe hwe ⊢ with hp
  · have hlive : Live m₀ src 1024 (1024 * 1024) (.page v.toNat) := ⟨v.isLt, hv, hp, hpe, hwe⟩
    refine ⟨hlive, ?_⟩
    rw [clonePageEntry, if_pos hpe, if_pos hwe, tableOf_pack (h.blocks.lt hlive)]
    exact (BitVec.and_assoc _ _ _).trans (congrArg _ (BitVec.and_self))
  · exact absurd hpe (by decide)

theorem pageEntry_readOnly (hv : v.toNat / 1024 < 768)
    (hpe : present (pageEntry m src v) = true) (hwe : writable (pageEntry m src v) = false) :
    pageEntry m dest v = pageEntry m src v := by
  rw [h.pageEntry_src_eq hsrc, pageEntry_src hsrc] at hpe hwe ⊢
  rw [h.pageEntry_user hv]
  split_ifs at hpe hwe ⊢ with hp
  · rw [clonePageEntry, if_pos hpe, if_neg (by rw [hwe]; decide)]
  · rfl

end CloneInv

/-- An address below 3 GiB is a user page. -/
theorem dirIndex_lt_of_user {va : BitVec 32} (hva : va.toNat < 0xC0000000) :
    (pageNumber va).toNat / 1024 < 768 := by
  rw [pageNumber_toNat]
  omega

theorem CloneInv.cloneSpec (h : CloneInv m₀ src dest 1024 (1024 * 1024) block T m)
    (hsrc : SrcOk m₀ src) : CloneSpec m₀ src dest m where
  translates va := by
    rw [isSome_vmmGetMapping, isSome_vmmGetMapping, (h.pageEntry_flags hsrc _).1]
  flags va hva := by
    rw [isSome_vmmGetMapping] at hva
    exact (h.pageEntry_flags hsrc _).2 hva
  kernel va hva := by
    refine h.vmmGetPageTable_kernel hsrc ?_
    rw [pageDirIndex_eq, pageNumber_toNat]
    omega
  readOnly va hva hpe hwe := by
    rw [vmmGetMapping_eq, vmmGetMapping_eq, PageMap.translate, PageMap.translate, pageMap, pageMap,
      h.pageEntry_readOnly hsrc (dirIndex_lt_of_user hva) hpe hwe]
  fresh va hva hpe hwe := by
    obtain ⟨hlive, htable⟩ := h.pageEntry_writable hsrc (dirIndex_lt_of_user hva) hpe hwe
    have hmem := h.blocks.mem hlive
    refine ⟨_, freeRun_one.mpr ⟨h.blocks.takes.lt hmem, h.blocks.takes.notMem hmem⟩, htable, ?_⟩
    rw [vmmGetMapping_of_present (by rw [(h.pageEntry_flags hsrc _).1, hpe]), ← htable, tableOf,
      BitVec.ofNat_toNat, BitVec.setWidth_eq]
  distinct va va' hva hva' hpe hwe hpe' hwe' heq := by
    obtain ⟨hlive, htable⟩ := h.pageEntry_writable hsrc (dirIndex_lt_of_user hva) hpe hwe
    obtain ⟨hlive', htable'⟩ := h.pageEntry_writable hsrc (dirIndex_lt_of_user hva') hpe' hwe'
    rw [htable, htable'] at heq
    have hblock := Nat.eq_of_mul_eq_mul_right (by decide) heq
    exact BitVec.eq_of_toNat_eq (CloneSlot.page.inj (h.blocks.inj _ _ hlive hlive' hblock))
  srcDir i hi := h.src_word hsrc hi
  srcPages v := h.pageEntry_src_eq hsrc v

/-- **A clone that succeeds maps what its source maps.** -/
theorem vmmCloneDirectory_maps (hsrc : SrcOk m₀ src)
    (hclone : vmmCloneDirectory m₀ src = some (dest, m)) (hdest : dest ≠ 0) :
    CloneSpec m₀ src dest m := by
  rcases vmmCloneDirectory_spec hsrc hclone with ⟨hzero, -⟩ | ⟨block, T, h⟩
  · exact absurd hzero hdest
  · exact h.cloneSpec hsrc

end Maps

/-! ### Freeing the clone -/

/-- Freeing a clone has undone it: the tables of its source are still allocated, and the allocator
is where it was before the clone. -/
structure FreeRestores (m₀ : Mem) (src : ℕ) (m : Mem) : Prop where
  tables : ∀ i < 1024, present (m₀.word src i) = true → tableBlock m₀ src i ∈ m.pmm.usedSet
  memBlocks : m.pmm.memBlocks = m₀.pmm.memBlocks
  bitmap : ∀ b < m₀.pmm.memBlocks, pmmTestBlock m.pmm b = pmmTestBlock m₀.pmm b
  counter : m.pmm.memUsedBlocks = m₀.pmm.memUsedBlocks

/-- The sources whose clones share no table and copy no page: no kernel entry, and no writable page
below 3 GiB. -/
structure CloneFreeable (m : Mem) (src : ℕ) : Prop where
  kernel : ∀ i < 1024, 768 ≤ i → present (m.word src i) = false
  user : ∀ i < 768, present (m.word src i) = true → ∀ j < 1024,
    present (m.word (tableOf (m.word src i)) j) = true →
      writable (m.word (tableOf (m.word src i)) j) = false

section Free

variable {m₀ m : Mem} {src dest : ℕ} {block : CloneSlot → ℕ} {T : Finset ℕ}

/-- A page that needs a copy, found in a clone. -/
theorem CloneInv.no_page (hfree : CloneFreeable m₀ src) {a n v : ℕ} :
    ¬ Live m₀ src a n (.page v) := by
  rintro ⟨-, hi, hp, hpe, hwe⟩
  rw [srcEntry] at hpe hwe
  rw [hfree.user _ hi hp _ (Nat.mod_lt v (by decide)) hpe] at hwe
  exact Bool.noConfusion hwe

theorem CloneInv.freeRestores (h : CloneInv m₀ src dest 1024 (1024 * 1024) block T m)
    (hsrc : SrcOk m₀ src) (hfree : CloneFreeable m₀ src) :
    FreeRestores m₀ src (vmmFreeDirectory m dest) := by
  have hno : ∀ i < 1024, i < 1024 → 768 ≤ i → present (m₀.word src i) = false :=
    fun i hi _ hge => hfree.kernel i hi hge
  -- every slot is the directory or a table, so what is freed is all that was taken
  have hall : directoryBlocks m dest = T := Finset.Subset.antisymm (h.directoryBlocks_subset hno)
    ((h.subset_directoryBlocks_iff hno).mpr fun _ => CloneInv.no_page hfree)
  have hgives := gives_vmmFreeDirectory h.dest_ne_zero (h.ownsTables hno)
  rw [hall] at hgives
  obtain ⟨hset, hcounter⟩ := h.blocks.takes.gives hgives
  have hblocks := hgives.memBlocks.trans h.blocks.takes.memBlocks
  refine ⟨fun i hi hp => ?_, hblocks, bitmap_of_usedSet_eq hblocks hset, hcounter⟩
  rw [hset]
  exact (hsrc.table i hi hp).used

theorem CloneInv.cloneFreeable (h : CloneInv m₀ src dest 1024 (1024 * 1024) block T m)
    (hrestores : FreeRestores m₀ src (vmmFreeDirectory m dest)) : CloneFreeable m₀ src := by
  have hset := usedSet_eq_of_bitmap hrestores.memBlocks hrestores.bitmap
  have hused := usedSet_vmmFreeDirectory m h.dest_ne_zero
  have hkernel : ∀ i < 1024, 768 ≤ i → present (m₀.word src i) = false := by
    intro i hi hge
    by_contra hp
    rw [Bool.not_eq_false] at hp
    -- the clone refers to the source's own table, which is freed
    have htable := hrestores.tables i hi hp
    rw [hused, Finset.mem_sdiff, directoryBlocks, Finset.mem_insert, mem_tableBlocks] at htable
    refine htable.2 (Or.inr ⟨i, hi, (h.present_dirWord hi).mpr ⟨hi, hp⟩, ?_⟩)
    rw [tableBlock, tableBlock, h.word_kernel hi hi hge hp]
  refine ⟨hkernel, fun i hi hp j hj hpe => ?_⟩
  by_contra hwe
  rw [Bool.not_eq_false] at hwe
  -- the copy of the page was taken, and is not among what is freed
  have hdiv : (i * 1024 + j) / 1024 = i := by omega
  have hmod : (i * 1024 + j) % 1024 = j := by omega
  have hlive : Live m₀ src 1024 (1024 * 1024) (.page (i * 1024 + j)) := by
    refine ⟨by omega, by omega, by rwa [hdiv], ?_, ?_⟩
    · rwa [srcEntry, hdiv, hmod]
    · rwa [srcEntry, hdiv, hmod]
  refine (h.subset_directoryBlocks_iff fun i hi _ => hkernel i hi).mp (fun b hb => ?_) _ hlive
  by_contra hdir
  refine h.blocks.takes.notMem hb ?_
  rw [← hset, hused, Finset.mem_sdiff]
  exact ⟨h.blocks.takes.taken_subset hb, hdir⟩

/-- **When freeing a clone undoes it**: exactly if its source has no kernel entry and no writable
user page. -/
theorem vmmFreeDirectory_clone_iff (hsrc : SrcOk m₀ src)
    (hclone : vmmCloneDirectory m₀ src = some (dest, m)) (hdest : dest ≠ 0) :
    FreeRestores m₀ src (vmmFreeDirectory m dest) ↔ CloneFreeable m₀ src := by
  rcases vmmCloneDirectory_spec hsrc hclone with ⟨hzero, -⟩ | ⟨block, T, h⟩
  · exact absurd hzero hdest
  · exact ⟨h.cloneFreeable, h.freeRestores hsrc⟩

end Free

/-! ### Directories without user tables

Of such a directory a clone is one new block, with the kernel's entries copied. -/

section KernelOnly

variable {m₀ : Mem} {src b : ℕ} {t : Pmm}

/-- The memory after `i` entries, where only the kernel's are present: of the new directory alone
words have been written. -/
structure KernelWalk (m₀ : Mem) (src b : ℕ) (t : Pmm) (i : ℕ) (m : Mem) : Prop where
  pmm : m.pmm = t
  current : m.currentDirectory = m₀.currentDirectory
  same : SameOutside m₀ m {b}
  word : ∀ k < 1024, k < i → present (m₀.word src k) = true → m.word (b * 4096) k = m₀.word src k

theorem KernelWalk.step {m : Mem} {i : ℕ} (h : KernelWalk m₀ src b t i m) (hi : i < 1024)
    (hsrc : src % 4096 = 0) (hne : src / 4096 ≠ b)
    (huser : i < 768 → present (m₀.word src i) = false) :
    ∃ m', vmmCloneTable src (b * 4096) i m = .ok m' ∧ KernelWalk m₀ src b t (i + 1) m' := by
  have hdiv : b * 4096 / 4096 = b := Nat.mul_div_cancel _ (by decide)
  have hmod : b * 4096 % 4096 = 0 := Nat.mul_mod_left _ _
  have hsrcword : m.word src i = m₀.word src i :=
    h.same.word hsrc hi fun hmem => hne (Finset.mem_singleton.mp hmem)
  rw [vmmCloneTable, hsrcword]
  cases hp : present (m₀.word src i) with
  | false =>
    refine ⟨m, rfl, h.pmm, h.current, h.same, fun k hk hki hpk => h.word k hk ?_ hpk⟩
    rcases Nat.lt_succ_iff_lt_or_eq.mp hki with hki | rfl
    · exact hki
    · rw [hp] at hpk
      exact Bool.noConfusion hpk
  | true =>
    have hge : 768 ≤ i := by
      by_contra hlt
      rw [huser (by omega)] at hp
      exact Bool.noConfusion hp
    rw [if_pos rfl, if_pos hge]
    refine ⟨_, rfl, h.pmm, h.current, ?_, fun k hk hki hpk => ?_⟩
    · have hset := h.same.trans (sameOutside_setWord hmod hi (m₀.word src i))
      rwa [hdiv, Finset.union_self] at hset
    · rw [word_setWord hmod hmod hi hk]
      split_ifs with hcon
      · rw [hcon.2]
      · exact h.word k hk (by omega) hpk

theorem vmmCloneDirectory_of_kernel (hsrc : SrcOk m₀ src)
    (huser : ∀ i < 768, present (m₀.word src i) = false)
    (halloc : pmmAllocBlock m₀.pmm = (b * 4096, t)) (hb0 : b ≠ 0) :
    ∃ m, vmmCloneDirectory m₀ src = some (b * 4096, m) ∧ m.pmm = t ∧
      m.currentDirectory = m₀.currentDirectory ∧ SameOutside m₀ m {b} ∧
      ∀ i < 1024, present (m₀.word src i) = true → m.word (b * 4096) i = m₀.word src i := by
  have hptr : b * 4096 ≠ 0 := by omega
  have hdiv : b * 4096 / 4096 = b := Nat.mul_div_cancel _ (by decide)
  have ht : Takes m₀.pmm t {b} := by
    have := (takes_of_pmmAllocBlock halloc hptr).2
    rwa [hdiv] at this
  have hne : src / 4096 ≠ b := by
    rintro rfl
    exact ht.notMem (Finset.mem_singleton_self _) hsrc.dir.used
  have hcreate : vmmCreateDirectory m₀ =
      (b * 4096, ({ m₀ with pmm := t } : Mem).clearPage (b * 4096)) := by
    rw [vmmCreateDirectory, halloc]
    exact if_neg hptr
  have hstart : KernelWalk m₀ src b t 0 (({ m₀ with pmm := t } : Mem).clearPage (b * 4096)) :=
    ⟨rfl, rfl, sameOutside_clearBlock _ b, fun k _ hk => absurd hk (Nat.not_lt_zero k)⟩
  obtain ⟨m, hloop, hm⟩ := tryRange_inv_ok (vmmCloneTable src (b * 4096)) (KernelWalk m₀ src b t)
    (n := 1024) hstart fun i m _ hi h => h.step (by omega) hsrc.dir.aligned hne (huser i)
  rw [vmmCloneDirectory, hcreate]
  dsimp only
  rw [if_neg hptr, hloop]
  exact ⟨m, rfl, hm.pmm, hm.current, hm.same, fun i hi => hm.word i hi (by omega)⟩

end KernelOnly

/-! ### Two small sources -/

/-- Eight blocks, the first three in use: a directory in block `1` with the one entry `e`, at 3 GiB,
and a table in block `2`. -/
def memDir (e : BitVec 32) : Mem where
  pmm :=
    { memoryMap := fun _ => 7#32
      memBlocks := 8
      memUsedBlocks := 3
      memBlocks_le := pmmEight.memBlocks_le
      memUsedBlocks_lt := by decide }
  ram := fun a => if a = 1792 then e else 0#32
  currentDirectory := 4096

theorem word_memDir (e : BitVec 32) {i : ℕ} :
    (memDir e).word 4096 i = if i = 768 then e else 0#32 := by
  show (if 4096 / 4 + i = 1792 then e else 0#32) = _
  exact if_congr (by omega) rfl rfl

theorem srcOk_memDir {e : BitVec 32} (h : present e = true → Allocated (memDir e) (tableOf e)) :
    SrcOk (memDir e) 4096 := by
  have hused : 1 ∈ (memDir 0#32).pmm.usedSet := by decide
  refine ⟨⟨by decide, by decide, hused⟩, fun i hi hp => ?_⟩
  rw [word_memDir] at hp ⊢
  split_ifs at hp ⊢
  · exact h hp
  · exact absurd hp (by decide)

/-- Its clone is a directory in block `3`. -/
theorem vmmCloneDirectory_memDir {e : BitVec 32} (hsrc : SrcOk (memDir e) 4096) :
    ∃ m, vmmCloneDirectory (memDir e) 4096 = some (12288, m) := by
  have hfirst : (pmmAllocBlock (memDir 0#32).pmm).1 = 3 * 4096 := by decide
  have halloc : pmmAllocBlock (memDir e).pmm = (3 * 4096, (pmmAllocBlock (memDir e).pmm).2) :=
    Prod.ext hfirst rfl
  have huser : ∀ i < 768, present ((memDir e).word 4096 i) = false := by
    intro i hi
    rw [word_memDir, if_neg (by omega)]
    rfl
  obtain ⟨m, hm, -⟩ := vmmCloneDirectory_of_kernel hsrc huser halloc (by decide)
  exact ⟨m, hm⟩

theorem srcOk_memDir_kernel : SrcOk (memDir 0x2007#32) 4096 :=
  srcOk_memDir fun _ => ⟨by decide, by decide, by decide⟩

/-- Freeing the clone of a source with a kernel table frees that table. -/
theorem not_freeRestores_memDir_kernel : SrcOk (memDir 0x2007#32) 4096 ∧
    ∃ m, vmmCloneDirectory (memDir 0x2007#32) 4096 = some (12288, m) ∧
      ¬ FreeRestores (memDir 0x2007#32) 4096 (vmmFreeDirectory m 12288) := by
  obtain ⟨m, hm⟩ := vmmCloneDirectory_memDir srcOk_memDir_kernel
  refine ⟨srcOk_memDir_kernel, m, hm, fun hrestores => ?_⟩
  rcases vmmCloneDirectory_spec srcOk_memDir_kernel hm with ⟨hzero, -⟩ | ⟨block, T, h⟩
  · exact absurd hzero (by decide)
  · have hkernel := (h.cloneFreeable hrestores).kernel 768 (by decide) (by decide)
    rw [word_memDir, if_pos rfl] at hkernel
    exact absurd hkernel (by decide)

/-- Eight blocks, three of them free: a directory in block `1` whose first table, in block `2`, has
the two pages `e₀` and `e₁`. -/
def memUser (e₀ e₁ : BitVec 32) : Mem where
  pmm :=
    { memoryMap := fun _ => 0xC7#32
      memBlocks := 8
      memUsedBlocks := 5
      memBlocks_le := pmmEight.memBlocks_le
      memUsedBlocks_lt := by decide }
  ram := fun a =>
    if a = 1024 then 0x2007#32 else if a = 2048 then e₀ else if a = 2049 then e₁ else 0#32
  currentDirectory := 4096

section User

variable {e₀ e₁ : BitVec 32} {i j : ℕ}

theorem word_memUser (hi : i < 1024) :
    (memUser e₀ e₁).word 4096 i = if i = 0 then 0x2007#32 else 0#32 := by
  show (if 4096 / 4 + i = 1024 then 0x2007#32 else if 4096 / 4 + i = 2048 then e₀ else
    if 4096 / 4 + i = 2049 then e₁ else 0#32) = _
  rw [if_neg (by omega : ¬ 4096 / 4 + i = 2048), if_neg (by omega : ¬ 4096 / 4 + i = 2049)]
  exact if_congr (by omega) rfl rfl

theorem word_memUser_table :
    (memUser e₀ e₁).word 8192 j = if j = 0 then e₀ else if j = 1 then e₁ else 0#32 := by
  show (if 8192 / 4 + j = 1024 then 0x2007#32 else if 8192 / 4 + j = 2048 then e₀ else
    if 8192 / 4 + j = 2049 then e₁ else 0#32) = _
  rw [if_neg (by omega)]
  exact if_congr (by omega) rfl (if_congr (by omega) rfl rfl)

theorem srcOk_memUser : SrcOk (memUser e₀ e₁) 4096 := by
  have hdir : 1 ∈ (memUser 0#32 0#32).pmm.usedSet := by decide
  have htable : 2 ∈ (memUser 0#32 0#32).pmm.usedSet := by decide
  refine ⟨⟨by decide, by decide, hdir⟩, fun i hi hp => ?_⟩
  rw [word_memUser hi] at hp ⊢
  split_ifs at hp ⊢
  · exact ⟨by decide, by decide, htable⟩
  · exact absurd hp (by decide)

/-- Pages that are read-only are not copied. -/
theorem cloneFreeable_memUser (h₀ : writable e₀ = false) (h₁ : writable e₁ = false) :
    CloneFreeable (memUser e₀ e₁) 4096 := by
  refine ⟨fun i hi hkernel => ?_, fun i hi hp j hj _ => ?_⟩
  · rw [word_memUser hi, if_neg (by omega)]
    rfl
  · rw [word_memUser (by omega)] at hp ⊢
    split_ifs at hp ⊢
    · show writable ((memUser e₀ e₁).word 8192 j) = false
      rw [word_memUser_table]
      split_ifs
      · exact h₀
      · exact h₁
      · rfl
    · exact absurd hp (by decide)

end User

theorem exists_of_map_fst {dest : ℕ} {r : Option (ℕ × Mem)} (h : r.map Prod.fst = some dest) :
    ∃ m, r = some (dest, m) := by
  obtain ⟨⟨dest', m⟩, hr, rfl⟩ := Option.map_eq_some_iff.mp h
  exact ⟨m, hr⟩

/-- A source with a read-only and a writable page is cloned as it should be. -/
theorem vmmCloneDirectory_maps_memUser :
    ∃ m, vmmCloneDirectory (memUser 0x6005#32 0x7007#32) 4096 = some (12288, m) ∧
      CloneSpec (memUser 0x6005#32 0x7007#32) 4096 12288 m := by
  obtain ⟨m, hm⟩ := exists_of_map_fst
    (by decide +kernel :
      (vmmCloneDirectory (memUser 0x6005#32 0x7007#32) 4096).map Prod.fst = some 12288)
  exact ⟨m, hm, vmmCloneDirectory_maps srcOk_memUser hm (by decide)⟩

/-- Freeing the clone of a source with two read-only pages undoes it. -/
theorem freeRestores_memUser :
    ∃ m, vmmCloneDirectory (memUser 0x6005#32 0x7005#32) 4096 = some (12288, m) ∧
      FreeRestores (memUser 0x6005#32 0x7005#32) 4096 (vmmFreeDirectory m 12288) := by
  obtain ⟨m, hm⟩ := exists_of_map_fst
    (by decide +kernel :
      (vmmCloneDirectory (memUser 0x6005#32 0x7005#32) 4096).map Prod.fst = some 12288)
  exact ⟨m, hm, (vmmFreeDirectory_clone_iff srcOk_memUser hm (by decide)).mpr
    (cloneFreeable_memUser rfl rfl)⟩

end Rexus
