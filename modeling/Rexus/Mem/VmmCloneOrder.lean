import Rexus.Mem.VmmClone

/-!
# Where a clone runs out of memory

A clone takes its blocks in a fixed order: the directory, and for each user table of the source the
table and then the copies of its writable pages. How many blocks the allocator has to give decides
how far it comes. If it runs out, the slots that have a block are the first so many of that order,
and `vmm_free_directory` gives back those of the directory and the tables, but not the copies.

## Main results

* `cloneSlots` — the slots of a clone, in the order they get their blocks
* `vmmCloneDirectory_order` — how far a clone comes, and what is left of one that returns null

## Conventions

How many blocks the allocator has to give is `Pmm.avail`: the counter must stay below `mem_blocks`
for an allocation to be tried at all, and there must be a clear bit for it to be found. Which of the
two runs out first depends on whether the counter is right, and so the number is the lesser of them.
No block is given back while a clone goes on, until it has failed; so the number falls by one with
each block that is taken.

The order is that of the walk: entry by entry through the directory, and for each table page by
page. Entries from 3 GiB on take no block, and neither do read-only pages.
-/

namespace Rexus

open Loop Mem Pmm

/-! ### How many blocks there are to give -/

/-- How many single blocks the allocator has to give: the counter must stay below `mem_blocks`, and
there must be a clear bit. -/
def Pmm.avail (s : Pmm) : ℕ := min (s.memBlocks - s.memUsedBlocks) (s.memBlocks - s.usedSet.card)

/-- From `s` to `t` every block that was taken is one less to give. -/
def Pmm.TakenSingly (s t : Pmm) : Prop := t.avail + t.usedSet.card = s.avail + s.usedSet.card

section Avail

variable {s t : Pmm} {b : ℕ}

/-- An allocation takes one block of those to give, or is refused. -/
theorem takenSingly_pmmAllocBlock (s : Pmm) : s.TakenSingly (pmmAllocBlock s).2 := by
  rw [Pmm.TakenSingly]
  rcases pmmAllocBlock_cases s with ⟨h, -⟩ | ⟨b, h, hlt, hrun, -⟩
  · rw [h]
  · obtain ⟨hb, hfree⟩ := freeRun_one.mp hrun
    have hcard := hrun.card_add_le
    have hle := s.memBlocks_le
    have hcounter : (pmmSetBlock s b).memUsedBlocks = (s.memUsedBlocks + 1) % 2 ^ 32 := rfl
    rw [Nat.mod_eq_of_lt (by omega)] at hcounter
    rw [h, Pmm.avail, Pmm.avail, hcounter, usedSet_pmmSetBlock hb,
      Finset.card_insert_of_notMem hfree, pmmSetBlock_memBlocks]
    omega

theorem Pmm.TakenSingly.pmmAllocBlock (h : s.TakenSingly t) :
    s.TakenSingly (pmmAllocBlock t).2 := by
  have halloc := takenSingly_pmmAllocBlock t
  rw [Pmm.TakenSingly] at *
  exact halloc.trans h

/-- There is nothing to give exactly if `pmm_alloc_block` refuses. -/
theorem avail_eq_zero_iff :
    s.avail = 0 ↔ s.memBlocks ≤ s.memUsedBlocks ∨ ∀ b, ¬ FreeRun s 1 b := by
  constructor
  · intro havail
    by_contra hcon
    obtain ⟨hlt, hrun⟩ := not_or.mp hcon
    obtain ⟨b, hrun⟩ := not_forall_not.mp hrun
    have hcard := hrun.card_add_le
    rw [Pmm.avail] at havail
    omega
  · rintro (hfull | hnone)
    · rw [Pmm.avail, Nat.sub_eq_zero_of_le hfull]
      exact Nat.zero_min _
    · have hall : Finset.range s.memBlocks ⊆ s.usedSet := fun c hc => by
        by_contra hfree
        exact hnone c (freeRun_one.mpr ⟨Finset.mem_range.mp hc, hfree⟩)
      have hcard := Finset.card_le_card hall
      rw [Finset.card_range] at hcard
      rw [Pmm.avail, Nat.sub_eq_zero_of_le hcard]
      exact Nat.min_zero _

/-- A null pointer is a refusal, or block `0`, marked. -/
theorem pmmAllocBlock_null (h : pmmAllocBlock s = (0, t)) :
    (t = s ∧ s.avail = 0) ∨ (Takes s t {0} ∧ s.avail ≠ 0) := by
  rw [Ne, avail_eq_zero_iff]
  rcases pmmAllocBlock_cases s with ⟨h', hfull⟩ | ⟨b, h', hlt, hrun, -⟩
  · rw [h', Prod.mk.injEq] at h
    exact Or.inl ⟨h.2.symm, hfull⟩
  · rw [h', Prod.mk.injEq] at h
    obtain rfl : b = 0 := by omega
    refine Or.inr ⟨h.2 ▸ takes_pmmSetBlock hrun, ?_⟩
    rintro (hfull | hnone)
    · omega
    · exact hnone 0 hrun

/-- With block `0` in use, it is a refusal. -/
theorem pmmAllocBlock_refused (h0 : 0 ∈ s.usedSet) (h : pmmAllocBlock s = (0, t)) :
    t = s ∧ s.avail = 0 := by
  rcases pmmAllocBlock_null h with hrefused | ⟨ht, -⟩
  · exact hrefused
  · exact absurd h0 (ht.notMem (Finset.mem_singleton_self 0))

/-- A pointer is given while there is one to give, and only past block `0`. -/
theorem pmmAllocBlock_given (h : pmmAllocBlock s = (b * 4096, t)) (hb0 : b ≠ 0) :
    0 ∈ s.usedSet ∧ s.avail = t.avail + 1 := by
  rcases pmmAllocBlock_cases s with ⟨h', -⟩ | ⟨c, h', -, hrun, hmin⟩
  · rw [h', Prod.mk.injEq] at h
    omega
  · have hcard := takenSingly_pmmAllocBlock s
    obtain ⟨hc, hfree⟩ := freeRun_one.mp hrun
    rw [h'] at h hcard
    obtain ⟨hcb, rfl⟩ := Prod.mk.inj h
    refine ⟨?_, ?_⟩
    · by_contra hnot
      have := hmin 0 (freeRun_one.mpr ⟨by omega, hnot⟩)
      omega
    · rw [Pmm.TakenSingly] at hcard
      dsimp only at hcard
      rw [usedSet_pmmSetBlock hc, Finset.card_insert_of_notMem hfree] at hcard
      omega

end Avail

/-! ### The order of the slots -/

/-- The slots of entry `i` of the directory `src`. -/
def tableSlots (m : Mem) (src i : ℕ) : List CloneSlot :=
  if present (m.word src i) then
    .table i :: ((List.range' (i * 1024) 1024).filter fun v =>
      present (srcEntry m src v) && writable (srcEntry m src v)).map .page
  else []

/-- The slots of a clone of `src`, in the order they get their blocks. -/
def cloneSlots (m : Mem) (src : ℕ) : List CloneSlot :=
  .dir :: (List.range 768).flatMap (tableSlots m src)

/-- The place of a slot in the order, if every entry were present and writable. -/
def CloneSlot.rank : CloneSlot → ℕ
  | .dir => 0
  | .table i => i * 1025 + 1
  | .page v => v / 1024 * 1025 + v % 1024 + 2

section Order

variable {m₀ m : Mem} {src dest a n i : ℕ} {s s' : CloneSlot}

theorem mem_tableSlots : s ∈ tableSlots m src i ↔ present (m.word src i) = true ∧
    (s = .table i ∨ ∃ v, s = .page v ∧ v / 1024 = i ∧ present (srcEntry m src v) = true ∧
      writable (srcEntry m src v) = true) := by
  rw [tableSlots]
  split_ifs with hp
  · rw [and_iff_right hp, List.mem_cons, List.mem_map]
    refine or_congr_right (exists_congr fun v => ?_)
    rw [List.mem_filter, List.mem_range'_1, Bool.and_eq_true]
    constructor
    · rintro ⟨⟨hv, hw⟩, rfl⟩
      exact ⟨rfl, by omega, hw⟩
    · rintro ⟨rfl, hv, hw⟩
      exact ⟨⟨by omega, hw⟩, rfl⟩
  · exact iff_of_false List.not_mem_nil fun hcon => hp hcon.1

/-- The order has the slots that a whole clone has. -/
theorem mem_cloneSlots : s ∈ cloneSlots m src ↔ Live m src 1024 (1024 * 1024) s := by
  rw [cloneSlots, List.mem_cons, List.mem_flatMap]
  simp only [List.mem_range, mem_tableSlots]
  cases s with
  | dir => exact iff_of_true (Or.inl rfl) trivial
  | table i =>
    rw [or_iff_right CloneSlot.noConfusion]
    constructor
    · rintro ⟨k, hk, hp, heq | ⟨v, heq, -⟩⟩
      · obtain rfl := CloneSlot.table.inj heq
        exact ⟨by omega, hk, hp⟩
      · exact CloneSlot.noConfusion heq
    · rintro ⟨-, hi, hp⟩
      exact ⟨i, hi, hp, Or.inl rfl⟩
  | page v =>
    rw [or_iff_right CloneSlot.noConfusion]
    constructor
    · rintro ⟨k, hk, hp, heq | ⟨w, heq, rfl, hw⟩⟩
      · exact CloneSlot.noConfusion heq
      · obtain rfl := CloneSlot.page.inj heq
        exact ⟨by omega, hk, hp, hw⟩
    · rintro ⟨-, hi, hp, hw⟩
      exact ⟨_, hi, hp, Or.inr ⟨v, rfl, rfl, hw⟩⟩

theorem pairwise_tableSlots (m : Mem) (src i : ℕ) :
    (tableSlots m src i).Pairwise fun s s' => s.rank < s'.rank := by
  rw [tableSlots]
  split_ifs
  · refine List.pairwise_cons.mpr ⟨fun s hs => ?_,
      List.pairwise_map.mpr (List.Pairwise.filter _ ?_)⟩
    · obtain ⟨v, hv, rfl⟩ := List.mem_map.mp hs
      have hv' := List.mem_range'_1.mp (List.mem_filter.mp hv).1
      simp only [CloneSlot.rank]
      omega
    · refine (List.pairwise_lt_range' 1).imp fun hvw => ?_
      simp only [CloneSlot.rank]
      omega
  · exact List.Pairwise.nil

/-- It is an order: no slot comes twice. -/
theorem pairwise_cloneSlots (m : Mem) (src : ℕ) :
    (cloneSlots m src).Pairwise fun s s' => s.rank < s'.rank := by
  have hrank : ∀ i, ∀ s ∈ tableSlots m src i, i * 1025 < s.rank ∧ s.rank ≤ (i + 1) * 1025 := by
    intro i s hs
    obtain ⟨-, rfl | ⟨v, rfl, hv, -⟩⟩ := mem_tableSlots.mp hs
    · simp only [CloneSlot.rank]
      omega
    · simp only [CloneSlot.rank]
      omega
  refine List.pairwise_cons.mpr ⟨fun s hs => ?_, List.pairwise_flatMap.mpr
    ⟨fun i _ => pairwise_tableSlots m src i, List.pairwise_lt_range.imp ?_⟩⟩
  · obtain ⟨i, -, hs⟩ := List.mem_flatMap.mp hs
    exact Nat.lt_of_le_of_lt (Nat.zero_le _) (hrank i s hs).1
  · intro i j hij s hs s' hs'
    have hle := (hrank i s hs).2
    have hlt := (hrank j s' hs').1
    omega

theorem nodup_cloneSlots (m : Mem) (src : ℕ) : (cloneSlots m src).Nodup :=
  (pairwise_cloneSlots m src).imp fun hlt heq => Nat.ne_of_lt hlt (congrArg CloneSlot.rank heq)

/-- The slots that are live when slot `s` gets its block next are those before `s`. -/
theorem NextSlot.live_iff (h : NextSlot m₀ src a n s) :
    Live m₀ src a n s' ↔ s' ∈ cloneSlots m₀ src ∧ s'.rank < s.rank := by
  rw [mem_cloneSlots]
  cases s with
  | dir => exact absurd h not_false
  | table i =>
    obtain ⟨rfl, rfl, -, hi, -⟩ := h
    have hmax : a * 1024 ≤ 768 * 1024 := Nat.mul_le_mul_right 1024 hi.le
    cases s' with
    | dir => exact iff_of_true trivial ⟨trivial, Nat.succ_pos (a * 1025)⟩
    | table k =>
      refine (and_congr_left fun _ => ?_).trans and_right_comm
      simp only [CloneSlot.rank]
      omega
    | page w =>
      refine (and_congr_left fun _ => ?_).trans and_right_comm
      simp only [CloneSlot.rank]
      omega
  | page v =>
    obtain ⟨rfl, rfl, -, hv, -⟩ := h
    cases s' with
    | dir => exact iff_of_true trivial ⟨trivial, Nat.succ_pos _⟩
    | table k =>
      refine (and_congr_left fun _ => ?_).trans and_right_comm
      simp only [CloneSlot.rank]
      omega
    | page w =>
      refine (and_congr_left fun _ => ?_).trans and_right_comm
      simp only [CloneSlot.rank]
      omega

theorem NextSlot.mem (h : NextSlot m₀ src a n s) : s ∈ cloneSlots m₀ src := by
  rw [mem_cloneSlots]
  cases s with
  | dir => exact absurd h not_false
  | table i =>
    obtain ⟨-, -, -, hi, hp⟩ := h
    exact ⟨by omega, hi, hp⟩
  | page v =>
    obtain ⟨-, -, -, hv, hw⟩ := h
    exact ⟨by omega, hv, hw⟩

/-- They are the beginning of the order. -/
theorem NextSlot.split (h : NextSlot m₀ src a n s) :
    ∃ pre post, cloneSlots m₀ src = pre ++ s :: post ∧ ∀ s', s' ∈ pre ↔ Live m₀ src a n s' := by
  obtain ⟨pre, post, hsplit⟩ := List.append_of_mem h.mem
  have hsorted := pairwise_cloneSlots m₀ src
  rw [hsplit, List.pairwise_append, List.pairwise_cons] at hsorted
  obtain ⟨-, ⟨hpost, -⟩, hpre⟩ := hsorted
  refine ⟨pre, post, hsplit, fun s' => ?_⟩
  rw [h.live_iff, hsplit, List.mem_append, List.mem_cons]
  constructor
  · exact fun hs' => ⟨Or.inl hs', hpre s' hs' s List.mem_cons_self⟩
  · rintro ⟨hs' | rfl | hs', hlt⟩
    · exact hs'
    · exact absurd hlt (Nat.lt_irrefl _)
    · exact absurd (hpost s' hs') (Nat.lt_asymm hlt)

/-- One block for each live slot. -/
theorem CloneBlocks.card {L : CloneSlot → Prop} {block : CloneSlot → ℕ} {T : Finset ℕ}
    (h : CloneBlocks m₀ L block T m) {l : List CloneSlot} (hl : l.Nodup)
    (hmem : ∀ s, s ∈ l ↔ L s) : T.card = l.length := by
  have himage : T = (l.map block).toFinset := by
    ext b
    rw [h.mem_iff, List.mem_toFinset, List.mem_map]
    exact exists_congr fun s => and_congr_left fun _ => (hmem s).symm
  have hnodup : (l.map block).Nodup :=
    hl.map_on fun s hs s' hs' heq => h.inj s s' ((hmem s).mp hs) ((hmem s').mp hs') heq
  rw [himage, List.toFinset_card_of_nodup hnodup, List.length_map]

end Order

/-! ### How far a clone comes -/

/-- What holds of the allocator where a clone stops. -/
def StopPmm (P : Pmm → Prop) : CloneStop → Prop
  | .noMemory m => P m.pmm
  | .pageFault => True

section Walk

variable {m₀ m : Mem} {src dest i j srcTable destTable : ℕ} {P : Pmm → Prop}

/-- The walk moves the allocator by `pmm_alloc_block` only. -/
theorem post_vmmCloneEntry_pmm (hP : ∀ s, P s → P (pmmAllocBlock s).2) (h : P m.pmm) :
    Post (fun m' => P m'.pmm) (StopPmm P) (vmmCloneEntry srcTable destTable i j m) := by
  have ht := hP m.pmm h
  rw [vmmCloneEntry]
  split_ifs
  · rcases halloc : pmmAllocBlock m.pmm with ⟨newPage, t⟩
    rw [halloc] at ht
    dsimp only
    split_ifs
    · exact ht
    · cases vmmGetMapping { m with pmm := t } m.currentDirectory
          (BitVec.ofNat 32 i <<< 22 ||| BitVec.ofNat 32 j <<< 12) with
      | none => trivial
      | some phys => exact ht
  · exact h
  · exact h

theorem vmmGetPageTable_pmm (hP : ∀ s, P s → P (pmmAllocBlock s).2) (h : P m.pmm) (dir idx : ℕ)
    (allocate : Bool) : P (vmmGetPageTable m dir idx allocate).2.pmm := by
  have ht := hP m.pmm h
  rw [vmmGetPageTable]
  split_ifs
  · exact h
  · exact h
  · rcases halloc : pmmAllocBlock m.pmm with ⟨pageTable, t⟩
    rw [halloc] at ht
    dsimp only
    split_ifs
    · exact ht
    · exact ht
  · exact h

theorem vmmCreateDirectory_pmm (hP : ∀ s, P s → P (pmmAllocBlock s).2) (h : P m.pmm) :
    P (vmmCreateDirectory m).2.pmm := by
  have ht := hP m.pmm h
  rw [vmmCreateDirectory]
  rcases halloc : pmmAllocBlock m.pmm with ⟨dir, t⟩
  rw [halloc] at ht
  dsimp only
  split_ifs
  · exact ht
  · exact ht

theorem post_vmmCloneTable_pmm (hP : ∀ s, P s → P (pmmAllocBlock s).2) (h : P m.pmm) :
    Post (fun m' => P m'.pmm) (StopPmm P) (vmmCloneTable src dest i m) := by
  rw [vmmCloneTable]
  split_ifs
  · exact h
  · have ht := vmmGetPageTable_pmm hP h dest i true
    rcases htable : vmmGetPageTable m dest i true with ⟨destTable, m'⟩
    rw [htable] at ht
    dsimp only
    split_ifs
    · exact ht
    · exact tryRange_inv _ (fun _ (m' : Mem) => P m'.pmm) (StopPmm P) ht
        fun _ _ _ _ => post_vmmCloneEntry_pmm hP
  · exact h

theorem post_clone_pmm (hP : ∀ s, P s → P (pmmAllocBlock s).2) (h : P m.pmm) :
    Post (fun m' => P m'.pmm) (StopPmm P) (tryRange (vmmCloneTable src dest) 1024 0 m) :=
  tryRange_inv _ (fun _ (m' : Mem) => P m'.pmm) (StopPmm P) h
    fun _ _ _ _ => post_vmmCloneTable_pmm hP

end Walk

section Main

variable {m₀ m : Mem} {src dest a n : ℕ} {s : CloneSlot} {block : CloneSlot → ℕ} {T : Finset ℕ}

/-- The blocks a clone has taken are counted by those the allocator has left. -/
theorem CloneInv.card_add_avail (h : CloneInv m₀ src dest a n block T m)
    (hcount : m₀.pmm.TakenSingly m.pmm) : T.card + m.pmm.avail = m₀.pmm.avail := by
  rw [Pmm.TakenSingly, h.blocks.takes.usedSet,
    Finset.card_union_of_disjoint h.blocks.takes.free] at hcount
  omega

/-- A clone that stops at slot `s` has a block for every slot before it, and for no other. -/
theorem CloneInv.stopped (h : CloneInv m₀ src dest a n block T m) (hnext : NextSlot m₀ src a n s)
    (hcard : T.card = m₀.pmm.avail) : m₀.pmm.avail < (cloneSlots m₀ src).length ∧
      ∀ s', s' ∈ (cloneSlots m₀ src).take m₀.pmm.avail ↔ Live m₀ src a n s' := by
  obtain ⟨pre, post, hsplit, hmem⟩ := hnext.split
  have hnodup := nodup_cloneSlots m₀ src
  rw [hsplit] at hnodup ⊢
  have hlength := h.blocks.card (List.nodup_append.mp hnodup).1 hmem
  rw [← hcard, hlength, List.take_left, List.length_append, List.length_cons]
  exact ⟨by omega, hmem⟩

/-- **How far a clone comes**: with fewer blocks to give than it has slots, it returns null, and
what is left of it are the copies of the pages that had one; otherwise it is finished. -/
theorem vmmCloneDirectory_order (hsrc : SrcOk m₀ src) (h0 : 0 ∈ m₀.pmm.usedSet)
    (h : vmmCloneDirectory m₀ src = some (dest, m)) :
    (dest = 0 ∧ m₀.pmm.avail < (cloneSlots m₀ src).length ∧ ∃ B, Takes m₀.pmm m.pmm B ∧
        (B = ∅ ↔ ∀ v, .page v ∉ (cloneSlots m₀ src).take m₀.pmm.avail)) ∨
      (dest ≠ 0 ∧ (cloneSlots m₀ src).length ≤ m₀.pmm.avail) := by
  rcases vmmCloneDirectory_cases h with ⟨rfl, t, halloc, rfl⟩ | ⟨b, t, heq, hb0, ht, hres⟩
  · obtain ⟨rfl, havail⟩ := pmmAllocBlock_refused h0 halloc
    rw [havail]
    exact Or.inl ⟨rfl, Nat.succ_pos _, ∅, Takes.refl _, iff_of_true rfl fun v => List.not_mem_nil⟩
  have hcount : m₀.pmm.TakenSingly t := by
    have hcount := vmmCreateDirectory_pmm (fun _ => Pmm.TakenSingly.pmmAllocBlock)
      (show m₀.pmm.TakenSingly m₀.pmm from rfl)
    rwa [heq] at hcount
  have hpost := post_clone hsrc (CloneInv.start m₀ src hb0 ht)
  have hpmm : Post (fun m' : Mem => m₀.pmm.TakenSingly m'.pmm) (StopPmm m₀.pmm.TakenSingly)
      (tryRange (vmmCloneTable src (b * 4096)) 1024 0
        (({ m₀ with pmm := t } : Mem).clearPage (b * 4096))) :=
    post_clone_pmm (fun _ => Pmm.TakenSingly.pmmAllocBlock) hcount
  rcases hres with ⟨rfl, hres⟩ | ⟨rfl, m', hres, rfl⟩
  · rw [hres] at hpost hpmm
    obtain ⟨block, T, hinv⟩ := hpost
    have hcard := hinv.card_add_avail hpmm
    have hlength := hinv.blocks.card (nodup_cloneSlots m₀ src) fun s => mem_cloneSlots
    exact Or.inr ⟨hinv.dest_ne_zero, by omega⟩
  · rw [hres] at hpost hpmm
    obtain ⟨a, n, s, block, T, m'', u, hnext, hinv, halloc, rfl⟩ := hpost
    obtain ⟨rfl, havail⟩ := pmmAllocBlock_refused (hinv.blocks.takes.subset h0) halloc
    have hcard := hinv.card_add_avail hpmm
    obtain ⟨hlt, hlive⟩ := hinv.stopped hnext (by omega)
    obtain ⟨u, B, hfree, hB, hpage⟩ := hinv.freed fun i _ hia hge => absurd hnext.le (by omega)
    refine Or.inl ⟨rfl, hlt, B, ?_, ?_⟩
    · rw [hfree]
      exact hB
    · simp only [hpage, hlive]

end Main

end Rexus
