import Rexus.Mem.VmmMapping

/-!
# Cloning a directory

`vmm_clone_directory` walks the source and allocates as it goes: the new directory, a table for each
user table of the source, and a page for each writable user page. The walk is followed with a ghost
map from these *slots* to the blocks they got. A slot is live once its block is allocated; the
blocks of live slots are exactly what the allocator has given out since the start, no two slots
share one, and memory outside them is as it was.

## Main results

* `CloneInv` — the invariant of the two loops, and `post_vmmCloneTable`, one turn of the outer one
* `vmmCloneDirectory_spec` — a clone that succeeds, slot by slot, and a clone that fails

## Conventions

The source is any directory whose block and whose tables' blocks are in use; it may be the current
one or another, and its tables need not be its own. What the entries map is not restricted either.
The ghost map is not part of the function: it is put together from the run of the allocator, and the
theorem about it says that there is one.

A clone that fails returns the null pointer after `vmm_free_directory` has given back the directory
and the tables it has so far, and a clone that halts returns nothing; the two are kept apart, and
`CloneFailed` says what is lost by the first. What the allocator does is left to `Mem/Pmm.lean`; its
counter need not be right, and block `0` may be free.
-/

namespace Rexus

open AlignedWord Loop Mem Pmm

/-! ### Slots and their blocks -/

/-- What a clone allocates a block for: the directory, table `i`, the copy of page `v`. -/
inductive CloneSlot where
  | dir
  | table (i : ℕ)
  | page (v : ℕ)
  deriving DecidableEq

/-- Since `m₀`, the blocks `T` were allocated, one for each slot of `L`, and only they were
written. -/
structure CloneBlocks (m₀ : Mem) (L : CloneSlot → Prop) (block : CloneSlot → ℕ) (T : Finset ℕ)
    (m : Mem) : Prop where
  takes : Takes m₀.pmm m.pmm T
  mem_iff : ∀ b, b ∈ T ↔ ∃ s, L s ∧ block s = b
  inj : ∀ s s', L s → L s' → block s = block s' → s = s'
  ne_zero : ∀ s, L s → block s ≠ 0
  same : SameOutside m₀ m T
  current : m.currentDirectory = m₀.currentDirectory

namespace CloneBlocks

variable {m₀ m m' : Mem} {L L' : CloneSlot → Prop} {block : CloneSlot → ℕ} {T : Finset ℕ}
  {s s' : CloneSlot} {k k' : ℕ}

theorem mem (h : CloneBlocks m₀ L block T m) (hs : L s) : block s ∈ T :=
  (h.mem_iff _).mpr ⟨s, hs, rfl⟩

theorem lt (h : CloneBlocks m₀ L block T m) (hs : L s) : block s < 2 ^ 20 :=
  lt_of_lt_of_le (h.takes.lt (h.mem hs)) m₀.pmm.memBlocks_le

/-- The memory in use at the start is as it was. -/
theorem word_eq (h : CloneBlocks m₀ L block T m) {p : ℕ} (hp : p % 4096 = 0)
    (hused : p / 4096 ∈ m₀.pmm.usedSet) (hk : k < 1024) : m.word p k = m₀.word p k :=
  h.same.word hp hk fun hT => h.takes.notMem hT hused

theorem congr (h : CloneBlocks m₀ L block T m) (hL : ∀ s, L s ↔ L' s) :
    CloneBlocks m₀ L' block T m where
  takes := h.takes
  mem_iff b := (h.mem_iff b).trans (exists_congr fun s => and_congr_left fun _ => hL s)
  inj s s' hs hs' := h.inj s s' ((hL s).mpr hs) ((hL s').mpr hs')
  ne_zero s hs := h.ne_zero s ((hL s).mpr hs)
  same := h.same
  current := h.current

/-- Writing into the block of a live slot. -/
theorem setWord (h : CloneBlocks m₀ L block T m) (hs : L s) (hk : k < 1024) (e : BitVec 32) :
    CloneBlocks m₀ L block T (m.setWord (block s * 4096) k e) where
  takes := h.takes
  mem_iff := h.mem_iff
  inj := h.inj
  ne_zero := h.ne_zero
  same := by
    refine (h.same.trans (sameOutside_setWord (Nat.mul_mod_left _ _) hk e)).mono ?_
    rw [Nat.mul_div_cancel _ (by decide)]
    exact Finset.union_subset (Finset.Subset.refl _)
      (Finset.singleton_subset_iff.mpr (h.mem hs))
  current := h.current

theorem word_setWord (h : CloneBlocks m₀ L block T m) (hs : L s) (hs' : L s') (hk : k < 1024)
    (hk' : k' < 1024) (e : BitVec 32) :
    (m.setWord (block s * 4096) k e).word (block s' * 4096) k' =
      if s' = s ∧ k' = k then e else m.word (block s' * 4096) k' := by
  rw [Mem.word_setWord (Nat.mul_mod_left _ _) (Nat.mul_mod_left _ _) hk hk']
  refine if_congr (and_congr_left fun _ => ⟨fun heq => ?_, fun heq => by rw [heq]⟩) rfl rfl
  exact h.inj s' s hs' hs (Nat.eq_of_mul_eq_mul_right (by decide) heq)

/-- A slot that is not live yet gets a block. -/
theorem alloc (h : CloneBlocks m₀ L block T m) (hs : ¬ L s) {b : ℕ} (hb0 : b ≠ 0)
    (ht : Takes m.pmm m'.pmm {b}) (hsame : SameOutside m m' {b})
    (hcurrent : m'.currentDirectory = m.currentDirectory) :
    CloneBlocks m₀ (fun x => x = s ∨ L x) (Function.update block s b) (T ∪ {b}) m' := by
  have hnew : b ∉ T := fun hT =>
    ht.notMem (Finset.mem_singleton_self b) (h.takes.taken_subset hT)
  have hold : ∀ x, L x → Function.update block s b x = block x := by
    intro x hx
    refine Function.update_of_ne ?_ _ _
    rintro rfl
    exact hs hx
  have hself : Function.update block s b s = b := Function.update_self s b block
  refine ⟨h.takes.trans ht, fun c => ?_, ?_, ?_, h.same.trans hsame, hcurrent.trans h.current⟩
  · rw [Finset.mem_union, Finset.mem_singleton, h.mem_iff]
    constructor
    · rintro (⟨x, hx, rfl⟩ | rfl)
      · exact ⟨x, Or.inr hx, hold x hx⟩
      · exact ⟨s, Or.inl rfl, hself⟩
    · rintro ⟨x, rfl | hx, rfl⟩
      · exact Or.inr hself
      · exact Or.inl ⟨x, hx, (hold x hx).symm⟩
  · rintro x y (rfl | hx) (rfl | hy) heq
    · rfl
    · rw [hself, hold y hy] at heq
      exact absurd (heq ▸ h.mem hy) hnew
    · rw [hself, hold x hx] at heq
      exact absurd (heq ▸ h.mem hx) hnew
    · rw [hold x hx, hold y hy] at heq
      exact h.inj x y hx hy heq
  · rintro x (rfl | hx)
    · rwa [hself]
    · rw [hold x hx]
      exact h.ne_zero x hx

/-- The blocks of the slots that were live keep their words. -/
theorem word_alloc (h : CloneBlocks m₀ L block T m) {b : ℕ} (ht : Takes m.pmm m'.pmm {b})
    (hsame : SameOutside m m' {b}) (hs : L s) (hk : k < 1024) :
    m'.word (block s * 4096) k = m.word (block s * 4096) k := by
  refine hsame.word (Nat.mul_mod_left _ _) hk ?_
  rw [Nat.mul_div_cancel _ (by decide), Finset.mem_singleton]
  rintro rfl
  exact ht.notMem (Finset.mem_singleton_self _) (h.takes.taken_subset (h.mem hs))

end CloneBlocks

/-! ### The invariant of the walk -/

/-- A pointer to an allocated block: not null, aligned, and the block is in use. -/
structure Allocated (m : Mem) (p : ℕ) : Prop where
  ne_zero : p ≠ 0
  aligned : p % 4096 = 0
  used : p / 4096 ∈ m.pmm.usedSet

/-- A source directory: it and its tables are allocated blocks. That is why a clone leaves it as it
is, since a clone writes only to blocks that were free. -/
structure SrcOk (m : Mem) (src : ℕ) : Prop where
  dir : Allocated m src
  table : ∀ i < 1024, present (m.word src i) = true → Allocated m (tableOf (m.word src i))

theorem SrcOk.mono {m : Mem} {src : ℕ} (h : SrcOk m src) {t : Pmm}
    (hsub : m.pmm.usedSet ⊆ t.usedSet) : SrcOk { m with pmm := t } src :=
  ⟨⟨h.dir.ne_zero, h.dir.aligned, hsub h.dir.used⟩, fun i hi hp =>
    ⟨(h.table i hi hp).ne_zero, (h.table i hi hp).aligned, hsub (h.table i hi hp).used⟩⟩

/-- The entry of page `v` in a table of `src`. -/
def srcEntry (m : Mem) (src v : ℕ) : BitVec 32 :=
  m.word (tableOf (m.word src (v / 1024))) (v % 1024)

/-- The slots that are live when the first `a` tables and the first `n` pages are done. -/
def Live (m₀ : Mem) (src a n : ℕ) : CloneSlot → Prop
  | .dir => True
  | .table i => i < a ∧ i < 768 ∧ present (m₀.word src i) = true
  | .page v => v < n ∧ v / 1024 < 768 ∧ present (m₀.word src (v / 1024)) = true ∧
      present (srcEntry m₀ src v) = true ∧ writable (srcEntry m₀ src v) = true

/-- Entry `i` of the new directory: kernel tables are shared, user tables are new. -/
def cloneDirEntry (m₀ : Mem) (src : ℕ) (block : CloneSlot → ℕ) (i : ℕ) : BitVec 32 :=
  if present (m₀.word src i) then
    if 768 ≤ i then m₀.word src i else pack 12 (block (.table i)) 7#32
  else 0#32

/-- The entry of page `v` in a new table: read-only pages are shared, writable ones are copied. -/
def clonePageEntry (m₀ : Mem) (src : ℕ) (block : CloneSlot → ℕ) (v : ℕ) : BitVec 32 :=
  if present (srcEntry m₀ src v) then
    if writable (srcEntry m₀ src v) then
      pack 12 (block (.page v)) (srcEntry m₀ src v &&& 0xFFF#32)
    else srcEntry m₀ src v
  else 0#32

/-- The invariant: the first `a` entries of the directory and the first `n` pages are done, and the
rest of what has been allocated is zero. -/
structure CloneInv (m₀ : Mem) (src dest a n : ℕ) (block : CloneSlot → ℕ) (T : Finset ℕ)
    (m : Mem) : Prop where
  blocks : CloneBlocks m₀ (Live m₀ src a n) block T m
  dir_eq : block .dir * 4096 = dest
  dirWord : ∀ i < 1024, m.word dest i = if i < a then cloneDirEntry m₀ src block i else 0#32
  tableWord : ∀ v, Live m₀ src a n (.table (v / 1024)) →
    m.word (block (.table (v / 1024)) * 4096) (v % 1024) =
      if v < n then clonePageEntry m₀ src block v else 0#32

/-- The slot that gets its block next, when the first `a` tables and the first `n` pages are
done. -/
def NextSlot (m₀ : Mem) (src a n : ℕ) : CloneSlot → Prop
  | .dir => False
  | .table i => a = i ∧ n = i * 1024 ∧ Live m₀ src (i + 1) n (.table i)
  | .page v => a = v / 1024 + 1 ∧ n = v ∧ Live m₀ src a (v + 1) (.page v)

theorem NextSlot.le {m₀ : Mem} {src a n : ℕ} {s : CloneSlot} (h : NextSlot m₀ src a n s) :
    a ≤ 768 := by
  cases s with
  | dir => exact absurd h not_false
  | table i => exact h.1 ▸ h.2.2.2.1.le
  | page v => exact h.1 ▸ h.2.2.2.1

/-- Where a clone can stop early: at some point of the walk, before the kernel's entries, the next
slot got no block. -/
def CloneFails (m₀ : Mem) (src dest : ℕ) : CloneStop → Prop
  | .noMemory m' => ∃ a n s block T m t, NextSlot m₀ src a n s ∧
      CloneInv m₀ src dest a n block T m ∧ pmmAllocBlock m.pmm = (0, t) ∧ m' = { m with pmm := t }
  | .pageFault => True

namespace CloneInv

variable {m₀ m : Mem} {src dest a n i j v : ℕ} {block : CloneSlot → ℕ} {T : Finset ℕ}

theorem src_word (h : CloneInv m₀ src dest a n block T m) (hsrc : SrcOk m₀ src)
    (hi : i < 1024) : m.word src i = m₀.word src i :=
  h.blocks.word_eq hsrc.dir.aligned hsrc.dir.used hi

theorem srcTable_word (h : CloneInv m₀ src dest a n block T m) (hsrc : SrcOk m₀ src)
    (hi : i < 1024) (hp : present (m₀.word src i) = true) (hj : j < 1024) :
    m.word (tableOf (m₀.word src i)) j = m₀.word (tableOf (m₀.word src i)) j :=
  h.blocks.word_eq (tableOf_mod _) (hsrc.table i hi hp).used hj

/-- A source table is in memory that was in use, so a copy into a new block does not change it. -/
theorem srcTable_copyPage (h : CloneInv m₀ src dest a n block T m) (hsrc : SrcOk m₀ src)
    (hi : i < 1024) (hp : present (m₀.word src i) = true) (hj : j < 1024) {b : ℕ} {t : Pmm}
    (ht : Takes m.pmm t {b}) (q : ℕ) :
    (({ m with pmm := t } : Mem).copyPage (b * 4096) q).word (tableOf (m₀.word src i)) j =
      m.word (tableOf (m₀.word src i)) j := by
  have hsame := sameOutside_copyPage (m := { m with pmm := t }) (Nat.mul_mod_left b 4096) q
  refine hsame.word (tableOf_mod _) hj ?_
  rw [Nat.mul_div_cancel _ (by decide), Finset.mem_singleton]
  intro hcon
  have hused := h.blocks.takes.subset (hsrc.table i hi hp).used
  rw [hcon] at hused
  exact ht.notMem (Finset.mem_singleton_self b) hused

theorem dest_mod (h : CloneInv m₀ src dest a n block T m) : dest % 4096 = 0 := by
  rw [← h.dir_eq]
  exact Nat.mul_mod_left _ _

/-- Nothing becomes live with an entry that is not present or the kernel's. -/
theorem live_skipTable (h : i < 768 → present (m₀.word src i) = false) (s : CloneSlot) :
    Live m₀ src i (i * 1024) s ↔ Live m₀ src (i + 1) ((i + 1) * 1024) s := by
  have hnot : ¬(i < 768 ∧ present (m₀.word src i) = true) := fun hlive =>
    Bool.noConfusion ((h hlive.1).symm.trans hlive.2)
  cases s with
  | dir => exact Iff.rfl
  | table k =>
    refine and_congr_left fun hk => ⟨fun hlt => by omega, fun hlt => ?_⟩
    rcases Nat.lt_succ_iff_lt_or_eq.mp hlt with hlt | rfl
    · exact hlt
    · exact absurd hk hnot
  | page w =>
    refine and_congr_left fun hw => ⟨fun hlt =>
      Nat.lt_of_lt_of_le hlt (Nat.mul_le_mul_right 1024 (Nat.le_succ i)), fun hlt => ?_⟩
    by_contra hge
    rw [show w / 1024 = i by omega] at hw
    exact hnot ⟨hw.1, hw.2.1⟩

/-- An entry of the source that is not present: nothing is done. -/
theorem skipTable (h : CloneInv m₀ src dest i (i * 1024) block T m)
    (hp : present (m₀.word src i) = false) :
    CloneInv m₀ src dest (i + 1) ((i + 1) * 1024) block T m := by
  have hlive := live_skipTable fun _ => hp
  refine ⟨h.blocks.congr hlive, h.dir_eq, fun k hk => ?_, fun w hw => ?_⟩
  · rw [h.dirWord k hk]
    by_cases hki : k = i
    · rw [hki, if_neg (Nat.lt_irrefl i), if_pos (Nat.lt_succ_self i), cloneDirEntry, hp]
      rfl
    · exact if_congr (by omega) rfl rfl
  · have hw' := (hlive _).mpr hw
    rw [h.tableWord w hw']
    have hlt : w / 1024 < i := hw'.1
    exact if_congr (by omega) rfl rfl

/-- A kernel entry: the table is shared. -/
theorem kernelTable (h : CloneInv m₀ src dest i (i * 1024) block T m) (hi : i < 1024)
    (hkernel : 768 ≤ i) (hp : present (m₀.word src i) = true) :
    CloneInv m₀ src dest (i + 1) ((i + 1) * 1024) block T
      (m.setWord dest i (m₀.word src i)) := by
  have hlive : ∀ s, Live m₀ src i (i * 1024) s ↔ Live m₀ src (i + 1) ((i + 1) * 1024) s :=
    live_skipTable fun hlt => absurd hlt (Nat.not_lt.mpr hkernel)
  have hdir : Live m₀ src i (i * 1024) .dir := trivial
  have hset := h.blocks.setWord hdir hi (m₀.word src i)
  rw [h.dir_eq] at hset
  refine ⟨hset.congr hlive, h.dir_eq, fun k hk => ?_, fun w hw => ?_⟩
  · rw [word_setWord h.dest_mod h.dest_mod hi hk, h.dirWord k hk]
    by_cases hki : k = i
    · rw [if_pos ⟨rfl, hki⟩, hki, if_pos (Nat.lt_succ_self i), cloneDirEntry, if_pos hp,
        if_pos hkernel]
    · rw [if_neg fun hcon => hki hcon.2]
      exact if_congr (by omega) rfl rfl
  · have hw' := (hlive _).mpr hw
    have hlt : w / 1024 < i := hw'.1
    have hword := h.blocks.word_setWord hdir hw' hi (Nat.mod_lt w (by decide)) (m₀.word src i)
    rw [h.dir_eq, if_neg (fun hcon => CloneSlot.noConfusion hcon.1)] at hword
    rw [hword, h.tableWord w hw']
    exact if_congr (by omega) rfl rfl

/-- The live slots with a new table. -/
theorem live_newTable (m₀ : Mem) (src : ℕ) (hi : i < 768) (hp : present (m₀.word src i) = true)
    (s : CloneSlot) :
    (s = .table i ∨ Live m₀ src i (i * 1024) s) ↔ Live m₀ src (i + 1) (i * 1024) s := by
  cases s with
  | dir => exact ⟨fun _ => trivial, fun _ => Or.inr trivial⟩
  | table k =>
    rw [CloneSlot.table.injEq]
    constructor
    · rintro (rfl | ⟨hk, hrest⟩)
      · exact ⟨Nat.lt_succ_self k, hi, hp⟩
      · exact ⟨by omega, hrest⟩
    · rintro ⟨hk, hrest⟩
      rcases Nat.lt_succ_iff_lt_or_eq.mp hk with hk | rfl
      · exact Or.inr ⟨hk, hrest⟩
      · exact Or.inl rfl
  | page w => exact or_iff_right CloneSlot.noConfusion

/-- An entry of the new directory depends on the block of its table alone. -/
theorem cloneDirEntry_congr {block' : CloneSlot → ℕ} {k : ℕ}
    (h : k < 768 → present (m₀.word src k) = true → block' (.table k) = block (.table k)) :
    cloneDirEntry m₀ src block' k = cloneDirEntry m₀ src block k := by
  rw [cloneDirEntry, cloneDirEntry]
  split_ifs with hp hk
  · rfl
  · rw [h (Nat.not_le.mp hk) hp]
  · rfl

/-- And an entry of a new table on the block of its page. -/
theorem clonePageEntry_congr {block' : CloneSlot → ℕ}
    (h : present (srcEntry m₀ src v) = true → writable (srcEntry m₀ src v) = true →
      block' (.page v) = block (.page v)) :
    clonePageEntry m₀ src block' v = clonePageEntry m₀ src block v := by
  rw [clonePageEntry, clonePageEntry]
  split_ifs with hp hw
  · rw [h hp hw]
  · rfl
  · rfl

/-- A new table is cleared, and then linked by a write into the directory. -/
theorem blocks_linkTable (h : CloneInv m₀ src dest i (i * 1024) block T m) (hi : i < 768)
    (hp : present (m₀.word src i) = true) {b : ℕ} {t : Pmm} (hb0 : b ≠ 0)
    (ht : Takes m.pmm t {b}) :
    CloneBlocks m₀ (Live m₀ src (i + 1) (i * 1024)) (Function.update block (.table i) b) (T ∪ {b})
        (linkTable m t dest i b) ∧
      (∀ k < 1024, (linkTable m t dest i b).word dest k =
        if k = i then pack 12 b 7#32 else m.word dest k) ∧
      (∀ j < 1024, (linkTable m t dest i b).word (b * 4096) j = 0#32) ∧
      ∀ k, Live m₀ src i (i * 1024) (.table k) → ∀ j < 1024,
        (linkTable m t dest i b).word (block (.table k) * 4096) j =
          m.word (block (.table k) * 4096) j := by
  have hdir : Live m₀ src i (i * 1024) .dir := trivial
  have hnew : ¬ Live m₀ src i (i * 1024) (.table i) := fun hlive => Nat.lt_irrefl i hlive.1
  have hclear := sameOutside_clearBlock { m with pmm := t } b
  have ht' : Takes m.pmm (({ m with pmm := t } : Mem).clearPage (b * 4096)).pmm {b} := ht
  have hblocks := h.blocks.alloc hnew hb0 ht' hclear rfl
  have hkeep : ∀ s, Live m₀ src i (i * 1024) s →
      Function.update block (.table i) b s = block s := by
    intro s hs
    refine Function.update_of_ne ?_ _ _
    rintro rfl
    exact hnew hs
  have hself : Function.update block (.table i) b (.table i) = b := Function.update_self _ _ _
  have hold : ∀ s, Live m₀ src i (i * 1024) s → ∀ k < 1024,
      (({ m with pmm := t } : Mem).clearPage (b * 4096)).word (block s * 4096) k =
        m.word (block s * 4096) k := fun _ hs _ hk => h.blocks.word_alloc ht hclear hs hk
  have hword : ∀ s, (s = .table i ∨ Live m₀ src i (i * 1024) s) → ∀ k < 1024,
      (linkTable m t dest i b).word (Function.update block (.table i) b s * 4096) k =
        if s = .dir ∧ k = i then pack 12 b 7#32 else
          (({ m with pmm := t } : Mem).clearPage (b * 4096)).word
            (Function.update block (.table i) b s * 4096) k := by
    intro s hs k hk
    have hwrite := hblocks.word_setWord (s := .dir) (Or.inr hdir) hs (k := i) (by omega) hk
      (pack 12 b 7#32)
    rwa [hkeep _ hdir, h.dir_eq] at hwrite
  refine ⟨?_, fun k hk => ?_, fun j hj => ?_, fun k hk j hj => ?_⟩
  · have hset := hblocks.setWord (Or.inr hdir) (k := i) (by omega) (pack 12 b 7#32)
    rw [hkeep _ hdir, h.dir_eq] at hset
    exact hset.congr (live_newTable m₀ src hi hp)
  · have hk' := hword .dir (Or.inr hdir) k hk
    rw [hkeep _ hdir, hold .dir hdir k hk, h.dir_eq] at hk'
    rw [hk']
    exact if_congr (and_iff_right rfl) rfl rfl
  · have hj' := hword (.table i) (Or.inl rfl) j hj
    rw [hself, if_neg fun hcon => CloneSlot.noConfusion hcon.1,
      word_clearPage (Nat.mul_mod_left _ _) (Nat.mul_mod_left _ _) hj, if_pos rfl] at hj'
    exact hj'
  · have hj' := hword (.table k) (Or.inr hk) j hj
    rwa [if_neg fun hcon => CloneSlot.noConfusion hcon.1, hkeep _ hk, hold _ hk j hj] at hj'

/-- A user entry: a new table, empty, is linked. -/
theorem newTable (h : CloneInv m₀ src dest i (i * 1024) block T m) (hi : i < 768)
    (hp : present (m₀.word src i) = true) {b : ℕ} {t : Pmm} (hb0 : b ≠ 0)
    (ht : Takes m.pmm t {b}) :
    CloneInv m₀ src dest (i + 1) (i * 1024) (Function.update block (.table i) b) (T ∪ {b})
      (linkTable m t dest i b) := by
  obtain ⟨hblocks, hdirWord, hzero, hold⟩ := h.blocks_linkTable hi hp hb0 ht
  have hkeep : ∀ s, s ≠ .table i → Function.update block (.table i) b s = block s :=
    fun s hs => Function.update_of_ne hs _ _
  refine ⟨hblocks, ?_, fun k hk => ?_, fun w hw => ?_⟩
  · rw [hkeep _ CloneSlot.noConfusion, h.dir_eq]
  · rw [hdirWord k hk, h.dirWord k hk]
    by_cases hki : k = i
    · rw [if_pos hki, hki, if_pos (Nat.lt_succ_self i), cloneDirEntry, if_pos hp,
        if_neg (by omega), Function.update_self]
    · rw [if_neg hki, cloneDirEntry_congr fun _ _ => hkeep _ fun hcon =>
        hki (CloneSlot.table.inj hcon)]
      exact if_congr (by omega) rfl rfl
  · by_cases hwi : w / 1024 = i
    · rw [hwi, Function.update_self, hzero _ (Nat.mod_lt w (by decide)), if_neg (by omega)]
    · have hne : CloneSlot.table (w / 1024) ≠ .table i := fun hcon => hwi (CloneSlot.table.inj hcon)
      have hlive := ((live_newTable m₀ src hi hp _).mpr hw).resolve_left hne
      rw [hkeep _ hne, hold _ hlive _ (Nat.mod_lt w (by decide)), h.tableWord w hlive,
        clonePageEntry_congr fun _ _ => hkeep _ CloneSlot.noConfusion]

/-- The page after the first `n` either needs no block or is not a live slot yet. -/
theorem live_succ (m₀ : Mem) (src a n : ℕ) (s : CloneSlot) :
    Live m₀ src a (n + 1) s ↔ Live m₀ src a n s ∨ (s = .page n ∧ n / 1024 < 768 ∧
      present (m₀.word src (n / 1024)) = true ∧ present (srcEntry m₀ src n) = true ∧
        writable (srcEntry m₀ src n) = true) := by
  cases s with
  | dir => exact ⟨fun _ => Or.inl trivial, fun _ => trivial⟩
  | table k => exact (or_iff_left fun hcon => CloneSlot.noConfusion hcon.1).symm
  | page w =>
    constructor
    · rintro ⟨hlt, hw⟩
      rcases Nat.lt_succ_iff_lt_or_eq.mp hlt with hlt | rfl
      · exact Or.inl ⟨hlt, hw⟩
      · exact Or.inr ⟨rfl, hw⟩
    · rintro (⟨hlt, hw⟩ | ⟨heq, hw⟩)
      · exact ⟨Nat.lt_succ_of_lt hlt, hw⟩
      · obtain rfl := CloneSlot.page.inj heq
        exact ⟨Nat.lt_succ_self w, hw⟩

/-- An entry that is not present: the new entry stays zero. -/
theorem skipEntry (h : CloneInv m₀ src dest a n block T m)
    (hp : present (srcEntry m₀ src n) = false) : CloneInv m₀ src dest a (n + 1) block T m := by
  have hlive : ∀ s, Live m₀ src a n s ↔ Live m₀ src a (n + 1) s := by
    intro s
    rw [live_succ, hp]
    exact (or_iff_left fun hcon => Bool.noConfusion hcon.2.2.2.1).symm
  refine ⟨h.blocks.congr hlive, h.dir_eq, h.dirWord, fun w hw => ?_⟩
  rw [h.tableWord w ((hlive _).mpr hw)]
  by_cases hwn : w = n
  · rw [hwn, if_neg (Nat.lt_irrefl n), if_pos (Nat.lt_succ_self n), clonePageEntry, hp]
    rfl
  · exact if_congr (by omega) rfl rfl

/-- Writing the next entry of the current table, once the page has its block or needs none. -/
theorem writeEntry (hblocks : CloneBlocks m₀ (Live m₀ src a (n + 1)) block T m)
    (hdir : block .dir * 4096 = dest)
    (hdirWord : ∀ i < 1024, m.word dest i = if i < a then cloneDirEntry m₀ src block i else 0#32)
    (htableWord : ∀ v, Live m₀ src a n (.table (v / 1024)) →
      m.word (block (.table (v / 1024)) * 4096) (v % 1024) =
        if v < n then clonePageEntry m₀ src block v else 0#32)
    (htable : Live m₀ src a n (.table (n / 1024))) :
    CloneInv m₀ src dest a (n + 1) block T (m.setWord (block (.table (n / 1024)) * 4096) (n % 1024)
      (clonePageEntry m₀ src block n)) := by
  have hn : n % 1024 < 1024 := Nat.mod_lt n (by decide)
  have htable' : Live m₀ src a (n + 1) (.table (n / 1024)) := htable
  refine ⟨hblocks.setWord htable' hn _, hdir, fun k hk => ?_, fun w hw => ?_⟩
  · have hword := hblocks.word_setWord htable' (show Live m₀ src a (n + 1) .dir from trivial)
      hn hk (clonePageEntry m₀ src block n)
    rw [hdir, if_neg (fun hcon => CloneSlot.noConfusion hcon.1)] at hword
    rw [hword, hdirWord k hk]
  · rw [hblocks.word_setWord htable' hw hn (Nat.mod_lt w (by decide)), htableWord w hw]
    by_cases hwn : w = n
    · rw [hwn, if_pos ⟨rfl, rfl⟩, if_pos (Nat.lt_succ_self n)]
    · rw [if_neg]
      · exact if_congr (by omega) rfl rfl
      · rintro ⟨hslot, hmod⟩
        have hdiv := CloneSlot.table.inj hslot
        exact hwn (by omega)

/-- A read-only entry is copied as it is. -/
theorem shareEntry (h : CloneInv m₀ src dest a n block T m)
    (htable : Live m₀ src a n (.table (n / 1024))) (hp : present (srcEntry m₀ src n) = true)
    (hw : writable (srcEntry m₀ src n) = false) :
    CloneInv m₀ src dest a (n + 1) block T
      (m.setWord (block (.table (n / 1024)) * 4096) (n % 1024) (srcEntry m₀ src n)) := by
  have hlive : ∀ s, Live m₀ src a n s ↔ Live m₀ src a (n + 1) s := by
    intro s
    rw [live_succ, hw]
    exact (or_iff_left fun hcon => Bool.noConfusion hcon.2.2.2.2).symm
  have hentry : clonePageEntry m₀ src block n = srcEntry m₀ src n := by
    rw [clonePageEntry, if_pos hp, hw]
    rfl
  have hwrite := writeEntry (h.blocks.congr hlive) h.dir_eq h.dirWord h.tableWord htable
  rwa [hentry] at hwrite

/-- A writable page is copied into a new block, and the new entry refers to that. -/
theorem copyEntry (h : CloneInv m₀ src dest a n block T m)
    (htable : Live m₀ src a n (.table (n / 1024))) (hp : present (srcEntry m₀ src n) = true)
    (hw : writable (srcEntry m₀ src n) = true) {b : ℕ} {t : Pmm} (hb0 : b ≠ 0)
    (ht : Takes m.pmm t {b}) (q : ℕ) :
    CloneInv m₀ src dest a (n + 1) (Function.update block (.page n) b) (T ∪ {b})
      ((({ m with pmm := t } : Mem).copyPage (b * 4096) q).setWord
        (block (.table (n / 1024)) * 4096) (n % 1024)
        (pack 12 b (srcEntry m₀ src n &&& 0xFFF#32))) := by
  have hsame : SameOutside m (({ m with pmm := t } : Mem).copyPage (b * 4096) q) {b} := by
    have hcopy := sameOutside_copyPage (m := { m with pmm := t }) (Nat.mul_mod_left b 4096) q
    rwa [Nat.mul_div_cancel _ (by decide)] at hcopy
  have hnew : ¬ Live m₀ src a n (.page n) := by
    rintro ⟨hlt, -⟩
    exact Nat.lt_irrefl n hlt
  have hlive : ∀ s, (s = .page n ∨ Live m₀ src a n s) ↔ Live m₀ src a (n + 1) s := by
    intro s
    rw [live_succ, or_comm]
    exact or_congr_right ⟨fun heq => ⟨heq, htable.2.1, htable.2.2, hp, hw⟩, fun heq => heq.1⟩
  have hkeep : ∀ s, s ≠ .page n → Function.update block (.page n) b s = block s :=
    fun s hs => Function.update_of_ne hs _ _
  have hpage : ∀ v < n, clonePageEntry m₀ src (Function.update block (.page n) b) v =
      clonePageEntry m₀ src block v := fun v hv =>
    clonePageEntry_congr fun _ _ => hkeep _ fun hcon => Nat.ne_of_lt hv (CloneSlot.page.inj hcon)
  have htable' : ∀ k, Function.update block (.page n) b (.table k) = block (.table k) :=
    fun k => hkeep _ CloneSlot.noConfusion
  have hentry : clonePageEntry m₀ src (Function.update block (.page n) b) n =
      pack 12 b (srcEntry m₀ src n &&& 0xFFF#32) := by
    rw [clonePageEntry, if_pos hp, if_pos hw, Function.update_self]
  have hdest : Function.update block (.page n) b .dir * 4096 = dest := by
    rw [hkeep _ CloneSlot.noConfusion, h.dir_eq]
  have hwrite := writeEntry ((h.blocks.alloc hnew hb0 ht hsame rfl).congr hlive) hdest
    (fun k hk => ?_) (fun v hv => ?_) htable
  · rwa [hentry, htable'] at hwrite
  · have hword := h.blocks.word_alloc ht hsame (s := .dir) trivial hk
    rw [h.dir_eq] at hword
    rw [hword, h.dirWord k hk, cloneDirEntry_congr fun _ _ => htable' k]
  · rw [htable', h.blocks.word_alloc ht hsame hv (Nat.mod_lt v (by decide)), h.tableWord v hv]
    split_ifs with hvn
    · exact (hpage v hvn).symm
    · rfl

end CloneInv

/-! ### The loops -/

section Loops

variable {m₀ m : Mem} {src dest i j n : ℕ} {block : CloneSlot → ℕ} {T : Finset ℕ}

/-- One turn of the inner loop. -/
theorem post_vmmCloneEntry (hsrc : SrcOk m₀ src) (hi : i < 768)
    (hp : present (m₀.word src i) = true) (hj : j < 1024)
    (h : CloneInv m₀ src dest (i + 1) (i * 1024 + j) block T m) :
    Post (fun m' => ∃ block' T', CloneInv m₀ src dest (i + 1) (i * 1024 + j + 1) block' T' m' ∧
        block' (.table i) = block (.table i))
      (CloneFails m₀ src dest)
      (vmmCloneEntry (tableOf (m₀.word src i)) (block (.table i) * 4096) i j m) := by
  have hdiv : (i * 1024 + j) / 1024 = i := by omega
  have hmod : (i * 1024 + j) % 1024 = j := by omega
  have htable : Live m₀ src (i + 1) (i * 1024 + j) (.table ((i * 1024 + j) / 1024)) := by
    rw [hdiv]
    exact ⟨Nat.lt_succ_self i, hi, hp⟩
  have hsrcEntry : srcEntry m₀ src (i * 1024 + j) = m₀.word (tableOf (m₀.word src i)) j := by
    rw [srcEntry, hdiv, hmod]
  have hword : m.word (tableOf (m₀.word src i)) j = srcEntry m₀ src (i * 1024 + j) := by
    rw [hsrcEntry]
    exact h.srcTable_word hsrc (by omega) hp hj
  rw [vmmCloneEntry, hword]
  cases hpe : present (srcEntry m₀ src (i * 1024 + j)) with
  | false => exact ⟨block, T, h.skipEntry hpe, rfl⟩
  | true =>
    cases hwe : writable (srcEntry m₀ src (i * 1024 + j)) with
    | false =>
      have hshare := h.shareEntry htable hpe hwe
      rw [hdiv, hmod] at hshare
      exact ⟨block, T, hshare, rfl⟩
    | true =>
      rcases pmmAllocBlock_takes m.pmm with ⟨t, heq, -⟩ | ⟨b, t, heq, hb0, hb, ht⟩
      · rw [heq]
        refine ⟨i + 1, _, .page (i * 1024 + j), block, T, m, t, ⟨by rw [hdiv], rfl, ?_⟩, h, heq,
          rfl⟩
        exact ⟨Nat.lt_succ_self _, by omega, by rwa [hdiv], hpe, hwe⟩
      · have hptr : b * 4096 ≠ 0 := by omega
        rw [heq, if_pos rfl, if_pos rfl]
        dsimp only
        rw [if_neg hptr]
        cases vmmGetMapping { m with pmm := t } m.currentDirectory
            (BitVec.ofNat 32 i <<< 22 ||| BitVec.ofNat 32 j <<< 12) with
        | none => trivial
        | some phys =>
          have hcopy := h.copyEntry htable hpe hwe hb0 ht phys.toNat
          have hkeep : Function.update block (.page (i * 1024 + j)) b (.table i) =
            block (.table i) := Function.update_of_ne CloneSlot.noConfusion _ _
          rw [hdiv, hmod] at hcopy
          refine ⟨_, T ∪ {b}, ?_, hkeep⟩
          rw [h.srcTable_copyPage hsrc (by omega) hp hj ht, hword]
          exact hcopy

/-- The inner loop, which keeps the block of its table. -/
theorem post_vmmCloneEntries (hsrc : SrcOk m₀ src) (hi : i < 768)
    (hp : present (m₀.word src i) = true) (h : CloneInv m₀ src dest (i + 1) (i * 1024) block T m) :
    Post (fun m' => ∃ block' T', CloneInv m₀ src dest (i + 1) ((i + 1) * 1024) block' T' m')
      (CloneFails m₀ src dest) (tryRange
        (vmmCloneEntry (tableOf (m₀.word src i)) (block (.table i) * 4096) i) 1024 0 m) := by
  rw [← Nat.add_zero (i * 1024)] at h
  have hloop := tryRange_inv
    (vmmCloneEntry (tableOf (m₀.word src i)) (block (.table i) * 4096) i)
    (fun j m' => ∃ block' T', CloneInv m₀ src dest (i + 1) (i * 1024 + j) block' T' m' ∧
      block' (.table i) = block (.table i))
    (CloneFails m₀ src dest) (n := 1024) (a := 0) ⟨block, T, h, rfl⟩ ?_
  · rw [Nat.succ_mul]
    refine hloop.imp fun m' hm' => ?_
    obtain ⟨block', T', hinv, -⟩ := hm'
    exact ⟨block', T', hinv⟩
  · rintro j m' - hj ⟨block', T', hinv, hblock⟩
    have hentry := post_vmmCloneEntry hsrc hi hp (by omega) hinv
    rwa [hblock, Nat.add_assoc] at hentry

/-- One turn of the outer loop. -/
theorem post_vmmCloneTable (hsrc : SrcOk m₀ src) (hi : i < 1024)
    (h : CloneInv m₀ src dest i (i * 1024) block T m) :
    Post (fun m' => ∃ block' T', CloneInv m₀ src dest (i + 1) ((i + 1) * 1024) block' T' m')
      (CloneFails m₀ src dest) (vmmCloneTable src dest i m) := by
  rw [vmmCloneTable, h.src_word hsrc hi]
  cases hp : present (m₀.word src i) with
  | false => exact ⟨block, T, h.skipTable hp⟩
  | true =>
    rw [if_pos rfl]
    by_cases hkernel : 768 ≤ i
    · rw [if_pos hkernel]
      exact ⟨block, T, h.kernelTable hi hkernel hp⟩
    · rw [if_neg hkernel]
      have hi' : i < 768 := Nat.lt_of_not_le hkernel
      have habsent : present (m.word dest i) = false := by
        rw [h.dirWord i hi, if_neg (Nat.lt_irrefl i)]
        rfl
      rcases vmmGetPageTable_cases hi habsent with ⟨t, heq, halloc⟩ | ⟨b, t, heq, hb0, hb, ht⟩
      · rw [heq]
        exact ⟨i, _, .table i, block, T, m, t, ⟨rfl, rfl, Nat.lt_succ_self i, hi', hp⟩, h, halloc,
          rfl⟩
      · rw [heq]
        dsimp only
        rw [if_neg (by omega)]
        have hentries := post_vmmCloneEntries hsrc hi' hp (h.newTable hi' hp hb0 ht)
        rwa [Function.update_self] at hentries

/-- The whole walk, from the empty directory on. -/
theorem post_clone (hsrc : SrcOk m₀ src) (h : CloneInv m₀ src dest 0 0 block T m) :
    Post (fun m' => ∃ block' T', CloneInv m₀ src dest 1024 (1024 * 1024) block' T' m')
      (CloneFails m₀ src dest) (tryRange (vmmCloneTable src dest) 1024 0 m) := by
  have hloop := tryRange_inv (vmmCloneTable src dest)
    (fun i m' => ∃ block' T', CloneInv m₀ src dest i (i * 1024) block' T' m')
    (CloneFails m₀ src dest) (n := 1024) ⟨block, T, h⟩ ?_
  · rwa [Nat.zero_add] at hloop
  · rintro i m' - hi ⟨block', T', hinv⟩
    exact post_vmmCloneTable hsrc (by omega) hinv

end Loops

/-! ### The new directory, and what freeing it frees -/

namespace CloneInv

variable {m₀ m : Mem} {src dest a n i : ℕ} {block : CloneSlot → ℕ} {T : Finset ℕ}

/-- The empty directory the walk starts from. -/
theorem start (m₀ : Mem) (src : ℕ) {b : ℕ} {t : Pmm} (hb0 : b ≠ 0) (ht : Takes m₀.pmm t {b}) :
    CloneInv m₀ src (b * 4096) 0 0 (fun _ => b) {b}
      (({ m₀ with pmm := t } : Mem).clearPage (b * 4096)) := by
  have hdir : ∀ s, Live m₀ src 0 0 s → s = .dir := by
    intro s hs
    cases s with
    | dir => rfl
    | table k => exact absurd hs.1 (Nat.not_lt_zero k)
    | page w => exact absurd hs.1 (Nat.not_lt_zero w)
  refine ⟨⟨ht, fun c => ?_, fun s s' hs hs' _ => (hdir s hs).trans (hdir s' hs').symm,
    fun _ _ => hb0, ?_, rfl⟩, rfl, fun k hk => ?_, fun v hv => ?_⟩
  · rw [Finset.mem_singleton]
    exact ⟨fun hc => ⟨.dir, trivial, hc.symm⟩, fun ⟨_, _, hc⟩ => hc.symm⟩
  · exact sameOutside_clearBlock { m₀ with pmm := t } b
  · rw [word_clearPage (Nat.mul_mod_left _ _) (Nat.mul_mod_left _ _) hk, if_pos rfl]
    exact (if_neg (Nat.not_lt_zero k)).symm
  · exact absurd hv.1 (Nat.not_lt_zero _)

theorem dest_ne_zero (h : CloneInv m₀ src dest a n block T m) : dest ≠ 0 := by
  have h0 := h.blocks.ne_zero .dir trivial
  rw [← h.dir_eq]
  omega

theorem dest_div (h : CloneInv m₀ src dest a n block T m) : dest / 4096 = block .dir := by
  rw [← h.dir_eq, Nat.mul_div_cancel _ (by decide)]

theorem present_dirWord (h : CloneInv m₀ src dest a n block T m) (hi : i < 1024) :
    present (m.word dest i) = true ↔ i < a ∧ present (m₀.word src i) = true := by
  rw [h.dirWord i hi]
  split_ifs with hia
  · rw [cloneDirEntry, and_iff_right hia]
    split_ifs with hp hkernel
    · exact Iff.rfl
    · rw [present_pack]
      exact iff_of_true rfl hp
    · exact iff_of_false (by decide) hp
  · exact iff_of_false (by decide) fun hcon => hia hcon.1

/-- A user table of the new directory is in its slot's block. -/
theorem tableOf_user (h : CloneInv m₀ src dest a n block T m) (hia : i < a) (hi : i < 768)
    (hp : present (m₀.word src i) = true) :
    tableOf (m.word dest i) = block (.table i) * 4096 := by
  have hlive : Live m₀ src a n (.table i) := ⟨hia, hi, hp⟩
  rw [h.dirWord i (by omega), if_pos hia, cloneDirEntry, if_pos hp, if_neg (by omega),
    tableOf_pack (h.blocks.lt hlive) (by decide)]

theorem tableBlock_user (h : CloneInv m₀ src dest a n block T m) (hia : i < a) (hi : i < 768)
    (hp : present (m₀.word src i) = true) : tableBlock m dest i = block (.table i) := by
  rw [tableBlock, h.tableOf_user hia hi hp, Nat.mul_div_cancel _ (by decide)]

/-- A kernel table is the source's. -/
theorem word_kernel (h : CloneInv m₀ src dest a n block T m) (hia : i < a) (hi : i < 1024)
    (hkernel : 768 ≤ i) (hp : present (m₀.word src i) = true) :
    m.word dest i = m₀.word src i := by
  rw [h.dirWord i hi, if_pos hia, cloneDirEntry, if_pos hp, if_pos hkernel]

/-- The table of a user entry is in the block of its slot. -/
theorem live_userTable (h : CloneInv m₀ src dest a n block T m) (hi : i < 768)
    (hp : present (m.word dest i) = true) :
    Live m₀ src a n (.table i) ∧ tableBlock m dest i = block (.table i) := by
  obtain ⟨hia, hp⟩ := (h.present_dirWord (by omega)).mp hp
  exact ⟨⟨hia, hi, hp⟩, h.tableBlock_user hia hi hp⟩

/-- User entries have different tables, -/
theorem userTable_inj (h : CloneInv m₀ src dest a n block T m) {j : ℕ} (hi : i < 768)
    (hj : j < 768) (hpi : present (m.word dest i) = true) (hpj : present (m.word dest j) = true)
    (heq : tableBlock m dest i = tableBlock m dest j) : i = j := by
  obtain ⟨hli, hbi⟩ := h.live_userTable hi hpi
  obtain ⟨hlj, hbj⟩ := h.live_userTable hj hpj
  rw [hbi, hbj] at heq
  exact CloneSlot.table.inj (h.blocks.inj _ _ hli hlj heq)

/-- none of which is the directory. -/
theorem userTable_ne_dir (h : CloneInv m₀ src dest a n block T m) (hi : i < 768)
    (hp : present (m.word dest i) = true) : tableBlock m dest i ≠ dest / 4096 := by
  obtain ⟨hlive, hblock⟩ := h.live_userTable hi hp
  rw [hblock, h.dest_div]
  exact fun heq => CloneSlot.noConfusion (h.blocks.inj (.table i) .dir hlive trivial heq)

/-- Without kernel tables, the tables of the new directory are in the blocks of their slots. -/
theorem live_table (h : CloneInv m₀ src dest a n block T m)
    (hno : ∀ i < 1024, i < a → 768 ≤ i → present (m₀.word src i) = false) (hi : i < 1024)
    (hp : present (m.word dest i) = true) :
    Live m₀ src a n (.table i) ∧ tableBlock m dest i = block (.table i) := by
  have h768 : i < 768 := by
    by_contra hge
    obtain ⟨hia, hp⟩ := (h.present_dirWord hi).mp hp
    rw [hno i hi hia (by omega)] at hp
    exact Bool.noConfusion hp
  exact h.live_userTable h768 hp

/-- A new directory without kernel tables owns its tables. -/
theorem ownsTables (h : CloneInv m₀ src dest a n block T m)
    (hno : ∀ i < 1024, i < a → 768 ≤ i → present (m₀.word src i) = false) :
    OwnsTables m dest := by
  have huser : ∀ i < 1024, present (m.word dest i) = true → i < 768 :=
    fun i hi hp => (h.live_table hno hi hp).1.2.1
  refine ⟨fun i hi hp => ?_,
    fun i hi j hj hpi hpj => h.userTable_inj (huser i hi hpi) (huser j hj hpj) hpi hpj, ?_,
    fun i hi hp => h.userTable_ne_dir (huser i hi hp) hp⟩
  · obtain ⟨hlive, hblock⟩ := h.live_table hno hi hp
    rw [hblock]
    exact h.blocks.takes.taken_subset (h.blocks.mem hlive)
  · rw [h.dest_div]
    exact h.blocks.takes.taken_subset (h.blocks.mem trivial)

/-- Its blocks are the slots of the directory and the tables. -/
theorem mem_directoryBlocks (h : CloneInv m₀ src dest a n block T m)
    (hno : ∀ i < 1024, i < a → 768 ≤ i → present (m₀.word src i) = false) {b : ℕ} :
    b ∈ directoryBlocks m dest ↔
      b = block .dir ∨ ∃ i, Live m₀ src a n (.table i) ∧ block (.table i) = b := by
  rw [directoryBlocks, Finset.mem_insert, h.dest_div, mem_tableBlocks]
  refine or_congr_right ⟨?_, ?_⟩
  · rintro ⟨i, hi, hp, rfl⟩
    obtain ⟨hlive, hblock⟩ := h.live_table hno hi hp
    exact ⟨i, hlive, hblock.symm⟩
  · rintro ⟨i, ⟨hia, h768, hp⟩, rfl⟩
    exact ⟨i, by omega, (h.present_dirWord (by omega)).mpr ⟨hia, hp⟩,
      h.tableBlock_user hia h768 hp⟩

theorem directoryBlocks_subset (h : CloneInv m₀ src dest a n block T m)
    (hno : ∀ i < 1024, i < a → 768 ≤ i → present (m₀.word src i) = false) :
    directoryBlocks m dest ⊆ T := by
  intro b hb
  rcases (h.mem_directoryBlocks hno).mp hb with rfl | ⟨i, hlive, rfl⟩
  · exact h.blocks.mem trivial
  · exact h.blocks.mem hlive

/-- They are all it has taken, if no page was copied. -/
theorem subset_directoryBlocks_iff (h : CloneInv m₀ src dest a n block T m)
    (hno : ∀ i < 1024, i < a → 768 ≤ i → present (m₀.word src i) = false) :
    T ⊆ directoryBlocks m dest ↔ ∀ v, ¬ Live m₀ src a n (.page v) := by
  constructor
  · intro hsub v hlive
    rcases (h.mem_directoryBlocks hno).mp (hsub (h.blocks.mem hlive)) with heq | ⟨i, htable, heq⟩
    · exact CloneSlot.noConfusion (h.blocks.inj _ .dir hlive trivial heq)
    · exact CloneSlot.noConfusion (h.blocks.inj _ _ htable hlive heq)
  · intro hpage b hb
    obtain ⟨s, hlive, rfl⟩ := (h.blocks.mem_iff b).mp hb
    cases s with
    | dir => exact (h.mem_directoryBlocks hno).mpr (Or.inl rfl)
    | table i => exact (h.mem_directoryBlocks hno).mpr (Or.inr ⟨i, hlive, rfl⟩)
    | page v => exact absurd hlive (hpage v)

/-- Freeing the directory gives these back, whatever was taken since. -/
theorem freeDirectory (h : CloneInv m₀ src dest a n block T m)
    (hno : ∀ i < 1024, i < a → 768 ≤ i → present (m₀.word src i) = false) {t : Pmm} {B : Finset ℕ}
    (ht : Takes m.pmm t B) :
    ∃ u, vmmFreeDirectory { m with pmm := t } dest = { m with pmm := u } ∧
      Takes m₀.pmm u ((T ∪ B) \ directoryBlocks m dest) := by
  have howns := h.ownsTables hno
  obtain ⟨u, heq, -, -, hgives⟩ := vmmFreeDirectory_spec { m with pmm := t } h.dest_ne_zero
  refine ⟨u, heq, (h.blocks.takes.trans ht).give (hgives ⟨fun i hi hp => ?_, howns.inj, ?_, ?_⟩)
    ((h.directoryBlocks_subset hno).trans Finset.subset_union_left)⟩
  · exact ht.subset (howns.used i hi hp)
  · exact ht.subset howns.dir_used
  · exact howns.ne_dir

/-- What is left of a clone when its directory is freed: the copies of pages. -/
theorem freed (h : CloneInv m₀ src dest a n block T m)
    (hno : ∀ i < 1024, i < a → 768 ≤ i → present (m₀.word src i) = false) :
    ∃ u B, vmmFreeDirectory m dest = { m with pmm := u } ∧ Takes m₀.pmm u B ∧
      (B = ∅ ↔ ∀ v, ¬ Live m₀ src a n (.page v)) := by
  obtain ⟨u, heq, hu⟩ := h.freeDirectory hno (Takes.refl m.pmm)
  refine ⟨u, _, heq, hu, ?_⟩
  rw [Finset.union_empty, Finset.sdiff_eq_empty_iff_subset, h.subset_directoryBlocks_iff hno]

end CloneInv

/-- A clone that failed: some blocks may be lost to it, and only blocks that were free were
written. -/
structure CloneFailed (m₀ m : Mem) : Prop where
  takes : ∃ B, Takes m₀.pmm m.pmm B
  same : ∃ U, Disjoint m₀.pmm.usedSet U ∧ SameOutside m₀ m U
  current : m.currentDirectory = m₀.currentDirectory

section Spec

variable {m₀ m : Mem} {src dest : ℕ}

theorem cloneFailed_of_cloneFails {m' : Mem} (h : CloneFails m₀ src dest (.noMemory m')) :
    dest ≠ 0 ∧ CloneFailed m₀ (vmmFreeDirectory m' dest) := by
  obtain ⟨a, n, s, block, T, m, t, hnext, hinv, halloc, rfl⟩ := h
  obtain ⟨B, ht⟩ := takes_of_null halloc
  have hno : ∀ i < 1024, i < a → 768 ≤ i → present (m₀.word src i) = false :=
    fun i _ hia hge => absurd hnext.le (by omega)
  -- the directory frees its tables; the copies of pages, and block `0`, stay lost
  obtain ⟨u, heq, hu⟩ := hinv.freeDirectory hno ht
  rw [heq]
  exact ⟨hinv.dest_ne_zero, ⟨_, hu⟩, ⟨T, hinv.blocks.takes.free, hinv.blocks.same⟩,
    hinv.blocks.current⟩

/-- Everything `vmm_clone_directory` can do: get no directory, finish the walk, or free the
directory it had begun. -/
theorem vmmCloneDirectory_cases (h : vmmCloneDirectory m₀ src = some (dest, m)) :
    (dest = 0 ∧ ∃ t, pmmAllocBlock m₀.pmm = (0, t) ∧ m = { m₀ with pmm := t }) ∨
      ∃ b t, vmmCreateDirectory m₀ = (b * 4096, ({ m₀ with pmm := t } : Mem).clearPage (b * 4096)) ∧
        b ≠ 0 ∧ Takes m₀.pmm t {b} ∧
        ((dest = b * 4096 ∧ tryRange (vmmCloneTable src (b * 4096)) 1024 0
            (({ m₀ with pmm := t } : Mem).clearPage (b * 4096)) = .ok m) ∨
          (dest = 0 ∧ ∃ m', tryRange (vmmCloneTable src (b * 4096)) 1024 0
              (({ m₀ with pmm := t } : Mem).clearPage (b * 4096)) = .error (.noMemory m') ∧
            m = vmmFreeDirectory m' (b * 4096))) := by
  rw [vmmCloneDirectory] at h
  rcases vmmCreateDirectory_cases m₀ with ⟨t, heq, halloc⟩ | ⟨b, t, heq, hb0, -, ht⟩
  · rw [heq] at h
    obtain ⟨rfl, rfl⟩ := Prod.mk.inj (Option.some_inj.mp h)
    exact Or.inl ⟨rfl, t, halloc, rfl⟩
  · have hptr : b * 4096 ≠ 0 := by omega
    refine Or.inr ⟨b, t, heq, hb0, ht, ?_⟩
    rw [heq] at h
    dsimp only at h
    rw [if_neg hptr] at h
    cases hres : tryRange (vmmCloneTable src (b * 4096)) 1024 0
        (({ m₀ with pmm := t } : Mem).clearPage (b * 4096)) with
    | ok m' =>
      rw [hres] at h
      obtain ⟨rfl, rfl⟩ := Prod.mk.inj (Option.some_inj.mp h)
      exact Or.inl ⟨rfl, rfl⟩
    | error e =>
      rw [hres] at h
      cases e with
      | noMemory m' =>
        obtain ⟨rfl, rfl⟩ := Prod.mk.inj (Option.some_inj.mp h)
        exact Or.inr ⟨rfl, m', rfl, rfl⟩
      | pageFault => exact absurd h (Option.some_ne_none _).symm

/-- **What `vmm_clone_directory` does**: fail, having lost blocks at most, or build the clone the
invariant describes. -/
theorem vmmCloneDirectory_spec (hsrc : SrcOk m₀ src)
    (h : vmmCloneDirectory m₀ src = some (dest, m)) :
    (dest = 0 ∧ CloneFailed m₀ m) ∨
      ∃ block T, CloneInv m₀ src dest 1024 (1024 * 1024) block T m := by
  rcases vmmCloneDirectory_cases h with ⟨rfl, t, halloc, rfl⟩ | ⟨b, t, -, hb0, ht, hres⟩
  · exact Or.inl ⟨rfl, takes_of_null halloc, ⟨∅, Finset.disjoint_empty_right _,
      SameOutside.refl _ _⟩, rfl⟩
  have hpost := post_clone hsrc (CloneInv.start m₀ src hb0 ht)
  rcases hres with ⟨rfl, hres⟩ | ⟨rfl, m', hres, rfl⟩
  · rw [hres] at hpost
    exact Or.inr hpost
  · rw [hres] at hpost
    exact Or.inl ⟨rfl, (cloneFailed_of_cloneFails hpost).2⟩

end Spec

end Rexus
