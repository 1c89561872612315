import Mathlib.Order.Interval.Finset.Nat
import Rexus.Lib.Bitmap
import Rexus.Lib.FirstFit
import Rexus.Lib.Run

/-!
# The physical memory manager

`mem/pmm.c`: a bitmap with one bit for each 4 KiB block of physical memory and a separate count of
the blocks in use. Block `b` lives at address `4096 * b`, pointers are addresses, and `0` is the
null pointer. The counter is a `uint32_t` and wraps; `mem_blocks` is `mem_size / 4096` of a 32-bit
`mem_size`, which is where its bound comes from.

## What a proof uses

Callers never open an operation of this file. They use

* `Pmm.usedSet` — the set of blocks marked in use, and what each operation does to it
* `Pmm.SameDrift` — the counter moved exactly as the number of set bits did
* `pmmAllocBlock_cases`, `pmmAllocBlocks_cases` — everything an allocation can do

## Conventions

The bitmap is a map from the numbers of its 32-bit words to the words, without an end: that the
words beyond the bitmap are somebody else's memory is for those to say who call with blocks beyond
`mem_blocks`. The allocator is one record, which the functions take and return; the statics of the
file are its fields. The two bounds it carries, on `mem_blocks` and on the counter, are what the
types of the source give.

An allocation returns its address as a number, and `0` when it has failed. The source does not tell
a failure from block `0`, and so neither does the model: an allocator in which block `0` is free may
give it out, and its caller takes the address for a refusal. The loops are bounded by `mem_blocks`
or by the count they are given, and so none of them needs fuel. The address a caller frees is any
number, and the block it lies in is freed whether it was in use or not.
-/

namespace Rexus

open FirstFit Loop

/-- The allocator's state: `pmm_memory_map`, `mem_blocks` and `mem_used_blocks`. The bits from
`mem_blocks` on are there as well, but stand for no block. The bounds are those of the machine words
the code keeps the two numbers in. -/
@[ext] structure Pmm where
  /-- `pmm_memory_map`, in 32-bit words. -/
  memoryMap : Bitmap 32
  /-- `mem_blocks`. -/
  memBlocks : ℕ
  /-- `mem_used_blocks`. -/
  memUsedBlocks : ℕ
  /-- A 32-bit size divided by the block size. -/
  memBlocks_le : memBlocks ≤ 2 ^ 20
  /-- A 32-bit counter. -/
  memUsedBlocks_lt : memUsedBlocks < 2 ^ 32

/-! ### The operations -/

/-- `pmm_set_block`: the bit is set and the counter goes up, whether the bit was set already or not.
-/
def pmmSetBlock (s : Pmm) (bit : ℕ) : Pmm :=
  { s with
    memoryMap := s.memoryMap.set bit
    memUsedBlocks := (s.memUsedBlocks + 1) % 2 ^ 32
    memUsedBlocks_lt := Nat.mod_lt _ (by decide) }

/-- `pmm_unset_block`: the bit is cleared and the counter goes down, whether the bit was clear
already or not; the counter has 32 bits. -/
def pmmUnsetBlock (s : Pmm) (bit : ℕ) : Pmm :=
  { s with
    memoryMap := s.memoryMap.unset bit
    memUsedBlocks := (s.memUsedBlocks + (2 ^ 32 - 1)) % 2 ^ 32
    memUsedBlocks_lt := Nat.mod_lt _ (by decide) }

/-- `pmm_test_block`. -/
def pmmTestBlock (s : Pmm) (bit : ℕ) : Bool := s.memoryMap.test bit

/-- `pmm_find_first_free_blocks`; `none` is the return value `-1`. -/
def pmmFindFirstFreeBlocks (s : Pmm) (count : ℕ) : Option ℕ :=
  if count = 0 then none
  else if count = 1 then scanOne (fun i => !pmmTestBlock s i) s.memBlocks 0
  else scanRun (fun i => !pmmTestBlock s i) count s.memBlocks 0 0 none

/-- `pmm_alloc_block`: the address returned, and the state after. -/
def pmmAllocBlock (s : Pmm) : ℕ × Pmm :=
  if s.memBlocks ≤ s.memUsedBlocks then (0, s)
  else match pmmFindFirstFreeBlocks s 1 with
    | none => (0, s)
    | some freeBlock => (freeBlock * 4096, pmmSetBlock s freeBlock)

/-- `pmm_free_block`: the block of the address is cleared, if there is one. Whether it is in use is
not asked. -/
def pmmFreeBlock (s : Pmm) (p : ℕ) : Pmm :=
  if s.memBlocks ≤ p / 4096 then s else pmmUnsetBlock s (p / 4096)

/-- The marking loop of `pmm_alloc_blocks`. -/
def pmmMarkBlocks (s : Pmm) (startingBlock size : ℕ) : Pmm :=
  forRange (fun i s => pmmSetBlock s (startingBlock + i)) size 0 s

/-- `pmm_alloc_blocks`; the test for memory is a 32-bit sum. -/
def pmmAllocBlocks (s : Pmm) (size : ℕ) : ℕ × Pmm :=
  if s.memBlocks < (s.memUsedBlocks + size) % 2 ^ 32 then (0, s)
  else match pmmFindFirstFreeBlocks s size with
    | none => (0, s)
    | some startingBlock => (startingBlock * 4096, pmmMarkBlocks s startingBlock size)

/-- `pmm_free_blocks`: `size` blocks from the one of the address on, as far as there are blocks.
Whether they are in use is not asked. -/
def pmmFreeBlocks (s : Pmm) (p size : ℕ) : Pmm :=
  forWhile (fun i s => p / 4096 + i < s.memBlocks) (fun i s => pmmUnsetBlock s (p / 4096 + i))
    size 0 s

/-- `pmm_get_free_block_count`. -/
def pmmGetFreeBlockCount (s : Pmm) : ℕ := (s.memBlocks + (2 ^ 32 - s.memUsedBlocks)) % 2 ^ 32

/-! ### The set of blocks in use -/

namespace Pmm

/-- The blocks below `mem_blocks` whose bit is set. -/
def usedSet (s : Pmm) : Finset ℕ := s.memoryMap.bits s.memBlocks

/-- The invariant of the counter: it is the number of set bits. -/
def Counted (s : Pmm) : Prop := s.memUsedBlocks = s.usedSet.card

instance (s : Pmm) : Decidable s.Counted := inferInstanceAs (Decidable (_ = _))

/-- From `s` to `t` the counter moved, modulo `2 ^ 32`, exactly as the number of set bits did.
Every operation that sets only clear bits and clears only set ones has this property, whatever
the counter was. -/
def SameDrift (s t : Pmm) : Prop :=
  (s.memUsedBlocks + t.usedSet.card) % 2 ^ 32 = (t.memUsedBlocks + s.usedSet.card) % 2 ^ 32

theorem mem_usedSet {s : Pmm} {b : ℕ} :
    b ∈ s.usedSet ↔ b < s.memBlocks ∧ pmmTestBlock s b = true := Bitmap.mem_bits

theorem lt_of_mem_usedSet {s : Pmm} {b : ℕ} (h : b ∈ s.usedSet) : b < s.memBlocks :=
  (mem_usedSet.mp h).1

theorem card_usedSet_le (s : Pmm) : s.usedSet.card ≤ s.memBlocks := Bitmap.card_bits_le _ _

theorem not_mem_usedSet {s : Pmm} {b : ℕ} (hb : b < s.memBlocks) :
    b ∉ s.usedSet ↔ pmmTestBlock s b = false := by
  simp [mem_usedSet, hb]

theorem SameDrift.refl (s : Pmm) : SameDrift s s := rfl

theorem SameDrift.symm {s t : Pmm} (h : SameDrift s t) : SameDrift t s := Eq.symm h

theorem SameDrift.trans {s t u : Pmm} (h₁ : SameDrift s t) (h₂ : SameDrift t u) :
    SameDrift s u := by
  unfold SameDrift at *
  omega

/-- Equal sets of blocks have equal counters, if nothing drifted between them. -/
theorem SameDrift.memUsedBlocks_eq {s t : Pmm} (h : SameDrift s t) (hset : t.usedSet = s.usedSet) :
    t.memUsedBlocks = s.memUsedBlocks := by
  have hs := s.memUsedBlocks_lt
  have ht := t.memUsedBlocks_lt
  unfold SameDrift at h
  rw [hset] at h
  omega

theorem Counted.of_sameDrift {s t : Pmm} (hs : s.Counted) (h : SameDrift s t) : t.Counted := by
  have hcard := t.card_usedSet_le
  have hle := t.memBlocks_le
  have ht := t.memUsedBlocks_lt
  unfold Counted SameDrift at *
  omega

end Pmm

open Pmm

variable {s : Pmm}

@[simp] theorem pmmSetBlock_memBlocks (s : Pmm) (b : ℕ) :
    (pmmSetBlock s b).memBlocks = s.memBlocks := rfl

theorem pmmTestBlock_pmmSetBlock (s : Pmm) (b c : ℕ) :
    pmmTestBlock (pmmSetBlock s b) c = (decide (c = b) || pmmTestBlock s c) :=
  Bitmap.test_set (by decide) _ _ _

theorem usedSet_pmmSetBlock {b : ℕ} (hb : b < s.memBlocks) :
    (pmmSetBlock s b).usedSet = insert b s.usedSet :=
  Bitmap.bits_set (by decide) _ hb

theorem usedSet_pmmUnsetBlock (s : Pmm) (b : ℕ) :
    (pmmUnsetBlock s b).usedSet = s.usedSet.erase b :=
  Bitmap.bits_unset (by decide) _ _ _

theorem sameDrift_pmmSetBlock {b : ℕ} (hb : b < s.memBlocks) (hfree : b ∉ s.usedSet) :
    SameDrift s (pmmSetBlock s b) := by
  have hu : (pmmSetBlock s b).memUsedBlocks = (s.memUsedBlocks + 1) % 2 ^ 32 := rfl
  rw [SameDrift, usedSet_pmmSetBlock hb, Finset.card_insert_of_notMem hfree, hu]
  omega

theorem sameDrift_pmmUnsetBlock {b : ℕ} (hused : b ∈ s.usedSet) :
    SameDrift s (pmmUnsetBlock s b) := by
  have hu : (pmmUnsetBlock s b).memUsedBlocks = (s.memUsedBlocks + (2 ^ 32 - 1)) % 2 ^ 32 := rfl
  have hpos : 0 < s.usedSet.card := Finset.card_pos.mpr ⟨b, hused⟩
  rw [SameDrift, usedSet_pmmUnsetBlock, Finset.card_erase_of_mem hused, hu]
  omega

/-! ### Marking and clearing ranges -/

@[simp] theorem pmmMarkBlocks_memBlocks (s : Pmm) (b n : ℕ) :
    (pmmMarkBlocks s b n).memBlocks = s.memBlocks := by
  rw [pmmMarkBlocks]
  exact forRange_inv _ (fun _ (t : Pmm) => t.memBlocks = s.memBlocks) rfl fun _ _ _ _ h => h

theorem pmmMarkBlocks_succ (s : Pmm) (b n : ℕ) :
    pmmMarkBlocks s b (n + 1) = pmmSetBlock (pmmMarkBlocks s b n) (b + n) := by
  rw [pmmMarkBlocks, forRange_succ, Nat.zero_add]
  rfl

theorem usedSet_pmmMarkBlocks {b n : ℕ} (h : b + n ≤ s.memBlocks) :
    (pmmMarkBlocks s b n).usedSet = s.usedSet ∪ Finset.Ico b (b + n) := by
  induction n with
  | zero => simp [pmmMarkBlocks, forRange]
  | succ n ih =>
    rw [pmmMarkBlocks_succ, usedSet_pmmSetBlock (by rw [pmmMarkBlocks_memBlocks]; omega),
      ih (by omega), ← Finset.union_insert]
    congr 1
    ext c
    simp only [Finset.mem_insert, Finset.mem_Ico]
    omega

theorem sameDrift_pmmMarkBlocks {b n : ℕ} (h : b + n ≤ s.memBlocks)
    (hfree : Disjoint s.usedSet (Finset.Ico b (b + n))) : SameDrift s (pmmMarkBlocks s b n) := by
  induction n with
  | zero => exact SameDrift.refl s
  | succ n ih =>
    have hsub : Finset.Ico b (b + n) ⊆ Finset.Ico b (b + (n + 1)) :=
      Finset.Ico_subset_Ico_right (by omega)
    rw [pmmMarkBlocks_succ]
    refine (ih (by omega) (hfree.mono_right hsub)).trans
      (sameDrift_pmmSetBlock (by rw [pmmMarkBlocks_memBlocks]; omega) ?_)
    rw [usedSet_pmmMarkBlocks (by omega), Finset.mem_union, Finset.mem_Ico]
    rintro (hmem | hmem)
    · exact Finset.disjoint_left.mp hfree hmem (Finset.mem_Ico.mpr (by omega))
    · omega

/-- The first `i` of the `n` blocks from `b` on are free: what the loop of `pmm_free_blocks` keeps.
Counter and bitmap move together if all `n` were in use, since the loop counts down for a block that
is free already, too. -/
structure FreedTo (s : Pmm) (b n i : ℕ) (t : Pmm) : Prop where
  memBlocks : t.memBlocks = s.memBlocks
  usedSet : t.usedSet = s.usedSet \ Finset.Ico b (b + i)
  drift : Finset.Ico b (b + n) ⊆ s.usedSet → SameDrift s t

theorem FreedTo.step {t : Pmm} {b n i : ℕ} (h : FreedTo s b n i t) (hi : i < n) :
    FreedTo s b n (i + 1) (pmmUnsetBlock t (b + i)) where
  memBlocks := h.memBlocks
  usedSet := by
    rw [usedSet_pmmUnsetBlock, h.usedSet]
    ext c
    simp only [Finset.mem_erase, Finset.mem_sdiff, Finset.mem_Ico]
    constructor
    · rintro ⟨hne, hc, hnot⟩
      exact ⟨hc, by omega⟩
    · rintro ⟨hc, hnot⟩
      exact ⟨by omega, hc, by omega⟩
  drift hsub := by
    refine (h.drift hsub).trans (sameDrift_pmmUnsetBlock ?_)
    rw [h.usedSet, Finset.mem_sdiff, Finset.mem_Ico]
    exact ⟨hsub (Finset.mem_Ico.mpr (by omega)), by omega⟩

/-- What clearing a range does: the loop stops at `mem_blocks`, but no bit beyond it counts. -/
theorem pmmFreeBlocks_spec (s : Pmm) (p n : ℕ) :
    (pmmFreeBlocks s p n).memBlocks = s.memBlocks ∧
      (pmmFreeBlocks s p n).usedSet = s.usedSet \ Finset.Ico (p / 4096) (p / 4096 + n) ∧
      (Finset.Ico (p / 4096) (p / 4096 + n) ⊆ s.usedSet → SameDrift s (pmmFreeBlocks s p n)) := by
  have hstart : FreedTo s (p / 4096) n 0 s := ⟨rfl, by simp, fun _ => SameDrift.refl s⟩
  obtain ⟨i, -, hin, ⟨hm, hu, hd⟩, hstop⟩ := forWhile_inv _ _ (FreedTo s (p / 4096) n) (n := n)
    hstart fun i t _ hi _ ht => ht.step (by omega)
  refine ⟨hm, hu.trans ?_, hd⟩
  ext c
  simp only [Finset.mem_sdiff, Finset.mem_Ico]
  refine and_congr_right fun hc => not_congr ⟨by omega, fun hmem => ⟨hmem.1, ?_⟩⟩
  -- beyond the cursor the loop has stopped, so `c` would be past `mem_blocks`
  by_contra hge
  have hi := hstop (by omega)
  simp only [decide_eq_false_iff_not] at hi
  have hlt := lt_of_mem_usedSet hc
  omega

theorem usedSet_pmmFreeBlocks (s : Pmm) (p n : ℕ) :
    (pmmFreeBlocks s p n).usedSet = s.usedSet \ Finset.Ico (p / 4096) (p / 4096 + n) :=
  (pmmFreeBlocks_spec s p n).2.1

@[simp] theorem pmmFreeBlocks_memBlocks (s : Pmm) (p n : ℕ) :
    (pmmFreeBlocks s p n).memBlocks = s.memBlocks :=
  (pmmFreeBlocks_spec s p n).1

theorem sameDrift_pmmFreeBlocks {p n : ℕ}
    (h : Finset.Ico (p / 4096) (p / 4096 + n) ⊆ s.usedSet) : SameDrift s (pmmFreeBlocks s p n) :=
  (pmmFreeBlocks_spec s p n).2.2 h

theorem usedSet_pmmFreeBlock (s : Pmm) (p : ℕ) :
    (pmmFreeBlock s p).usedSet = s.usedSet.erase (p / 4096) := by
  rw [pmmFreeBlock]
  split
  · next h =>
    exact (Finset.erase_eq_of_notMem fun hmem => by have := lt_of_mem_usedSet hmem; omega).symm
  · exact usedSet_pmmUnsetBlock s _

@[simp] theorem pmmFreeBlock_memBlocks (s : Pmm) (p : ℕ) :
    (pmmFreeBlock s p).memBlocks = s.memBlocks := by
  rw [pmmFreeBlock]
  split <;> rfl

theorem sameDrift_pmmFreeBlock {p : ℕ} (h : p / 4096 ∈ s.usedSet) :
    SameDrift s (pmmFreeBlock s p) := by
  rw [pmmFreeBlock, if_neg (by have := lt_of_mem_usedSet h; omega)]
  exact sameDrift_pmmUnsetBlock h

/-! ### What an allocation can do -/

namespace Pmm

/-- `n` consecutive free blocks from `b` on, all below `mem_blocks`. -/
def FreeRun (s : Pmm) (n b : ℕ) : Prop := IsRun (fun i => !pmmTestBlock s i) s.memBlocks n b

/-- `t` is `s` with the blocks of `B`, all free before, marked in use and counted. -/
structure Takes (s t : Pmm) (B : Finset ℕ) : Prop where
  memBlocks : t.memBlocks = s.memBlocks
  usedSet : t.usedSet = s.usedSet ∪ B
  free : Disjoint s.usedSet B
  drift : SameDrift s t

/-- `t` is `s` with the blocks of `B`, all in use before, marked free and counted off. -/
structure Gives (s t : Pmm) (B : Finset ℕ) : Prop where
  memBlocks : t.memBlocks = s.memBlocks
  usedSet : t.usedSet = s.usedSet \ B
  used : B ⊆ s.usedSet
  drift : SameDrift s t

theorem freeRun_iff {s : Pmm} {n b : ℕ} :
    FreeRun s n b ↔ b + n ≤ s.memBlocks ∧ Disjoint s.usedSet (Finset.Ico b (b + n)) := by
  refine and_congr_right fun hb => ⟨fun h => ?_, fun h k hk => ?_⟩
  · rw [Finset.disjoint_left]
    intro c hc hmem
    rw [Finset.mem_Ico] at hmem
    have := h (c - b) (by omega)
    rw [show b + (c - b) = c by omega] at this
    rw [mem_usedSet] at hc
    simp [hc.2] at this
  · by_contra hcon
    have hmem : b + k ∈ s.usedSet := mem_usedSet.mpr ⟨by omega, by simpa using hcon⟩
    exact Finset.disjoint_left.mp h hmem (Finset.mem_Ico.mpr (by omega))

theorem freeRun_one {s : Pmm} {b : ℕ} :
    FreeRun s 1 b ↔ b < s.memBlocks ∧ b ∉ s.usedSet := by
  rw [FreeRun, isRun_one]
  refine and_congr_right fun hb => ?_
  rw [not_mem_usedSet hb, Bool.not_eq_true']

/-- A run of free blocks and the blocks in use fit together below `mem_blocks`. -/
theorem FreeRun.card_add_le {s : Pmm} {n b : ℕ} (h : FreeRun s n b) :
    s.usedSet.card + n ≤ s.memBlocks := by
  obtain ⟨hle, hdis⟩ := freeRun_iff.mp h
  have hsub : s.usedSet ∪ Finset.Ico b (b + n) ⊆ Finset.range s.memBlocks := by
    refine Finset.union_subset (Bitmap.bits_subset_range _ _) fun c hc => ?_
    rw [Finset.mem_Ico] at hc
    exact Finset.mem_range.mpr (by omega)
  have hcard := Finset.card_le_card hsub
  rw [Finset.card_union_of_disjoint hdis, Nat.card_Ico, Finset.card_range] at hcard
  omega

namespace Takes

variable {s t u : Pmm} {B C : Finset ℕ}

theorem refl (s : Pmm) : Takes s s ∅ :=
  ⟨rfl, (Finset.union_empty _).symm, Finset.disjoint_empty_right _, SameDrift.refl s⟩

theorem trans (h₁ : Takes s t B) (h₂ : Takes t u C) : Takes s u (B ∪ C) where
  memBlocks := h₂.memBlocks.trans h₁.memBlocks
  usedSet := by rw [h₂.usedSet, h₁.usedSet, Finset.union_assoc]
  free := Finset.disjoint_union_right.mpr
    ⟨h₁.free, h₂.free.mono_left (by rw [h₁.usedSet]; exact Finset.subset_union_left)⟩
  drift := h₁.drift.trans h₂.drift

theorem subset (h : Takes s t B) : s.usedSet ⊆ t.usedSet := by
  rw [h.usedSet]
  exact Finset.subset_union_left

theorem taken_subset (h : Takes s t B) : B ⊆ t.usedSet := by
  rw [h.usedSet]
  exact Finset.subset_union_right

theorem disjoint_of_trans (h₁ : Takes s t B) (h₂ : Takes t u C) : Disjoint B C :=
  h₂.free.mono_left h₁.taken_subset

theorem lt (h : Takes s t B) {b : ℕ} (hb : b ∈ B) : b < s.memBlocks :=
  h.memBlocks ▸ lt_of_mem_usedSet (h.taken_subset hb)

theorem notMem (h : Takes s t B) {b : ℕ} (hb : b ∈ B) : b ∉ s.usedSet :=
  fun hu => Finset.disjoint_left.mp h.free hu hb

end Takes

namespace Gives

variable {s t u : Pmm} {B C : Finset ℕ}

theorem refl (s : Pmm) : Gives s s ∅ :=
  ⟨rfl, (Finset.sdiff_empty).symm, Finset.empty_subset _, SameDrift.refl s⟩

theorem trans (h₁ : Gives s t B) (h₂ : Gives t u C) : Gives s u (B ∪ C) where
  memBlocks := h₂.memBlocks.trans h₁.memBlocks
  usedSet := by rw [h₂.usedSet, h₁.usedSet]; exact sdiff_sdiff_left
  used := Finset.union_subset h₁.used
    (h₂.used.trans (by rw [h₁.usedSet]; exact Finset.sdiff_subset))
  drift := h₁.drift.trans h₂.drift

end Gives

/-- Taking blocks and giving the same ones back leaves the allocator as it was. -/
theorem Takes.gives {s t u : Pmm} {B : Finset ℕ} (h₁ : Takes s t B) (h₂ : Gives t u B) :
    u.usedSet = s.usedSet ∧ u.memUsedBlocks = s.memUsedBlocks := by
  have hset : u.usedSet = s.usedSet := by
    rw [h₂.usedSet, h₁.usedSet, Finset.union_sdiff_right]
    exact Finset.sdiff_eq_self_of_disjoint h₁.free
  exact ⟨hset, (h₁.drift.trans h₂.drift).memUsedBlocks_eq hset⟩

/-- Taking blocks and giving some of them back. -/
theorem Takes.give {s t u : Pmm} {B D : Finset ℕ} (h₁ : Takes s t B) (h₂ : Gives t u D)
    (hsub : D ⊆ B) : Takes s u (B \ D) where
  memBlocks := h₂.memBlocks.trans h₁.memBlocks
  usedSet := by
    rw [h₂.usedSet, h₁.usedSet, Finset.union_sdiff_distrib,
      Finset.sdiff_eq_self_of_disjoint (h₁.free.mono_right hsub)]
  free := h₁.free.mono_right Finset.sdiff_subset
  drift := h₁.drift.trans h₂.drift

end Pmm

theorem pmmFindFirstFreeBlocks_eq_some_iff {n b : ℕ} :
    pmmFindFirstFreeBlocks s n = some b ↔
      0 < n ∧ IsLeastRun (fun i => !pmmTestBlock s i) s.memBlocks n b := by
  rw [pmmFindFirstFreeBlocks]
  split
  · next h0 => simp [h0]
  split
  · next _ h1 =>
    subst h1
    rw [scanOne_eq_some_iff, IsLeastRun, isRun_one, Nat.zero_add]
    constructor
    · rintro ⟨-, hb, hf, hmin⟩
      refine ⟨Nat.one_pos, ⟨hb, hf⟩, fun c hc => ?_⟩
      by_contra hlt
      have := hmin c (Nat.zero_le _) (by omega)
      rw [(isRun_one.mp hc).2] at this
      exact Bool.noConfusion this
    · rintro ⟨-, ⟨hb, hf⟩, hmin⟩
      refine ⟨Nat.zero_le _, hb, hf, fun c _ hcb => ?_⟩
      by_contra hcon
      have := hmin c (isRun_one.mpr ⟨by omega, by simpa using hcon⟩)
      omega
  · next h0 _ =>
    rw [scanRun_eq_some_iff (by omega)]
    exact ⟨fun h => ⟨by omega, h⟩, fun h => h.2⟩

theorem pmmFindFirstFreeBlocks_eq_none_iff {n : ℕ} :
    pmmFindFirstFreeBlocks s n = none ↔ n = 0 ∨ ∀ b, ¬ FreeRun s n b := by
  rw [pmmFindFirstFreeBlocks]
  split
  · next h0 => simp [h0]
  split
  · next h0 h1 =>
    subst h1
    rw [scanOne_eq_none_iff, or_iff_right h0]
    constructor
    · intro h b hb
      have hb' := isRun_one.mp hb
      have := h b (Nat.zero_le _) (by omega)
      rw [hb'.2] at this
      exact Bool.noConfusion this
    · intro h c _ hc
      by_contra hcon
      exact h c (isRun_one.mpr ⟨by omega, by simpa using hcon⟩)
  · next h0 _ =>
    rw [scanRun_eq_none_iff (by omega), or_iff_right h0]
    exact Iff.rfl

theorem takes_pmmSetBlock {b : ℕ} (h : FreeRun s 1 b) : Takes s (pmmSetBlock s b) {b} := by
  obtain ⟨hb, hfree⟩ := freeRun_one.mp h
  exact ⟨rfl, by rw [usedSet_pmmSetBlock hb, Finset.union_comm]; rfl,
    Finset.disjoint_singleton_right.mpr hfree, sameDrift_pmmSetBlock hb hfree⟩

theorem takes_pmmMarkBlocks {n b : ℕ} (h : FreeRun s n b) :
    Takes s (pmmMarkBlocks s b n) (Finset.Ico b (b + n)) := by
  obtain ⟨hle, hfree⟩ := freeRun_iff.mp h
  exact ⟨pmmMarkBlocks_memBlocks s b n, usedSet_pmmMarkBlocks hle, hfree,
    sameDrift_pmmMarkBlocks hle hfree⟩

/-- Everything `pmm_alloc_block` can do: refuse, because the counter has reached `mem_blocks` or
there is no free block, or mark the least free block. -/
theorem pmmAllocBlock_cases (s : Pmm) :
    (pmmAllocBlock s = (0, s) ∧ (s.memBlocks ≤ s.memUsedBlocks ∨ ∀ b, ¬ FreeRun s 1 b)) ∨
      ∃ b, pmmAllocBlock s = (b * 4096, pmmSetBlock s b) ∧ s.memUsedBlocks < s.memBlocks ∧
        FreeRun s 1 b ∧ ∀ c, FreeRun s 1 c → b ≤ c := by
  rw [pmmAllocBlock]
  split
  · next h => exact Or.inl ⟨rfl, Or.inl h⟩
  · next h =>
    cases hf : pmmFindFirstFreeBlocks s 1 with
    | none =>
      rw [pmmFindFirstFreeBlocks_eq_none_iff] at hf
      exact Or.inl ⟨rfl, Or.inr (hf.resolve_left (by decide))⟩
    | some b =>
      rw [pmmFindFirstFreeBlocks_eq_some_iff] at hf
      exact Or.inr ⟨b, rfl, by omega, hf.2.1, hf.2.2⟩

/-- Everything `pmm_alloc_blocks` can do. -/
theorem pmmAllocBlocks_cases (s : Pmm) (n : ℕ) :
    (pmmAllocBlocks s n = (0, s) ∧
        (s.memBlocks < (s.memUsedBlocks + n) % 2 ^ 32 ∨ n = 0 ∨ ∀ b, ¬ FreeRun s n b)) ∨
      ∃ b, pmmAllocBlocks s n = (b * 4096, pmmMarkBlocks s b n) ∧ 0 < n ∧
        FreeRun s n b ∧ ∀ c, FreeRun s n c → b ≤ c := by
  rw [pmmAllocBlocks]
  split
  · next h => exact Or.inl ⟨rfl, Or.inl h⟩
  · next h =>
    cases hf : pmmFindFirstFreeBlocks s n with
    | none => exact Or.inl ⟨rfl, Or.inr (pmmFindFirstFreeBlocks_eq_none_iff.mp hf)⟩
    | some b =>
      rw [pmmFindFirstFreeBlocks_eq_some_iff] at hf
      exact Or.inr ⟨b, rfl, hf.1, hf.2.1, hf.2.2⟩

/-- The least free block is what `pmm_alloc_block` takes, if the counter is right. -/
theorem pmmAllocBlock_least (hs : s.Counted) {b : ℕ} (hb : b < s.memBlocks)
    (hfree : b ∉ s.usedSet) (hleast : ∀ c < b, c ∈ s.usedSet) :
    pmmAllocBlock s = (b * 4096, pmmSetBlock s b) := by
  have hrun : FreeRun s 1 b := freeRun_one.mpr ⟨hb, hfree⟩
  rcases pmmAllocBlock_cases s with ⟨-, hfull | hnone⟩ | ⟨c, heq, -, hc, hmin⟩
  · have hcard := hrun.card_add_le
    rw [← hs] at hcard
    omega
  · exact absurd hrun (hnone b)
  · have hle := hmin b hrun
    have hge : ¬ c < b := fun hlt => (freeRun_one.mp hc).2 (hleast c hlt)
    obtain rfl : c = b := by omega
    exact heq

/-- The least run of free blocks is what `pmm_alloc_blocks` takes. -/
theorem pmmAllocBlocks_least (hs : s.Counted) {n b : ℕ} (hn : 0 < n)
    (hrun : FreeRun s n b) (hleast : ∀ c < b, ¬ FreeRun s n c) :
    pmmAllocBlocks s n = (b * 4096, pmmMarkBlocks s b n) := by
  rcases pmmAllocBlocks_cases s n with ⟨-, hfull | rfl | hnone⟩ | ⟨c, heq, -, hc, hmin⟩
  · have hcard := hrun.card_add_le
    have hle := s.memBlocks_le
    rw [← hs] at hcard
    rw [Nat.mod_eq_of_lt (by omega)] at hfull
    omega
  · exact absurd hn (Nat.lt_irrefl 0)
  · exact absurd hrun (hnone b)
  · have hle := hmin b hrun
    have hge : ¬ c < b := fun hlt => hleast c hlt hc
    obtain rfl : c = b := by omega
    exact heq

theorem pmmAllocBlocks_none {n : ℕ} (h : ∀ b, ¬ FreeRun s n b) :
    pmmAllocBlocks s n = (0, s) := by
  rcases pmmAllocBlocks_cases s n with ⟨heq, -⟩ | ⟨b, -, -, hrun, -⟩
  · exact heq
  · exact absurd hrun (h b)

/-- An allocator call that returns null has left the state alone, if block `0` is in use. -/
theorem pmmAllocBlock_zero {t : Pmm} (hs : pmmAllocBlock s = (0, t)) (h0 : ¬ FreeRun s 1 0) :
    t = s := by
  rcases pmmAllocBlock_cases s with ⟨h', -⟩ | ⟨b, h', -, hrun, -⟩
  · rw [h', Prod.mk.injEq] at hs
    exact hs.2.symm
  · rw [h', Prod.mk.injEq] at hs
    obtain rfl : b = 0 := by omega
    exact absurd hrun h0

theorem pmmAllocBlocks_zero {t : Pmm} {n : ℕ} (hs : pmmAllocBlocks s n = (0, t))
    (h0 : ¬ FreeRun s 1 0) : t = s := by
  rcases pmmAllocBlocks_cases s n with ⟨h', -⟩ | ⟨b, h', hn, hrun, -⟩
  · rw [h', Prod.mk.injEq] at hs
    exact hs.2.symm
  · rw [h', Prod.mk.injEq] at hs
    obtain rfl : b = 0 := by omega
    exact absurd (hrun.mono hn) h0

/-- A pointer `pmm_alloc_block` returns is the address of one block that was free. -/
theorem takes_of_pmmAllocBlock {p : ℕ} {t : Pmm} (h : pmmAllocBlock s = (p, t)) (hp : p ≠ 0) :
    p = p / 4096 * 4096 ∧ Takes s t {p / 4096} := by
  rcases pmmAllocBlock_cases s with ⟨h', -⟩ | ⟨b, h', -, hrun, -⟩
  · rw [h', Prod.mk.injEq] at h
    exact absurd h.1.symm hp
  · rw [h', Prod.mk.injEq] at h
    obtain ⟨rfl, rfl⟩ := h
    rw [Nat.mul_div_cancel _ (by decide)]
    exact ⟨rfl, takes_pmmSetBlock hrun⟩

/-- A pointer `pmm_alloc_blocks` returns is the address of `n` blocks that were free. -/
theorem takes_of_pmmAllocBlocks {n p : ℕ} {t : Pmm} (h : pmmAllocBlocks s n = (p, t))
    (hp : p ≠ 0) :
    p = p / 4096 * 4096 ∧ 0 < n ∧ Takes s t (Finset.Ico (p / 4096) (p / 4096 + n)) := by
  rcases pmmAllocBlocks_cases s n with ⟨h', -⟩ | ⟨b, h', hn, hrun, -⟩
  · rw [h', Prod.mk.injEq] at h
    exact absurd h.1.symm hp
  · rw [h', Prod.mk.injEq] at h
    obtain ⟨rfl, rfl⟩ := h
    rw [Nat.mul_div_cancel _ (by decide)]
    exact ⟨rfl, hn, takes_pmmMarkBlocks hrun⟩

/-- A null pointer is a refusal, or block `0` marked and lost. -/
theorem takes_of_pmmAllocBlock_zero {t : Pmm} (h : pmmAllocBlock s = (0, t)) :
    t = s ∨ Takes s t {0} := by
  rcases pmmAllocBlock_cases s with ⟨h', -⟩ | ⟨b, h', -, hrun, -⟩
  · rw [h', Prod.mk.injEq] at h
    exact Or.inl h.2.symm
  · rw [h', Prod.mk.injEq] at h
    obtain rfl : b = 0 := by omega
    exact Or.inr (h.2 ▸ takes_pmmSetBlock hrun)

theorem takes_of_null {t : Pmm} (h : pmmAllocBlock s = (0, t)) : ∃ B, Takes s t B := by
  rcases takes_of_pmmAllocBlock_zero h with rfl | ht
  · exact ⟨∅, Takes.refl t⟩
  · exact ⟨{0}, ht⟩

/-- What an allocation comes to: null, with at most block `0` lost, or the address of one block
that was free. -/
theorem pmmAllocBlock_takes (s : Pmm) :
    (∃ t, pmmAllocBlock s = (0, t) ∧ ∃ B ⊆ {0}, Takes s t B) ∨
      ∃ b t, pmmAllocBlock s = (b * 4096, t) ∧ b ≠ 0 ∧ b < 2 ^ 20 ∧ Takes s t {b} := by
  rcases h : pmmAllocBlock s with ⟨p, t⟩
  by_cases hp : p = 0
  · subst hp
    refine Or.inl ⟨t, rfl, ?_⟩
    rcases takes_of_pmmAllocBlock_zero h with rfl | ht
    · exact ⟨∅, Finset.empty_subset _, Takes.refl t⟩
    · exact ⟨{0}, Finset.Subset.refl _, ht⟩
  · obtain ⟨haddr, ht⟩ := takes_of_pmmAllocBlock h hp
    have hlt := ht.lt (Finset.mem_singleton_self _)
    have hle := s.memBlocks_le
    exact Or.inr ⟨p / 4096, t, by rw [← haddr], by omega, by omega, ht⟩

theorem gives_pmmFreeBlock {p : ℕ} (h : p / 4096 ∈ s.usedSet) :
    Gives s (pmmFreeBlock s p) {p / 4096} :=
  ⟨pmmFreeBlock_memBlocks s p, by rw [usedSet_pmmFreeBlock, Finset.sdiff_singleton_eq_erase],
    Finset.singleton_subset_iff.mpr h, sameDrift_pmmFreeBlock h⟩

theorem gives_pmmFreeBlocks {p n : ℕ} (h : Finset.Ico (p / 4096) (p / 4096 + n) ⊆ s.usedSet) :
    Gives s (pmmFreeBlocks s p n) (Finset.Ico (p / 4096) (p / 4096 + n)) :=
  ⟨pmmFreeBlocks_memBlocks s p n, usedSet_pmmFreeBlocks s p n, h, sameDrift_pmmFreeBlocks h⟩

/-- What was taken first is given back. -/
theorem Pmm.Takes.giveBack {t u v : Pmm} {A B : Finset ℕ} (ht : Takes s t A) (hu : Takes t u B)
    (hgives : A ⊆ u.usedSet → Gives u v A) : Takes s v B := by
  have hall := ht.trans hu
  have htakes := hall.give (hgives (Finset.subset_union_left.trans hall.taken_subset))
    Finset.subset_union_left
  rwa [Finset.union_sdiff_cancel_left (ht.disjoint_of_trans hu)] at htakes

/-- A run of blocks that was taken first is given back. -/
theorem Pmm.Takes.freeBlocks {t u : Pmm} {p n : ℕ} {B : Finset ℕ}
    (ht : Takes s t (Finset.Ico (p / 4096) (p / 4096 + n))) (hu : Takes t u B) :
    Takes s (pmmFreeBlocks u p n) B :=
  ht.giveBack hu gives_pmmFreeBlocks

/-- One more run of blocks is given back. -/
theorem Pmm.Gives.freeBlocks {t : Pmm} {p n : ℕ} {B : Finset ℕ} (h : Gives s t B)
    (hused : Finset.Ico (p / 4096) (p / 4096 + n) ⊆ s.usedSet)
    (hdis : Disjoint B (Finset.Ico (p / 4096) (p / 4096 + n))) :
    Gives s (pmmFreeBlocks t p n) (B ∪ Finset.Ico (p / 4096) (p / 4096 + n)) := by
  refine h.trans (gives_pmmFreeBlocks ?_)
  rw [h.usedSet, Finset.subset_sdiff]
  exact ⟨hused, hdis.symm⟩

/-! ### The same allocator -/

/-- The bitmap and the counter of `t` are those of `s`. Of the bits from `mem_blocks` on, which
stand for no block, nothing is said. -/
structure SameAllocator (s t : Pmm) : Prop where
  memBlocks : t.memBlocks = s.memBlocks
  bitmap : ∀ b < s.memBlocks, pmmTestBlock t b = pmmTestBlock s b
  counter : t.memUsedBlocks = s.memUsedBlocks

theorem usedSet_eq_of_bitmap {s t : Pmm} (hblocks : t.memBlocks = s.memBlocks)
    (h : ∀ b < s.memBlocks, pmmTestBlock t b = pmmTestBlock s b) : t.usedSet = s.usedSet := by
  ext b
  rw [mem_usedSet, mem_usedSet, hblocks]
  exact and_congr_right fun hb => by rw [h b hb]

theorem bitmap_of_usedSet_eq {s t : Pmm} (hblocks : t.memBlocks = s.memBlocks)
    (h : t.usedSet = s.usedSet) : ∀ b < s.memBlocks, pmmTestBlock t b = pmmTestBlock s b := by
  intro b hb
  have hmem : b ∈ t.usedSet ↔ b ∈ s.usedSet := by rw [h]
  rw [mem_usedSet, mem_usedSet, hblocks, and_iff_right hb, and_iff_right hb] at hmem
  exact Bool.eq_iff_iff.mpr hmem

theorem SameAllocator.refl (s : Pmm) : SameAllocator s s := ⟨rfl, fun _ _ => rfl, rfl⟩

/-- Blocks that were taken are the same only if there are none. -/
theorem sameAllocator_iff {t : Pmm} {B : Finset ℕ} (h : Takes s t B) :
    SameAllocator s t ↔ B = ∅ := by
  constructor
  · intro hsame
    have hset := usedSet_eq_of_bitmap hsame.memBlocks hsame.bitmap
    rw [h.usedSet, Finset.union_eq_left] at hset
    exact Finset.eq_empty_of_forall_notMem fun b hb => h.notMem hb (hset hb)
  · rintro rfl
    have hset : t.usedSet = s.usedSet := h.usedSet.trans (Finset.union_empty _)
    exact ⟨h.memBlocks, bitmap_of_usedSet_eq h.memBlocks hset, h.drift.memUsedBlocks_eq hset⟩

/-! ### A small allocator -/

/-- Eight blocks, the first in use. -/
def pmmEight : Pmm where
  memoryMap := fun _ => 1#32
  memBlocks := 8
  memUsedBlocks := 1
  memBlocks_le := by decide
  memUsedBlocks_lt := by decide

end Rexus
