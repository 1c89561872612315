import Mathlib.Algebra.GroupWithZero.Nat
import Rexus.Mem.Pmm

/-!
# Initialising the allocator

`pmm_init` walks the Multiboot memory map twice. The first pass finds the highest end of an
available region, which fixes the number of blocks and the place of the bitmap: the first block
boundary at or above that end. Then the bitmap is cleared, every block below the *bitmap's* end is
marked as the kernel's, and the second pass marks the blocks of the other entries.

Addresses are 32 bits wide and the sums wrap. The map is given as the list of entries the walk
visits; the place of the bitmap is read and written as memory whether or not there is any.

## Main results

* `pmmTestBlock_pmmInit`, `memUsedBlocks_pmmInit` — the bitmap and the counter after the two passes
* `initSpec_pmmInit_iff` — the maps for which the memory the map offers is what `pmm_init` leaves
  free

## Conventions

What `pmm_init` is for is said in terms of the map alone: `Available` and `Usable` know nothing of
the passes, and the conditions `Backed`, `Offers` and `Wraps` are about the ends of the regions, the
kernel's end and the widths of the words. The end of the kernel image is known to the specification
only; the source has no number for it, and marks everything below the end of the bitmap for the
kernel and the bitmap together.

The boot loader's structure is read as the entries that the walk comes to, by their sizes; that the
walk ends, and that the entries lie where the loader says, is taken from the loader. Without the
flag for the map nothing is initialised and the function returns. What the memory of the bitmap
holds before is an argument, since `memset` clears whole bytes and a last word may keep some of it.
-/

namespace Rexus

open FirstFit Loop Pmm

/-! ### The code -/

/-- `mmap_entry_t`, less the size that only the walk reads. Base and length are numbers here; the
code reads them into words of 32 bits, and each definition reduces them where the code does. -/
structure MmapEntry where
  baseAddr : ℕ
  length : ℕ
  type : ℕ

/-- `multiboot_info_t`: the flags, and the entries from `mmap_addr` on, as the walk over the map
finds them. The other members are not read by the allocator. -/
structure MultibootInfo where
  flags : BitVec 32
  mmap : List MmapEntry

/-- What `pmm_init` leaves: where the bitmap is, its size in bytes, and the allocator. -/
structure PmmBoot where
  memoryMapAddr : ℕ
  memoryMapSize : ℕ
  pmm : Pmm

/-- One entry of the first pass. The end of a region is cut to 32 bits. -/
def raiseMaxAddr (memMaxAddr : ℕ) (e : MmapEntry) : ℕ :=
  if e.type = 1 then
    if memMaxAddr < (e.baseAddr + e.length) % 2 ^ 32 then (e.baseAddr + e.length) % 2 ^ 32
    else memMaxAddr
  else memMaxAddr

/-- `mem_max_addr` after the first pass. -/
def memMaxAddr (mmap : List MmapEntry) : ℕ := mmap.foldl raiseMaxAddr 0

/-- `pmm_memory_map_size`: a bit for each block, in whole bytes. -/
def pmmMemoryMapSize (memBlocks : ℕ) : ℕ :=
  if memBlocks % 8 ≠ 0 then memBlocks / 8 + 1 else memBlocks / 8

/-- The address of `pmm_memory_map`: `(mem_max_addr + BLOCK_ALIGN - 1) & ~(BLOCK_ALIGN - 1)`. -/
def pmmMemoryMapAddr (memMaxAddr : ℕ) : ℕ := (memMaxAddr + 4095) % 2 ^ 32 / 4096 * 4096

/-- `memset(pmm_memory_map, 0, size)`: the last word may keep its high bytes. -/
def clearBytes (m : Bitmap 32) (size : ℕ) : Bitmap 32 := fun w =>
  if 4 * (w + 1) ≤ size then 0#32 else m w >>> (8 * (size - 4 * w)) <<< (8 * (size - 4 * w))

/-- `block_start`. -/
def blockStart (e : MmapEntry) : ℕ := e.baseAddr % 2 ^ 32 / 4096

/-- `block_end`. -/
def blockEnd (e : MmapEntry) : ℕ :=
  (e.baseAddr % 2 ^ 32 + e.length % 2 ^ 32 + 4095) % 2 ^ 32 / 4096

/-- One entry of the second pass. -/
def markReserved (s : Pmm) (e : MmapEntry) : Pmm :=
  if e.type ≠ 1 then
    forWhile (fun i s => i < s.memBlocks) (fun i s => pmmSetBlock s i)
      (blockEnd e - blockStart e) (blockStart e) s
  else s

theorem memMaxAddr_lt (mmap : List MmapEntry) : memMaxAddr mmap < 2 ^ 32 := by
  have hstep : ∀ (top : ℕ) (e : MmapEntry), top < 2 ^ 32 → raiseMaxAddr top e < 2 ^ 32 := by
    intro top e htop
    have hmod : (e.baseAddr + e.length) % 2 ^ 32 < 2 ^ 32 := Nat.mod_lt _ (by decide)
    rw [raiseMaxAddr]
    split_ifs <;> assumption
  have hall : ∀ (mmap : List MmapEntry) (top : ℕ), top < 2 ^ 32 →
      mmap.foldl raiseMaxAddr top < 2 ^ 32 := by
    intro mmap
    induction mmap with
    | nil => exact fun _ h => h
    | cons e mmap ih => exact fun top h => ih _ (hstep top e h)
  exact hall mmap 0 (by decide)

/-- The allocator before any block is marked. -/
def pmmCleared (memory : Bitmap 32) (memMaxAddr : ℕ) (h : memMaxAddr < 2 ^ 32) : Pmm where
  memoryMap := clearBytes memory (pmmMemoryMapSize (memMaxAddr / 4096))
  memBlocks := memMaxAddr / 4096
  memUsedBlocks := 0
  memBlocks_le := by omega
  memUsedBlocks_lt := by decide

/-- `kernel_end`: the end of the bitmap. -/
def kernelEnd (memMaxAddr : ℕ) : ℕ :=
  (pmmMemoryMapAddr memMaxAddr + pmmMemoryMapSize (memMaxAddr / 4096)) % 2 ^ 32

/-- `pmm_init`; `memory` is what the bitmap's memory holds before. Without a memory map from the
boot loader nothing is set up. -/
def pmmInit (memory : Bitmap 32) (mbootInfo : MultibootInfo) : PmmBoot :=
  if mbootInfo.flags &&& 0x40#32 = 0#32 then
    ⟨0, 0, ⟨memory, 0, 0, by decide, by decide⟩⟩
  else
    let top := memMaxAddr mbootInfo.mmap
    let s := pmmCleared memory top (memMaxAddr_lt _)
    let s := forRange (fun i s => pmmSetBlock s i) (kernelEnd top / 4096) 0 s
    ⟨pmmMemoryMapAddr top, pmmMemoryMapSize (top / 4096), mbootInfo.mmap.foldl markReserved s⟩

/-! ### The bitmap and the counter after `pmm_init` -/

/-- `t` is `s` after some marking: the bits of `B` are set as well, and the counter went up once
for each of the `n` markings, repeated ones included. -/
structure Marked (s t : Pmm) (B : ℕ → Prop) (n : ℕ) : Prop where
  memBlocks : t.memBlocks = s.memBlocks
  test : ∀ b, pmmTestBlock t b = true ↔ B b ∨ pmmTestBlock s b = true
  memUsedBlocks : t.memUsedBlocks = (s.memUsedBlocks + n) % 2 ^ 32

namespace Marked

variable {s t u : Pmm} {B C : ℕ → Prop} {m n : ℕ}

theorem refl (s : Pmm) : Marked s s (fun _ => False) 0 :=
  ⟨rfl, fun _ => by rw [false_or], (Nat.mod_eq_of_lt s.memUsedBlocks_lt).symm⟩

theorem congr (h : Marked s t B n) (hB : ∀ b, B b ↔ C b) (hn : n = m) : Marked s t C m :=
  ⟨h.memBlocks, fun b => (h.test b).trans (or_congr_left (hB b)), hn ▸ h.memUsedBlocks⟩

theorem trans (h₁ : Marked s t B m) (h₂ : Marked t u C n) :
    Marked s u (fun b => B b ∨ C b) (m + n) where
  memBlocks := h₂.memBlocks.trans h₁.memBlocks
  test b := by rw [h₂.test, h₁.test, ← or_assoc, or_comm (a := C b)]
  memUsedBlocks := by rw [h₂.memUsedBlocks, h₁.memUsedBlocks]; omega

end Marked

theorem marked_pmmSetBlock (s : Pmm) (b : ℕ) : Marked s (pmmSetBlock s b) (· = b) 1 :=
  ⟨rfl, fun c => by rw [pmmTestBlock_pmmSetBlock, Bool.or_eq_true, decide_eq_true_iff], rfl⟩

/-- The blocks from `a` up to `i` are marked, and `i` has not passed the last one. -/
structure MarkedTo (s : Pmm) (a i : ℕ) (t : Pmm) : Prop where
  marked : Marked s t (fun b => a ≤ b ∧ b < i) (i - a)
  le : i = a ∨ i ≤ s.memBlocks

theorem MarkedTo.step {s t : Pmm} {a i : ℕ} (h : MarkedTo s a i t) (hai : a ≤ i)
    (hi : i < t.memBlocks) : MarkedTo s a (i + 1) (pmmSetBlock t i) where
  marked := (h.marked.trans (marked_pmmSetBlock t i)).congr (fun b => by omega) (by omega)
  le := Or.inr (h.marked.memBlocks ▸ hi)

/-- A loop that marks the blocks from `a` on, as long as they are below `mem_blocks`. -/
theorem marked_forWhile (s : Pmm) (n a : ℕ) :
    Marked s (forWhile (fun i (s : Pmm) => i < s.memBlocks) (fun i s => pmmSetBlock s i) n a s)
      (fun b => a ≤ b ∧ b < min (a + n) s.memBlocks) (min (a + n) s.memBlocks - a) := by
  have hstart : MarkedTo s a a s :=
    ⟨(Marked.refl s).congr (fun b => by simp) (by omega), Or.inl rfl⟩
  obtain ⟨i, hai, hin, ⟨ht, hle⟩, hstop⟩ := forWhile_inv _ _ (MarkedTo s a) hstart
    fun i t hai _ hi ht => ht.step hai (of_decide_eq_true hi)
  have hend : i < a + n → s.memBlocks ≤ i := by
    intro hlt
    have hcond := hstop hlt
    rwa [decide_eq_false_iff_not, ht.memBlocks, not_lt] at hcond
  exact ht.congr (fun b => by omega) (by omega)

theorem marked_forRange (s : Pmm) (n : ℕ) :
    Marked s (forRange (fun i s => pmmSetBlock s i) n 0 s) (· < n) n := by
  have hinv := forRange_inv (fun i s => pmmSetBlock s i) (fun i t => Marked s t (· < i) i)
    (n := n) ((Marked.refl s).congr (fun b => by simp) rfl) fun i t _ _ ht =>
      (ht.trans (marked_pmmSetBlock t i)).congr (fun b => by omega) rfl
  rwa [Nat.zero_add] at hinv

/-- A reserved entry whose blocks, from `block_start` to `block_end`, include `b`. -/
def MmapEntry.Marks (e : MmapEntry) (b : ℕ) : Prop :=
  e.type ≠ 1 ∧ blockStart e ≤ b ∧ b < blockEnd e

/-- How often the second pass marks a block, for one entry. -/
def MmapEntry.markCount (memBlocks : ℕ) (e : MmapEntry) : ℕ :=
  if e.type ≠ 1 then min (blockEnd e) memBlocks - blockStart e else 0

theorem marked_markReserved (s : Pmm) (e : MmapEntry) :
    Marked s (markReserved s e) (fun b => e.Marks b ∧ b < s.memBlocks)
      (e.markCount s.memBlocks) := by
  rw [markReserved, MmapEntry.markCount]
  split_ifs with htype
  · refine (marked_forWhile s _ _).congr (fun b => ?_) (by omega)
    rw [MmapEntry.Marks, and_iff_right htype]
    omega
  · exact (Marked.refl s).congr (fun b => by simp [MmapEntry.Marks, not_not.mp htype]) rfl

theorem marked_foldl_markReserved (mmap : List MmapEntry) (s : Pmm) :
    Marked s (mmap.foldl markReserved s) (fun b => (∃ e ∈ mmap, e.Marks b) ∧ b < s.memBlocks)
      (mmap.map (MmapEntry.markCount s.memBlocks)).sum := by
  induction mmap generalizing s with
  | nil => exact (Marked.refl s).congr (fun b => by simp) rfl
  | cons e mmap ih =>
    have he := marked_markReserved s e
    have hrest := ih (markReserved s e)
    rw [he.memBlocks] at hrest
    refine (he.trans hrest).congr (fun b => ?_) (by rw [List.map_cons, List.sum_cons])
    simp only [List.mem_cons, exists_eq_or_imp]
    tauto

theorem pmmMemoryMapSize_ge (n : ℕ) : n ≤ 8 * pmmMemoryMapSize n := by
  rw [pmmMemoryMapSize]
  split_ifs <;> omega

theorem test_clearBytes (m : Bitmap 32) {size b : ℕ} (h : b < 8 * size) :
    Bitmap.test (clearBytes m size) b = false := by
  rw [Bitmap.test_eq_getLsbD (by decide), clearBytes]
  split_ifs with hw
  · exact BitVec.getLsbD_zero
  · -- the bit lies in the cleared low bytes of the last word
    rw [BitVec.getLsbD_shiftLeft]
    have hlow : b % 32 < 8 * (size - 4 * (b / 32)) := by omega
    simp [hlow]

theorem pmmTestBlock_pmmCleared (memory : Bitmap 32) {top b : ℕ} (h : top < 2 ^ 32)
    (hb : b < top / 4096) : pmmTestBlock (pmmCleared memory top h) b = false :=
  test_clearBytes memory (lt_of_lt_of_le hb (pmmMemoryMapSize_ge _))

/-! ### The top of available memory, and the place of the bitmap

A region that ends at 4 GiB exactly counts for nothing in the top, since its end is cut to `0`. -/

/-- The highest end of an available region, ends being 32 bits wide. -/
def availableTop : List MmapEntry → ℕ
  | [] => 0
  | e :: mmap =>
    if e.type = 1 then max ((e.baseAddr + e.length) % 2 ^ 32) (availableTop mmap)
    else availableTop mmap

/-- Where the bitmap goes: the first block boundary from the top on, cut to 32 bits. -/
def bitmapStart (top : ℕ) : ℕ := (top + 4095) / 4096 * 4096 % 2 ^ 32

/-- One bit for each whole block below the top, in bytes. -/
def bitmapBytes (top : ℕ) : ℕ := (top / 4096 + 7) / 8

/-- Where it ends. -/
def bitmapEnd (top : ℕ) : ℕ := (bitmapStart top + bitmapBytes top) % 2 ^ 32

theorem memMaxAddr_eq_availableTop (mmap : List MmapEntry) :
    memMaxAddr mmap = availableTop mmap := by
  have hfold : ∀ (mmap : List MmapEntry) (top : ℕ),
      mmap.foldl raiseMaxAddr top = max top (availableTop mmap) := by
    intro mmap
    induction mmap with
    | nil => exact fun top => (Nat.max_zero top).symm
    | cons e mmap ih =>
      intro top
      rw [List.foldl_cons, ih, raiseMaxAddr, availableTop]
      split_ifs <;> omega
  rw [memMaxAddr, hfold, Nat.zero_max]

theorem availableTop_lt (mmap : List MmapEntry) : availableTop mmap < 2 ^ 32 :=
  memMaxAddr_eq_availableTop mmap ▸ memMaxAddr_lt mmap

theorem regionEnd_le_availableTop {mmap : List MmapEntry} {e : MmapEntry} (he : e ∈ mmap)
    (htype : e.type = 1) : (e.baseAddr + e.length) % 2 ^ 32 ≤ availableTop mmap := by
  induction mmap with
  | nil => exact absurd he List.not_mem_nil
  | cons e' mmap ih =>
    rw [availableTop]
    rcases List.mem_cons.mp he with rfl | he
    · rw [if_pos htype]
      exact le_max_left _ _
    · have hle := ih he
      split_ifs
      · exact hle.trans (le_max_right _ _)
      · exact hle

theorem pmmMemoryMapAddr_eq (top : ℕ) : pmmMemoryMapAddr top = bitmapStart top := by
  rw [pmmMemoryMapAddr, bitmapStart]
  omega

theorem pmmMemoryMapSize_eq (top : ℕ) : pmmMemoryMapSize (top / 4096) = bitmapBytes top := by
  rw [pmmMemoryMapSize, bitmapBytes]
  split_ifs <;> omega

theorem kernelEnd_eq (top : ℕ) : kernelEnd top = bitmapEnd top := by
  rw [kernelEnd, bitmapEnd, pmmMemoryMapAddr_eq, pmmMemoryMapSize_eq]

section Init

variable {mbootInfo : MultibootInfo}

theorem marked_pmmInit (memory : Bitmap 32) (hflag : mbootInfo.flags &&& 0x40#32 ≠ 0#32) :
    Marked (pmmCleared memory (memMaxAddr mbootInfo.mmap) (memMaxAddr_lt _))
      (pmmInit memory mbootInfo).pmm
      (fun b => b < bitmapEnd (availableTop mbootInfo.mmap) / 4096 ∨
        (∃ e ∈ mbootInfo.mmap, e.Marks b) ∧ b < availableTop mbootInfo.mmap / 4096)
      (bitmapEnd (availableTop mbootInfo.mmap) / 4096 +
        (mbootInfo.mmap.map (MmapEntry.markCount (availableTop mbootInfo.mmap / 4096))).sum) := by
  have hkernel := marked_forRange
    (pmmCleared memory (memMaxAddr mbootInfo.mmap) (memMaxAddr_lt _))
    (kernelEnd (memMaxAddr mbootInfo.mmap) / 4096)
  have hreserved := marked_foldl_markReserved mbootInfo.mmap (forRange (fun i s => pmmSetBlock s i)
    (kernelEnd (memMaxAddr mbootInfo.mmap) / 4096) 0
    (pmmCleared memory (memMaxAddr mbootInfo.mmap) (memMaxAddr_lt _)))
  rw [hkernel.memBlocks] at hreserved
  rw [pmmInit, if_neg hflag, ← memMaxAddr_eq_availableTop, ← kernelEnd_eq]
  exact hkernel.trans hreserved

theorem memBlocks_pmmInit (memory : Bitmap 32) (hflag : mbootInfo.flags &&& 0x40#32 ≠ 0#32) :
    (pmmInit memory mbootInfo).pmm.memBlocks = availableTop mbootInfo.mmap / 4096 := by
  rw [(marked_pmmInit memory hflag).memBlocks, ← memMaxAddr_eq_availableTop]
  rfl

theorem memoryMapAddr_pmmInit (memory : Bitmap 32) (hflag : mbootInfo.flags &&& 0x40#32 ≠ 0#32) :
    (pmmInit memory mbootInfo).memoryMapAddr = bitmapStart (availableTop mbootInfo.mmap) := by
  rw [pmmInit, if_neg hflag, ← memMaxAddr_eq_availableTop, ← pmmMemoryMapAddr_eq]

theorem memoryMapSize_pmmInit (memory : Bitmap 32) (hflag : mbootInfo.flags &&& 0x40#32 ≠ 0#32) :
    (pmmInit memory mbootInfo).memoryMapSize = bitmapBytes (availableTop mbootInfo.mmap) := by
  rw [pmmInit, if_neg hflag, ← memMaxAddr_eq_availableTop, ← pmmMemoryMapSize_eq]

/-- **The bitmap after `pmm_init`**: a block is marked if it lies below the bitmap's end, or if an
entry that is not available memory covers it. -/
theorem pmmTestBlock_pmmInit (memory : Bitmap 32) (hflag : mbootInfo.flags &&& 0x40#32 ≠ 0#32)
    {b : ℕ} (hb : b < availableTop mbootInfo.mmap / 4096) :
    pmmTestBlock (pmmInit memory mbootInfo).pmm b = true ↔
      b < bitmapEnd (availableTop mbootInfo.mmap) / 4096 ∨ ∃ e ∈ mbootInfo.mmap, e.Marks b := by
  rw [(marked_pmmInit memory hflag).test,
    pmmTestBlock_pmmCleared memory _ (by rwa [memMaxAddr_eq_availableTop])]
  simp [hb]

/-- **The counter after `pmm_init`**: a block covered twice is counted twice. -/
theorem memUsedBlocks_pmmInit (memory : Bitmap 32) (hflag : mbootInfo.flags &&& 0x40#32 ≠ 0#32) :
    (pmmInit memory mbootInfo).pmm.memUsedBlocks =
      (bitmapEnd (availableTop mbootInfo.mmap) / 4096 +
        (mbootInfo.mmap.map (MmapEntry.markCount (availableTop mbootInfo.mmap / 4096))).sum) %
          2 ^ 32 := by
  rw [(marked_pmmInit memory hflag).memUsedBlocks]
  exact congrArg (· % 2 ^ 32) (Nat.zero_add _)

end Init

/-! ### What the map offers -/

/-- The addresses of a region. -/
def MmapEntry.Covers (e : MmapEntry) (a : ℕ) : Prop :=
  e.baseAddr ≤ a ∧ a < e.baseAddr + e.length

/-- The address `a` is memory that some entry calls available. -/
def Available (mmap : List MmapEntry) (a : ℕ) : Prop := ∃ e ∈ mmap, e.type = 1 ∧ e.Covers a

/-- A block the allocator should have: wholly inside an available region, above the kernel image,
in no reserved entry, and not under the bitmap of `size` bytes at `addr`. -/
structure Usable (imageEnd addr size : ℕ) (mmap : List MmapEntry) (b : ℕ) : Prop where
  available : ∃ e ∈ mmap, e.type = 1 ∧ ∀ a, a / 4096 = b → e.Covers a
  kernel : imageEnd ≤ b * 4096
  reserved : ∀ e ∈ mmap, e.type ≠ 1 → ∀ a, a / 4096 = b → ¬ e.Covers a
  bitmap : ∀ i < size, (addr + i) % 2 ^ 32 / 4096 ≠ b

/-- What `pmm_init` is for: usable blocks are free, the bitmap is in available memory, and the
allocator has a block to give if there is a usable one. -/
structure InitSpec (imageEnd : ℕ) (mmap : List MmapEntry) (boot : PmmBoot) : Prop where
  free : ∀ b < boot.pmm.memBlocks,
    Usable imageEnd boot.memoryMapAddr boot.memoryMapSize mmap b → pmmTestBlock boot.pmm b = false
  backed : ∀ i < boot.memoryMapSize, Available mmap ((boot.memoryMapAddr + i) % 2 ^ 32)
  alloc : (∃ b < boot.pmm.memBlocks,
    Usable imageEnd boot.memoryMapAddr boot.memoryMapSize mmap b) → (pmmAllocBlock boot.pmm).1 ≠ 0

/-! ### When it delivers that

The conditions are about the map alone: its top, the place that gives the bitmap, its entries. -/

/-- Available memory at the first block boundary from the top on. Beyond the top there is only
memory that reaches 4 GiB exactly; a bitmap that would cross 4 GiB goes on at address `0`. -/
def Backed (mmap : List MmapEntry) (top : ℕ) : Prop :=
  if 2 ^ 32 - 4096 < top then ∀ a < 131072, Available mmap a
  else (∃ e ∈ mmap, e.type = 1 ∧ e.baseAddr + e.length = 2 ^ 32 ∧
      e.baseAddr ≤ bitmapStart top) ∧
    ∀ a, a + 2 ^ 32 < bitmapStart top + bitmapBytes top → Available mmap a

/-- A block of the map that is usable, the bitmap being where the top puts it. -/
def Offers (imageEnd : ℕ) (mmap : List MmapEntry) (b : ℕ) : Prop :=
  b < availableTop mmap / 4096 ∧ Usable imageEnd (bitmapStart (availableTop mmap))
    (bitmapBytes (availableTop mmap)) mmap b

/-- The maps whose usable blocks do not all end up marked or unreachable: the top is so close to
4 GiB that the end of the bitmap wraps, no empty reserved entry sits inside a usable block, the
entries do not overlap so much that the counter reaches the number of blocks, and block `0`, whose
address is the null pointer, is marked. -/
structure Wraps (imageEnd : ℕ) (mmap : List MmapEntry) : Prop where
  top : 2 ^ 32 - 131072 < availableTop mmap
  noEmpty : ∀ b, Offers imageEnd mmap b → ∀ e ∈ mmap, e.type ≠ 1 → e.length = 0 →
    e.baseAddr / 4096 = b → e.baseAddr % 4096 = 0
  count : (bitmapEnd (availableTop mmap) / 4096 +
    (mmap.map (MmapEntry.markCount (availableTop mmap / 4096))).sum) % 2 ^ 32 <
      availableTop mmap / 4096
  zero : 4096 ≤ bitmapEnd (availableTop mmap) ∨ ∃ e ∈ mmap, e.Marks 0

/-- The maps for which `pmm_init` does what it is for. -/
def InitCondition (imageEnd : ℕ) (mmap : List MmapEntry) : Prop :=
  availableTop mmap < 4096 ∨
    (Backed mmap (availableTop mmap) ∧
      ((∀ b, ¬ Offers imageEnd mmap b) ∨ Wraps imageEnd mmap))

section Layout

variable {top : ℕ}

/-- Far enough below 4 GiB, the bitmap is above the top and its end does not wrap. -/
theorem bitmapEnd_of_le (h : top ≤ 2 ^ 32 - 131072) : top / 4096 ≤ bitmapEnd top / 4096 := by
  have hsize : bitmapBytes top ≤ 131068 := by
    rw [bitmapBytes]
    omega
  have haddr : top ≤ bitmapStart top ∧ bitmapStart top ≤ 2 ^ 32 - 131072 := by
    rw [bitmapStart]
    omega
  rw [bitmapEnd, Nat.mod_eq_of_lt (by omega)]
  exact Nat.div_le_div_right (haddr.1.trans (Nat.le_add_right _ _))

/-- Close to 4 GiB the bitmap reaches beyond it, and takes all that lies below its wrapped end. -/
theorem bitmap_of_lt_bitmapEnd (htop : top < 2 ^ 32) (h : 2 ^ 32 - 131072 < top) {a : ℕ}
    (ha : a < bitmapEnd top) :
    ∃ i < bitmapBytes top, (bitmapStart top + i) % 2 ^ 32 = a := by
  have hsize : 131068 ≤ bitmapBytes top ∧ bitmapBytes top ≤ 131072 := by
    rw [bitmapBytes]
    omega
  rw [bitmapEnd] at ha
  by_cases hlast : 2 ^ 32 - 4096 < top
  · have haddr : bitmapStart top = 0 := by
      rw [bitmapStart]
      omega
    rw [haddr] at ha ⊢
    exact ⟨a, by omega, by omega⟩
  · have haddr : 2 ^ 32 - 126976 ≤ bitmapStart top ∧ bitmapStart top < 2 ^ 32 := by
      rw [bitmapStart]
      omega
    exact ⟨2 ^ 32 - bitmapStart top + a, by omega, by omega⟩

end Layout

/-- A reserved entry marks a block it does not overlap only if it is empty and starts inside. -/
theorem marks_iff_of_not_covers {e : MmapEntry} {b : ℕ} (hbelow : e.baseAddr + e.length ≤ 2 ^ 32)
    (hb : b < 2 ^ 20 - 1) (htype : e.type ≠ 1) (hno : ∀ a, a / 4096 = b → ¬ e.Covers a) :
    e.Marks b ↔ e.length = 0 ∧ e.baseAddr / 4096 = b ∧ e.baseAddr % 4096 ≠ 0 := by
  rw [MmapEntry.Marks, and_iff_right htype, blockStart, blockEnd]
  rcases Nat.eq_zero_or_pos e.length with hlen | hlen
  · rw [hlen]
    omega
  · -- a marked block would hold an address of the region: its first, or the block's own first
    constructor
    · rintro ⟨hstart, hend⟩
      exact absurd ⟨le_max_left _ _, by omega⟩ (hno (max e.baseAddr (b * 4096)) (by omega))
    · rintro ⟨hzero, -⟩
      omega

/-- With a free block at hand, an allocation fails if the counter is full or block `0` is free. -/
theorem pmmAllocBlock_ne_zero_iff {s : Pmm} {b : ℕ} (hfree : FreeRun s 1 b) :
    (pmmAllocBlock s).1 ≠ 0 ↔ s.memUsedBlocks < s.memBlocks ∧ ¬ FreeRun s 1 0 := by
  rcases pmmAllocBlock_cases s with ⟨h, hwhy⟩ | ⟨c, h, hlt, hrun, hleast⟩
  · rw [h]
    refine ⟨fun hne => absurd rfl hne, ?_⟩
    rintro ⟨hlt, -⟩
    rcases hwhy with hfull | hno
    · omega
    · exact absurd hfree (hno b)
  · rw [h]
    constructor
    · intro hne
      refine ⟨hlt, fun h0 => hne ?_⟩
      have hc := hleast 0 h0
      rw [Nat.le_zero.mp hc, Nat.zero_mul]
    · rintro ⟨-, h0⟩ hz
      obtain rfl : c = 0 := (Nat.mul_eq_zero.mp hz).resolve_right (by decide)
      exact h0 hrun

section Spec

variable {memory : Bitmap 32} {mbootInfo : MultibootInfo} {imageEnd : ℕ}

/-- The place of the bitmap is available memory exactly if the map backs it. -/
theorem backed_iff {mmap : List MmapEntry}
    (hbelow : ∀ e ∈ mmap, e.baseAddr + e.length ≤ 2 ^ 32) (htop : 4096 ≤ availableTop mmap) :
    (∀ i < bitmapBytes (availableTop mmap),
        Available mmap ((bitmapStart (availableTop mmap) + i) % 2 ^ 32)) ↔
      Backed mmap (availableTop mmap) := by
  have hlt := availableTop_lt mmap
  have hsize : 0 < bitmapBytes (availableTop mmap) := by
    rw [bitmapBytes]
    omega
  rw [Backed]
  split_ifs with hlast
  · have haddr : bitmapStart (availableTop mmap) = 0 := by
      rw [bitmapStart]
      omega
    have hfull : bitmapBytes (availableTop mmap) = 131072 := by
      rw [bitmapBytes]
      omega
    rw [haddr, hfull]
    refine forall₂_congr fun i hi => ?_
    rw [Nat.zero_add, Nat.mod_eq_of_lt (by omega)]
  · have haddr : availableTop mmap ≤ bitmapStart (availableTop mmap) ∧
        bitmapStart (availableTop mmap) < 2 ^ 32 := by
      rw [bitmapStart]
      omega
    constructor
    · intro hall
      refine ⟨?_, fun a ha => ?_⟩
      · -- the region of the bitmap's first byte ends above the top, so its end was cut to zero
        obtain ⟨e, he, htype, hcov⟩ := hall 0 hsize
        have hend := regionEnd_le_availableTop he htype
        have hle := hbelow e he
        rw [Nat.add_zero, Nat.mod_eq_of_lt haddr.2] at hcov
        obtain ⟨hfirst, hlast⟩ := hcov
        exact ⟨e, he, htype, by omega, hfirst⟩
      · have hav := hall (2 ^ 32 - bitmapStart (availableTop mmap) + a) (by omega)
        rwa [show (bitmapStart (availableTop mmap) +
          (2 ^ 32 - bitmapStart (availableTop mmap) + a)) = a + 2 ^ 32 by omega,
          Nat.add_mod_right, Nat.mod_eq_of_lt] at hav
        have hsmall : bitmapBytes (availableTop mmap) ≤ 131072 := by
          rw [bitmapBytes]
          omega
        omega
    · rintro ⟨⟨e, he, htype, hend, hfirst⟩, hwrap⟩ i hi
      by_cases hcross : bitmapStart (availableTop mmap) + i < 2 ^ 32
      · rw [Nat.mod_eq_of_lt hcross]
        exact ⟨e, he, htype, by omega, by omega⟩
      · refine hwrap _ ?_
        omega

/-- The specification on the map alone. -/
theorem initSpec_pmmInit (memory : Bitmap 32) (hflag : mbootInfo.flags &&& 0x40#32 ≠ 0#32) :
    InitSpec imageEnd mbootInfo.mmap (pmmInit memory mbootInfo) ↔
      (∀ b, Offers imageEnd mbootInfo.mmap b →
        ¬ (b < bitmapEnd (availableTop mbootInfo.mmap) / 4096 ∨
          ∃ e ∈ mbootInfo.mmap, e.Marks b)) ∧
      (∀ i < bitmapBytes (availableTop mbootInfo.mmap),
        Available mbootInfo.mmap
          ((bitmapStart (availableTop mbootInfo.mmap) + i) % 2 ^ 32)) ∧
      ((∃ b, Offers imageEnd mbootInfo.mmap b) →
        (pmmAllocBlock (pmmInit memory mbootInfo).pmm).1 ≠ 0) := by
  have hfree : ∀ b, Offers imageEnd mbootInfo.mmap b →
      (pmmTestBlock (pmmInit memory mbootInfo).pmm b = false ↔
        ¬ (b < bitmapEnd (availableTop mbootInfo.mmap) / 4096 ∨
          ∃ e ∈ mbootInfo.mmap, e.Marks b)) := by
    rintro b ⟨hb, -⟩
    rw [← pmmTestBlock_pmmInit memory hflag hb, Bool.not_eq_true]
  have hblocks := memBlocks_pmmInit memory hflag
  have haddr := memoryMapAddr_pmmInit memory hflag
  have hsize := memoryMapSize_pmmInit memory hflag
  constructor
  · rintro ⟨hf, hb, ha⟩
    rw [hblocks, haddr, hsize] at hf ha
    rw [haddr, hsize] at hb
    exact ⟨fun b h => (hfree b h).mp (hf b h.1 h.2), hb, ha⟩
  · rintro ⟨hf, hb, ha⟩
    constructor <;> rw [haddr, hsize]
    · rw [hblocks]
      exact fun b hlt h => (hfree b ⟨hlt, h⟩).mpr (hf b ⟨hlt, h⟩)
    · exact hb
    · rw [hblocks]
      exact ha

/-- Below the last 128 KiB every usable block is marked with the kernel's. -/
theorem not_initSpec_of_offers (mbootInfo : MultibootInfo)
    (hflag : mbootInfo.flags &&& 0x40#32 ≠ 0#32)
    (htop : availableTop mbootInfo.mmap ≤ 2 ^ 32 - 131072) {b : ℕ}
    (hb : Offers imageEnd mbootInfo.mmap b) :
    ¬ InitSpec imageEnd mbootInfo.mmap (pmmInit memory mbootInfo) := fun h =>
  ((initSpec_pmmInit memory hflag).mp h).1 b hb (Or.inl (hb.1.trans_le (bitmapEnd_of_le htop)))

/-- Near 4 GiB the loop marks only blocks that hold a part of the bitmap. -/
theorem bitmapEnd_le_of_offers {mmap : List MmapEntry}
    (htop : 2 ^ 32 - 131072 < availableTop mmap) {b : ℕ} (hb : Offers imageEnd mmap b) :
    ¬ b < bitmapEnd (availableTop mmap) / 4096 := by
  intro hlt
  obtain ⟨i, hi, haddr⟩ := bitmap_of_lt_bitmapEnd (availableTop_lt mmap) htop
    (a := b * 4096) (by omega)
  exact hb.2.bitmap i hi (by rw [haddr, Nat.mul_div_cancel _ (by decide)])

/-- There, usable blocks are free unless an empty reserved entry sits inside one. -/
theorem noEmpty_iff {mmap : List MmapEntry}
    (hbelow : ∀ e ∈ mmap, e.baseAddr + e.length ≤ 2 ^ 32)
    (htop : 2 ^ 32 - 131072 < availableTop mmap) :
    (∀ b, Offers imageEnd mmap b →
        ¬ (b < bitmapEnd (availableTop mmap) / 4096 ∨ ∃ e ∈ mmap, e.Marks b)) ↔
      ∀ b, Offers imageEnd mmap b → ∀ e ∈ mmap, e.type ≠ 1 → e.length = 0 →
        e.baseAddr / 4096 = b → e.baseAddr % 4096 = 0 := by
  refine forall₂_congr fun b hb => ?_
  have hlt : b < 2 ^ 20 - 1 := by
    have := availableTop_lt mmap
    have := hb.1
    omega
  rw [or_iff_right (bitmapEnd_le_of_offers htop hb), not_exists]
  refine forall_congr' fun e => ?_
  rw [not_and]
  refine forall_congr' fun he => ?_
  by_cases htype : e.type = 1
  · simp [MmapEntry.Marks, htype]
  · rw [marks_iff_of_not_covers (hbelow e he) hlt htype (hb.2.reserved e he htype)]
    tauto

/-- With a usable block free, an allocation succeeds if the counter has room and block `0` is
marked. -/
theorem alloc_iff (hflag : mbootInfo.flags &&& 0x40#32 ≠ 0#32) {b : ℕ}
    (hb : Offers imageEnd mbootInfo.mmap b)
    (hfree : ¬ (b < bitmapEnd (availableTop mbootInfo.mmap) / 4096 ∨
      ∃ e ∈ mbootInfo.mmap, e.Marks b)) :
    (pmmAllocBlock (pmmInit memory mbootInfo).pmm).1 ≠ 0 ↔
      (bitmapEnd (availableTop mbootInfo.mmap) / 4096 +
        (mbootInfo.mmap.map (MmapEntry.markCount
          (availableTop mbootInfo.mmap / 4096))).sum) % 2 ^ 32 <
            availableTop mbootInfo.mmap / 4096 ∧
      (4096 ≤ bitmapEnd (availableTop mbootInfo.mmap) ∨ ∃ e ∈ mbootInfo.mmap, e.Marks 0) := by
  have hlt := hb.1
  have hrun : ∀ c < availableTop mbootInfo.mmap / 4096,
      (FreeRun (pmmInit memory mbootInfo).pmm 1 c ↔
        ¬ (c < bitmapEnd (availableTop mbootInfo.mmap) / 4096 ∨
          ∃ e ∈ mbootInfo.mmap, e.Marks c)) := by
    intro c hc
    have hc' : c < (pmmInit memory mbootInfo).pmm.memBlocks := by
      rwa [memBlocks_pmmInit memory hflag]
    rw [freeRun_one, not_mem_usedSet hc', ← pmmTestBlock_pmmInit memory hflag hc,
      Bool.not_eq_true, and_iff_right hc']
  rw [pmmAllocBlock_ne_zero_iff ((hrun b hlt).mpr hfree), hrun 0 (by omega), not_not,
    memUsedBlocks_pmmInit memory hflag, memBlocks_pmmInit memory hflag]
  refine and_congr_right fun _ => or_congr_left ?_
  omega

/-- **When `pmm_init` does what it is for**: exactly on the maps of `InitCondition`. -/
theorem initSpec_pmmInit_iff (memory : Bitmap 32) (mbootInfo : MultibootInfo) (imageEnd : ℕ)
    (hflag : mbootInfo.flags &&& 0x40#32 ≠ 0#32)
    (hbelow : ∀ e ∈ mbootInfo.mmap, e.baseAddr + e.length ≤ 2 ^ 32) :
    InitSpec imageEnd mbootInfo.mmap (pmmInit memory mbootInfo) ↔
      InitCondition imageEnd mbootInfo.mmap := by
  rw [InitCondition]
  rcases Nat.lt_or_ge (availableTop mbootInfo.mmap) 4096 with hsmall | hlarge
  · -- no block at all, and an empty bitmap
    have hno : ∀ b, ¬ Offers imageEnd mbootInfo.mmap b := fun b hb => by
      have := hb.1
      omega
    have hsize : bitmapBytes (availableTop mbootInfo.mmap) = 0 := by
      rw [bitmapBytes]
      omega
    rw [initSpec_pmmInit memory hflag, hsize]
    exact iff_of_true ⟨fun b hb => absurd hb (hno b), fun i hi => absurd hi (Nat.not_lt_zero i),
      fun ⟨b, hb⟩ => absurd hb (hno b)⟩ (Or.inl hsmall)
  rw [or_iff_right (Nat.not_lt.mpr hlarge)]
  by_cases hno : ∀ b, ¬ Offers imageEnd mbootInfo.mmap b
  · rw [initSpec_pmmInit memory hflag, backed_iff hbelow hlarge]
    exact ⟨fun h => ⟨h.2.1, Or.inl hno⟩,
      fun h => ⟨fun b hb => absurd hb (hno b), h.1, fun ⟨b, hb⟩ => absurd hb (hno b)⟩⟩
  rw [or_iff_right hno]
  obtain ⟨b, hb⟩ := not_forall_not.mp hno
  rcases le_or_gt (availableTop mbootInfo.mmap) (2 ^ 32 - 131072) with hlow | hhigh
  · exact iff_of_false (not_initSpec_of_offers mbootInfo hflag hlow hb)
      fun h => absurd h.2.top (Nat.not_lt.mpr hlow)
  rw [initSpec_pmmInit memory hflag, backed_iff hbelow hlarge]
  constructor
  · rintro ⟨hfree, hbacked, halloc⟩
    obtain ⟨hcount, hzero⟩ := (alloc_iff hflag hb (hfree b hb)).mp (halloc ⟨b, hb⟩)
    exact ⟨hbacked, hhigh, (noEmpty_iff hbelow hhigh).mp hfree, hcount, hzero⟩
  · rintro ⟨hbacked, hwraps⟩
    have hfree := (noEmpty_iff hbelow hhigh).mpr hwraps.noEmpty
    exact ⟨hfree, hbacked,
      fun _ => (alloc_iff hflag hb (hfree b hb)).mpr ⟨hwraps.count, hwraps.zero⟩⟩

end Spec

/-! ### Two maps -/

/-- The map of a machine with 128 MiB. -/
def mmap128M : List MmapEntry :=
  [⟨0, 0x9FC00, 1⟩, ⟨0x9FC00, 0x400, 2⟩, ⟨0xF0000, 0x10000, 2⟩, ⟨0x100000, 0x7EE0000, 1⟩,
    ⟨0x7FE0000, 0x20000, 2⟩, ⟨0xFFFC0000, 0x40000, 2⟩]

/-- On that map, with a kernel image that ends at 2 MiB, block `0x300` is usable but marked. -/
theorem not_initSpec_mmap128M :
    ¬ InitSpec 0x200000 mmap128M (pmmInit (fun _ => 0#32) ⟨0x40#32, mmap128M⟩) := by
  have hb : Offers 0x200000 mmap128M 0x300 := by
    refine ⟨by decide, ⟨⟨0x100000, 0x7EE0000, 1⟩, by simp [mmap128M], rfl, fun a ha => ?_⟩,
      by decide, ?_, fun i hi => ?_⟩
    · exact ⟨by dsimp only; omega, by dsimp only; omega⟩
    · simp only [mmap128M, List.mem_cons, List.not_mem_nil, or_false, MmapEntry.Covers]
      rintro e (rfl | rfl | rfl | rfl | rfl | rfl) htype a ha <;> dsimp only at htype ⊢ <;> omega
    · have hsize : bitmapBytes (availableTop mmap128M) = 0xFFC := by decide
      have haddr : bitmapStart (availableTop mmap128M) = 0x7FE0000 := by decide
      omega
  exact not_initSpec_of_offers ⟨0x40#32, mmap128M⟩ (by decide) (by decide) hb

/-- All but the last byte of 4 GiB available: the bitmap goes to address `0`, and the blocks it
leaves are free. -/
theorem initSpec_pmmInit_full :
    InitSpec 0x200000 [⟨0, 0xFFFFFFFF, 1⟩]
      (pmmInit (fun _ => 0#32) ⟨0x40#32, [⟨0, 0xFFFFFFFF, 1⟩]⟩) := by
  refine (initSpec_pmmInit_iff _ ⟨0x40#32, [⟨0, 0xFFFFFFFF, 1⟩]⟩ _ (by decide) (by simp)).mpr
    (Or.inr ⟨(if_pos (by decide)).mpr fun a ha => ?_,
      Or.inr ⟨by decide, ?_, by decide, Or.inl (by decide)⟩⟩)
  · exact ⟨_, List.mem_singleton_self _, rfl, Nat.zero_le _, by dsimp only; omega⟩
  · simp

end Rexus
