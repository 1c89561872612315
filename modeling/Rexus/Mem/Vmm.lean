import Rexus.Lib.AlignedWord
import Rexus.Mem.Pmm

/-!
# The virtual memory manager

`mem/vmm.c`: two-level page tables. A directory and a table are blocks of 1024 words; an entry
keeps the address of a block and, in the low twelve bits that alignment leaves free, its flags.
Physical memory is addressed by its own addresses, as everywhere in this code, except for the source
of the copy in `vmm_clone_directory`, which is a virtual address and goes through the tables of the
current directory. The translation caches of the processor, which the code flushes, are left out.

## What a proof uses

* `Mem.word_setWord`, `Mem.word_clearPage` — writes and what they leave alone
* `vmmCreateDirectory_cases`, `vmmGetPageTable_cases` — everything a lookup can do
* `usedSet_vmmFreeDirectory`, `gives_vmmFreeDirectory` — what a directory gives back

## Conventions

Memory is a map from word numbers to words of 32 bits, so that an entry is read and written as a
whole; pages and directories are at physical addresses that are multiples of 4096, and a pointer
that is not is rounded down where the source does so with a mask and nowhere else. The two memory
managers are one state, as the second allocates from the first.

A directory of zero is the null pointer, which `vmm_create_directory` and `vmm_clone_directory`
return when there is no memory. `none` is a halt: the copy of a page in a clone reads through the
current directory, and an address that it does not map is a page fault, on which the kernel stops.
The loops run over the 1024 entries of a directory or of a table, so no fuel is needed. Whether
paging has been turned on is not modelled, and neither is what the kernel's own code and data would
do to the pages; a store to an entry is visible to the next lookup.
-/

namespace Rexus

open AlignedWord Loop Pmm

/-- The state of both memory managers: the block allocator, physical memory by 32-bit words, and
`current_directory`. -/
structure Mem where
  pmm : Pmm
  ram : ℕ → BitVec 32
  currentDirectory : ℕ

/-! ### Entries -/

/-- `VMM_PRESENT`. -/
def vmmPresent : BitVec 32 := 0x01#32

/-- `VMM_WRITABLE`. -/
def vmmWritable : BitVec 32 := 0x02#32

/-- `VMM_USER`. -/
def vmmUser : BitVec 32 := 0x04#32

/-- `entry & VMM_PRESENT`. -/
def present (e : BitVec 32) : Bool := e &&& vmmPresent != 0#32

/-- `entry & VMM_WRITABLE`. -/
def writable (e : BitVec 32) : Bool := e &&& vmmWritable != 0#32

/-- `entry & ~0xFFF`, as a pointer. -/
def tableOf (e : BitVec 32) : ℕ := (e &&& ~~~0xFFF#32).toNat

/-- `PAGE_DIR_INDEX`. -/
def pageDirIndex (virt : BitVec 32) : ℕ := ((virt >>> 22) &&& 0x3FF#32).toNat

/-- `PAGE_TABLE_INDEX`. -/
def pageTableIndex (virt : BitVec 32) : ℕ := ((virt >>> 12) &&& 0x3FF#32).toNat

/-- `PAGE_OFFSET`. -/
def pageOffset (virt : BitVec 32) : BitVec 32 := virt &&& 0xFFF#32

/-- A flag is one bit of the entry. -/
theorem present_eq (e : BitVec 32) : present e = e.getLsbD 0 := by
  rw [present, show vmmPresent = 1#32 <<< 0 by decide]
  exact BitField.and_bit_bne_zero (by decide) e

theorem getLsbD_pack_of_lt {b i : ℕ} {f : BitVec 32} (hi : i < 12) :
    (pack 12 b f).getLsbD i = f.getLsbD i := by
  rw [pack, BitVec.getLsbD_or, getLsbD_aligned, decide_eq_false (Nat.not_le.mpr hi)]
  simp

@[simp] theorem present_pack (b : ℕ) (f : BitVec 32) : present (pack 12 b f) = present f := by
  rw [present_eq, present_eq, getLsbD_pack_of_lt (by decide)]

theorem tableOf_pack {b : ℕ} {f : BitVec 32} (hb : b < 2 ^ 20) (hf : f &&& 0xFFF#32 = f) :
    tableOf (pack 12 b f) = b * 4096 := by
  rw [tableOf, show (0xFFF#32) = lowMask 32 12 from rfl, high_pack hf, BitVec.toNat_ofNat]
  exact Nat.mod_eq_of_lt (by omega)

theorem tableOf_eq (e : BitVec 32) : tableOf e = e.toNat / 4096 * 4096 := toNat_high e 12

theorem tableOf_mod (e : BitVec 32) : tableOf e % 4096 = 0 := by
  rw [tableOf_eq]
  exact Nat.mul_mod_left _ _

/-- The entry `vmm_get_page_table` makes for a new table. -/
theorem tableEntry_eq (b : ℕ) :
    BitVec.ofNat 32 (b * 4096) ||| vmmPresent ||| vmmWritable ||| vmmUser = pack 12 b 7#32 := by
  rw [BitVec.or_assoc, BitVec.or_assoc]
  rfl

/-! ### Words and pages -/

namespace Mem

/-- `p->entries[i]`. -/
def word (m : Mem) (p i : ℕ) : BitVec 32 := m.ram (p / 4 + i)

/-- `p->entries[i] = v`. -/
def setWord (m : Mem) (p i : ℕ) (v : BitVec 32) : Mem :=
  { m with ram := Function.update m.ram (p / 4 + i) v }

/-- `memset(p, 0, 4096)`. -/
def clearPage (m : Mem) (p : ℕ) : Mem :=
  { m with ram := fun a => if p / 4 ≤ a ∧ a < p / 4 + 1024 then 0#32 else m.ram a }

/-- `memcpy(p, q, 4096)`, both being physical addresses. -/
def copyPage (m : Mem) (p q : ℕ) : Mem :=
  { m with ram := fun a =>
      if p / 4 ≤ a ∧ a < p / 4 + 1024 then m.ram (q / 4 + (a - p / 4)) else m.ram a }

end Mem

/-! ### The operations -/

/-- `vmm_get_page_table`: the pointer returned, and the state after. -/
def vmmGetPageTable (m : Mem) (dir idx : ℕ) (allocate : Bool) : ℕ × Mem :=
  if 1024 ≤ idx then (0, m)
  else if present (m.word dir idx) then (tableOf (m.word dir idx), m)
  else if allocate then
    match pmmAllocBlock m.pmm with
    | (pageTable, pmm) =>
      if pageTable = 0 then (0, { m with pmm })
      else
        (pageTable, (({ m with pmm } : Mem).clearPage pageTable).setWord dir idx
          (BitVec.ofNat 32 pageTable ||| vmmPresent ||| vmmWritable ||| vmmUser))
  else (0, m)

/-- `vmm_create_directory`: the new directory, with no page mapped, or `0` if there is no block for
it. -/
def vmmCreateDirectory (m : Mem) : ℕ × Mem :=
  match pmmAllocBlock m.pmm with
  | (dir, pmm) =>
    if dir = 0 then (0, { m with pmm }) else (dir, ({ m with pmm } : Mem).clearPage dir)

/-- `vmm_map_page`. The two addresses are cut to their pages first. -/
def vmmMapPage (m : Mem) (dir : ℕ) (phys virt flags : BitVec 32) : Bool × Mem :=
  let phys := phys &&& ~~~0xFFF#32
  let virt := virt &&& ~~~0xFFF#32
  match vmmGetPageTable m dir (pageDirIndex virt) true with
  | (table, m) =>
    if table = 0 then (false, m)
    else (true, m.setWord table (pageTableIndex virt) (phys ||| (flags &&& 0xFFF#32)))

/-- `vmm_unmap_page`: the answer, and the memory. The answer is no if there is no table for the
page, and yes even if the table had no entry for it. -/
def vmmUnmapPage (m : Mem) (dir : ℕ) (virt : BitVec 32) : Bool × Mem :=
  match vmmGetPageTable m dir (pageDirIndex virt) false with
  | (table, m) =>
    if table = 0 then (false, m) else (true, m.setWord table (pageTableIndex virt) 0#32)

/-- `vmm_get_mapping`: `none` is `false`, and `some` the address stored. -/
def vmmGetMapping (m : Mem) (dir : ℕ) (virt : BitVec 32) : Option (BitVec 32) :=
  match vmmGetPageTable m dir (pageDirIndex virt) false with
  | (table, m) =>
    if table = 0 then none
    else if present (m.word table (pageTableIndex virt)) then
      some ((m.word table (pageTableIndex virt) &&& ~~~0xFFF#32) + pageOffset virt)
    else none

/-- `vmm_switch_page_directory`, as far as memory goes: what the load of the directory does to the
translations of the processor is in `Rexus.Mem.AddressSpaces`. -/
def vmmSwitchPageDirectory (m : Mem) (dir : ℕ) : Mem :=
  if dir = 0 then m else { m with currentDirectory := dir }

/-- One entry of `vmm_free_directory`. -/
def vmmFreeEntry (dir i : ℕ) (m : Mem) : Mem :=
  if present (m.word dir i) then { m with pmm := pmmFreeBlock m.pmm (tableOf (m.word dir i)) }
  else m

/-- The loop of `vmm_free_directory`. -/
def vmmFreeTables (m : Mem) (dir : ℕ) : Mem := forRange (vmmFreeEntry dir) 1024 0 m

/-- `vmm_free_directory`: the tables and the directory are freed, the pages that are mapped are not.
It does not ask whether another directory has the same tables. -/
def vmmFreeDirectory (m : Mem) (dir : ℕ) : Mem :=
  if dir = 0 then m
  else { vmmFreeTables m dir with pmm := pmmFreeBlock (vmmFreeTables m dir).pmm dir }

/-- Why `vmm_clone_directory` stops early: an allocation failed, or the copy read an address that
the current directory does not map, which halts the machine. -/
inductive CloneStop where
  | noMemory (m : Mem)
  | pageFault

/-- One entry of a table in `vmm_clone_directory`. -/
def vmmCloneEntry (srcTable destTable i j : ℕ) (m : Mem) : Except CloneStop Mem :=
  if present (m.word srcTable j) then
    if writable (m.word srcTable j) then
      match pmmAllocBlock m.pmm with
      | (newPage, pmm) =>
        if newPage = 0 then .error (.noMemory { m with pmm })
        else
          -- the source of the copy is the virtual address `(i << 22) | (j << 12)`
          match vmmGetMapping { m with pmm } m.currentDirectory
              (BitVec.ofNat 32 i <<< 22 ||| BitVec.ofNat 32 j <<< 12) with
          | none => .error .pageFault
          | some phys =>
            let m := ({ m with pmm } : Mem).copyPage newPage phys.toNat
            .ok (m.setWord destTable j
              (BitVec.ofNat 32 newPage ||| (m.word srcTable j &&& 0xFFF#32)))
    else .ok (m.setWord destTable j (m.word srcTable j))
  else .ok m

/-- One entry of the directory in `vmm_clone_directory`. -/
def vmmCloneTable (src dest i : ℕ) (m : Mem) : Except CloneStop Mem :=
  if present (m.word src i) then
    if 768 ≤ i then .ok (m.setWord dest i (m.word src i))
    else
      match vmmGetPageTable m dest i true with
      | (destTable, m') =>
        if destTable = 0 then .error (.noMemory m')
        else tryRange (vmmCloneEntry (tableOf (m.word src i)) destTable i) 1024 0 m'
  else .ok m

/-- `vmm_clone_directory`; `none` where it halts on a page fault. -/
def vmmCloneDirectory (m : Mem) (src : ℕ) : Option (ℕ × Mem) :=
  match vmmCreateDirectory m with
  | (dest, m) =>
    if dest = 0 then some (0, m)
    else
      match tryRange (vmmCloneTable src dest) 1024 0 m with
      | .ok m => some (dest, m)
      | .error (.noMemory m) => some (0, vmmFreeDirectory m dest)
      | .error .pageFault => none

/-! ### Writes and what they leave alone -/

namespace Mem

variable {m m' : Mem} {p q i j : ℕ}

/-- Two entries of pages share a word only if they are the same entry of the same page. -/
theorem word_index_eq (hp : p % 4096 = 0) (hq : q % 4096 = 0) (hi : i < 1024) (hj : j < 1024) :
    q / 4 + j = p / 4 + i ↔ q = p ∧ j = i := by
  omega

theorem word_setWord (hp : p % 4096 = 0) (hq : q % 4096 = 0) (hi : i < 1024) (hj : j < 1024)
    (v : BitVec 32) :
    (m.setWord p i v).word q j = if q = p ∧ j = i then v else m.word q j := by
  show Function.update m.ram (p / 4 + i) v (q / 4 + j) = _
  rw [Function.update_apply]
  exact if_congr (word_index_eq hp hq hi hj) rfl rfl

theorem word_clearPage (hp : p % 4096 = 0) (hq : q % 4096 = 0) (hj : j < 1024) :
    (m.clearPage p).word q j = if q = p then 0#32 else m.word q j := by
  rw [word, clearPage]
  exact if_congr (by omega) rfl rfl

/-- The two memories agree except on the words of the blocks in `B`. -/
def SameOutside (m m' : Mem) (B : Finset ℕ) : Prop := ∀ a, a / 1024 ∉ B → m'.ram a = m.ram a

theorem SameOutside.refl (m : Mem) (B : Finset ℕ) : SameOutside m m B := fun _ _ => rfl

theorem SameOutside.trans {u : Mem} {B C : Finset ℕ} (h₁ : SameOutside m m' B)
    (h₂ : SameOutside m' u C) : SameOutside m u (B ∪ C) := fun a ha => by
  rw [Finset.mem_union, not_or] at ha
  rw [h₂ a ha.2, h₁ a ha.1]

theorem SameOutside.mono {B C : Finset ℕ} (h : SameOutside m m' B) (hsub : B ⊆ C) :
    SameOutside m m' C := fun a ha => h a fun hB => ha (hsub hB)

theorem SameOutside.word {B : Finset ℕ} (h : SameOutside m m' B) (hp : p % 4096 = 0)
    (hi : i < 1024) (hB : p / 4096 ∉ B) : m'.word p i = m.word p i :=
  h _ (by rwa [show (p / 4 + i) / 1024 = p / 4096 by omega])

theorem sameOutside_setWord (hp : p % 4096 = 0) (hi : i < 1024) (v : BitVec 32) :
    SameOutside m (m.setWord p i v) {p / 4096} := fun a ha => by
  rw [Finset.mem_singleton] at ha
  exact Function.update_of_ne (by omega) _ _

theorem sameOutside_clearPage (hp : p % 4096 = 0) :
    SameOutside m (m.clearPage p) {p / 4096} := fun a ha => by
  rw [Finset.mem_singleton] at ha
  exact if_neg (by omega)

/-- A block that is cleared. -/
theorem sameOutside_clearBlock (m : Mem) (b : ℕ) :
    SameOutside m (m.clearPage (b * 4096)) {b} := by
  have hclear := sameOutside_clearPage (m := m) (Nat.mul_mod_left b 4096)
  rwa [Nat.mul_div_cancel b (by decide)] at hclear

theorem sameOutside_copyPage (hp : p % 4096 = 0) (q : ℕ) :
    SameOutside m (m.copyPage p q) {p / 4096} := fun a ha => by
  rw [Finset.mem_singleton] at ha
  exact if_neg (by omega)

end Mem

/-! ### Lookups and allocations -/

variable {m : Mem} {dir idx : ℕ}

theorem vmmGetPageTable_present (hidx : idx < 1024) (h : present (m.word dir idx) = true)
    (allocate : Bool) :
    vmmGetPageTable m dir idx allocate = (tableOf (m.word dir idx), m) := by
  rw [vmmGetPageTable, if_neg (Nat.not_le.mpr hidx), if_pos h]

theorem vmmGetPageTable_absent (h : present (m.word dir idx) = false) :
    vmmGetPageTable m dir idx false = (0, m) := by
  rw [vmmGetPageTable, h]
  split <;> rfl

/-- A lookup without allocation only looks. -/
theorem vmmGetPageTable_false (m : Mem) (dir idx : ℕ) :
    (vmmGetPageTable m dir idx false).2 = m := by
  rw [vmmGetPageTable]
  split
  · rfl
  split <;> rfl

/-- The state once a new table, in block `b`, is cleared and linked at entry `idx` of `dir`. -/
def linkTable (m : Mem) (t : Pmm) (dir idx b : ℕ) : Mem :=
  (({ m with pmm := t } : Mem).clearPage (b * 4096)).setWord dir idx (pack 12 b 7#32)

/-- Everything an allocating lookup can do where there is no table yet: fail, or link a new and
empty one. -/
theorem vmmGetPageTable_cases (hidx : idx < 1024) (h : present (m.word dir idx) = false) :
    (∃ t, vmmGetPageTable m dir idx true = (0, { m with pmm := t }) ∧
        pmmAllocBlock m.pmm = (0, t)) ∨
      ∃ b t, vmmGetPageTable m dir idx true = (b * 4096, linkTable m t dir idx b) ∧
        b ≠ 0 ∧ b < 2 ^ 20 ∧ Takes m.pmm t {b} := by
  rw [vmmGetPageTable, if_neg (Nat.not_le.mpr hidx), h]
  rcases pmmAllocBlock_takes m.pmm with ⟨t, ht, -⟩ | ⟨b, t, ht, hb0, hb, hB⟩
  · exact Or.inl ⟨t, by simp [ht], ht⟩
  · have hptr : b * 4096 ≠ 0 := by omega
    refine Or.inr ⟨b, t, ?_, hb0, hb, hB⟩
    rw [ht, linkTable, ← tableEntry_eq]
    simp [hptr]

/-- Everything `vmm_create_directory` can do. -/
theorem vmmCreateDirectory_cases (m : Mem) :
    (∃ t, vmmCreateDirectory m = (0, { m with pmm := t }) ∧ pmmAllocBlock m.pmm = (0, t)) ∨
      ∃ b t, vmmCreateDirectory m =
          (b * 4096, ({ m with pmm := t } : Mem).clearPage (b * 4096)) ∧
        b ≠ 0 ∧ b < 2 ^ 20 ∧ Takes m.pmm t {b} := by
  rw [vmmCreateDirectory]
  rcases pmmAllocBlock_takes m.pmm with ⟨t, ht, -⟩ | ⟨b, t, ht, hb0, hb, hB⟩
  · exact Or.inl ⟨t, by simp [ht], ht⟩
  · have hptr : b * 4096 ≠ 0 := by omega
    exact Or.inr ⟨b, t, by simp [ht, hptr], hb0, hb, hB⟩

/-! ### Freeing a directory -/

/-- The block of the table an entry of `dir` refers to. -/
def tableBlock (m : Mem) (dir i : ℕ) : ℕ := tableOf (m.word dir i) / 4096

/-- The blocks of the tables the first `n` entries of `dir` refer to. -/
def tableBlocks (m : Mem) (dir n : ℕ) : Finset ℕ :=
  ((Finset.range n).filter fun i => present (m.word dir i) = true).image (tableBlock m dir)

theorem mem_tableBlocks {n b : ℕ} :
    b ∈ tableBlocks m dir n ↔ ∃ i < n, present (m.word dir i) = true ∧ tableBlock m dir i = b := by
  simp [tableBlocks, and_assoc]

theorem tableBlocks_congr {m' : Mem} {n : ℕ} (hn : n ≤ 1024)
    (hword : ∀ i < 1024, m'.word dir i = m.word dir i) :
    tableBlocks m' dir n = tableBlocks m dir n := by
  ext b
  rw [mem_tableBlocks, mem_tableBlocks]
  refine exists_congr fun i => and_congr_right fun hi => ?_
  rw [tableBlock, tableBlock, hword i (by omega)]

theorem tableBlocks_succ (m : Mem) (dir n : ℕ) :
    tableBlocks m dir (n + 1) =
      if present (m.word dir n) = true then insert (tableBlock m dir n) (tableBlocks m dir n)
      else tableBlocks m dir n := by
  ext b
  split_ifs with h
  · simp only [Finset.mem_insert, mem_tableBlocks, Nat.lt_succ_iff_lt_or_eq]
    constructor
    · rintro ⟨i, hi | rfl, hp, hb⟩
      · exact Or.inr ⟨i, hi, hp, hb⟩
      · exact Or.inl hb.symm
    · rintro (rfl | ⟨i, hi, hp, hb⟩)
      · exact ⟨n, Or.inr rfl, h, rfl⟩
      · exact ⟨i, Or.inl hi, hp, hb⟩
  · simp only [mem_tableBlocks, Nat.lt_succ_iff_lt_or_eq]
    constructor
    · rintro ⟨i, hi | rfl, hp, hb⟩
      · exact ⟨i, hi, hp, hb⟩
      · exact absurd hp h
    · rintro ⟨i, hi, hp, hb⟩
      exact ⟨i, Or.inl hi, hp, hb⟩

/-- The tables of `dir` are allocated blocks, no two entries refer to one, and none is `dir`. -/
structure OwnsTables (m : Mem) (dir : ℕ) : Prop where
  used : ∀ i < 1024, present (m.word dir i) = true → tableBlock m dir i ∈ m.pmm.usedSet
  inj : ∀ i < 1024, ∀ j < 1024, present (m.word dir i) = true → present (m.word dir j) = true →
    tableBlock m dir i = tableBlock m dir j → i = j
  dir_used : dir / 4096 ∈ m.pmm.usedSet
  ne_dir : ∀ i < 1024, present (m.word dir i) = true → tableBlock m dir i ≠ dir / 4096

/-- The tables of the first `i` entries are free, and nothing else has changed. -/
structure TablesFreed (m : Mem) (dir i : ℕ) (m' : Mem) : Prop where
  eq : m' = { m with pmm := m'.pmm }
  memBlocks : m'.pmm.memBlocks = m.pmm.memBlocks
  usedSet : m'.pmm.usedSet = m.pmm.usedSet \ tableBlocks m dir i
  drift : OwnsTables m dir → SameDrift m.pmm m'.pmm

theorem TablesFreed.step {m' : Mem} {i : ℕ} (h : TablesFreed m dir i m') (hi : i < 1024) :
    TablesFreed m dir (i + 1) (vmmFreeEntry dir i m') := by
  have hword : m'.word dir i = m.word dir i := by rw [h.eq]; rfl
  rw [vmmFreeEntry, hword]
  by_cases hp : present (m.word dir i) = true
  · rw [if_pos hp]
    refine ⟨?_, (pmmFreeBlock_memBlocks _ _).trans h.memBlocks, ?_, fun howns => ?_⟩
    · rw [h.eq]
    · show (pmmFreeBlock m'.pmm _).usedSet = _
      rw [usedSet_pmmFreeBlock, h.usedSet, tableBlocks_succ, if_pos hp]
      exact (Finset.sdiff_insert _ _ _).symm
    · refine (h.drift howns).trans (sameDrift_pmmFreeBlock ?_)
      rw [h.usedSet, Finset.mem_sdiff, mem_tableBlocks]
      refine ⟨howns.used i hi hp, ?_⟩
      rintro ⟨j, hj, hpj, heq⟩
      have hij := howns.inj j (by omega) i hi hpj hp heq
      omega
  · rw [if_neg hp]
    exact ⟨h.eq, h.memBlocks, by rw [h.usedSet, tableBlocks_succ, if_neg hp], h.drift⟩

/-- What the loop does: it clears the bits of the tables, and touches nothing else. -/
theorem vmmFreeTables_spec (m : Mem) (dir : ℕ) :
    ∃ t, vmmFreeTables m dir = { m with pmm := t } ∧ t.memBlocks = m.pmm.memBlocks ∧
      t.usedSet = m.pmm.usedSet \ tableBlocks m dir 1024 ∧
      (OwnsTables m dir → SameDrift m.pmm t) := by
  have hstart : TablesFreed m dir 0 m :=
    ⟨rfl, rfl, by simp [tableBlocks], fun _ => SameDrift.refl _⟩
  have hend : TablesFreed m dir (0 + 1024) (vmmFreeTables m dir) :=
    forRange_inv (vmmFreeEntry dir) (TablesFreed m dir) hstart fun i m' _ hi h => h.step (by omega)
  exact ⟨_, hend.eq, hend.memBlocks, hend.usedSet, hend.drift⟩

/-- The blocks `vmm_free_directory` frees: the directory's own and those of its tables. -/
def directoryBlocks (m : Mem) (dir : ℕ) : Finset ℕ :=
  insert (dir / 4096) (tableBlocks m dir 1024)

theorem vmmFreeDirectory_spec (m : Mem) (hdir : dir ≠ 0) :
    ∃ t, vmmFreeDirectory m dir = { m with pmm := t } ∧ t.memBlocks = m.pmm.memBlocks ∧
      t.usedSet = m.pmm.usedSet \ directoryBlocks m dir ∧
      (OwnsTables m dir → Gives m.pmm t (directoryBlocks m dir)) := by
  obtain ⟨t, heq, hblocks, hused, hdrift⟩ := vmmFreeTables_spec m dir
  rw [vmmFreeDirectory, if_neg hdir, heq]
  have hset : (pmmFreeBlock t dir).usedSet = m.pmm.usedSet \ directoryBlocks m dir := by
    rw [usedSet_pmmFreeBlock, hused, directoryBlocks]
    exact (Finset.sdiff_insert _ _ _).symm
  have hmem : (pmmFreeBlock t dir).memBlocks = m.pmm.memBlocks :=
    (pmmFreeBlock_memBlocks _ _).trans hblocks
  refine ⟨_, rfl, hmem, hset, fun howns => ⟨hmem, hset, ?_, (hdrift howns).trans
    (sameDrift_pmmFreeBlock ?_)⟩⟩
  · refine Finset.insert_subset howns.dir_used fun b hb => ?_
    obtain ⟨i, hi, hp, rfl⟩ := mem_tableBlocks.mp hb
    exact howns.used i hi hp
  · rw [hused, Finset.mem_sdiff, mem_tableBlocks]
    refine ⟨howns.dir_used, ?_⟩
    rintro ⟨i, hi, hp, heq⟩
    exact howns.ne_dir i hi hp heq

theorem usedSet_vmmFreeDirectory (m : Mem) (hdir : dir ≠ 0) :
    (vmmFreeDirectory m dir).pmm.usedSet = m.pmm.usedSet \ directoryBlocks m dir := by
  obtain ⟨t, heq, -, hused, -⟩ := vmmFreeDirectory_spec m hdir
  rw [heq, hused]

theorem gives_vmmFreeDirectory (hdir : dir ≠ 0) (h : OwnsTables m dir) :
    Gives m.pmm (vmmFreeDirectory m dir).pmm (directoryBlocks m dir) := by
  obtain ⟨t, heq, -, -, hgives⟩ := vmmFreeDirectory_spec m hdir
  rw [heq]
  exact hgives h

end Rexus
