import Rexus.Lib.Run
import Rexus.Mem.VmmMapping

/-!
# Address spaces and the translation cache

`mem/vmm.c` with any number of directories, and the processor beside it. The processor keeps
translations that it has found in the tables of the current directory, and may find and forget them
at any time; it forgets all of them when a directory is loaded, and one when `invlpg` names it.
`vmm_map_page` and `vmm_unmap_page` name it only when they are given the current directory. What
the accessed and dirty bits of an entry are is left out.

Until a directory is loaded the processor uses the tables `boot.asm` has made, which are not in this
model: what it finds there is anything.

## Main results

* `address_spaces_run` — every directory maps what was mapped in it, and the processor finds what
  the current one maps, in every run of directories that share no table
* `mapPage_stale_iff` — what the flush misses where two directories share a table

## What happens in a run

The calls are those of `vmm.c` that create and free a directory, map and unmap a page, and load a
directory, and the two of the hardware abstraction layer that go to the current one. Beside them the
processor fills and forgets translations of its own, and the rest of the kernel allocates, frees and
writes memory that is not in a directory. They come in any order.

What is assumed of the callers is in `Allowed`: a call is made with a directory that exists, and the
current one is not freed. No directory is cloned, so none shares a table with another; what goes
wrong with the flush when two do is `mapPage_stale_iff`. The processor keeps one translation for a
page and no more, which is what it has found in the tables of the current directory when it looked;
a processor that keeps less is covered as well, since it may forget at any time.
-/

namespace Rexus

open AlignedWord Mem Pmm Run

/-! ### The processor -/

/-- What the processor finds in the tables of `dir`. -/
def mmuWalk (m : Mem) (dir : ℕ) : PageMap := fun v =>
  if present (m.word dir (v.toNat / 1024)) then
    decodeEntry (m.word (tableOf (m.word dir (v.toNat / 1024))) (v.toNat % 1024))
  else none

/-- The memory, and the translations the processor keeps. A page is kept as it was found in the
tables when the processor looked, whatever has become of its entry since, until it is forgotten or
flushed. -/
structure Machine where
  mem : Mem
  tlb : PageMap

namespace Machine

/-- Where the processor finds a page. -/
def lookup (s : Machine) : PageMap := fun v =>
  match s.tlb v with
  | some e => some e
  | none => mmuWalk s.mem s.mem.currentDirectory v

/-- `vmm_flush_tlb_entry`. -/
def vmmFlushTlbEntry (s : Machine) (addr : BitVec 32) : Machine :=
  { s with tlb := s.tlb.unmap addr }

/-- What the two functions that change an entry do behind it. -/
def flushIfCurrent (s : Machine) (dir : ℕ) (virt : BitVec 32) : Machine :=
  if dir = s.mem.currentDirectory then s.vmmFlushTlbEntry virt else s

/-- `vmm_map_page`, with the flush. -/
def mapPage (s : Machine) (dir : ℕ) (phys virt flags : BitVec 32) : Bool × Machine :=
  match vmmMapPage s.mem dir phys virt flags with
  | (ok, mem) =>
    if ok then (true, ({ s with mem } : Machine).flushIfCurrent dir (virt &&& ~~~0xFFF#32))
    else (false, { s with mem })

/-- `vmm_unmap_page`, with the flush. -/
def unmapPage (s : Machine) (dir : ℕ) (virt : BitVec 32) : Bool × Machine :=
  match vmmUnmapPage s.mem dir virt with
  | (ok, mem) =>
    if ok then (true, ({ s with mem } : Machine).flushIfCurrent dir virt)
    else (false, { s with mem })

/-- `vmm_switch_page_directory`, which loads the directory. -/
def switchPageDirectory (s : Machine) (dir : ℕ) : Machine :=
  if dir = 0 then s else ⟨vmmSwitchPageDirectory s.mem dir, fun _ => none⟩

/-- `hal_map_page`. -/
def halMapPage (s : Machine) (phys virt flags : BitVec 32) : Machine :=
  (s.mapPage s.mem.currentDirectory phys virt flags).2

/-- `hal_unmap_page`. -/
def halUnmapPage (s : Machine) (virt : BitVec 32) : Machine :=
  (s.unmapPage s.mem.currentDirectory virt).2

end Machine

/-! ### What it is for -/

/-- The address spaces: what each directory maps, if it is one, and which is current. -/
structure AddressSpaces where
  space : ℕ → Option PageMap
  current : ℕ

namespace AddressSpaces

def set (a : AddressSpaces) (dir : ℕ) (r : Option PageMap) : AddressSpaces :=
  { a with space := Function.update a.space dir r }

/-- Change what `dir` maps. -/
def modify (a : AddressSpaces) (dir : ℕ) (f : PageMap → PageMap) : AddressSpaces :=
  a.set dir ((a.space dir).map f)

/-- Is `dir` a directory? -/
def Live (a : AddressSpaces) (dir : ℕ) : Prop := (a.space dir).isSome = true

instance (a : AddressSpaces) (dir : ℕ) : Decidable (a.Live dir) := instDecidableEqBool _ _

end AddressSpaces

/-- The machine, and the address spaces as its users know them from what the calls return. -/
structure World where
  machine : Machine
  spaces : AddressSpaces

/-- A call of `vmm.c`, or something else that happens: the processor finds a translation or forgets
one, and the rest of the kernel allocates, frees and writes memory. -/
inductive SpaceOp where
  | create
  | map (dir : ℕ) (phys virt flags : BitVec 32)
  | unmap (dir : ℕ) (virt : BitVec 32)
  | switch (dir : ℕ)
  | free (dir : ℕ)
  | halMap (phys virt flags : BitVec 32)
  | halUnmap (virt : BitVec 32)
  | find (v : BitVec 20) (e : BitVec 20 × BitVec 12)
  | forget (v : BitVec 20)
  | other (mem : Mem)

namespace World

/-- The machine after a call on `dir` which has mapped or unmapped, if it has succeeded. -/
def changed (w : World) (dir : ℕ) (f : PageMap → PageMap) : Bool × Machine → World
  | (ok, machine) => ⟨machine, if ok then w.spaces.modify dir f else w.spaces⟩

def step (w : World) : SpaceOp → World
  | .create =>
    match vmmCreateDirectory w.machine.mem with
    | (dir, mem) =>
      ⟨{ w.machine with mem }, if dir = 0 then w.spaces else w.spaces.set dir (some fun _ => none)⟩
  | .map dir phys virt flags =>
    w.changed dir (·.map phys virt flags) (w.machine.mapPage dir phys virt flags)
  | .unmap dir virt => w.changed dir (·.unmap virt) (w.machine.unmapPage dir virt)
  | .switch dir => ⟨w.machine.switchPageDirectory dir, { w.spaces with current := dir }⟩
  | .free dir =>
    ⟨{ w.machine with mem := vmmFreeDirectory w.machine.mem dir }, w.spaces.set dir none⟩
  | .halMap phys virt flags =>
    w.changed w.machine.mem.currentDirectory (·.map phys virt flags)
      (w.machine.mapPage w.machine.mem.currentDirectory phys virt flags)
  | .halUnmap virt =>
    w.changed w.machine.mem.currentDirectory (·.unmap virt)
      (w.machine.unmapPage w.machine.mem.currentDirectory virt)
  | .find v e => ⟨{ w.machine with tlb := Function.update w.machine.tlb v (some e) }, w.spaces⟩
  | .forget v => ⟨{ w.machine with tlb := Function.update w.machine.tlb v none }, w.spaces⟩
  | .other mem => ⟨{ w.machine with mem }, w.spaces⟩

/-- What may happen: the calls are given directories, and the current one is not freed; the
processor finds what there is; and the blocks of a directory are left to `vmm.c`. -/
def Allowed (w : World) : SpaceOp → Prop
  | .create | .forget _ => True
  | .map dir .. | .unmap dir _ | .switch dir => w.spaces.Live dir
  | .free dir => w.spaces.Live dir ∧ dir ≠ w.spaces.current
  | .halMap .. | .halUnmap _ => w.spaces.current ≠ 0
  | .find v e => w.spaces.current ≠ 0 →
      mmuWalk w.machine.mem w.machine.mem.currentDirectory v = some e
  | .other mem => mem.currentDirectory = w.machine.mem.currentDirectory ∧
      ∀ dir, w.spaces.Live dir → ∀ b ∈ directoryBlocks w.machine.mem dir,
        b ∈ mem.pmm.usedSet ∧ ∀ a, a / 1024 = b → mem.ram a = w.machine.mem.ram a

def Step (w : World) (op : SpaceOp) (w' : World) : Prop := w.Allowed op ∧ w' = w.step op

/-- Before the first directory. -/
def start (machine : Machine) : World := ⟨machine, fun _ => none, 0⟩

end World

/-- What a state of a run is to be. The spaces are the record of what the callers have asked for;
the memory and what the processor keeps are what the code has made of it. -/
structure WorldSpec (w : World) : Prop where
  /-- Every directory maps what was mapped in it, and nothing else, -/
  maps : ∀ dir r, w.spaces.space dir = some r →
    ∀ va, vmmGetMapping w.machine.mem dir va = r.translate va
  current : w.machine.mem.currentDirectory = w.spaces.current
  /-- and the processor finds what the current one maps, whatever it keeps. -/
  finds : ∀ r, w.spaces.space w.spaces.current = some r → w.machine.lookup = r

section

variable {m m' : Mem} {dir : ℕ} {phys virt flags : BitVec 32} {ok : Bool}

/-! ### The blocks of a directory -/

theorem DirOk.mmuWalk_eq (h : DirOk m dir) : mmuWalk m dir = pageMap m dir := by
  funext v
  rw [mmuWalk, pageMap]
  split_ifs with hp
  · rw [pageEntry_of_present hp (h.table_ne_zero _ (dirIndex_lt v) hp)]
  · rw [pageEntry_of_absent (Bool.eq_false_of_not_eq_true hp)]
    rfl

theorem DirOk.dir_mem (m : Mem) (dir : ℕ) : dir / 4096 ∈ directoryBlocks m dir :=
  Finset.mem_insert_self _ _

theorem tableBlock_mem {i : ℕ} (hi : i < 1024) (hp : present (m.word dir i) = true) :
    tableBlock m dir i ∈ directoryBlocks m dir :=
  Finset.mem_insert_of_mem (mem_tableBlocks.mpr ⟨i, hi, hp, rfl⟩)

theorem DirOk.blocks_used (h : DirOk m dir) : directoryBlocks m dir ⊆ m.pmm.usedSet := by
  refine Finset.insert_subset h.owns.dir_used fun b hb => ?_
  obtain ⟨i, hi, hp, rfl⟩ := mem_tableBlocks.mp hb
  exact h.owns.used i hi hp

theorem directoryBlocks_congr (hword : ∀ i < 1024, m'.word dir i = m.word dir i) :
    directoryBlocks m' dir = directoryBlocks m dir := by
  rw [directoryBlocks, directoryBlocks, tableBlocks_congr (Nat.le_refl _) hword]

/-- A directory is in its blocks. -/
theorem DirOk.frame (h : DirOk m dir)
    (hram : ∀ a, a / 1024 ∈ directoryBlocks m dir → m'.ram a = m.ram a)
    (hused : directoryBlocks m dir ⊆ m'.pmm.usedSet) :
    DirOk m' dir ∧ pageMap m' dir = pageMap m dir ∧
      directoryBlocks m' dir = directoryBlocks m dir := by
  have haligned := h.aligned
  have hword : ∀ i < 1024, m'.word dir i = m.word dir i := by
    intro i hi
    refine hram _ ?_
    rw [show (dir / 4 + i) / 1024 = dir / 4096 by omega]
    exact DirOk.dir_mem m dir
  have htable : ∀ i < 1024, present (m.word dir i) = true → ∀ j < 1024,
      m'.word (tableOf (m.word dir i)) j = m.word (tableOf (m.word dir i)) j := by
    intro i hi hp j hj
    have hmod := tableOf_mod (m.word dir i)
    refine hram _ ?_
    rw [show (tableOf (m.word dir i) / 4 + j) / 1024 = tableOf (m.word dir i) / 4096 by omega]
    exact tableBlock_mem hi hp
  -- the pointers of the directory are where they were, and so is what they point to
  refine ⟨⟨haligned, h.ne_zero, ⟨fun i hi hp => ?_, fun i hi j hj hpi hpj heq => ?_,
    hused (DirOk.dir_mem m dir), fun i hi hp => ?_⟩, fun i hi hp => ?_⟩, funext fun v => ?_,
    directoryBlocks_congr hword⟩
  · rw [hword i hi] at hp
    rw [tableBlock, hword i hi]
    exact hused (tableBlock_mem hi hp)
  · rw [hword i hi] at hpi
    rw [hword j hj] at hpj
    rw [tableBlock, tableBlock, hword i hi, hword j hj] at heq
    exact h.owns.inj i hi j hj hpi hpj heq
  · rw [hword i hi] at hp
    rw [tableBlock, hword i hi]
    exact h.owns.ne_dir i hi hp
  · rw [hword i hi] at hp ⊢
    exact h.table_ne_zero i hi hp
  · have hv := hword _ (dirIndex_lt v)
    rw [pageMap, pageMap]
    cases hp : present (m.word dir (v.toNat / 1024)) with
    | false => rw [pageEntry_of_absent (by rw [hv, hp]), pageEntry_of_absent hp]
    | true =>
      have ht := h.table_ne_zero _ (dirIndex_lt v) hp
      rw [pageEntry_of_present (by rw [hv, hp]) (by rwa [hv]), pageEntry_of_present hp ht, hv,
        htable _ (dirIndex_lt v) hp _ (tableIndex_lt v)]

/-- What a call on `dir` may change: the blocks it has, and those it takes. -/
structure DirChanged (m m' : Mem) (dir : ℕ) (B : Finset ℕ) : Prop where
  takes : Takes m.pmm m'.pmm B
  same : SameOutside m m' (directoryBlocks m dir ∪ B)
  blocks : directoryBlocks m' dir ⊆ directoryBlocks m dir ∪ B
  currentDirectory : m'.currentDirectory = m.currentDirectory

/-- An entry of a table is written. -/
theorem DirOk.dirChanged_setWord (h : DirOk m dir) {idx j : ℕ} (hidx : idx < 1024)
    (hp : present (m.word dir idx) = true) (hj : j < 1024) (e : BitVec 32) :
    DirChanged m (m.setWord (tableOf (m.word dir idx)) j e) dir ∅ := by
  refine ⟨Takes.refl _, ?_, ?_, rfl⟩
  · rw [Finset.union_empty]
    refine (sameOutside_setWord (tableOf_mod _) hj e).mono ?_
    exact Finset.singleton_subset_iff.mpr (tableBlock_mem hidx hp)
  · rw [Finset.union_empty, directoryBlocks_congr]
    intro i hi
    rw [word_setWord (tableOf_mod _) h.aligned hj hi, if_neg]
    exact fun hcon => h.table_ne_dir hidx hp hcon.1.symm

theorem DirChanged.trans {u : Mem} {B C : Finset ℕ} (h₁ : DirChanged m m' dir B)
    (h₂ : DirChanged m' u dir C) : DirChanged m u dir (B ∪ C) where
  takes := h₁.takes.trans h₂.takes
  same := by
    have hfirst : directoryBlocks m dir ∪ B ⊆ directoryBlocks m dir ∪ (B ∪ C) :=
      Finset.union_subset_union_right Finset.subset_union_left
    have hsecond : C ⊆ directoryBlocks m dir ∪ (B ∪ C) :=
      Finset.subset_union_right.trans Finset.subset_union_right
    exact (h₁.same.trans h₂.same).mono
      (Finset.union_subset hfirst (Finset.union_subset (h₁.blocks.trans hfirst) hsecond))
  blocks := by
    rw [← Finset.union_assoc]
    exact h₂.blocks.trans (Finset.union_subset_union_left h₁.blocks)
  currentDirectory := h₂.currentDirectory.trans h₁.currentDirectory

theorem DirOk.dirChanged_link (h : DirOk m dir) {idx b : ℕ} {t : Pmm} (hidx : idx < 1024)
    (hb : b < 2 ^ 20) (ht : Takes m.pmm t {b}) :
    DirChanged m (linkTable m t dir idx b) dir {b} := by
  refine ⟨ht, ?_, fun c hc => ?_, rfl⟩
  · have hclear : SameOutside m (({ m with pmm := t } : Mem).clearPage (b * 4096)) {b} :=
      sameOutside_clearBlock { m with pmm := t } b
    refine (hclear.trans (sameOutside_setWord h.aligned hidx (pack 12 b 7#32))).mono ?_
    rw [Finset.union_comm]
    exact Finset.union_subset_union_left (Finset.singleton_subset_iff.mpr (DirOk.dir_mem m dir))
  · rw [Finset.mem_union, Finset.mem_singleton]
    rcases Finset.mem_insert.mp hc with rfl | hc
    · exact Or.inl (DirOk.dir_mem m dir)
    · obtain ⟨i, hi, hp, rfl⟩ := mem_tableBlocks.mp hc
      rw [h.word_link hidx ht hi] at hp
      rw [tableBlock, h.word_link hidx ht hi]
      split_ifs at hp ⊢
      · rw [tableOf_pack hb (by decide), Nat.mul_div_cancel _ (by decide)]
        exact Or.inr rfl
      · exact Or.inl (tableBlock_mem hi hp)

theorem DirOk.dirChanged_mapPage (h : DirOk m dir)
    (hmap : vmmMapPage m dir phys virt flags = (ok, m')) : ∃ B, DirChanged m m' dir B := by
  have hidx := dirIndex_lt (pageNumber virt)
  rw [vmmMapPage, pageDirIndex_eq, pageTableIndex_eq, pageNumber_high] at hmap
  cases hp : present (m.word dir ((pageNumber virt).toNat / 1024)) with
  | true =>
    rw [vmmGetPageTable_present hidx hp] at hmap
    dsimp only at hmap
    rw [if_neg (h.table_ne_zero _ hidx hp)] at hmap
    obtain rfl := (Prod.mk.inj hmap).2
    exact ⟨∅, h.dirChanged_setWord hidx hp (tableIndex_lt _) _⟩
  | false =>
    rcases vmmGetPageTable_cases hidx hp with ⟨t, heq, halloc⟩ | ⟨b, t, heq, hb0, hb, ht⟩
    · obtain ⟨B, hB⟩ := takes_of_null halloc
      rw [heq] at hmap
      obtain rfl := (Prod.mk.inj hmap).2
      exact ⟨B, hB, fun _ _ => rfl, Finset.subset_union_left, rfl⟩
    · have hlink := h.link hidx hb0 hb ht
      have hp' := h.present_link hidx ht
      have hptr := h.tableOf_link hidx hb ht
      rw [heq] at hmap
      dsimp only at hmap
      rw [if_neg (by omega), ← hptr] at hmap
      obtain rfl := (Prod.mk.inj hmap).2
      exact ⟨_, (h.dirChanged_link hidx hb ht).trans
        (hlink.dirChanged_setWord hidx hp' (tableIndex_lt _) _)⟩

theorem DirOk.dirChanged_unmapPage (h : DirOk m dir)
    (hunmap : vmmUnmapPage m dir virt = (ok, m')) : DirChanged m m' dir ∅ := by
  have hidx := dirIndex_lt (pageNumber virt)
  rw [vmmUnmapPage, pageDirIndex_eq, pageTableIndex_eq] at hunmap
  cases hp : present (m.word dir ((pageNumber virt).toNat / 1024)) with
  | true =>
    rw [vmmGetPageTable_present hidx hp] at hunmap
    dsimp only at hunmap
    rw [if_neg (h.table_ne_zero _ hidx hp)] at hunmap
    obtain rfl := (Prod.mk.inj hunmap).2
    exact h.dirChanged_setWord hidx hp (tableIndex_lt _) _
  | false =>
    rw [vmmGetPageTable_absent hp] at hunmap
    obtain rfl := (Prod.mk.inj hunmap).2
    exact ⟨Takes.refl _, fun _ _ => rfl, Finset.subset_union_left, rfl⟩

/-! ### All directories -/

/-- The directories are directories, and no two have a block in common. So a call on one of them
changes what that one maps, and what no other maps. -/
structure DirsInv (m : Mem) (space : ℕ → Option PageMap) : Prop where
  ok : ∀ dir r, space dir = some r → DirOk m dir ∧ pageMap m dir = r
  apart : ∀ dir dir', (space dir).isSome = true → (space dir').isSome = true → dir ≠ dir' →
    Disjoint (directoryBlocks m dir) (directoryBlocks m dir')

namespace DirsInv

variable {space : ℕ → Option PageMap}

theorem dirOk (h : DirsInv m space) (hdir : (space dir).isSome = true) : DirOk m dir := by
  obtain ⟨r, hr⟩ := Option.isSome_iff_exists.mp hdir
  exact (h.ok dir r hr).1

/-- The blocks of the directories are as they were. -/
theorem frame (h : DirsInv m space) (hframe : ∀ dir, (space dir).isSome = true →
      ∀ b ∈ directoryBlocks m dir, b ∈ m'.pmm.usedSet ∧ ∀ a, a / 1024 = b → m'.ram a = m.ram a) :
    DirsInv m' space := by
  have hdir : ∀ dir, (space dir).isSome = true → DirOk m' dir ∧
      pageMap m' dir = pageMap m dir ∧ directoryBlocks m' dir = directoryBlocks m dir :=
    fun dir hlive => (h.dirOk hlive).frame (fun a ha => (hframe dir hlive _ ha).2 a rfl)
      fun b hb => (hframe dir hlive b hb).1
  refine ⟨fun dir r hr => ?_, fun dir dir' hlive hlive' hne => ?_⟩
  · obtain ⟨hok, hmap, -⟩ := hdir dir (Option.isSome_iff_exists.mpr ⟨r, hr⟩)
    exact ⟨hok, hmap.trans (h.ok dir r hr).2⟩
  · rw [(hdir dir hlive).2.2, (hdir dir' hlive').2.2]
    exact h.apart dir dir' hlive hlive' hne

/-- One directory is new or has changed, in blocks that no other has. -/
theorem update (h : DirsInv m space) {S : Finset ℕ} {r : PageMap}
    (hothers : ∀ d, (space d).isSome = true → d ≠ dir → Disjoint (directoryBlocks m d) S)
    (hsame : SameOutside m m' S) (hused : m.pmm.usedSet ⊆ m'.pmm.usedSet) (hok : DirOk m' dir)
    (hmap : pageMap m' dir = r) (hblocks : directoryBlocks m' dir ⊆ S) :
    DirsInv m' (Function.update space dir (some r)) := by
  have hother : ∀ d, (space d).isSome = true → d ≠ dir → DirOk m' d ∧
      pageMap m' d = pageMap m d ∧ directoryBlocks m' d = directoryBlocks m d := by
    intro d hlive hne
    refine (h.dirOk hlive).frame (fun a ha => hsame a fun hS => ?_)
      ((h.dirOk hlive).blocks_used.trans hused)
    exact Finset.disjoint_left.mp (hothers d hlive hne) ha hS
  have hold : ∀ d, (Function.update space dir (some r) d).isSome = true → d ≠ dir →
      (space d).isSome = true := by
    intro d hlive hne
    rwa [Function.update_of_ne hne] at hlive
  have happart : ∀ d, (Function.update space dir (some r) d).isSome = true → d ≠ dir →
      Disjoint (directoryBlocks m' d) (directoryBlocks m' dir) := by
    intro d hlive hne
    rw [(hother d (hold d hlive hne) hne).2.2]
    exact (hothers d (hold d hlive hne) hne).mono_right hblocks
  refine ⟨fun d r' hr => ?_, fun d d' hlive hlive' hne => ?_⟩
  · by_cases hd : d = dir
    · subst hd
      rw [Function.update_self] at hr
      exact ⟨hok, hmap.trans (Option.some_inj.mp hr)⟩
    · rw [Function.update_of_ne hd] at hr
      obtain ⟨hok', hmap', -⟩ := hother d (Option.isSome_iff_exists.mpr ⟨r', hr⟩) hd
      exact ⟨hok', hmap'.trans (h.ok d r' hr).2⟩
  · by_cases hd : d = dir
    · subst hd
      exact (happart d' hlive' hne.symm).symm
    · by_cases hd' : d' = dir
      · subst hd'
        exact happart d hlive hd
      · rw [(hother d (hold d hlive hd) hd).2.2, (hother d' (hold d' hlive' hd') hd').2.2]
        exact h.apart d d' (hold d hlive hd) (hold d' hlive' hd') hne

/-- A call on one directory. -/
theorem changed (h : DirsInv m space) {r r' : PageMap} {B : Finset ℕ} (hr : space dir = some r)
    (hchanged : DirChanged m m' dir B) (hok : DirOk m' dir) (hmap : pageMap m' dir = r') :
    DirsInv m' (Function.update space dir (some r')) := by
  have hlive : (space dir).isSome = true := Option.isSome_iff_exists.mpr ⟨r, hr⟩
  refine h.update (fun d hd hne => ?_) hchanged.same hchanged.takes.subset hok hmap
    hchanged.blocks
  rw [Finset.disjoint_union_right]
  exact ⟨h.apart d dir hd hlive hne,
    Finset.disjoint_of_subset_left (h.dirOk hd).blocks_used hchanged.takes.free⟩

theorem create (h : DirsInv m space) (hcreate : vmmCreateDirectory m = (dir, m')) :
    m'.currentDirectory = m.currentDirectory ∧ (space dir = none ∨ dir = 0) ∧
      DirsInv m' (if dir = 0 then space else Function.update space dir (some fun _ => none)) := by
  rcases vmmCreateDirectory_cases m with ⟨t, heq, halloc⟩ | ⟨b, t, heq, hb0, hb, ht⟩
  · obtain ⟨rfl, rfl⟩ := Prod.mk.inj (heq.symm.trans hcreate)
    obtain ⟨B, hB⟩ := takes_of_null halloc
    refine ⟨rfl, Or.inr rfl, ?_⟩
    rw [if_pos rfl]
    exact h.frame fun d hd b hb => ⟨hB.subset ((h.dirOk hd).blocks_used hb), fun _ _ => rfl⟩
  · obtain ⟨rfl, rfl⟩ := Prod.mk.inj (heq.symm.trans hcreate)
    have hdir : b * 4096 ≠ 0 := Nat.mul_ne_zero hb0 (by decide)
    obtain ⟨hok, hmap⟩ := dirOk_vmmCreateDirectory heq hdir
    have hfree : ∀ d, (space d).isSome = true → Disjoint (directoryBlocks m d) {b} :=
      fun d hd => Finset.disjoint_of_subset_left (h.dirOk hd).blocks_used ht.free
    refine ⟨rfl, Or.inl ?_, ?_⟩
    · cases hspace : space (b * 4096) with
      | none => rfl
      | some r =>
        have hmem := DirOk.dir_mem m (b * 4096)
        rw [Nat.mul_div_cancel _ (by decide)] at hmem
        refine absurd (Finset.mem_singleton_self b) (Finset.disjoint_left.mp (hfree _ ?_) hmem)
        exact Option.isSome_iff_exists.mpr ⟨r, hspace⟩
    · rw [if_neg hdir]
      refine h.update (fun d hd _ => hfree d hd) (sameOutside_clearBlock { m with pmm := t } b)
        ht.subset hok hmap fun c hc => ?_
      rcases Finset.mem_insert.mp hc with rfl | hc
      · rw [Nat.mul_div_cancel _ (by decide)]
        exact Finset.mem_singleton_self b
      · obtain ⟨i, hi, hp, -⟩ := mem_tableBlocks.mp hc
        rw [word_clearPage (Nat.mul_mod_left _ _) (Nat.mul_mod_left _ _) hi, if_pos rfl] at hp
        exact absurd hp (by decide)

theorem free (h : DirsInv m space) (hdir : (space dir).isSome = true) :
    DirsInv (vmmFreeDirectory m dir) (Function.update space dir none) := by
  obtain ⟨t, heq, -, hused, -⟩ := vmmFreeDirectory_spec m (h.dirOk hdir).ne_zero
  have hlive : ∀ d, (Function.update space dir none d).isSome = true →
      (space d).isSome = true ∧ d ≠ dir := by
    intro d hd
    by_cases hne : d = dir
    · subst hne
      rw [Function.update_self] at hd
      exact absurd hd Bool.noConfusion
    · rw [Function.update_of_ne hne] at hd
      exact ⟨hd, hne⟩
  have hrest : DirsInv m (Function.update space dir none) := by
    refine ⟨fun d r hr => ?_, fun d d' hd hd' hne => ?_⟩
    · have hd := (hlive d (Option.isSome_iff_exists.mpr ⟨r, hr⟩)).2
      rw [Function.update_of_ne hd] at hr
      exact h.ok d r hr
    · exact h.apart d d' (hlive d hd).1 (hlive d' hd').1 hne
  refine hrest.frame fun d hd b hb => ?_
  rw [heq]
  refine ⟨?_, fun _ _ => rfl⟩
  show b ∈ t.usedSet
  rw [hused, Finset.mem_sdiff]
  exact ⟨(h.dirOk (hlive d hd).1).blocks_used hb,
    Finset.disjoint_left.mp (h.apart d dir (hlive d hd).1 hdir (hlive d hd).2) hb⟩

end DirsInv

end

/-! ### The run -/

section

variable {w w' : World} {op : SpaceOp}

/-- The invariant: what the processor keeps is what the current directory maps. Nothing is said
while no directory has been loaded, which is what a current directory of zero stands for. -/
structure WorldInv (w : World) : Prop where
  dirs : DirsInv w.machine.mem w.spaces.space
  current : w.machine.mem.currentDirectory = w.spaces.current
  live : w.spaces.current ≠ 0 → w.spaces.Live w.spaces.current
  kept : ∀ r, w.spaces.space w.spaces.current = some r →
    ∀ v e, w.machine.tlb v = some e → r v = some e

theorem WorldInv.spec (h : WorldInv w) : WorldSpec w where
  maps dir r hr va := by rw [vmmGetMapping_eq, (h.dirs.ok dir r hr).2]
  current := h.current
  finds r hr := by
    obtain ⟨hok, hmap⟩ := h.dirs.ok _ r hr
    funext v
    rw [Machine.lookup]
    cases hkept : w.machine.tlb v with
    | some e => exact (h.kept r hr v e hkept).symm
    | none =>
      dsimp only
      rw [h.current, hok.mmuWalk_eq, hmap]

/-- What the processor keeps stays right where the current directory maps what it did. -/
theorem WorldInv.of_kept {machine : Machine} {spaces : AddressSpaces} (h : WorldInv w)
    (hdirs : DirsInv machine.mem spaces.space)
    (hcurrent : machine.mem.currentDirectory = spaces.current)
    (hsame : spaces.current = w.spaces.current)
    (hspace : spaces.space w.spaces.current = w.spaces.space w.spaces.current)
    (htlb : ∀ v e, machine.tlb v = some e → w.machine.tlb v = some e) :
    WorldInv ⟨machine, spaces⟩ := by
  refine ⟨hdirs, hcurrent, fun hne => ?_, fun r hr v e he => ?_⟩
  · show (spaces.space spaces.current).isSome = true
    rw [hsame, hspace]
    exact h.live (hsame ▸ hne)
  · dsimp only at hr
    rw [hsame, hspace] at hr
    exact h.kept r hr v e (htlb v e he)

/-- A call that changes the entry of one page of a directory, and the flush behind it. -/
theorem WorldInv.changed (h : WorldInv w) {dir : ℕ} {f : PageMap → PageMap} {addr : BitVec 32}
    {ok : Bool} {mem : Mem} {B : Finset ℕ} (hlive : w.spaces.Live dir)
    (hpage : ∀ r v, v ≠ pageNumber addr → f r v = r v)
    (hchanged : DirChanged w.machine.mem mem dir B) (hok : DirOk mem dir)
    (hmap : pageMap mem dir =
      if ok then f (pageMap w.machine.mem dir) else pageMap w.machine.mem dir) :
    WorldInv (w.changed dir f
      (if ok then (true, ({ w.machine with mem } : Machine).flushIfCurrent dir addr)
        else (false, { w.machine with mem }))) := by
  obtain ⟨r, hr⟩ := Option.isSome_iff_exists.mp hlive
  have hold := (h.dirs.ok dir r hr).2
  have hcurrent := hchanged.currentDirectory.trans h.current
  cases ok with
  | false =>
    have hdirs := h.dirs.changed hr hchanged hok hmap
    rw [if_neg Bool.noConfusion, hold, ← hr, Function.update_eq_self] at hdirs
    exact h.of_kept hdirs hcurrent rfl rfl fun _ _ he => he
  | true =>
    have hdirs := h.dirs.changed hr hchanged hok hmap
    rw [if_pos rfl, hold] at hdirs
    have hspaces : w.spaces.modify dir f = w.spaces.set dir (some (f r)) := by
      rw [AddressSpaces.modify, hr]
      rfl
    rw [if_pos rfl, World.changed, if_pos rfl, hspaces, Machine.flushIfCurrent]
    by_cases hcur : dir = mem.currentDirectory
    · -- the page that has changed is not kept any more
      have hdir : w.spaces.current = dir := (hcur.trans hcurrent).symm
      rw [if_pos hcur]
      refine ⟨hdirs, hcurrent, fun _ => ?_, fun r' hr' v e he => ?_⟩
      · show (Function.update w.spaces.space dir _ w.spaces.current).isSome = true
        rw [hdir, Function.update_self]
        rfl
      · have hr'' : Function.update w.spaces.space dir (some (f r)) w.spaces.current = some r' :=
          hr'
        rw [hdir, Function.update_self] at hr''
        have he' : w.machine.tlb.unmap addr v = some e := he
        have hv : v ≠ pageNumber addr := by
          rintro rfl
          rw [PageMap.unmap, Function.update_self] at he'
          cases he'
        rw [PageMap.unmap, Function.update_of_ne hv] at he'
        rw [← Option.some_inj.mp hr'', hpage r v hv]
        exact h.kept r (hdir ▸ hr) v e he'
    · have hne : w.spaces.current ≠ dir := fun heq => hcur (heq.symm.trans hcurrent.symm)
      rw [if_neg hcur]
      exact h.of_kept hdirs hcurrent rfl (Function.update_of_ne hne _ _) fun _ _ he => he

theorem WorldInv.map (h : WorldInv w) {dir : ℕ} (hlive : w.spaces.Live dir)
    (phys virt flags : BitVec 32) : WorldInv (w.step (.map dir phys virt flags)) := by
  rcases hmap : vmmMapPage w.machine.mem dir phys virt flags with ⟨ok, mem⟩
  have hok := h.dirs.dirOk hlive
  obtain ⟨B, hchanged⟩ := hok.dirChanged_mapPage hmap
  rw [World.step, Machine.mapPage, hmap]
  refine h.changed hlive (fun r v hv => ?_) hchanged (dirOk_vmmMapPage hok hmap)
    (pageMap_of_vmmMapPage hok hmap)
  rw [pageNumber_high] at hv
  exact Function.update_of_ne hv _ _

theorem WorldInv.unmap (h : WorldInv w) {dir : ℕ} (hlive : w.spaces.Live dir)
    (virt : BitVec 32) : WorldInv (w.step (.unmap dir virt)) := by
  rcases hunmap : vmmUnmapPage w.machine.mem dir virt with ⟨ok, mem⟩
  have hok := h.dirs.dirOk hlive
  rw [World.step, Machine.unmapPage, hunmap]
  refine h.changed hlive (fun r v hv => Function.update_of_ne hv _ _)
    (hok.dirChanged_unmapPage hunmap) (dirOk_vmmUnmapPage hok hunmap) ?_
  cases ok with
  | true => exact pageMap_of_vmmUnmapPage hok hunmap
  | false =>
    obtain ⟨rfl, -⟩ := unmap_eq_of_false hok hunmap
    rfl

theorem WorldInv.create (h : WorldInv w) : WorldInv (w.step .create) := by
  rcases hcreate : vmmCreateDirectory w.machine.mem with ⟨dir, mem⟩
  obtain ⟨hcurrent, hnew, hdirs⟩ := h.dirs.create hcreate
  rw [World.step, hcreate]
  dsimp only
  split_ifs at hdirs ⊢ with hdir
  · exact h.of_kept hdirs (hcurrent.trans h.current) rfl rfl fun _ _ he => he
  · refine h.of_kept hdirs (hcurrent.trans h.current) rfl ?_ fun _ _ he => he
    refine Function.update_of_ne ?_ _ _
    rintro rfl
    have hlive := h.live hdir
    rw [AddressSpaces.Live, hnew.resolve_right hdir] at hlive
    exact Bool.noConfusion hlive

theorem WorldInv.switch (h : WorldInv w) {dir : ℕ} (hlive : w.spaces.Live dir) :
    WorldInv (w.step (.switch dir)) := by
  have hdir : dir ≠ 0 := (h.dirs.dirOk hlive).ne_zero
  rw [World.step, Machine.switchPageDirectory, if_neg hdir, vmmSwitchPageDirectory, if_neg hdir]
  refine ⟨h.dirs.frame fun d hd b hb => ⟨(h.dirs.dirOk hd).blocks_used hb, fun _ _ => rfl⟩, rfl,
    fun _ => hlive, fun r hr v e he => ?_⟩
  cases he

theorem WorldInv.free (h : WorldInv w) {dir : ℕ} (hlive : w.spaces.Live dir)
    (hne : dir ≠ w.spaces.current) : WorldInv (w.step (.free dir)) := by
  obtain ⟨t, heq, -⟩ := vmmFreeDirectory_spec w.machine.mem (h.dirs.dirOk hlive).ne_zero
  refine h.of_kept (h.dirs.free hlive) ?_ rfl (Function.update_of_ne hne.symm _ _)
    fun _ _ he => he
  dsimp only
  rw [heq]
  exact h.current

/-- The processor keeps what it has found in the current directory. -/
theorem WorldInv.find (h : WorldInv w) {v : BitVec 20} {e : BitVec 20 × BitVec 12}
    (hallowed : w.Allowed (.find v e)) : WorldInv (w.step (.find v e)) := by
  refine ⟨h.dirs, h.current, h.live, fun r hr v' e' he => ?_⟩
  have he' : Function.update w.machine.tlb v (some e) v' = some e' := he
  by_cases hv : v' = v
  · subst hv
    rw [Function.update_self] at he'
    have hr' : w.spaces.space w.spaces.current = some r := hr
    obtain ⟨hok, hmap⟩ := h.dirs.ok _ r hr'
    have hwalk := hallowed hok.ne_zero
    rw [h.current, hok.mmuWalk_eq, hmap] at hwalk
    exact hwalk.trans he'
  · rw [Function.update_of_ne hv] at he'
    exact h.kept r hr v' e' he'

theorem WorldInv.forget (h : WorldInv w) (v : BitVec 20) : WorldInv (w.step (.forget v)) := by
  refine h.of_kept h.dirs h.current rfl rfl fun v' e he => ?_
  have he' : Function.update w.machine.tlb v none v' = some e := he
  by_cases hv : v' = v
  · subst hv
    rw [Function.update_self] at he'
    cases he'
  · rwa [Function.update_of_ne hv] at he'

/-- **One step.** -/
theorem WorldInv.step (h : WorldInv w) (hallowed : w.Allowed op) : WorldInv (w.step op) := by
  cases op with
  | create => exact h.create
  | map dir phys virt flags => exact h.map hallowed phys virt flags
  | unmap dir virt => exact h.unmap hallowed virt
  | switch dir => exact h.switch hallowed
  | free dir => exact h.free hallowed.1 hallowed.2
  | halMap phys virt flags =>
    have hlive := h.live hallowed
    rw [← h.current] at hlive
    exact h.map hlive phys virt flags
  | halUnmap virt =>
    have hlive := h.live hallowed
    rw [← h.current] at hlive
    exact h.unmap hlive virt
  | find v e => exact h.find hallowed
  | forget v => exact h.forget v
  | other mem =>
    obtain ⟨hcurrent, hframe⟩ := hallowed
    exact h.of_kept (h.dirs.frame hframe) (hcurrent.trans h.current) rfl rfl fun _ _ he => he

/-- The two directories have the same table for the page. -/
def SharesTable (m : Mem) (dir dir' : ℕ) (v : BitVec 20) : Prop :=
  present (m.word dir (v.toNat / 1024)) = true ∧ present (m.word dir' (v.toNat / 1024)) = true ∧
    tableOf (m.word dir (v.toNat / 1024)) = tableOf (m.word dir' (v.toNat / 1024))

instance (m : Mem) (dir dir' : ℕ) (v : BitVec 20) : Decidable (SharesTable m dir dir' v) :=
  instDecidableAnd

/-- The two are different, and neither is a table of the other. They may still have tables in
common, as a directory and its clone do, and then a page is mapped in both at once. -/
structure MayShare (m : Mem) (dir dir' : ℕ) : Prop where
  ne : dir ≠ dir'
  table : ∀ i < 1024, present (m.word dir' i) = true → tableOf (m.word dir' i) ≠ dir
  table' : ∀ i < 1024, present (m.word dir i) = true → tableOf (m.word dir i) ≠ dir'

/-- What `vmm_map_page` writes for a page. -/
def newEntry (phys flags : BitVec 32) : Option (BitVec 20 × BitVec 12) :=
  if present flags then some (phys.extractLsb' 12 20, flags.extractLsb' 0 12) else none

section

variable {m m' : Mem} {dir dir' : ℕ} {phys virt flags : BitVec 32}

/-- A pointer to a block in use is not one to a block that has just been taken. -/
theorem ne_taken {t : Pmm} {b p : ℕ} (ht : Takes m.pmm t {b}) (hp : p / 4096 ∈ m.pmm.usedSet) :
    p ≠ b * 4096 := by
  rintro rfl
  rw [Nat.mul_div_cancel _ (by decide)] at hp
  exact ht.notMem (Finset.mem_singleton_self b) hp

/-- A page is where it was if the words of the directory are as they were, and that of its table. -/
theorem DirOk.pageMap_congr (h : DirOk m dir) {v : BitVec 20}
    (hword : ∀ i < 1024, m'.word dir i = m.word dir i)
    (htable : present (m.word dir (v.toNat / 1024)) = true →
      m'.word (tableOf (m.word dir (v.toNat / 1024))) (v.toNat % 1024) =
        m.word (tableOf (m.word dir (v.toNat / 1024))) (v.toNat % 1024)) :
    pageMap m' dir v = pageMap m dir v := by
  have hidx := dirIndex_lt v
  have hv := hword _ hidx
  rw [pageMap, pageMap]
  cases hp : present (m.word dir (v.toNat / 1024)) with
  | false => rw [pageEntry_of_absent (by rw [hv, hp]), pageEntry_of_absent hp]
  | true =>
    have ht := h.table_ne_zero _ hidx hp
    rw [pageEntry_of_present (by rw [hv, hp]) (by rwa [hv]), pageEntry_of_present hp ht, hv,
      htable hp]

/-- An entry is written to a table: another directory finds it if it has the table. -/
theorem pageMap_setWord_other (h' : DirOk m dir') (hshare : MayShare m dir dir') (v : BitVec 20)
    (hp : present (m.word dir (v.toNat / 1024)) = true) :
    pageMap (m.setWord (tableOf (m.word dir (v.toNat / 1024))) (v.toNat % 1024)
        ((phys &&& ~~~0xFFF#32) ||| (flags &&& 0xFFF#32))) dir' v =
      if SharesTable m dir dir' v then newEntry phys flags else pageMap m dir' v := by
  have hidx := dirIndex_lt v
  have hj := tableIndex_lt v
  have hword : ∀ i < 1024, (m.setWord (tableOf (m.word dir (v.toNat / 1024))) (v.toNat % 1024)
      ((phys &&& ~~~0xFFF#32) ||| (flags &&& 0xFFF#32))).word dir' i = m.word dir' i := by
    intro i hi
    rw [word_setWord (tableOf_mod _) h'.aligned hj hi, if_neg]
    exact fun hcon => hshare.table' _ hidx hp hcon.1.symm
  split_ifs with hs
  · obtain ⟨-, hp', heq⟩ := hs
    have hv := hword _ hidx
    have ht := h'.table_ne_zero _ hidx hp'
    rw [pageMap, pageEntry_of_present (by rw [hv, hp']) (by rwa [hv]), hv, heq,
      word_setWord (tableOf_mod _) (tableOf_mod _) hj hj, if_pos ⟨rfl, rfl⟩, decodeEntry_or]
    rfl
  · refine h'.pageMap_congr hword fun hp' => ?_
    rw [word_setWord (tableOf_mod _) (tableOf_mod _) hj hj, if_neg]
    exact fun hcon => hs ⟨hp, hp', hcon.1.symm⟩

/-- An entry is written to a new table: another directory finds what it found. -/
theorem pageMap_linkTable_other (h : DirOk m dir) (h' : DirOk m dir')
    (hshare : MayShare m dir dir') {t : Pmm} {b : ℕ} (ht : Takes m.pmm t {b}) (v : BitVec 20)
    (w : BitVec 32) :
    pageMap ((linkTable m t dir (v.toNat / 1024) b).setWord (b * 4096) (v.toNat % 1024) w) dir' v =
      pageMap m dir' v := by
  have hidx := dirIndex_lt v
  have hj := tableIndex_lt v
  -- the new table and the directory are not what the other one uses
  have hkeep : ∀ p i, p % 4096 = 0 → p / 4096 ∈ m.pmm.usedSet → p ≠ dir → i < 1024 →
      ((linkTable m t dir (v.toNat / 1024) b).setWord (b * 4096) (v.toNat % 1024) w).word p i =
        m.word p i := by
    intro p i hmod hused hne hi
    have hnew := ne_taken ht hused
    rw [word_setWord (Nat.mul_mod_left _ _) hmod hj hi, if_neg fun hcon => hnew hcon.1,
      h.word_link_of_ne hidx hmod hne hi, if_neg hnew]
  refine h'.pageMap_congr (fun i hi => hkeep _ _ h'.aligned h'.owns.dir_used hshare.ne.symm hi)
    fun hp' => ?_
  exact hkeep _ _ (tableOf_mod _) (h'.owns.used _ hidx hp') (hshare.table _ hidx hp') hj

/-- A map into one directory reaches another through the table they share, and only so. -/
theorem pageMap_of_mapPage_other (h : DirOk m dir) (h' : DirOk m dir')
    (hshare : MayShare m dir dir') (hmap : vmmMapPage m dir phys virt flags = (true, m')) :
    m'.currentDirectory = m.currentDirectory ∧ pageMap m' dir' (pageNumber virt) =
      if SharesTable m dir dir' (pageNumber virt) then newEntry phys flags
      else pageMap m dir' (pageNumber virt) := by
  have hidx := dirIndex_lt (pageNumber virt)
  rw [vmmMapPage, pageDirIndex_eq, pageTableIndex_eq, pageNumber_high] at hmap
  cases hp : present (m.word dir ((pageNumber virt).toNat / 1024)) with
  | true =>
    rw [vmmGetPageTable_present hidx hp] at hmap
    dsimp only at hmap
    rw [if_neg (h.table_ne_zero _ hidx hp)] at hmap
    obtain rfl := (Prod.mk.inj hmap).2
    exact ⟨rfl, pageMap_setWord_other h' hshare (pageNumber virt) hp⟩
  | false =>
    rcases vmmGetPageTable_cases hidx hp with ⟨t, heq, -⟩ | ⟨b, t, heq, hb0, hb, ht⟩
    · rw [heq] at hmap
      cases (Prod.mk.inj hmap).1
    · rw [heq] at hmap
      dsimp only at hmap
      rw [if_neg (by omega)] at hmap
      obtain rfl := (Prod.mk.inj hmap).2
      refine ⟨rfl, ?_⟩
      rw [if_neg fun hs => Bool.noConfusion (hp.symm.trans hs.1)]
      exact pageMap_linkTable_other h h' hshare ht (pageNumber virt) _

variable {s s' : Machine} {e : BitVec 20 × BitVec 12}

/-- **What the flush misses**: a page of the current directory that the processor keeps, and that is
mapped anew in another directory, is found where it was, and so where it should be unless the two
directories share its table. -/
theorem mapPage_stale_iff (h : DirOk s.mem dir) (h' : DirOk s.mem s.mem.currentDirectory)
    (hshare : MayShare s.mem dir s.mem.currentDirectory)
    (hkept : s.tlb (pageNumber virt) = some e)
    (hright : pageMap s.mem s.mem.currentDirectory (pageNumber virt) = some e)
    (hmap : s.mapPage dir phys virt flags = (true, s')) :
    s'.lookup (pageNumber virt) = pageMap s'.mem s'.mem.currentDirectory (pageNumber virt) ↔
      (SharesTable s.mem dir s.mem.currentDirectory (pageNumber virt) →
        newEntry phys flags = some e) := by
  rcases hvmm : vmmMapPage s.mem dir phys virt flags with ⟨ok, mem⟩
  rw [Machine.mapPage, hvmm] at hmap
  cases ok with
  | false => cases (Prod.mk.inj hmap).1
  | true =>
    obtain ⟨hcurrent, hentry⟩ := pageMap_of_mapPage_other h h' hshare hvmm
    dsimp only at hmap
    have hne : dir ≠ mem.currentDirectory := fun heq => hshare.ne (heq.trans hcurrent)
    rw [if_pos rfl, Machine.flushIfCurrent, if_neg hne] at hmap
    obtain rfl := (Prod.mk.inj hmap).2
    have hlookup : ({ s with mem } : Machine).lookup (pageNumber virt) = some e := by
      rw [Machine.lookup]
      dsimp only
      rw [hkept]
    rw [hlookup]
    dsimp only
    rw [hcurrent, hentry]
    split_ifs with hs
    · exact ⟨fun heq _ => heq.symm, fun heq => (heq hs).symm⟩
    · exact iff_of_true hright.symm fun hs' => absurd hs' hs

/-- Two directories in blocks `1` and `2` share the table in block `3`, which has one page at 3 GiB,
in block `5`. The second is current. -/
def sharedMem : Mem where
  pmm :=
    { pmmEight with
      memoryMap := fun _ => 0xF#32
      memUsedBlocks := 4
      memUsedBlocks_lt := by decide }
  ram := fun a => if a = 1792 ∨ a = 2816 then 0x3007#32 else if a = 3072 then 0x5003#32 else 0#32
  currentDirectory := 8192

/-- The processor keeps the page. -/
def sharedMachine : Machine :=
  ⟨sharedMem, Function.update (fun _ => none) (pageNumber 0xC0000000#32) (some (5#20, 3#12))⟩

theorem word_sharedMem {i : ℕ} (hi : i < 1024) {dir : ℕ} (hdir : dir = 4096 ∨ dir = 8192) :
    sharedMem.word dir i = if i = 768 then 0x3007#32 else 0#32 := by
  show (if dir / 4 + i = 1792 ∨ dir / 4 + i = 2816 then 0x3007#32
    else if dir / 4 + i = 3072 then 0x5003#32 else 0#32) = _
  refine if_congr ?_ rfl (if_neg ?_)
  · omega
  · omega

theorem present_sharedMem {i : ℕ} (hi : i < 1024) {dir : ℕ} (hdir : dir = 4096 ∨ dir = 8192)
    (hp : present (sharedMem.word dir i) = true) :
    i = 768 ∧ tableOf (sharedMem.word dir i) = 12288 := by
  rw [word_sharedMem hi hdir] at hp ⊢
  split_ifs at hp ⊢ with h
  · exact ⟨h, by decide⟩
  · exact absurd hp (by decide)

theorem dirOk_sharedMem {dir : ℕ} (hdir : dir = 4096 ∨ dir = 8192) : DirOk sharedMem dir := by
  have hused : dir / 4096 ∈ sharedMem.pmm.usedSet := by
    rcases hdir with rfl | rfl <;> decide
  refine ⟨by omega, by omega, ⟨fun i hi hp => ?_, fun i hi j hj hpi hpj _ => ?_, hused,
    fun i hi hp => ?_⟩, fun i hi hp => ?_⟩
  · rw [tableBlock, (present_sharedMem hi hdir hp).2]
    decide
  · rw [(present_sharedMem hi hdir hpi).1, (present_sharedMem hj hdir hpj).1]
  · rw [tableBlock, (present_sharedMem hi hdir hp).2]
    omega
  · rw [(present_sharedMem hi hdir hp).2]
    decide

/-- The page is mapped anew in the first directory: the processor goes on using block `5`. -/
theorem mapPage_stale_shared : ∃ s', sharedMachine.mapPage 4096 0x6000#32 0xC0000000#32 3#32 =
      (true, s') ∧ s'.lookup (pageNumber 0xC0000000#32) ≠
    pageMap s'.mem s'.mem.currentDirectory (pageNumber 0xC0000000#32) := by
  have hdir := dirOk_sharedMem (Or.inl rfl)
  have hdir' := dirOk_sharedMem (Or.inr rfl)
  have hshare : MayShare sharedMem 4096 8192 := by
    refine ⟨by decide, fun i hi hp => ?_, fun i hi hp => ?_⟩
    · rw [(present_sharedMem hi (Or.inr rfl) hp).2]
      decide
    · rw [(present_sharedMem hi (Or.inl rfl) hp).2]
      decide
  obtain ⟨s', hmap⟩ : ∃ s', sharedMachine.mapPage 4096 0x6000#32 0xC0000000#32 3#32 =
      (true, s') := ⟨_, rfl⟩
  have hkept : sharedMachine.tlb (pageNumber 0xC0000000#32) = some (5#20, 3#12) := by
    simp [sharedMachine]
  have hright : pageMap sharedMem 8192 (pageNumber 0xC0000000#32) = some (5#20, 3#12) := by decide
  refine ⟨s', hmap, fun heq => ?_⟩
  have hsame := (mapPage_stale_iff hdir hdir' hshare hkept hright hmap).mp heq (by decide)
  exact absurd hsame (by decide)

end

end

end Rexus
