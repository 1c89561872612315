import Rexus.Mem.PmmInit

/-!
# The memory map that `pmm_init` reads

The regions of the map have ends of sixty-four bits, and `pmm_init` of `mem/pmm.c` cuts them to
thirty-two. Regions that end below the last page of the first 4 GiB are read as they are; the others
and empty ones may be read as something else.

## Main results

* `MapRead` — what the two passes over the map should find
* `mapRead_iff` — the maps for which they do
* `readable_of_below` — all that end below the last page

## Scope

A region has a base and a length of sixty-four bits, and a machine with more than 4 GiB of memory
has regions that lie above what the kernel can address. What the two passes should find is therefore
said of the part of each region below 4 GiB: the highest end of available memory, and the blocks
that a reserved entry has addresses in. The blocks that are marked are those the second pass marks
for the entries, over whatever has been marked before.

The condition is one on the entries that end above the last page, taken together, since what one of
them gets wrong another may make good.
-/

namespace Rexus

open Pmm

/-- The highest of the values that the available entries of a map have. -/
def highest (f : MmapEntry → ℕ) : List MmapEntry → ℕ
  | [] => 0
  | e :: mmap => if e.type = 1 then max (f e) (highest f mmap) else highest f mmap

/-- The end of the part of a region that is below 4 GiB, or the start of the last page if the end is
behind that. -/
def MmapEntry.lowEnd (e : MmapEntry) : ℕ :=
  if 0 < e.length ∧ e.baseAddr < 2 ^ 32 then min (e.baseAddr + e.length) 0xFFFFF000 else 0

/-- A reserved entry with an address in block `b`. -/
def MmapEntry.Reserves (e : MmapEntry) (b : ℕ) : Prop :=
  e.type ≠ 1 ∧ ∃ a, a / 4096 = b ∧ e.Covers a

/-- What the passes should find: the highest end of available memory below 4 GiB, and the blocks
that a reserved entry has addresses in, whatever has been marked before. -/
structure MapRead (mmap : List MmapEntry) : Prop where
  top : memMaxAddr mmap = highest MmapEntry.lowEnd mmap
  reserved : ∀ s : Pmm, s.memBlocks = memMaxAddr mmap / 4096 → ∀ b < s.memBlocks,
    (pmmTestBlock (mmap.foldl markReserved s) b = true ↔
      pmmTestBlock s b = true ∨ ∃ e ∈ mmap, e.Reserves b)
  above : ∀ s : Pmm, s.memBlocks = memMaxAddr mmap / 4096 → ∀ e ∈ mmap, 2 ^ 32 ≤ e.baseAddr →
    ∀ b < s.memBlocks, pmmTestBlock (markReserved s e) b = pmmTestBlock s b

/-- An entry that has addresses below 4 GiB, and ends behind the start of the last page there. -/
structure MmapEntry.Crosses (e : MmapEntry) : Prop where
  length_pos : 0 < e.length
  baseAddr_lt : e.baseAddr < 2 ^ 32
  lt_end : 0xFFFFF000 < e.baseAddr + e.length

/-- The maps that are read as they are. No entry needs to be looked at that is not empty and ends
below the last page. -/
structure Readable (mmap : List MmapEntry) : Prop where
  /-- Where an available entry is empty or ends behind that, its end is cut to one that is not too
  high; -/
  cut : ∀ e ∈ mmap, e.type = 1 → e.length = 0 ∨ 0xFFFFF000 < e.baseAddr + e.length →
    (e.baseAddr + e.length) % 2 ^ 32 ≤ highest MmapEntry.lowEnd mmap
  /-- and where one crosses the last page, some end is cut to the start of that page. -/
  full : (∃ e ∈ mmap, e.type = 1 ∧ e.Crosses) →
    ∃ e ∈ mmap, e.type = 1 ∧ (e.baseAddr + e.length) % 2 ^ 32 = 0xFFFFF000
  /-- A reserved entry from 4 GiB on is cut to no block, or to blocks that are not there; -/
  above : ∀ e ∈ mmap, e.type ≠ 1 → 2 ^ 32 ≤ e.baseAddr →
    blockEnd e ≤ blockStart e ∨ highest MmapEntry.lowEnd mmap / 4096 ≤ blockStart e
  /-- an empty one inside a block is in a block that is reserved, or not there; -/
  empty : ∀ e ∈ mmap, e.type ≠ 1 → e.length = 0 → e.baseAddr < 2 ^ 32 → e.baseAddr % 4096 ≠ 0 →
    e.baseAddr / 4096 < highest MmapEntry.lowEnd mmap / 4096 →
    ∃ e' ∈ mmap, e'.Reserves (e.baseAddr / 4096)
  /-- and where one crosses the last page, the blocks from its cut end on are marked for others. -/
  crossing : ∀ e ∈ mmap, e.type ≠ 1 → e.Crosses → ∀ b, e.baseAddr / 4096 ≤ b → blockEnd e ≤ b →
    b < highest MmapEntry.lowEnd mmap / 4096 → ∃ e' ∈ mmap, e'.Marks b

variable {mmap : List MmapEntry} {e : MmapEntry} {f : MmapEntry → ℕ} {b n : ℕ}

/-! ### The highest end -/

theorem le_highest (he : e ∈ mmap) (htype : e.type = 1) : f e ≤ highest f mmap := by
  induction mmap with
  | nil => exact absurd he List.not_mem_nil
  | cons e' mmap ih =>
    rw [highest]
    rcases List.mem_cons.mp he with rfl | he
    · rw [if_pos htype]
      exact le_max_left _ _
    · have hle := ih he
      split_ifs
      · exact hle.trans (le_max_right _ _)
      · exact hle

theorem highest_attained (f : MmapEntry → ℕ) (mmap : List MmapEntry) :
    highest f mmap = 0 ∨ ∃ e ∈ mmap, e.type = 1 ∧ f e = highest f mmap := by
  induction mmap with
  | nil => exact Or.inl rfl
  | cons e mmap ih =>
    have hrest : highest f mmap = 0 ∨ ∃ e' ∈ e :: mmap, e'.type = 1 ∧ f e' = highest f mmap :=
      ih.imp_right fun ⟨e', he', h⟩ => ⟨e', List.mem_cons_of_mem _ he', h⟩
    rw [highest]
    split_ifs with htype
    · rcases max_choice (f e) (highest f mmap) with h | h
      · rw [h]
        exact Or.inr ⟨e, List.mem_cons_self, htype, rfl⟩
      · rwa [h]
    · exact hrest

theorem highest_eq_of_le (hle : ∀ e ∈ mmap, e.type = 1 → f e ≤ n)
    (hn : n = 0 ∨ ∃ e ∈ mmap, e.type = 1 ∧ f e = n) : highest f mmap = n := by
  refine le_antisymm ?_ ?_
  · rcases highest_attained f mmap with h | ⟨e, he, htype, h⟩
    · omega
    · exact h ▸ hle e he htype
  · rcases hn with rfl | ⟨e, he, htype, rfl⟩
    · exact Nat.zero_le _
    · exact le_highest he htype

theorem memMaxAddr_eq_highest (mmap : List MmapEntry) :
    memMaxAddr mmap = highest (fun e => (e.baseAddr + e.length) % 2 ^ 32) mmap := by
  rw [memMaxAddr_eq_availableTop]
  induction mmap with
  | nil => rfl
  | cons e mmap ih => rw [availableTop, highest, ih]

theorem lowEnd_le (e : MmapEntry) : e.lowEnd ≤ 0xFFFFF000 := by
  rw [MmapEntry.lowEnd]
  split_ifs
  · exact min_le_right _ _
  · exact Nat.zero_le _

theorem highest_lowEnd_le (mmap : List MmapEntry) :
    highest MmapEntry.lowEnd mmap ≤ 0xFFFFF000 := by
  rcases highest_attained MmapEntry.lowEnd mmap with h | ⟨e, -, -, h⟩
  · omega
  · exact h ▸ lowEnd_le e

/-- The first pass finds the right end just where `Readable` says so. -/
theorem memMaxAddr_eq_iff (mmap : List MmapEntry) :
    memMaxAddr mmap = highest MmapEntry.lowEnd mmap ↔
      (∀ e ∈ mmap, e.type = 1 → e.length = 0 ∨ 0xFFFFF000 < e.baseAddr + e.length →
        (e.baseAddr + e.length) % 2 ^ 32 ≤ highest MmapEntry.lowEnd mmap) ∧
      ((∃ e ∈ mmap, e.type = 1 ∧ e.Crosses) →
        ∃ e ∈ mmap, e.type = 1 ∧ (e.baseAddr + e.length) % 2 ^ 32 = 0xFFFFF000) := by
  have htop := highest_lowEnd_le mmap
  rw [memMaxAddr_eq_highest]
  constructor
  · intro h
    refine ⟨fun e he htype _ => ?_, fun ⟨e, he, htype, hcross⟩ => ?_⟩
    · exact h ▸ le_highest (f := fun e => (e.baseAddr + e.length) % 2 ^ 32) he htype
    · have hle := le_highest (f := MmapEntry.lowEnd) he htype
      rw [MmapEntry.lowEnd, if_pos ⟨hcross.length_pos, hcross.baseAddr_lt⟩,
        min_eq_right (Nat.le_of_lt hcross.lt_end)] at hle
      rcases highest_attained (fun e => (e.baseAddr + e.length) % 2 ^ 32) mmap with
        h0 | ⟨e', he', htype', h'⟩
      · omega
      · exact ⟨e', he', htype', by omega⟩
  · rintro ⟨hcut, hfull⟩
    refine highest_eq_of_le (fun e he htype => ?_) ?_
    · by_cases hodd : e.length = 0 ∨ 0xFFFFF000 < e.baseAddr + e.length
      · exact hcut e he htype hodd
      · have hle := le_highest (f := MmapEntry.lowEnd) he htype
        rw [MmapEntry.lowEnd, if_pos (by omega), min_eq_left (by omega)] at hle
        omega
    · rcases highest_attained MmapEntry.lowEnd mmap with h | ⟨e, he, htype, h⟩
      · exact Or.inl h
      · rw [MmapEntry.lowEnd] at h
        split_ifs at h with hlow
        · by_cases hcross : 0xFFFFF000 < e.baseAddr + e.length
          · obtain ⟨e', he', htype', h'⟩ := hfull ⟨e, he, htype, hlow.1, hlow.2, hcross⟩
            exact Or.inr ⟨e', he', htype', by omega⟩
          · exact Or.inr ⟨e, he, htype, by omega⟩
        · exact Or.inl h.symm

/-! ### The blocks that are marked -/

/-- The second pass, from no mark at all, shows what it marks. -/
theorem reserved_iff_marks (mmap : List MmapEntry) (P : ℕ → Prop) :
    (∀ s : Pmm, s.memBlocks = memMaxAddr mmap / 4096 → ∀ b < s.memBlocks,
      (pmmTestBlock (mmap.foldl markReserved s) b = true ↔ pmmTestBlock s b = true ∨ P b)) ↔
      ∀ b < memMaxAddr mmap / 4096, (∃ e ∈ mmap, e.Marks b) ↔ P b := by
  constructor
  · intro h b hb
    have hclear := pmmTestBlock_pmmCleared (fun _ => 0#32) (memMaxAddr_lt mmap) hb
    have hpass := h (pmmCleared (fun _ => 0#32) (memMaxAddr mmap) (memMaxAddr_lt mmap)) rfl b hb
    rw [(marked_foldl_markReserved mmap _).test, hclear] at hpass
    simpa [pmmCleared, hb] using hpass
  · intro h s hs b hb
    rw [(marked_foldl_markReserved mmap s).test, and_iff_left hb, h b (hs ▸ hb), or_comm]

/-- So does an entry by itself. -/
theorem above_iff_marks (mmap : List MmapEntry) (e : MmapEntry) :
    (∀ s : Pmm, s.memBlocks = memMaxAddr mmap / 4096 → ∀ b < s.memBlocks,
      pmmTestBlock (markReserved s e) b = pmmTestBlock s b) ↔
      ∀ b < memMaxAddr mmap / 4096, ¬ e.Marks b := by
  constructor
  · intro h b hb hmarks
    have hclear := pmmTestBlock_pmmCleared (fun _ => 0#32) (memMaxAddr_lt mmap) hb
    have hentry := h (pmmCleared (fun _ => 0#32) (memMaxAddr mmap) (memMaxAddr_lt mmap)) rfl b hb
    have hset := ((marked_markReserved (pmmCleared (fun _ => 0#32) (memMaxAddr mmap)
      (memMaxAddr_lt mmap)) e).test b).mpr (Or.inl ⟨hmarks, hb⟩)
    rw [hentry, hclear] at hset
    exact Bool.false_ne_true hset
  · intro h s hs b hb
    rw [Bool.eq_iff_iff, (marked_markReserved s e).test, or_iff_right]
    exact fun hmarks => h b (hs ▸ hb) hmarks.1

/-- An entry that is not empty and has addresses below 4 GiB marks no block it has no address in, of
those below the last. -/
theorem MmapEntry.Marks.reserves (h : e.Marks b) (hlength : 0 < e.length)
    (hbase : e.baseAddr < 2 ^ 32) (hb : b < 0xFFFFF) : e.Reserves b := by
  obtain ⟨htype, hstart, hend⟩ := h
  rw [blockStart] at hstart
  rw [blockEnd] at hend
  exact ⟨htype, max e.baseAddr (b * 4096), by omega, le_max_left _ _, by omega⟩

/-- It marks those it has, up to its cut end. -/
theorem MmapEntry.Reserves.marks (h : e.Reserves b) (hb : b < 0xFFFFF) :
    0 < e.length ∧ e.baseAddr < 2 ^ 32 ∧ e.baseAddr / 4096 ≤ b ∧
      (e.Marks b ∨ e.Crosses ∧ blockEnd e ≤ b) := by
  obtain ⟨htype, a, rfl, hfirst, hlast⟩ := h
  have hstart : blockStart e ≤ a / 4096 := by
    rw [blockStart]
    omega
  refine ⟨by omega, by omega, by omega, ?_⟩
  rcases Nat.lt_or_ge (a / 4096) (blockEnd e) with hlt | hge
  · exact Or.inl ⟨htype, hstart, hlt⟩
  · refine Or.inr ⟨⟨by omega, by omega, ?_⟩, hge⟩
    rw [blockEnd] at hge
    omega

/-- An empty entry marks the block it is inside of. -/
theorem marks_of_empty (htype : e.type ≠ 1) (hlength : e.length = 0) (hbase : e.baseAddr < 2 ^ 32)
    (hb : b < 0xFFFFF) : e.Marks b ↔ e.baseAddr % 4096 ≠ 0 ∧ e.baseAddr / 4096 = b := by
  rw [MmapEntry.Marks, and_iff_right htype, blockStart, blockEnd, hlength]
  omega

/-- A map of entries that are not empty and end below the last page is read as it is. -/
theorem readable_of_below
    (h : ∀ e ∈ mmap, 0 < e.length ∧ e.baseAddr + e.length ≤ 0xFFFFF000) : Readable mmap where
  cut e he _ hodd := by
    have := h e he
    omega
  full := fun ⟨e, he, _, hcross⟩ => absurd hcross.lt_end (Nat.not_lt.mpr (h e he).2)
  above e he _ hbase := by
    have := h e he
    omega
  empty e he _ hlength := by
    have := h e he
    omega
  crossing e he _ hcross := absurd hcross.lt_end (Nat.not_lt.mpr (h e he).2)

/-- **The maps that are read as they are**: the two passes find what they should just there. -/
theorem mapRead_iff (mmap : List MmapEntry) : MapRead mmap ↔ Readable mmap := by
  have htop := highest_lowEnd_le mmap
  have hblock : ∀ b < highest MmapEntry.lowEnd mmap / 4096, b < 0xFFFFF := fun b hb => by omega
  constructor
  · intro h
    obtain ⟨hcut, hfull⟩ := (memMaxAddr_eq_iff mmap).mp h.top
    have hmarks := (reserved_iff_marks mmap _).mp h.reserved
    rw [h.top] at hmarks
    refine ⟨hcut, hfull, fun e he htype hbase => ?_, fun e he htype hlength hbase hin hb => ?_,
      fun e he htype hcross b hstart hend hb => ?_⟩
    · have hnone := (above_iff_marks mmap e).mp fun s hs => h.above s hs e he hbase
      rw [h.top] at hnone
      by_contra hcon
      obtain ⟨hlt, hthere⟩ := not_or.mp hcon
      exact hnone (blockStart e) (Nat.not_le.mp hthere) ⟨htype, le_rfl, Nat.not_le.mp hlt⟩
    · exact (hmarks _ hb).mp
        ⟨e, he, (marks_of_empty htype hlength hbase (hblock _ hb)).mpr ⟨hin, rfl⟩⟩
    · have hend' := hcross.lt_end
      have hbase := hcross.baseAddr_lt
      have hlast := hblock b hb
      exact (hmarks b hb).mpr
        ⟨e, he, htype, max e.baseAddr (b * 4096), by omega, le_max_left _ _, by omega⟩
  · intro h
    have hmax := (memMaxAddr_eq_iff mmap).mpr ⟨h.cut, h.full⟩
    have habove : ∀ e ∈ mmap, 2 ^ 32 ≤ e.baseAddr →
        ∀ b < highest MmapEntry.lowEnd mmap / 4096, ¬ e.Marks b := by
      intro e he hbase b hb ⟨htype, hstart, hend⟩
      rcases h.above e he htype hbase with hnone | hfar <;> omega
    refine ⟨hmax, (reserved_iff_marks mmap _).mpr fun b hb => ?_, fun s hs e he hbase =>
      (above_iff_marks mmap e).mpr (hmax ▸ habove e he hbase) s hs⟩
    rw [hmax] at hb
    constructor
    · rintro ⟨e, he, hmarks⟩
      rcases Nat.lt_or_ge e.baseAddr (2 ^ 32) with hbase | hbase
      · rcases Nat.eq_zero_or_pos e.length with hlength | hlength
        · obtain ⟨hin, rfl⟩ := (marks_of_empty hmarks.1 hlength hbase (hblock b hb)).mp hmarks
          exact h.empty e he hmarks.1 hlength hbase hin hb
        · exact ⟨e, he, hmarks.reserves hlength hbase (hblock b hb)⟩
      · exact absurd hmarks (habove e he hbase b hb)
    · rintro ⟨e, he, hreserves⟩
      obtain ⟨-, -, hstart, hmarks | ⟨hcross, hend⟩⟩ := hreserves.marks (hblock b hb)
      · exact ⟨e, he, hmarks⟩
      · exact h.crossing e he hreserves.1 hcross b hstart hend hb

/-- Memory from 4 GiB on is taken for memory that ends at 1 GiB. -/
theorem not_mapRead_high : ¬ MapRead [⟨0, 0x9FC00, 1⟩, ⟨0x100000000, 0x40000000, 1⟩] := fun h =>
  absurd h.top (by decide)

end Rexus
