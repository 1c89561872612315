import Rexus.Mem.Vmm

/-!
# A directory as one flat map

A directory and its tables are there to be read as a single map from virtual page numbers to a
frame and flags. `PageMap` is that map, `pageMap` reads it off the memory, and each operation on a
directory does to the one what it should do to the other, as long as the tables are the directory's
own.

## Main results

* `vmmGetMapping_eq` — a lookup reads the flat map, whatever the state
* `DirOk` — a directory owns its tables; `pageMap_of_vmmMapPage`, `pageMap_of_vmmUnmapPage`
* `vmm_run` — every run of maps and unmaps on a new directory

## Conventions

A flat map takes a page to nothing, or to a frame and the twelve low bits of its entry; two entries
that differ in these bits are different mappings, though the processor may treat them alike. Frames
are any, also such that no memory is there. Mapping with flags without `VMM_PRESENT` writes an entry
that nothing finds, which is the same as to unmap; so it is in the flat map.

A run is of one directory, from its creation on. Its calls return false when there is no memory for
a table, and then the flat map stays; the caller keeps the flat map by what the calls return.
Between the calls nobody else touches the blocks of the directory. That several directories are used
in turns, that other clients allocate, and what the processor has kept of old entries is in
`Mem/AddressSpaces.lean`.
-/

namespace Rexus

open AlignedWord Mem Pmm

/-! ### The flat map -/

/-- A map from virtual page numbers to frames and flags. -/
abbrev PageMap : Type := BitVec 20 → Option (BitVec 20 × BitVec 12)

/-- The page an address lies in. -/
def pageNumber (virt : BitVec 32) : BitVec 20 := virt.extractLsb' 12 20

namespace PageMap

/-- Map the page of `virt` to the frame of `phys`; flags without `VMM_PRESENT` unmap it. -/
def map (r : PageMap) (phys virt flags : BitVec 32) : PageMap :=
  Function.update r (pageNumber virt)
    (if present flags then some (phys.extractLsb' 12 20, flags.extractLsb' 0 12) else none)

/-- Unmap the page of `virt`. -/
def unmap (r : PageMap) (virt : BitVec 32) : PageMap := Function.update r (pageNumber virt) none

/-- The address `virt` translates to: the frame, and the offset of `virt` in its page. -/
def translate (r : PageMap) (virt : BitVec 32) : Option (BitVec 32) :=
  (r (pageNumber virt)).map fun e => e.1 ++ virt.extractLsb' 0 12

end PageMap

/-- What an entry of a table says. -/
def decodeEntry (e : BitVec 32) : Option (BitVec 20 × BitVec 12) :=
  if present e then some (e.extractLsb' 12 20, e.extractLsb' 0 12) else none

/-- The entry of page `v` in `dir`, or zero where there is no table. -/
def pageEntry (m : Mem) (dir : ℕ) (v : BitVec 20) : BitVec 32 :=
  let table := (vmmGetPageTable m dir (v.toNat / 1024) false).1
  if table = 0 then 0#32 else m.word table (v.toNat % 1024)

/-- The flat map that `dir` and its tables amount to. -/
def pageMap (m : Mem) (dir : ℕ) : PageMap := fun v => decodeEntry (pageEntry m dir v)

theorem pageNumber_toNat (virt : BitVec 32) : (pageNumber virt).toNat = virt.toNat / 4096 := by
  rw [pageNumber, BitVec.extractLsb'_toNat, Nat.shiftRight_eq_div_pow]
  exact Nat.mod_eq_of_lt (by have := virt.isLt; omega)

theorem pageDirIndex_eq (virt : BitVec 32) :
    pageDirIndex virt = (pageNumber virt).toNat / 1024 := by
  rw [pageDirIndex, BitVec.toNat_and, BitVec.toNat_ushiftRight, pageNumber_toNat,
    show (0x3FF#32).toNat = 2 ^ 10 - 1 from rfl, Nat.and_two_pow_sub_one_eq_mod,
    Nat.shiftRight_eq_div_pow]
  have := virt.isLt
  omega

theorem pageTableIndex_eq (virt : BitVec 32) :
    pageTableIndex virt = (pageNumber virt).toNat % 1024 := by
  rw [pageTableIndex, BitVec.toNat_and, BitVec.toNat_ushiftRight, pageNumber_toNat,
    show (0x3FF#32).toNat = 2 ^ 10 - 1 from rfl, Nat.and_two_pow_sub_one_eq_mod,
    Nat.shiftRight_eq_div_pow]

/-- Cutting an address to its page does not change its page. -/
theorem pageNumber_high (virt : BitVec 32) :
    pageNumber (virt &&& ~~~0xFFF#32) = pageNumber virt := by
  refine BitVec.eq_of_toNat_eq ?_
  rw [pageNumber_toNat, pageNumber_toNat]
  have hround : (virt &&& ~~~0xFFF#32).toNat = virt.toNat / 4096 * 4096 := toNat_high virt 12
  rw [hround, Nat.mul_div_cancel _ (by decide)]

theorem dirIndex_lt (v : BitVec 20) : v.toNat / 1024 < 1024 := by
  have := v.isLt
  omega

theorem tableIndex_lt (v : BitVec 20) : v.toNat % 1024 < 1024 := Nat.mod_lt _ (by decide)

/-- A page number is its two indices. -/
theorem pageNumber_ext {v v' : BitVec 20} (hdir : v.toNat / 1024 = v'.toNat / 1024)
    (htable : v.toNat % 1024 = v'.toNat % 1024) : v = v' := by
  refine BitVec.eq_of_toNat_eq ?_
  rw [← Nat.div_add_mod v.toNat 1024, hdir, htable, Nat.div_add_mod]

/-- The word `vmm_map_page` writes says what it was given. -/
theorem decodeEntry_or (phys flags : BitVec 32) :
    decodeEntry ((phys &&& ~~~0xFFF#32) ||| (flags &&& 0xFFF#32)) =
      if present flags then some (phys.extractLsb' 12 20, flags.extractLsb' 0 12) else none := by
  have hmask : (0xFFF#32) = lowMask 32 12 := rfl
  have hbit : ∀ i, ((phys &&& ~~~0xFFF#32) ||| (flags &&& 0xFFF#32)).getLsbD i =
      if i < 12 then flags.getLsbD i else phys.getLsbD i := by
    intro i
    rw [BitVec.getLsbD_or, hmask, getLsbD_and_not_lowMask, getLsbD_and_lowMask]
    by_cases hi : i < 12 <;> simp [hi]
  have hframe : ((phys &&& ~~~0xFFF#32) ||| (flags &&& 0xFFF#32)).extractLsb' 12 20 =
      phys.extractLsb' 12 20 := by
    refine BitVec.eq_of_getLsbD_eq fun i hi => ?_
    rw [BitVec.getLsbD_extractLsb', BitVec.getLsbD_extractLsb', hbit, if_neg (by omega)]
  have hflags : ((phys &&& ~~~0xFFF#32) ||| (flags &&& 0xFFF#32)).extractLsb' 0 12 =
      flags.extractLsb' 0 12 := by
    refine BitVec.eq_of_getLsbD_eq fun i hi => ?_
    rw [BitVec.getLsbD_extractLsb', BitVec.getLsbD_extractLsb', hbit, if_pos (by omega)]
  have hpresent : present ((phys &&& ~~~0xFFF#32) ||| (flags &&& 0xFFF#32)) = present flags := by
    rw [present_eq, present_eq, hbit]
    rfl
  rw [decodeEntry, hpresent, hframe, hflags]

/-- **A lookup reads the flat map.** -/
theorem vmmGetMapping_eq (m : Mem) (dir : ℕ) (virt : BitVec 32) :
    vmmGetMapping m dir virt = (pageMap m dir).translate virt := by
  have hstate := vmmGetPageTable_false m dir ((pageNumber virt).toNat / 1024)
  rw [vmmGetMapping, PageMap.translate, pageMap, pageEntry, pageDirIndex_eq, pageTableIndex_eq]
  rcases h : vmmGetPageTable m dir ((pageNumber virt).toNat / 1024) false with ⟨table, m'⟩
  rw [h] at hstate
  obtain rfl : m' = m := hstate
  by_cases hnull : table = 0
  · simp [hnull, decodeEntry, present]
  · dsimp only
    rw [if_neg hnull, if_neg hnull, decodeEntry]
    split_ifs
    · rw [Option.map_some]
      exact congrArg some (high_add_low (m := 20) (k := 12) _ _)
    · rfl

/-- An address translates exactly if the entry of its page is present. -/
theorem isSome_vmmGetMapping (m : Mem) (dir : ℕ) (virt : BitVec 32) :
    (vmmGetMapping m dir virt).isSome = present (pageEntry m dir (pageNumber virt)) := by
  rw [vmmGetMapping_eq, PageMap.translate, Option.isSome_map, pageMap, decodeEntry]
  cases present (pageEntry m dir (pageNumber virt)) <;> rfl

/-- What it translates to. -/
theorem vmmGetMapping_of_present {m : Mem} {dir : ℕ} {virt : BitVec 32}
    (h : present (pageEntry m dir (pageNumber virt)) = true) :
    vmmGetMapping m dir virt =
      some ((pageEntry m dir (pageNumber virt) &&& ~~~0xFFF#32) + pageOffset virt) := by
  rw [vmmGetMapping_eq, PageMap.translate, pageMap, decodeEntry, if_pos h]
  exact congrArg some (high_add_low (m := 20) (k := 12) _ _).symm

/-! ### Directories that own their tables -/

/-- The invariant of a directory: its block and those of its tables are allocated and all
different, and none is the null pointer. -/
structure DirOk (m : Mem) (dir : ℕ) : Prop where
  aligned : dir % 4096 = 0
  ne_zero : dir ≠ 0
  owns : OwnsTables m dir
  table_ne_zero : ∀ i < 1024, present (m.word dir i) = true → tableOf (m.word dir i) ≠ 0

theorem pageEntry_of_present {m : Mem} {dir : ℕ} {v : BitVec 20}
    (hp : present (m.word dir (v.toNat / 1024)) = true)
    (ht : tableOf (m.word dir (v.toNat / 1024)) ≠ 0) :
    pageEntry m dir v = m.word (tableOf (m.word dir (v.toNat / 1024))) (v.toNat % 1024) := by
  rw [pageEntry, vmmGetPageTable_present (dirIndex_lt v) hp]
  exact if_neg ht

theorem pageEntry_of_absent {m : Mem} {dir : ℕ} {v : BitVec 20}
    (hp : present (m.word dir (v.toNat / 1024)) = false) : pageEntry m dir v = 0#32 := by
  rw [pageEntry, vmmGetPageTable_absent hp]
  exact if_pos rfl

namespace DirOk

variable {m : Mem} {dir idx : ℕ}

theorem table_ne_dir (h : DirOk m dir) (hidx : idx < 1024)
    (hp : present (m.word dir idx) = true) : tableOf (m.word dir idx) ≠ dir := fun heq =>
  h.owns.ne_dir idx hidx hp (congrArg (· / 4096) heq)

theorem table_inj (h : DirOk m dir) {i j : ℕ} (hi : i < 1024) (hj : j < 1024)
    (hpi : present (m.word dir i) = true) (hpj : present (m.word dir j) = true)
    (heq : tableOf (m.word dir i) = tableOf (m.word dir j)) : i = j :=
  h.owns.inj i hi j hj hpi hpj (congrArg (· / 4096) heq)

/-- Only the words of the directory and the set of used blocks matter. -/
theorem congr (h : DirOk m dir) {m' : Mem} (hword : ∀ i < 1024, m'.word dir i = m.word dir i)
    (hused : m.pmm.usedSet ⊆ m'.pmm.usedSet) : DirOk m' dir where
  aligned := h.aligned
  ne_zero := h.ne_zero
  owns :=
    { used := fun i hi hp => by
        rw [hword i hi] at hp
        rw [tableBlock, hword i hi]
        exact hused (h.owns.used i hi hp)
      inj := fun i hi j hj hpi hpj heq => by
        rw [hword i hi] at hpi
        rw [hword j hj] at hpj
        rw [tableBlock, tableBlock, hword i hi, hword j hj] at heq
        exact h.owns.inj i hi j hj hpi hpj heq
      dir_used := hused h.owns.dir_used
      ne_dir := fun i hi hp => by
        rw [hword i hi] at hp
        rw [tableBlock, hword i hi]
        exact h.owns.ne_dir i hi hp }
  table_ne_zero := fun i hi hp => by
    rw [hword i hi] at hp ⊢
    exact h.table_ne_zero i hi hp

/-- Losing a block to the allocator changes nothing for a directory. -/
theorem takes (h : DirOk m dir) {t : Pmm} {B : Finset ℕ} (ht : Takes m.pmm t B) :
    DirOk { m with pmm := t } dir :=
  h.congr (fun _ _ => rfl) ht.subset

/-- Writing an entry of a table of the directory. -/
theorem setWord (h : DirOk m dir) (hidx : idx < 1024) (hp : present (m.word dir idx) = true)
    {j : ℕ} (hj : j < 1024) (e : BitVec 32) :
    DirOk (m.setWord (tableOf (m.word dir idx)) j e) dir := by
  refine h.congr (fun i hi => ?_) (Finset.Subset.refl _)
  rw [word_setWord (tableOf_mod _) h.aligned hj hi, if_neg]
  exact fun hcon => h.table_ne_dir hidx hp hcon.1.symm

/-- It changes the entry of one page, because no other entry refers to that table. -/
theorem pageEntry_setWord (h : DirOk m dir) {v : BitVec 20}
    (hp : present (m.word dir (v.toNat / 1024)) = true) (e : BitVec 32) (v' : BitVec 20) :
    pageEntry (m.setWord (tableOf (m.word dir (v.toNat / 1024))) (v.toNat % 1024) e) dir v' =
      if v' = v then e else pageEntry m dir v' := by
  have hword : ∀ i < 1024, (m.setWord (tableOf (m.word dir (v.toNat / 1024)))
      (v.toNat % 1024) e).word dir i = m.word dir i := by
    intro i hi
    rw [word_setWord (tableOf_mod _) h.aligned (tableIndex_lt v) hi, if_neg]
    exact fun hcon => h.table_ne_dir (dirIndex_lt v) hp hcon.1.symm
  have hdir := hword _ (dirIndex_lt v')
  cases hp' : present (m.word dir (v'.toNat / 1024)) with
  | false =>
    rw [pageEntry_of_absent (by rw [hdir, hp']), pageEntry_of_absent hp', if_neg]
    rintro rfl
    rw [hp] at hp'
    exact Bool.noConfusion hp'
  | true =>
    have ht' := h.table_ne_zero _ (dirIndex_lt v') hp'
    rw [pageEntry_of_present (by rw [hdir, hp']) (by rwa [hdir]), pageEntry_of_present hp' ht',
      hdir, word_setWord (tableOf_mod _) (tableOf_mod _) (tableIndex_lt v) (tableIndex_lt v')]
    refine if_congr ⟨fun ⟨htable, hindex⟩ => ?_, fun heq => by rw [heq]; exact ⟨rfl, rfl⟩⟩ rfl rfl
    exact pageNumber_ext (h.table_inj (dirIndex_lt v') (dirIndex_lt v) hp' hp htable) hindex

section Link

variable {b : ℕ} {t : Pmm} (h : DirOk m dir) (hidx : idx < 1024)
  (habsent : present (m.word dir idx) = false) (hb0 : b ≠ 0) (hb : b < 2 ^ 20)
  (ht : Takes m.pmm t {b})

include h ht in
/-- The block of the directory is in use, so it is not that of the new table. -/
theorem new_ne_dir : b * 4096 ≠ dir := by
  rintro rfl
  have hused := h.owns.dir_used
  rw [Nat.mul_div_cancel _ (by decide)] at hused
  exact ht.notMem (Finset.mem_singleton_self b) hused

include h hidx

/-- The words of pages that are neither the directory nor the new table. -/
theorem word_link_of_ne {p j : ℕ} (hp : p % 4096 = 0) (hpd : p ≠ dir) (hj : j < 1024) :
    (linkTable m t dir idx b).word p j = if p = b * 4096 then 0#32 else m.word p j := by
  rw [linkTable, word_setWord h.aligned hp hidx hj, if_neg (fun hcon => hpd hcon.1),
    word_clearPage (Nat.mul_mod_left _ _) hp hj]
  rfl

include ht

/-- The words of a directory to which a new table has been linked. -/
theorem word_link {i : ℕ} (hi : i < 1024) :
    (linkTable m t dir idx b).word dir i = if i = idx then pack 12 b 7#32 else m.word dir i := by
  rw [linkTable, word_setWord h.aligned h.aligned hidx hi,
    word_clearPage (Nat.mul_mod_left _ _) h.aligned hi, if_neg (h.new_ne_dir ht).symm]
  simp only [true_and]
  rfl

/-- The new table is linked. -/
theorem present_link : present ((linkTable m t dir idx b).word dir idx) = true := by
  rw [h.word_link hidx ht hidx, if_pos rfl, present_pack]
  rfl

include hb

/-- And it is found again through the directory. -/
theorem tableOf_link : tableOf ((linkTable m t dir idx b).word dir idx) = b * 4096 := by
  rw [h.word_link hidx ht hidx, if_pos rfl, tableOf_pack hb (by decide)]

include hb0

/-- **A new table keeps the invariant,** -/
theorem link : DirOk (linkTable m t dir idx b) dir := by
  have hmem : b ∈ t.usedSet := ht.taken_subset (Finset.mem_singleton_self b)
  have hnot : b ∉ m.pmm.usedSet := ht.notMem (Finset.mem_singleton_self b)
  have hblock : tableOf (pack 12 b (7#32)) / 4096 = b := by
    rw [tableOf_pack hb (by decide), Nat.mul_div_cancel _ (by decide)]
  -- an entry is the new one, or one the directory had before
  refine ⟨h.aligned, h.ne_zero, ⟨fun i hi hp => ?_, fun i hi j hj hpi hpj heq => ?_,
    ht.subset h.owns.dir_used, fun i hi hp => ?_⟩, fun i hi hp => ?_⟩
  · rw [h.word_link hidx ht hi] at hp
    rw [tableBlock, h.word_link hidx ht hi]
    split_ifs at hp ⊢
    · exact hblock.symm ▸ hmem
    · exact ht.subset (h.owns.used i hi hp)
  · rw [h.word_link hidx ht hi] at hpi
    rw [h.word_link hidx ht hj] at hpj
    rw [tableBlock, tableBlock, h.word_link hidx ht hi, h.word_link hidx ht hj] at heq
    split_ifs at hpi hpj heq with hii hji hji
    · rw [hii, hji]
    · rw [hblock] at heq
      exact absurd (heq ▸ h.owns.used j hj hpj) hnot
    · rw [hblock] at heq
      exact absurd (heq ▸ h.owns.used i hi hpi) hnot
    · exact h.owns.inj i hi j hj hpi hpj heq
  · rw [h.word_link hidx ht hi] at hp
    rw [tableBlock, h.word_link hidx ht hi]
    split_ifs at hp ⊢
    · rw [hblock]
      rintro rfl
      exact hnot h.owns.dir_used
    · exact h.owns.ne_dir i hi hp
  · rw [h.word_link hidx ht hi] at hp ⊢
    split_ifs at hp ⊢
    · rw [tableOf_pack hb (by decide)]
      omega
    · exact h.table_ne_zero i hi hp

include habsent

/-- **and adds no mapping.** -/
theorem pageEntry_link (v : BitVec 20) :
    pageEntry (linkTable m t dir idx b) dir v = pageEntry m dir v := by
  by_cases hv : v.toNat / 1024 = idx
  · -- the page's table is the new one, where every word is zero
    subst hv
    have hptr := h.tableOf_link hidx hb ht
    rw [pageEntry_of_absent habsent, pageEntry_of_present (h.present_link hidx ht) (by omega),
      hptr, h.word_link_of_ne hidx (Nat.mul_mod_left _ _) (h.new_ne_dir ht) (tableIndex_lt v),
      if_pos rfl]
  · have hdir := h.word_link hidx ht (dirIndex_lt v)
    rw [if_neg hv] at hdir
    cases hp : present (m.word dir (v.toNat / 1024)) with
    | false => rw [pageEntry_of_absent (by rw [hdir, hp]), pageEntry_of_absent hp]
    | true =>
      have ht0 := h.table_ne_zero _ (dirIndex_lt v) hp
      have hne : tableOf (m.word dir (v.toNat / 1024)) ≠ b * 4096 := by
        intro heq
        have hused := h.owns.used _ (dirIndex_lt v) hp
        rw [tableBlock, heq, Nat.mul_div_cancel _ (by decide)] at hused
        exact ht.notMem (Finset.mem_singleton_self b) hused
      rw [pageEntry_of_present (by rw [hdir, hp]) (by rwa [hdir]), pageEntry_of_present hp ht0,
        hdir, h.word_link_of_ne hidx (tableOf_mod _) (h.table_ne_dir (dirIndex_lt v) hp)
          (tableIndex_lt v), if_neg hne]

end Link

end DirOk

/-! ### The operations on the flat map -/

section Operations

variable {m m' : Mem} {dir : ℕ} {phys virt flags : BitVec 32}

theorem dirOk_vmmCreateDirectory {m₀ : Mem} (h : vmmCreateDirectory m₀ = (dir, m))
    (hdir : dir ≠ 0) : DirOk m dir ∧ pageMap m dir = fun _ => none := by
  rcases vmmCreateDirectory_cases m₀ with ⟨t, heq, -⟩ | ⟨b, t, heq, hb0, hb, ht⟩
  · rw [heq, Prod.mk.injEq] at h
    exact absurd h.1.symm hdir
  · rw [heq, Prod.mk.injEq] at h
    obtain ⟨rfl, rfl⟩ := h
    have hzero : ∀ i < 1024,
        (({ m₀ with pmm := t } : Mem).clearPage (b * 4096)).word (b * 4096) i = 0#32 := by
      intro i hi
      rw [word_clearPage (Nat.mul_mod_left _ _) (Nat.mul_mod_left _ _) hi, if_pos rfl]
    have habsent : ∀ i < 1024, present ((({ m₀ with pmm := t } : Mem).clearPage
        (b * 4096)).word (b * 4096) i) = false := fun i hi => by rw [hzero i hi]; rfl
    have hno : ∀ {P : Prop} (i : ℕ), i < 1024 → present ((({ m₀ with pmm := t } : Mem).clearPage
        (b * 4096)).word (b * 4096) i) = true → P := by
      intro P i hi hp
      rw [habsent i hi] at hp
      exact Bool.noConfusion hp
    refine ⟨⟨Nat.mul_mod_left _ _, hdir, ⟨fun i hi hp => hno i hi hp,
      fun i hi _ _ hp _ _ => hno i hi hp, ?_, fun i hi hp => hno i hi hp⟩,
      fun i hi hp => hno i hi hp⟩, ?_⟩
    · rw [Nat.mul_div_cancel _ (by decide)]
      exact ht.taken_subset (Finset.mem_singleton_self b)
    · funext v
      rw [pageMap, pageEntry_of_absent (habsent _ (dirIndex_lt v))]
      rfl

/-- Everything `vmm_map_page` can do: fail for want of a table and leave memory as it is, or set
the entry of one page. -/
theorem vmmMapPage_cases (h : DirOk m dir) (phys virt flags : BitVec 32) :
    (∃ t, vmmMapPage m dir phys virt flags = (false, { m with pmm := t }) ∧
        ∃ B, Takes m.pmm t B) ∨
      ∃ m', vmmMapPage m dir phys virt flags = (true, m') ∧ DirOk m' dir ∧
        ∀ v, pageEntry m' dir v = if v = pageNumber virt then
          (phys &&& ~~~0xFFF#32) ||| (flags &&& 0xFFF#32) else pageEntry m dir v := by
  have hidx := dirIndex_lt (pageNumber virt)
  rw [vmmMapPage, pageDirIndex_eq, pageTableIndex_eq, pageNumber_high]
  cases hp : present (m.word dir ((pageNumber virt).toNat / 1024)) with
  | true =>
    refine Or.inr ⟨m.setWord _ _ _, ?_, h.setWord hidx hp (tableIndex_lt _) _,
      h.pageEntry_setWord hp _⟩
    rw [vmmGetPageTable_present hidx hp]
    exact if_neg (h.table_ne_zero _ hidx hp)
  | false =>
    rcases vmmGetPageTable_cases hidx hp with ⟨t, heq, halloc⟩ | ⟨b, t, heq, hb0, hb, ht⟩
    · refine Or.inl ⟨t, ?_, takes_of_null halloc⟩
      rw [heq]
      exact if_pos rfl
    · -- the page's table is the new one, found again through the directory
      have hlink := h.link hidx hb0 hb ht
      have hp' := h.present_link hidx ht
      refine Or.inr ⟨(linkTable m t dir _ b).setWord _ _
        ((phys &&& ~~~0xFFF#32) ||| (flags &&& 0xFFF#32)), ?_,
        hlink.setWord hidx hp' (tableIndex_lt (pageNumber virt)) _, fun v => ?_⟩
      · rw [heq, h.tableOf_link hidx hb ht]
        exact if_neg (by omega)
      · rw [hlink.pageEntry_setWord hp', h.pageEntry_link hidx hp hb0 hb ht]

theorem dirOk_vmmMapPage (h : DirOk m dir) {ok : Bool}
    (hmap : vmmMapPage m dir phys virt flags = (ok, m')) : DirOk m' dir := by
  rcases vmmMapPage_cases h phys virt flags with ⟨t, heq, B, ht⟩ | ⟨u, heq, hu, -⟩
  · rw [heq, Prod.mk.injEq] at hmap
    exact hmap.2 ▸ h.takes ht
  · rw [heq, Prod.mk.injEq] at hmap
    exact hmap.2 ▸ hu

/-- The flat map is in memory, not in the allocator. -/
theorem pageMap_withPmm (m : Mem) (t : Pmm) (dir : ℕ) :
    pageMap { m with pmm := t } dir = pageMap m dir := by
  funext v
  have hidx := dirIndex_lt v
  have hword : ({ m with pmm := t } : Mem).word dir (v.toNat / 1024) =
    m.word dir (v.toNat / 1024) := rfl
  rw [pageMap, pageMap, pageEntry, pageEntry]
  cases hp : present (m.word dir (v.toNat / 1024)) with
  | true =>
    rw [vmmGetPageTable_present hidx (by rw [hword, hp]), vmmGetPageTable_present hidx hp]
    rfl
  | false => rw [vmmGetPageTable_absent (by rw [hword, hp]), vmmGetPageTable_absent hp]; rfl

/-- **`vmm_map_page` maps the page on the flat map,** or, failing, leaves it alone. -/
theorem pageMap_of_vmmMapPage (h : DirOk m dir) {ok : Bool}
    (hmap : vmmMapPage m dir phys virt flags = (ok, m')) :
    pageMap m' dir = if ok then (pageMap m dir).map phys virt flags else pageMap m dir := by
  rcases vmmMapPage_cases h phys virt flags with ⟨t, heq, -⟩ | ⟨u, heq, -, hentry⟩
  · rw [heq, Prod.mk.injEq] at hmap
    obtain ⟨rfl, rfl⟩ := hmap
    exact pageMap_withPmm m t dir
  · rw [heq, Prod.mk.injEq] at hmap
    obtain ⟨rfl, rfl⟩ := hmap
    funext v
    rw [if_pos rfl, PageMap.map, Function.update_apply, pageMap, hentry]
    by_cases hv : v = pageNumber virt
    · rw [if_pos hv, if_pos hv, decodeEntry_or]
    · rw [if_neg hv, if_neg hv]
      rfl

/-- Everything `vmm_unmap_page` can do: find no table, and then the page was not mapped, or clear
the entry of the page. -/
theorem vmmUnmapPage_cases (h : DirOk m dir) (virt : BitVec 32) :
    (vmmUnmapPage m dir virt = (false, m) ∧ pageEntry m dir (pageNumber virt) = 0#32) ∨
      ∃ m', vmmUnmapPage m dir virt = (true, m') ∧ DirOk m' dir ∧
        ∀ v, pageEntry m' dir v = if v = pageNumber virt then 0#32 else pageEntry m dir v := by
  have hidx := dirIndex_lt (pageNumber virt)
  rw [vmmUnmapPage, pageDirIndex_eq, pageTableIndex_eq]
  cases hp : present (m.word dir ((pageNumber virt).toNat / 1024)) with
  | true =>
    refine Or.inr ⟨m.setWord _ _ _, ?_, h.setWord hidx hp (tableIndex_lt _) _,
      h.pageEntry_setWord hp _⟩
    rw [vmmGetPageTable_present hidx hp]
    exact if_neg (h.table_ne_zero _ hidx hp)
  | false =>
    refine Or.inl ⟨?_, pageEntry_of_absent hp⟩
    rw [vmmGetPageTable_absent hp]
    exact if_pos rfl

theorem dirOk_vmmUnmapPage (h : DirOk m dir) {ok : Bool}
    (hunmap : vmmUnmapPage m dir virt = (ok, m')) : DirOk m' dir := by
  rcases vmmUnmapPage_cases h virt with ⟨heq, -⟩ | ⟨u, heq, hu, -⟩
  · rw [heq, Prod.mk.injEq] at hunmap
    exact hunmap.2 ▸ h
  · rw [heq, Prod.mk.injEq] at hunmap
    exact hunmap.2 ▸ hu

/-- **`vmm_unmap_page` unmaps the page on the flat map**, whatever it returns. -/
theorem pageMap_of_vmmUnmapPage (h : DirOk m dir) {ok : Bool}
    (hunmap : vmmUnmapPage m dir virt = (ok, m')) :
    pageMap m' dir = (pageMap m dir).unmap virt := by
  funext v
  rw [PageMap.unmap, Function.update_apply]
  rcases vmmUnmapPage_cases h virt with ⟨heq, hzero⟩ | ⟨u, heq, -, hentry⟩
  · rw [heq, Prod.mk.injEq] at hunmap
    obtain ⟨rfl, rfl⟩ := hunmap
    split_ifs with hv
    · rw [hv, pageMap, hzero]
      rfl
    · rfl
  · rw [heq, Prod.mk.injEq] at hunmap
    obtain ⟨rfl, rfl⟩ := hunmap
    rw [pageMap, hentry]
    split_ifs
    · rfl
    · rfl

end Operations

/-! ### Runs -/

/-- A call on the directory, with the arguments as the code takes them: the offsets of the two
addresses and the upper bits of the flags are cleared by the callee. -/
inductive VmmOp where
  | map (phys virt flags : BitVec 32)
  | unmap (virt : BitVec 32)

/-- The memory and the flat map a caller would keep beside it, from what the calls return. -/
structure VmmClient where
  mem : Mem
  map : PageMap

/-- One call, and what its result tells the caller: a call that says no has changed nothing, as far
as the caller knows, so its own map stays as it was. -/
def VmmClient.step (dir : ℕ) (c : VmmClient) : VmmOp → VmmClient
  | .map phys virt flags =>
    match vmmMapPage c.mem dir phys virt flags with
    | (ok, m) => ⟨m, if ok then c.map.map phys virt flags else c.map⟩
  | .unmap virt =>
    match vmmUnmapPage c.mem dir virt with
    | (ok, m) => ⟨m, if ok then c.map.unmap virt else c.map⟩

/-- The step relation of a run on `dir`. Every call is a step, with any arguments and whatever
memory is left. -/
def VmmClient.Step (dir : ℕ) (c : VmmClient) (op : VmmOp) (c' : VmmClient) : Prop :=
  c' = c.step dir op

/-- The invariant of a run: the directory owns its tables, and the caller's map is the flat map. -/
structure VmmClientInv (dir : ℕ) (c : VmmClient) : Prop where
  dirOk : DirOk c.mem dir
  map : c.map = pageMap c.mem dir

/-- Where `vmm_unmap_page` finds no table the page is not mapped. -/
theorem unmap_eq_of_false {m m' : Mem} {dir : ℕ} {virt : BitVec 32} (h : DirOk m dir)
    (hunmap : vmmUnmapPage m dir virt = (false, m')) :
    m' = m ∧ (pageMap m dir).unmap virt = pageMap m dir := by
  rcases vmmUnmapPage_cases h virt with ⟨heq, hzero⟩ | ⟨u, heq, -, -⟩
  · rw [heq, Prod.mk.injEq] at hunmap
    refine ⟨hunmap.2.symm, Function.update_eq_self_iff.mpr ?_⟩
    rw [pageMap, hzero]
    rfl
  · rw [heq, Prod.mk.injEq] at hunmap
    exact absurd hunmap.1 (by decide)

/-- **One call keeps the invariant.** -/
theorem VmmClientInv.step {dir : ℕ} {c c' : VmmClient} (h : VmmClientInv dir c) {op : VmmOp}
    (hstep : c.Step dir op c') : VmmClientInv dir c' := by
  obtain rfl : c' = c.step dir op := hstep
  cases op with
  | map phys virt flags =>
    rcases hmap : vmmMapPage c.mem dir phys virt flags with ⟨ok, m⟩
    rw [VmmClient.step, hmap]
    refine ⟨dirOk_vmmMapPage h.dirOk hmap, ?_⟩
    rw [pageMap_of_vmmMapPage h.dirOk hmap, ← h.map]
  | unmap virt =>
    rcases hunmap : vmmUnmapPage c.mem dir virt with ⟨ok, m⟩
    rw [VmmClient.step, hunmap]
    refine ⟨dirOk_vmmUnmapPage h.dirOk hunmap, ?_⟩
    cases ok with
    | true => exact h.map ▸ (pageMap_of_vmmUnmapPage h.dirOk hunmap).symm
    | false =>
      obtain ⟨rfl, -⟩ := unmap_eq_of_false h.dirOk hunmap
      exact h.map

/-- What a caller may rely on, whatever it has called so far on `dir`. -/
structure VmmSpec (dir : ℕ) (c : VmmClient) : Prop where
  /-- The entries of the tables are those of the caller's map, flags included, -/
  entries : ∀ v, decodeEntry (pageEntry c.mem dir v) = c.map v
  /-- and every address translates as that map says. -/
  agrees : ∀ va, vmmGetMapping c.mem dir va = c.map.translate va
  /-- A page mapped with `VMM_PRESENT` translates to its frame, plus the offset; -/
  map_self : ∀ phys virt flags m', vmmMapPage c.mem dir phys virt flags = (true, m') →
    present flags = true → ∀ va, pageNumber va = pageNumber virt →
      vmmGetMapping m' dir va = some ((phys &&& ~~~0xFFF#32) + pageOffset va)
  /-- every other page translates as before; -/
  map_other : ∀ phys virt flags ok m', vmmMapPage c.mem dir phys virt flags = (ok, m') →
    ∀ va, pageNumber va ≠ pageNumber virt → vmmGetMapping m' dir va = vmmGetMapping c.mem dir va
  /-- and a failed map changes no translation. -/
  map_false : ∀ phys virt flags m', vmmMapPage c.mem dir phys virt flags = (false, m') →
    ∀ va, vmmGetMapping m' dir va = vmmGetMapping c.mem dir va
  /-- An unmapped page does not translate; -/
  unmap_self : ∀ virt m', vmmUnmapPage c.mem dir virt = (true, m') →
    ∀ va, pageNumber va = pageNumber virt → vmmGetMapping m' dir va = none
  /-- every other page translates as before; -/
  unmap_other : ∀ virt ok m', vmmUnmapPage c.mem dir virt = (ok, m') →
    ∀ va, pageNumber va ≠ pageNumber virt → vmmGetMapping m' dir va = vmmGetMapping c.mem dir va
  /-- and a failed unmap changes no translation. -/
  unmap_false : ∀ virt m', vmmUnmapPage c.mem dir virt = (false, m') →
    ∀ va, vmmGetMapping m' dir va = vmmGetMapping c.mem dir va

theorem VmmClientInv.spec {dir : ℕ} {c : VmmClient} (h : VmmClientInv dir c) : VmmSpec dir c where
  entries v := (congrFun h.map v).symm
  agrees va := by rw [vmmGetMapping_eq, h.map]
  map_self phys virt flags m' hmap hflags va hva := by
    rw [vmmGetMapping_eq, pageMap_of_vmmMapPage h.dirOk hmap, if_pos rfl, PageMap.translate,
      PageMap.map, hva, Function.update_self, if_pos hflags]
    exact congrArg some (high_add_low (m := 20) (k := 12) phys va).symm
  map_other phys virt flags ok m' hmap va hva := by
    rw [vmmGetMapping_eq, vmmGetMapping_eq, pageMap_of_vmmMapPage h.dirOk hmap]
    split_ifs
    · rw [PageMap.translate, PageMap.map, Function.update_of_ne hva]
      rfl
    · rfl
  map_false phys virt flags m' hmap va := by
    rw [vmmGetMapping_eq, vmmGetMapping_eq, pageMap_of_vmmMapPage h.dirOk hmap]
    rfl
  unmap_self virt m' hunmap va hva := by
    rw [vmmGetMapping_eq, pageMap_of_vmmUnmapPage h.dirOk hunmap, PageMap.translate,
      PageMap.unmap, hva, Function.update_self]
    rfl
  unmap_other virt ok m' hunmap va hva := by
    rw [vmmGetMapping_eq, vmmGetMapping_eq, pageMap_of_vmmUnmapPage h.dirOk hunmap,
      PageMap.translate, PageMap.unmap, Function.update_of_ne hva]
    rfl
  unmap_false virt m' hunmap va := by
    obtain ⟨rfl, -⟩ := unmap_eq_of_false h.dirOk hunmap
    rfl

/-- **Every run of maps and unmaps on a new directory.** -/
theorem vmm_run {m₀ m : Mem} {dir : ℕ} (hcreate : vmmCreateDirectory m₀ = (dir, m))
    (hdir : dir ≠ 0) {c : VmmClient}
    (hrun : Run.Reaches (VmmClient.Step dir) ⟨m, fun _ => none⟩ c) : VmmSpec dir c := by
  obtain ⟨hok, hmap⟩ := dirOk_vmmCreateDirectory hcreate hdir
  have hstart : VmmClientInv dir ⟨m, fun _ => none⟩ := ⟨hok, hmap.symm⟩
  have hinv : VmmClientInv dir c := hrun.invariant hstart fun _ _ _ h hstep => h.step hstep
  exact hinv.spec

/-- Eight blocks of zeros, the first in use. -/
def memEight : Mem := ⟨pmmEight, fun _ => 0#32, 0⟩

/-- A new directory in block `1`, a page mapped at 4 MiB, and unmapped again. -/
theorem vmm_run_eight :
    VmmSpec 4096
      (((⟨(vmmCreateDirectory memEight).2, fun _ => none⟩ : VmmClient).step 4096
        (.map 0x5000#32 0x400123#32 3#32)).step 4096 (.unmap 0x400000#32)) := by
  have hcreate : vmmCreateDirectory memEight = (4096, (vmmCreateDirectory memEight).2) :=
    Prod.ext rfl rfl
  exact vmm_run hcreate (by decide) (((Run.Reaches.refl _).tail rfl).tail rfl)

end Rexus
