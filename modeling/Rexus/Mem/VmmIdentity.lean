import Rexus.Lib.While
import Rexus.Mem.PmmClient
import Rexus.Mem.VmmMapping

/-!
# Mapping a range to itself

`vmm_identity_map` of `mem/vmm.c`. The start of the range is rounded down to a page and its end up,
in thirty-two bits, so an end in the last page is rounded up to zero and then no page is mapped.

## Main results

* `Supplies`, `supplies_of_free` — enough memory for so many tables
* `iterate_identityTurn` — the loop, on the flat map
* `vmmIdentityMap_iff` — when the range has been mapped to itself, and nothing else

## Conventions

The directory owns its tables, as in `Mem/VmmMapping.lean`, and there is a block for every table
that is missing in the range; without one, `vmm_map_page` fails and `vmm_identity_map` goes on with
the next page all the same, as it does not look at the result. The range is given by its two ends,
any words of 32 bits, with the end left out. The flags are any that say that the page is there.

The loop compares addresses and not page numbers. It runs with fuel, and the result is for all fuels
above `2 ^ 20`, the number of pages there are, whatever the range.
-/

namespace Rexus

open Loop Mem Pmm

/-! ### The function -/

/-- What the loop of `vmm_identity_map` carries: `addr`, which has 32 bits and may wrap, and the
memory with the pages mapped so far. -/
structure IdentityScan where
  addr : BitVec 32
  mem : Mem

/-- A turn of the loop of `vmm_identity_map`, up to a rounded end. What `vmm_map_page` returns is
not looked at. -/
def identityTurn (dir : ℕ) (limit flags : BitVec 32) (w : IdentityScan) :
    Option (Turn IdentityScan Mem) :=
  some (if w.addr < limit then
    .next ⟨w.addr + 4096#32, (vmmMapPage w.mem dir w.addr w.addr flags).2⟩
  else .done w.mem)

/-- `vmm_identity_map`. The loop goes on while `addr` is below the end, and `addr` may wrap; with
`none` the fuel has not been enough. The answers of `vmm_map_page` are not looked at. -/
def vmmIdentityMap (fuel : ℕ) (m : Mem) (dir : ℕ) (start limit flags : BitVec 32) : Option Mem :=
  iterate (identityTurn dir ((limit + 0xFFF#32) &&& ~~~0xFFF#32) flags) fuel
    ⟨start &&& ~~~0xFFF#32, m⟩

/-! ### Enough memory -/

/-- So many blocks are there: each of the next calls of `pmm_alloc_block` returns one. -/
def Supplies (s : Pmm) : ℕ → Prop
  | 0 => True
  | n + 1 => (pmmAllocBlock s).1 ≠ 0 ∧ Supplies (pmmAllocBlock s).2 n

/-- The tables that are missing for the pages from `p` to `q`. -/
def missingTables (m : Mem) (dir p q : ℕ) : Finset ℕ :=
  ((Finset.Ico p q).image (· / 1024)).filter fun i => present (m.word dir i) = false

/-- What a range that is mapped to itself should do to the translation: the addresses of the range
translate to themselves, and those in other pages as before. -/
structure IdentityMapped (m m' : Mem) (dir : ℕ) (start limit : BitVec 32) : Prop where
  inside : ∀ a, start ≤ a → a < limit → vmmGetMapping m' dir a = some a
  outside : ∀ a, (∀ b, start ≤ b → b < limit → pageNumber b ≠ pageNumber a) →
    vmmGetMapping m' dir a = vmmGetMapping m dir a

/-- The pages from `p` to `q` mapped to the frames with the same numbers. -/
def PageMap.identityOn (r : PageMap) (p q : ℕ) (flags : BitVec 12) : PageMap := fun v =>
  if p ≤ v.toNat ∧ v.toNat < q then some (v, flags) else r v

variable {m m' : Mem} {s : Pmm} {dir p q n k : ℕ} {addr start limit phys virt flags : BitVec 32}

theorem Supplies.mono (h : Supplies s n) (hk : k ≤ n) : Supplies s k := by
  induction k generalizing s n with
  | zero => trivial
  | succ k ih =>
    obtain ⟨n, rfl⟩ : ∃ j, n = j + 1 := ⟨n - 1, by omega⟩
    exact ⟨h.1, ih h.2 (by omega)⟩

/-- With an exact counter and block `0` in use, as `pmm_init` leaves it, it is enough that so many
blocks are free. -/
theorem supplies_of_free (hc : s.Counted) (h0 : pmmTestBlock s 0 = true)
    (hfree : s.usedSet.card + n ≤ s.memBlocks) : Supplies s n := by
  induction n generalizing s with
  | zero => trivial
  | succ n ih =>
    have hzero : ¬ FreeRun s 1 0 := fun h => by
      obtain ⟨hlt, hnot⟩ := freeRun_one.mp h
      exact hnot (mem_usedSet.mpr ⟨hlt, h0⟩)
    have hlt : s.usedSet.card < (Finset.range s.memBlocks).card := by
      rw [Finset.card_range]
      omega
    obtain ⟨b, hb, hunused⟩ := Finset.exists_mem_notMem_of_card_lt_card hlt
    have hrun : FreeRun s 1 b := freeRun_one.mpr ⟨Finset.mem_range.mp hb, hunused⟩
    have hne : (pmmAllocBlock s).1 ≠ 0 := fun h => (pmmAllocBlock_eq_zero_iff hc hzero).mp h b hrun
    refine ⟨hne, ?_⟩
    rcases pmmAllocBlock_takes s with ⟨t, heq, -⟩ | ⟨c, t, heq, -, -, ht⟩
    · rw [heq] at hne
      exact absurd rfl hne
    · rw [heq]
      have hused : 0 ∈ t.usedSet := ht.subset (mem_usedSet.mpr ⟨by omega, h0⟩)
      refine ih (hc.of_sameDrift ht.drift) (mem_usedSet.mp hused).2 ?_
      rw [ht.usedSet, Finset.card_union_of_disjoint ht.free, Finset.card_singleton, ht.memBlocks]
      omega

/-! ### One page -/

/-- The allocator is asked for a block where there is no table, and only there. -/
theorem vmmGetPageTable_pmm_eq (hidx : n < 1024) :
    (vmmGetPageTable m dir n true).2.pmm =
      if present (m.word dir n) then m.pmm else (pmmAllocBlock m.pmm).2 := by
  rw [vmmGetPageTable, if_neg (Nat.not_le.mpr hidx), if_pos rfl]
  split
  · rfl
  · dsimp only
    split <;> rfl

/-- Where there is a table, or a block for one, a page is mapped; and then there is a table. -/
theorem vmmMapPage_supplied (h : DirOk m dir) (phys virt flags : BitVec 32)
    (hsupply : present (m.word dir ((pageNumber virt).toNat / 1024)) = true ∨
      (pmmAllocBlock m.pmm).1 ≠ 0) :
    ∃ m', vmmMapPage m dir phys virt flags = (true, m') ∧
      m'.pmm = (if present (m.word dir ((pageNumber virt).toNat / 1024)) then m.pmm
        else (pmmAllocBlock m.pmm).2) ∧
      ∀ i < 1024, present (m'.word dir i) =
        (decide (i = (pageNumber virt).toNat / 1024) || present (m.word dir i)) := by
  have hidx := dirIndex_lt (pageNumber virt)
  have hpmm : (vmmGetPageTable m dir ((pageNumber virt).toNat / 1024) true).2.pmm = _ :=
    vmmGetPageTable_pmm_eq hidx
  rw [vmmMapPage, pageDirIndex_eq, pageTableIndex_eq, pageNumber_high]
  cases hp : present (m.word dir ((pageNumber virt).toNat / 1024)) with
  | true =>
    rw [vmmGetPageTable_present hidx hp]
    refine ⟨_, if_neg (h.table_ne_zero _ hidx hp), rfl, fun i hi => ?_⟩
    rw [word_setWord (tableOf_mod _) h.aligned (tableIndex_lt _) hi,
      if_neg fun hcon => h.table_ne_dir hidx hp hcon.1.symm]
    by_cases hi' : i = (pageNumber virt).toNat / 1024
    · rw [hi', hp, decide_eq_true rfl]
      rfl
    · rw [decide_eq_false hi', Bool.false_or]
  | false =>
    rw [hp] at hpmm hsupply
    rcases vmmGetPageTable_cases hidx hp with ⟨t, -, halloc⟩ | ⟨b, t, heq, hb0, hb, ht⟩
    · rw [halloc] at hsupply
      exact absurd hsupply (by simp)
    · -- the entry of the new table is the only one that is written
      rw [heq] at hpmm ⊢
      have hlink := h.link hidx hb0 hb ht
      have hptr := h.tableOf_link hidx hb ht
      have hne := hlink.table_ne_dir hidx (h.present_link hidx ht)
      refine ⟨_, if_neg (by omega), hpmm, fun i hi => ?_⟩
      rw [word_setWord (Nat.mul_mod_left _ _) h.aligned (tableIndex_lt _) hi,
        if_neg fun hcon => hne (hptr.trans hcon.1.symm), h.word_link hidx ht hi]
      by_cases hi' : i = (pageNumber virt).toNat / 1024
      · rw [if_pos hi', decide_eq_true hi', present_pack]
        rfl
      · rw [if_neg hi', decide_eq_false hi', Bool.false_or]

/-! ### A range of pages -/

theorem mem_missingTables {i : ℕ} : i ∈ missingTables m dir p q ↔
    (∃ v, p ≤ v ∧ v < q ∧ v / 1024 = i) ∧ present (m.word dir i) = false := by
  simp [missingTables, and_assoc]

theorem mem_missingTables_first (hpq : p < q) (hp : present (m.word dir (p / 1024)) = false) :
    p / 1024 ∈ missingTables m dir p q := mem_missingTables.mpr ⟨⟨p, le_rfl, hpq, rfl⟩, hp⟩

/-- There is a table for the first page, or a block for one. -/
theorem Supplies.first (hsupply : Supplies m.pmm (missingTables m dir p q).card) (hpq : p < q) :
    present (m.word dir (p / 1024)) = true ∨ (pmmAllocBlock m.pmm).1 ≠ 0 := by
  cases hp : present (m.word dir (p / 1024)) with
  | true => exact Or.inl rfl
  | false =>
    rw [← Finset.card_erase_add_one (mem_missingTables_first hpq hp)] at hsupply
    exact Or.inr hsupply.1

/-- A page that is mapped leaves as many blocks as the pages behind it need. -/
theorem supplies_vmmMapPage (hpq : p < q) (hq : q ≤ 2 ^ 20)
    (hsupply : Supplies m.pmm (missingTables m dir p q).card)
    (hpmm : m'.pmm = if present (m.word dir (p / 1024)) then m.pmm else (pmmAllocBlock m.pmm).2)
    (hpresent : ∀ i < 1024,
      present (m'.word dir i) = (decide (i = p / 1024) || present (m.word dir i))) :
    Supplies m'.pmm (missingTables m' dir (p + 1) q).card := by
  -- what is missing behind the page was missing before, and is not the table of the page
  have hsub : missingTables m' dir (p + 1) q ⊆ (missingTables m dir p q).erase (p / 1024) := by
    intro i hi
    obtain ⟨⟨v, hpv, hvq, rfl⟩, habsent⟩ := mem_missingTables.mp hi
    rw [hpresent _ (by omega), Bool.or_eq_false_iff, decide_eq_false_iff_not] at habsent
    exact Finset.mem_erase.mpr
      ⟨habsent.1, mem_missingTables.mpr ⟨⟨v, by omega, hvq, rfl⟩, habsent.2⟩⟩
  have hcard := Finset.card_le_card hsub
  cases hp : present (m.word dir (p / 1024)) with
  | true =>
    rw [hpmm, hp]
    exact hsupply.mono (hcard.trans Finset.card_erase_le)
  | false =>
    rw [← Finset.card_erase_add_one (mem_missingTables_first hpq hp)] at hsupply
    rw [hpmm, hp]
    exact hsupply.2.mono hcard

theorem identityOn_map (r : PageMap) (hpq : p < q) (haddr : (pageNumber addr).toNat = p)
    (hflags : present flags = true) :
    (r.map addr addr flags).identityOn (p + 1) q (flags.extractLsb' 0 12) =
      r.identityOn p q (flags.extractLsb' 0 12) := by
  funext v
  simp only [PageMap.identityOn, PageMap.map, hflags, if_true, Function.update_apply]
  by_cases hv : v = pageNumber addr
  · subst hv
    rw [if_neg (by omega), if_pos rfl, if_pos (by omega)]
    rfl
  · have hne : v.toNat ≠ p := fun h => hv (BitVec.eq_of_toNat_eq (h.trans haddr.symm))
    rw [if_neg hv]
    exact if_congr (by omega) rfl rfl

/-- **The loop**, from a page `p` to a page `q` that an address can start: the pages between are
mapped to themselves. -/
theorem iterate_identityTurn (h : DirOk m dir) (haddr : addr.toNat = p * 4096)
    (hlimit : limit.toNat = q * 4096) (hpq : p ≤ q) (hflags : present flags = true)
    (hsupply : Supplies m.pmm (missingTables m dir p q).card) :
    ∃ m', (∀ fuel > q - p, iterate (identityTurn dir limit flags) fuel ⟨addr, m⟩ = some m') ∧
      pageMap m' dir = (pageMap m dir).identityOn p q (flags.extractLsb' 0 12) := by
  have hlt := limit.isLt
  induction hn : q - p generalizing p addr m with
  | zero =>
    obtain rfl : p = q := by omega
    refine ⟨m, fun fuel hfuel => ?_, ?_⟩
    · obtain ⟨k, rfl⟩ := Nat.exists_eq_succ_of_ne_zero (by omega : fuel ≠ 0)
      have hend : ¬ addr < limit := by
        rw [BitVec.lt_def]
        omega
      exact iterate_done (by rw [identityTurn, if_neg hend])
    · funext v
      rw [PageMap.identityOn, if_neg (by omega)]
  | succ n ih =>
    have hpage : (pageNumber addr).toNat = p := by
      rw [pageNumber_toNat, haddr, Nat.mul_div_cancel _ (by decide)]
    obtain ⟨m₁, hmap, hpmm, hpresent⟩ := vmmMapPage_supplied h addr addr flags
      (by rw [hpage]; exact hsupply.first (by omega))
    rw [hpage] at hpmm hpresent
    have hnext : identityTurn dir limit flags ⟨addr, m⟩ = some (.next ⟨addr + 4096#32, m₁⟩) := by
      have hmore : addr < limit := by
        rw [BitVec.lt_def]
        omega
      rw [identityTurn, if_pos hmore, hmap]
    have hadd : (addr + 4096#32).toNat = (p + 1) * 4096 := by
      rw [BitVec.toNat_add, haddr]
      change (p * 4096 + 4096) % 2 ^ 32 = _
      omega
    obtain ⟨m', hrun, hpages⟩ := ih (dirOk_vmmMapPage h hmap) hadd (by omega)
      (supplies_vmmMapPage (by omega) (by omega) hsupply hpmm hpresent) (by omega)
    refine ⟨m', fun fuel hfuel => ?_, ?_⟩
    · obtain ⟨k, rfl⟩ := Nat.exists_eq_succ_of_ne_zero (by omega : fuel ≠ 0)
      rw [iterate_next hnext, hrun k (by omega)]
    · rw [hpages, pageMap_of_vmmMapPage h hmap, if_pos rfl,
        identityOn_map _ (by omega) hpage hflags]

theorem translate_identityOn (r : PageMap) (p q : ℕ) (f : BitVec 12) (a : BitVec 32) :
    (r.identityOn p q f).translate a =
      if p ≤ (pageNumber a).toNat ∧ (pageNumber a).toNat < q then some a else r.translate a := by
  have hself : pageNumber a ++ a.extractLsb' 0 12 = a := by
    refine BitVec.eq_of_getLsbD_eq fun i hi => ?_
    rw [BitVec.getLsbD_append, pageNumber, BitVec.getLsbD_extractLsb', BitVec.getLsbD_extractLsb']
    by_cases hlow : i < 12
    · simp [hlow]
    · have hhigh : i - 12 < 20 := by omega
      have hsum : 12 + (i - 12) = i := by omega
      simp [hlow, hhigh, hsum]
  rw [PageMap.translate, PageMap.identityOn]
  split
  · exact congrArg some hself
  · rfl

/-- The pages between the rounded bounds are those that meet the range. -/
theorem page_meets_iff (hlt : start < limit) (v : BitVec 20) :
    start.toNat / 4096 ≤ v.toNat ∧ v.toNat < (limit.toNat + 4095) / 4096 ↔
      ∃ b, start ≤ b ∧ b < limit ∧ pageNumber b = v := by
  rw [BitVec.lt_def] at hlt
  have hlimit := limit.isLt
  constructor
  · intro ⟨hge, hv⟩
    -- the first address of the range that can be in the page
    have hmax : (BitVec.ofNat 32 (max start.toNat (v.toNat * 4096))).toNat =
        max start.toNat (v.toNat * 4096) := by
      rw [BitVec.toNat_ofNat, Nat.mod_eq_of_lt (by omega)]
    refine ⟨_, by rw [BitVec.le_def, hmax]; omega, by rw [BitVec.lt_def, hmax]; omega,
      BitVec.eq_of_toNat_eq ?_⟩
    rw [pageNumber_toNat, hmax]
    omega
  · rintro ⟨b, hge, hb, rfl⟩
    rw [BitVec.le_def] at hge
    rw [BitVec.lt_def] at hb
    rw [pageNumber_toNat]
    omega

/-- What the loop has done to the flat map is what it should do. -/
theorem IdentityMapped.of_pageMap (hlt : start < limit) {f : BitVec 12}
    (h : pageMap m' dir = (pageMap m dir).identityOn (start.toNat / 4096)
      ((limit.toNat + 4095) / 4096) f) : IdentityMapped m m' dir start limit where
  inside a hge ha := by
    rw [vmmGetMapping_eq, h, translate_identityOn,
      if_pos ((page_meets_iff hlt _).mpr ⟨a, hge, ha, rfl⟩)]
  outside a hother := by
    rw [vmmGetMapping_eq, vmmGetMapping_eq, h, translate_identityOn, if_neg]
    intro hmeets
    obtain ⟨b, hge, hb, hpage⟩ := (page_meets_iff hlt _).mp hmeets
    exact hother b hge hb hpage

/-- **When the range has been mapped to itself, and nothing else**: its end is not behind the start
of the last page, or it had been mapped to itself before. The loop returns in any case. -/
theorem vmmIdentityMap_iff (m : Mem) (dir : ℕ) (start limit flags : BitVec 32) (h : DirOk m dir)
    (hlt : start < limit) (hflags : present flags = true)
    (hsupply : Supplies m.pmm
      (missingTables m dir (start.toNat / 4096) ((limit.toNat + 4095) / 4096)).card) :
    ∃ m', (∀ fuel > 2 ^ 20, vmmIdentityMap fuel m dir start limit flags = some m') ∧
      (IdentityMapped m m' dir start limit ↔
        limit ≤ 0xFFFFF000#32 ∨ ∀ a, start ≤ a → a < limit → vmmGetMapping m dir a = some a) := by
  have hstart : (start &&& ~~~0xFFF#32).toNat = start.toNat / 4096 * 4096 :=
    AlignedWord.toNat_high start 12
  have hround : ((limit + 0xFFF#32) &&& ~~~0xFFF#32).toNat =
      (limit + 0xFFF#32).toNat / 4096 * 4096 := AlignedWord.toNat_high _ 12
  have hadd : (limit + 0xFFF#32).toNat = (limit.toNat + 4095) % 2 ^ 32 := BitVec.toNat_add ..
  have hlimit := limit.isLt
  have hrange := BitVec.lt_def.mp hlt
  by_cases hle : limit ≤ 0xFFFFF000#32
  · have hle' : limit.toNat ≤ 0xFFFFF000 := hle
    rw [hadd, Nat.mod_eq_of_lt (by omega)] at hround
    obtain ⟨m', hrun, hpages⟩ :=
      iterate_identityTurn h hstart hround (by omega) hflags hsupply
    exact ⟨m', fun fuel hfuel => hrun fuel (by omega),
      iff_of_true (IdentityMapped.of_pageMap hlt hpages) (Or.inl hle)⟩
  · -- the end is rounded up to zero, and the loop does nothing
    have hgt : ¬ limit.toNat ≤ 0xFFFFF000 := hle
    have hzero : ((limit + 0xFFF#32) &&& ~~~0xFFF#32).toNat = 0 := by
      rw [hround, hadd]
      omega
    have hend : ¬ (start &&& ~~~0xFFF#32) < (limit + 0xFFF#32) &&& ~~~0xFFF#32 := by
      rw [BitVec.lt_def, hzero]
      exact Nat.not_lt_zero _
    refine ⟨m, fun fuel hfuel => ?_, ?_⟩
    · obtain ⟨k, rfl⟩ := Nat.exists_eq_succ_of_ne_zero (by omega : fuel ≠ 0)
      exact iterate_done (by rw [identityTurn, if_neg hend])
    · rw [or_iff_right hle]
      exact ⟨fun hmapped => hmapped.inside, fun hself => ⟨hself, fun _ _ => rfl⟩⟩

/-- Eight blocks of which a new directory has the second. -/
def memDirectory : Mem := (vmmCreateDirectory memEight).2

theorem dirOk_memDirectory : DirOk memDirectory 4096 := by
  have hcreate : vmmCreateDirectory memEight = (4096, memDirectory) := Prod.ext rfl rfl
  exact (dirOk_vmmCreateDirectory hcreate (by decide)).1

theorem supplies_memDirectory (hone : (missingTables memDirectory 4096 p q).card ≤ 1) :
    Supplies memDirectory.pmm (missingTables memDirectory 4096 p q).card :=
  (supplies_of_free (by decide) rfl (by decide) : Supplies memDirectory.pmm 1).mono hone

theorem vmmIdentityMap_iff_two :
    ∃ m', (∀ fuel > 2 ^ 20,
        vmmIdentityMap fuel memDirectory 4096 0x1800#32 0x2800#32 3#32 = some m') ∧
      (IdentityMapped memDirectory m' 4096 0x1800#32 0x2800#32 ↔
        0x2800#32 ≤ 0xFFFFF000#32 ∨ ∀ a, 0x1800#32 ≤ a → a < 0x2800#32 →
          vmmGetMapping memDirectory 4096 a = some a) :=
  vmmIdentityMap_iff _ _ _ _ _ dirOk_memDirectory (by decide) (by decide)
    (supplies_memDirectory (by decide))

/-- The last page, whose end is rounded up to zero. -/
theorem vmmIdentityMap_last_page :
    ¬ ∀ (m : Mem) (dir : ℕ) (start limit flags : BitVec 32), DirOk m dir → start < limit →
      present flags = true →
      Supplies m.pmm
        (missingTables m dir (start.toNat / 4096) ((limit.toNat + 4095) / 4096)).card →
      ∃ m', (∀ fuel > 2 ^ 20, vmmIdentityMap fuel m dir start limit flags = some m') ∧
        IdentityMapped m m' dir start limit := by
  intro h
  obtain ⟨m', hrun, hmapped⟩ := h memDirectory 4096 0xFFFFF000#32 0xFFFFFFFF#32 3#32
    dirOk_memDirectory (by decide) (by decide) (supplies_memDirectory (by decide))
  have hdone : vmmIdentityMap (2 ^ 20 + 1) memDirectory 4096 0xFFFFF000#32 0xFFFFFFFF#32 3#32 =
      some memDirectory := iterate_done (by rw [identityTurn, if_neg (by decide)])
  obtain rfl := Option.some_inj.mp ((hrun _ (by decide)).symm.trans hdone)
  exact absurd (hmapped.inside 0xFFFFF000#32 (by decide) (by decide)) (by decide)

end Rexus
