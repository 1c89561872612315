import Rexus.Mem.Pmm

/-!
# Clients of the block allocator

A client allocates and frees; it frees only what it was given, whole, and once. Beside the
allocator's state a run carries the list of allocations that are live, which the code itself never
stores: it is what the bitmap and the counter have to agree with.

## Main results

* `ClientInv` — the invariant: the bitmap is the initial one plus the live allocations, disjointly
* `ClientInv.step` — one operation keeps it
* `pmmClient_run` — and so every run does, from any counted state with block `0` reserved

## The contract

A client calls with any sizes and is refused or not; nothing is assumed of how much it asks for.
What it may free is what it has been given: the operation names the address and the count of a live
allocation, and a call with any other is no step. A free through the null pointer, which the code
does not make, is not one either.

Block `0` is in use in the state a run starts from, and so it stays. Without this an allocation of
block `0` could not be told from a failure, and the list of live allocations would lose it. The
counter agrees with the bitmap at the start as well; `pmm_init` does not always leave it so, which
is the matter of `Mem/PmmInitCount.lean`.
-/

namespace Rexus

open FirstFit Pmm

/-- An allocation: the address returned and the number of blocks asked for. -/
structure Allocation where
  addr : ℕ
  size : ℕ
  deriving DecidableEq

/-- The blocks of an allocation. -/
def Allocation.blocks (a : Allocation) : Finset ℕ :=
  Finset.Ico (a.addr / 4096) (a.addr / 4096 + a.size)

/-- The allocator and the allocations its client still holds. -/
structure PmmClient where
  pmm : Pmm
  live : List Allocation

/-- The four calls of the allocator. A size is a 32-bit `size_t`, and may be zero. What a client may
give back is said where the run is defined, not here. -/
inductive PmmOp where
  | allocBlock
  | allocBlocks (size : UInt32)
  | freeBlock (p : ℕ)
  | freeBlocks (p : ℕ) (size : UInt32)

/-- A new live allocation, unless the call returned null. -/
def PmmClient.record (live : List Allocation) (p size : ℕ) : List Allocation :=
  if p = 0 then live else ⟨p, size⟩ :: live

/-- One call, by a client that frees only a live allocation, with that allocation's own size. -/
def PmmClient.step (c : PmmClient) : PmmOp → Option PmmClient
  | .allocBlock =>
    let (p, s) := pmmAllocBlock c.pmm
    some ⟨s, record c.live p 1⟩
  | .allocBlocks size =>
    let (p, s) := pmmAllocBlocks c.pmm size.toNat
    some ⟨s, record c.live p size.toNat⟩
  | .freeBlock p =>
    if ⟨p, 1⟩ ∈ c.live then some ⟨pmmFreeBlock c.pmm p, c.live.erase ⟨p, 1⟩⟩ else none
  | .freeBlocks p size =>
    if ⟨p, size.toNat⟩ ∈ c.live then
      some ⟨pmmFreeBlocks c.pmm p size.toNat, c.live.erase ⟨p, size.toNat⟩⟩
    else none

/-- `if (p) pmm_free_blocks(p, size)`. -/
def pmmFreeUnlessNull (s : Pmm) (p size : ℕ) : Pmm := if p = 0 then s else pmmFreeBlocks s p size

/-- `pmm_free_blocks`, of one allocation after the other. -/
def pmmFreeAll (s : Pmm) (given : List Allocation) : Pmm :=
  given.foldl (fun s a => pmmFreeBlocks s a.addr a.size) s

theorem mem_usedSet_pmmFreeAll {s : Pmm} {given : List Allocation} {b : ℕ} :
    b ∈ (pmmFreeAll s given).usedSet ↔ b ∈ s.usedSet ∧ ∀ a ∈ given, b ∉ a.blocks := by
  induction given generalizing s with
  | nil => simp [pmmFreeAll]
  | cons a given ih =>
    show b ∈ (pmmFreeAll (pmmFreeBlocks s a.addr a.size) given).usedSet ↔ _
    rw [ih, usedSet_pmmFreeBlocks, Finset.mem_sdiff, and_assoc, List.forall_mem_cons]
    rfl

/-- The step relation of a run: a call that the client may make. A release of what it does not hold
is no step, and so no run contains one. -/
def PmmClient.Step (c : PmmClient) (op : PmmOp) (c' : PmmClient) : Prop := c.step op = some c'

/-- What holds of a client started on `s₀`. It is put in terms of the set of the blocks in use,
which an allocation extends and a release shrinks; what a client is promised follows from it bit by
bit. -/
structure ClientInv (s₀ : Pmm) (c : PmmClient) : Prop where
  memBlocks : c.pmm.memBlocks = s₀.memBlocks
  /-- The bitmap is the initial one plus the live allocations. -/
  mem_usedSet : ∀ b, b ∈ c.pmm.usedSet ↔ b ∈ s₀.usedSet ∨ ∃ a ∈ c.live, b ∈ a.blocks
  /-- No live allocation meets what was in use at the start. -/
  fresh : ∀ a ∈ c.live, Disjoint s₀.usedSet a.blocks
  /-- No two live allocations meet. -/
  disjoint : c.live.Pairwise fun a a' => Disjoint a.blocks a'.blocks
  drift : SameDrift s₀ c.pmm

namespace ClientInv

variable {s₀ : Pmm} {c : PmmClient}

theorem start (s₀ : Pmm) : ClientInv s₀ ⟨s₀, []⟩ :=
  ⟨rfl, by simp, by simp, List.Pairwise.nil, SameDrift.refl s₀⟩

theorem blocks_subset (h : ClientInv s₀ c) {a : Allocation} (ha : a ∈ c.live) :
    a.blocks ⊆ c.pmm.usedSet :=
  fun b hb => (h.mem_usedSet b).mpr (Or.inr ⟨a, ha, hb⟩)

/-- Taking blocks that were free, and recording them. -/
theorem take (h : ClientInv s₀ c) {t : Pmm} {a : Allocation} (ht : Takes c.pmm t a.blocks) :
    ClientInv s₀ ⟨t, a :: c.live⟩ where
  memBlocks := ht.memBlocks.trans h.memBlocks
  mem_usedSet b := by
    rw [ht.usedSet, Finset.mem_union, h.mem_usedSet]
    simp only [List.mem_cons, exists_eq_or_imp]
    rw [or_assoc]
    exact or_congr_right or_comm
  fresh a' ha' := by
    rcases List.mem_cons.mp ha' with rfl | ha'
    · refine ht.free.mono_left fun b hb => (h.mem_usedSet b).mpr (Or.inl hb)
    · exact h.fresh a' ha'
  disjoint := List.pairwise_cons.mpr
    ⟨fun _ ha' => (ht.free.mono_left (h.blocks_subset ha')).symm, h.disjoint⟩
  drift := h.drift.trans ht.drift

/-- Giving back the blocks of one live allocation. -/
theorem give (h : ClientInv s₀ c) {t : Pmm} {a : Allocation} (ha : a ∈ c.live)
    (ht : Gives c.pmm t a.blocks) : ClientInv s₀ ⟨t, c.live.erase a⟩ := by
  have hperm : (a :: c.live.erase a).Perm c.live := (List.perm_cons_erase ha).symm
  have hdis : ∀ a' ∈ c.live.erase a, Disjoint a.blocks a'.blocks :=
    (List.pairwise_cons.mp ((hperm.pairwise_iff fun h => h.symm).mpr h.disjoint)).1
  refine ⟨ht.memBlocks.trans h.memBlocks, fun b => ?_,
    fun a' ha' => h.fresh a' (List.mem_of_mem_erase ha'), h.disjoint.sublist List.erase_sublist,
    h.drift.trans ht.drift⟩
  rw [ht.usedSet, Finset.mem_sdiff, h.mem_usedSet]
  constructor
  · rintro ⟨hb | ⟨a', ha', hb⟩, hnot⟩
    · exact Or.inl hb
    · rcases List.mem_cons.mp (hperm.mem_iff.mpr ha') with rfl | ha'
      · exact absurd hb hnot
      · exact Or.inr ⟨a', ha', hb⟩
  · rintro (hb | ⟨a', ha', hb⟩)
    · exact ⟨Or.inl hb, Finset.disjoint_left.mp (h.fresh a ha) hb⟩
    · exact ⟨Or.inr ⟨a', List.mem_of_mem_erase ha', hb⟩,
        Finset.disjoint_right.mp (hdis a' ha') hb⟩

/-- Block `0`, in use at the start, is never free. -/
theorem not_freeRun_zero (h : ClientInv s₀ c) (h0 : pmmTestBlock s₀ 0 = true) :
    ¬ FreeRun c.pmm 1 0 := by
  rw [freeRun_one, not_and_not_right, h.mem_usedSet, h.memBlocks]
  exact fun hlt => Or.inl (Pmm.mem_usedSet.mpr ⟨hlt, h0⟩)

/-- The order of the allocations does not matter. -/
theorem perm (h : ClientInv s₀ c) {live : List Allocation} (hperm : c.live.Perm live) :
    ClientInv s₀ ⟨c.pmm, live⟩ where
  memBlocks := h.memBlocks
  mem_usedSet b := by
    rw [h.mem_usedSet]
    simp only [hperm.mem_iff]
  fresh a ha := h.fresh a (hperm.mem_iff.mpr ha)
  disjoint := (hperm.pairwise_iff fun h => h.symm).mp h.disjoint
  drift := h.drift

/-- Of the allocations of several owners, those of one may come first. -/
theorem owner_first {s : Pmm} {allocs : ℕ → List Allocation} {us vs : List ℕ} {p : ℕ}
    {rest : List Allocation} (h : ClientInv s₀ ⟨s, (us ++ p :: vs).flatMap allocs ++ rest⟩) :
    ClientInv s₀ ⟨s, allocs p ++ ((us ++ vs).flatMap allocs ++ rest)⟩ := by
  refine h.perm ?_
  rw [← List.append_assoc, ← List.flatMap_cons]
  exact (List.perm_middle.flatMap_right _).append_right _

/-- One block: none, and nothing changes, or one more that is live. -/
theorem allocBlock (h : ClientInv s₀ c) (h0 : pmmTestBlock s₀ 0 = true) :
    pmmAllocBlock c.pmm = (0, c.pmm) ∨ ∃ p t, pmmAllocBlock c.pmm = (p, t) ∧ p ≠ 0 ∧
      ClientInv s₀ ⟨t, ⟨p, 1⟩ :: c.live⟩ := by
  rcases hp : pmmAllocBlock c.pmm with ⟨p, t⟩
  rcases eq_or_ne p 0 with rfl | hne
  · rw [pmmAllocBlock_zero hp (h.not_freeRun_zero h0)]
    exact Or.inl rfl
  · refine Or.inr ⟨p, t, rfl, hne, h.take ?_⟩
    simpa [Allocation.blocks] using (takes_of_pmmAllocBlock hp hne).2

/-- A run of blocks: none, and nothing changes, or one more that is live. -/
theorem allocBlocks (h : ClientInv s₀ c) (h0 : pmmTestBlock s₀ 0 = true) (n : ℕ) :
    pmmAllocBlocks c.pmm n = (0, c.pmm) ∨ ∃ p t, pmmAllocBlocks c.pmm n = (p, t) ∧ p ≠ 0 ∧
      0 < n ∧ ClientInv s₀ ⟨t, ⟨p, n⟩ :: c.live⟩ := by
  rcases hp : pmmAllocBlocks c.pmm n with ⟨p, t⟩
  rcases eq_or_ne p 0 with rfl | hne
  · rw [pmmAllocBlocks_zero hp (h.not_freeRun_zero h0)]
    exact Or.inl rfl
  · obtain ⟨-, hn, ht⟩ := takes_of_pmmAllocBlocks hp hne
    exact Or.inr ⟨p, t, rfl, hne, hn, h.take ht⟩

theorem freeBlock (h : ClientInv s₀ c) {p : ℕ} (hp : ⟨p, 1⟩ ∈ c.live) :
    ClientInv s₀ ⟨pmmFreeBlock c.pmm p, c.live.erase ⟨p, 1⟩⟩ := by
  have hblocks : Allocation.blocks ⟨p, 1⟩ = {p / 4096} := by simp [Allocation.blocks]
  have hused : p / 4096 ∈ c.pmm.usedSet :=
    h.blocks_subset hp (by rw [hblocks]; exact Finset.mem_singleton_self _)
  exact h.give hp (hblocks ▸ gives_pmmFreeBlock hused)

theorem freeBlocks (h : ClientInv s₀ c) {p n : ℕ} (hp : ⟨p, n⟩ ∈ c.live) :
    ClientInv s₀ ⟨pmmFreeBlocks c.pmm p n, c.live.erase ⟨p, n⟩⟩ :=
  h.give hp (gives_pmmFreeBlocks (h.blocks_subset hp))

/-- The allocation that is freed, first in the list. -/
theorem freeBlocks_cons {s : Pmm} {live : List Allocation} {p n : ℕ}
    (h : ClientInv s₀ ⟨s, ⟨p, n⟩ :: live⟩) : ClientInv s₀ ⟨pmmFreeBlocks s p n, live⟩ := by
  have hfree := h.freeBlocks List.mem_cons_self
  rwa [show (PmmClient.live ⟨s, ⟨p, n⟩ :: live⟩).erase ⟨p, n⟩ = live from
    List.erase_cons_head ..] at hfree

/-- An allocation, whatever it returns. -/
theorem record_allocBlocks {s : Pmm} {live : List Allocation} (h : ClientInv s₀ ⟨s, live⟩)
    (h0 : pmmTestBlock s₀ 0 = true) {n p : ℕ} {t : Pmm} (hp : pmmAllocBlocks s n = (p, t)) :
    ClientInv s₀ ⟨t, PmmClient.record live p n⟩ ∧ (p ≠ 0 → 0 < n) := by
  rcases h.allocBlocks h0 n with hp' | ⟨p', t', hp', hp0, hn, ht⟩
  · rw [hp', Prod.mk.injEq] at hp
    obtain ⟨rfl, rfl⟩ := hp
    exact ⟨h, fun h0 => absurd rfl h0⟩
  · rw [hp', Prod.mk.injEq] at hp
    obtain ⟨rfl, rfl⟩ := hp
    rw [PmmClient.record, if_neg hp0]
    exact ⟨ht, fun _ => hn⟩

theorem perm_record_record (live : List Allocation) (p n q m : ℕ) :
    (PmmClient.record (PmmClient.record live p n) q m).Perm
      (PmmClient.record (PmmClient.record live q m) p n) := by
  unfold PmmClient.record
  split_ifs
  · exact List.Perm.refl _
  · exact List.Perm.refl _
  · exact List.Perm.refl _
  · exact List.Perm.swap _ _ _

/-- An allocation that may have failed is given back. -/
theorem freeUnlessNull {s : Pmm} {live : List Allocation} {p n : ℕ}
    (h : ClientInv s₀ ⟨s, PmmClient.record live p n⟩) :
    ClientInv s₀ ⟨pmmFreeUnlessNull s p n, live⟩ := by
  rw [pmmFreeUnlessNull]
  split_ifs with hp
  · rwa [PmmClient.record, if_pos hp] at h
  · rw [PmmClient.record, if_neg hp] at h
    exact h.freeBlocks_cons

/-- Several allocations are given back. -/
theorem freeAll {s : Pmm} {given live : List Allocation} (h : ClientInv s₀ ⟨s, given ++ live⟩) :
    ClientInv s₀ ⟨pmmFreeAll s given, live⟩ := by
  induction given generalizing s with
  | nil => exact h
  | cons a given ih => exact ih h.freeBlocks_cons

/-- What an allocator with clients is to one more: they hold what they hold together. -/
theorem join {s₁ s : Pmm} {live live' : List Allocation} (h : ClientInv s₀ ⟨s₁, live⟩)
    (h' : ClientInv s₁ ⟨s, live'⟩) : ClientInv s₀ ⟨s, live ++ live'⟩ where
  memBlocks := h'.memBlocks.trans h.memBlocks
  mem_usedSet b := by
    rw [h'.mem_usedSet, h.mem_usedSet, or_assoc]
    simp only [List.mem_append, or_and_right, exists_or]
  fresh a ha := by
    rcases List.mem_append.mp ha with ha | ha
    · exact h.fresh a ha
    · exact (h'.fresh a ha).mono_left fun b hb => (h.mem_usedSet b).mpr (Or.inl hb)
  disjoint := List.pairwise_append.mpr
    ⟨h.disjoint, h'.disjoint, fun _ ha a' ha' => (h'.fresh a' ha').mono_left (h.blocks_subset ha)⟩
  drift := h.drift.trans h'.drift

/-- Block `0` is in use as long as it is not freed. -/
theorem reserved (h : ClientInv s₀ c) (h0 : pmmTestBlock s₀ 0 = true) (hpos : 0 < s₀.memBlocks) :
    pmmTestBlock c.pmm 0 = true :=
  (Pmm.mem_usedSet.mp ((h.mem_usedSet 0).mpr (Or.inl (Pmm.mem_usedSet.mpr ⟨hpos, h0⟩)))).2

/-- Of two clients, what the allocator would be without the second. -/
theorem split {s : Pmm} {live live' : List Allocation} (h : ClientInv s₀ ⟨s, live ++ live'⟩)
    (h0 : pmmTestBlock s₀ 0 = true) : ∃ s₁, ClientInv s₀ ⟨s₁, live⟩ ∧
      ClientInv s₁ ⟨s, live'⟩ ∧ pmmTestBlock s₁ 0 = true := by
  have hfree : ClientInv s₀ ⟨pmmFreeAll s live', live⟩ := (h.perm List.perm_append_comm).freeAll
  have hsecond : ∀ s₁, ClientInv s₀ ⟨s₁, live⟩ → ClientInv s₁ ⟨s, live'⟩ := fun s₁ h₁ => by
    refine ⟨h.memBlocks.trans h₁.memBlocks.symm, fun b => ?_, fun a ha => ?_,
      h.disjoint.sublist (List.sublist_append_right live live'), h₁.drift.symm.trans h.drift⟩
    · rw [h₁.mem_usedSet, h.mem_usedSet, or_assoc]
      simp only [List.mem_append, or_and_right, exists_or]
    · refine Finset.disjoint_left.mpr fun b hb => ?_
      rcases (h₁.mem_usedSet b).mp hb with hb | ⟨a', ha', hb⟩
      · exact Finset.disjoint_left.mp (h.fresh a (List.mem_append_right live ha)) hb
      · exact Finset.disjoint_left.mp ((List.pairwise_append.mp h.disjoint).2.2 a' ha' a ha) hb
  rcases Nat.eq_zero_or_pos s₀.memBlocks with hzero | hpos
  · -- no block, and no allocation that has one
    have hnone : ∀ a ∈ live, ∀ b, b ∉ a.blocks := fun a ha b hb => by
      have hlt := lt_of_mem_usedSet (hfree.blocks_subset ha hb)
      rw [hfree.memBlocks, hzero] at hlt
      exact Nat.not_lt_zero b hlt
    have hfirst : ClientInv s₀ ⟨s₀, live⟩ :=
      ⟨rfl, fun b => ⟨Or.inl, fun hb => hb.resolve_right fun hb => by
        obtain ⟨a, ha, hb⟩ := hb
        exact hnone a ha b hb⟩, hfree.fresh, hfree.disjoint, SameDrift.refl s₀⟩
    exact ⟨s₀, hfirst, hsecond s₀ hfirst, h0⟩
  · exact ⟨_, hfree, hsecond _ hfree, hfree.reserved h0 hpos⟩

/-- Equal allocations have equal bitmaps and counters. -/
theorem eq_of_live {s t : Pmm} {live : List Allocation} (hs : ClientInv s₀ ⟨s, live⟩)
    (ht : ClientInv s₀ ⟨t, live⟩) :
    t.memBlocks = s.memBlocks ∧ t.usedSet = s.usedSet ∧ t.memUsedBlocks = s.memUsedBlocks := by
  have hset : t.usedSet = s.usedSet := by
    ext b
    exact (ht.mem_usedSet b).trans (hs.mem_usedSet b).symm
  refine ⟨ht.memBlocks.trans hs.memBlocks.symm, hset, ?_⟩
  have hlts := s.memUsedBlocks_lt
  have hltt := t.memUsedBlocks_lt
  have hds : SameDrift s₀ s := hs.drift
  have hdt : SameDrift s₀ t := ht.drift
  unfold SameDrift at hds hdt
  rw [hset] at hdt
  omega

/-- A new allocation is at an address of its own. -/
theorem addr_ne {s : Pmm} {live : List Allocation} {a a' : Allocation}
    (h : ClientInv s₀ ⟨s, a :: live⟩) (ha' : a' ∈ live) (hsize : 0 < a.size)
    (hsize' : 0 < a'.size) : a'.addr ≠ a.addr := by
  have hdis := (List.pairwise_cons.mp h.disjoint).1 a' ha'
  intro heq
  refine Finset.disjoint_left.mp hdis (Finset.mem_Ico.mpr ⟨Nat.le_refl _, by omega⟩) ?_
  exact Finset.mem_Ico.mpr ⟨by rw [heq], by rw [heq]; omega⟩

/-- A live allocation is a 32-bit pointer. -/
theorem addr_lt (h : ClientInv s₀ c) {a : Allocation} (ha : a ∈ c.live) (hsize : 0 < a.size) :
    a.addr < 2 ^ 32 := by
  have hblock : a.addr / 4096 ∈ a.blocks := Finset.mem_Ico.mpr ⟨Nat.le_refl _, by omega⟩
  have hlt := lt_of_mem_usedSet (h.blocks_subset ha hblock)
  have hle := c.pmm.memBlocks_le
  omega

/-- Live allocations that are not empty are at different addresses. -/
theorem nodup_addr (h : ClientInv s₀ c) (hsize : ∀ a ∈ c.live, 0 < a.size) :
    (c.live.map Allocation.addr).Nodup := by
  rw [List.Nodup, List.pairwise_map]
  refine h.disjoint.imp_of_mem fun {a a'} ha ha' hdis heq => ?_
  have hblock : a.addr / 4096 ∈ a.blocks := Finset.mem_Ico.mpr ⟨Nat.le_refl _, by
    have := hsize a ha
    omega⟩
  refine Finset.disjoint_left.mp hdis hblock (Finset.mem_Ico.mpr ⟨by rw [heq], ?_⟩)
  have := hsize a' ha'
  omega

/-- **One call keeps the invariant.** -/
theorem step (h : ClientInv s₀ c) (h0 : pmmTestBlock s₀ 0 = true) {op : PmmOp} {c' : PmmClient}
    (hstep : c.Step op c') : ClientInv s₀ c' := by
  cases op with
  | allocBlock =>
    rcases h.allocBlock h0 with hp | ⟨p, t, hp, hne, ht⟩
    · simp only [PmmClient.Step, PmmClient.step, hp, Option.some_inj] at hstep
      subst hstep
      exact h
    · simp only [PmmClient.Step, PmmClient.step, hp, Option.some_inj] at hstep
      subst hstep
      rw [PmmClient.record, if_neg hne]
      exact ht
  | allocBlocks size =>
    rcases h.allocBlocks h0 size.toNat with hp | ⟨p, t, hp, hne, -, ht⟩
    · simp only [PmmClient.Step, PmmClient.step, hp, Option.some_inj] at hstep
      subst hstep
      exact h
    · simp only [PmmClient.Step, PmmClient.step, hp, Option.some_inj] at hstep
      subst hstep
      rw [PmmClient.record, if_neg hne]
      exact ht
  | freeBlock p =>
    simp only [PmmClient.Step, PmmClient.step] at hstep
    split at hstep
    · next hlive =>
      obtain rfl := Option.some_inj.mp hstep
      exact h.freeBlock hlive
    · simp at hstep
  | freeBlocks p size =>
    simp only [PmmClient.Step, PmmClient.step] at hstep
    split at hstep
    · next hlive =>
      obtain rfl := Option.some_inj.mp hstep
      exact h.freeBlocks hlive
    · simp at hstep

end ClientInv

theorem clientInv_of_reaches {s₀ : Pmm} (h0 : pmmTestBlock s₀ 0 = true) {c : PmmClient}
    (hrun : Run.Reaches PmmClient.Step ⟨s₀, []⟩ c) : ClientInv s₀ c :=
  hrun.invariant (ClientInv.start s₀) fun _ _ _ h hstep => h.step h0 hstep

/-! ### When an allocation fails

With an exact counter the two tests of `pmm_alloc_blocks` — for memory, then for a run — fail
together only when there is no run, also where the 32-bit sum of the first wraps. -/

theorem pmmAllocBlocks_eq_zero_iff {s : Pmm} (hc : s.Counted) (h0 : ¬ FreeRun s 1 0) {n : ℕ}
    (hn : n < 2 ^ 32) : (pmmAllocBlocks s n).1 = 0 ↔ n = 0 ∨ ∀ b, ¬ FreeRun s n b := by
  rcases pmmAllocBlocks_cases s n with ⟨h, hwhy⟩ | ⟨b, h, hpos, hrun, -⟩
  · refine ⟨fun _ => ?_, fun _ => by rw [h]⟩
    rcases hwhy with hfull | hwhy
    · refine Or.inr fun b hb => ?_
      have hcard := hb.card_add_le
      have hle := s.memBlocks_le
      unfold Counted at hc
      omega
    · exact hwhy
  · rw [h]
    constructor
    · intro hz
      obtain rfl : b = 0 := (Nat.mul_eq_zero.mp hz).resolve_right (by decide)
      exact absurd (hrun.mono hpos) h0
    · rintro (rfl | hno)
      · omega
      · exact absurd hrun (hno b)

theorem pmmAllocBlock_eq_zero_iff {s : Pmm} (hc : s.Counted) (h0 : ¬ FreeRun s 1 0) :
    (pmmAllocBlock s).1 = 0 ↔ ∀ b, ¬ FreeRun s 1 b := by
  rcases pmmAllocBlock_cases s with ⟨h, hwhy⟩ | ⟨b, h, hlt, hrun, -⟩
  · refine ⟨fun _ b hb => ?_, fun _ => by rw [h]⟩
    rcases hwhy with hfull | hno
    · have hcard := hb.card_add_le
      unfold Counted at hc
      omega
    · exact hno b hb
  · rw [h]
    constructor
    · intro hz
      obtain rfl : b = 0 := (Nat.mul_eq_zero.mp hz).resolve_right (by decide)
      exact absurd hrun h0
    · exact fun hno => absurd hrun (hno b)

/-- What a client may rely on, whatever it has called so far. The blocks that were in use at the
start belong to somebody else: they stay in use, and are given to no one. -/
structure ClientSpec (s₀ : Pmm) (c : PmmClient) : Prop where
  memBlocks : c.pmm.memBlocks = s₀.memBlocks
  /-- The set bits are the initial ones and the blocks of the live allocations. -/
  bits : ∀ b < s₀.memBlocks, pmmTestBlock c.pmm b = true ↔
    pmmTestBlock s₀ b = true ∨ ∃ a ∈ c.live, b ∈ a.blocks
  /-- Live blocks lie below `mem_blocks` and were not in use at the start. -/
  fresh : ∀ a ∈ c.live, ∀ b ∈ a.blocks, b < s₀.memBlocks ∧ pmmTestBlock s₀ b = false
  /-- Live allocations are pairwise disjoint. -/
  disjoint : c.live.Pairwise fun a a' => Disjoint a.blocks a'.blocks
  /-- The counter is the number of set bits. -/
  counter : c.pmm.memUsedBlocks = c.pmm.usedSet.card
  /-- A single block is refused only when none is free, -/
  allocBlock : (pmmAllocBlock c.pmm).1 = 0 ↔ ∀ b, ¬ FreeRun c.pmm 1 b
  /-- and `n` blocks only when `n` is zero or no run of `n` is free. -/
  allocBlocks : ∀ n : UInt32, (pmmAllocBlocks c.pmm n.toNat).1 = 0 ↔
    n = 0 ∨ ∀ b, ¬ FreeRun c.pmm n.toNat b

/-- **Every run of a client**, from a counted state in which block `0` is reserved. -/
theorem pmmClient_run {s₀ : Pmm} (hcount : s₀.Counted) (h0 : pmmTestBlock s₀ 0 = true)
    {c : PmmClient} (hrun : Run.Reaches PmmClient.Step ⟨s₀, []⟩ c) : ClientSpec s₀ c := by
  have h := clientInv_of_reaches h0 hrun
  have hc : c.pmm.Counted := hcount.of_sameDrift h.drift
  have hzero := h.not_freeRun_zero h0
  refine ⟨h.memBlocks, fun b hb => ?_, fun a ha b hb => ?_, h.disjoint, hc,
    pmmAllocBlock_eq_zero_iff hc hzero, fun n => ?_⟩
  · have hmem := h.mem_usedSet b
    rw [mem_usedSet, mem_usedSet, h.memBlocks] at hmem
    simpa [hb] using hmem
  · have hlt := lt_of_mem_usedSet (h.blocks_subset ha hb)
    rw [h.memBlocks] at hlt
    exact ⟨hlt, (not_mem_usedSet hlt).mp (Finset.disjoint_right.mp (h.fresh a ha) hb)⟩
  · rw [pmmAllocBlocks_eq_zero_iff hc hzero n.toNat_lt, ← UInt32.toNat_inj]
    rfl

/-- Three blocks allocated, then one, then the three freed. -/
theorem pmmClient_run_eight :
    ClientSpec pmmEight
      ⟨pmmFreeBlocks (pmmSetBlock (pmmMarkBlocks pmmEight 1 3) 4) 4096 3, [⟨16384, 1⟩]⟩ := by
  have h₁ : PmmClient.Step ⟨pmmEight, []⟩ (.allocBlocks 3)
      ⟨pmmMarkBlocks pmmEight 1 3, [⟨4096, 3⟩]⟩ := rfl
  have h₂ : PmmClient.Step ⟨pmmMarkBlocks pmmEight 1 3, [⟨4096, 3⟩]⟩ .allocBlock
      ⟨pmmSetBlock (pmmMarkBlocks pmmEight 1 3) 4, [⟨16384, 1⟩, ⟨4096, 3⟩]⟩ := rfl
  have h₃ : PmmClient.Step
      ⟨pmmSetBlock (pmmMarkBlocks pmmEight 1 3) 4, [⟨16384, 1⟩, ⟨4096, 3⟩]⟩ (.freeBlocks 4096 3)
      ⟨pmmFreeBlocks (pmmSetBlock (pmmMarkBlocks pmmEight 1 3) 4) 4096 3, [⟨16384, 1⟩]⟩ := rfl
  exact pmmClient_run (by decide) (by decide) (((Run.Reaches.refl _).tail h₁).tail h₂ |>.tail h₃)

end Rexus
