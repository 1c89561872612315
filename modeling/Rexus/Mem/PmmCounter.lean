import Rexus.Mem.PmmClient

/-!
# The counter under any calls

`pmm_unset_block` takes one off the counter whether the bit was set or not. So any calls at all keep
the counter right, as long as what they free is in use; and the first one that frees a free block
makes it wrong.

## Main results

* `counted_pmmCall_iff` — one call keeps the counter right exactly if it frees only blocks in use
* `counterRight_pmmCalls_iff` — so does any sequence of calls

## Scope

The calls are the four of the allocator, with any arguments and in any order: no client is spoken
of, and nobody remembers what has been allocated. The state before the first call is any in which
the counter is right. A free of several blocks is looked at as a whole. If one of them is free
already the counter is one too low afterwards, unless the blocks are so many that it has come round.

The counter being right is said of the bits below `mem_blocks`, which are the ones that
`pmm_get_free_block_count` is about.
-/

namespace Rexus

open FirstFit Loop Pmm

/-- A call with any arguments, its result left out. -/
def pmmCall (s : Pmm) : PmmOp → Pmm
  | .allocBlock => (pmmAllocBlock s).2
  | .allocBlocks size => (pmmAllocBlocks s size.toNat).2
  | .freeBlock p => pmmFreeBlock s p
  | .freeBlocks p size => pmmFreeBlocks s p size.toNat

/-- A sequence of calls. -/
def pmmCalls (s : Pmm) (ops : List PmmOp) : Pmm := ops.foldl pmmCall s

/-- The counter is the number of set bits; so the number of free blocks has not wrapped, and no
allocation is refused that the bitmap could satisfy. -/
structure CounterRight (s : Pmm) : Prop where
  counted : s.Counted
  freeBlockCount : pmmGetFreeBlockCount s + s.usedSet.card = s.memBlocks
  allocBlock : ∀ b, FreeRun s 1 b →
    ∃ c, FreeRun s 1 c ∧ pmmAllocBlock s = (c * 4096, pmmSetBlock s c)
  allocBlocks : ∀ (size : UInt32) b, 0 < size.toNat → FreeRun s size.toNat b →
    ∃ c, FreeRun s size.toNat c ∧
      pmmAllocBlocks s size.toNat = (c * 4096, pmmMarkBlocks s c size.toNat)

/-- The blocks that a call frees, in use or not. -/
def PmmOp.freed (s : Pmm) : PmmOp → Finset ℕ
  | .allocBlock => ∅
  | .allocBlocks _ => ∅
  | .freeBlock p => Finset.Ico (p / 4096) (min (p / 4096 + 1) s.memBlocks)
  | .freeBlocks p size => Finset.Ico (p / 4096) (min (p / 4096 + size.toNat) s.memBlocks)

/-- What a call frees is in use. -/
def FreesUsed (s : Pmm) (op : PmmOp) : Prop := op.freed s ⊆ s.usedSet

instance (s : Pmm) (op : PmmOp) : Decidable (FreesUsed s op) :=
  inferInstanceAs (Decidable (op.freed s ⊆ s.usedSet))

section

variable {s : Pmm}

/-! ### A state whose counter is right -/

theorem Pmm.Counted.counterRight (h : s.Counted) : CounterRight s where
  counted := h
  freeBlockCount := by
    have hcard := s.card_usedSet_le
    have hle := s.memBlocks_le
    have hused : s.memUsedBlocks = s.usedSet.card := h
    rw [pmmGetFreeBlockCount]
    omega
  allocBlock b hb := by
    have hcard := hb.card_add_le
    have hused : s.memUsedBlocks = s.usedSet.card := h
    rcases pmmAllocBlock_cases s with ⟨-, hfull | hnone⟩ | ⟨c, heq, -, hc, -⟩
    · omega
    · exact absurd hb (hnone b)
    · exact ⟨c, hc, heq⟩
  allocBlocks size b hpos hb := by
    have hcard := hb.card_add_le
    have hle := s.memBlocks_le
    have hused : s.memUsedBlocks = s.usedSet.card := h
    rcases pmmAllocBlocks_cases s size.toNat with ⟨-, hfull | hzero | hnone⟩ | ⟨c, heq, -, hc, -⟩
    · omega
    · omega
    · exact absurd hb (hnone b)
    · exact ⟨c, hc, heq⟩

/-! ### One call -/

theorem Pmm.Counted.pmmAllocBlock (h : s.Counted) : (pmmAllocBlock s).2.Counted := by
  rcases pmmAllocBlock_cases s with ⟨heq, -⟩ | ⟨c, heq, -, hc, -⟩ <;> rw [heq]
  · exact h
  · exact h.of_sameDrift (takes_pmmSetBlock hc).drift

theorem Pmm.Counted.pmmAllocBlocks (h : s.Counted) (n : ℕ) : (pmmAllocBlocks s n).2.Counted := by
  rcases pmmAllocBlocks_cases s n with ⟨heq, -⟩ | ⟨c, heq, -, hc, -⟩ <;> rw [heq]
  · exact h
  · exact h.of_sameDrift (takes_pmmMarkBlocks hc).drift

/-- The counter goes down by one for each block that is cleared, in use or not. -/
theorem memUsedBlocks_pmmFreeBlocks (s : Pmm) (p n : ℕ) :
    ((pmmFreeBlocks s p n).memUsedBlocks +
      (Finset.Ico (p / 4096) (min (p / 4096 + n) s.memBlocks)).card) % 2 ^ 32 =
        s.memUsedBlocks := by
  -- at cursor `i` the blocks before it are counted off
  let P : ℕ → Pmm → Prop := fun i t => t.memBlocks = s.memBlocks ∧
    (0 < i → p / 4096 + i ≤ s.memBlocks) ∧ (t.memUsedBlocks + i) % 2 ^ 32 = s.memUsedBlocks
  have hstep : ∀ i t, 0 ≤ i → i < 0 + n → decide (p / 4096 + i < t.memBlocks) = true → P i t →
      P (i + 1) (pmmUnsetBlock t (p / 4096 + i)) := by
    rintro i t - - hlt ⟨hm, -, hu⟩
    have hlt' := of_decide_eq_true hlt
    have hunset : (pmmUnsetBlock t (p / 4096 + i)).memUsedBlocks =
        (t.memUsedBlocks + (2 ^ 32 - 1)) % 2 ^ 32 := rfl
    exact ⟨hm, fun _ => by omega, by rw [hunset]; omega⟩
  obtain ⟨i, -, hin, ⟨hm, hi, hu⟩, hstop⟩ := forWhile_inv _ _ P
    (show P 0 s from ⟨rfl, fun h => absurd h (Nat.lt_irrefl 0),
      Nat.mod_eq_of_lt s.memUsedBlocks_lt⟩) hstep
  have hcard : (Finset.Ico (p / 4096) (min (p / 4096 + n) s.memBlocks)).card = i := by
    rw [Nat.card_Ico]
    rcases Nat.lt_or_ge i n with hlt | hge
    · have hend := of_decide_eq_false (hstop (by omega))
      rw [hm] at hend
      omega
    · omega
  rw [hcard]
  exact hu

theorem pmmFreeBlock_eq_pmmFreeBlocks (s : Pmm) (p : ℕ) :
    pmmFreeBlock s p = pmmFreeBlocks s p 1 := by
  rw [pmmFreeBlock, pmmFreeBlocks, forWhile, Nat.add_zero]
  by_cases h : p / 4096 < s.memBlocks
  · rw [if_neg (Nat.not_le.mpr h), if_pos (decide_eq_true h), forWhile]
  · rw [if_pos (Nat.le_of_not_lt h), if_neg (by simpa using h)]

/-- A call that frees keeps the counter right exactly if it frees only blocks in use. -/
theorem counted_pmmFreeBlocks_iff (h : s.Counted) (p n : ℕ) :
    (pmmFreeBlocks s p n).Counted ↔
      Finset.Ico (p / 4096) (min (p / 4096 + n) s.memBlocks) ⊆ s.usedSet := by
  set B := Finset.Ico (p / 4096) (min (p / 4096 + n) s.memBlocks) with hB
  have hused : (pmmFreeBlocks s p n).usedSet = s.usedSet \ B := by
    rw [usedSet_pmmFreeBlocks, hB]
    ext b
    simp only [Finset.mem_sdiff, Finset.mem_Ico]
    refine and_congr_right fun hb => not_congr ?_
    have hlt := lt_of_mem_usedSet hb
    omega
  have hcount := memUsedBlocks_pmmFreeBlocks s p n
  have hlt := (pmmFreeBlocks s p n).memUsedBlocks_lt
  have hBle : B.card ≤ s.memBlocks := by
    rw [hB, Nat.card_Ico]
    omega
  have hle := s.memBlocks_le
  have hcard := s.card_usedSet_le
  have hsplit := Finset.card_sdiff_add_card_inter s.usedSet B
  have hs : s.memUsedBlocks = s.usedSet.card := h
  have hinter : (s.usedSet ∩ B).card = B.card ↔ B ⊆ s.usedSet := by
    rw [← Finset.inter_eq_right]
    exact ⟨fun heq => Finset.eq_of_subset_of_card_le Finset.inter_subset_right heq.ge,
      fun heq => by rw [heq]⟩
  have hsub := Finset.card_le_card (Finset.inter_subset_right : s.usedSet ∩ B ⊆ B)
  rw [← hinter, Counted, hused]
  rw [← hB] at hcount
  omega

/-- **One call** keeps the counter right exactly if it frees only blocks in use. -/
theorem counted_pmmCall_iff (h : s.Counted) (op : PmmOp) :
    (pmmCall s op).Counted ↔ FreesUsed s op := by
  cases op with
  | allocBlock => exact iff_of_true h.pmmAllocBlock (Finset.empty_subset _)
  | allocBlocks size => exact iff_of_true (h.pmmAllocBlocks size.toNat) (Finset.empty_subset _)
  | freeBlock p =>
    rw [pmmCall, pmmFreeBlock_eq_pmmFreeBlocks]
    exact counted_pmmFreeBlocks_iff h p 1
  | freeBlocks p size => exact counted_pmmFreeBlocks_iff h p size.toNat

/-! ### Any sequence of calls -/

theorem pmmCalls_take_succ (s : Pmm) (ops : List PmmOp) {k : ℕ} (hk : k < ops.length) :
    pmmCalls s (ops.take (k + 1)) = pmmCall (pmmCalls s (ops.take k)) ops[k] := by
  rw [pmmCalls, List.take_succ_eq_append_getElem hk, List.foldl_append]
  rfl

/-- **Every sequence of calls**: the counter is right after each of them exactly if each frees only
blocks that are in use when it is made. -/
theorem counterRight_pmmCalls_iff (hs : s.Counted) (ops : List PmmOp) :
    (∀ k ≤ ops.length, CounterRight (pmmCalls s (ops.take k))) ↔
      ∀ (k : ℕ) (hk : k < ops.length), FreesUsed (pmmCalls s (ops.take k)) ops[k] := by
  constructor
  · intro hright k hk
    have hnext := (hright (k + 1) hk).counted
    rw [pmmCalls_take_succ s ops hk] at hnext
    exact (counted_pmmCall_iff (hright k hk.le).counted _).mp hnext
  · intro hfrees k hk
    refine Counted.counterRight ?_
    induction k with
    | zero => exact hs
    | succ k ih =>
      rw [pmmCalls_take_succ s ops hk]
      exact (counted_pmmCall_iff (ih (Nat.le_of_succ_le hk)) _).mpr (hfrees k hk)

end

/-! ### Freeing once and freeing twice -/

/-- A block that is allocated, freed, and allocated again. -/
theorem counterRight_pmmCalls_allocFree :
    CounterRight (pmmCalls pmmEight [.allocBlock, .freeBlock 0x1000, .allocBlock]) :=
  (counterRight_pmmCalls_iff (s := pmmEight) (by decide)
    [.allocBlock, .freeBlock 0x1000, .allocBlock]).mpr (by decide) 3 (Nat.le_refl 3)

/-- Once a block is freed twice, the counter is one below the number of set bits. -/
theorem not_counterRight_pmmCalls_freeTwice : pmmEight.Counted ∧
    ¬ ∀ k ≤ 3, CounterRight
      (pmmCalls pmmEight ([.allocBlock, .freeBlock 0x1000, .freeBlock 0x1000].take k)) := by
  refine ⟨by decide, fun h => ?_⟩
  exact absurd (h 3 (Nat.le_refl 3)).counted (by decide)

end Rexus
