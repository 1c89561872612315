import Rexus.Net.DriverData

/-!
# Undoing a set-up

A set-up asks the allocator five times: for the device structure, and for the descriptors and the
buffers of each ring. When it fails it gives back the device structure, and a ring whose buffers
were refused its descriptors; but not the receive ring when the transmit ring fails. And block `0`
is taken for a refusal, and lost. A set-up that succeeds is undone by `e1000_cleanup`, which has a
list of what to give back of its own.

## Main results

* `E1000SetUp.cleansUp` — `e1000_cleanup` gives back what was taken, and nothing else
* `e1000_init_undone_iff` — for which allocators nothing is lost

## Conventions

The state before the call is any, and so is the allocator, whose counter may be wrong; the condition
is about the five requests in their order, each asked of the allocator as the ones before have left
it. That block `0` is not free is part of it: an allocation that returns block `0` is a block that
is marked and a pointer that is null.

To be undone is said of the allocator and of the interface: the bitmap and the counter are what they
were, and the interface points to what it pointed to. What has been written to memory that was free
does not count. For a set-up that succeeds, `e1000_cleanup` may come at any later time, and the rest
of the kernel may have allocated in between.
-/

namespace Rexus

open Pmm

/-- `e1000_cleanup`. Stopping the device changes its registers. -/
def e1000Cleanup (s : DriverStack) (p : ℕ) : DriverStack :=
  let dev := s.e1000Dev p
  if dev = 0 then s
  else
    let d := s.memory.device dev
    let pmm := pmmFreeUnlessNull s.table.pmm d.rxDescs ((16 * 32 + 4095) / 4096)
    let pmm := pmmFreeUnlessNull pmm d.rxBuffers ((2048 * 32 + 4095) / 4096)
    let pmm := pmmFreeUnlessNull pmm d.txDescs ((16 * 32 + 4095) / 4096)
    let pmm := pmmFreeUnlessNull pmm d.txBuffers ((2048 * 32 + 4095) / 4096)
    let pmm := pmmFreeBlocks pmm dev ((144 + 4095) / 4096)
    (s.setMemory pmm s.memory).setDriverData p 0

/-! ### What is to hold -/

/-- The allocator and the interface are as they were. -/
structure InitUndone (s s' : DriverStack) (p : ℕ) : Prop where
  blocks : SameAllocator s.table.pmm s'.table.pmm
  iface : s'.net.iface p = s.net.iface p
  mac : s'.mac p = s.mac p

/-- Whatever has been allocated since, the cleanup gives back the blocks that the set-up took. -/
def CleansUp (s s' : DriverStack) (p : ℕ) : Prop :=
  ∃ B, Takes s.table.pmm s'.table.pmm B ∧ ∀ pmm, B ⊆ pmm.usedSet →
    Gives pmm (e1000Cleanup (s'.setMemory pmm s'.memory) p).table.pmm B

/-- A set-up that fails has changed nothing, and one that succeeds can be undone. -/
structure InitRight (s : DriverStack) (p mmioBase : ℕ) (ioBase : UInt32)
    (macAddr : Fin 6 → UInt8) : Prop where
  failed : ∀ s', e1000Init s p mmioBase ioBase macAddr = (false, s') → InitUndone s s' p
  succeeded : ∀ s', e1000Init s p mmioBase ioBase macAddr = (true, s') → CleansUp s s' p

/-- None of these requests is refused, one after the other. -/
def Grants : Pmm → List ℕ → Prop
  | _, [] => True
  | pmm, n :: ns => (pmmAllocBlocks pmm n).1 ≠ 0 ∧ Grants (pmmAllocBlocks pmm n).2 ns

/-- Block `0` is not given away, and if there is memory for the device structure and the receive
ring, there is memory for the transmit ring as well. -/
structure InitUndoable (pmm : Pmm) : Prop where
  blockZero : ¬FreeRun pmm 1 0 ∨ pmm.memBlocks < (pmm.memUsedBlocks + 1) % 2 ^ 32
  rings : Grants pmm [1, 1, 16] → Grants pmm [1, 1, 16, 1, 16]

/-! ### A set-up that succeeds -/

section

variable {s s' : DriverStack} {p mmioBase : ℕ} {ioBase : UInt32} {macAddr : Fin 6 → UInt8}
  {pmm pmm' : Pmm} {m : E1000Memory} {dev : ℕ}

theorem E1000SetUp.cleansUp (up : E1000SetUp s mmioBase ioBase macAddr) (p : ℕ) :
    CleansUp s (up.stack p) p := by
  obtain ⟨rxDescs, rxBuffers, hrx, m₁, -, -, hm₁⟩ := e1000InitRx_true up.initRx
  obtain ⟨txDescs, txBuffers, htx, m₂, -, hdevice, -, hm₂⟩ := e1000InitTx_true up.initTx
  obtain ⟨-, -, hD⟩ := takes_of_pmmAllocBlocks up.alloc up.dev_ne_zero
  obtain ⟨hrd0, hrb0, _, hRD, hRB⟩ := e1000AllocRing_takes hrx
  obtain ⟨htd0, htb0, _, hTD, hTB⟩ := e1000AllocRing_takes htx
  -- the cleanup finds the four pointers in the device structure
  have hrxfields : up.m₁.device up.dev =
      { m₁.device up.dev with rxDescs, rxBuffers, rxCur := 0 } := by
    rw [hm₁, E1000Memory.setDevice_device]
  have htxfields : up.m₂.device up.dev =
      { up.m₁.device up.dev with txDescs, txBuffers, txCur := 0 } := by
    rw [hm₂, E1000Memory.setDevice_device, hdevice]
  rw [hrxfields] at htxfields
  have hcleanup : ∀ pmm,
      (e1000Cleanup ((up.stack p).setMemory pmm (up.stack p).memory) p).table.pmm =
        pmmFreeBlocks (pmmFreeBlocks (pmmFreeBlocks (pmmFreeBlocks (pmmFreeBlocks pmm
          rxDescs 1) rxBuffers 16) txDescs 1) txBuffers 16) up.dev 1 := fun pmm => by
    have hdev : ((up.stack p).setMemory pmm (up.stack p).memory).e1000Dev p = up.dev :=
      up.stack_dev p
    have hfields : ((up.stack p).setMemory pmm (up.stack p).memory).memory.device up.dev = _ :=
      htxfields
    rw [e1000Cleanup]
    dsimp only
    rw [hdev, hfields, if_neg up.dev_ne_zero]
    simp only [pmmFreeUnlessNull, hrd0, hrb0, htd0, htb0, if_false]
    rfl
  -- what is given back is what was taken, in another order
  have hR := hRD.trans hRB
  have hT := hTD.trans hTB
  have hall := hR.trans hT
  refine ⟨_, hD.trans hall, fun pmm hused => ?_⟩
  rw [hcleanup, Finset.union_comm]
  obtain ⟨hDused, hused⟩ := Finset.union_subset_iff.mp hused
  obtain ⟨hRused, hTused⟩ := Finset.union_subset_iff.mp hused
  obtain ⟨hRDused, hRBused⟩ := Finset.union_subset_iff.mp hRused
  obtain ⟨hTDused, hTBused⟩ := Finset.union_subset_iff.mp hTused
  have hgives := (gives_pmmFreeBlocks hRDused).freeBlocks hRBused (hRD.disjoint_of_trans hRB)
  have hgives := hgives.freeBlocks hTDused (hR.disjoint_of_trans hTD)
  have hgives := hgives.freeBlocks hTBused ((hR.trans hTD).disjoint_of_trans hTB)
  rw [Finset.union_assoc _ (Finset.Ico (txDescs / 4096) _)] at hgives
  exact hgives.freeBlocks hDused (hD.disjoint_of_trans hall).symm

/-! ### A set-up that fails -/

/-- Without block `0`, a request that is refused changes nothing. -/
theorem not_freeRun_of_takes {B : Finset ℕ} (h0 : ¬FreeRun pmm 1 0) (h : Takes pmm pmm' B) :
    ¬FreeRun pmm' 1 0 := by
  rw [freeRun_one] at h0 ⊢
  rw [h.memBlocks]
  exact fun hfree => h0 ⟨hfree.1, fun hmem => hfree.2 (h.subset hmem)⟩

/-- A ring that is not allocated leaves nothing behind. -/
theorem e1000AllocRing_none (h0 : ¬FreeRun pmm 1 0) (h : e1000AllocRing pmm = (none, pmm')) :
    Takes pmm pmm' ∅ := by
  obtain ⟨h₁, -⟩ | ⟨a, pmm₁, h₁, ha, ⟨pmm₂, h₂, -, rfl⟩ | ⟨_, -, -, hr⟩⟩ := e1000AllocRing_cases h
  · rw [pmmAllocBlocks_zero h₁ h0]
    exact Takes.refl pmm
  · have htakes := (takes_of_pmmAllocBlocks h₁ ha).2.2
    rw [pmmAllocBlocks_zero h₂ (not_freeRun_of_takes h0 htakes)]
    exact htakes.freeBlocks (Takes.refl pmm₁)
  · cases hr

theorem grants_cons {n ptr : ℕ} (h : pmmAllocBlocks pmm n = (ptr, pmm')) (ns : List ℕ) :
    Grants pmm (n :: ns) ↔ ptr ≠ 0 ∧ Grants pmm' ns := by
  rw [Grants, h]

/-- The two requests of a ring. -/
theorem grants_of_ring {r : Option (ℕ × ℕ)} (h : e1000AllocRing pmm = (r, pmm')) (ns : List ℕ) :
    Grants pmm (1 :: 16 :: ns) ↔ r.isSome ∧ Grants pmm' ns := by
  obtain ⟨h₁, rfl⟩ | ⟨a, pmm₁, h₁, ha, ⟨pmm₂, h₂, rfl, -⟩ | ⟨b, h₂, hb, rfl⟩⟩ :=
    e1000AllocRing_cases h
  · rw [grants_cons h₁]
    simp
  · rw [grants_cons h₁, grants_cons h₂]
    simp
  · rw [grants_cons h₁, grants_cons h₂, and_iff_right ha, and_iff_right hb]
    simp

theorem e1000InitRx_of_ring (m : E1000Memory) (dev : ℕ) :
    (e1000AllocRing pmm = (none, pmm') → e1000InitRx pmm m dev = (false, pmm', m)) ∧
      ∀ ring, e1000AllocRing pmm = (some ring, pmm') →
        ∃ m', e1000InitRx pmm m dev = (true, pmm', m') := by
  constructor
  · intro h
    rw [e1000InitRx, h]
  · intro ring h
    rw [e1000InitRx, h]
    exact ⟨_, rfl⟩

theorem e1000InitTx_of_ring (m : E1000Memory) (dev : ℕ) :
    (e1000AllocRing pmm = (none, pmm') → e1000InitTx pmm m dev = (false, pmm', m)) ∧
      ∀ ring, e1000AllocRing pmm = (some ring, pmm') →
        ∃ m', e1000InitTx pmm m dev = (true, pmm', m') := by
  constructor
  · intro h
    rw [e1000InitTx, h]
  · intro ring h
    rw [e1000InitTx, h]
    exact ⟨_, rfl⟩

/-- Of a set-up that fails only the allocator is left to look at. -/
theorem initRight_of_failed
    (h : e1000Init s p mmioBase ioBase macAddr = (false, s.setMemory pmm m)) :
    InitRight s p mmioBase ioBase macAddr ↔ SameAllocator s.table.pmm pmm := by
  constructor
  · intro hright
    exact (hright.failed _ h).blocks
  · intro hsame
    refine ⟨fun s' hs' => ?_, fun s' hs' => nomatch (Prod.mk.inj (h.symm.trans hs')).1⟩
    obtain rfl := (Prod.mk.inj (h.symm.trans hs')).2
    exact ⟨hsame, rfl, rfl⟩

/-- A null pointer for the device structure is a refusal, or block `0`. -/
theorem initRight_iff_of_null (hdev : pmmAllocBlocks s.table.pmm 1 = (0, pmm)) :
    InitRight s p mmioBase ioBase macAddr ↔ InitUndoable s.table.pmm := by
  have hinit : e1000Init s p mmioBase ioBase macAddr = (false, s.setMemory pmm s.memory) := by
    simp only [e1000Init, show pmmAllocBlocks s.table.pmm ((144 + 4095) / 4096) = _ from hdev,
      if_pos]
  have hno : ¬Grants s.table.pmm [1, 1, 16] := fun hgrants => hgrants.1 (congrArg Prod.fst hdev)
  rw [initRight_of_failed hinit]
  rcases pmmAllocBlocks_cases s.table.pmm 1 with ⟨heq, hrefused⟩ | ⟨b, heq, -, hrun, -⟩
  · obtain rfl := (Prod.mk.inj (heq.symm.trans hdev)).2
    refine iff_of_true (SameAllocator.refl _) ⟨?_, fun hgrants => absurd hgrants hno⟩
    rcases hrefused with hfull | hone | hnone
    · exact Or.inr hfull
    · exact absurd hone (by decide)
    · exact Or.inl (hnone 0)
  · obtain ⟨hb, rfl⟩ := Prod.mk.inj (heq.symm.trans hdev)
    obtain rfl : b = 0 := by omega
    have hchanged : ¬SameAllocator s.table.pmm (pmmMarkBlocks s.table.pmm 0 1) := by
      rw [sameAllocator_iff (takes_pmmMarkBlocks hrun)]
      decide
    refine iff_of_false hchanged fun hundoable => ?_
    rcases hundoable.blockZero with hused | hfull
    · exact hused hrun
    · rw [pmmAllocBlocks, if_pos hfull] at heq
      exact hchanged ((Prod.mk.inj heq).2 ▸ SameAllocator.refl _)

/-- The least block is given away first, so it was not block `0`. -/
theorem not_freeRun_of_granted (hdev : pmmAllocBlocks pmm 1 = (dev, pmm')) (h0 : dev ≠ 0) :
    ¬FreeRun pmm 1 0 := by
  intro hrun
  rcases pmmAllocBlocks_cases pmm 1 with ⟨heq, -⟩ | ⟨b, heq, -, -, hleast⟩
  · exact h0 (Prod.mk.inj (hdev.symm.trans heq)).1
  · have hb := hleast 0 hrun
    have hptr := (Prod.mk.inj (hdev.symm.trans heq)).1
    omega

end

/-- **Nothing is lost by a set-up** exactly if block `0` is not given away, and the transmit ring is
not refused after the receive ring has been granted. -/
theorem e1000_init_undone_iff (s : DriverStack) (p mmioBase : ℕ) (ioBase : UInt32)
    (macAddr : Fin 6 → UInt8) :
    InitRight s p mmioBase ioBase macAddr ↔ InitUndoable s.table.pmm := by
  rcases hdev : pmmAllocBlocks s.table.pmm ((144 + 4095) / 4096) with ⟨dev, pmm₁⟩
  by_cases h0 : dev = 0
  · subst h0
    exact initRight_iff_of_null hdev
  have hzero := not_freeRun_of_granted hdev h0
  obtain ⟨-, -, hD⟩ := takes_of_pmmAllocBlocks hdev h0
  have hzero₁ := not_freeRun_of_takes hzero hD
  -- what is left of the condition is about the rings
  have hcondition : InitUndoable s.table.pmm ↔
      (Grants pmm₁ [1, 16] → Grants pmm₁ [1, 16, 1, 16]) := by
    have hgrants : ∀ ns, Grants s.table.pmm (1 :: ns) ↔ Grants pmm₁ ns := fun ns =>
      (grants_cons hdev ns).trans (and_iff_right h0)
    rw [← hgrants, ← hgrants]
    exact ⟨InitUndoable.rings, fun hrings => ⟨Or.inl hzero, hrings⟩⟩
  rw [hcondition]
  rcases hrx : e1000AllocRing pmm₁ with ⟨_ | ring, pmm₂⟩
  · have hinit : e1000Init s p mmioBase ioBase macAddr =
        (false, s.setMemory (pmmFreeBlocks pmm₂ dev 1)
          (s.memory.setDevice dev (newE1000Device mmioBase ioBase macAddr))) := by
      simp only [e1000Init, hdev, if_neg h0, (e1000InitRx_of_ring _ dev).1 hrx]
    have hback := hD.freeBlocks (e1000AllocRing_none hzero₁ hrx)
    rw [initRight_of_failed hinit, sameAllocator_iff hback]
    exact iff_of_true rfl fun hgrants => absurd ((grants_of_ring hrx []).mp hgrants).1 (by decide)
  · obtain ⟨m₂, hrxok⟩ := (e1000InitRx_of_ring (s.memory.setDevice dev
      (newE1000Device mmioBase ioBase macAddr)) dev).2 ring hrx
    obtain ⟨-, -, _, hRD, hRB⟩ := e1000AllocRing_takes hrx
    have hR := hRD.trans hRB
    rw [grants_of_ring hrx, grants_of_ring hrx]
    simp only [Option.isSome_some, true_and]
    rcases htx : e1000AllocRing pmm₂ with ⟨_ | ring', pmm₃⟩
    · have hinit : e1000Init s p mmioBase ioBase macAddr =
          (false, s.setMemory (pmmFreeBlocks pmm₃ dev 1) m₂) := by
        simp only [e1000Init, hdev, if_neg h0, hrxok, (e1000InitTx_of_ring _ dev).1 htx]
      -- the receive ring is lost
      have hleft := hD.freeBlocks
        (hR.trans (e1000AllocRing_none (not_freeRun_of_takes hzero₁ hR) htx))
      rw [initRight_of_failed hinit, sameAllocator_iff hleft, Finset.union_empty]
      refine iff_of_false (fun hempty => ?_) fun hgrants =>
        absurd ((grants_of_ring htx []).mp (hgrants trivial)).1 (by decide)
      have hdescs := (Finset.union_eq_empty.mp hempty).1
      rw [Finset.Ico_eq_empty_iff] at hdescs
      omega
    · obtain ⟨m₃, htxok⟩ := (e1000InitTx_of_ring m₂ dev).2 ring' htx
      have hinit : ∃ s', e1000Init s p mmioBase ioBase macAddr = (true, s') := by
        simp only [e1000Init, hdev, if_neg h0, hrxok, htxok]
        exact ⟨_, rfl⟩
      obtain ⟨s', hinit⟩ := hinit
      have hfailed : ∀ u, ¬e1000Init s p mmioBase ioBase macAddr = (false, u) := fun u hu => by
        cases (Prod.mk.inj (hinit.symm.trans hu)).1
      refine iff_of_true ⟨fun u hu => absurd hu (hfailed u), fun u hu => ?_⟩ fun _ =>
        (grants_of_ring htx []).mpr ⟨rfl, trivial⟩
      obtain ⟨up, rfl⟩ := e1000Init_setUp hu
      exact up.cleansUp p

/-- As `unusedDriver`, with nineteen blocks: one is in use, and there are eighteen for the device
structure and the receive ring. -/
def tightDriver : DriverStack :=
  unusedDriver.setMemory
    { pmmEight with
      memBlocks := 19
      memBlocks_le := by decide }
    unusedDriver.memory

/-- After the set-up of its device. -/
def tightFailed : DriverStack := (e1000Init tightDriver 524288 1048576 0 fun _ => 2).2

/-- The transmit ring is refused: the set-up fails, and the seventeen blocks of the receive ring
stay in use. -/
theorem not_initRight_tight :
    e1000Init tightDriver 524288 1048576 0 (fun _ => 2) = (false, tightFailed) ∧
      tightDriver.table.pmm.memUsedBlocks = 1 ∧ tightFailed.table.pmm.memUsedBlocks = 18 ∧
      ¬InitRight tightDriver 524288 1048576 0 fun _ => 2 := by
  have hfails : (e1000Init tightDriver 524288 1048576 0 fun _ => 2).1 = false := by decide +kernel
  have hinit : e1000Init tightDriver 524288 1048576 0 (fun _ => 2) = (false, tightFailed) :=
    Prod.ext hfails rfl
  have hused : tightFailed.table.pmm.memUsedBlocks = 18 := by decide +kernel
  refine ⟨hinit, rfl, hused, fun hright => ?_⟩
  have hcounter := (hright.failed _ hinit).blocks.counter
  rw [hused] at hcounter
  exact absurd hcounter (by decide)

end Rexus
