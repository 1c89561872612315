import Rexus.Net.PacketMemory
import Rexus.Net.ReassemblyRun

/-!
# The memory of reassembly

What `ipv4_reassemble_packet` does to the allocator, and `ipv4_cleanup` of `net/ipv4.c`. A slot in
use has a buffer of sixteen blocks, whatever it has collected. `ipv4_cleanup` frees what the
datagram would need up to its end, which is zero until the last fragment has been received.

A run has fragments, calls for the routing table, and what the rest of the kernel does to the
allocator in between. A packet that is completed belongs to the caller from then on.

## Main results

* `ipv4ReassemblePacket_memory` — one fragment, and the buffers of all slots
* `Ipv4MemoryInv.cleanupRight_iff` — when `ipv4_cleanup` gives back all that is held
* `reassembly_memory_run` — every run of fragments that are handled within the bounds

## Conventions

The allocator is the one of the routing table, with the routes on top of what the rest of the kernel
holds; the buffers of the slots are part of that rest, kept by the run as allocations of their own.
Completed packets are handed to the caller, and whether and when it frees them is one of the things
a run may do.

What is released is said for `ipv4_cleanup` as it is called at the end of a run, in any state
reached: `CleanupRight` asks that it returns and that the buffers and the routes are given back
whole. The blocks a buffer is freed by are computed from the end of the datagram as it is then
known.
-/

namespace Rexus

open Linked Loop Pmm Run

/-! ### Cleaning up -/

/-- The blocks that `ipv4_cleanup` frees of a buffer. -/
def cleanupBlocks (slot : ReassemblySlot) : ℕ := (slot.totalLength.toNat + 4095) / 4096

/-- `ipv4_cleanup`: the routes are flushed, and of each slot in use the blocks are freed that its
total length says; `none` if the list of routes does not end. -/
def ipv4Cleanup (table : RouteTable) (slots : ℕ → ReassemblySlot) : Option RouteTable :=
  (ipv4FlushRoutes table).map fun table => { table with
    pmm := forRange (fun i pmm => pmmFreeUnlessNull pmm (slots i).data (cleanupBlocks (slots i)))
      64 0 table.pmm }

/-- The buffers of the slots that are in use, if slot `i` has `size i` blocks. -/
def slotAllocs (slots : ℕ → ReassemblySlot) (size : ℕ → ℕ) : List Allocation :=
  (List.range 64).flatMap fun i => PmmClient.record [] (slots i).data (size i)

/-- All buffers, of sixteen blocks each. -/
abbrev bufferAllocs (slots : ℕ → ReassemblySlot) : List Allocation :=
  slotAllocs slots fun _ => reassemblyBlocks

section

variable {slots : ℕ → ReassemblySlot} {size : ℕ → ℕ} {a : Allocation} {i : ℕ}

theorem mem_record_nil {p n : ℕ} : a ∈ PmmClient.record [] p n ↔ p ≠ 0 ∧ a = ⟨p, n⟩ := by
  rw [PmmClient.record]
  split_ifs with hp
  · simp [hp]
  · simp [hp]

theorem mem_slotAllocs : a ∈ slotAllocs slots size ↔
    ∃ i < 64, (slots i).data ≠ 0 ∧ a = ⟨(slots i).data, size i⟩ := by
  simp only [slotAllocs, List.mem_flatMap, List.mem_range, mem_record_nil]

/-- The buffers are disjoint if those of different slots are. -/
theorem pairwise_slotAllocs :
    (slotAllocs slots size).Pairwise (fun a a' => Disjoint a.blocks a'.blocks) ↔
      ∀ i < 64, ∀ j < 64, i ≠ j → (slots i).data ≠ 0 → (slots j).data ≠ 0 →
        Disjoint (Allocation.blocks ⟨(slots i).data, size i⟩)
          (Allocation.blocks ⟨(slots j).data, size j⟩) := by
  rw [slotAllocs, List.pairwise_flatMap]
  constructor
  · rintro ⟨-, h⟩ i hi j hj hij hdata hdata'
    have hlt : ∀ k l, k < l → l < 64 → (slots k).data ≠ 0 → (slots l).data ≠ 0 →
        Disjoint (Allocation.blocks ⟨(slots k).data, size k⟩)
          (Allocation.blocks ⟨(slots l).data, size l⟩) := fun k l hkl hl hk hl' => by
      have hpair := List.pairwise_iff_getElem.mp h k l (by simp; omega) (by simp; omega) hkl
      rw [List.getElem_range, List.getElem_range] at hpair
      exact hpair _ (mem_record_nil.mpr ⟨hk, rfl⟩) _ (mem_record_nil.mpr ⟨hl', rfl⟩)
    rcases Nat.lt_or_gt_of_ne hij with h | h
    · exact hlt i j h hj hdata hdata'
    · exact (hlt j i h hi hdata' hdata).symm
  · intro h
    refine ⟨fun i _ => ?_, List.nodup_range.pairwise_of_forall_ne fun i hi j hj hij a ha b hb => ?_⟩
    · rw [PmmClient.record]
      split_ifs
      · exact List.Pairwise.nil
      · exact List.pairwise_singleton _ _
    · obtain ⟨hdata, rfl⟩ := mem_record_nil.mp ha
      obtain ⟨hdata', rfl⟩ := mem_record_nil.mp hb
      exact h i (List.mem_range.mp hi) j (List.mem_range.mp hj) hij hdata hdata'

/-- The loop of `ipv4_cleanup` frees the buffers one after the other. -/
theorem forRange_freeUnlessNull (data size : ℕ → ℕ) (n : ℕ) (s : Pmm) :
    forRange (fun i pmm => pmmFreeUnlessNull pmm (data i) (size i)) n 0 s =
      pmmFreeAll s ((List.range n).flatMap fun i => PmmClient.record [] (data i) (size i)) := by
  induction n with
  | zero => rfl
  | succ n ih =>
    rw [forRange_succ, ih, List.range_succ, List.flatMap_append, Nat.zero_add, pmmFreeAll,
      pmmFreeAll, List.foldl_append, List.flatMap_singleton, pmmFreeUnlessNull, PmmClient.record]
    split_ifs <;> rfl

theorem ipv4Cleanup_eq {r : Routing} (h : RouteInv r) (slots : ℕ → ReassemblySlot) :
    ipv4Cleanup r.table slots = some { r.table with
      routes := 0
      pmm := pmmFreeAll r.table.pmm (r.stored.map StoredRoute.alloc ++
        slotAllocs slots fun i => cleanupBlocks (slots i)) } := by
  rw [ipv4Cleanup, h.flush_eq, Option.map_some, forRange_freeUnlessNull]
  simp only [pmmFreeAll, List.foldl_append]
  rfl

/-- No datagram needs more than a buffer. -/
theorem cleanupBlocks_le (slot : ReassemblySlot) : cleanupBlocks slot ≤ reassemblyBlocks := by
  have hlt := slot.totalLength.toNat_lt
  rw [cleanupBlocks, reassemblyBlocks]
  omega

/-- All of a buffer is freed if the datagram needs its last block. -/
theorem cleanupBlocks_eq_iff (slot : ReassemblySlot) :
    cleanupBlocks slot = reassemblyBlocks ↔ 61440 < slot.totalLength.toNat := by
  have hlt := slot.totalLength.toNat_lt
  rw [cleanupBlocks, reassemblyBlocks]
  omega

/-! ### One slot and the others -/

/-- The buffers of all slots but one. -/
def otherBuffers (slots : ℕ → ReassemblySlot) (i : ℕ) : List Allocation :=
  ((List.range 64).erase i).flatMap fun j => PmmClient.record [] (slots j).data reassemblyBlocks

theorem bufferAllocs_update (slots : ℕ → ReassemblySlot) (hi : i < 64) (slot : ReassemblySlot) :
    (bufferAllocs (Function.update slots i slot)).Perm
      (PmmClient.record [] slot.data reassemblyBlocks ++ otherBuffers slots i) := by
  have hperm := List.perm_cons_erase (List.mem_range.mpr hi)
  refine (hperm.flatMap_right _).trans ?_
  rw [List.flatMap_cons, Function.update_self, otherBuffers]
  refine List.Perm.of_eq (congrArg _ (List.flatMap_congr fun j hj => ?_))
  have hne : j ≠ i := fun h => by
    subst h
    exact List.nodup_range.not_mem_erase hj
  rw [Function.update_of_ne hne]

theorem bufferAllocs_perm (slots : ℕ → ReassemblySlot) (hi : i < 64) : (bufferAllocs slots).Perm
    (PmmClient.record [] (slots i).data reassemblyBlocks ++ otherBuffers slots i) := by
  have h := bufferAllocs_update slots hi (slots i)
  rwa [Function.update_eq_self] at h

/-- The buffer of a slot that is given up, next to new allocations. -/
theorem bufferAllocs_emptied (slots : ℕ → ReassemblySlot) (hi : i < 64) {slot : ReassemblySlot}
    (hdata : slot.data ≠ 0) (allocs rest : List Allocation) :
    (allocs ++ (bufferAllocs (Function.update slots i slot) ++ rest)).Perm
      (⟨slot.data, reassemblyBlocks⟩ ::
        (bufferAllocs (Function.update slots i emptySlot) ++ (allocs ++ rest))) := by
  have hslot : PmmClient.record [] slot.data reassemblyBlocks = [⟨slot.data, reassemblyBlocks⟩] :=
    if_neg hdata
  have hbuffers := bufferAllocs_update slots hi slot
  have hempty := bufferAllocs_update slots hi emptySlot
  rw [hslot] at hbuffers
  calc
    List.Perm (allocs ++ (bufferAllocs (Function.update slots i slot) ++ rest))
      (allocs ++ ⟨slot.data, reassemblyBlocks⟩ :: (otherBuffers slots i ++ rest)) :=
        (hbuffers.append_right rest).append_left allocs
    List.Perm _ (⟨slot.data, reassemblyBlocks⟩ :: (allocs ++ (otherBuffers slots i ++ rest))) :=
        List.perm_middle
    List.Perm _ (⟨slot.data, reassemblyBlocks⟩ :: (otherBuffers slots i ++ (allocs ++ rest))) :=
        (List.perm_append_comm_assoc ..).cons _
    List.Perm _ _ := (hempty.symm.append_right (allocs ++ rest)).cons _

end

/-! ### One fragment -/

theorem record_eq_append (live : List Allocation) (p n : ℕ) :
    PmmClient.record live p n = PmmClient.record [] p n ++ live := by
  unfold PmmClient.record
  split_ifs <;> rfl

section

variable {base pmm : Pmm} {s : ℕ → ReassemblySlot} {rest : List Allocation}

/-- Taking a slot into use takes its buffer. -/
theorem reassemblySlot_memory (hmem : ClientInv base ⟨pmm, bufferAllocs s ++ rest⟩)
    (h0 : pmmTestBlock base 0 = true) (junk : ℕ → UInt8) (h : Ipv4Header) :
    ∃ o pmm' s', reassemblySlot pmm s junk h = (o, pmm', s') ∧
      ClientInv base ⟨pmm', bufferAllocs s' ++ rest⟩ ∧
      ∀ i, o = some i → i < 64 ∧ (s' i).data ≠ 0 := by
  rw [reassemblySlot]
  rcases hfind : (List.range 64).find? fun i => (s i).has h with _ | i
  · rcases hfree : (List.range 64).find? fun i => (s i).data == 0 with _ | i
    · exact ⟨none, pmm, s, rfl, hmem, fun i hi => by cases hi⟩
    · have hi : i < 64 := List.mem_range.mp (List.mem_of_find?_eq_some hfree)
      have hdata : (s i).data = 0 := by
        simpa using List.find?_some (p := fun i => (s i).data == 0) hfree
      rcases halloc : pmmAllocBlocks pmm reassemblyBlocks with ⟨data, pmm'⟩
      refine ⟨_, pmm', _, rfl, ?_, fun j hj => ?_⟩
      · have hrecord := (hmem.record_allocBlocks h0 halloc).1
        have hbefore := bufferAllocs_perm s hi
        rw [hdata, PmmClient.record, if_pos rfl, List.nil_append] at hbefore
        rw [record_eq_append] at hrecord
        refine hrecord.perm ?_
        rw [← List.append_assoc]
        have hafter := bufferAllocs_update s hi (newSlot h data junk)
        exact ((hbefore.append_left _).trans hafter.symm).append_right rest
      · split_ifs at hj with hzero
        obtain rfl := Option.some_inj.mp hj
        rw [Function.update_self]
        exact ⟨hi, hzero⟩
  · have hi : i < 64 := List.mem_range.mp (List.mem_of_find?_eq_some hfind)
    have hhas := List.find?_some (p := fun i => (s i).has h) hfind
    refine ⟨some i, pmm, s, rfl, hmem, fun j hj => ?_⟩
    obtain rfl := Option.some_inj.mp hj
    exact ⟨hi, (ReassemblySlot.has_iff.mp hhas).1⟩

/-- **One fragment**: the buffers are those of the slots, and a packet that is completed is new. -/
theorem ipv4ReassemblePacket_memory (hmem : ClientInv base ⟨pmm, bufferAllocs s ++ rest⟩)
    (h0 : pmmTestBlock base 0 = true) (junk : ℕ → UInt8) (junkPacket fragment : NetPacket) :
    ∃ r, ipv4ReassemblePacket pmm s junk junkPacket fragment = r ∧ ClientInv base
      ⟨r.pmm, bufferAllocs r.slots ++ (r.packet.toList.flatMap packetAllocs ++ rest)⟩ := by
  obtain ⟨o, pmm', s', hslot, hmem', ho⟩ :=
    reassemblySlot_memory hmem h0 junk (ipv4Header fragment.bytes)
  refine ⟨_, rfl, ?_⟩
  simp only [ipv4ReassemblePacket, hslot]
  rcases o with _ | i
  · exact hmem'
  obtain ⟨hi, hdata⟩ := ho i rfl
  dsimp only
  generalize hstore : (s' i).store fragment = slot
  have hsame : slot.data = (s' i).data := by
    rw [← hstore]
    rfl
  have hstored : (bufferAllocs (Function.update s' i slot)).Perm (bufferAllocs s') := by
    refine (bufferAllocs_update s' hi slot).trans ?_
    rw [hsame]
    exact (bufferAllocs_perm s' hi).symm
  have hmem'' := hmem'.perm (hstored.symm.append_right rest)
  split_ifs with hscan
  · rcases hmem''.netAlloc h0 junkPacket (20 + slot.totalLength.toNat) with
      ⟨pmm'', hnone, h⟩ | ⟨packet, pmm'', hsome, -, -, -, h⟩
    · rw [hnone]
      exact h
    · -- the packet belongs to the caller, and the buffer is freed
      rw [hsome]
      dsimp only
      rw [Function.update_idem]
      have hperm := bufferAllocs_emptied s' hi (hsame ▸ hdata) (packetAllocs packet) rest
      exact (h.perm hperm).freeBlocks_cons
  · exact hmem''

end

/-! ### Runs -/

/-- The routing table with the allocator, the slots, and the packets that have been completed and
that the rest of the kernel still holds. The base of the routing is what the allocator would be
without all of these. -/
structure Ipv4Memory where
  routing : Routing
  slots : ℕ → ReassemblySlot
  packets : List NetPacket

/-- A fragment, a call for the routing table, or what the rest of the kernel does. -/
inductive Ipv4MemoryOp where
  | receive (op : FragmentOp)
  | route (op : RouteOp)
  | others (base pmm : Pmm)

namespace Ipv4Memory

/-- Nothing has been received since `ipv4_init`, and there is no route. -/
def start (base : Pmm) (route : ℕ → Ipv4Route) : Ipv4Memory :=
  ⟨Routing.start base route, fun _ => emptySlot, []⟩

/-- The allocator. -/
def pmm (m : Ipv4Memory) : Pmm := m.routing.table.pmm

/-- The buffer of a slot. -/
def buffer (m : Ipv4Memory) (i : ℕ) : Allocation := ⟨(m.slots i).data, reassemblyBlocks⟩

/-- The buffers and the completed packets. -/
def held (m : Ipv4Memory) : List Allocation :=
  bufferAllocs m.slots ++ m.packets.flatMap packetAllocs

/-- The frees of `ipv4_cleanup`. -/
def cleanupFrees (m : Ipv4Memory) : List Allocation :=
  m.routing.stored.map StoredRoute.alloc ++ slotAllocs m.slots fun i => cleanupBlocks (m.slots i)

/-- One step; `none` if a call does not return. A packet that is completed is kept until the rest of
the kernel has dealt with it. -/
def step (m : Ipv4Memory) : Ipv4MemoryOp → Option Ipv4Memory
  | .receive op =>
    let r := op.run m.slots
    some ⟨{ m.routing with table := { m.routing.table with pmm := r.pmm } }, r.slots,
      r.packet.toList ++ m.packets⟩
  | .route op => (m.routing.step op).map fun routing => { m with routing }
  | .others base pmm =>
    some ⟨{ m.routing with base, table := { m.routing.table with pmm } }, m.slots, []⟩

/-- A fragment is received with the allocator as it is, and handled within the bounds; the rest of
the kernel leaves alone what the buffers and the routes hold, and block `0`. -/
def Allowed (m : Ipv4Memory) : Ipv4MemoryOp → Prop
  | .receive op => op.received = true ∧ op.pmm = m.pmm ∧ op.Fits m.slots
  | .route op => ∀ base pmm, op ≠ .others base pmm
  | .others base pmm =>
    ClientInv base ⟨pmm, bufferAllocs m.slots ++ m.routing.stored.map StoredRoute.alloc⟩ ∧
      pmmTestBlock base 0 = true

/-- The step relation of a run: a fragment, a call on the routes, or what the rest of the kernel
does in between, if it is allowed and returns. -/
def Step (m : Ipv4Memory) (op : Ipv4MemoryOp) (m' : Ipv4Memory) : Prop :=
  m.Allowed op ∧ m.step op = some m'

end Ipv4Memory

/-- Each slot in use has sixteen blocks of its own, for its buffer of 65536 bytes; and every block
in use has an owner, in the rest of the kernel, a slot, a route or a packet. -/
structure BuffersOwned (m : Ipv4Memory) : Prop where
  used : ∀ i < 64, (m.slots i).data ≠ 0 → (m.buffer i).blocks ⊆ m.pmm.usedSet
  /-- They were not in use before, -/
  fresh : ∀ i < 64, (m.slots i).data ≠ 0 → Disjoint m.routing.base.usedSet (m.buffer i).blocks
  /-- they are not those of another slot, of a route or of a packet, -/
  slots : ∀ i < 64, ∀ j < 64, i ≠ j → (m.slots i).data ≠ 0 → (m.slots j).data ≠ 0 →
    Disjoint (m.buffer i).blocks (m.buffer j).blocks
  routes : ∀ i < 64, (m.slots i).data ≠ 0 → ∀ e ∈ m.routing.stored,
    Disjoint (m.buffer i).blocks e.alloc.blocks
  packets : ∀ i < 64, (m.slots i).data ≠ 0 → ∀ a ∈ m.packets.flatMap packetAllocs,
    Disjoint (m.buffer i).blocks a.blocks
  /-- and there is no block in use besides. -/
  all : ∀ b ∈ m.pmm.usedSet, b ∈ m.routing.base.usedSet ∨
    (∃ i < 64, (m.slots i).data ≠ 0 ∧ b ∈ (m.buffer i).blocks) ∨
    (∃ e ∈ m.routing.stored, b ∈ e.alloc.blocks) ∨
    ∃ a ∈ m.packets.flatMap packetAllocs, b ∈ a.blocks

/-- What `ipv4_cleanup` is to do: give back all that the buffers and the routes have, and nothing
else, each block once. -/
structure CleanupSpec (m : Ipv4Memory) (t : RouteTable) : Prop where
  frees : t.pmm = pmmFreeAll m.pmm m.cleanupFrees
  /-- All blocks of the buffers and of the routes are released, -/
  buffers : ∀ i < 64, (m.slots i).data ≠ 0 → Disjoint t.pmm.usedSet (m.buffer i).blocks
  routes : ∀ e ∈ m.routing.stored, Disjoint t.pmm.usedSet e.alloc.blocks
  /-- and of what is freed nothing is freed twice or was free. -/
  once : m.cleanupFrees.Pairwise fun a a' => Disjoint a.blocks a'.blocks
  used : ∀ a ∈ m.cleanupFrees, a.blocks ⊆ m.pmm.usedSet

/-- `ipv4_cleanup` returns, and has released all. -/
def CleanupRight (m : Ipv4Memory) : Prop :=
  ∃ t, ipv4Cleanup m.routing.table m.slots = some t ∧ CleanupSpec m t

/-! ### The invariant -/

/-- The invariant: the allocator is that of the routes, on top of one that the buffers and the
packets are held of. -/
structure Ipv4MemoryInv (m : Ipv4Memory) : Prop where
  routes : ∃ s, RouteInv { m.routing with base := s } ∧ ClientInv m.routing.base ⟨s, m.held⟩
  reserved : pmmTestBlock m.routing.base 0 = true

/-- A call does not read the base, and leaves it. -/
theorem Routing.step_base {r r' : Routing} {op : RouteOp} (hop : ∀ base pmm, op ≠ .others base pmm)
    (h : r.step op = some r') (s : Pmm) :
    Routing.step { r with base := s } op = some { r' with base := s } ∧ r'.base = r.base := by
  cases op with
  | add network netmask gateway iface metric =>
    simp only [Routing.step, Option.map_eq_some_iff] at h ⊢
    obtain ⟨⟨ok, table⟩, hadd, rfl⟩ := h
    refine ⟨⟨_, hadd, ?_⟩, ?_⟩ <;> cases ok <;> rfl
  | remove network netmask =>
    simp only [Routing.step, Option.map_eq_some_iff] at h ⊢
    obtain ⟨⟨ok, table⟩, hremove, rfl⟩ := h
    refine ⟨⟨_, hremove, ?_⟩, ?_⟩ <;> cases ok <;> rfl
  | flush =>
    simp only [Routing.step, Option.map_eq_some_iff] at h ⊢
    obtain ⟨table, hflush, rfl⟩ := h
    exact ⟨⟨_, hflush, rfl⟩, rfl⟩
  | others base pmm => exact absurd rfl (hop base pmm)

/-- The allocator of the routes is another. -/
theorem RouteInv.others {r : Routing} (h : RouteInv r) {base pmm : Pmm}
    (hclient : ClientInv base ⟨pmm, r.stored.map StoredRoute.alloc⟩)
    (h0 : pmmTestBlock base 0 = true) :
    RouteInv { r with base, table := { r.table with pmm } } :=
  ⟨h.list, h.data, h.order, h.clock, h.ne_zero, hclient, h0⟩

namespace Ipv4MemoryInv

variable {m m' : Ipv4Memory}

theorem start {base : Pmm} (h0 : pmmTestBlock base 0 = true) (route : ℕ → Ipv4Route) :
    Ipv4MemoryInv (Ipv4Memory.start base route) := by
  refine ⟨⟨base, RouteInv.start h0 route, ?_⟩, h0⟩
  have hheld : (Ipv4Memory.start base route).held = [] := by
    show bufferAllocs (fun _ => emptySlot) ++ [] = []
    rw [List.append_nil, bufferAllocs, slotAllocs, List.flatMap_eq_nil_iff]
    exact fun _ _ => rfl
  rw [hheld]
  exact ClientInv.start base

theorem client (h : Ipv4MemoryInv m) : ClientInv m.routing.base
    ⟨m.pmm, m.held ++ m.routing.stored.map StoredRoute.alloc⟩ := by
  obtain ⟨s, hroutes, hheld⟩ := h.routes
  exact hheld.join hroutes.client

/-- The buffers and the packets, and with them the allocator, are others. -/
theorem of_client (h : Ipv4MemoryInv m) {base pmm : Pmm} {slots : ℕ → ReassemblySlot}
    {packets : List NetPacket}
    (hclient : ClientInv base ⟨pmm, bufferAllocs slots ++ packets.flatMap packetAllocs ++
      m.routing.stored.map StoredRoute.alloc⟩) (h0 : pmmTestBlock base 0 = true) :
    Ipv4MemoryInv ⟨{ m.routing with base, table := { m.routing.table with pmm } }, slots,
      packets⟩ := by
  obtain ⟨s, hroutes, -⟩ := h.routes
  obtain ⟨s', hheld, hstored, h0'⟩ := hclient.split h0
  exact ⟨⟨s', hroutes.others hstored h0', hheld⟩, h0⟩

theorem route (h : Ipv4MemoryInv m) {op : RouteOp} (hop : ∀ base pmm, op ≠ .others base pmm)
    (hstep : m.step (.route op) = some m') : Ipv4MemoryInv m' := by
  obtain ⟨s, hroutes, hheld⟩ := h.routes
  rw [Ipv4Memory.step, Option.map_eq_some_iff] at hstep
  obtain ⟨r, hr, rfl⟩ := hstep
  obtain ⟨hr', hsame⟩ := Routing.step_base hop hr s
  have hallowed : Routing.Allowed { m.routing with base := s } op := by
    cases op with
    | add | remove | flush => trivial
    | others base pmm => exact absurd rfl (hop base pmm)
  obtain ⟨r'', hr'', hinv⟩ := hroutes.step hallowed
  obtain rfl := Option.some_inj.mp (hr'.symm.trans hr'')
  exact ⟨⟨s, hinv, hsame ▸ hheld⟩, hsame ▸ h.reserved⟩

/-- **One step keeps the invariant.** -/
theorem step (h : Ipv4MemoryInv m) {op : Ipv4MemoryOp} (hstep : m.Step op m') :
    Ipv4MemoryInv m' := by
  obtain ⟨hop, hstep⟩ := hstep
  cases op with
  | receive op =>
    obtain ⟨-, hpmm, -⟩ := hop
    have hclient := h.client
    rw [Ipv4Memory.held, List.append_assoc, ← hpmm] at hclient
    obtain ⟨r, hr, hmem⟩ :=
      ipv4ReassemblePacket_memory hclient h.reserved op.junk op.junkPacket op.fragment
    have hrun : op.run m.slots = r := hr
    rw [Ipv4Memory.step, hrun] at hstep
    obtain rfl := Option.some_inj.mp hstep
    refine h.of_client ?_ h.reserved
    rwa [List.flatMap_append, List.append_assoc, List.append_assoc]
  | route op => exact h.route hop hstep
  | others base pmm =>
    obtain rfl := Option.some_inj.mp hstep
    refine h.of_client ?_ hop.2
    rw [List.flatMap_nil, List.append_nil]
    exact hop.1

variable {i : ℕ}

theorem mem_held (hi : i < 64) (hdata : (m.slots i).data ≠ 0) : m.buffer i ∈ m.held :=
  List.mem_append_left _ (mem_slotAllocs.mpr ⟨i, hi, hdata, rfl⟩)

theorem owned (h : Ipv4MemoryInv m) : BuffersOwned m := by
  have hclient := h.client
  obtain ⟨hheld, -, hroutes⟩ := List.pairwise_append.mp hclient.disjoint
  obtain ⟨hbuffers, -, hpackets⟩ := List.pairwise_append.mp hheld
  have hmem : ∀ i < 64, (m.slots i).data ≠ 0 → m.buffer i ∈ bufferAllocs m.slots :=
    fun i hi hdata => mem_slotAllocs.mpr ⟨i, hi, hdata, rfl⟩
  refine ⟨fun i hi hdata => ?_, fun i hi hdata => ?_, fun i hi j hj hij hdata hdata' => ?_,
    fun i hi hdata e he => ?_, fun i hi hdata a ha => ?_, fun b hb => ?_⟩
  · exact hclient.blocks_subset (List.mem_append_left _ (mem_held hi hdata))
  · exact hclient.fresh _ (List.mem_append_left _ (mem_held hi hdata))
  · exact pairwise_slotAllocs.mp hbuffers i hi j hj hij hdata hdata'
  · exact hroutes _ (mem_held hi hdata) _ (List.mem_map_of_mem he)
  · exact hpackets _ (hmem i hi hdata) a ha
  · rcases (hclient.mem_usedSet b).mp hb with hb | ⟨a, ha, hb⟩
    · exact Or.inl hb
    refine Or.inr ?_
    rcases List.mem_append.mp ha with ha | ha
    · rcases List.mem_append.mp ha with ha | ha
      · obtain ⟨i, hi, hdata, rfl⟩ := mem_slotAllocs.mp ha
        exact Or.inl ⟨i, hi, hdata, hb⟩
      · exact Or.inr (Or.inr ⟨a, ha, hb⟩)
    · obtain ⟨e, he, rfl⟩ := List.mem_map.mp ha
      exact Or.inr (Or.inl ⟨e, he, hb⟩)

/-- What is freed: a route, or the first blocks of a buffer. -/
theorem mem_cleanupFrees {a : Allocation} (ha : a ∈ m.cleanupFrees) :
    (∃ e ∈ m.routing.stored, a = e.alloc) ∨
      ∃ i < 64, (m.slots i).data ≠ 0 ∧ a = ⟨(m.slots i).data, cleanupBlocks (m.slots i)⟩ := by
  rcases List.mem_append.mp ha with ha | ha
  · obtain ⟨e, he, rfl⟩ := List.mem_map.mp ha
    exact Or.inl ⟨e, he, rfl⟩
  · exact Or.inr (mem_slotAllocs.mp ha)

theorem cleanup_subset (m : Ipv4Memory) (i : ℕ) :
    Allocation.blocks ⟨(m.slots i).data, cleanupBlocks (m.slots i)⟩ ⊆ (m.buffer i).blocks :=
  Finset.Ico_subset_Ico_right (Nat.add_le_add_left (cleanupBlocks_le _) _)

/-- Nothing is freed twice, and nothing that was free, whatever has been received. -/
theorem cleanupFrees_once (h : Ipv4MemoryInv m) :
    (m.cleanupFrees.Pairwise fun a a' => Disjoint a.blocks a'.blocks) ∧
      ∀ a ∈ m.cleanupFrees, a.blocks ⊆ m.pmm.usedSet := by
  have howned := h.owned
  have hclient := h.client
  refine ⟨List.pairwise_append.mpr ⟨?_, pairwise_slotAllocs.mpr ?_, ?_⟩, fun a ha => ?_⟩
  · exact (List.pairwise_append.mp hclient.disjoint).2.1
  · intro i hi j hj hij hdata hdata'
    exact (howned.slots i hi j hj hij hdata hdata').mono (cleanup_subset m i) (cleanup_subset m j)
  · intro a ha a' ha'
    obtain ⟨e, he, rfl⟩ := List.mem_map.mp ha
    obtain ⟨i, hi, hdata, rfl⟩ := mem_slotAllocs.mp ha'
    exact ((howned.routes i hi hdata e he).mono_left (cleanup_subset m i)).symm
  · rcases mem_cleanupFrees ha with ⟨e, he, rfl⟩ | ⟨i, hi, hdata, rfl⟩
    · exact hclient.blocks_subset (List.mem_append_right _ (List.mem_map_of_mem he))
    · exact (cleanup_subset m i).trans (howned.used i hi hdata)

/-- What `ipv4_cleanup` leaves in use. -/
theorem cleanup (h : Ipv4MemoryInv m) : ∃ t, ipv4Cleanup m.routing.table m.slots = some t ∧
    t.pmm = pmmFreeAll m.pmm m.cleanupFrees := by
  obtain ⟨s, hroutes, -⟩ := h.routes
  exact ⟨_, ipv4Cleanup_eq hroutes m.slots, rfl⟩

/-- **All is released** exactly if each buffer that is held is needed up to its last block. -/
theorem cleanupRight_iff (h : Ipv4MemoryInv m) : CleanupRight m ↔
    ∀ i < 64, (m.slots i).data ≠ 0 → 61440 < (m.slots i).totalLength.toNat := by
  have howned := h.owned
  constructor
  · rintro ⟨t, -, hspec⟩ i hi hdata
    rw [← cleanupBlocks_eq_iff]
    by_contra hne
    -- the last block of the buffer is not freed
    have hlt := Nat.lt_of_le_of_ne (cleanupBlocks_le (m.slots i)) hne
    have hlast : (m.slots i).data / 4096 + 15 ∈ (m.buffer i).blocks :=
      Finset.mem_Ico.mpr ⟨Nat.le_add_right _ _,
        Nat.add_lt_add_left (by decide : 15 < reassemblyBlocks) _⟩
    refine Finset.disjoint_left.mp (hspec.buffers i hi hdata) ?_ hlast
    rw [hspec.frees, mem_usedSet_pmmFreeAll]
    refine ⟨howned.used i hi hdata hlast, fun a ha hmem => ?_⟩
    rcases mem_cleanupFrees ha with ⟨e, he, rfl⟩ | ⟨j, hj, hdata', rfl⟩
    · exact Finset.disjoint_left.mp (howned.routes i hi hdata e he) hlast hmem
    · rcases eq_or_ne i j with rfl | hij
      · have hend : (m.slots i).data / 4096 + 15 <
            (m.slots i).data / 4096 + cleanupBlocks (m.slots i) := (Finset.mem_Ico.mp hmem).2
        rw [reassemblyBlocks] at hlt
        omega
      · exact Finset.disjoint_left.mp (howned.slots i hi j hj hij hdata hdata') hlast
          (cleanup_subset m j hmem)
  · intro hall
    obtain ⟨t, ht, hfrees⟩ := h.cleanup
    obtain ⟨honce, hused⟩ := h.cleanupFrees_once
    have hfreed : ∀ a ∈ m.cleanupFrees, Disjoint t.pmm.usedSet a.blocks := fun a ha => by
      rw [hfrees]
      exact Finset.disjoint_left.mpr fun b hb => (mem_usedSet_pmmFreeAll.mp hb).2 a ha
    refine ⟨t, ht, hfrees, fun i hi hdata => hfreed _ ?_, fun e he => hfreed _ ?_, honce, hused⟩
    · have hblocks := (cleanupBlocks_eq_iff _).mpr (hall i hi hdata)
      exact List.mem_append_right _ (mem_slotAllocs.mpr ⟨i, hi, hdata, by
        rw [Ipv4Memory.buffer, hblocks]⟩)
    · exact List.mem_append_left _ (List.mem_map_of_mem he)

end Ipv4MemoryInv

/-- **Every run** of fragments that are handled within the bounds: each slot in use has sixteen
blocks of its own, and `ipv4_cleanup` releases all exactly if no slot is in use or each is of a
datagram that ends behind byte `61440`. -/
theorem reassembly_memory_run {base : Pmm} (h0 : pmmTestBlock base 0 = true)
    {route : ℕ → Ipv4Route} {m : Ipv4Memory}
    (hrun : Reaches Ipv4Memory.Step (Ipv4Memory.start base route) m) :
    BuffersOwned m ∧ (CleanupRight m ↔
      ∀ i < 64, (m.slots i).data ≠ 0 → 61440 < (m.slots i).totalLength.toNat) := by
  have h : Ipv4MemoryInv m := hrun.invariant (Ipv4MemoryInv.start h0 route)
    fun _ _ _ ha hstep => ha.step hstep
  exact ⟨h.owned, h.cleanupRight_iff⟩

/-! ### A first fragment -/

/-- Thirty-two blocks, and nothing received. -/
def noFragment : Ipv4Memory := .start pmmThirtyTwo fun _ => ⟨defaultRoute 0, 0⟩

/-- Eight bytes from the start of a datagram are received. -/
def firstFragment : Ipv4Memory where
  routing := { noFragment.routing with table := { noFragment.routing.table with
    pmm := ((receiveOp 28 0x2000).run fun _ => emptySlot).pmm } }
  slots := ((receiveOp 28 0x2000).run fun _ => emptySlot).slots
  packets := ((receiveOp 28 0x2000).run fun _ => emptySlot).packet.toList

theorem step_firstFragment : noFragment.Step (.receive (receiveOp 28 0x2000)) firstFragment := by
  refine ⟨⟨received_receiveOp (by decide) (by decide), rfl, fits_receiveOp_first⟩, ?_⟩
  rw [Ipv4Memory.step, firstFragment, ← List.append_nil (Option.toList _)]
  rfl

theorem reassembly_memory_run_first : BuffersOwned firstFragment ∧ (CleanupRight firstFragment ↔
    ∀ i < 64, (firstFragment.slots i).data ≠ 0 →
      61440 < (firstFragment.slots i).totalLength.toNat) :=
  reassembly_memory_run (by decide) ((Reaches.refl _).tail step_firstFragment)

/-- None of the sixteen blocks of its buffer is released. -/
theorem not_cleanupRight_first :
    Reaches Ipv4Memory.Step noFragment firstFragment ∧ ¬ CleanupRight firstFragment := by
  have hinv : Ipv4MemoryInv firstFragment :=
    (Ipv4MemoryInv.start (by decide) _).step step_firstFragment
  refine ⟨(Reaches.refl _).tail step_firstFragment, fun hright => ?_⟩
  have hslots : firstFragment.slots = Function.update (fun _ => emptySlot) 0 (firstSlot 28) :=
    slots_firstSlot 28
  have hend := hinv.cleanupRight_iff.mp hright 0 (by decide)
  rw [hslots, Function.update_self, totalLength_firstSlot] at hend
  exact absurd (hend (Nat.succ_ne_zero 4095)) (by decide)

end Rexus
