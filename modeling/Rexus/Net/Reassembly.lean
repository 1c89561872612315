import Rexus.Net.Ipv4Header

/-!
# Reassembly

`ipv4_reassemble_packet` of `net/ipv4.c`. A slot collects the fragments of one datagram in a buffer
of its own. Where a fragment begins is marked, in units of eight bytes, and the datagram is taken to
be complete when the end is known and all units before it are marked.

The function is given what the memory it allocates holds, and besides its result gives the places
of the arrays it accesses. What a mark outside the array would overwrite is not modelled.

## Main results

* `ipv4ReassemblePacket_cases` — everything a call can do
* `inBounds_iff` — which fragments are handled within the bounds
* `reassembly_bounds_run` — the accesses of every run

## Conventions

There are `64` slots, and the table is given as a map from their numbers; each has `64` marks. A
slot is in use while it has a buffer. One that is taken is filled in first, with the identification
and the two addresses by which its fragments are found, and with the protocol, which nobody
compares; if its buffer is refused it is filled in and not in use. No slot is ever given up because
it is old.

The accesses are given beside the result so that their bounds can be spoken of: `reassemblyAccess`
is the list of what is read and written for one fragment, and `FragmentFits` the condition on the
fragment alone under which it is within the arrays. The lengths of a fragment are those of its
packet, as `ipv4_receive_packet` has checked them.
-/

namespace Rexus

open Bytes Run

/-! ### The functions -/

/-- A slot of `reassembly_buffers`, with the contents of its buffer. A slot is in use if its data
pointer is not null; what the other members say of one that is not in use is left from before. -/
structure ReassemblySlot where
  id : UInt16
  src : Ipv4Addr
  dest : Ipv4Addr
  protocol : UInt8
  totalLength : UInt16
  data : ℕ
  fragments : ℕ → Bool
  fragmentCount : UInt8
  bytes : ℕ → UInt8

/-- A slot that is cleared. -/
def emptySlot : ReassemblySlot :=
  ⟨0, ⟨fun _ => 0⟩, ⟨fun _ => 0⟩, 0, 0, 0, fun _ => false, 0, fun _ => 0⟩

/-- The blocks of a buffer, of `IPV4_MAX_PACKET_SIZE` bytes. -/
def reassemblyBlocks : ℕ := (65535 + 4095) / 4096

/-- Does the slot collect the datagram of this header? -/
def ReassemblySlot.has (slot : ReassemblySlot) (h : Ipv4Header) : Bool :=
  slot.data != 0 && slot.id == h.id && ipv4AddrEquals slot.src h.srcAddr &&
    ipv4AddrEquals slot.dest h.destAddr

/-- A slot for the datagram of this header. -/
def newSlot (h : Ipv4Header) (data : ℕ) (junk : ℕ → UInt8) : ReassemblySlot where
  id := h.id
  src := h.srcAddr
  dest := h.destAddr
  protocol := h.protocol
  totalLength := 0
  data := data
  fragments := fun _ => false
  fragmentCount := 0
  bytes := junk

/-- The slot of a datagram, or a new one. The first of the slots that are not in use is taken, and
it is filled in even if there is no memory for its buffer. -/
def reassemblySlot (pmm : Pmm) (s : ℕ → ReassemblySlot) (junk : ℕ → UInt8) (h : Ipv4Header) :
    Option ℕ × Pmm × (ℕ → ReassemblySlot) :=
  match (List.range 64).find? fun i => (s i).has h with
  | some i => (some i, pmm, s)
  | none =>
    match (List.range 64).find? fun i => (s i).data == 0 with
    | none => (none, pmm, s)
    | some i =>
      match pmmAllocBlocks pmm reassemblyBlocks with
      | (data, pmm) =>
        (if data = 0 then none else some i, pmm, Function.update s i (newSlot h data junk))

/-- `offset`, in bytes. -/
def fragOffset (fragment : NetPacket) : UInt16 := (ipv4Header fragment.bytes).fragmentOffset * 8

/-- `data_len`, a number of sixteen bits. -/
def fragDataLen (fragment : NetPacket) : UInt16 := (ipv4Header fragment.bytes).totalLength - 20

/-- The data of a fragment is copied into the buffer, and its first unit is marked. -/
def ReassemblySlot.store (slot : ReassemblySlot) (fragment : NetPacket) : ReassemblySlot :=
  let offset := fragOffset fragment
  let dataLen := fragDataLen fragment
  { slot with
    bytes := blit slot.bytes offset.toNat fragment.bytes 20 dataLen.toNat
    fragments := Function.update slot.fragments (offset.toNat / 8) true
    fragmentCount := slot.fragmentCount + 1
    totalLength := if (ipv4Header fragment.bytes).moreFragments then slot.totalLength
      else offset + dataLen }

/-- The completion scan, from unit `i` on: the units it reads, and whether all are marked. -/
def completionScan (fragments : ℕ → Bool) : (n i : ℕ) → List ℕ × Bool
  | 0, _ => ([], true)
  | n + 1, i =>
    if fragments i then
      (i :: (completionScan fragments n (i + 1)).1, (completionScan fragments n (i + 1)).2)
    else ([i], false)

/-- The scan of a slot, once the end is known. -/
def ReassemblySlot.scan (slot : ReassemblySlot) : List ℕ × Bool :=
  if slot.totalLength = 0 then ([], false)
  else completionScan slot.fragments ((slot.totalLength.toNat + 7) / 8) 0

/-- What a complete slot makes of a new packet: the header is that of the last fragment received. -/
def ReassemblySlot.complete (slot : ReassemblySlot) (fragment packet : NetPacket) : NetPacket :=
  { packet with
    bytes := ipv4Seal (putLe16 (putLe16 (blit (blit packet.bytes 0 fragment.bytes 0 20)
      20 slot.bytes 0 slot.totalLength.toNat) 6 0) 2 (20 + slot.totalLength)) }

/-- The accesses of a call: the unit that is marked, the arguments of the `memcpy` of the data, the
total length if one is stored, before it is, and the units that the scan reads. -/
structure ReassemblyAccess where
  piece : ℕ
  dest : ℕ
  src : ℕ
  length : ℕ
  total : Option ℕ
  reads : List ℕ

/-- The accesses of a call that has a slot. -/
def reassemblyAccess (fragment : NetPacket) (reads : List ℕ) : ReassemblyAccess where
  piece := (fragOffset fragment).toNat / 8
  dest := (fragOffset fragment).toNat
  src := 20
  length := (fragDataLen fragment).toNat
  total := if (ipv4Header fragment.bytes).moreFragments then none
    else some ((fragOffset fragment).toNat + (fragDataLen fragment).toNat)
  reads := reads

/-- What `ipv4_reassemble_packet` does: the packet it returns, if the datagram is complete, the
state it leaves, and the accesses it has made, if the fragment got a slot. -/
structure Reassembled where
  packet : Option NetPacket
  pmm : Pmm
  slots : ℕ → ReassemblySlot
  access : Option ReassemblyAccess

/-- `ipv4_reassemble_packet`. Each access goes where the source has it go, inside or not; `junk` is
what a new buffer, and `junkPacket` what a new packet contains at first. -/
def ipv4ReassemblePacket (pmm : Pmm) (s : ℕ → ReassemblySlot) (junk : ℕ → UInt8)
    (junkPacket fragment : NetPacket) : Reassembled :=
  match reassemblySlot pmm s junk (ipv4Header fragment.bytes) with
  | (none, pmm, s) => ⟨none, pmm, s, none⟩
  | (some i, pmm, s) =>
    let slot := (s i).store fragment
    let access := some (reassemblyAccess fragment slot.scan.1)
    let s := Function.update s i slot
    if slot.scan.2 then
      match netAllocPacket pmm junkPacket (20 + slot.totalLength.toNat) with
      | (none, pmm) => ⟨none, pmm, s, access⟩
      | (some packet, pmm) =>
        ⟨some (slot.complete fragment packet), pmmFreeBlocks pmm slot.data reassemblyBlocks,
          Function.update s i emptySlot, access⟩
    else ⟨none, pmm, s, access⟩

/-! ### What they do -/

section

variable {fragments : ℕ → Bool} {n i k : ℕ}

theorem completionScan_complete : (completionScan fragments n i).2 = true ↔
    ∀ k, i ≤ k → k < i + n → fragments k = true := by
  induction n generalizing i with
  | zero =>
    simp only [completionScan, true_iff]
    intro k hk hki
    omega
  | succ n ih =>
    rw [completionScan]
    split_ifs with hi
    · rw [ih]
      constructor
      · intro h k hk hkn
        rcases Nat.eq_or_lt_of_le hk with rfl | hlt
        · exact hi
        · exact h k hlt (by omega)
      · intro h k hk hkn
        exact h k (by omega) (by omega)
    · simp only [false_iff]
      intro h
      exact hi (h i (Nat.le_refl i) (by omega))

theorem mem_completionScan : k ∈ (completionScan fragments n i).1 ↔
    i ≤ k ∧ k < i + n ∧ ∀ j, i ≤ j → j < k → fragments j = true := by
  induction n generalizing i with
  | zero =>
    simp only [completionScan, List.not_mem_nil, false_iff]
    omega
  | succ n ih =>
    rw [completionScan]
    split_ifs with hi
    · rw [List.mem_cons, ih]
      constructor
      · rintro (rfl | ⟨hk, hkn, h⟩)
        · exact ⟨Nat.le_refl k, by omega, fun j hj hjk => absurd hjk (by omega)⟩
        · refine ⟨by omega, by omega, fun j hj hjk => ?_⟩
          rcases Nat.eq_or_lt_of_le hj with rfl | hlt
          · exact hi
          · exact h j hlt hjk
      · rintro ⟨hk, hkn, h⟩
        rcases Nat.eq_or_lt_of_le hk with rfl | hlt
        · exact Or.inl rfl
        · exact Or.inr ⟨hlt, by omega, fun j hj hjk => h j (by omega) hjk⟩
    · rw [List.mem_singleton]
      constructor
      · rintro rfl
        exact ⟨Nat.le_refl k, by omega, fun j hj hjk => absurd hjk (by omega)⟩
      · rintro ⟨hk, hkn, h⟩
        by_contra hne
        exact hi (h i (Nat.le_refl i) (by omega))

end

variable {pmm : Pmm} {s : ℕ → ReassemblySlot} {junk : ℕ → UInt8} {h : Ipv4Header}
  {fragment : NetPacket}

theorem ReassemblySlot.has_iff {slot : ReassemblySlot} : slot.has h = true ↔
    slot.data ≠ 0 ∧ slot.id = h.id ∧ slot.src = h.srcAddr ∧ slot.dest = h.destAddr := by
  simp [ReassemblySlot.has, ipv4AddrEquals, and_assoc]

/-- The slot of a datagram: there is none, or one is in use, or one is taken into use. -/
theorem reassemblySlot_cases (pmm : Pmm) (s : ℕ → ReassemblySlot) (junk : ℕ → UInt8)
    (h : Ipv4Header) :
    (∃ pmm' s', reassemblySlot pmm s junk h = (none, pmm', s') ∧
        ∀ j, s' j = s j ∨ (s' j).data = 0) ∨
      (∃ i < 64, (s i).has h = true ∧ reassemblySlot pmm s junk h = (some i, pmm, s)) ∨
      ∃ i < 64, (s i).data = 0 ∧ (∀ j < 64, (s j).has h = false) ∧ ∃ pmm' data, data ≠ 0 ∧
        reassemblySlot pmm s junk h =
          (some i, pmm', Function.update s i (newSlot h data junk)) := by
  rw [reassemblySlot]
  cases hfind : (List.range 64).find? fun i => (s i).has h with
  | some i =>
    refine Or.inr (Or.inl ⟨i, ?_, ?_, rfl⟩)
    · exact List.mem_range.mp (List.mem_of_find?_eq_some hfind)
    · exact List.find?_some (p := fun i => (s i).has h) hfind
  | none =>
    have hnone : ∀ j < 64, (s j).has h = false := fun j hj => by
      simpa using List.find?_eq_none.mp hfind j (List.mem_range.mpr hj)
    cases hfree : (List.range 64).find? fun i => (s i).data == 0 with
    | none => exact Or.inl ⟨pmm, s, rfl, fun j => Or.inl rfl⟩
    | some i =>
      have hi : i < 64 := List.mem_range.mp (List.mem_of_find?_eq_some hfree)
      have hdata : (s i).data = 0 := by
        simpa using List.find?_some (p := fun i => (s i).data == 0) hfree
      dsimp only
      split_ifs with h0
      · refine Or.inl ⟨_, _, rfl, fun j => ?_⟩
        rcases eq_or_ne j i with rfl | hj
        · exact Or.inr (by rw [Function.update_self, newSlot, h0])
        · exact Or.inl (Function.update_of_ne hj ..)
      · exact Or.inr (Or.inr ⟨i, hi, hdata, hnone, _, _, h0, rfl⟩)

/-- The slot of a datagram that has one. -/
theorem reassemblySlot_found {i : ℕ} (hi : i < 64) (hhas : (s i).has h = true)
    (hother : ∀ j < 64, j ≠ i → (s j).has h = false) :
    reassemblySlot pmm s junk h = (some i, pmm, s) := by
  rcases hfind : (List.range 64).find? fun j => (s j).has h with _ | j
  · have hnone := List.find?_eq_none.mp hfind i (List.mem_range.mpr hi)
    exact absurd hhas hnone
  · have hj : j < 64 := List.mem_range.mp (List.mem_of_find?_eq_some hfind)
    have hhas' := List.find?_some (p := fun j => (s j).has h) hfind
    obtain rfl : j = i := by
      by_contra hji
      exact absurd (hhas'.symm.trans (hother j hj hji)) (by decide)
    rw [reassemblySlot, hfind]

/-- The slot of a datagram that has none, if one is free and there is memory for its buffer. -/
theorem reassemblySlot_new (junk : ℕ → UInt8) (hnone : ∀ j < 64, (s j).has h = false)
    (hfree : ∃ j < 64, (s j).data = 0) (halloc : (pmmAllocBlocks pmm reassemblyBlocks).1 ≠ 0) :
    ∃ i < 64, reassemblySlot pmm s junk h = (some i, (pmmAllocBlocks pmm reassemblyBlocks).2,
      Function.update s i (newSlot h (pmmAllocBlocks pmm reassemblyBlocks).1 junk)) := by
  have hfind : ((List.range 64).find? fun j => (s j).has h) = none := by
    rw [List.find?_eq_none]
    intro j hj
    rw [hnone j (List.mem_range.mp hj)]
    exact Bool.false_ne_true
  rcases hfind' : (List.range 64).find? fun j => (s j).data == 0 with _ | i
  · obtain ⟨j, hj, hdata⟩ := hfree
    have hused := List.find?_eq_none.mp hfind' j (List.mem_range.mpr hj)
    simp [hdata] at hused
  · refine ⟨i, List.mem_range.mp (List.mem_of_find?_eq_some hfind'), ?_⟩
    rw [reassemblySlot, hfind, hfind']
    simp [halloc]

/-- **Everything a call can do**, once it has a slot. -/
theorem ipv4ReassemblePacket_cases (junkPacket : NetPacket) {i : ℕ} {pmm' : Pmm}
    {s' : ℕ → ReassemblySlot}
    (hslot : reassemblySlot pmm s junk (ipv4Header fragment.bytes) = (some i, pmm', s')) :
    ∃ r, ipv4ReassemblePacket pmm s junk junkPacket fragment = r ∧
      r.access = some (reassemblyAccess fragment ((s' i).store fragment).scan.1) ∧
      (r.packet = none ∧ r.slots = Function.update s' i ((s' i).store fragment) ∨
        ((s' i).store fragment).scan.2 = true ∧ (∃ addr data,
            20 + ((s' i).store fragment).totalLength.toNat ≤ 1518 ∧
            r.packet = some (((s' i).store fragment).complete fragment { junkPacket with
              addr, data, length := 20 + ((s' i).store fragment).totalLength.toNat
              protocol := .none, priority := 0 })) ∧
          r.slots = Function.update s' i emptySlot) := by
  refine ⟨_, rfl, ?_⟩
  simp only [ipv4ReassemblePacket, hslot]
  split_ifs with hscan
  · rcases netAllocPacket_cases pmm' junkPacket (20 + ((s' i).store fragment).totalLength.toNat)
      with ⟨t, halloc⟩ | ⟨addr, data, t, hsize, halloc⟩
    · rw [halloc]
      exact ⟨rfl, Or.inl ⟨rfl, rfl⟩⟩
    · rw [halloc]
      exact ⟨rfl, Or.inr ⟨hscan, ⟨addr, data, hsize, rfl⟩, Function.update_idem ..⟩⟩
  · exact ⟨rfl, Or.inl ⟨rfl, rfl⟩⟩

/-- A call that completes a datagram, when there is memory for the packet. -/
theorem ipv4ReassemblePacket_returns {junkPacket : NetPacket} {i : ℕ} {pmm' pmm'' : Pmm}
    {s' : ℕ → ReassemblySlot} {packet : NetPacket}
    (hslot : reassemblySlot pmm s junk (ipv4Header fragment.bytes) = (some i, pmm', s'))
    (hscan : ((s' i).store fragment).scan.2 = true)
    (halloc : netAllocPacket pmm' junkPacket (20 + ((s' i).store fragment).totalLength.toNat) =
      (some packet, pmm'')) :
    (ipv4ReassemblePacket pmm s junk junkPacket fragment).packet =
      some (((s' i).store fragment).complete fragment packet) := by
  simp only [ipv4ReassemblePacket, hslot, hscan, if_true, halloc]

/-- The header of a completed packet. -/
theorem ReassemblySlot.complete_header (slot : ReassemblySlot) (fragment packet : NetPacket) :
    ∃ checksum, ipv4Header (slot.complete fragment packet).bytes =
      { ipv4Header fragment.bytes with
        flagsOffset := 0
        totalLength := 20 + slot.totalLength
        checksum } := by
  obtain ⟨checksum, hheader⟩ := ipv4Header_ipv4Seal (putLe16 (putLe16 (blit
    (blit packet.bytes 0 fragment.bytes 0 20) 20 slot.bytes 0 slot.totalLength.toNat) 6 0) 2
    (20 + slot.totalLength))
  refine ⟨checksum, ?_⟩
  rw [ReassemblySlot.complete, hheader]
  simp

/-- Its payload is what is in the buffer. -/
theorem ReassemblySlot.complete_bytes {slot : ReassemblySlot} {p : ℕ}
    (hp : p < slot.totalLength.toNat) (fragment packet : NetPacket) :
    (slot.complete fragment packet).bytes (20 + p) = slot.bytes p := by
  show ipv4Seal _ (20 + p) = _
  rw [ipv4Seal_of_le _ (by omega), putLe16_of_ne _ (by omega) (by omega),
    putLe16_of_ne _ (by omega) (by omega), blit_of_mem (by omega) (by omega)]
  congr 1
  omega

/-! ### Within the bounds -/

/-- What the accesses of a call are to be. The function makes them whatever the bounds are, and the
model says of each only where it goes. -/
structure ReassemblyInBounds (fragment : NetPacket) (a : ReassemblyAccess) : Prop where
  /-- The marks that are written and read are in `fragments[]`, -/
  piece : a.piece < 64
  reads : ∀ k ∈ a.reads, k < 64
  /-- the data is copied into the buffer, and from inside the packet, -/
  dest : a.dest + a.length ≤ 65536
  src : a.src + a.length ≤ fragment.length
  /-- and the total length has sixteen bits. -/
  total : ∀ t, a.total = some t → t < 2 ^ 16

/-- The end that is known after a fragment. -/
def knownEnd (slot : ReassemblySlot) (h : Ipv4Header) : ℕ :=
  if h.moreFragments then slot.totalLength.toNat
  else (8 * h.fragmentOffset.toNat + h.totalLength.toNat + 65516) % 65536

/-- A fragment that is handled within the bounds. -/
structure FragmentFits (slot : ReassemblySlot) (h : Ipv4Header) (length : ℕ) : Prop where
  /-- It begins in the first 512 bytes. -/
  offset : h.fragmentOffset.toNat < 64
  /-- Its total length counts the header, is no more than the packet, and ends in the first 65536
  bytes, if it is the last in the first 65535; or it is less than a header, the packet is longer
  than any header can say, and the difference of sixteen bits happens to fit. -/
  totalLength : 20 ≤ h.totalLength.toNat ∧ h.totalLength.toNat ≤ length ∧
      8 * h.fragmentOffset.toNat + h.totalLength.toNat < 65556 + h.moreFragments.toNat ∨
    h.totalLength.toNat < 20 ∧ 65536 + h.totalLength.toNat ≤ length ∧
      8 * h.fragmentOffset.toNat + h.totalLength.toNat < 20 + h.moreFragments.toNat
  /-- If the end is known and lies behind the marks, a mark is still missing. -/
  missing : 512 < knownEnd slot h →
    ∃ k < 64, k ≠ h.fragmentOffset.toNat ∧ slot.fragments k = false

theorem fragOffset_toNat (fragment : NetPacket) :
    (fragOffset fragment).toNat = 8 * (ipv4Header fragment.bytes).fragmentOffset.toNat := by
  have hlt := (ipv4Header fragment.bytes).fragmentOffset_lt
  rw [fragOffset, UInt16.toNat_mul]
  simp only [UInt16.reduceToNat]
  omega

theorem fragDataLen_toNat (fragment : NetPacket) : (fragDataLen fragment).toNat =
    ((ipv4Header fragment.bytes).totalLength.toNat + 65516) % 65536 := by
  rw [fragDataLen, UInt16.toNat_sub]
  simp only [UInt16.reduceToNat]
  omega

theorem store_totalLength_toNat (slot : ReassemblySlot) (fragment : NetPacket) :
    (slot.store fragment).totalLength.toNat = knownEnd slot (ipv4Header fragment.bytes) := by
  rw [knownEnd, ReassemblySlot.store]
  dsimp only
  split_ifs
  · rfl
  · rw [UInt16.toNat_add, fragOffset_toNat, fragDataLen_toNat]
    omega

/-- The scan stays among the marks if one of them is missing, or the end lies before theirs. -/
theorem scan_reads_iff {slot : ReassemblySlot} :
    (∀ k ∈ slot.scan.1, k < 64) ↔
      (512 < slot.totalLength.toNat → ∃ k < 64, slot.fragments k = false) := by
  rw [ReassemblySlot.scan]
  split_ifs with h0
  · refine iff_of_true (fun k hk => nomatch hk) fun h => ?_
    rw [h0] at h
    exact absurd h (by decide)
  · simp only [mem_completionScan, Nat.zero_le, true_and, Nat.zero_add, forall_const]
    constructor
    · intro h hlen
      by_contra hnone
      push Not at hnone
      refine absurd (h 64 ⟨by omega, fun j hj => ?_⟩) (Nat.lt_irrefl 64)
      simpa using hnone j hj
    · rintro h k ⟨hk, hmarked⟩
      by_contra hlt
      obtain ⟨j, hj, hfalse⟩ := h (by omega)
      rw [hmarked j (by omega)] at hfalse
      exact Bool.noConfusion hfalse

/-- **Which fragments are handled within the bounds.** -/
theorem inBounds_iff (slot : ReassemblySlot) (fragment : NetPacket) :
    ReassemblyInBounds fragment (reassemblyAccess fragment (slot.store fragment).scan.1) ↔
      FragmentFits slot (ipv4Header fragment.bytes) fragment.length := by
  have hTL := (ipv4Header fragment.bytes).totalLength.toNat_lt
  have hpiece : (fragOffset fragment).toNat / 8 =
      (ipv4Header fragment.bytes).fragmentOffset.toNat := by
    rw [fragOffset_toNat]
    omega
  have hmarks : (512 < knownEnd slot (ipv4Header fragment.bytes) →
      ∃ k < 64, (slot.store fragment).fragments k = false) ↔
      (512 < knownEnd slot (ipv4Header fragment.bytes) → ∃ k < 64,
        k ≠ (ipv4Header fragment.bytes).fragmentOffset.toNat ∧ slot.fragments k = false) := by
    refine imp_congr_right fun _ => exists_congr fun k => and_congr_right fun _ => ?_
    show Function.update slot.fragments _ true k = false ↔ _
    rw [hpiece]
    rcases eq_or_ne k (ipv4Header fragment.bytes).fragmentOffset.toNat with rfl | hk
    · simp
    · simp [hk]
  have hreads := @scan_reads_iff (slot.store fragment)
  rw [store_totalLength_toNat, hmarks] at hreads
  constructor
  · rintro ⟨hp, hr, hd, hs, ht⟩
    refine ⟨hpiece ▸ hp, ?_, hreads.mp hr⟩
    dsimp only [reassemblyAccess] at hd hs ht
    rw [fragOffset_toNat, fragDataLen_toNat] at hd ht
    rw [fragDataLen_toNat] at hs
    cases hmore : (ipv4Header fragment.bytes).moreFragments
    · have ht := ht _ (by rw [hmore]; rfl)
      simp only [Bool.toNat_false]
      omega
    · simp only [Bool.toNat_true]
      omega
  · rintro ⟨ho, ht, hm⟩
    refine ⟨?_, hreads.mpr hm, ?_, ?_, ?_⟩ <;> dsimp only [reassemblyAccess]
    · rwa [hpiece]
    · rw [fragOffset_toNat, fragDataLen_toNat]
      have hbit := Bool.toNat_le (ipv4Header fragment.bytes).moreFragments
      omega
    · rw [fragDataLen_toNat]
      omega
    · rw [fragOffset_toNat, fragDataLen_toNat]
      intro t htotal
      split_ifs at htotal with hmore
      rw [Bool.not_eq_true] at hmore
      rw [hmore, Bool.toNat_false] at ht
      obtain rfl := Option.some_inj.mp htotal
      omega

/-! ### Runs -/

/-- The length and checksum checks of `ipv4_receive_packet`, and its test for a fragment. -/
def ipv4ReceivesFragment (iface : ℕ) (packet : NetPacket) : Bool :=
  iface != 0 && decide (20 ≤ packet.length) && ipv4Verify packet.bytes &&
    (ipv4Header packet.bytes).isFragment

/-- A fragment that is received, the allocator as it is then, and what the memory it gives holds. -/
structure FragmentOp where
  iface : ℕ
  fragment : NetPacket
  pmm : Pmm
  junk : ℕ → UInt8
  junkPacket : NetPacket

namespace FragmentOp

/-- The header. -/
def header (op : FragmentOp) : Ipv4Header := ipv4Header op.fragment.bytes

/-- The fragment is handed to `ipv4_reassemble_packet`. -/
def received (op : FragmentOp) : Bool := ipv4ReceivesFragment op.iface op.fragment

/-- The call. -/
def run (op : FragmentOp) (s : ℕ → ReassemblySlot) : Reassembled :=
  ipv4ReassemblePacket op.pmm s op.junk op.junkPacket op.fragment

/-- If there is a slot for the fragment, it fits there. -/
def Fits (op : FragmentOp) (s : ℕ → ReassemblySlot) : Prop :=
  ∀ i pmm s', reassemblySlot op.pmm s op.junk op.header = (some i, pmm, s') →
    FragmentFits (s' i) op.header op.fragment.length

theorem inBounds_iff (op : FragmentOp) (s : ℕ → ReassemblySlot) :
    (∀ a, (op.run s).access = some a → ReassemblyInBounds op.fragment a) ↔ op.Fits s := by
  rcases hslot : reassemblySlot op.pmm s op.junk op.header with ⟨_ | i, pmm', s'⟩
  · have haccess : (op.run s).access = none := by
      rw [header] at hslot
      simp only [run, ipv4ReassemblePacket, hslot]
    rw [haccess, Fits, hslot]
    simp
  · obtain ⟨r, hr, haccess, -⟩ :=
      ipv4ReassemblePacket_cases op.junkPacket hslot
    rw [run, hr, haccess, Fits, hslot]
    simp [header, Rexus.inBounds_iff]

end FragmentOp

/-- The slots, and the accesses that have been made, with the fragments they were made for. -/
structure Reassembling where
  slots : ℕ → ReassemblySlot
  accesses : List (NetPacket × ReassemblyAccess)

namespace Reassembling

/-- Nothing has been received since `ipv4_init`. -/
def start : Reassembling := ⟨fun _ => emptySlot, []⟩

/-- The step relation of a run: a packet arrives that is handed to `ipv4_reassemble_packet`, and the
accesses of the call are written down. -/
def Step (w : Reassembling) (op : FragmentOp) (w' : Reassembling) : Prop :=
  op.received = true ∧ w' = ⟨(op.run w.slots).slots,
    w.accesses ++ ((op.run w.slots).access.map fun a => (op.fragment, a)).toList⟩

/-- The step relation of a run of fragments that fit. -/
def FitsStep (w : Reassembling) (op : FragmentOp) (w' : Reassembling) : Prop :=
  w.Step op w' ∧ op.Fits w.slots

end Reassembling

/-- **Every run** of fragments that fit makes no access out of bounds, and the next fragment makes
none exactly if it fits. -/
theorem reassembly_bounds_run {w : Reassembling}
    (hrun : Reaches Reassembling.FitsStep Reassembling.start w) :
    (∀ x ∈ w.accesses, ReassemblyInBounds x.1 x.2) ∧ ∀ op : FragmentOp, op.received = true →
      ((∀ a, (op.run w.slots).access = some a → ReassemblyInBounds op.fragment a) ↔
        op.Fits w.slots) := by
  refine ⟨?_, fun op _ => op.inBounds_iff w.slots⟩
  refine hrun.invariant (I := fun w => ∀ x ∈ w.accesses, ReassemblyInBounds x.1 x.2) ?_ ?_
  · intro x hx
    cases hx
  · rintro w op w' hw ⟨⟨-, rfl⟩, hfits⟩ x hx
    rcases List.mem_append.mp hx with hx | hx
    · exact hw x hx
    · rw [Option.mem_toList, Option.map_eq_some_iff] at hx
      obtain ⟨a, ha, rfl⟩ := hx
      exact (op.inBounds_iff w.slots).mpr hfits a ha

/-! ### A fragment far from the start -/

/-- Thirty-two blocks, of which the first is in use. -/
def pmmThirtyTwo : Pmm := { pmmEight with memBlocks := 32, memBlocks_le := by decide }

/-- A fragment with this total length and these flags and offset. -/
def fragmentOf (totalLength flagsOffset : UInt16) : NetPacket where
  addr := 0
  data := 0
  bytes := ipv4Seal (putLe16 (putLe16 (fun _ => 0) 6 flagsOffset) 2 totalLength)
  length := totalLength.toNat
  protocol := .ipv4
  priority := 0
  iface := 4096
  srcAddr := ⟨fun _ => 0⟩
  destAddr := ⟨fun _ => 0⟩

theorem ipv4Header_fragmentOf (totalLength flagsOffset : UInt16) : ∃ checksum,
    ipv4Header (fragmentOf totalLength flagsOffset).bytes =
      { ipv4Header fun _ => 0 with totalLength, flagsOffset, checksum } := by
  obtain ⟨checksum, h⟩ :=
    ipv4Header_ipv4Seal (putLe16 (putLe16 (fun _ => 0) 6 flagsOffset) 2 totalLength)
  refine ⟨checksum, ?_⟩
  rw [fragmentOf, h]
  simp

theorem header_fragmentOf (totalLength flagsOffset : UInt16) :
    (ipv4Header (fragmentOf totalLength flagsOffset).bytes).totalLength = totalLength ∧
      (ipv4Header (fragmentOf totalLength flagsOffset).bytes).flagsOffset = flagsOffset := by
  obtain ⟨checksum, h⟩ := ipv4Header_fragmentOf totalLength flagsOffset
  rw [h]
  exact ⟨rfl, rfl⟩

/-- It is received, with memory for it. -/
def receiveOp (totalLength flagsOffset : UInt16) : FragmentOp :=
  ⟨4096, fragmentOf totalLength flagsOffset, pmmThirtyTwo, fun _ => 0, fragmentOf 0 0⟩

theorem received_receiveOp {totalLength flagsOffset : UInt16} (hlen : 20 ≤ totalLength.toNat)
    (hflags : flagsOffset &&& (0x2000 ||| 0x1FFF) ≠ 0) :
    (receiveOp totalLength flagsOffset).received = true := by
  obtain ⟨-, h⟩ := header_fragmentOf totalLength flagsOffset
  have hverify : ipv4Verify (fragmentOf totalLength flagsOffset).bytes = true :=
    ipv4Verify_ipv4Seal _
  have hlen : 20 ≤ (fragmentOf totalLength flagsOffset).length := hlen
  simp [FragmentOp.received, ipv4ReceivesFragment, receiveOp, hverify, h, Ipv4Header.isFragment,
    hflags, hlen]

/-- The first fragment of all gets the first slot, and block `1` and the next. -/
theorem reassemblySlot_start (junk : ℕ → UInt8) (h : Ipv4Header) :
    ∃ pmm, reassemblySlot pmmThirtyTwo (fun _ => emptySlot) junk h =
      (some 0, pmm, Function.update (fun _ => emptySlot) 0 (newSlot h 4096 junk)) := by
  have hfind : (List.range 64).find? (fun _ => emptySlot.has h) = none :=
    List.find?_eq_none.mpr fun _ _ => by simp [ReassemblySlot.has, emptySlot]
  have hfree : (List.range 64).find? (fun _ => emptySlot.data == 0) = some 0 := by decide
  have haddr : (pmmAllocBlocks pmmThirtyTwo reassemblyBlocks).1 = 4096 := by decide +kernel
  refine ⟨(pmmAllocBlocks pmmThirtyTwo reassemblyBlocks).2, ?_⟩
  simp only [reassemblySlot, hfind, hfree, haddr]
  rfl

/-- Eight bytes from the start of a datagram are received. -/
def firstReceived : Reassembling where
  slots := ((receiveOp 28 0x2000).run fun _ => emptySlot).slots
  accesses := ((receiveOp 28 0x2000).run fun _ => emptySlot).access.toList.map
    fun a => (fragmentOf 28 0x2000, a)

theorem fits_receiveOp_first : (receiveOp 28 0x2000).Fits fun _ => emptySlot := by
  obtain ⟨hlen, hflags⟩ := header_fragmentOf 28 0x2000
  intro i pmm s' hslot
  obtain ⟨pmm', hstart⟩ := reassemblySlot_start (fun _ => 0) (receiveOp 28 0x2000).header
  have heq := hstart.symm.trans hslot
  simp only [Prod.mk.injEq, Option.some_inj] at heq
  obtain ⟨rfl, -, rfl⟩ := heq
  rw [Function.update_self, receiveOp, FragmentOp.header]
  refine ⟨?_, Or.inl ⟨?_, ?_, ?_⟩, fun hend => absurd hend ?_⟩
  · rw [Ipv4Header.fragmentOffset, hflags]
    decide
  · rw [hlen]
    decide
  · rw [hlen]
    decide
  · rw [Ipv4Header.fragmentOffset, Ipv4Header.moreFragments, hflags, hlen]
    decide
  · rw [knownEnd, Ipv4Header.moreFragments, hflags]
    exact Nat.not_lt_zero 512

theorem reassembly_bounds_run_first :
    (∀ x ∈ firstReceived.accesses, ReassemblyInBounds x.1 x.2) ∧
      ∀ op : FragmentOp, op.received = true →
        ((∀ a, (op.run firstReceived.slots).access = some a → ReassemblyInBounds op.fragment a) ↔
          op.Fits firstReceived.slots) := by
  refine reassembly_bounds_run ((Reaches.refl _).tail (i := receiveOp 28 0x2000)
    ⟨⟨received_receiveOp (by decide) (by decide), ?_⟩, fits_receiveOp_first⟩)
  simp [firstReceived, Reassembling.start, receiveOp, Option.toList_map]

/-- A fragment of eight bytes from byte 512 of a datagram on marks what is not among the marks. -/
theorem not_inBounds_far : (receiveOp 28 64).received = true ∧
    ∃ a, ((receiveOp 28 64).run fun _ => emptySlot).access = some a ∧
      ¬ ReassemblyInBounds (fragmentOf 28 64) a := by
  refine ⟨received_receiveOp (by decide) (by decide), ?_⟩
  obtain ⟨-, hflags⟩ := header_fragmentOf 28 64
  obtain ⟨pmm, hslot⟩ := reassemblySlot_start (fun _ => 0) (receiveOp 28 64).header
  obtain ⟨r, hr, haccess, -⟩ := ipv4ReassemblePacket_cases
    (receiveOp 28 64).junkPacket hslot
  refine ⟨_, hr ▸ haccess, fun hbounds => ?_⟩
  have hfits := ((inBounds_iff _ _).mp hbounds).offset
  rw [Ipv4Header.fragmentOffset, hflags] at hfits
  exact absurd hfits (by decide)

end Rexus
