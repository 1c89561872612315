import Rexus.Net.Reassembly

/-!
# What reassembled packets are made of

A run of received fragments carries, for every slot in use, the fragments that were stored there.
The invariant is about a marked unit: every byte of it comes from one of them, or it lies behind a
last fragment of less than a unit, where the known end lies too.

## Main results

* `SlotHolds.store`, `SlotHolds.complete` — storing a fragment, and completing a datagram
* `reassembly_content_run` — what is returned, over every run

## Conventions

What a run carries beside the slots is what has been received: all fragments so far, and for each
slot in use those that went into it. `MadeOf` is said of a packet that is returned and of these:
every byte of its data was in one of the fragments of the same datagram, at its place. It does not
say which, so fragments that overlap and differ are covered, with either of the two.

A run is one of fragments that go with what their slots hold, `Coherent`: each lies within the
bounds, has the protocol of its slot, fills a unit unless it is the last, and as a last one does not
extend what another last one has ended within a unit. What a fragment that does not may do is in
`Net/Reassembly.lean`.
-/

namespace Rexus

open Bytes Run

/-! ### Fragments and what they cover -/

/-- The headers are of one datagram. -/
structure SameDatagram (h h' : Ipv4Header) : Prop where
  srcAddr : h.srcAddr = h'.srcAddr
  destAddr : h.destAddr = h'.destAddr
  id : h.id = h'.id
  protocol : h.protocol = h'.protocol

/-- Where the data of a fragment ends in the datagram. -/
def fragEnd (f : NetPacket) : ℕ := (fragOffset f).toNat + (fragDataLen f).toNat

/-- The fragment has a byte for position `p` of the payload. -/
structure Covers (f : NetPacket) (p : ℕ) : Prop where
  offset_le : (fragOffset f).toNat ≤ p
  lt_end : p < fragEnd f
  received : 20 + (p - (fragOffset f).toNat) < f.length

/-- That byte. -/
def fragByte (f : NetPacket) (p : ℕ) : UInt8 := f.bytes (20 + (p - (fragOffset f).toNat))

/-- Every byte of the payload is that of a fragment, of the same datagram, that covers it. -/
def MadeOf (fs : List NetPacket) (packet : NetPacket) : Prop :=
  ∀ p, 20 + p < packet.length → ∃ f ∈ fs,
    SameDatagram (ipv4Header f.bytes) (ipv4Header packet.bytes) ∧ Covers f p ∧
      packet.bytes (20 + p) = fragByte f p

/-- A last fragment of less than a unit. -/
def ShortLast (f : NetPacket) : Prop :=
  (ipv4Header f.bytes).moreFragments = false ∧ (fragDataLen f).toNat < 8

/-- A fragment that goes with the others of its slot, which are `fs`. -/
structure FragmentCoherent (slot : ReassemblySlot) (fs : List NetPacket) (f : NetPacket) :
    Prop where
  fits : FragmentFits slot (ipv4Header f.bytes) f.length
  /-- The slot is one for its protocol, -/
  protocol : slot.protocol = (ipv4Header f.bytes).protocol
  /-- it fills a unit unless it is the last, -/
  unit : (ipv4Header f.bytes).moreFragments = true → 8 ≤ (fragDataLen f).toNat
  /-- and as a last one it does not extend what a last one ended within a unit. -/
  last : (ipv4Header f.bytes).moreFragments = false → ∀ g ∈ fs, ShortLast g → fragEnd f ≤ fragEnd g

/-! ### The invariant of a slot -/

/-- What is in a slot are the fragments `fs`. A mark stands for eight bytes, but is set for a short
last fragment, too, and says nothing of the bytes behind its end. -/
structure SlotHolds (slot : ReassemblySlot) (fs : List NetPacket) : Prop where
  same : ∀ f ∈ fs, ∀ h : Ipv4Header, slot.has h = true → slot.protocol = h.protocol →
    SameDatagram (ipv4Header f.bytes) h
  unit : ∀ k, slot.fragments k = true → ∀ p, 8 * k ≤ p → p < 8 * k + 8 →
    (∃ f ∈ fs, Covers f p ∧ slot.bytes p = fragByte f p) ∨ ∃ f ∈ fs, ShortLast f ∧ fragEnd f ≤ p
  total : slot.totalLength ≠ 0 → ∀ f ∈ fs, ShortLast f → slot.totalLength.toNat ≤ fragEnd f

namespace SlotHolds

variable {slot : ReassemblySlot} {fs : List NetPacket} {f : NetPacket}

theorem newSlot (h : Ipv4Header) (data : ℕ) (junk : ℕ → UInt8) :
    SlotHolds (newSlot h data junk) [] where
  same _ hf := nomatch hf
  unit _ hk := nomatch hk
  total h0 := absurd rfl h0

/-- The fragment covers what it is copied to. -/
theorem covers_of_fits (hfits : FragmentFits slot (ipv4Header f.bytes) f.length) {p : ℕ}
    (hp : (fragOffset f).toNat ≤ p) (hp' : p < fragEnd f) : Covers f p := by
  refine ⟨hp, hp', ?_⟩
  have hsrc := ((inBounds_iff slot f).mpr hfits).src
  simp only [reassemblyAccess] at hsrc
  rw [fragEnd] at hp'
  omega

/-- The stored fragment is of the datagram that its slot is for. -/
theorem store_same (h : SlotHolds slot fs) (hhas : slot.has (ipv4Header f.bytes) = true)
    (hf : FragmentCoherent slot fs f) : ∀ g ∈ fs ++ [f], ∀ h' : Ipv4Header, slot.has h' = true →
      slot.protocol = h'.protocol → SameDatagram (ipv4Header g.bytes) h' := by
  obtain ⟨-, hid, hsrc, hdest⟩ := ReassemblySlot.has_iff.mp hhas
  intro g hg h' hh' hprotocol
  rcases List.mem_append.mp hg with hg | hg
  · exact h.same g hg h' hh' hprotocol
  · obtain rfl := List.mem_singleton.mp hg
    obtain ⟨-, hid', hsrc', hdest'⟩ := ReassemblySlot.has_iff.mp hh'
    exact ⟨hsrc.symm.trans hsrc', hdest.symm.trans hdest', hid.symm.trans hid',
      hf.protocol.symm.trans hprotocol⟩

/-- A byte of a marked unit is that of a fragment, or behind the end of a short last one. -/
theorem store_unit (h : SlotHolds slot fs) (hf : FragmentCoherent slot fs f) {k p : ℕ}
    (hk : (slot.store f).fragments k = true) (hp : 8 * k ≤ p) (hp' : p < 8 * k + 8) :
    (∃ g ∈ fs ++ [f], Covers g p ∧ (slot.store f).bytes p = fragByte g p) ∨
      ∃ g ∈ fs ++ [f], ShortLast g ∧ fragEnd g ≤ p := by
  have hoffset := fragOffset_toNat f
  by_cases hcopied : (fragOffset f).toNat ≤ p ∧ p < fragEnd f
  · -- the byte has just been written
    refine Or.inl ⟨f, by simp, covers_of_fits hf.fits hcopied.1 hcopied.2, ?_⟩
    exact blit_of_mem hcopied.1 hcopied.2
  have hbyte : (slot.store f).bytes p = slot.bytes p := by
    rw [not_and_or, Nat.not_le, Nat.not_lt] at hcopied
    rcases hcopied with hlt | hge
    · exact blit_of_lt hlt
    · exact blit_of_ge hge
  rw [hbyte]
  by_cases hnew : k = (fragOffset f).toNat / 8
  · -- the unit that has just been marked, behind the end of a last fragment
    have hshort : ShortLast f := by
      rw [fragEnd] at hcopied
      refine ⟨?_, by omega⟩
      by_contra hmore
      rw [Bool.not_eq_false] at hmore
      have hunit := hf.unit hmore
      omega
    exact Or.inr ⟨f, by simp, hshort, by omega⟩
  · have hold : slot.fragments k = true := by
      simpa [ReassemblySlot.store, hnew] using hk
    rcases h.unit k hold p hp hp' with ⟨g, hg, hcovers, hbyte⟩ | ⟨g, hg, hshort, hle⟩
    · exact Or.inl ⟨g, List.mem_append_left _ hg, hcovers, hbyte⟩
    · exact Or.inr ⟨g, List.mem_append_left _ hg, hshort, hle⟩

/-- The total length is not behind the end of a short last fragment. -/
theorem store_total (h : SlotHolds slot fs) (hf : FragmentCoherent slot fs f)
    (h0 : (slot.store f).totalLength ≠ 0) : ∀ g ∈ fs ++ [f], ShortLast g →
      (slot.store f).totalLength.toNat ≤ fragEnd g := by
  intro g hg hshort
  cases hmore : (ipv4Header f.bytes).moreFragments
  · have htotal := ((inBounds_iff slot f).mpr hf.fits).total (fragEnd f) (by
      simp [reassemblyAccess, hmore, fragEnd])
    have hend : (slot.store f).totalLength.toNat = fragEnd f := by
      simp only [ReassemblySlot.store, hmore, Bool.false_eq_true, if_false, UInt16.toNat_add]
      exact Nat.mod_eq_of_lt htotal
    rw [hend]
    rcases List.mem_append.mp hg with hg | hg
    · exact hf.last hmore g hg hshort
    · rw [List.mem_singleton.mp hg]
  · have hsame : (slot.store f).totalLength = slot.totalLength := by
      simp [ReassemblySlot.store, hmore]
    rw [hsame] at h0 ⊢
    rcases List.mem_append.mp hg with hg | hg
    · exact h.total h0 g hg hshort
    · rw [List.mem_singleton.mp hg] at hshort
      exact absurd (hshort.1.symm.trans hmore) Bool.false_ne_true

/-- **Storing a fragment.** -/
theorem store (h : SlotHolds slot fs) (hhas : slot.has (ipv4Header f.bytes) = true)
    (hf : FragmentCoherent slot fs f) : SlotHolds (slot.store f) (fs ++ [f]) where
  same := h.store_same hhas hf
  unit _ hk _ := h.store_unit hf hk
  total := h.store_total hf

/-- **Completing a datagram**, by a fragment of it. -/
theorem complete (h : SlotHolds slot fs) (hscan : slot.scan.2 = true)
    (hhas : slot.has (ipv4Header f.bytes) = true)
    (hprotocol : slot.protocol = (ipv4Header f.bytes).protocol) {packet : NetPacket}
    (hlength : packet.length = 20 + slot.totalLength.toNat) :
    MadeOf fs (slot.complete f packet) := by
  rw [ReassemblySlot.scan] at hscan
  split_ifs at hscan with h0
  rw [completionScan_complete] at hscan
  intro p hp
  have hp : p < slot.totalLength.toNat := by
    have hlen : (slot.complete f packet).length = packet.length := rfl
    omega
  have hunit := h.unit (p / 8) (hscan _ (Nat.zero_le _) (by omega)) p (by omega) (by omega)
  rcases hunit with ⟨g, hg, hcovers, hbyte⟩ | ⟨g, hg, hshort, hle⟩
  · refine ⟨g, hg, ?_, hcovers, by rw [ReassemblySlot.complete_bytes hp, hbyte]⟩
    obtain ⟨checksum, hheader⟩ := slot.complete_header f packet
    obtain ⟨hsrc, hdest, hid, hproto⟩ := h.same g hg _ hhas hprotocol
    rw [hheader]
    exact ⟨hsrc, hdest, hid, hproto⟩
  · have htotal := h.total h0 g hg hshort
    omega

end SlotHolds

/-! ### Runs -/

/-- The slots, all fragments received so far, and for every slot in use those that are in it. -/
structure Collecting where
  slots : ℕ → ReassemblySlot
  received : List NetPacket
  stored : ℕ → List NetPacket

namespace Collecting

/-- Nothing has been received since `ipv4_init`. -/
def start : Collecting := ⟨fun _ => emptySlot, [], fun _ => []⟩

/-- What is in a slot when a fragment gets it: nothing if it has just been taken into use. -/
def before (w : Collecting) (i : ℕ) : List NetPacket :=
  if (w.slots i).data = 0 then [] else w.stored i

/-- The state after a fragment. -/
def next (w : Collecting) (op : FragmentOp) : Collecting where
  slots := (op.run w.slots).slots
  received := w.received ++ [op.fragment]
  stored :=
    match (reassemblySlot op.pmm w.slots op.junk op.header).1 with
    | none => w.stored
    | some i => Function.update w.stored i (w.before i ++ [op.fragment])

/-- The step relation of a run: a packet arrives that is handed to `ipv4_reassemble_packet`. Any
allocator and any memory may be given to the call. -/
def Step (w : Collecting) (op : FragmentOp) (w' : Collecting) : Prop :=
  op.received = true ∧ w' = w.next op

/-- If there is a slot for the fragment, it goes with what is there. -/
def Coherent (w : Collecting) (op : FragmentOp) : Prop :=
  ∀ i pmm s', reassemblySlot op.pmm w.slots op.junk op.header = (some i, pmm, s') →
    FragmentCoherent (s' i) (w.before i) op.fragment

/-- The step relation of a run of fragments that go with each other. -/
def CoherentStep (w : Collecting) (op : FragmentOp) (w' : Collecting) : Prop :=
  w.Step op w' ∧ w.Coherent op

end Collecting

/-- The invariant of a run: each slot in use holds fragments that have been received, so that what
is completed from it is made of them. -/
structure CollectingInv (w : Collecting) : Prop where
  slots : ∀ i, (w.slots i).data ≠ 0 → SlotHolds (w.slots i) (w.stored i)
  received : ∀ i, (w.slots i).data ≠ 0 → ∀ f ∈ w.stored i, f ∈ w.received

namespace CollectingInv

variable {w : Collecting} {op : FragmentOp}

theorem start : CollectingInv .start where
  slots _ h0 := absurd rfl h0
  received _ h0 := absurd rfl h0

/-- The slot that a fragment gets, and what is there. -/
theorem slot (h : CollectingInv w) {i : ℕ} {pmm : Pmm} {s' : ℕ → ReassemblySlot}
    (hslot : reassemblySlot op.pmm w.slots op.junk op.header = (some i, pmm, s')) :
    (s' i).has op.header = true ∧ SlotHolds (s' i) (w.before i) ∧
      (∀ f ∈ w.before i, f ∈ w.received) ∧ ∀ j, j ≠ i → s' j = w.slots j := by
  rcases reassemblySlot_cases op.pmm w.slots op.junk op.header with
    ⟨_, _, hnone, -⟩ | ⟨j, -, hhas, hfound⟩ | ⟨j, -, hfree, -, _, data, hdata, hnew⟩
  · rw [hnone] at hslot
    simp at hslot
  · rw [hfound] at hslot
    simp only [Prod.mk.injEq, Option.some_inj] at hslot
    obtain ⟨rfl, -, rfl⟩ := hslot
    have hdata := (ReassemblySlot.has_iff.mp hhas).1
    rw [Collecting.before, if_neg hdata]
    exact ⟨hhas, h.slots j hdata, h.received j hdata, fun _ _ => rfl⟩
  · rw [hnew] at hslot
    simp only [Prod.mk.injEq, Option.some_inj] at hslot
    obtain ⟨rfl, -, rfl⟩ := hslot
    rw [Collecting.before, if_pos hfree, Function.update_self]
    refine ⟨ReassemblySlot.has_iff.mpr ⟨hdata, rfl, rfl, rfl⟩, SlotHolds.newSlot .., ?_, ?_⟩
    · intro f hf
      cases hf
    · intro k hk
      exact Function.update_of_ne hk ..

/-- A fragment that gets no slot. -/
theorem step_none (h : CollectingInv w) {pmm : Pmm} {s' : ℕ → ReassemblySlot}
    (hslot : reassemblySlot op.pmm w.slots op.junk op.header = (none, pmm, s')) :
    CollectingInv (w.next op) ∧ (op.run w.slots).packet = none := by
  have hrun : op.run w.slots = ⟨none, pmm, s', none⟩ := by
    rw [FragmentOp.header] at hslot
    simp only [FragmentOp.run, ipv4ReassemblePacket, hslot]
  have hslots : ∀ j, (s' j).data ≠ 0 → s' j = w.slots j := by
    rcases reassemblySlot_cases op.pmm w.slots op.junk op.header with
      ⟨_, _, hnone, hold⟩ | ⟨_, -, -, hsome⟩ | ⟨_, -, -, -, _, _, -, hsome⟩
    · rw [hnone, Prod.mk.injEq, Prod.mk.injEq] at hslot
      obtain ⟨-, -, rfl⟩ := hslot
      exact fun j hj => (hold j).resolve_right hj
    · rw [hsome] at hslot
      simp at hslot
    · rw [hsome] at hslot
      simp at hslot
  have hnext : w.next op = ⟨s', w.received ++ [op.fragment], w.stored⟩ := by
    simp only [Collecting.next, hrun, hslot]
  rw [hrun, hnext]
  refine ⟨⟨?_, ?_⟩, rfl⟩
  · intro j hj
    have hold : s' j = w.slots j := hslots j hj
    simp only [hold] at hj ⊢
    exact h.slots j hj
  · intro j hj f hf
    have hold : s' j = w.slots j := hslots j hj
    simp only [hold] at hj
    exact List.mem_append_left _ (h.received j hj f hf)

/-- A fragment that is stored in a slot: the others are as they were. -/
theorem step_stored (h : CollectingInv w) {i : ℕ} {pmm : Pmm} {s' : ℕ → ReassemblySlot}
    (hslot : reassemblySlot op.pmm w.slots op.junk op.header = (some i, pmm, s'))
    {slot : ReassemblySlot} (hslots : (w.next op).slots = Function.update s' i slot)
    (hholds : slot.data ≠ 0 → SlotHolds slot (w.before i ++ [op.fragment])) :
    CollectingInv (w.next op) := by
  obtain ⟨-, -, hmem, hother⟩ := h.slot hslot
  have hstored : (w.next op).stored =
      Function.update w.stored i (w.before i ++ [op.fragment]) := by
    simp only [Collecting.next, hslot]
  refine ⟨fun j hj => ?_, fun j hj => ?_⟩ <;> rw [hslots] at hj <;> rw [hstored]
  · rw [hslots]
    rcases eq_or_ne j i with rfl | hji
    · rw [Function.update_self] at hj ⊢
      rw [Function.update_self]
      exact hholds hj
    · rw [Function.update_of_ne hji, hother j hji] at hj ⊢
      rw [Function.update_of_ne hji]
      exact h.slots j hj
  · intro f hf
    rcases eq_or_ne j i with rfl | hji
    · rw [Function.update_self] at hf
      exact List.mem_append.mpr ((List.mem_append.mp hf).imp_left (hmem f))
    · rw [Function.update_of_ne hji, hother j hji] at hj
      rw [Function.update_of_ne hji] at hf
      exact List.mem_append_left _ (h.received j hj f hf)

/-- **One fragment keeps the invariant**, and what is returned is made of fragments received. -/
theorem step (h : CollectingInv w) (hop : w.Coherent op) :
    CollectingInv (w.next op) ∧ ∀ packet, (op.run w.slots).packet = some packet →
      MadeOf (w.received ++ [op.fragment]) packet := by
  rcases hslot : reassemblySlot op.pmm w.slots op.junk op.header with ⟨_ | i, pmm, s'⟩
  · obtain ⟨hinv, hnone⟩ := h.step_none hslot
    refine ⟨hinv, fun packet hpacket => ?_⟩
    rw [hnone] at hpacket
    cases hpacket
  obtain ⟨hhas, hholds, hmem, -⟩ := h.slot hslot
  have hcoherent := hop i pmm s' hslot
  have hstore := hholds.store hhas hcoherent
  obtain ⟨r, hr, -, hr'⟩ := ipv4ReassemblePacket_cases op.junkPacket hslot
  have hrun : op.run w.slots = r := hr
  have hslots : (w.next op).slots = r.slots := congrArg Reassembled.slots hrun
  rcases hr' with ⟨hnone, hs⟩ | ⟨hscan, ⟨addr, data, -, hsome⟩, hs⟩
  · refine ⟨h.step_stored hslot (hslots.trans hs) fun _ => hstore, fun packet hpacket => ?_⟩
    rw [hrun, hnone] at hpacket
    cases hpacket
  · refine ⟨h.step_stored hslot (hslots.trans hs) fun h0 => absurd rfl h0, fun packet hpacket => ?_⟩
    rw [hrun, hsome, Option.some_inj] at hpacket
    subst hpacket
    intro p hp
    obtain ⟨f, hf, hmade⟩ := hstore.complete hscan hhas hcoherent.protocol rfl p hp
    exact ⟨f, List.mem_append.mpr ((List.mem_append.mp hf).imp_left (hmem f)), hmade⟩

end CollectingInv

/-- **Every run** of fragments that go with each other: what the next one completes is made of
fragments received. -/
theorem reassembly_content_run {w : Collecting}
    (hrun : Reaches Collecting.CoherentStep Collecting.start w) :
    ∀ op : FragmentOp, op.received = true → w.Coherent op → ∀ packet,
      (op.run w.slots).packet = some packet → MadeOf (w.received ++ [op.fragment]) packet := by
  have h : CollectingInv w := by
    refine hrun.invariant CollectingInv.start ?_
    rintro w op w' hw ⟨⟨-, rfl⟩, hop⟩
    exact (hw.step hop).1
  intro op _ hop
  exact (h.step hop).2

/-! ### Two fragments -/

theorem fragment_fragmentOf (totalLength flagsOffset : UInt16) :
    fragOffset (fragmentOf totalLength flagsOffset) = (flagsOffset &&& 0x1FFF) * 8 ∧
      fragDataLen (fragmentOf totalLength flagsOffset) = totalLength - 20 := by
  obtain ⟨hlen, hflags⟩ := header_fragmentOf totalLength flagsOffset
  rw [fragOffset, fragDataLen, Ipv4Header.fragmentOffset, hlen, hflags]
  exact ⟨rfl, rfl⟩

/-- The slot of a first fragment. -/
def firstSlot (totalLength : UInt16) : ReassemblySlot :=
  (newSlot (ipv4Header (fragmentOf totalLength 0x2000).bytes) 4096 fun _ => 0).store
    (fragmentOf totalLength 0x2000)

section

variable (totalLength : UInt16)

theorem totalLength_firstSlot : (firstSlot totalLength).totalLength = 0 := by
  obtain ⟨-, hflags⟩ := header_fragmentOf totalLength 0x2000
  simp only [firstSlot, ReassemblySlot.store, Ipv4Header.moreFragments, hflags]
  rfl

theorem slots_firstSlot : (Collecting.start.next (receiveOp totalLength 0x2000)).slots =
    Function.update (fun _ => emptySlot) 0 (firstSlot totalLength) := by
  obtain ⟨pmm, hslot⟩ := reassemblySlot_start (fun _ => 0) (receiveOp totalLength 0x2000).header
  obtain ⟨r, hr, -, ⟨-, hslots⟩ | ⟨hscan, -⟩⟩ := ipv4ReassemblePacket_cases
    (receiveOp totalLength 0x2000).junkPacket hslot
  · have hnext : (Collecting.start.next (receiveOp totalLength 0x2000)).slots = r.slots :=
      congrArg Reassembled.slots hr
    rw [hnext, hslots, Function.update_self, Function.update_idem]
    rfl
  · rw [Function.update_self] at hscan
    have hfalse : (firstSlot totalLength).scan.2 = false := by
      rw [ReassemblySlot.scan, if_pos (totalLength_firstSlot totalLength)]
    exact absurd (hfalse.symm.trans hscan) Bool.false_ne_true

/-- The last fragment goes to the same slot. -/
theorem reassemblySlot_firstSlot : reassemblySlot pmmThirtyTwo
      (Function.update (fun _ => emptySlot) 0 (firstSlot totalLength)) (fun _ => 0)
      (receiveOp 28 1).header =
    (some 0, pmmThirtyTwo, Function.update (fun _ => emptySlot) 0 (firstSlot totalLength)) := by
  have hhas : (firstSlot totalLength).has (receiveOp 28 1).header = true := by
    obtain ⟨checksum, h₁⟩ := ipv4Header_fragmentOf totalLength 0x2000
    obtain ⟨checksum', h₂⟩ := ipv4Header_fragmentOf 28 1
    rw [ReassemblySlot.has_iff, firstSlot, FragmentOp.header, receiveOp, h₁, h₂]
    exact ⟨Nat.succ_ne_zero 4095, rfl, rfl, rfl⟩
  refine reassemblySlot_found (by decide) ?_ fun j _ hj => ?_
  · rw [Function.update_self]
    exact hhas
  · rw [Function.update_of_ne hj]
    simp [ReassemblySlot.has, emptySlot]

/-- Both units are marked, and the end is known. -/
theorem scan_firstSlot : ((firstSlot totalLength).store (fragmentOf 28 1)).totalLength = 16 ∧
    ((firstSlot totalLength).store (fragmentOf 28 1)).scan.2 = true := by
  obtain ⟨-, hflags⟩ := header_fragmentOf 28 1
  obtain ⟨hoffset₁, -⟩ := fragment_fragmentOf totalLength 0x2000
  obtain ⟨hoffset₂, hlen₂⟩ := fragment_fragmentOf 28 1
  have htotal : ((firstSlot totalLength).store (fragmentOf 28 1)).totalLength = 16 := by
    simp only [ReassemblySlot.store, Ipv4Header.moreFragments, hflags, hoffset₂, hlen₂]
    rfl
  refine ⟨htotal, ?_⟩
  rw [ReassemblySlot.scan, htotal, if_neg (by decide), completionScan_complete]
  intro k _ hk
  have hk : k < 2 := by simpa using hk
  simp only [ReassemblySlot.store, firstSlot, hoffset₁, hoffset₂]
  obtain rfl | rfl : k = 0 ∨ k = 1 := by omega
  · rfl
  · rfl

/-- A packet with sixteen bytes of data is returned. -/
theorem returned_firstSlot : ∃ packet : NetPacket, packet.length = 36 ∧
    ((receiveOp 28 1).run (Collecting.start.next (receiveOp totalLength 0x2000)).slots).packet =
      some packet := by
  obtain ⟨htotal, hscan⟩ := scan_firstSlot totalLength
  have haddr : (pmmAllocBlock pmmThirtyTwo).1 ≠ 0 := by decide +kernel
  have hdata : (pmmAllocBlocks (pmmAllocBlock pmmThirtyTwo).2 1).1 ≠ 0 := by decide +kernel
  obtain ⟨packet, pmm, hpacket⟩ := netAllocPacket_eq_some (show 36 ≤ 1518 by decide) haddr hdata
    (fragmentOf 0 0)
  have hlength : packet.length = 36 := by
    rcases netAllocPacket_cases pmmThirtyTwo (fragmentOf 0 0) 36 with
      ⟨t, h⟩ | ⟨addr, data, t, -, h⟩ <;> rw [hpacket, Prod.mk.injEq] at h
    · exact nomatch h.1
    · rw [Option.some_inj.mp h.1]
  refine ⟨((firstSlot totalLength).store (fragmentOf 28 1)).complete (fragmentOf 28 1) packet,
    hlength, ?_⟩
  rw [slots_firstSlot]
  have hself : Function.update (fun _ => emptySlot) 0 (firstSlot totalLength) 0 =
      firstSlot totalLength := Function.update_self ..
  have hslot : reassemblySlot _ _ _ (ipv4Header (fragmentOf 28 1).bytes) = _ :=
    reassemblySlot_firstSlot totalLength
  have hreturns := ipv4ReassemblePacket_returns hslot (by rw [hself]; exact hscan)
    (by rw [hself, htotal]; exact hpacket)
  rw [hself] at hreturns
  exact hreturns

end

/-- The first fragment fits, and goes with nothing. -/
theorem coherent_first : Collecting.start.Coherent (receiveOp 28 0x2000) := by
  obtain ⟨hlen, hflags⟩ := header_fragmentOf 28 0x2000
  intro i pmm s' hslot
  have hfits := fits_receiveOp_first i pmm s' hslot
  obtain ⟨pmm', hstart⟩ := reassemblySlot_start (fun _ => 0) (receiveOp 28 0x2000).header
  have heq := hstart.symm.trans hslot
  simp only [Prod.mk.injEq, Option.some_inj] at heq
  obtain ⟨rfl, -, rfl⟩ := heq
  refine ⟨hfits, ?_, fun _ => ?_, fun _ g hg => nomatch hg⟩
  · rw [Function.update_self]
    rfl
  · rw [receiveOp, fragDataLen, hlen]
    decide

/-- The first fragment is in the slot then. -/
theorem before_first : (Collecting.start.next (receiveOp 28 0x2000)).before 0 =
    [fragmentOf 28 0x2000] := by
  obtain ⟨pmm', hstart⟩ := reassemblySlot_start (fun _ => 0) (receiveOp 28 0x2000).header
  have hdata : ((Collecting.start.next (receiveOp 28 0x2000)).slots 0).data ≠ 0 := by
    rw [slots_firstSlot, Function.update_self]
    exact Nat.succ_ne_zero 4095
  have hstored : (Collecting.start.next (receiveOp 28 0x2000)).stored =
      Function.update (fun _ => []) 0 [fragmentOf 28 0x2000] := by
    have hfirst : (reassemblySlot (receiveOp 28 0x2000).pmm Collecting.start.slots
        (receiveOp 28 0x2000).junk (receiveOp 28 0x2000).header).1 = some 0 :=
      congrArg Prod.fst hstart
    rw [Collecting.next, hfirst]
    rfl
  rw [Collecting.before, if_neg hdata, hstored, Function.update_self]

/-- The last goes with the first. -/
theorem coherent_last :
    (Collecting.start.next (receiveOp 28 0x2000)).Coherent (receiveOp 28 1) := by
  obtain ⟨hlen, hflags⟩ := header_fragmentOf 28 1
  obtain ⟨-, hflags₁⟩ := header_fragmentOf 28 0x2000
  intro i pmm s' hslot
  have hsame := reassemblySlot_firstSlot 28
  rw [slots_firstSlot] at hslot
  have heq := hsame.symm.trans hslot
  simp only [Prod.mk.injEq, Option.some_inj] at heq
  obtain ⟨rfl, -, rfl⟩ := heq
  have hmore : (ipv4Header (fragmentOf 28 1).bytes).moreFragments = false := by
    rw [Ipv4Header.moreFragments, hflags]
    rfl
  have hend : knownEnd (firstSlot 28) (ipv4Header (fragmentOf 28 1).bytes) = 16 := by
    rw [← store_totalLength_toNat, (scan_firstSlot 28).1]
    rfl
  rw [Function.update_self, before_first]
  refine ⟨⟨?_, Or.inl ⟨?_, ?_, ?_⟩, fun hfar => ?_⟩, ?_, fun hmore' => ?_, fun _ g hg hshort => ?_⟩
  · show (ipv4Header (fragmentOf 28 1).bytes).fragmentOffset.toNat < 64
    rw [Ipv4Header.fragmentOffset, hflags]
    decide
  · show 20 ≤ (ipv4Header (fragmentOf 28 1).bytes).totalLength.toNat
    rw [hlen]
    decide
  · show (ipv4Header (fragmentOf 28 1).bytes).totalLength.toNat ≤ 28
    rw [hlen]
    decide
  · show 8 * (ipv4Header (fragmentOf 28 1).bytes).fragmentOffset.toNat +
      (ipv4Header (fragmentOf 28 1).bytes).totalLength.toNat < _
    rw [Ipv4Header.fragmentOffset, hflags, hlen]
    exact Nat.lt_of_lt_of_le (by decide) (Nat.le_add_right 65556 _)
  · rw [receiveOp, hend] at hfar
    exact absurd hfar (by decide)
  · obtain ⟨checksum, h₁⟩ := ipv4Header_fragmentOf 28 0x2000
    obtain ⟨checksum', h₂⟩ := ipv4Header_fragmentOf 28 1
    show (ipv4Header (fragmentOf 28 0x2000).bytes).protocol =
      (ipv4Header (fragmentOf 28 1).bytes).protocol
    rw [h₁, h₂]
  · exact absurd (hmore.symm.trans hmore') Bool.false_ne_true
  · obtain rfl := List.mem_singleton.mp hg
    have hlast := hshort.1
    rw [Ipv4Header.moreFragments, hflags₁] at hlast
    exact absurd hlast (by decide)

theorem reassembly_content_run_first : ∃ packet,
    ((receiveOp 28 1).run (Collecting.start.next (receiveOp 28 0x2000)).slots).packet =
        some packet ∧ MadeOf ([fragmentOf 28 0x2000] ++ [fragmentOf 28 1]) packet := by
  obtain ⟨packet, -, hpacket⟩ := returned_firstSlot 28
  refine ⟨packet, hpacket, ?_⟩
  exact reassembly_content_run ((Reaches.refl _).tail (i := receiveOp 28 0x2000)
    ⟨⟨received_receiveOp (by decide) (by decide), rfl⟩, coherent_first⟩) (receiveOp 28 1)
    (received_receiveOp (by decide) (by decide)) coherent_last packet hpacket

/-- Four bytes from the start of a datagram, and eight from byte 8 on, which are its last: the four
bytes between them are those the buffer had before. -/
theorem not_madeOf_unfilled : Reaches Collecting.Step Collecting.start
      (Collecting.start.next (receiveOp 24 0x2000)) ∧ (receiveOp 28 1).received = true ∧
    ∃ packet, ((receiveOp 28 1).run (Collecting.start.next (receiveOp 24 0x2000)).slots).packet =
        some packet ∧ ¬ MadeOf ([fragmentOf 24 0x2000] ++ [fragmentOf 28 1]) packet := by
  refine ⟨(Reaches.refl _).tail ⟨received_receiveOp (by decide) (by decide), rfl⟩,
    received_receiveOp (by decide) (by decide), ?_⟩
  obtain ⟨packet, hlength, hpacket⟩ := returned_firstSlot 24
  refine ⟨packet, hpacket, fun hmade => ?_⟩
  obtain ⟨f, hf, -, hcovers, -⟩ := hmade 4 (by omega)
  obtain ⟨hoffset₁, hlen₁⟩ := fragment_fragmentOf 24 0x2000
  obtain ⟨hoffset₂, -⟩ := fragment_fragmentOf 28 1
  rcases List.mem_cons.mp hf with rfl | hf
  · have hend := hcovers.lt_end
    rw [fragEnd, hoffset₁, hlen₁] at hend
    exact absurd hend (by decide)
  · obtain rfl := List.mem_singleton.mp hf
    have hstart := hcovers.offset_le
    rw [hoffset₂] at hstart
    exact absurd hstart (by decide)

end Rexus
