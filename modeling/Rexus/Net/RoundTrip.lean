import Mathlib.Data.Nat.Bitwise
import Rexus.Net.Ipv4Send
import Rexus.Net.ReassemblyRun

/-!
# Fragmentation and reassembly

What `ipv4_fragment_packet` has sent is handed to `ipv4_reassemble_packet`, each fragment once and
in any order. A fragment marks the unit of eight bytes it begins in, and the scan asks for a mark in
every unit, so the packet comes back only if no fragment is longer than a unit.

## Main results

* `Gathered.store` — what is in a slot after a fragment more
* `IsCut.scan_iff`, `IsCut.scan_of_missing` — when the scan takes the datagram for complete
* `roundTrip_iff` — when the packet comes back, for every order of the fragments

## Conventions

The fragments are those that the fragmenter has sent, as it has sent them, and they are received in
any order, each once: the list of the receptions is a permutation. Between them nothing else is
received, and at each of them there is memory for the buffer of a slot and for the packet that is
made in the end. No slot collects a datagram with the same identification and addresses before, and
one is free.

To come back is to be returned at the last reception, and at no other, with the header and the data
of the packet. The condition is one on the length of the data and on the MTU: they decide how long a
fragment is, and whether there is more than one.
-/

namespace Rexus

open Bytes Run

/-! ### The pieces of a packet -/

/-- The flags and the offset of a fragment are read as they are written. -/
theorem Ipv4Header.fragment_flags {h : Ipv4Header} {units : UInt16} {more : Bool}
    (hflags : h.flagsOffset = if more then units ||| 0x2000 else units)
    (hunits : units.toNat < 2 ^ 13) : h.fragmentOffset = units ∧ h.moreFragments = more := by
  have hbit : units.toNat.testBit 13 = false := Nat.testBit_lt_two_pow hunits
  have hvalue : h.flagsOffset.toNat = units.toNat + 2 ^ 13 * more.toNat := by
    cases more with
    | false => rw [hflags]; rfl
    | true =>
      have hor := Nat.two_pow_add_eq_or_of_lt hunits 1
      rw [Nat.mul_one, Nat.or_comm] at hor
      rw [hflags, if_pos rfl, UInt16.toNat_or]
      exact hor.symm.trans (Nat.add_comm _ _)
  constructor
  · rw [fragmentOffset, ← UInt16.toNat_inj, UInt16.toNat_and, hvalue]
    show _ &&& 2 ^ 13 - 1 = _
    rw [Nat.and_two_pow_sub_one_eq_mod, Nat.add_mul_mod_self_left, Nat.mod_eq_of_lt hunits]
  · have hmore : (h.flagsOffset &&& 0x2000).toNat = more.toNat * 2 ^ 13 := by
      rw [UInt16.toNat_and, hvalue]
      show _ &&& 2 ^ 13 = _
      rw [Nat.and_two_pow]
      cases more with
      | false => simp [hbit]
      | true => simp [Nat.add_comm _ 8192, Nat.testBit_two_pow_add_eq (i := 13), hbit]
    rw [moreFragments, bne, Bool.not_eq_eq_eq_not, Bool.eq_iff_iff, beq_iff_eq, ← UInt16.toNat_inj,
      hmore]
    cases more <;> simp

/-- The fragment is a piece of the packet, whose data is `n` bytes, cut after every `D` bytes. -/
structure Piece (packet : NetPacket) (n D : ℕ) (f : NetPacket) : Prop where
  same : SameDatagram (ipv4Header packet.bytes) (ipv4Header f.bytes)
  offset_lt : (fragOffset f).toNat < n
  dvd_offset : D ∣ (fragOffset f).toNat
  end_eq : fragEnd f = min n ((fragOffset f).toNat + D)
  totalLength : (ipv4Header f.bytes).totalLength.toNat = 20 + (fragDataLen f).toNat
  length : f.length = 20 + (fragDataLen f).toNat
  more : (ipv4Header f.bytes).moreFragments = decide ((fragOffset f).toNat + D < n)
  data : ∀ p, (fragOffset f).toNat ≤ p → p < fragEnd f → fragByte f p = packet.bytes (20 + p)

/-- The fragments are the pieces of the packet, in some order: each is one, no two have one offset,
and every offset that is a multiple of the unit is there. -/
structure IsCut (packet : NetPacket) (n D : ℕ) (fs : List NetPacket) : Prop where
  piece : ∀ f ∈ fs, Piece packet n D f
  nodup : (fs.map fun f => (fragOffset f).toNat).Nodup
  cover : ∀ i, i * D < n → ∃ f ∈ fs, (fragOffset f).toNat = i * D

section

variable {packet f : NetPacket} {n D : ℕ} {fs : List NetPacket}

/-- A fragment that has been sent is a piece of the packet. -/
theorem FragmentsOf.piece_of_getElem? (h : FragmentsOf packet n D fs) (hdvd : 8 ∣ D)
    (hD : 0 < D) (hn : n ≤ 1498) {i : ℕ} (hf : fs[i]? = some f) :
    (fragOffset f).toNat = i * D ∧ Piece packet n D f := by
  have hi : i < Pieces.count n D := by
    rw [← h.length]
    exact (List.getElem?_eq_some_iff.mp hf).1
  have hstart := Pieces.start_lt hi
  obtain ⟨hlength, ⟨checksum, hheader⟩, -, hdata⟩ := h.piece i f hf
  have hsize : Pieces.size n D i = min D (n - i * D) := rfl
  have hunits : (UInt16.ofNat (i * D) / 8).toNat = i * D / 8 := by
    rw [UInt16.toNat_div, UInt16.toNat_ofNat', Nat.mod_eq_of_lt (by omega)]
    rfl
  have hflags := Ipv4Header.fragment_flags (congrArg Ipv4Header.flagsOffset hheader)
    (by rw [hunits]; omega)
  have hoffset : (fragOffset f).toNat = i * D := by
    rw [fragOffset_toNat, hflags.1, hunits]
    exact Nat.mul_div_cancel' (Dvd.dvd.mul_left hdvd i)
  have htotal : (ipv4Header f.bytes).totalLength.toNat = 20 + Pieces.size n D i := by
    rw [hheader]
    show (UInt16.ofNat (20 + Pieces.size n D i)).toNat = _
    rw [UInt16.toNat_ofNat', Nat.mod_eq_of_lt (by omega)]
  have hdataLen : (fragDataLen f).toNat = Pieces.size n D i := by
    rw [fragDataLen_toNat, htotal]
    omega
  have hend : fragEnd f = min n ((fragOffset f).toNat + D) := by
    rw [fragEnd, hoffset, hdataLen]
    omega
  refine ⟨hoffset, ?_, by omega, ⟨i, by rw [hoffset, Nat.mul_comm]⟩, hend,
    by rw [htotal, hdataLen], by rw [hlength, hdataLen], ?_, fun p hp hp' => ?_⟩
  · rw [hheader]
    exact ⟨rfl, rfl, rfl, rfl⟩
  · rw [hflags.2, hoffset]
    refine decide_eq_decide.mpr ⟨fun hlt => Pieces.end_le (Nat.add_lt_of_lt_sub hlt), fun hlt => ?_⟩
    have hle := Pieces.le_count_mul n hD
    by_contra hlast
    have hcount : Pieces.count n D = i + 1 := by omega
    rw [hcount, Nat.succ_mul] at hle
    omega
  · rw [fragEnd, hdataLen] at hp'
    have hbyte := slice_inj hdata (show p - i * D < Pieces.size n D i by omega)
    rw [fragByte, hoffset, hbyte]
    congr 1
    omega

/-- What has been sent is a cut of the packet. -/
theorem FragmentsOf.isCut (h : FragmentsOf packet n D fs) (hdvd : 8 ∣ D) (hD : 0 < D)
    (hn : n ≤ 1498) : IsCut packet n D fs where
  piece f hf := by
    obtain ⟨i, hi⟩ := List.mem_iff_getElem?.mp hf
    exact (h.piece_of_getElem? hdvd hD hn hi).2
  nodup := by
    refine List.nodup_iff_injective_getElem.mpr fun ⟨i, hi⟩ ⟨j, hj⟩ hij => ?_
    rw [List.length_map] at hi hj
    simp only [List.getElem_map] at hij
    rw [(h.piece_of_getElem? hdvd hD hn (List.getElem?_eq_getElem hi)).1,
      (h.piece_of_getElem? hdvd hD hn (List.getElem?_eq_getElem hj)).1] at hij
    exact Fin.ext (Nat.eq_of_mul_eq_mul_right hD hij)
  cover i hi := by
    have hlt : i < fs.length := by
      rw [h.length]
      by_contra hge
      have hle := Nat.mul_le_mul_right D (Nat.le_of_not_lt hge)
      have hcount := Pieces.le_count_mul n hD
      omega
    exact ⟨fs[i], List.getElem_mem hlt,
      (h.piece_of_getElem? hdvd hD hn (List.getElem?_eq_getElem hlt)).1⟩

/-- The order does not matter. -/
theorem IsCut.perm {gs : List NetPacket} (h : IsCut packet n D fs) (hperm : gs.Perm fs) :
    IsCut packet n D gs where
  piece f hf := h.piece f (hperm.mem_iff.mp hf)
  nodup := (hperm.map _).nodup_iff.mpr h.nodup
  cover i hi := by
    obtain ⟨f, hf, hoffset⟩ := h.cover i hi
    exact ⟨f, hperm.mem_iff.mpr hf, hoffset⟩

end

/-! ### What is in a slot -/

/-- The slot collects the datagram of the packet, and has stored the fragments `ps`. -/
structure Gathered (packet : NetPacket) (n : ℕ) (ps : List NetPacket) (slot : ReassemblySlot) :
    Prop where
  has : slot.has (ipv4Header packet.bytes) = true
  /-- The units that fragments begin in are marked, -/
  mark : ∀ k, slot.fragments k = true ↔ ∃ f ∈ ps, (fragOffset f).toNat / 8 = k
  /-- their bytes are in the buffer, -/
  bytes : ∀ f ∈ ps, ∀ p, (fragOffset f).toNat ≤ p → p < fragEnd f →
    slot.bytes p = packet.bytes (20 + p)
  /-- and the end is known when the last fragment has been stored. -/
  known : (∃ f ∈ ps, (ipv4Header f.bytes).moreFragments = false) → slot.totalLength.toNat = n
  unknown : (∀ f ∈ ps, (ipv4Header f.bytes).moreFragments = true) → slot.totalLength = 0

/-- The key of a slot is the same for all headers of a datagram. -/
theorem ReassemblySlot.has_congr (slot : ReassemblySlot) {h h' : Ipv4Header}
    (hsame : SameDatagram h h') : slot.has h = slot.has h' := by
  rw [has, has, hsame.srcAddr, hsame.destAddr, hsame.id]

section

variable {packet f : NetPacket} {n D : ℕ} {ps : List NetPacket} {slot : ReassemblySlot}

theorem Gathered.new {h : Ipv4Header} (hsame : SameDatagram (ipv4Header packet.bytes) h) {data : ℕ}
    (hdata : data ≠ 0) (junk : ℕ → UInt8) : Gathered packet n [] (newSlot h data junk) where
  has := ReassemblySlot.has_iff.mpr
    ⟨hdata, hsame.id.symm, hsame.srcAddr.symm, hsame.destAddr.symm⟩
  mark k := by simp [newSlot]
  bytes f hf := nomatch hf
  known h := by simp at h
  unknown _ := rfl

/-- **A fragment more.** -/
theorem Gathered.store (h : Gathered packet n ps slot) (hf : Piece packet n D f)
    (hn : n ≤ 1498) : Gathered packet n (ps ++ [f]) (slot.store f) where
  has := h.has
  mark k := by
    rcases eq_or_ne k ((fragOffset f).toNat / 8) with rfl | hk
    · simp [ReassemblySlot.store]
    · simp [ReassemblySlot.store, Function.update_of_ne hk, h.mark, hk.symm, or_and_right,
        exists_or]
  bytes g hg p hp hp' := by
    by_cases hnew : (fragOffset f).toNat ≤ p ∧ p < fragEnd f
    · have hwritten : (slot.store f).bytes p = fragByte f p := blit_of_mem hnew.1 hnew.2
      rw [hwritten, hf.data p hnew.1 hnew.2]
    · have hold : (slot.store f).bytes p = slot.bytes p := by
        rw [not_and_or, Nat.not_le, Nat.not_lt] at hnew
        rcases hnew with hlt | hge
        · exact blit_of_lt hlt
        · exact blit_of_ge hge
      rw [hold]
      rcases List.mem_append.mp hg with hg | hg
      · exact h.bytes g hg p hp hp'
      · obtain rfl := List.mem_singleton.mp hg
        exact absurd ⟨hp, hp'⟩ hnew
  known hlast := by
    have hend := hf.end_eq
    rw [fragEnd] at hend
    have hmore := hf.more
    cases hf' : (ipv4Header f.bytes).moreFragments with
    | false =>
      rw [hf', eq_comm, decide_eq_false_iff_not] at hmore
      simp only [ReassemblySlot.store, hf', Bool.false_eq_true, if_false, UInt16.toNat_add]
      omega
    | true =>
      simp only [ReassemblySlot.store, hf', if_true]
      refine h.known ?_
      obtain ⟨g, hg, hg'⟩ := hlast
      rcases List.mem_append.mp hg with hg | hg
      · exact ⟨g, hg, hg'⟩
      · rw [List.mem_singleton.mp hg, hf'] at hg'
        cases hg'
  unknown hall := by
    have hf' := hall f (by simp)
    simp only [ReassemblySlot.store, hf', if_true]
    exact h.unknown fun g hg => hall g (List.mem_append_left _ hg)

/-- When the scan finds a slot complete. -/
theorem Gathered.scan_iff (h : Gathered packet n ps slot) (hn : 0 < n) : slot.scan.2 = true ↔
    (∃ f ∈ ps, (ipv4Header f.bytes).moreFragments = false) ∧
      ∀ k < (n + 7) / 8, ∃ f ∈ ps, (fragOffset f).toNat / 8 = k := by
  by_cases hlast : ∃ f ∈ ps, (ipv4Header f.bytes).moreFragments = false
  · have htotal := h.known hlast
    have h0 : slot.totalLength ≠ 0 := by
      intro h0
      rw [h0] at htotal
      simp at htotal
      omega
    rw [ReassemblySlot.scan, if_neg h0, completionScan_complete, htotal]
    simp [hlast, h.mark]
  · have hmore : ∀ f ∈ ps, (ipv4Header f.bytes).moreFragments = true := by
      intro f hf
      by_contra hf'
      exact hlast ⟨f, hf, by simpa using hf'⟩
    rw [ReassemblySlot.scan, if_pos (h.unknown hmore)]
    simp [hlast]

/-- There is a last fragment. -/
theorem IsCut.last (hcut : IsCut packet n D ps) (hD : 0 < D) (hn : 0 < n) :
    ∃ f ∈ ps, (ipv4Header f.bytes).moreFragments = false := by
  have hi : (n - 1) / D * D ≤ n - 1 := Nat.div_mul_le_self _ _
  have hnext := Nat.lt_div_mul_add (a := n - 1) hD
  obtain ⟨f, hf, hoffset⟩ := hcut.cover ((n - 1) / D) (by omega)
  refine ⟨f, hf, ?_⟩
  rw [(hcut.piece f hf).more, decide_eq_false_iff_not, hoffset]
  omega

/-- Every byte is in a fragment. -/
theorem IsCut.covers (hcut : IsCut packet n D ps) (hD : 0 < D) {p : ℕ} (hp : p < n) :
    ∃ f ∈ ps, (fragOffset f).toNat ≤ p ∧ p < fragEnd f := by
  have hi : p / D * D ≤ p := Nat.div_mul_le_self _ _
  have hnext := Nat.lt_div_mul_add (a := p) hD
  obtain ⟨f, hf, hoffset⟩ := hcut.cover (p / D) (by omega)
  refine ⟨f, hf, by omega, ?_⟩
  rw [(hcut.piece f hf).end_eq]
  omega

/-- The scan is content with all fragments if there is one, of a unit, or if each is of a unit. -/
theorem IsCut.scan_iff (hcut : IsCut packet n D ps) (h : Gathered packet n ps slot)
    (hdvd : 8 ∣ D) (hD : 0 < D) (hn : 0 < n) : slot.scan.2 = true ↔ n ≤ 8 ∨ D = 8 := by
  rw [h.scan_iff hn]
  obtain ⟨m, rfl⟩ := hdvd
  constructor
  · rintro ⟨-, hmarks⟩
    by_contra hcon
    rw [not_or] at hcon
    obtain ⟨f, hf, hunit⟩ := hmarks 1 (by omega)
    obtain ⟨i, hi⟩ := (hcut.piece f hf).dvd_offset
    rcases Nat.eq_zero_or_pos i with rfl | hpos
    · omega
    · have hle := Nat.le_mul_of_pos_right (8 * m) hpos
      omega
  · intro hunit
    refine ⟨hcut.last hD hn, fun k hk => ?_⟩
    rcases hunit with hone | hm
    · obtain ⟨f, hf, hoffset⟩ := hcut.cover 0 (by omega)
      exact ⟨f, hf, by omega⟩
    · obtain ⟨f, hf, hoffset⟩ := hcut.cover k (by rw [hm]; omega)
      exact ⟨f, hf, by rw [hoffset, hm]; omega⟩

/-- While a fragment is missing, its unit is. -/
theorem IsCut.scan_of_missing {g : NetPacket} {post : List NetPacket}
    (hcut : IsCut packet n D (ps ++ g :: post)) (h : Gathered packet n ps slot) (hdvd : 8 ∣ D)
    (hn : 0 < n) : slot.scan.2 = false := by
  rw [← Bool.not_eq_true, h.scan_iff hn]
  rintro ⟨-, hmarks⟩
  have hg := hcut.piece g (by simp)
  have hlt := hg.offset_lt
  obtain ⟨f, hf, hunit⟩ := hmarks ((fragOffset g).toNat / 8) (by omega)
  have hf8 := Nat.dvd_trans hdvd (hcut.piece f (List.mem_append_left _ hf)).dvd_offset
  have hg8 := Nat.dvd_trans hdvd hg.dvd_offset
  have hnodup := hcut.nodup
  rw [List.map_append, List.nodup_append] at hnodup
  refine hnodup.2.2 (fragOffset f).toNat (List.mem_map.mpr ⟨f, hf, rfl⟩) (fragOffset g).toNat
    (by simp) ?_
  omega

end

/-! ### A call -/

/-- There is memory for the buffer of a slot and for a packet of `20 + n` bytes, also for the one
after the other. -/
structure EnoughMemory (pmm : Pmm) (n : ℕ) : Prop where
  slot : (pmmAllocBlocks pmm reassemblyBlocks).1 ≠ 0
  packet : ∀ junk, ∃ packet, (netAllocPacket pmm junk (20 + n)).1 = some packet
  both : ∀ junk, ∃ packet,
    (netAllocPacket (pmmAllocBlocks pmm reassemblyBlocks).2 junk (20 + n)).1 = some packet

/-- No slot collects the datagram, and one is free: the state in which the first fragment of a
datagram finds the table when it is received. -/
structure FreeSlot (s : ℕ → ReassemblySlot) (h : Ipv4Header) : Prop where
  none : ∀ i < 64, (s i).has h = false
  free : ∃ i < 64, (s i).data = 0

/-- The slots when the fragments `ps` of the packet have been stored, and none else since `s₀`. -/
def Gathering (packet : NetPacket) (n : ℕ) (s₀ : ℕ → ReassemblySlot) (ps : List NetPacket)
    (s : ℕ → ReassemblySlot) : Prop :=
  ps = [] ∧ s = s₀ ∨ ∃ i < 64, Gathered packet n ps (s i) ∧ ∀ j, j ≠ i → s j = s₀ j

/-- What is to be returned in the end: a packet with the payload of the one that was cut, for the
same datagram, and no longer marked as a fragment. -/
structure Restored (packet : NetPacket) (n : ℕ) (p : NetPacket) : Prop where
  length : p.length = 20 + n
  payload : slice p.bytes 20 n = slice packet.bytes 20 n
  same : SameDatagram (ipv4Header packet.bytes) (ipv4Header p.bytes)
  flagsOffset : (ipv4Header p.bytes).flagsOffset = 0

section

variable {packet : NetPacket} {n D : ℕ} {ps : List NetPacket} {s₀ s : ℕ → ReassemblySlot}
  {op : FragmentOp}

/-- The slot that the next fragment gets. -/
theorem Gathering.slot (h : Gathering packet n s₀ ps s)
    (hfree : FreeSlot s₀ (ipv4Header packet.bytes))
    (hf : Piece packet n D op.fragment) (hmem : EnoughMemory op.pmm n) :
    ∃ i < 64, ∃ pmm s', reassemblySlot op.pmm s op.junk op.header = (some i, pmm, s') ∧
      Gathered packet n ps (s' i) ∧ (∀ j, j ≠ i → s' j = s₀ j) ∧
      ∀ junk, ∃ p, (netAllocPacket pmm junk (20 + n)).1 = some p := by
  have hhas : ∀ slot : ReassemblySlot, slot.has op.header = slot.has (ipv4Header packet.bytes) :=
    fun slot => (slot.has_congr hf.same).symm
  rcases h with ⟨rfl, rfl⟩ | ⟨i, hi, hgathered, hother⟩
  · obtain ⟨i, hi, hnew⟩ := reassemblySlot_new op.junk
      (fun j hj => (hhas (s j)).trans (hfree.none j hj)) hfree.free hmem.slot
    refine ⟨i, hi, _, _, hnew, ?_, fun j hj => Function.update_of_ne hj .., hmem.both⟩
    rw [Function.update_self]
    exact Gathered.new hf.same hmem.slot op.junk
  · refine ⟨i, hi, _, _, reassemblySlot_found hi ?_ fun j hj hji => ?_, hgathered, hother,
      hmem.packet⟩
    · rw [hhas, hgathered.has]
    · rw [hhas, hother j hji, hfree.none j hj]

/-- A fragment after which the datagram is not complete. -/
theorem Gathering.incomplete (h : Gathering packet n s₀ ps s)
    (hfree : FreeSlot s₀ (ipv4Header packet.bytes)) (hf : Piece packet n D op.fragment)
    (hmem : EnoughMemory op.pmm n) (hn : n ≤ 1498)
    (hscan : ∀ slot, Gathered packet n (ps ++ [op.fragment]) slot → slot.scan.2 = false) :
    (op.run s).packet = none ∧
      Gathering packet n s₀ (ps ++ [op.fragment]) (op.run s).slots := by
  obtain ⟨i, hi, pmm, s', hslot, hgathered, hother, -⟩ := h.slot hfree hf hmem
  have hstore := hgathered.store hf hn
  have hrun : op.run s = ⟨none, pmm, Function.update s' i ((s' i).store op.fragment),
      some (reassemblyAccess op.fragment ((s' i).store op.fragment).scan.1)⟩ := by
    rw [FragmentOp.header] at hslot
    simp [FragmentOp.run, ipv4ReassemblePacket, hslot, hscan _ hstore]
  rw [hrun]
  refine ⟨rfl, Or.inr ⟨i, hi, ?_, fun j hj => ?_⟩⟩
  · show Gathered packet n _ (Function.update s' i _ i)
    rw [Function.update_self]
    exact hstore
  · show Function.update s' i _ j = _
    rw [Function.update_of_ne hj, hother j hj]

/-- A fragment after which it is. -/
theorem Gathering.complete (h : Gathering packet n s₀ ps s)
    (hfree : FreeSlot s₀ (ipv4Header packet.bytes)) (hf : Piece packet n D op.fragment)
    (hmem : EnoughMemory op.pmm n) (hn : n ≤ 1498)
    (hscan : ∀ slot, Gathered packet n (ps ++ [op.fragment]) slot → slot.scan.2 = true)
    (hcut : IsCut packet n D (ps ++ [op.fragment])) (hD : 0 < D) (hpos : 0 < n) :
    ∃ p, (op.run s).packet = some p ∧ Restored packet n p := by
  obtain ⟨i, hi, pmm, s', hslot, hgathered, hother, halloc⟩ := h.slot hfree hf hmem
  have hstore := hgathered.store hf hn
  have htotal := hstore.known (hcut.last hD hpos)
  obtain ⟨q, pmm', hq, hlength⟩ : ∃ q pmm', netAllocPacket pmm op.junkPacket (20 + n) =
      (some q, pmm') ∧ q.length = 20 + n := by
    obtain ⟨q, hq⟩ := halloc op.junkPacket
    rcases netAllocPacket_cases pmm op.junkPacket (20 + n) with
      ⟨t, hnone⟩ | ⟨addr, data, t, -, hsome⟩
    · rw [hnone] at hq
      cases hq
    · exact ⟨_, t, hsome, rfl⟩
  have hrun : (op.run s).packet =
      some (((s' i).store op.fragment).complete op.fragment q) := by
    rw [FragmentOp.header] at hslot
    simp only [FragmentOp.run, ipv4ReassemblePacket, hslot, hscan _ hstore, if_true, htotal, hq]
  refine ⟨_, hrun, hlength, slice_congr fun p hp => ?_, ?_, ?_⟩
  · obtain ⟨f, hf, hp', hp''⟩ := hcut.covers hD hp
    rw [ReassemblySlot.complete_bytes (by omega), hstore.bytes f hf p hp' hp'']
  · obtain ⟨checksum, hheader⟩ :=
      ((s' i).store op.fragment).complete_header op.fragment q
    rw [hheader]
    exact ⟨hf.same.srcAddr, hf.same.destAddr, hf.same.id, hf.same.protocol⟩
  · obtain ⟨checksum, hheader⟩ :=
      ((s' i).store op.fragment).complete_header op.fragment q
    rw [hheader]

/-- A fragment that begins in the first 512 bytes of no more is handled within the bounds. -/
theorem Gathering.fits (h : Gathering packet n s₀ ps s)
    (hfree : FreeSlot s₀ (ipv4Header packet.bytes)) (hf : Piece packet n D op.fragment)
    (hmem : EnoughMemory op.pmm n) (hn : n ≤ 512) : op.Fits s := by
  obtain ⟨i, hi, pmm, s', hslot, hgathered, -, -⟩ := h.slot hfree hf hmem
  have hstore := hgathered.store hf (by omega)
  have hoffset := fragOffset_toNat op.fragment
  have hlt := hf.offset_lt
  have hend := hf.end_eq
  have htotal := hf.totalLength
  rw [fragEnd] at hend
  intro j pmm' s'' hslot'
  obtain ⟨hij, -, rfl⟩ : i = j ∧ pmm = pmm' ∧ s' = s'' := by simpa [hslot] using hslot'
  obtain rfl := hij
  refine ⟨?_, Or.inl ⟨?_, ?_, ?_⟩, fun hknown => ?_⟩
  · rw [FragmentOp.header]
    omega
  · rw [FragmentOp.header]
    omega
  · rw [FragmentOp.header, htotal, hf.length]
  · rw [FragmentOp.header]
    omega
  · rw [FragmentOp.header, ← store_totalLength_toNat] at hknown
    by_cases hlast : ∃ f ∈ ps ++ [op.fragment], (ipv4Header f.bytes).moreFragments = false
    · have hle := hstore.known hlast
      omega
    · have hzero := hstore.unknown fun f hf => by
        by_contra hmore
        exact hlast ⟨f, hf, by simpa using hmore⟩
      rw [hzero] at hknown
      cases hknown

/-- And no other is. -/
theorem Gathering.offset_lt (h : Gathering packet n s₀ ps s)
    (hfree : FreeSlot s₀ (ipv4Header packet.bytes)) (hf : Piece packet n D op.fragment)
    (hmem : EnoughMemory op.pmm n) (hfits : op.Fits s) : (fragOffset op.fragment).toNat < 512 := by
  obtain ⟨i, hi, pmm, s', hslot, -⟩ := h.slot hfree hf hmem
  have hlt := (hfits i pmm s' hslot).offset
  rw [FragmentOp.header] at hlt
  rw [fragOffset_toNat]
  omega

end

/-! ### All fragments of a packet -/

/-- The slots after some fragments. -/
def slotsAfter (s : ℕ → ReassemblySlot) (ops : List FragmentOp) : ℕ → ReassemblySlot :=
  ops.foldl (fun s op => (op.run s).slots) s

/-- Every call stays within the bounds, and all return nothing but the last, which returns the
packet. -/
def RoundTrip (packet : NetPacket) (n : ℕ) (s : ℕ → ReassemblySlot) (ops : List FragmentOp) :
    Prop :=
  ∀ pre op post, ops = pre ++ op :: post →
    (∀ a, (op.run (slotsAfter s pre)).access = some a → ReassemblyInBounds op.fragment a) ∧
    (post ≠ [] → (op.run (slotsAfter s pre)).packet = none) ∧
    (post = [] → ∃ p, (op.run (slotsAfter s pre)).packet = some p ∧ Restored packet n p)

section

variable {packet : NetPacket} {n D : ℕ} {s : ℕ → ReassemblySlot} {ops : List FragmentOp}

/-- What is in the slots while fragments are missing. -/
theorem gathering_slotsAfter {pre post : List FragmentOp} {op : FragmentOp}
    (hcut : IsCut packet n D (ops.map fun op => op.fragment)) (hops : ops = pre ++ op :: post)
    (hfree : FreeSlot s (ipv4Header packet.bytes)) (hmem : ∀ op ∈ ops, EnoughMemory op.pmm n)
    (hdvd : 8 ∣ D) (hpos : 0 < n) (hn : n ≤ 1498) :
    Gathering packet n s (pre.map fun op => op.fragment) (slotsAfter s pre) := by
  induction pre using List.reverseRecOn generalizing op post with
  | nil => exact Or.inl ⟨rfl, rfl⟩
  | append_singleton pre q ih =>
    rw [List.append_assoc, List.singleton_append] at hops
    have hq : q ∈ ops := by simp [hops]
    have hpiece : Piece packet n D q.fragment := hcut.piece _ (List.mem_map.mpr ⟨q, hq, rfl⟩)
    rw [slotsAfter, List.foldl_append, List.map_append]
    refine ((ih hops).incomplete hfree hpiece (hmem q hq) hn fun slot hslot => ?_).2
    have hcut' : IsCut packet n D ((pre.map fun op => op.fragment) ++ [q.fragment] ++
        op.fragment :: post.map fun op => op.fragment) := by simpa [hops] using hcut
    exact hcut'.scan_of_missing hslot hdvd hpos

/-- When the pieces of a packet, in any order, make up the packet again. -/
theorem IsCut.returns_iff (hcut : IsCut packet n D (ops.map fun op => op.fragment))
    (hfree : FreeSlot s (ipv4Header packet.bytes)) (hmem : ∀ op ∈ ops, EnoughMemory op.pmm n)
    (hdvd : 8 ∣ D) (hD : 0 < D) (hpos : 0 < n) (hn : n ≤ 1498) :
    RoundTrip packet n s ops ↔ n ≤ 8 ∨ D = 8 ∧ n ≤ 512 := by
  have hpiece : ∀ op ∈ ops, Piece packet n D op.fragment :=
    fun op hop => hcut.piece _ (List.mem_map.mpr ⟨op, hop, rfl⟩)
  have hbefore : ∀ pre op post, ops = pre ++ op :: post →
      Gathering packet n s (pre.map fun op => op.fragment) (slotsAfter s pre) :=
    fun pre op post hops => gathering_slotsAfter hcut hops hfree hmem hdvd hpos hn
  constructor
  · intro hround
    have hone : n ≤ 8 ∨ D = 8 := by
      by_contra hcon
      rcases List.eq_nil_or_concat' ops with hnil | ⟨pre, op, hops⟩
      · obtain ⟨f, hf, -⟩ := hcut.cover 0 (by omega)
        rw [hnil] at hf
        cases hf
      · have hop : op ∈ ops := by simp [hops]
        have hall : (pre.map fun op => op.fragment) ++ [op.fragment] =
            ops.map fun op => op.fragment := by simp [hops]
        obtain ⟨p, hp, -⟩ := (hround pre op [] hops).2.2 rfl
        have hnone := ((hbefore pre op [] hops).incomplete hfree (hpiece op hop) (hmem op hop) hn
          fun slot hslot => ?_).1
        · rw [hnone] at hp
          cases hp
        · rw [hall] at hslot
          rw [← Bool.not_eq_true, hcut.scan_iff hslot hdvd hD hpos]
          exact hcon
    refine hone.imp_right fun h8 => ⟨h8, ?_⟩
    by_contra hlong
    obtain ⟨f, hf, hoffset⟩ := hcut.cover 64 (by omega)
    obtain ⟨op, hop, rfl⟩ := List.mem_map.mp hf
    obtain ⟨pre, post, hops⟩ := List.append_of_mem hop
    have hlt := (hbefore pre op post hops).offset_lt hfree (hpiece op hop) (hmem op hop)
      ((op.inBounds_iff _).mp (hround pre op post hops).1)
    omega
  · rintro hone pre op post hops
    have hop : op ∈ ops := by simp [hops]
    have hgathering := hbefore pre op post hops
    refine ⟨(op.inBounds_iff _).mpr (hgathering.fits hfree (hpiece op hop) (hmem op hop)
      (by omega)), fun hpost => ?_, fun hpost => ?_⟩
    · obtain ⟨q, post, rfl⟩ := List.exists_cons_of_ne_nil hpost
      refine (hgathering.incomplete hfree (hpiece op hop) (hmem op hop) hn
        fun slot hslot => ?_).1
      have hcut' : IsCut packet n D ((pre.map fun op => op.fragment) ++ [op.fragment] ++
          q.fragment :: post.map fun op => op.fragment) := by simpa [hops] using hcut
      exact hcut'.scan_of_missing hslot hdvd hpos
    · have hall : (pre.map fun op => op.fragment) ++ [op.fragment] =
          ops.map fun op => op.fragment := by simp [hops, hpost]
      rw [← hall] at hcut
      refine hgathering.complete hfree (hpiece op hop) (hmem op hop) hn (fun slot hslot => ?_)
        hcut hD hpos
      exact (hcut.scan_iff hslot hdvd hD hpos).mpr (by omega)

/-- What has been sent is a cut of the packet, at the size that the MTU allows. -/
theorem isCut_of_sent {driver : Driver} {junk : ℕ → NetPacket} {t t' : Transmit} {mtu : UInt16}
    {fs : List NetPacket} (hlength : packet.length = 20 + n) (hn : n ≤ 1498)
    (hmtu : 28 ≤ mtu.toNat)
    (hfragment : ipv4FragmentPacket driver junk t packet mtu = some (true, t'))
    (hsent : t'.sent = t.sent ++ fs.map fun f => (packet.iface, f)) :
    IsCut packet n ((mtu.toNat - 20) / 8 * 8) fs := by
  obtain ⟨-, -, gs, hsent', hgs⟩ := ipv4FragmentPacket_sent hfragment
  have hfs : gs = fs := by
    rw [hsent, List.append_cancel_left_eq] at hsent'
    exact (List.map_injective_iff.mpr (Prod.mk_right_injective packet.iface) hsent').symm
  have hmax : (fragMaxData mtu).toNat = (mtu.toNat - 20) / 8 * 8 := by
    have hlt := mtu.toNat_lt
    rw [fragMaxData_toNat]
    omega
  rw [hfs, hlength, fragPayload_toNat, show (20 + n + 65516) % 2 ^ 16 = n by omega, hmax] at hgs
  exact hgs.isCut (Nat.dvd_mul_left 8 _) (by omega) hn

end

/-- **When the packet comes back**, for every order in which its fragments are received: it is one
fragment of a unit, or it is cut into units, of which there are marks for 512 bytes. -/
theorem roundTrip_iff {driver : Driver} {junk : ℕ → NetPacket} {t t' : Transmit}
    {packet : NetPacket} {mtu : UInt16} {n : ℕ} {fs : List NetPacket} {s : ℕ → ReassemblySlot}
    {ops : List FragmentOp} (hlength : packet.length = 20 + n) (hpos : 1 ≤ n) (hn : n ≤ 1498)
    (hmtu : 28 ≤ mtu.toNat)
    (hfragment : ipv4FragmentPacket driver junk t packet mtu = some (true, t'))
    (hsent : t'.sent = t.sent ++ fs.map fun f => (packet.iface, f))
    (horder : (ops.map fun op => op.fragment).Perm fs)
    (hfree : FreeSlot s (ipv4Header packet.bytes))
    (hmem : ∀ op ∈ ops, EnoughMemory op.pmm n) :
    RoundTrip packet n s ops ↔ n ≤ 8 ∨ mtu.toNat < 36 ∧ n ≤ 512 := by
  have hcut := (isCut_of_sent hlength hn hmtu hfragment hsent).perm horder
  rw [hcut.returns_iff hfree hmem (Nat.dvd_mul_left 8 _) (by omega) hpos hn]
  omega

/-! ### A packet with sixteen bytes of data -/

theorem enoughMemory_thirtyTwo : EnoughMemory pmmThirtyTwo 16 where
  slot := by decide +kernel
  packet junk := by
    obtain ⟨packet, pmm, h⟩ : ∃ packet pmm,
        netAllocPacket pmmThirtyTwo junk (20 + 16) = (some packet, pmm) :=
      netAllocPacket_eq_some (by decide) (by decide +kernel) (by decide +kernel) junk
    exact ⟨packet, congrArg Prod.fst h⟩
  both junk := by
    obtain ⟨packet, pmm, h⟩ : ∃ packet pmm,
        netAllocPacket (pmmAllocBlocks pmmThirtyTwo reassemblyBlocks).2 junk (20 + 16) =
          (some packet, pmm) :=
      netAllocPacket_eq_some (by decide) (by decide +kernel) (by decide +kernel) junk
    exact ⟨packet, congrArg Prod.fst h⟩

/-- Fragments that are received when there is memory. -/
def receiveAll (fs : List NetPacket) : List FragmentOp :=
  fs.map fun f => ⟨4096, f, pmmThirtyTwo, fun _ => 0, fragmentOf 0 0⟩

theorem map_fragment_receiveAll (fs : List NetPacket) :
    (receiveAll fs).map (fun op => op.fragment) = fs := by
  rw [receiveAll, List.map_map]
  exact List.map_id fs

theorem freeSlot_emptySlot (h : Ipv4Header) : FreeSlot (fun _ => emptySlot) h :=
  ⟨fun _ _ => rfl, 0, by decide, rfl⟩

theorem enoughMemory_receiveAll (fs : List NetPacket) :
    ∀ op ∈ receiveAll fs, EnoughMemory op.pmm 16 := by
  intro op hop
  obtain ⟨f, -, rfl⟩ := List.mem_map.mp hop
  exact enoughMemory_thirtyTwo

/-- With an MTU of 1500 the packet is sent as one fragment. -/
theorem fragments_packetOf : ∃ (t' : Transmit) (fs : List NetPacket),
    ipv4FragmentPacket willingDriver (fun _ => packetOf 0) (oneInterface 1500) (packetOf 36) 1500 =
        some (true, t') ∧
      t'.sent = (oneInterface 1500).sent ++ fs.map fun f => ((packetOf 36).iface, f) := by
  obtain ⟨t', ht'⟩ : ∃ t', ipv4FragmentPacket willingDriver (fun _ => packetOf 0)
      (oneInterface 1500) (packetOf 36) 1500 = some (true, t') :=
    ipv4FragmentPacket_willing (by decide) (by decide)
      (fun _ => ⟨⟨by decide, rfl⟩, by decide⟩) rfl
  obtain ⟨-, -, fs, hsent, -⟩ := ipv4FragmentPacket_sent ht'
  exact ⟨t', fs, ht', hsent⟩

/-- What is sent of it comes back exactly if the condition holds of sixteen bytes and this MTU. -/
theorem roundTrip_iff_sixteen : ∃ (t' : Transmit) (fs : List NetPacket),
    ipv4FragmentPacket willingDriver (fun _ => packetOf 0) (oneInterface 1500) (packetOf 36) 1500 =
        some (true, t') ∧
      t'.sent = (oneInterface 1500).sent ++ fs.map (fun f => ((packetOf 36).iface, f)) ∧
      (RoundTrip (packetOf 36) 16 (fun _ => emptySlot) (receiveAll fs) ↔
        16 ≤ 8 ∨ (1500 : UInt16).toNat < 36 ∧ 16 ≤ 512) := by
  obtain ⟨t', fs, hfragment, hsent⟩ := fragments_packetOf
  refine ⟨t', fs, hfragment, hsent, ?_⟩
  exact roundTrip_iff rfl (by decide) (by decide) (by decide) hfragment hsent
    (List.Perm.of_eq (map_fragment_receiveAll fs)) (freeSlot_emptySlot _)
    (enoughMemory_receiveAll fs)

/-- Its second unit is never marked. -/
theorem not_roundTrip_sixteen : ∃ (t' : Transmit) (fs : List NetPacket),
    ipv4FragmentPacket willingDriver (fun _ => packetOf 0) (oneInterface 1500) (packetOf 36) 1500 =
        some (true, t') ∧
      t'.sent = (oneInterface 1500).sent ++ fs.map (fun f => ((packetOf 36).iface, f)) ∧
      ¬ RoundTrip (packetOf 36) 16 (fun _ => emptySlot) (receiveAll fs) := by
  obtain ⟨t', fs, hfragment, hsent⟩ := fragments_packetOf
  refine ⟨t', fs, hfragment, hsent, ?_⟩
  have hcut := isCut_of_sent (n := 16) rfl (by decide) (by decide) hfragment hsent
  rw [← map_fragment_receiveAll fs] at hcut
  rw [hcut.returns_iff (freeSlot_emptySlot _) (enoughMemory_receiveAll fs)
    (Nat.dvd_mul_left 8 _) (by decide) (by decide) (by decide)]
  decide

end Rexus
