import Rexus.Lib.Pieces
import Rexus.Lib.AlignedWord
import Rexus.Net.Ipv4Header
import Rexus.Net.Route

/-!
# Sending fragments

`net_send_packet` of `net/net.c` and `ipv4_fragment_packet` of `net/ipv4.c`. A driver is a function
of the allocator and of all packets that have been handed to the drivers, the last of which it is to
send: it answers whether it has, and may allocate. The fragmenter computes its sizes in sixteen bits
and divides by one of them; `none` is a division by zero.

## Main results

* `fragSizes_iff` — for which sizes nothing wraps and nothing is divided by zero
* `ipv4FragmentPacket_sent` — what has been sent when fragmentation succeeds

## Conventions

Whether a packet is sent is the answer of the driver, and a driver may answer as it likes, with all
that it has been given before as an argument; so a theorem for all drivers covers a device that
fails now and then. It may do anything to the allocator. The packets that are sent are kept as they
were handed over.

A fragment is a packet of its own with memory of its own, which the fragmenter gives back only if
the driver refuses it. What that memory held before is an argument, `junk`, and appears in the
fields that nobody sets. `FragSizes` is the condition under which no size wraps; it is about the MTU
and the length of the packet and about nothing else.
-/

namespace Rexus

open AlignedWord Bytes Loop

/-! ### Handing a packet to a driver -/

/-- The answer of the drivers, and the allocator after it. -/
abbrev Driver := Pmm → List (ℕ × NetPacket) → Bool × Pmm

/-- The routing table with the allocator, the interfaces, the next id, and the packets that have
been handed to the drivers, each with its interface. -/
structure Transmit where
  table : RouteTable
  net : NetState
  ipId : UInt16
  sent : List (ℕ × NetPacket)

/-- The allocator is another. -/
def Transmit.setPmm (t : Transmit) (pmm : Pmm) : Transmit :=
  { t with table := { t.table with pmm } }

/-- `net_send_packet`, of a packet that is there. -/
def netSendPacket (driver : Driver) (t : Transmit) (p : ℕ) (packet : NetPacket) :
    Bool × Transmit :=
  let k := t.net.iface p
  if p = 0 ∨ k.hasSend = false then (false, t)
  else
    let sent := t.sent ++ [(p, packet)]
    let success := (driver t.table.pmm sent).1
    let iface := { k with
      txPackets := k.txPackets + 1
      txBytes := k.txBytes + UInt64.ofNat packet.length
      txErrors := if success then k.txErrors else k.txErrors + 1 }
    (success, { t.setPmm (driver t.table.pmm sent).2 with
      net := { t.net with iface := Function.update t.net.iface p iface }, sent })

/-! ### The fragmenter -/

/-- `max_data`, from the MTU as it is passed. -/
def fragMaxData (mtu : UInt16) : UInt16 := ((mtu.toUInt32 - 20) &&& ~~~7).toUInt16

/-- `data_len`, of a packet of this length. -/
def fragPayload (length : ℕ) : UInt16 := UInt16.ofNat length - 20

/-- The bytes of a fragment: the header of the packet, and `size` bytes of its data. -/
def fragmentBytes (d e : ℕ → UInt8) (offset size : UInt16) (more : Bool) : ℕ → UInt8 :=
  let d := blit d 0 e 0 20
  let d := putLe16 d 6 (if more then offset / 8 ||| 0x2000 else offset / 8)
  let d := blit d 20 e (20 + offset.toNat) size.toNat
  ipv4Seal (putLe16 d 2 (20 + size))

/-- One turn of the loop of `ipv4_fragment_packet`, which ends when a fragment is not sent. -/
def fragmentTurn (driver : Driver) (junk : ℕ → NetPacket) (packet : NetPacket)
    (dataLen maxData : UInt16) (count i : ℕ) (w : Transmit × UInt16) :
    Except Transmit (Transmit × UInt16) :=
  let size := if i = count - 1 then dataLen - w.2 else maxData
  match netAllocPacket w.1.table.pmm (junk i) (20 + size.toNat) with
  | (none, pmm) => .error (w.1.setPmm pmm)
  | (some frag, pmm) =>
    let frag := { frag with
      bytes := fragmentBytes frag.bytes packet.bytes w.2 size (decide (i < count - 1)) }
    match netSendPacket driver (w.1.setPmm pmm) packet.iface frag with
    | (true, t) => .ok (t, w.2 + size)
    | (false, t) => .error (t.setPmm (netFreePacket t.table.pmm frag))

/-- `ipv4_fragment_packet`, given what the memory of the fragments holds. -/
def ipv4FragmentPacket (driver : Driver) (junk : ℕ → NetPacket) (t : Transmit)
    (packet : NetPacket) (mtu : UInt16) : Option (Bool × Transmit) :=
  if (ipv4Header packet.bytes).dontFragment then some (false, t)
  else
    let maxData := fragMaxData mtu
    let dataLen := fragPayload packet.length
    if maxData = 0 then none
    else
      let count := (dataLen.toNat + maxData.toNat - 1) / maxData.toNat
      match tryRange (fragmentTurn driver junk packet dataLen maxData count) count 0 (t, 0) with
      | .ok (t, _) => some (true, t)
      | .error t => some (false, t)

/-! ### The sizes -/

/-- Nothing is divided by zero, and the sizes are what they would be without a bound. -/
structure FragSizes (mtu : UInt32) (length : ℕ) : Prop where
  ne_zero : fragMaxData mtu.toUInt16 ≠ 0
  maxData : ((fragMaxData mtu.toUInt16).toNat : ℤ) = ((mtu.toNat : ℤ) - 20) / 8 * 8
  dataLen : ((fragPayload length).toNat : ℤ) = (length : ℤ) - 20

theorem fragMaxData_toNat (mtu : UInt16) :
    (fragMaxData mtu).toNat = (mtu.toNat + 4294967276) % 2 ^ 32 / 8 * 8 % 2 ^ 16 := by
  have hmask : ((mtu.toUInt32 - 20) &&& ~~~7).toNat = (mtu.toUInt32 - 20).toNat / 8 * 8 :=
    toNat_high (mtu.toUInt32 - 20).toBitVec 3
  have hsub : (mtu.toUInt32 - 20).toNat = (mtu.toNat + 4294967276) % 2 ^ 32 := by
    rw [UInt32.toNat_sub, UInt16.toNat_toUInt32]
    simp only [UInt32.reduceToNat]
    omega
  rw [fragMaxData, UInt32.toNat_toUInt16, hmask, hsub]

theorem fragPayload_toNat (length : ℕ) :
    (fragPayload length).toNat = (length + 65516) % 2 ^ 16 := by
  rw [fragPayload, UInt16.toNat_sub, UInt16.toNat_ofNat']
  simp only [UInt16.reduceToNat]
  omega

theorem fragSizes_iff {mtu : UInt32} {length : ℕ} : FragSizes mtu length ↔
    28 ≤ mtu.toNat ∧ mtu.toNat < 65556 ∧ 20 ≤ length ∧ length < 65556 := by
  have hmtu := mtu.toNat_lt
  constructor
  · rintro ⟨hne, hmax, hlen⟩
    rw [ne_eq, ← UInt16.toNat_inj] at hne
    rw [fragMaxData_toNat, UInt32.toNat_toUInt16] at hmax hne
    rw [fragPayload_toNat] at hlen
    simp only [UInt16.toNat_zero] at hne
    omega
  · rintro ⟨hmin, hmax, hlen, hlen'⟩
    refine ⟨fun h0 => ?_, ?_, ?_⟩
    · have h0 := congrArg UInt16.toNat h0
      rw [fragMaxData_toNat, UInt32.toNat_toUInt16] at h0
      simp only [UInt16.toNat_zero] at h0
      omega
    · rw [fragMaxData_toNat, UInt32.toNat_toUInt16]
      omega
    · rw [fragPayload_toNat]
      omega

/-! ### What is sent -/

/-- The interface has a driver that sends. -/
def CanSend (net : NetState) (p : ℕ) : Prop := p ≠ 0 ∧ (net.iface p).hasSend = true

/-- Sending leaves the routes, and of the interfaces all but the counters. So the loop over the
fragments finds the same route and the same unit in every turn. -/
structure SameStack (t t' : Transmit) : Prop where
  routes : t'.table.routes = t.table.routes
  route : t'.table.route = t.table.route
  mtu : ∀ p, (t'.net.iface p).mtu = (t.net.iface p).mtu
  canSend : ∀ p, CanSend t'.net p ↔ CanSend t.net p

theorem SameStack.refl (t : Transmit) : SameStack t t :=
  ⟨rfl, rfl, fun _ => rfl, fun _ => Iff.rfl⟩

theorem SameStack.setPmm (t : Transmit) (pmm : Pmm) : SameStack t (t.setPmm pmm) :=
  ⟨rfl, rfl, fun _ => rfl, fun _ => Iff.rfl⟩

theorem SameStack.trans {t t' t'' : Transmit} (h : SameStack t t') (h' : SameStack t' t'') :
    SameStack t t'' where
  routes := h'.routes.trans h.routes
  route := h'.route.trans h.route
  mtu p := (h'.mtu p).trans (h.mtu p)
  canSend p := (h'.canSend p).trans (h.canSend p)

section

variable {driver : Driver} {junk : ℕ → NetPacket} {t t' : Transmit} {packet : NetPacket}
  {p i count : ℕ} {mtu dataLen maxData : UInt16}

theorem netSendPacket_cannot (h : ¬ CanSend t.net p) :
    netSendPacket driver t p packet = (false, t) := by
  rw [CanSend, not_and, Bool.not_eq_true] at h
  rw [netSendPacket]
  exact if_pos (or_iff_not_imp_left.mpr h)

/-- A packet is handed to the driver, whatever it answers. -/
theorem netSendPacket_can (driver : Driver) (packet : NetPacket) (h : CanSend t.net p) :
    ∃ t', netSendPacket driver t p packet =
      ((driver t.table.pmm (t.sent ++ [(p, packet)])).1, t') ∧
    t'.sent = t.sent ++ [(p, packet)] ∧ SameStack t t' ∧
    t'.table.pmm = (driver t.table.pmm (t.sent ++ [(p, packet)])).2 := by
  obtain ⟨hp, hsend⟩ := h
  rw [netSendPacket]
  dsimp only
  rw [if_neg (by simp [hp, hsend])]
  refine ⟨_, rfl, rfl, ⟨rfl, rfl, ?_, ?_⟩, rfl⟩
  · intro q
    rcases eq_or_ne q p with rfl | hq
    · simp
    · simp [hq]
  · intro q
    rcases eq_or_ne q p with rfl | hq
    · simp [CanSend]
    · simp [CanSend, hq]

/-- A packet that is sent has been handed to the driver. -/
theorem netSendPacket_true (h : netSendPacket driver t p packet = (true, t')) :
    t'.sent = t.sent ++ [(p, packet)] ∧ SameStack t t' := by
  by_cases hcan : CanSend t.net p
  · obtain ⟨t'', hsend, hsent, hsame, -⟩ := netSendPacket_can driver packet hcan
    rw [hsend, Prod.mk.injEq] at h
    obtain ⟨-, rfl⟩ := h
    exact ⟨hsent, hsame⟩
  · rw [netSendPacket_cannot hcan] at h
    cases h

/-- What a fragment is to be: `size` bytes of the data of the packet, from `offset` on. -/
structure FragmentOf (packet : NetPacket) (offset size : ℕ) (more : Bool) (f : NetPacket) :
    Prop where
  length : f.length = 20 + size
  header : ∃ checksum, ipv4Header f.bytes = { ipv4Header packet.bytes with
    totalLength := UInt16.ofNat (20 + size)
    flagsOffset := if more then UInt16.ofNat offset / 8 ||| 0x2000 else UInt16.ofNat offset / 8
    checksum }
  verify : ipv4Verify f.bytes = true
  data : slice f.bytes 20 size = slice packet.bytes (20 + offset) size

theorem ipv4Header_fragmentBytes (d e : ℕ → UInt8) (offset size : UInt16) (more : Bool) :
    ∃ checksum, ipv4Header (fragmentBytes d e offset size more) = { ipv4Header e with
      totalLength := 20 + size
      flagsOffset := if more then offset / 8 ||| 0x2000 else offset / 8
      checksum } := by
  obtain ⟨checksum, h⟩ := ipv4Header_ipv4Seal (putLe16 (blit (putLe16 (blit d 0 e 0 20) 6
    (if more then offset / 8 ||| 0x2000 else offset / 8)) 20 e (20 + offset.toNat) size.toNat)
    2 (20 + size))
  refine ⟨checksum, ?_⟩
  rw [fragmentBytes, h]
  simp

theorem slice_fragmentBytes (d e : ℕ → UInt8) (offset size : UInt16) (more : Bool) :
    slice (fragmentBytes d e offset size more) 20 size.toNat =
      slice e (20 + offset.toNat) size.toNat := by
  refine slice_congr fun k hk => ?_
  rw [fragmentBytes, ipv4Seal_of_le _ (by omega), putLe16_of_ne _ (by omega) (by omega),
    blit_of_mem (by omega) (by omega), Nat.add_sub_cancel_left]

/-- A turn of the loop that sends a fragment. -/
theorem fragmentTurn_ok {w w' : Transmit × UInt16} {size : UInt16}
    (hsize : (if i = count - 1 then dataLen - w.2 else maxData) = size)
    (h : fragmentTurn driver junk packet dataLen maxData count i w = .ok w') :
    w'.2 = w.2 + size ∧ SameStack w.1 w'.1 ∧ ∃ f, w'.1.sent = w.1.sent ++ [(packet.iface, f)] ∧
      FragmentOf packet w.2.toNat size.toNat (decide (i < count - 1)) f := by
  rw [fragmentTurn, hsize] at h
  dsimp only at h
  rcases netAllocPacket_cases w.1.table.pmm (junk i) (20 + size.toNat) with
    ⟨pmm, halloc⟩ | ⟨addr, data, pmm, -, halloc⟩ <;> rw [halloc] at h
  · cases h
  dsimp only at h
  rcases hsend : netSendPacket driver (w.1.setPmm pmm) packet.iface
    { junk i with
      addr, data, length := 20 + size.toNat, protocol := .none, priority := 0
      bytes := fragmentBytes (junk i).bytes packet.bytes w.2 size (decide (i < count - 1)) } with
    ⟨_ | _, t'⟩ <;> rw [hsend] at h
  · cases h
  · obtain rfl := Except.ok.inj h
    obtain ⟨hsent, hsame⟩ := netSendPacket_true hsend
    refine ⟨rfl, (SameStack.setPmm w.1 pmm).trans hsame, _, hsent, rfl, ?_, ipv4Verify_ipv4Seal _,
      slice_fragmentBytes ..⟩
    obtain ⟨checksum, hheader⟩ := ipv4Header_fragmentBytes (junk i).bytes packet.bytes w.2 size
      (decide (i < count - 1))
    refine ⟨checksum, ?_⟩
    rw [hheader, UInt16.ofNat_toNat, UInt16.ofNat_add, UInt16.ofNat_toNat]
    rfl

/-- The size of a fragment, and the offset of the next. -/
theorem fragmentTurn_size (offset : UInt16) (hi : i < Pieces.count dataLen.toNat maxData.toNat)
    (hoffset : offset.toNat = min dataLen.toNat (i * maxData.toNat)) :
    offset.toNat = i * maxData.toNat ∧
    (if i = Pieces.count dataLen.toNat maxData.toNat - 1 then dataLen - offset
      else maxData).toNat = Pieces.size dataLen.toNat maxData.toNat i ∧
    (offset + if i = Pieces.count dataLen.toNat maxData.toNat - 1 then dataLen - offset
      else maxData).toNat = min dataLen.toNat ((i + 1) * maxData.toNat) := by
  have hstart := Pieces.start_lt hi
  have hoffset' := hoffset
  rw [Nat.min_eq_right (Nat.le_of_lt hstart)] at hoffset'
  have hsub : (dataLen - offset).toNat = dataLen.toNat - offset.toNat :=
    UInt16.toNat_sub_of_le _ _ (UInt16.le_iff_toNat_le.mpr (by omega))
  have hsize : (if i = Pieces.count dataLen.toNat maxData.toNat - 1 then dataLen - offset
      else maxData).toNat = Pieces.size dataLen.toNat maxData.toNat i := by
    rw [← Pieces.size_eq hi, apply_ite UInt16.toNat, hsub, hoffset']
  have hend := Pieces.start_add_size_le (D := maxData.toNat) (Nat.le_of_lt hstart)
  refine ⟨hoffset', hsize, ?_⟩
  rw [UInt16.toNat_add, hsize, hoffset', Nat.mod_eq_of_lt
    (Nat.lt_of_le_of_lt hend dataLen.toNat_lt), ← Pieces.start_add_size,
    Nat.min_eq_right (Nat.le_of_lt hstart)]

/-- The fragments of a packet whose data is `n` bytes, with `D` bytes in each but the last. -/
structure FragmentsOf (packet : NetPacket) (n D : ℕ) (fs : List NetPacket) : Prop where
  length : fs.length = Pieces.count n D
  piece : ∀ i f, fs[i]? = some f →
    FragmentOf packet (i * D) (Pieces.size n D i) (decide (i < Pieces.count n D - 1)) f

/-- The fragments carry the data of the packet. -/
theorem FragmentsOf.payload {n D : ℕ} {fs : List NetPacket} (h : FragmentsOf packet n D fs)
    (hD : 0 < D) :
    fs.flatMap (fun f => slice f.bytes 20 (f.length - 20)) = slice packet.bytes 20 n := by
  have hmap : fs.map (fun f => slice f.bytes 20 (f.length - 20)) =
      (List.range (Pieces.count n D)).map
        (fun i => slice (fun k => packet.bytes (20 + k)) (i * D) (Pieces.size n D i)) := by
    refine List.ext_getElem (by simp [h.length]) fun i hi _ => ?_
    rw [List.length_map] at hi
    have hpiece := h.piece i fs[i] (List.getElem?_eq_getElem hi)
    rw [List.getElem_map, List.getElem_map, List.getElem_range, hpiece.length,
      Nat.add_sub_cancel_left, hpiece.data]
    exact slice_congr fun k _ => by rw [Nat.add_assoc]
  rw [List.flatMap_def, hmap, ← List.flatMap_def, Pieces.flatMap_slice _ n hD]
  exact slice_congr fun k _ => by rw [Nat.zero_add]

/-- After `i` turns: the offset of the next fragment, and those that have been sent. -/
structure FragmentsSent (t : Transmit) (packet : NetPacket) (dataLen maxData : UInt16)
    (fs : List NetPacket) (i : ℕ) (w : Transmit × UInt16) : Prop where
  offset : w.2.toNat = min dataLen.toNat (i * maxData.toNat)
  same : SameStack t w.1
  sent : w.1.sent = t.sent ++ fs.map (fun f => (packet.iface, f))
  length : fs.length = i
  piece : ∀ j f, fs[j]? = some f → FragmentOf packet (j * maxData.toNat)
    (Pieces.size dataLen.toNat maxData.toNat j)
    (decide (j < Pieces.count dataLen.toNat maxData.toNat - 1)) f

/-- A turn sends the next one. -/
theorem FragmentsSent.turn {fs : List NetPacket} {w w' : Transmit × UInt16}
    (h : FragmentsSent t packet dataLen maxData fs i w)
    (hi : i < Pieces.count dataLen.toNat maxData.toNat)
    (hturn : fragmentTurn driver junk packet dataLen maxData
      (Pieces.count dataLen.toNat maxData.toNat) i w = .ok w') :
    ∃ f, FragmentsSent t packet dataLen maxData (fs ++ [f]) (i + 1) w' := by
  obtain ⟨hstart, hsize, hend⟩ := fragmentTurn_size _ hi h.offset
  obtain ⟨hnext, hsame, f, hsent, hf⟩ := fragmentTurn_ok rfl hturn
  rw [hsize, hstart] at hf
  refine ⟨f, by rw [hnext, hend], h.same.trans hsame, ?_, ?_, fun j g hg => ?_⟩
  · rw [hsent, h.sent, List.append_assoc, List.map_append]
    rfl
  · rw [List.length_append, h.length]
    rfl
  · have hlen := h.length
    rcases Nat.lt_trichotomy j fs.length with hlt | heq | hgt
    · rw [List.getElem?_append_left hlt] at hg
      exact h.piece j g hg
    · rw [heq, List.getElem?_concat_length, Option.some_inj] at hg
      rwa [heq, hlen, ← hg]
    · rw [List.getElem?_eq_none (by rw [List.length_append, List.length_singleton]; omega)] at hg
      cases hg

/-- **What has been sent when fragmentation succeeds.** -/
theorem ipv4FragmentPacket_sent
    (h : ipv4FragmentPacket driver junk t packet mtu = some (true, t')) :
    0 < (fragMaxData mtu).toNat ∧ SameStack t t' ∧ ∃ fs,
      t'.sent = t.sent ++ fs.map (fun f => (packet.iface, f)) ∧
      FragmentsOf packet (fragPayload packet.length).toNat (fragMaxData mtu).toNat fs := by
  rw [ipv4FragmentPacket] at h
  split_ifs at h with hdf
  · simp at h
  dsimp only at h
  split_ifs at h with h0
  have hD : 0 < (fragMaxData mtu).toNat := by
    rw [Nat.pos_iff_ne_zero]
    exact fun hzero => h0 (UInt16.toNat_inj.mp hzero)
  generalize hn : fragPayload packet.length = dataLen at h ⊢
  generalize fragMaxData mtu = maxData at h hD ⊢
  have hloop := tryRange_inv
    (fragmentTurn driver junk packet dataLen maxData (Pieces.count dataLen.toNat maxData.toNat))
    (fun i w => ∃ fs, FragmentsSent t packet dataLen maxData fs i w) (fun _ => True)
    (n := Pieces.count dataLen.toNat maxData.toNat) (a := 0) (s := (t, 0))
    ⟨[], by simp, SameStack.refl t, by simp, rfl, by simp⟩ ?_
  · rcases hresult : tryRange (fragmentTurn driver junk packet dataLen maxData
      (Pieces.count dataLen.toNat maxData.toNat)) (Pieces.count dataLen.toNat maxData.toNat) 0
      (t, 0) with w | w
    · rw [Pieces.count] at hresult
      rw [hresult] at h
      cases h
    · rw [hresult, post_ok] at hloop
      rw [Pieces.count] at hresult
      rw [hresult] at h
      obtain rfl : w.1 = t' := by simpa using h
      obtain ⟨fs, hsent⟩ := hloop
      exact ⟨hD, hsent.same, fs, hsent.sent, hsent.length.trans (Nat.zero_add _), hsent.piece⟩
  · rintro i w - hi ⟨fs, hsent⟩
    rcases hturn : fragmentTurn driver junk packet dataLen maxData
      (Pieces.count dataLen.toNat maxData.toNat) i w with t'' | w'
    · trivial
    · obtain ⟨f, hnext⟩ := hsent.turn (by omega) hturn
      exact ⟨fs ++ [f], hnext⟩

/-! ### When fragmentation fails, and when it need not -/

theorem ipv4FragmentPacket_returns (driver : Driver) (junk : ℕ → NetPacket) (t : Transmit)
    (packet : NetPacket) (hmax : fragMaxData mtu ≠ 0) :
    ∃ ok t', ipv4FragmentPacket driver junk t packet mtu = some (ok, t') := by
  by_cases hdf : (ipv4Header packet.bytes).dontFragment = true
  · exact ⟨false, t, if_pos hdf⟩
  · rw [ipv4FragmentPacket, if_neg hdf]
    dsimp only
    rw [if_neg hmax]
    split
    · exact ⟨_, _, rfl⟩
    · exact ⟨_, _, rfl⟩

/-- A first fragment that cannot be allocated, or cannot be sent. -/
theorem ipv4FragmentPacket_fails (hdf : (ipv4Header packet.bytes).dontFragment = false)
    (hmax : fragMaxData mtu ≠ 0) (hlen : 0 < (fragPayload packet.length).toNat)
    (hfails : ¬ CanSend t.net packet.iface ∨
      1498 < min (fragMaxData mtu).toNat (fragPayload packet.length).toNat) :
    ∃ t', ipv4FragmentPacket driver junk t packet mtu = some (false, t') := by
  rw [ipv4FragmentPacket, hdf]
  dsimp only
  rw [if_neg Bool.false_ne_true, if_neg hmax]
  generalize fragPayload packet.length = dataLen at hlen hfails ⊢
  have hD : 0 < (fragMaxData mtu).toNat := by
    rw [Nat.pos_iff_ne_zero]
    exact fun hzero => hmax (UInt16.toNat_inj.mp hzero)
  generalize fragMaxData mtu = maxData at hfails hD ⊢
  have hcount := Pieces.count_pos hlen hD
  obtain ⟨-, hsize, -⟩ := fragmentTurn_size 0 hcount (by simp)
  have hturn : ∃ t', fragmentTurn driver junk packet dataLen maxData
      (Pieces.count dataLen.toNat maxData.toNat) 0 (t, 0) = .error t' := by
    rw [fragmentTurn]
    dsimp only
    rw [hsize]
    rcases netAllocPacket_cases t.table.pmm (junk 0)
        (20 + Pieces.size dataLen.toNat maxData.toNat 0) with
      ⟨pmm, halloc⟩ | ⟨addr, data, pmm, hle, halloc⟩ <;> rw [halloc]
    · exact ⟨_, rfl⟩
    · have hcannot : ¬ CanSend (t.setPmm pmm).net packet.iface := by
        refine hfails.resolve_right fun hlarge => ?_
        simp only [Pieces.size, Nat.zero_mul, Nat.sub_zero] at hle
        omega
      dsimp only
      rw [netSendPacket_cannot hcannot]
      exact ⟨_, rfl⟩
  obtain ⟨k, hk⟩ : ∃ k, Pieces.count dataLen.toNat maxData.toNat = k + 1 :=
    ⟨_, (Nat.succ_pred_eq_of_pos hcount).symm⟩
  obtain ⟨t', hturn⟩ := hturn
  refine ⟨t', ?_⟩
  have hloop : tryRange (fragmentTurn driver junk packet dataLen maxData
      (Pieces.count dataLen.toNat maxData.toNat)) (k + 1) 0 (t, 0) = .error t' := by
    rw [tryRange, hturn]
  rw [← hk, Pieces.count] at hloop
  rw [hloop]

/-- A driver that sends everything, and after which there is memory. -/
def willingDriver : Driver := fun _ _ => (true, pmmEight)

theorem netAllocPacket_pmmEight {size : ℕ} (hpos : 0 < size) (hsize : size ≤ 1518)
    (junk : NetPacket) : ∃ frag pmm, netAllocPacket pmmEight junk size = (some frag, pmm) := by
  have hblocks : (size + 4095) / 4096 = 1 := by omega
  refine netAllocPacket_eq_some hsize (by decide +kernel) ?_ junk
  rw [hblocks]
  decide +kernel

/-- A turn sends its fragment: there is memory for it, and the driver takes it. -/
def FragmentSent (driver : Driver) (junk : ℕ → NetPacket) (packet : NetPacket)
    (dataLen maxData : UInt16) (count i : ℕ) (w : Transmit × UInt16) : Prop :=
  let size := if i = count - 1 then dataLen - w.2 else maxData
  ∃ frag pmm, netAllocPacket w.1.table.pmm (junk i) (20 + size.toNat) = (some frag, pmm) ∧
    (netSendPacket driver (w.1.setPmm pmm) packet.iface { frag with
      bytes := fragmentBytes frag.bytes packet.bytes w.2 size (decide (i < count - 1)) }).1 = true

/-- All allocations and sends of `ipv4_fragment_packet` succeed, in every turn that is reached. -/
def AllSent (driver : Driver) (junk : ℕ → NetPacket) (t : Transmit) (packet : NetPacket)
    (mtu : UInt16) : Prop :=
  let dataLen := fragPayload packet.length
  let maxData := fragMaxData mtu
  let count := Pieces.count dataLen.toNat maxData.toNat
  ∀ i < count, ∀ w,
    tryRange (fragmentTurn driver junk packet dataLen maxData count) i 0 (t, 0) = .ok w →
      FragmentSent driver junk packet dataLen maxData count i w

theorem FragmentSent.turn {w : Transmit × UInt16}
    (h : FragmentSent driver junk packet dataLen maxData count i w) :
    ∃ w', fragmentTurn driver junk packet dataLen maxData count i w = .ok w' := by
  obtain ⟨frag, pmm, halloc, hsend⟩ := h
  rw [fragmentTurn, halloc]
  dsimp only
  rcases hresult : netSendPacket driver (w.1.setPmm pmm) packet.iface { frag with
    bytes := fragmentBytes frag.bytes packet.bytes w.2
      (if i = count - 1 then dataLen - w.2 else maxData) (decide (i < count - 1)) } with ⟨_ | _, t'⟩
  · rw [hresult] at hsend
    cases hsend
  · exact ⟨_, rfl⟩

theorem ipv4FragmentPacket_allSent (hdf : (ipv4Header packet.bytes).dontFragment = false)
    (hmax : fragMaxData mtu ≠ 0) (h : AllSent driver junk t packet mtu) :
    ∃ t', ipv4FragmentPacket driver junk t packet mtu = some (true, t') := by
  obtain ⟨w, hw⟩ := tryRange_ok (a := 0) fun i hi w hw => by
    rw [Nat.zero_add]
    exact (h i hi w hw).turn
  rw [Pieces.count] at hw
  rw [ipv4FragmentPacket, hdf]
  dsimp only
  rw [if_neg Bool.false_ne_true, if_neg hmax, hw]
  exact ⟨_, rfl⟩

/-- Where a run of the fragmenter is before turn `i`, with such a driver. -/
structure Willing (t : Transmit) (dataLen maxData : UInt16) (i : ℕ) (w : Transmit × UInt16) :
    Prop where
  offset : w.2.toNat = min dataLen.toNat (i * maxData.toNat)
  same : SameStack t w.1
  pmm : w.1.table.pmm = pmmEight

/-- Its next turn sends a fragment that is not too large. -/
theorem Willing.turn {w : Transmit × UInt16} (h : Willing t dataLen maxData i w)
    (hi : i < Pieces.count dataLen.toNat maxData.toNat) (hcan : CanSend t.net packet.iface)
    (hsize : min maxData.toNat dataLen.toNat ≤ 1498) :
    FragmentSent willingDriver junk packet dataLen maxData
        (Pieces.count dataLen.toNat maxData.toNat) i w ∧
      ∃ w', fragmentTurn willingDriver junk packet dataLen maxData
        (Pieces.count dataLen.toNat maxData.toNat) i w = .ok w' ∧
        Willing t dataLen maxData (i + 1) w' := by
  obtain ⟨-, hpiece, hend⟩ := fragmentTurn_size _ hi h.offset
  have hle : Pieces.size dataLen.toNat maxData.toNat i ≤ 1498 := by
    rw [Pieces.size]
    omega
  obtain ⟨frag, pmm, halloc⟩ :=
    netAllocPacket_pmmEight (by omega : 0 < 20 + _) (Nat.add_le_add_left hle 20) (junk i)
  obtain ⟨t', hsend, -, hsame, hpmm⟩ := netSendPacket_can willingDriver
    { frag with
      bytes := fragmentBytes frag.bytes packet.bytes w.2
        (if i = Pieces.count dataLen.toNat maxData.toNat - 1 then dataLen - w.2 else maxData)
        (decide (i < Pieces.count dataLen.toNat maxData.toNat - 1)) }
    (t := w.1.setPmm pmm) ((h.same.canSend packet.iface).mpr hcan)
  rw [← hpiece, ← h.pmm] at halloc
  refine ⟨⟨frag, pmm, halloc, congrArg Prod.fst hsend⟩, ?_⟩
  rw [fragmentTurn, halloc]
  dsimp only
  rw [hsend]
  exact ⟨_, rfl, hend, (h.same.trans (SameStack.setPmm w.1 pmm)).trans hsame, hpmm⟩

/-- With such a driver all is sent, unless it cannot be. -/
theorem allSent_willing (hcan : 0 < (fragPayload packet.length).toNat →
      CanSend t.net packet.iface ∧
        min (fragMaxData mtu).toNat (fragPayload packet.length).toNat ≤ 1498)
    (hpmm : t.table.pmm = pmmEight) : AllSent willingDriver junk t packet mtu := by
  intro i hi w hw
  obtain ⟨hcan, hsize⟩ := hcan (Nat.zero_lt_of_lt (Pieces.start_lt hi))
  generalize fragPayload packet.length = dataLen at hi hw hsize ⊢
  generalize fragMaxData mtu = maxData at hi hw hsize ⊢
  obtain ⟨w', hrun, hw'⟩ := tryRange_inv_ok (fragmentTurn willingDriver junk packet dataLen maxData
      (Pieces.count dataLen.toNat maxData.toNat)) (Willing t dataLen maxData) (n := i) (a := 0)
    (s := (t, 0)) ⟨by simp, SameStack.refl t, hpmm⟩ fun j w' _ hj hw' =>
      (hw'.turn (by omega) hcan hsize).2
  obtain rfl := Except.ok.inj (hw.symm.trans hrun)
  rw [Nat.zero_add] at hw'
  exact (hw'.turn hi hcan hsize).1

/-- With such a driver fragmentation succeeds, unless it has to fail. -/
theorem ipv4FragmentPacket_willing (hdf : (ipv4Header packet.bytes).dontFragment = false)
    (hmax : fragMaxData mtu ≠ 0) (hcan : 0 < (fragPayload packet.length).toNat →
      CanSend t.net packet.iface ∧
        min (fragMaxData mtu).toNat (fragPayload packet.length).toNat ≤ 1498)
    (hpmm : t.table.pmm = pmmEight) :
    ∃ t', ipv4FragmentPacket willingDriver junk t packet mtu = some (true, t') :=
  ipv4FragmentPacket_allSent hdf hmax (allSent_willing hcan hpmm)

end

end Rexus
