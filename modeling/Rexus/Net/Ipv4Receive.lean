import Rexus.Net.Ipv4Send
import Rexus.Net.Reassembly

/-!
# Receiving

`ipv4_receive_packet` of `net/ipv4.c`, up to the packet it passes up. The checks are made on the
header of the packet that has arrived, also when a reassembled packet has taken its place.

## Main results

* `ipv4SendPacket_sameDrivers`, `ipv4ForwardPacket_sameDrivers`, `ipv4ReceivePacket_sameDrivers` —
  what the drivers have put into the interfaces stays there

## Scope

A packet ends here in one of four ways: it is dropped, which is counted; it is kept for reassembly,
if it is a fragment; it is forwarded, if it is for somebody else; or it is passed up to the protocol
that its header names, without its header. The handlers of the protocols are those of
`Net/UdpReceive.lean` and `Net/TcpStream.lean` and are not called from here; `Ipv4Received` says
what they would be given.

The counters of the module are kept apart from the rest, since no decision depends on them:
`ipv4ReceiveStats` says what one packet adds. Packets are there, and so is the interface they have
come from. The lookups over the interfaces are walks that may not end, and with them the function
may give `none`.
-/

namespace Rexus

open Bytes Loop

/-! ### The function -/

/-- The protocol of the network stack, by the number in the header. -/
def ipv4DeliverProtocol (protocol : UInt8) : Option NetProtocol :=
  if protocol = 1 then some .icmp
  else if protocol = 6 then some .tcp
  else if protocol = 17 then some .udp
  else none

/-- The packet without its header. -/
def ipv4StripHeader (packet : NetPacket) (protocol : NetProtocol) : NetPacket :=
  { packet with
    data := packet.data + 20
    bytes := fun k => packet.bytes (k + 20)
    length := packet.length - 20
    protocol }

/-- What `ipv4_receive_packet` makes of a packet: what it passes up, the stack, and the slots. -/
structure Ipv4Received where
  delivered : Option NetPacket
  stack : Transmit
  slots : ℕ → ReassemblySlot

/-- The end of `ipv4_receive_packet`: the packet, and the header that is looked at. -/
def ipv4Deliver (driver : Driver) (junk : ℕ → NetPacket) (t : Transmit)
    (slots : ℕ → ReassemblySlot) (h : Ipv4Header) (packet : NetPacket) : Option Ipv4Received :=
  match ipv4AddrIsLocal t.net h.destAddr with
  | none => none
  | some false => (ipv4ForwardPacket driver junk t packet).map fun (_, t) => ⟨none, t, slots⟩
  | some true =>
    some ⟨(ipv4DeliverProtocol h.protocol).map (ipv4StripHeader packet), t, slots⟩

/-- `ipv4_receive_packet`, given what the memory holds that the packets and the buffer of a new slot
are given. -/
def ipv4ReceivePacket (driver : Driver) (junk : ℕ → NetPacket) (junkBuffer : ℕ → UInt8)
    (junkPacket : NetPacket) (t : Transmit) (slots : ℕ → ReassemblySlot) (iface : ℕ)
    (packet : NetPacket) : Option Ipv4Received :=
  let h := ipv4Header packet.bytes
  if iface = 0 ∨ packet.length < 20 ∨ ipv4Verify packet.bytes = false then
    some ⟨none, t, slots⟩
  else if h.isFragment then
    let r := ipv4ReassemblePacket t.table.pmm slots junkBuffer junkPacket packet
    match r.packet with
    | none => some ⟨none, t.setPmm r.pmm, r.slots⟩
    | some packet => ipv4Deliver driver junk (t.setPmm r.pmm) r.slots h packet
  else ipv4Deliver driver junk t slots h packet

/-! ### What it counts -/

/-- The counters of `ipv4_stats_t` that `ipv4_receive_packet` itself keeps. Those that its callees
count are left out; no function of the model reads either. -/
structure ReceiveStats where
  packetsReceived : UInt64
  bytesReceived : UInt64
  packetsForwarded : UInt64
  packetsDropped : UInt64
  fragmentsReassembled : UInt64

namespace ReceiveStats

/-- `stats.packets_dropped++`. -/
def drop (stats : ReceiveStats) : ReceiveStats :=
  { stats with packetsDropped := stats.packetsDropped + 1 }

/-- `stats.packets_received++; stats.bytes_received += packet->length`. -/
def receive (stats : ReceiveStats) (packet : NetPacket) : ReceiveStats :=
  { stats with
    packetsReceived := stats.packetsReceived + 1
    bytesReceived := stats.bytesReceived + UInt64.ofNat packet.length }

end ReceiveStats

/-- What the end of `ipv4_receive_packet` counts. -/
def ipv4CountDeliver (driver : Driver) (junk : ℕ → NetPacket) (t : Transmit) (h : Ipv4Header)
    (packet : NetPacket) (stats : ReceiveStats) : ReceiveStats :=
  match ipv4AddrIsLocal t.net h.destAddr with
  | none => stats
  | some false =>
    match ipv4ForwardPacket driver junk t packet with
    | none => stats
    | some (true, _) => { stats with packetsForwarded := stats.packetsForwarded + 1 }
    | some (false, _) => stats.drop
  | some true => if (ipv4DeliverProtocol h.protocol).isNone then stats.drop else stats

/-- What `ipv4_receive_packet` counts. -/
def ipv4ReceiveStats (driver : Driver) (junk : ℕ → NetPacket) (junkBuffer : ℕ → UInt8)
    (junkPacket : NetPacket) (t : Transmit) (slots : ℕ → ReassemblySlot) (iface : ℕ)
    (packet : NetPacket) (stats : ReceiveStats) : ReceiveStats :=
  let h := ipv4Header packet.bytes
  if iface = 0 ∨ packet.length < 20 ∨ ipv4Verify packet.bytes = false then stats.drop
  else
    let stats := stats.receive packet
    if h.isFragment then
      let r := ipv4ReassemblePacket t.table.pmm slots junkBuffer junkPacket packet
      match r.packet with
      | none => stats
      | some packet => ipv4CountDeliver driver junk (t.setPmm r.pmm) h packet
          { stats with fragmentsReassembled := stats.fragmentsReassembled + 1 }
    else ipv4CountDeliver driver junk t h packet stats

/-! ### What it leaves alone -/

/-- The same pointers to what the drivers keep, and the same memory behind them. -/
structure SameDrivers (s s' : NetState) : Prop where
  driverData : ∀ p, (s'.iface p).driverData = (s.iface p).driverData
  configAt : s'.configAt = s.configAt

theorem SameDrivers.refl (s : NetState) : SameDrivers s s := ⟨fun _ => rfl, rfl⟩

theorem SameDrivers.trans {s s' s'' : NetState} (h : SameDrivers s s') (h' : SameDrivers s' s'') :
    SameDrivers s s'' where
  driverData p := (h'.driverData p).trans (h.driverData p)
  configAt := h'.configAt.trans h.configAt

section

variable {driver : Driver} {junk : ℕ → NetPacket} {t t' : Transmit} {packet : NetPacket}
  {p : ℕ} {answer : Bool}

theorem netSendPacket_sameDrivers (driver : Driver) (t : Transmit) (p : ℕ) (packet : NetPacket) :
    SameDrivers t.net (netSendPacket driver t p packet).2.net := by
  rw [netSendPacket]
  dsimp only
  by_cases hcan : p = 0 ∨ (t.net.iface p).hasSend = false
  · rw [if_pos hcan]
    exact SameDrivers.refl _
  · rw [if_neg hcan]
    refine ⟨fun q => ?_, rfl⟩
    rcases eq_or_ne q p with rfl | hq
    · simp
    · simp [hq]

/-- Each step of sending keeps what the drivers have. -/
theorem sends_sameDrivers (driver : Driver) :
    Sends driver fun t t' => SameDrivers t.net t'.net where
  refl _ := SameDrivers.refl _
  trans _ _ _ h h' := h.trans h'
  ipId _ _ := SameDrivers.refl _
  packet := netSendPacket_sameDrivers driver
  turn junk packet dataLen maxData count i w := by
    rw [fragmentTurn]
    dsimp only
    cases netAllocPacket w.1.table.pmm (junk i)
      (20 + (if i = count - 1 then dataLen - w.2 else maxData).toNat) with
    | mk frag pmm =>
      cases frag with
      | none => exact SameDrivers.refl _
      | some frag =>
        dsimp only
        have hsend := netSendPacket_sameDrivers driver (w.1.setPmm pmm) packet.iface
          { frag with
            bytes := fragmentBytes frag.bytes packet.bytes w.2
              (if i = count - 1 then dataLen - w.2 else maxData) (decide (i < count - 1)) }
        split
        · next hs => rw [hs] at hsend; exact hsend
        · next hs => rw [hs] at hsend; exact hsend

theorem ipv4SendPacket_sameDrivers {destAddr : Ipv4Addr} {protocol ttl : UInt8}
    (h : ipv4SendPacket driver junk t packet destAddr protocol ttl = some (answer, t')) :
    SameDrivers t.net t'.net := (sends_sameDrivers driver).sendPacket h

theorem ipv4ForwardPacket_sameDrivers
    (h : ipv4ForwardPacket driver junk t packet = some (answer, t')) :
    SameDrivers t.net t'.net := (sends_sameDrivers driver).forwardPacket h

theorem ipv4Deliver_sameDrivers {slots : ℕ → ReassemblySlot} {h : Ipv4Header} {r : Ipv4Received}
    (hr : ipv4Deliver driver junk t slots h packet = some r) : SameDrivers t.net r.stack.net := by
  rw [ipv4Deliver] at hr
  cases hlocal : ipv4AddrIsLocal t.net h.destAddr with
  | none => rw [hlocal] at hr; cases hr
  | some isLocal =>
    rw [hlocal] at hr
    cases isLocal with
    | false =>
      obtain ⟨⟨answer, u⟩, hforward, rfl⟩ := Option.map_eq_some_iff.mp hr
      exact ipv4ForwardPacket_sameDrivers hforward
    | true =>
      obtain rfl := Option.some_inj.mp hr
      exact SameDrivers.refl _

theorem ipv4ReceivePacket_sameDrivers {junkBuffer : ℕ → UInt8} {junkPacket : NetPacket}
    {slots : ℕ → ReassemblySlot} {iface : ℕ} {r : Ipv4Received}
    (h : ipv4ReceivePacket driver junk junkBuffer junkPacket t slots iface packet = some r) :
    SameDrivers t.net r.stack.net := by
  rw [ipv4ReceivePacket] at h
  dsimp only at h
  split_ifs at h with hcheck hfrag
  · obtain rfl := Option.some_inj.mp h
    exact SameDrivers.refl _
  · split at h
    · obtain rfl := Option.some_inj.mp h
      exact SameDrivers.refl _
    · have hsame := ipv4Deliver_sameDrivers h
      exact hsame
  · exact ipv4Deliver_sameDrivers h

end

end Rexus
