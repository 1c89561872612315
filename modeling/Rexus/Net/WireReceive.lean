import Rexus.Net.Ipv4Receive

/-!
# Datagrams as they are on the wire

On the wire the fields of a header of more than one byte have their high byte first, the header is
as long as it says, and the datagram ends where it says. `ipv4_receive_packet` reads the fields as
the machine stores them, takes every header to be twenty bytes long, and takes all that has arrived
for the datagram.

## Main results

* `WireDatagram.ipv4Verify` — the checksum of a header without options is found correct all the same
* `wire_received_iff` — which datagrams are passed up as they are on the wire

## Conventions

What a datagram is on the wire is said without reference to the code: `WireDatagram` has the fields
with their high bytes first, a header of so many words of four bytes, and a checksum that is right
as the wire has it. What the packet holds behind the end of the datagram is padding of the frame,
which may be anything.

To be received right is to be passed up as it is: not taken for a fragment, and with the data
between the end of its header and its own end. The result is for datagrams to this machine that are
not fragments and whose protocol has a number in this stack.
-/

namespace Rexus

open Bytes OnesComplement

/-! ### The format -/

/-- The two bytes from `i` on, the high one first. -/
def be16 (d : ℕ → UInt8) (i : ℕ) : ℕ := 256 * (d i).toNat + (d (i + 1)).toNat

/-- The words from the start of a buffer, as they are on the wire. -/
def beWords (d : ℕ → UInt8) (n : ℕ) : List ℕ := (List.range n).map fun k => be16 d (2 * k)

/-- The length of the header, in units of four bytes. -/
def wireIhl (d : ℕ → UInt8) : ℕ := (d 0).toNat % 16

/-- The complement of the one's complement sum of the header, with zero for the checksum. -/
def wireChecksum (d : ℕ → UInt8) : ℕ :=
  65535 - sum 65535 (beWords (putLe16 d 10 0) (2 * wireIhl d))

/-- The datagram says that it must not be fragmented. -/
def WireDontFragment (d : ℕ → UInt8) : Prop := d 6 = 0x40

/-- The first of `length` bytes are a datagram of a known protocol that is not a fragment. -/
structure WireDatagram (d : ℕ → UInt8) (length : ℕ) : Prop where
  version : (d 0).toNat / 16 = 4
  ihl : 5 ≤ wireIhl d
  header : 4 * wireIhl d ≤ be16 d 2
  totalLength : be16 d 2 ≤ length
  /-- Of the flags only that against fragmenting may be set, and the offset is zero. -/
  flags : d 6 = 0 ∨ WireDontFragment d
  offset : d 7 = 0
  checksum : be16 d 10 = wireChecksum d
  protocol : d 9 = 1 ∨ d 9 = 6 ∨ d 9 = 17

/-- What is to become of a datagram: it is not taken for a fragment, and its protocol is given the
bytes behind the header, up to its end. -/
structure WireReceived (d : ℕ → UInt8) (slots : ℕ → ReassemblySlot) (r : Ipv4Received) : Prop where
  notFragment : (ipv4Header d).isFragment = false
  slots : r.slots = slots
  passed : ∃ packet, r.delivered = some packet ∧
    ipv4DeliverProtocol (d 9) = some packet.protocol ∧
    slice packet.bytes 0 packet.length = slice d (4 * wireIhl d) (be16 d 2 - 4 * wireIhl d)

/-! ### The order of the bytes -/

/-- A word that is read the other way round is multiplied by `256`. -/
theorem le16_modEq (d : ℕ → UInt8) (i : ℕ) : (le16 d i).toNat ≡ 256 * be16 d i [MOD 65535] := by
  rw [le16_toNat, be16, Nat.ModEq]
  omega

/-- And so is a sum of them. -/
theorem leWords_modEq (d : ℕ → UInt8) (n : ℕ) :
    (leWords d n).sum ≡ 256 * (beWords d n).sum [MOD 65535] := by
  rw [leWords, beWords]
  induction List.range n with
  | nil => rfl
  | cons k l ih =>
    simp only [List.map_cons, List.sum_cons, Nat.mul_add]
    exact (le16_modEq d (2 * k)).add ih

theorem be16_le {d : ℕ → UInt8} {i : ℕ} : be16 d i ≤ 65535 := by
  have hlow := (d i).toNat_lt
  have hhigh := (d (i + 1)).toNat_lt
  rw [be16]
  omega

theorem beWords_le {d : ℕ → UInt8} {n w : ℕ} (hw : w ∈ beWords d n) : w ≤ 65535 := by
  obtain ⟨k, -, rfl⟩ := List.mem_map.mp hw
  exact be16_le

theorem sum_ne_zero_of_head {a : ℕ} {l : List ℕ} (h : a ≠ 0) : (a :: l).sum ≠ 0 := by
  rw [List.sum_cons]
  omega

namespace WireDatagram

variable {d : ℕ → UInt8} {length : ℕ}

theorem first_ne_zero (h : WireDatagram d length) : (d 0).toNat ≠ 0 := by
  have hversion := h.version
  omega

/-- The checksum of a header without options does not depend on the order in which the bytes of its
words are read. -/
theorem ipv4Verify (h : WireDatagram d length) (h5 : wireIhl d = 5) : ipv4Verify d = true := by
  have hfirst : (putLe16 d 10 0) 0 = d 0 := putLe16_of_ne 0 (by decide) (by decide)
  have hwire : Represents 65535 (sum 65535 (beWords (putLe16 d 10 0) 10))
      (beWords (putLe16 d 10 0) 10).sum := represents_sum fun _ => beWords_le
  have hcode := foldSum_represents (sumWords (putLe16 d 10 0) 10 0)
  rw [sumWords_toNat (by decide), UInt32.toNat_zero, Nat.zero_add] at hcode
  have hbe0 : (beWords (putLe16 d 10 0) 10).sum ≠ 0 := by
    refine sum_ne_zero_of_head (a := be16 (putLe16 d 10 0) 0) ?_
    have := h.first_ne_zero
    rw [be16, hfirst]
    omega
  have hle0 : (leWords (putLe16 d 10 0) 10).sum ≠ 0 := by
    rw [leWords_succ]
    refine sum_ne_zero_of_head ?_
    have := h.first_ne_zero
    rw [le16_toNat, hfirst]
    omega
  -- the checksum on the wire is not `65535`, which is the same from both ends
  have hwirePos : sum 65535 (beWords (putLe16 d 10 0) 10) ≠ 0 := fun h0 =>
    hbe0 (hwire.eq_zero.mp h0)
  have hchecksum : be16 d 10 = 65535 - sum 65535 (beWords (putLe16 d 10 0) 10) := by
    rw [h.checksum, wireChecksum, h5]
  have hwireLe := hwire.le
  have hlt : (le16 d 10).toNat < 65535 := by
    have hlow := (d 10).toNat_lt
    have hhigh := (d (10 + 1)).toNat_lt
    rw [be16] at hchecksum
    rw [le16_toNat]
    omega
  have hzero : (le16 d 10).toNat + (leWords (putLe16 d 10 0) 10).sum ≡ 0 [MOD 65535] := by
    calc (le16 d 10).toNat + (leWords (putLe16 d 10 0) 10).sum
        ≡ 256 * be16 d 10 + 256 * (beWords (putLe16 d 10 0) 10).sum [MOD 65535] :=
          (le16_modEq d 10).add (leWords_modEq _ 10)
      _ ≡ 256 * be16 d 10 + 256 * sum 65535 (beWords (putLe16 d 10 0) 10) [MOD 65535] :=
          (hwire.modEq.symm.mul_left 256).add_left _
      _ = 65535 * 256 := by omega
      _ ≡ 0 [MOD 65535] := Nat.modEq_zero_iff_dvd.mpr ⟨256, rfl⟩
  have htop := hcode.add_eq_top hle0 hlt hzero
  rw [Rexus.ipv4Verify, beq_iff_eq, ← UInt16.toNat_inj, ipv4Checksum]
  show (checksumOfSum (sumWords (putLe16 d 10 0) 10 0)).toNat = (le16 d 10).toNat
  rw [checksumOfSum_toNat]
  omega

/-- The flag against fragmenting is read as a bit of the offset. -/
theorem isFragment (h : WireDatagram d length) :
    (ipv4Header d).isFragment = true ↔ WireDontFragment d := by
  have hflags : (ipv4Header d).flagsOffset = UInt16.ofNat (d 6).toNat := by
    show UInt16.ofNat ((d 6).toNat + 256 * (d 7).toNat) = _
    rw [h.offset]
    rfl
  rw [Ipv4Header.isFragment, hflags]
  rcases h.flags with h6 | h6
  · rw [WireDontFragment, h6]
    decide
  · rw [show d 6 = 0x40 from h6]
    exact iff_of_true (by decide) h6

theorem ipv4DeliverProtocol (h : WireDatagram d length) :
    ∃ protocol, Rexus.ipv4DeliverProtocol (d 9) = some protocol := by
  rcases h.protocol with h9 | h9 | h9
  · exact ⟨.icmp, by rw [h9]; rfl⟩
  · exact ⟨.tcp, by rw [h9]; rfl⟩
  · exact ⟨.udp, by rw [h9]; rfl⟩

theorem length_ge (h : WireDatagram d length) : 20 ≤ length := by
  have hihl := h.ihl
  have hheader := h.header
  have htotal := h.totalLength
  omega

end WireDatagram

/-! ### What is received -/

section

variable {driver : Driver} {junk : ℕ → NetPacket} {junkBuffer : ℕ → UInt8} {junkPacket : NetPacket}
  {t : Transmit} {slots : ℕ → ReassemblySlot} {iface : ℕ} {packet : NetPacket}

/-- A datagram that passes the checks and is not taken for a fragment. -/
theorem ipv4ReceivePacket_local (hiface : iface ≠ 0) (hlength : 20 ≤ packet.length)
    (hverify : ipv4Verify packet.bytes = true)
    (hfrag : (ipv4Header packet.bytes).isFragment = false)
    (hlocal : ipv4AddrIsLocal t.net (addrAt packet.bytes 16) = some true) :
    ipv4ReceivePacket driver junk junkBuffer junkPacket t slots iface packet =
      some ⟨(ipv4DeliverProtocol (packet.bytes 9)).map (ipv4StripHeader packet), t, slots⟩ := by
  have hcheck : ¬ (iface = 0 ∨ packet.length < 20 ∨ ipv4Verify packet.bytes = false) := by
    rintro (h | h | h)
    · exact hiface h
    · omega
    · rw [hverify] at h
      cases h
  have hfrag' : ¬ (ipv4Header packet.bytes).isFragment = true := by
    rw [hfrag]
    exact Bool.false_ne_true
  have hdest : (ipv4Header packet.bytes).destAddr = addrAt packet.bytes 16 := rfl
  have hprotocol : (ipv4Header packet.bytes).protocol = packet.bytes 9 := rfl
  rw [ipv4ReceivePacket]
  dsimp only
  rw [if_neg hcheck, if_neg hfrag', ipv4Deliver, hdest, hlocal, hprotocol]

/-- What is passed up, if anything is, is all that has arrived behind the first twenty bytes. -/
theorem ipv4ReceivePacket_passed (hiface : iface ≠ 0) (hlength : 20 ≤ packet.length)
    (hfrag : (ipv4Header packet.bytes).isFragment = false)
    (hlocal : ipv4AddrIsLocal t.net (addrAt packet.bytes 16) = some true) {r : Ipv4Received}
    (hr : ipv4ReceivePacket driver junk junkBuffer junkPacket t slots iface packet = some r)
    {passed : NetPacket} (hpassed : r.delivered = some passed) :
    slice passed.bytes 0 passed.length = slice packet.bytes 20 (packet.length - 20) := by
  cases hverify : ipv4Verify packet.bytes with
  | false =>
    rw [ipv4ReceivePacket] at hr
    dsimp only at hr
    rw [if_pos (Or.inr (Or.inr hverify))] at hr
    obtain rfl := Option.some_inj.mp hr
    cases hpassed
  | true =>
    rw [ipv4ReceivePacket_local hiface hlength hverify hfrag hlocal] at hr
    obtain rfl := Option.some_inj.mp hr
    obtain ⟨protocol, -, rfl⟩ := Option.map_eq_some_iff.mp hpassed
    refine slice_congr fun k _ => ?_
    show packet.bytes (0 + k + 20) = packet.bytes (20 + k)
    rw [Nat.zero_add, Nat.add_comm]

/-- **A datagram is received as it is on the wire** exactly if its header has no options, it may be
fragmented, and nothing follows it. -/
theorem wire_received_iff (hiface : iface ≠ 0) (hwire : WireDatagram packet.bytes packet.length)
    (hlocal : ipv4AddrIsLocal t.net (addrAt packet.bytes 16) = some true) :
    (∃ r, ipv4ReceivePacket driver junk junkBuffer junkPacket t slots iface packet = some r ∧
        WireReceived packet.bytes slots r) ↔
      wireIhl packet.bytes = 5 ∧ ¬ WireDontFragment packet.bytes ∧
        be16 packet.bytes 2 = packet.length := by
  have hlength := hwire.length_ge
  constructor
  · rintro ⟨r, hr, hfrag, -, passed, hpassed, -, hbytes⟩
    have hlen := congrArg List.length
      ((ipv4ReceivePacket_passed hiface hlength hfrag hlocal hr hpassed).symm.trans hbytes)
    rw [length_slice, length_slice] at hlen
    have hihl := hwire.ihl
    have hheader := hwire.header
    have htotal := hwire.totalLength
    refine ⟨by omega, fun hdf => ?_, by omega⟩
    rw [hwire.isFragment.mpr hdf] at hfrag
    cases hfrag
  · rintro ⟨h5, hdf, htotal⟩
    have hfrag : (ipv4Header packet.bytes).isFragment = false :=
      Bool.eq_false_iff.mpr fun h => hdf (hwire.isFragment.mp h)
    obtain ⟨protocol, hprotocol⟩ := hwire.ipv4DeliverProtocol
    have hr : ipv4ReceivePacket driver junk junkBuffer junkPacket t slots iface packet =
        some ⟨some (ipv4StripHeader packet protocol), t, slots⟩ := by
      rw [ipv4ReceivePacket_local hiface hlength (hwire.ipv4Verify h5) hfrag hlocal, hprotocol]
      rfl
    refine ⟨_, hr, hfrag, rfl, ipv4StripHeader packet protocol, rfl, hprotocol, ?_⟩
    rw [h5, htotal]
    exact ipv4ReceivePacket_passed hiface hlength hfrag hlocal hr rfl

end

/-! ### An empty UDP datagram -/

/-- The datagram on the wire, with these flags and the high byte of its checksum. -/
def wireUdp (flags checksum : UInt8) : NetPacket where
  addr := 0
  data := 0
  bytes := fun k =>
    [0x45, 0, 0, 28, 0, 0, flags, 0, 64, 17, checksum, 0xd2].getD k 0
  length := 28
  protocol := .ipv4
  priority := 0
  iface := 4096
  srcAddr := zeroAddr
  destAddr := zeroAddr

theorem wireDatagram_plain : WireDatagram (wireUdp 0 0x7a).bytes 28 where
  version := by decide
  ihl := by decide
  header := by decide
  totalLength := by decide
  flags := Or.inl rfl
  offset := rfl
  checksum := by decide +kernel
  protocol := Or.inr (Or.inr rfl)

theorem wireDatagram_dontFragment : WireDatagram (wireUdp 0x40 0x3a).bytes 28 where
  version := by decide
  ihl := by decide
  header := by decide
  totalLength := by decide
  flags := Or.inr rfl
  offset := rfl
  checksum := by decide +kernel
  protocol := Or.inr (Or.inr rfl)

theorem isLocal_wireUdp (flags checksum : UInt8) :
    ipv4AddrIsLocal (oneInterface 1500).net (addrAt (wireUdp flags checksum).bytes 16) =
      some true := by
  have hdest : addrAt (wireUdp flags checksum).bytes 16 = zeroAddr := by
    refine congrArg Ipv4Addr.mk (funext fun k => ?_)
    show List.getD _ (16 + (k : ℕ)) 0 = 0
    rw [List.getD_eq_getElem?_getD, List.getElem?_eq_none (Nat.le_add_right_of_le (by simp)),
      Option.getD_none]
  rw [hdest]
  decide +kernel

theorem wire_received_iff_plain :
    (∃ r, ipv4ReceivePacket willingDriver (fun _ => packetOf 0) (fun _ => 0) (packetOf 0)
        (oneInterface 1500) (fun _ => emptySlot) 4096 (wireUdp 0 0x7a) = some r ∧
        WireReceived (wireUdp 0 0x7a).bytes (fun _ => emptySlot) r) ↔
      wireIhl (wireUdp 0 0x7a).bytes = 5 ∧ ¬ WireDontFragment (wireUdp 0 0x7a).bytes ∧
        be16 (wireUdp 0 0x7a).bytes 2 = (wireUdp 0 0x7a).length :=
  wire_received_iff (by decide) wireDatagram_plain (isLocal_wireUdp 0 0x7a)

/-- The same datagram with the flag against fragmenting is taken for a fragment. -/
theorem not_wireReceived_dontFragment : WireDatagram (wireUdp 0x40 0x3a).bytes 28 ∧
    ipv4AddrIsLocal (oneInterface 1500).net (addrAt (wireUdp 0x40 0x3a).bytes 16) = some true ∧
    ¬ ∃ r, ipv4ReceivePacket willingDriver (fun _ => packetOf 0) (fun _ => 0) (packetOf 0)
      (oneInterface 1500) (fun _ => emptySlot) 4096 (wireUdp 0x40 0x3a) = some r ∧
      WireReceived (wireUdp 0x40 0x3a).bytes (fun _ => emptySlot) r := by
  refine ⟨wireDatagram_dontFragment, isLocal_wireUdp 0x40 0x3a, ?_⟩
  rintro ⟨r, -, hfrag, -⟩
  rw [wireDatagram_dontFragment.isFragment.mpr rfl] at hfrag
  cases hfrag

end Rexus
