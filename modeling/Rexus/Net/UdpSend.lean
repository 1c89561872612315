import Rexus.Net.Ipv4Send
import Rexus.Net.UdpMessages

/-!
# Sending datagrams

`udp_send` of `net/udp.c`, and what `udp_receive_packet` makes of the datagram it builds. Each side
looks at its own configuration: a socket that computes no checksums sends zero in the field, and one
that checks them takes that zero for a checksum.

## Main results

* `Unmodified.udpVerify_iff` — which datagrams pass the check of the receiver
* `udp_delivered_iff` — which datagrams arrive

## Conventions

The datagram is built at the start of a packet that is allocated for it, and `ipv4_send_packet` is
called with that. The result here is about the datagram alone: what `ipv4_send_packet` makes of it
is the matter of `Net/Ipv4Send.lean`, and `Unmodified` says that what gets to `udp_receive_packet`
has its length and its bytes. The addresses of the packet are those of the two sockets.

A socket sends from its own address and port. Whether there is a checksum is a field of each
socket's configuration, and the two of a sender and a receiver need not agree. The result is for
every state of the receiver that a run reaches, and for every sender.
-/

namespace Rexus

open Bytes Run

/-! ### The function -/

/-- The header, with zero for the checksum, and the data. -/
def udpFill (k : UdpSocket) (destPort : UInt16) (data : ℕ → UInt8) (length : ℕ)
    (d : ℕ → UInt8) : ℕ → UInt8 :=
  let d := putLe16 d 0 k.localPort
  let d := putLe16 d 2 destPort
  let d := putLe16 d 4 (UInt16.ofNat (8 + length))
  let d := putLe16 d 6 0
  blit d 8 data 0 length

/-- The datagram in the packet that has been allocated for it. -/
def udpBuild (k : UdpSocket) (destAddr : Ipv4Addr) (destPort : UInt16) (data : ℕ → UInt8)
    (length : ℕ) (packet : NetPacket) : NetPacket :=
  let d := udpFill k destPort data length packet.bytes
  let length := (le16 d 4).toNat
  { packet with
    bytes :=
      if k.config.checksum then putLe16 d 6 (udpChecksum k.localAddr destAddr d length) else d
    protocol := .udp
    length }

/-- `udp_send`; `none` for the address or the data is a null pointer. -/
def udpSend (driver : Driver) (junk : ℕ → NetPacket) (junkPacket : NetPacket) (t : Transmit)
    (s : Udp) (socket : ℕ) (destAddr : Option Ipv4Addr) (destPort : UInt16)
    (data : Option (ℕ → UInt8)) (length : ℕ) : Option (Bool × Transmit) :=
  match destAddr, data with
  | some destAddr, some data =>
    if socket = 0 ∨ length = 0 then some (false, t)
    else if 65535 - 8 < length then some (false, t)
    else
      match netAllocPacket t.table.pmm junkPacket (8 + length) with
      | (none, pmm) => some (false, t.setPmm pmm)
      | (some packet, pmm) =>
        ipv4SendPacket driver junk (t.setPmm pmm)
          (udpBuild (s.socket socket) destAddr destPort data length packet) destAddr 17 0
  | _, _ => some (false, t)

/-- Does `udp_receive_packet` count a checksum error? -/
def udpChecksumError (s : Udp) (iface : ℕ) (packet : NetPacket) : Option Bool :=
  if iface = 0 ∨ packet.length < 8 then some false
  else if packet.length < (udpLength packet).toNat then some false
  else
    (s.lookup packet.destAddr (udpDestPort packet)).map fun socket =>
      socket ≠ 0 && !udpVerify (s.socket socket) packet

/-! ### The datagram -/

section

variable {k : UdpSocket} {destAddr : Ipv4Addr} {destPort : UInt16} {data d : ℕ → UInt8} {n : ℕ}
  {frag packet : NetPacket}

theorem udpFill_field {i : ℕ} (hi : i + 1 < 8) : le16 (udpFill k destPort data n d) i =
    le16 (putLe16 (putLe16 (putLe16 (putLe16 d 0 k.localPort) 2 destPort) 4
      (UInt16.ofNat (8 + n))) 6 0) i :=
  le16_congr (blit_of_lt (by omega)) (blit_of_lt hi)

@[simp] theorem udpFill_destPort : le16 (udpFill k destPort data n d) 2 = destPort := by
  rw [udpFill_field (by decide), le16_putLe16_of_ne _ (by decide), le16_putLe16_of_ne _ (by decide),
    le16_putLe16]

@[simp] theorem udpFill_length :
    le16 (udpFill k destPort data n d) 4 = UInt16.ofNat (8 + n) := by
  rw [udpFill_field (by decide), le16_putLe16_of_ne _ (by decide), le16_putLe16]

@[simp] theorem udpFill_checksum : le16 (udpFill k destPort data n d) 6 = 0 := by
  rw [udpFill_field (by decide), le16_putLe16]

theorem slice_udpFill : slice (udpFill k destPort data n d) 8 n = slice data 0 n := slice_blit ..

/-- A zero is written where there is one. -/
theorem putLe16_zero_of_le16_eq_zero {i : ℕ} (h : le16 d i = 0) : putLe16 d i 0 = d := by
  have hd := congrArg UInt16.toNat h
  rw [le16_toNat, UInt16.toNat_zero] at hd
  funext j
  rw [putLe16]
  split_ifs with hj hj
  · rw [hj, ← UInt8.toNat_inj]
    exact (by omega : (d i).toNat = 0).symm
  · rw [hj, ← UInt8.toNat_inj]
    exact (by omega : (d (i + 1)).toNat = 0).symm
  · rfl

/-- What is sent is what arrives, byte for byte up to its length; the packet is another structure,
and what lies behind its length is anything. -/
structure Unmodified (sent packet : NetPacket) : Prop where
  length : packet.length = sent.length
  bytes : ∀ i < sent.length, packet.bytes i = sent.bytes i

/-- The bytes of the datagram but for its checksum. -/
theorem udpBuild_bytes {i : ℕ} (hi : i ≠ 6) (hi' : i ≠ 7) :
    (udpBuild k destAddr destPort data n frag).bytes i =
      udpFill k destPort data n frag.bytes i := by
  rw [udpBuild]
  dsimp only
  split_ifs
  · exact putLe16_of_ne _ hi hi'
  · rfl

theorem udpBuild_length (hn : 8 + n < 2 ^ 16) :
    (udpBuild k destAddr destPort data n frag).length = 8 + n := by
  show (le16 (udpFill k destPort data n frag.bytes) 4).toNat = 8 + n
  rw [udpFill_length, UInt16.toNat_ofNat', Nat.mod_eq_of_lt hn]

theorem udpFill_putLe16_zero : putLe16 (udpFill k destPort data n d) 6 0 =
    udpFill k destPort data n d := putLe16_zero_of_le16_eq_zero udpFill_checksum

namespace Unmodified

variable (h : Unmodified (udpBuild k destAddr destPort data n frag) packet) (hn : 8 + n < 2 ^ 16)

include h hn

theorem length_eq : packet.length = 8 + n := by rw [h.length, udpBuild_length hn]

theorem bytes_eq {i : ℕ} (hi : i < 8 + n) (h6 : i ≠ 6) (h7 : i ≠ 7) :
    packet.bytes i = udpFill k destPort data n frag.bytes i := by
  rw [h.bytes i (by rw [udpBuild_length hn]; exact hi), udpBuild_bytes h6 h7]

theorem field {i : ℕ} (hi : i + 1 < 6) :
    le16 packet.bytes i = le16 (udpFill k destPort data n frag.bytes) i :=
  le16_congr (h.bytes_eq hn (by omega) (by omega) (by omega))
    (h.bytes_eq hn (by omega) (by omega) (by omega))

theorem destPort_eq : udpDestPort packet = destPort := by
  rw [udpDestPort, h.field hn (by decide), udpFill_destPort]

theorem udpLength_eq : (udpLength packet).toNat = 8 + n := by
  rw [udpLength, h.field hn (by decide), udpFill_length, UInt16.toNat_ofNat', Nat.mod_eq_of_lt hn]

theorem udpDataLen_eq : (udpDataLen packet).toNat = n := by
  have hlen := h.udpLength_eq hn
  rw [udpDataLen_toNat (by omega), hlen, Nat.add_sub_cancel_left]

/-- The payload. -/
theorem data_eq : (udpMessage packet).data = slice data 0 n := by
  show slice packet.bytes 8 (udpDataLen packet).toNat = _
  rw [h.udpDataLen_eq hn, ← slice_udpFill (k := k) (d := frag.bytes)]
  exact slice_congr fun i hi => h.bytes_eq hn (by omega) (by omega) (by omega)

/-- With zero for the checksum the datagram is what the sender has filled in. -/
theorem zeroed {i : ℕ} (hi : i < 8 + n) :
    putLe16 packet.bytes 6 0 i = udpFill k destPort data n frag.bytes i := by
  rw [← udpFill_putLe16_zero, putLe16, putLe16]
  split_ifs with h6 h7
  · rfl
  · rfl
  · exact h.bytes_eq hn hi h6 h7

/-- The checksum on the way. -/
theorem checksum_eq : le16 packet.bytes 6 = if k.config.checksum then
    udpChecksum k.localAddr destAddr (udpFill k destPort data n frag.bytes) (8 + n) else 0 := by
  have hsent : le16 packet.bytes 6 =
      le16 (udpBuild k destAddr destPort data n frag).bytes 6 :=
    le16_congr (h.bytes 6 (by rw [udpBuild_length hn]; omega))
      (h.bytes 7 (by rw [udpBuild_length hn]; omega))
  have hlen : (UInt16.ofNat (8 + n)).toNat = 8 + n := by
    rw [UInt16.toNat_ofNat', Nat.mod_eq_of_lt hn]
  rw [hsent, udpBuild]
  dsimp only
  split_ifs
  · rw [le16_putLe16, udpFill_length, hlen]
  · exact udpFill_checksum

/-- **The check of the receiver.** It goes through if the sender has computed a checksum, or if the
checksum it would have computed is the zero it sends. -/
theorem udpVerify_iff (hsrc : packet.srcAddr = k.localAddr) (hdest : packet.destAddr = destAddr)
    (k' : UdpSocket) : udpVerify k' packet = true ↔
      (k'.config.checksum = true → k.config.checksum = true ∨ 65535 ∣
        udpWordSum k.localAddr destAddr (udpFill k destPort data n frag.bytes) (8 + n)) := by
  have hcomputed : udpChecksum packet.srcAddr packet.destAddr (putLe16 packet.bytes 6 0)
      (udpLength packet).toNat =
        udpChecksum k.localAddr destAddr (udpFill k destPort data n frag.bytes) (8 + n) := by
    rw [hsrc, hdest, h.udpLength_eq hn]
    exact udpChecksum_congr (fun i hi => h.zeroed hn hi) _ _
  rw [udpVerify, hcomputed, h.checksum_eq hn]
  cases k'.config.checksum with
  | false => simp
  | true =>
    cases k.config.checksum with
    | false =>
      rw [← udpChecksum_eq_zero_iff hn]
      simp
    | true => simp

end Unmodified

end

/-! ### What arrives -/

/-- No checksum error is counted for the packet, and its payload goes behind the unread bytes of the
socket. -/
structure UdpDelivered (s : Udp) (q : ℕ) (payload : List UInt8) (iface : ℕ) (packet : NetPacket) :
    Prop where
  noError : udpChecksumError s iface packet = some false
  appended : ∃ t, udpReceivePacket s iface packet = some t ∧ t.udp.unread q = s.unread q ++ payload

/-- **A datagram of `udp_send` arrives**, where there is room for it, exactly if the receiver checks
no checksum that the sender has not computed, but for those that happen to be zero. -/
theorem udp_delivered_iff {base : Pmm} (h0 : pmmTestBlock base 0 = true) {currentTime : UInt32}
    {conn : ℕ → TcpConn} {socket : ℕ → UdpSocket} {buf : ℕ → ℕ → UInt8} {r : Sockets}
    (hrun : Reaches Sockets.UdpFitsStep (.start base currentTime conn socket buf) r) {q : ℕ}
    (hq0 : q ≠ 0) {destAddr : Ipv4Addr} {destPort : UInt16}
    (hq : r.udp.lookup destAddr destPort = some q) {n : ℕ} (hpos : 1 ≤ n) (hn : n ≤ 1510)
    (hroom : (r.udp.socket q).recvLen.toNat + n ≤ (r.udp.socket q).config.bufferSize.toNat)
    (k : UdpSocket) (data : ℕ → UInt8) (frag : NetPacket) {iface : ℕ} (hiface : iface ≠ 0)
    {packet : NetPacket} (hsame : Unmodified (udpBuild k destAddr destPort data n frag) packet)
    (hsrc : packet.srcAddr = k.localAddr) (hdest : packet.destAddr = destAddr) :
    UdpDelivered r.udp q (slice data 0 n) iface packet ↔
      ((r.udp.socket q).config.checksum = true → k.config.checksum = true ∨ 65535 ∣
        udpWordSum k.localAddr destAddr (udpFill k destPort data n frag.bytes) (8 + n)) := by
  obtain ⟨hinv, hbounded⟩ := udpFits_inv h0 hrun
  have hn' : 8 + n < 2 ^ 16 := by omega
  have hlength := hsame.length_eq hn'
  have hfield := hsame.udpLength_eq hn'
  have hargs : ¬ (iface = 0 ∨ packet.length < 8) := by omega
  have hshort : ¬ packet.length < (udpLength packet).toNat := by omega
  have herror : udpChecksumError r.udp iface packet =
      some (!udpVerify (r.udp.socket q) packet) := by
    rw [udpChecksumError, if_neg hargs, if_neg hshort, hdest, hsame.destPort_eq hn', hq,
      Option.map_some]
    simp [hq0]
  rw [← hsame.udpVerify_iff hn' hsrc hdest]
  constructor
  · rintro ⟨hnone, -⟩
    rw [herror] at hnone
    simpa using hnone
  · intro hverify
    have htarget : udpTarget r.udp iface packet = some q := by
      rw [udpTarget, if_neg hargs, if_neg hshort, hdest, hsame.destPort_eq hn', hq,
        Option.map_some, if_neg hq0, if_pos hverify]
    obtain ⟨hmem, -⟩ := udpTarget_mem hinv.udp htarget hq0
    have hspace : ¬ (r.udp.socket q).config.bufferSize.toUInt32 <
        (r.udp.socket q).recvLen + udpDataLen packet := by
      rw [udp_space_iff hbounded hmem (by omega), hfield]
      omega
    have ht : udpReceivePacket r.udp iface packet = some (udpDeliver r.udp q packet) := by
      rw [udpReceivePacket, htarget, Option.map_some, if_neg hq0]
    have haccepted : (udpDeliver r.udp q packet).acceptedBy q = true := by
      rw [udpDeliver]
      dsimp only
      rw [if_neg hspace]
      exact beq_self_eq_true q
    refine ⟨by rw [herror, hverify]; rfl, _, ht, ?_⟩
    rw [udpReceivePacket_unread hinv.udp hbounded hmem ht fun _ _ _ => by omega, if_pos haccepted,
      hsame.data_eq hn']

/-! ### One byte -/

/-- A socket for port `53` that checks checksums. -/
def bindCheckingOp : UdpOp := .socket (.udpCreate (some ⟨fun _ => 0⟩) 53 (some ⟨16, true, 0⟩))

/-- The socket is there. -/
def checkingSocket : Sockets := noSockets.call bindCheckingOp

theorem reaches_checkingSocket : Reaches Sockets.UdpFitsStep noSockets checkingSocket :=
  (Reaches.refl noSockets).tail
    ⟨Sockets.udpStep_call ⟨trivial, fun _ _ h => nomatch h⟩ (by decide +kernel), trivial⟩

theorem lookup_checkingSocket : checkingSocket.udp.lookup ⟨fun _ => 0⟩ 53 = some 4096 := by
  decide +kernel

/-- A socket that sends from port `7`. -/
def sendingSocket (checksum : Bool) : UdpSocket :=
  { newUdpSocket ⟨fun _ => 0⟩ 7 ⟨16, checksum, 0⟩ with recvBuf := 8192 }

/-- A byte for port `53`, as it arrives. -/
def sentByte (checksum : Bool) : NetPacket :=
  { udpBuild (sendingSocket checksum) ⟨fun _ => 0⟩ 53 (fun _ => 0xAA) 1 (datagram 0) with
    srcAddr := ⟨fun _ => 0⟩
    destAddr := ⟨fun _ => 0⟩ }

theorem unmodified_sentByte (checksum : Bool) : Unmodified
    (udpBuild (sendingSocket checksum) ⟨fun _ => 0⟩ 53 (fun _ => 0xAA) 1 (datagram 0))
    (sentByte checksum) := ⟨rfl, fun _ _ => rfl⟩

theorem udp_delivered_iff_checked :
    UdpDelivered checkingSocket.udp 4096 (slice (fun _ => 0xAA) 0 1) 4096 (sentByte true) ↔
      ((checkingSocket.udp.socket 4096).config.checksum = true →
        (sendingSocket true).config.checksum = true ∨ 65535 ∣
          udpWordSum (sendingSocket true).localAddr ⟨fun _ => 0⟩
            (udpFill (sendingSocket true) 53 (fun _ => 0xAA) 1 (datagram 0).bytes) (8 + 1)) :=
  udp_delivered_iff (by decide) reaches_checkingSocket (by decide) lookup_checkingSocket
    (by decide) (by decide) (by decide +kernel) (sendingSocket true) (fun _ => 0xAA) (datagram 0)
    (by decide) (unmodified_sentByte true) rfl rfl

/-- Sent without a checksum, it is taken for damaged. -/
theorem not_udpDelivered_unchecked :
    Reaches Sockets.UdpFitsStep noSockets checkingSocket ∧
      checkingSocket.udp.lookup ⟨fun _ => 0⟩ 53 = some 4096 ∧
      Unmodified (udpBuild (sendingSocket false) ⟨fun _ => 0⟩ 53 (fun _ => 0xAA) 1 (datagram 0))
        (sentByte false) ∧
      ¬ UdpDelivered checkingSocket.udp 4096 (slice (fun _ => 0xAA) 0 1) 4096
        (sentByte false) := by
  refine ⟨reaches_checkingSocket, lookup_checkingSocket, unmodified_sentByte false, ?_⟩
  have hverify : udpVerify (checkingSocket.udp.socket 4096) (sentByte false) = false := by
    rw [Bool.eq_false_iff, ne_eq, (unmodified_sentByte false).udpVerify_iff (by decide) rfl rfl]
    intro hzero
    rcases hzero (by decide +kernel) with hsum | hsum
    · cases hsum
    · exact absurd hsum (by decide +kernel)
  rintro ⟨hnone, -⟩
  rw [udpChecksumError, if_neg (by decide +kernel), if_neg (by decide +kernel),
    show checkingSocket.udp.lookup (sentByte false).destAddr (udpDestPort (sentByte false)) =
      some 4096 from lookup_checkingSocket, Option.map_some, hverify] at hnone
  exact absurd hnone (by decide)

end Rexus
