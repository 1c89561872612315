import Rexus.Net.Checksum
import Rexus.Net.Sockets

/-!
# What a UDP socket has received

The receive buffer holds the unread bytes of a socket, from `recv_start` on. A datagram goes behind
them if the unread bytes and its payload together are no more than the buffer, and `udp_receive`
takes bytes from their start, which moves only back to zero, when none is left.

## Main results

* `udpReceivePacket_safe_iff` — which datagrams are copied within the bounds
* `udp_buffer_run` — the bounds after every run, from the creation of the sockets

## Conventions

What a packet does is given with the copy that it makes: the offsets in the buffer of the socket and
in the packet, and the number of bytes. Being within the bounds is said of these numbers, before any
byte is copied. The length of the payload is computed in thirty-two bits from the length field of
the datagram, and for one below eight it wraps.

`udp_receive_packet` asks whether the packet is as long as a header, and as its length field says;
it does not ask whether the length field is as long as a header. The socket it is for is looked for
by the destination, and a packet without one is dropped. The run has every call of the module in it,
for any sockets, over one allocator.
-/

namespace Rexus

open Bytes Run

/-! ### The functions -/

/-- The bytes of a buffer are written. -/
def Udp.setBuf (s : Udp) (p : ℕ) (d : ℕ → UInt8) : Udp :=
  { s with buf := Function.update s.buf p d }

/-- `udp_receive`, into memory that is there: the bytes returned. -/
def udpReceive (s : Udp) (socket : ℕ) (maxLength : UInt32) : List UInt8 × Udp :=
  let k := s.socket socket
  if socket = 0 ∨ maxLength = 0 then ([], s)
  else if k.recvLen = 0 then ([], s)
  else
    let length := if maxLength < k.recvLen then maxLength else k.recvLen
    let recvLen := k.recvLen - length
    (slice (s.buf k.recvBuf) k.recvStart.toNat length.toNat,
      s.setSocket socket
        { k with recvLen, recvStart := if recvLen = 0 then 0 else k.recvStart + length })

/-- `header->dest_port`. -/
def udpDestPort (packet : NetPacket) : UInt16 := le16 packet.bytes 2

/-- `header->length`. -/
def udpLength (packet : NetPacket) : UInt16 := le16 packet.bytes 4

/-- `header->length - sizeof(udp_header_t)`, a number of thirty-two bits. -/
def udpDataLen (packet : NetPacket) : UInt32 := (udpLength packet).toUInt32 - 8

/-- The checksum, if the socket wants one, is computed with zero in its field. -/
def udpVerify (k : UdpSocket) (packet : NetPacket) : Bool :=
  !k.config.checksum || udpChecksum packet.srcAddr packet.destAddr (putLe16 packet.bytes 6 0)
    (udpLength packet).toNat == le16 packet.bytes 6

/-- The socket that `udp_receive_packet` gives the payload to, or null if it drops the packet
before it looks at the payload. -/
def udpTarget (s : Udp) (iface : ℕ) (packet : NetPacket) : Option ℕ :=
  if iface = 0 ∨ packet.length < 8 then some 0
  else if packet.length < (udpLength packet).toNat then some 0
  else
    (s.lookup packet.destAddr (udpDestPort packet)).map fun socket =>
      if socket = 0 then 0 else if udpVerify (s.socket socket) packet then socket else 0

/-- The arguments of the `memcpy` of a payload: offsets into the buffer of the socket and into the
packet, and a number of bytes. -/
structure UdpCopy where
  socket : ℕ
  dest : ℕ
  src : ℕ
  length : ℕ
  deriving DecidableEq

/-- What `udp_receive_packet` does: the new state, the length of the payload if it is computed, and
the copy if one is made. -/
structure UdpReceived where
  udp : Udp
  dataLen : Option UInt32
  copy : Option UdpCopy

/-- `udp_receive_packet`, once it has found a socket. -/
def udpDeliver (s : Udp) (socket : ℕ) (packet : NetPacket) : UdpReceived :=
  let k := s.socket socket
  let dataLen := udpDataLen packet
  if k.config.bufferSize.toUInt32 < k.recvLen + dataLen then ⟨s, some dataLen, none⟩
  else
    let dest := k.recvStart.toNat + k.recvLen.toNat
    ⟨(s.setBuf k.recvBuf
        (blit (s.buf k.recvBuf) dest packet.bytes 8 dataLen.toNat)).setSocket socket
        { k with recvLen := k.recvLen + dataLen },
      some dataLen, some ⟨socket, dest, 8, dataLen.toNat⟩⟩

/-- `udp_receive_packet`, of a packet that is there. -/
def udpReceivePacket (s : Udp) (iface : ℕ) (packet : NetPacket) : Option UdpReceived :=
  (udpTarget s iface packet).map fun socket =>
    if socket = 0 then ⟨s, none, none⟩ else udpDeliver s socket packet

/-! ### Within the bounds -/

/-- The unread bytes of every socket lie in its buffer. -/
def UdpBounded (s : Udp) (socks : List ℕ) : Prop :=
  ∀ p ∈ socks, (s.socket p).recvStart.toNat + (s.socket p).recvLen.toNat ≤
    (s.socket p).config.bufferSize.toNat

/-- What the handling of a packet is to be. The copy is told by the place it writes to and the place
it reads from, and is made whether these are inside or not. -/
structure UdpSafe (s : Udp) (packet : NetPacket) (t : UdpReceived) : Prop where
  /-- The length of the payload is not negative, -/
  payload : ∀ n, t.dataLen = some n → (n.toNat : ℤ) = (udpLength packet).toNat - 8
  /-- and the copy writes inside the buffer and reads inside the packet. -/
  dest : ∀ c, t.copy = some c →
    c.dest + c.length ≤ (s.socket c.socket).config.bufferSize.toNat
  src : ∀ c, t.copy = some c → c.src + c.length ≤ packet.length

/-- A packet for a socket has a length field that counts the header, and if its payload is not more
than what is left of the buffer, then not more than what is left of it behind the unread bytes. -/
def UdpFits (s : Udp) (iface : ℕ) (packet : NetPacket) : Prop :=
  ∀ p, udpTarget s iface packet = some p → p ≠ 0 →
    8 ≤ (udpLength packet).toNat ∧
      ((s.socket p).recvLen.toNat + ((udpLength packet).toNat - 8) ≤
          (s.socket p).config.bufferSize.toNat →
        (s.socket p).recvStart.toNat + (s.socket p).recvLen.toNat +
          ((udpLength packet).toNat - 8) ≤ (s.socket p).config.bufferSize.toNat)

theorem udpDataLen_toNat {packet : NetPacket} (h : 8 ≤ (udpLength packet).toNat) :
    (udpDataLen packet).toNat = (udpLength packet).toNat - 8 := by
  have hle : (8 : UInt32) ≤ (udpLength packet).toUInt32 := by
    simpa [UInt32.le_iff_toNat_le] using h
  simp [udpDataLen, UInt32.toNat_sub_of_le _ _ hle]

/-- The length of a payload is that of the bytes behind the header if there is a header. -/
theorem udpDataLen_iff {packet : NetPacket} :
    ((udpDataLen packet).toNat : ℤ) = (udpLength packet).toNat - 8 ↔
      8 ≤ (udpLength packet).toNat := by
  constructor
  · intro h
    omega
  · intro h
    rw [udpDataLen_toNat h]
    omega

section

variable {base pmm : Pmm} {rest : List Allocation} {s : Udp} {socks : List ℕ} {iface p : ℕ}
  {packet : NetPacket}

/-- What is known of a packet that reaches a socket. -/
theorem udpTarget_mem (h : UdpInv base rest pmm s socks)
    (htarget : udpTarget s iface packet = some p) (hp : p ≠ 0) :
    p ∈ socks ∧ (udpLength packet).toNat ≤ packet.length := by
  rw [udpTarget] at htarget
  split_ifs at htarget with hargs hlen
  · exact absurd (Option.some_inj.mp htarget).symm hp
  · exact absurd (Option.some_inj.mp htarget).symm hp
  · rw [h.lookup, Option.map_some, Option.some_inj] at htarget
    split_ifs at htarget with hnone hverify
    · exact absurd htarget.symm hp
    · refine ⟨?_, Nat.le_of_not_lt hlen⟩
      cases hfind : socks.find? fun q => (s.socket q).has packet.destAddr (udpDestPort packet) with
      | none =>
        rw [hfind] at hnone
        exact absurd rfl hnone
      | some q =>
        rw [hfind] at htarget
        exact htarget ▸ List.mem_of_find?_eq_some hfind
    · exact absurd htarget.symm hp

/-- The packet is handled: dropped, or given to a socket. -/
theorem udpTarget_some (h : UdpInv base rest pmm s socks) (iface : ℕ) (packet : NetPacket) :
    ∃ p, udpTarget s iface packet = some p := by
  rw [udpTarget]
  split_ifs
  · exact ⟨0, rfl⟩
  · exact ⟨0, rfl⟩
  · rw [h.lookup]
    exact ⟨_, rfl⟩

/-- The test for space, of unread bytes that lie in the buffer. -/
theorem udp_space_iff (hbounded : UdpBounded s socks) (hp : p ∈ socks)
    (hlen : 8 ≤ (udpLength packet).toNat) :
    (s.socket p).config.bufferSize.toUInt32 < (s.socket p).recvLen + udpDataLen packet ↔
      (s.socket p).config.bufferSize.toNat <
        (s.socket p).recvLen.toNat + ((udpLength packet).toNat - 8) := by
  have hb := hbounded p hp
  have hsize := (s.socket p).config.bufferSize.toNat_lt
  have hfield := (udpLength packet).toNat_lt
  rw [UInt32.lt_iff_toNat_lt, UInt32.toNat_add, udpDataLen_toNat hlen, UInt16.toNat_toUInt32,
    Nat.mod_eq_of_lt (by omega)]

/-- **Which packets are handled within the bounds.** -/
theorem udpReceivePacket_safe_iff (h : UdpInv base rest pmm s socks)
    (hbounded : UdpBounded s socks) (iface : ℕ) (packet : NetPacket) :
    ∃ t, udpReceivePacket s iface packet = some t ∧
      (UdpSafe s packet t ↔ UdpFits s iface packet) := by
  obtain ⟨p, htarget⟩ := udpTarget_some h iface packet
  rw [udpReceivePacket, htarget]
  refine ⟨_, rfl, ?_⟩
  dsimp only
  split_ifs with hp
  · refine iff_of_true ⟨?_, ?_, ?_⟩ ?_
    · simp
    · simp
    · simp
    · intro q hq hq0
      exact absurd (Option.some_inj.mp (htarget.symm.trans hq) ▸ hp) hq0
  obtain ⟨hmem, hpacket⟩ := udpTarget_mem h htarget hp
  have hfits : UdpFits s iface packet ↔ 8 ≤ (udpLength packet).toNat ∧
      ((s.socket p).recvLen.toNat + ((udpLength packet).toNat - 8) ≤
          (s.socket p).config.bufferSize.toNat →
        (s.socket p).recvStart.toNat + (s.socket p).recvLen.toNat +
          ((udpLength packet).toNat - 8) ≤ (s.socket p).config.bufferSize.toNat) := by
    constructor
    · intro hfits
      exact hfits p htarget hp
    · intro hp q hq _
      exact Option.some_inj.mp (htarget.symm.trans hq) ▸ hp
  rw [hfits, udpDeliver]
  dsimp only
  split_ifs with hspace
  · -- dropped: only the length of the payload has been computed
    constructor
    · intro hsafe
      have hlen := udpDataLen_iff.mp (hsafe.payload _ rfl)
      rw [udp_space_iff hbounded hmem hlen] at hspace
      exact ⟨hlen, fun hle => absurd hle (Nat.not_le.mpr hspace)⟩
    · intro hfits
      exact ⟨by simpa using udpDataLen_iff.mpr hfits.1, by simp, by simp⟩
  · constructor
    · intro hsafe
      have hlen := udpDataLen_iff.mp (hsafe.payload _ rfl)
      have hdest := hsafe.dest _ rfl
      rw [udpDataLen_toNat hlen] at hdest
      exact ⟨hlen, fun _ => hdest⟩
    · rintro ⟨hlen, hfits⟩
      rw [udp_space_iff hbounded hmem hlen] at hspace
      refine ⟨by simpa using udpDataLen_iff.mpr hlen, ?_, ?_⟩
      · rintro c ⟨⟩
        rw [udpDataLen_toNat hlen]
        exact hfits (Nat.le_of_not_lt hspace)
      · rintro c ⟨⟩
        dsimp only
        rw [udpDataLen_toNat hlen]
        omega

/-! ### The two operations -/

theorem UdpBounded.of_same {s' : Udp} {socks' : List ℕ} (h : UdpBounded s socks)
    (hsub : ∀ p ∈ socks', p ∈ socks)
    (hs : ∀ p ∈ socks', ∃ next, s'.socket p = { s.socket p with next }) :
    UdpBounded s' socks' := by
  intro p hp
  obtain ⟨next, hnext⟩ := hs p hp
  rw [hnext]
  exact h p (hsub p hp)

/-- A structure is written whose unread bytes lie in its buffer. -/
theorem UdpBounded.setSocket {k : UdpSocket} (h : UdpBounded s socks)
    (hk : k.recvStart.toNat + k.recvLen.toNat ≤ k.config.bufferSize.toNat) :
    UdpBounded (s.setSocket p k) socks := by
  intro q hq
  rcases eq_or_ne q p with rfl | hqp
  · rwa [Udp.setSocket_self]
  · rw [s.setSocket_of_ne p k hqp]
    exact h q hq

/-- Nothing but the place of the unread bytes is written. -/
theorem Udp.SameObjects.setSocket {s' : Udp} {k : UdpSocket} (hsockets : s'.sockets = s.sockets)
    (hcount : s'.socketCount = s.socketCount)
    (hsocket : s'.socket = Function.update s.socket p k) (hk : k = { s.socket p with
      recvLen := k.recvLen, recvStart := k.recvStart }) : s.SameObjects s' := by
  have hq : ∀ q, ∃ recvLen recvStart, s'.socket q = { s.socket q with recvLen, recvStart } := by
    intro q
    rw [hsocket]
    rcases eq_or_ne q p with rfl | hqp
    · exact ⟨_, _, (Function.update_self ..).trans hk⟩
    · exact ⟨_, _, Function.update_of_ne hqp ..⟩
  refine ⟨hsockets, hcount, ?_, ?_, ?_, ?_, ?_⟩ <;> intro q <;> obtain ⟨_, _, hq⟩ := hq q <;>
    rw [hq]

/-- **Taking bytes out.** -/
theorem udpReceive_bounded (h : UdpBounded s socks) (hp : p ∈ socks) (maxLength : UInt32) :
    s.SameObjects (udpReceive s p maxLength).2 ∧
      UdpBounded (udpReceive s p maxLength).2 socks := by
  have hb := h p hp
  have hsize := (s.socket p).config.bufferSize.toNat_lt
  rw [udpReceive]
  dsimp only
  split_ifs with hargs hempty hmax hleft hleft
  · exact ⟨.refl s, h⟩
  · exact ⟨.refl s, h⟩
  · refine ⟨.setSocket rfl rfl rfl rfl, h.setSocket ?_⟩
    simp [hleft]
  · refine ⟨.setSocket rfl rfl rfl rfl, h.setSocket ?_⟩
    rw [UInt32.lt_iff_toNat_lt] at hmax
    rw [UInt32.toNat_add, UInt32.toNat_sub_of_le _ _ (UInt32.le_of_lt hmax),
      Nat.mod_eq_of_lt (by omega)]
    dsimp only
    omega
  · refine ⟨.setSocket rfl rfl rfl rfl, h.setSocket ?_⟩
    simp
  · exact absurd (UInt32.sub_self _) hleft

/-- **A packet** that is handled within the bounds. -/
theorem udpReceivePacket_bounded (h : UdpInv base rest pmm s socks) (hbounded : UdpBounded s socks)
    {t : UdpReceived} (ht : udpReceivePacket s iface packet = some t)
    (hfits : UdpFits s iface packet) : s.SameObjects t.udp ∧ UdpBounded t.udp socks := by
  obtain ⟨p, htarget⟩ := udpTarget_some h iface packet
  rw [udpReceivePacket, htarget, Option.map_some, Option.some_inj] at ht
  subst ht
  split_ifs with hp
  · exact ⟨.refl s, hbounded⟩
  obtain ⟨hmem, -⟩ := udpTarget_mem h htarget hp
  obtain ⟨hlen, hspace⟩ := hfits p htarget hp
  rw [udpDeliver]
  dsimp only
  split_ifs with hfull
  · exact ⟨.refl s, hbounded⟩
  · have hb := hbounded p hmem
    have hsize := (s.socket p).config.bufferSize.toNat_lt
    rw [udp_space_iff hbounded hmem hlen] at hfull
    refine ⟨.setSocket rfl rfl rfl rfl, UdpBounded.setSocket hbounded ?_⟩
    rw [UInt32.toNat_add, udpDataLen_toNat hlen, Nat.mod_eq_of_lt (by omega)]
    dsimp only
    omega

end

/-! ### Runs -/

/-- A call of a run: one on the sockets, or one of the two operations on a buffer. -/
inductive UdpOp where
  | socket (op : SocketOp)
  | receive (p : ℕ) (maxLength : UInt32)
  | packet (iface : ℕ) (packet : NetPacket)

namespace Sockets

/-- One step; `none` if the call does not return. What a datagram does to the sockets is kept, and
what is found out on the way is dropped. -/
def udpStep (r : Sockets) : UdpOp → Option Sockets
  | .socket op => r.step op
  | .receive p maxLength => some { r with udp := (udpReceive r.udp p maxLength).2 }
  | .packet iface packet =>
    (udpReceivePacket r.udp iface packet).map fun t => { r with udp := t.udp }

/-- The data of the sockets changes by the two operations only, of which the first is called with
an open socket. -/
def UdpAllowed (r : Sockets) : UdpOp → Prop
  | .socket op => r.Allowed op ∧ ∀ tcp udp, op = .data tcp udp → udp = r.udp
  | .receive p _ => p ∈ r.socks
  | .packet _ _ => True

/-- The packets are as they come, or those that fit. -/
def UdpOpFits (r : Sockets) : UdpOp → Prop
  | .packet iface packet => UdpFits r.udp iface packet
  | _ => True

/-- The step relation of a run: an allowed operation that returns. Any packet may arrive, with any
header and any length. -/
def UdpStep (r : Sockets) (op : UdpOp) (r' : Sockets) : Prop :=
  r.UdpAllowed op ∧ r.udpStep op = some r'

/-- The step relation of a run whose packets fit. -/
def UdpFitsStep (r : Sockets) (op : UdpOp) (r' : Sockets) : Prop := r.UdpStep op r' ∧ r.UdpOpFits op

end Sockets

/-- A call on the sockets: a new one has no unread bytes, and the others are as they were. -/
theorem SocketsInv.step_bounded {r r' : Sockets} (h : SocketsInv r)
    (hbounded : UdpBounded r.udp r.socks) {op : SocketOp} (hop : r.UdpAllowed (.socket op))
    (hstep : r.step op = some r') : UdpBounded r'.udp r'.socks := by
  obtain ⟨hop, hdata⟩ := hop
  cases op with
  | tcpCreate localAddr localPort remoteAddr remotePort config =>
    cases hstep
    exact hbounded
  | tcpClose p =>
    obtain ⟨t, -, rfl⟩ := Option.map_eq_some_iff.mp hstep
    exact hbounded
  | tcpCleanup =>
    obtain ⟨t, -, rfl⟩ := Option.map_eq_some_iff.mp hstep
    exact hbounded
  | udpCreate localAddr localPort config =>
    rcases h.udp.create h.reserved localAddr localPort config with
      ⟨pmm, udp, hcreate, -, -, -, hold⟩ |
      ⟨p, pmm, udp, a, recvBuf, -, hcreate, hp0, -, hp, -, hold⟩
    · rw [Sockets.step, hcreate] at hstep
      cases hstep
      exact hbounded.of_same (fun _ => id) fun q hq => ⟨_, hold q hq⟩
    · simp only [Sockets.step, hcreate, Option.map_some, pushUnlessNull, if_neg hp0] at hstep
      cases hstep
      intro q hq
      rcases List.mem_cons.mp hq with rfl | hq
      · dsimp only
        simp [hp, newUdpSocket]
      · exact hbounded.of_same (fun _ => id) (fun q hq => ⟨_, hold q hq⟩) q hq
  | udpClose p =>
    obtain ⟨pmm, udp, hclose, -, hold⟩ := h.udpClose hop
    rw [Sockets.step, hclose] at hstep
    cases hstep
    exact hbounded.of_same (fun _ => List.mem_of_mem_erase) fun q _ => hold q
  | udpCleanup =>
    obtain ⟨t, -, rfl⟩ := Option.map_eq_some_iff.mp hstep
    intro p hp
    cases hp
  | data tcp udp =>
    cases hstep
    rw [hdata tcp udp rfl]
    exact hbounded
  | others base pmm =>
    cases hstep
    exact hbounded

/-- **One call keeps the unread bytes in the buffers**, if a packet fits. -/
theorem SocketsInv.udpStep {r r' : Sockets} (h : SocketsInv r)
    (hbounded : UdpBounded r.udp r.socks) {op : UdpOp} (hstep : r.UdpFitsStep op r') :
    SocketsInv r' ∧ UdpBounded r'.udp r'.socks := by
  obtain ⟨⟨hop, hr'⟩, hfits⟩ := hstep
  cases op with
  | socket op =>
    exact ⟨h.of_reaches ((Reaches.refl r).tail ⟨hop.1, hr'⟩), h.step_bounded hbounded hop hr'⟩
  | receive p maxLength =>
    cases hr'
    obtain ⟨hsame, hb⟩ := udpReceive_bounded hbounded hop maxLength
    exact ⟨h.of_udp (h.udp.congr hsame), hb⟩
  | packet iface packet =>
    obtain ⟨t, ht, rfl⟩ := Option.map_eq_some_iff.mp hr'
    obtain ⟨hsame, hb⟩ := udpReceivePacket_bounded h.udp hbounded ht hfits
    exact ⟨h.of_udp (h.udp.congr hsame), hb⟩

/-- Every run in which the packets for a socket fit keeps the sockets in order. -/
theorem udpFits_inv {base : Pmm} (h0 : pmmTestBlock base 0 = true) {currentTime : UInt32}
    {conn : ℕ → TcpConn} {socket : ℕ → UdpSocket} {buf : ℕ → ℕ → UInt8} {r : Sockets}
    (hrun : Reaches Sockets.UdpFitsStep (.start base currentTime conn socket buf) r) :
    SocketsInv r ∧ UdpBounded r.udp r.socks := by
  refine hrun.invariant (I := fun r => SocketsInv r ∧ UdpBounded r.udp r.socks)
    ⟨SocketsInv.start h0 currentTime conn socket buf, ?_⟩ ?_
  · intro p hp
    cases hp
  · intro r op r' h hstep
    exact h.1.udpStep h.2 hstep

/-- **Every run** in which the packets for a socket fit leaves the unread bytes of every socket in
its buffer, and the next packet is handled within the bounds exactly if it fits. -/
theorem udp_buffer_run {base : Pmm} (h0 : pmmTestBlock base 0 = true) {currentTime : UInt32}
    {conn : ℕ → TcpConn} {socket : ℕ → UdpSocket} {buf : ℕ → ℕ → UInt8} {r : Sockets}
    (hrun : Reaches Sockets.UdpFitsStep (.start base currentTime conn socket buf) r) :
    UdpBounded r.udp r.socks ∧ ∀ iface packet, ∃ t, udpReceivePacket r.udp iface packet = some t ∧
      (UdpSafe r.udp packet t ↔ UdpFits r.udp iface packet) := by
  obtain ⟨hinv, hbounded⟩ := udpFits_inv h0 hrun
  exact ⟨hbounded, udpReceivePacket_safe_iff hinv.udp hbounded⟩

/-! ### A partial read -/

/-- A socket for port `53`, with a buffer of sixteen bytes and no checksums. -/
def bindOp : UdpOp := .socket (.udpCreate (some ⟨fun _ => 0⟩) 53 (some ⟨16, false, 0⟩))

/-- A datagram for port `53`, of a header and up to twelve bytes. -/
def datagram (length : UInt8) : NetPacket where
  addr := 0
  data := 0
  bytes := fun k => if k = 2 then 53 else if k = 4 then length else 0
  length := 20
  protocol := .udp
  priority := 0
  iface := 4096
  srcAddr := ⟨fun _ => 0⟩
  destAddr := ⟨fun _ => 0⟩

/-- The state after a call. -/
def Sockets.call (r : Sockets) (op : UdpOp) : Sockets := (r.udpStep op).getD r

theorem Sockets.udpStep_call {r : Sockets} {op : UdpOp} (hop : r.UdpAllowed op)
    (h : (r.udpStep op).isSome) : r.UdpStep op (r.call op) := by
  obtain ⟨r', hr'⟩ := Option.isSome_iff_exists.mp h
  exact ⟨hop, by rw [Sockets.call, hr', Option.getD_some]⟩

/-- The socket is there. -/
def oneSocket : Sockets := noSockets.call bindOp

/-- Eight bytes have arrived for it. -/
def eightBytes : Sockets := oneSocket.call (.packet 4096 (datagram 16))

/-- Four of them have been read. -/
def fourRead : Sockets := eightBytes.call (.receive 4096 4)

theorem udpStep_oneSocket : noSockets.UdpStep bindOp oneSocket :=
  Sockets.udpStep_call ⟨trivial, fun _ _ h => nomatch h⟩ (by decide +kernel)

theorem udpStep_eightBytes : oneSocket.UdpStep (.packet 4096 (datagram 16)) eightBytes :=
  Sockets.udpStep_call trivial (by decide +kernel)

theorem udp_buffer_run_eight : UdpBounded eightBytes.udp eightBytes.socks ∧
    ∀ iface packet, ∃ t, udpReceivePacket eightBytes.udp iface packet = some t ∧
      (UdpSafe eightBytes.udp packet t ↔ UdpFits eightBytes.udp iface packet) := by
  refine udp_buffer_run (by decide) (((Reaches.refl noSockets).tail
    ⟨udpStep_oneSocket, trivial⟩).tail ⟨udpStep_eightBytes, ?_⟩)
  intro p hp _
  have htarget : udpTarget oneSocket.udp 4096 (datagram 16) = some 4096 := by decide +kernel
  obtain rfl := Option.some_inj.mp (htarget.symm.trans hp)
  decide +kernel

/-- Half of what has arrived is read, and twelve more bytes arrive: they end four bytes behind the
buffer. -/
theorem not_udpSafe_fourRead : Reaches Sockets.UdpStep noSockets fourRead ∧
    ∃ t, udpReceivePacket fourRead.udp 4096 (datagram 20) = some t ∧
      ¬ UdpSafe fourRead.udp (datagram 20) t := by
  have hread : eightBytes.UdpStep (.receive 4096 4) fourRead := by
    refine Sockets.udpStep_call ?_ rfl
    show 4096 ∈ eightBytes.socks
    decide +kernel
  refine ⟨(((Reaches.refl noSockets).tail udpStep_oneSocket).tail udpStep_eightBytes).tail hread,
    ?_⟩
  have htarget : udpTarget fourRead.udp 4096 (datagram 20) = some 4096 := by decide +kernel
  rw [udpReceivePacket, htarget]
  refine ⟨_, rfl, fun hsafe => ?_⟩
  have hcopy : (udpDeliver fourRead.udp 4096 (datagram 20)).copy = some ⟨4096, 8, 8, 12⟩ := by
    decide +kernel
  exact absurd (hsafe.dest _ hcopy) (by decide +kernel)

end Rexus
