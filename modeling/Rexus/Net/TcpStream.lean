import Rexus.Lib.Bytes
import Rexus.Net.Packet
import Rexus.Net.Tcp

/-!
# The data of a TCP connection

Sending, receiving and the processing of a segment, from `net/tcp.c`. What is to be sent and what
has been received are queues at the start of their buffers; a queue is shortened by a `memmove`.

## What a proof uses

* `TcpTouches` — what a call may change: the data of one connection, and the contents of its buffers
* `touches_tcpSend`, `touches_tcpReceive`, `touches_tcpReceiveConn` — and that the calls change no
  more

## Conventions

The contents of a buffer are kept by its pointer, so two connections with one buffer would share it;
that no two have one is what the allocator is for. Lengths are words of thirty-two bits. `memmove`
within a buffer reads before it writes.

A call for an address at which there is no connection works on whatever is there: the conditions
under which that is a connection are in the modules about runs. What `tcp_receive_packet` is given
is a packet that is there; the search for its connection is a walk over the list, and `none` is one
that does not end.
-/

namespace Rexus

open Bytes

/-! ### The functions -/

namespace Tcp

/-- The contents of a buffer are written. -/
def setBuf (s : Tcp) (b : ℕ) (d : ℕ → UInt8) : Tcp := { s with buf := Function.update s.buf b d }

/-- `conn->state = TCP_STATE_ESTABLISHED`, which no function of `tcp.c` does. -/
def establish (s : Tcp) (p : ℕ) : Tcp := s.setConn p { s.conn p with state := .established }

end Tcp

/-- `tcp_send`, of data that is there. -/
def tcpSend (s : Tcp) (p : ℕ) (data : ℕ → UInt8) (length : UInt32) : Bool × Tcp :=
  let c := s.conn p
  if p = 0 ∨ length = 0 then (false, s)
  else if c.state ≠ .established then (false, s)
  else if c.config.windowSize.toUInt32 < c.sendLen + length then (false, s)
  else
    let s := s.setBuf c.sendBuf (blit (s.buf c.sendBuf) c.sendLen.toNat data 0 length.toNat)
    (true, s.setConn p { c with
      sendLen := c.sendLen + length
      stats := { c.stats with bytesSent := c.stats.bytesSent + length.toUInt64 } })

/-- `tcp_receive`, into a buffer that is there: the bytes it copies, as many as it returns. -/
def tcpReceive (s : Tcp) (p : ℕ) (maxLength : UInt32) : List UInt8 × Tcp :=
  let c := s.conn p
  if p = 0 ∨ maxLength = 0 then ([], s)
  else if c.state ≠ .established then ([], s)
  else
    let length := if maxLength < c.recvLen then maxLength else c.recvLen
    if length = 0 then ([], s)
    else
      let d := s.buf c.recvBuf
      let s := s.setBuf c.recvBuf (blit d 0 d length.toNat (c.recvLen - length).toNat)
      (slice d 0 length.toNat, s.setConn p { c with
        recvLen := c.recvLen - length
        rcvWnd := c.rcvWnd + length })

/-- The length of the header of a segment. -/
def tcpHeaderLen (packet : NetPacket) : ℕ := (packet.bytes 12 >>> 4).toNat * 4

/-- The four-tuple a segment is for. -/
def tcpPacketKey (packet : NetPacket) : TcpKey :=
  ⟨packet.destAddr, le16 packet.bytes 2, packet.srcAddr, le16 packet.bytes 0⟩

/-- The window and the acknowledgment of a segment. -/
def tcpReceiveAck (s : Tcp) (p : ℕ) (packet : NetPacket) : Tcp :=
  let c := { s.conn p with sndWnd := (le16 packet.bytes 14).toUInt32 }
  let acked := le32 packet.bytes 8 - c.sndUna
  if packet.bytes 13 &&& 0x10 ≠ 0 ∧ 0 < acked ∧ acked ≤ c.sendLen then
    let d := s.buf c.sendBuf
    let s := s.setBuf c.sendBuf (blit d 0 d acked.toNat (c.sendLen - acked).toNat)
    s.setConn p { c with
      sendLen := c.sendLen - acked
      sndUna := le32 packet.bytes 8 }
  else s.setConn p c

/-- The data of a segment. -/
def tcpReceiveData (s : Tcp) (p : ℕ) (packet : NetPacket) : Tcp :=
  let c := s.conn p
  let dataLen := UInt32.ofNat (packet.length - tcpHeaderLen packet)
  if 0 < dataLen then
    if le32 packet.bytes 4 = c.rcvNxt ∧ c.recvLen + dataLen ≤ c.config.windowSize.toUInt32 then
      let s := s.setBuf c.recvBuf
        (blit (s.buf c.recvBuf) c.recvLen.toNat packet.bytes (tcpHeaderLen packet) dataLen.toNat)
      s.setConn p { c with
        recvLen := c.recvLen + dataLen
        rcvNxt := c.rcvNxt + dataLen
        rcvWnd := c.rcvWnd - dataLen
        stats := { c.stats with bytesReceived := c.stats.bytesReceived + dataLen.toUInt64 } }
    else
      s.setConn p { c with stats := { c.stats with outOfOrder := c.stats.outOfOrder + 1 } }
  else s

/-- A segment for a connection. Only an established one does anything with it. -/
def tcpReceiveConn (s : Tcp) (p : ℕ) (packet : NetPacket) : Tcp :=
  let s :=
    match (s.conn p).state with
    | .established => tcpReceiveData (tcpReceiveAck s p packet) p packet
    | _ => s
  let c := s.conn p
  s.setConn p { c with stats := { c.stats with packetsReceived := c.stats.packetsReceived + 1 } }

/-- `tcp_receive_packet`, of a packet that is there. -/
def tcpReceivePacket (s : Tcp) (iface : ℕ) (packet : NetPacket) : Option Tcp :=
  if iface = 0 ∨ packet.length < 20 then some s
  else if tcpHeaderLen packet < 20 ∨ packet.length < tcpHeaderLen packet then some s
  else
    (s.lookup (tcpPacketKey packet)).map fun p =>
      if p = 0 then s else tcpReceiveConn s p packet

/-! ### What the calls change -/

/-- A call changes the data of `p` only, and the contents of its two buffers. -/
structure TcpTouches (s s' : Tcp) (p : ℕ) : Prop where
  same : s.SameObjects s'
  conn : ∀ q, q ≠ p → s'.conn q = s.conn q
  buf : ∀ b, b ≠ (s.conn p).sendBuf → b ≠ (s.conn p).recvBuf → s'.buf b = s.buf b

namespace TcpTouches

variable {s s' s'' : Tcp} {p : ℕ}

theorem refl (s : Tcp) (p : ℕ) : TcpTouches s s p :=
  ⟨.refl s, fun _ _ => rfl, fun _ _ _ => rfl⟩

theorem trans (h : TcpTouches s s' p) (h' : TcpTouches s' s'' p) : TcpTouches s s'' p where
  same := h.same.trans h'.same
  conn q hq := (h'.conn q hq).trans (h.conn q hq)
  buf b hsend hrecv := by
    rw [h'.buf b (by rwa [h.same.sendBuf]) (by rwa [h.same.recvBuf]), h.buf b hsend hrecv]

/-- A write to the structure that leaves what identifies it. -/
theorem setConn {c : TcpConn} (hkey : c.key = (s.conn p).key)
    (hconfig : c.config = (s.conn p).config)
    (hsend : c.sendBuf = (s.conn p).sendBuf) (hrecv : c.recvBuf = (s.conn p).recvBuf)
    (hnext : c.next = (s.conn p).next) : TcpTouches s (s.setConn p c) p := by
  have hcases : ∀ {β : Type} (f : TcpConn → β), f c = f (s.conn p) →
      ∀ q, f ((s.setConn p c).conn q) = f (s.conn q) := by
    intro β f hf q
    rcases eq_or_ne q p with rfl | hq
    · rw [Tcp.setConn_self, hf]
    · rw [s.setConn_of_ne p c hq]
  exact ⟨⟨rfl, rfl, hcases _ hkey, hcases _ hconfig, hcases _ hsend, hcases _ hrecv,
    hcases _ hnext⟩, fun q hq => s.setConn_of_ne p c hq, fun _ _ _ => rfl⟩

/-- A write to one of the buffers. -/
theorem setBuf {b : ℕ} (d : ℕ → UInt8) (hb : b = (s.conn p).sendBuf ∨ b = (s.conn p).recvBuf) :
    TcpTouches s (s.setBuf b d) p := by
  refine ⟨⟨rfl, rfl, fun _ => rfl, fun _ => rfl, fun _ => rfl, fun _ => rfl, fun _ => rfl⟩,
    fun _ _ => rfl, fun b' hsend hrecv => Function.update_of_ne ?_ ..⟩
  rintro rfl
  exact hb.elim hsend hrecv

end TcpTouches

theorem touches_establish (s : Tcp) (p : ℕ) : TcpTouches s (s.establish p) p :=
  .setConn rfl rfl rfl rfl rfl

section Touches

variable (s : Tcp) (p : ℕ) (packet : NetPacket)

theorem touches_tcpSend (data : ℕ → UInt8) (length : UInt32) :
    TcpTouches s (tcpSend s p data length).2 p := by
  rw [tcpSend]
  dsimp only
  split_ifs
  · exact .refl s p
  · exact .refl s p
  · exact .refl s p
  · exact (TcpTouches.setBuf _ (Or.inl rfl)).trans (.setConn rfl rfl rfl rfl rfl)

theorem touches_tcpReceive (maxLength : UInt32) :
    TcpTouches s (tcpReceive s p maxLength).2 p := by
  rw [tcpReceive]
  dsimp only
  split_ifs
  · exact .refl s p
  · exact .refl s p
  · exact .refl s p
  · exact (TcpTouches.setBuf _ (Or.inr rfl)).trans (.setConn rfl rfl rfl rfl rfl)
  · exact .refl s p
  · exact (TcpTouches.setBuf _ (Or.inr rfl)).trans (.setConn rfl rfl rfl rfl rfl)

theorem touches_tcpReceiveAck : TcpTouches s (tcpReceiveAck s p packet) p := by
  rw [tcpReceiveAck]
  dsimp only
  split_ifs
  · exact (TcpTouches.setBuf _ (Or.inl rfl)).trans (.setConn rfl rfl rfl rfl rfl)
  · exact .setConn rfl rfl rfl rfl rfl

theorem touches_tcpReceiveData : TcpTouches s (tcpReceiveData s p packet) p := by
  rw [tcpReceiveData]
  dsimp only
  split_ifs
  · exact (TcpTouches.setBuf _ (Or.inr rfl)).trans (.setConn rfl rfl rfl rfl rfl)
  · exact .setConn rfl rfl rfl rfl rfl
  · exact .refl s p

theorem touches_tcpReceiveConn : TcpTouches s (tcpReceiveConn s p packet) p := by
  rw [tcpReceiveConn]
  refine .trans ?_ (.setConn rfl rfl rfl rfl rfl)
  cases (s.conn p).state with
  | established =>
    exact (touches_tcpReceiveAck s p packet).trans (touches_tcpReceiveData _ p packet)
  | _ => exact .refl s p

end Touches

end Rexus
