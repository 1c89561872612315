import Rexus.Net.TcpSend

/-!
# What a TCP connection has received

The receive buffer is a queue of the bytes of the peer's stream: a segment whose number is the next
one expected, and which fits in the window, goes behind its end, every other is dropped, and
`tcp_receive` takes bytes from its start.

A run carries two things the code does not keep: the bytes that `tcp_receive` has returned, and how
many bytes have been accepted. The second is counted where they come in, by how much a segment has
lengthened the buffer of the connection, and no call of `tcp_receive` changes it. So a byte that
has been accepted is accounted for ever after: the stream up to that count has been returned or is
in the buffer, and bytes the code dropped or took back would show as a difference.

## Main results

* `RecvInv.receive`, `RecvInv.segment` — the two operations on the queue
* `RecvInv.length_tcpReceive`, `RecvInv.recvLen_segment` — what they do to its length
* `tcp_receive_run` — the stream after every run, from the creation of the connection

## Scope

No path of the code sets the state `ESTABLISHED`, so a run starts where the caller has done so.
The calls of a run are those of one connection: `tcp_receive` for it, with any length, and segments
whose four-tuple is its own. A segment may come from any interface, be too short for a TCP header,
or have an offset that points behind its end; if it has data, they are bytes of the stream under the
number of the first, and that number is taken from less than `2 ^ 32` away from the next byte to be
accepted, for the code cannot tell numbers further apart from each other.
-/

namespace Rexus

open Bytes Run

/-- What has been returned and what is in the queue of `p` are the first bytes of the stream. -/
structure RecvInv (s : Tcp) (p : ℕ) (init : UInt32) (stream : ℕ → UInt8) (returned : List UInt8) :
    Prop where
  established : (s.conn p).state = .established
  nxt : (s.conn p).rcvNxt = init + UInt32.ofNat (returned.length + (s.conn p).recvLen.toNat)
  queue : returned ++ slice (s.buf (s.conn p).recvBuf) 0 (s.conn p).recvLen.toNat =
    slice stream 0 (returned.length + (s.conn p).recvLen.toNat)
  window : (s.conn p).recvLen.toNat + (s.conn p).rcvWnd.toNat = (s.conn p).config.windowSize.toNat

/-- The number of a byte of the stream, from `k` on, less than `2 ^ 32` away from `K`, is that of
byte `K` only if it is byte `K`. -/
theorem eq_of_seq {init : UInt32} {k K : ℕ} (h : init + UInt32.ofNat k = init + UInt32.ofNat K)
    (hk : k < K + 2 ^ 32) (hK : K < k + 2 ^ 32) : k = K := by
  have hmod := congrArg UInt32.toNat h
  have hinit := init.toNat_lt
  rw [UInt32.toNat_add, UInt32.toNat_add, UInt32.toNat_ofNat', UInt32.toNat_ofNat'] at hmod
  omega

namespace RecvInv

variable {s s' : Tcp} {p : ℕ} {init : UInt32} {stream : ℕ → UInt8} {returned : List UInt8}

/-- What the invariant is about. -/
theorem congr (h : RecvInv s p init stream returned) (hstate : (s'.conn p).state = (s.conn p).state)
    (hlen : (s'.conn p).recvLen = (s.conn p).recvLen)
    (hnxt : (s'.conn p).rcvNxt = (s.conn p).rcvNxt) (hwnd : (s'.conn p).rcvWnd = (s.conn p).rcvWnd)
    (hconfig : (s'.conn p).config = (s.conn p).config)
    (hbuf : s'.buf (s'.conn p).recvBuf = s.buf (s.conn p).recvBuf) :
    RecvInv s' p init stream returned where
  established := hstate.trans h.established
  nxt := by
    rw [hnxt, hlen]
    exact h.nxt
  queue := by
    rw [hbuf, hlen]
    exact h.queue
  window := by
    rw [hlen, hwnd, hconfig]
    exact h.window

/-- **Taking bytes out.** -/
theorem receive (h : RecvInv s p init stream returned) (maxLength : UInt32) :
    RecvInv (tcpReceive s p maxLength).2 p init stream
      (returned ++ (tcpReceive s p maxLength).1) := by
  have hwindow := h.window
  have hsize := (s.conn p).config.windowSize.toNat_lt
  have htake : ∀ n : UInt32, n ≤ (s.conn p).recvLen →
      RecvInv ((s.setBuf (s.conn p).recvBuf (blit (s.buf (s.conn p).recvBuf) 0
          (s.buf (s.conn p).recvBuf) n.toNat ((s.conn p).recvLen - n).toNat)).setConn p
          { s.conn p with
            recvLen := (s.conn p).recvLen - n
            rcvWnd := (s.conn p).rcvWnd + n }) p init stream
        (returned ++ slice (s.buf (s.conn p).recvBuf) 0 n.toNat) := by
    intro n hn
    have hsub : ((s.conn p).recvLen - n).toNat = (s.conn p).recvLen.toNat - n.toNat :=
      UInt32.toNat_sub_of_le _ _ hn
    rw [UInt32.le_iff_toNat_le] at hn
    have hcount : returned.length + n.toNat + ((s.conn p).recvLen.toNat - n.toNat) =
        returned.length + (s.conn p).recvLen.toNat := by omega
    refine ⟨?_, ?_, ?_, ?_⟩ <;> rw [Tcp.setConn_self]
    · exact h.established
    · rw [hsub, List.length_append, length_slice, hcount]
      exact h.nxt
    · show _ ++ slice (Function.update s.buf _ _ _) 0 _ = _
      rw [Function.update_self, hsub, slice_shift _ hn, List.length_append, length_slice, hcount,
        ← h.queue, List.append_assoc, ← take_slice _ 0 hn, List.take_append_drop]
    · rw [hsub, UInt32.toNat_add, Nat.mod_eq_of_lt (by omega)]
      show _ = (s.conn p).config.windowSize.toNat
      omega
  rw [tcpReceive]
  dsimp only
  split_ifs with hargs hstate hle
  · rwa [List.append_nil]
  · rwa [List.append_nil]
  · rwa [List.append_nil]
  · exact htake maxLength (UInt32.le_of_lt hle)
  · rwa [List.append_nil]
  · exact htake _ (UInt32.le_refl _)

/-- What a call of `tcp_receive` returns is missing in the queue, and nothing else is. -/
theorem length_tcpReceive (s : Tcp) (p : ℕ) (maxLength : UInt32) :
    (tcpReceive s p maxLength).1.length + ((tcpReceive s p maxLength).2.conn p).recvLen.toNat =
      (s.conn p).recvLen.toNat := by
  have htake : ∀ n : UInt32, n ≤ (s.conn p).recvLen →
      n.toNat + ((s.conn p).recvLen - n).toNat = (s.conn p).recvLen.toNat := by
    intro n hn
    rw [UInt32.toNat_sub_of_le _ _ hn]
    exact Nat.add_sub_of_le (UInt32.le_iff_toNat_le.mp hn)
  rw [tcpReceive]
  dsimp only
  split_ifs with hargs hstate hle
  · exact Nat.zero_add _
  · exact Nat.zero_add _
  · exact Nat.zero_add _
  · rw [Tcp.setConn_self, length_slice]
    exact htake _ (UInt32.le_of_lt hle)
  · exact Nat.zero_add _
  · rw [Tcp.setConn_self, length_slice]
    exact htake _ (UInt32.le_refl _)

/-- The acknowledgment of a segment is no matter of the queue. -/
theorem receiveAck (h : RecvInv s p init stream returned) (packet : NetPacket)
    (hbuf : (s.conn p).recvBuf ≠ (s.conn p).sendBuf) :
    RecvInv (tcpReceiveAck s p packet) p init stream returned ∧
      ((tcpReceiveAck s p packet).conn p).recvLen = (s.conn p).recvLen := by
  rw [tcpReceiveAck]
  dsimp only
  split_ifs
  · refine ⟨h.congr ?_ ?_ ?_ ?_ ?_ ?_, ?_⟩ <;> rw [Tcp.setConn_self]
    exact Function.update_of_ne hbuf ..
  · refine ⟨h.congr ?_ ?_ ?_ ?_ ?_ ?_, ?_⟩ <;> rw [Tcp.setConn_self]
    rfl

end RecvInv

/-- The segment carries bytes of the stream: those from some `k` on, not `2 ^ 32` or more away from
byte `K`, under the number of byte `k`. -/
def Carries (init : UInt32) (stream : ℕ → UInt8) (K : ℕ) (packet : NetPacket) : Prop :=
  tcpHeaderLen packet ≤ packet.length → ∃ k, le32 packet.bytes 4 = init + UInt32.ofNat k ∧
    k < K + 2 ^ 32 ∧ K < k + 2 ^ 32 ∧ ∀ j < packet.length - tcpHeaderLen packet,
      packet.bytes (tcpHeaderLen packet + j) = stream (k + j)

namespace RecvInv

variable {s s' : Tcp} {p : ℕ} {init : UInt32} {stream : ℕ → UInt8} {returned : List UInt8}
  {packet : NetPacket}

/-- **The data of a segment** goes into the queue if it is what comes next. -/
theorem receiveData (h : RecvInv s p init stream returned) (hlen : packet.length ≤ 65535)
    (hheader : tcpHeaderLen packet ≤ packet.length)
    (hdata : Carries init stream (returned.length + (s.conn p).recvLen.toNat) packet) :
    RecvInv (tcpReceiveData s p packet) p init stream returned := by
  rw [tcpReceiveData]
  dsimp only
  split_ifs with hpos haccept
  · obtain ⟨hseq, hfits⟩ := haccept
    obtain ⟨k, hk, hkK, hKk, hbytes⟩ := hdata hheader
    obtain rfl := eq_of_seq (hk.symm.trans (hseq.trans h.nxt)) hkK hKk
    have hn : (UInt32.ofNat (packet.length - tcpHeaderLen packet)).toNat =
        packet.length - tcpHeaderLen packet := by
      rw [UInt32.toNat_ofNat', Nat.mod_eq_of_lt (by omega)]
    generalize UInt32.ofNat (packet.length - tcpHeaderLen packet) = n at hn hfits hpos ⊢
    have hwindow := h.window
    have hsize := (s.conn p).config.windowSize.toNat_lt
    have hadd : ((s.conn p).recvLen + n).toNat = (s.conn p).recvLen.toNat + n.toNat := by
      rw [UInt32.toNat_add, Nat.mod_eq_of_lt (by omega)]
    rw [UInt32.le_iff_toNat_le, hadd, UInt16.toNat_toUInt32] at hfits
    have hsub : ((s.conn p).rcvWnd - n).toNat = (s.conn p).rcvWnd.toNat - n.toNat :=
      UInt32.toNat_sub_of_le _ _ (UInt32.le_iff_toNat_le.mpr (by omega))
    refine ⟨?_, ?_, ?_, ?_⟩ <;> rw [Tcp.setConn_self]
    · exact h.established
    · rw [hadd, h.nxt, ← Nat.add_assoc, UInt32.ofNat_add _ n.toNat, UInt32.ofNat_toNat,
        UInt32.add_assoc]
    · show _ ++ slice (Function.update s.buf _ _ _) 0 _ = _
      rw [Function.update_self, hadd, slice_blit_append, ← List.append_assoc, h.queue,
        ← Nat.add_assoc, slice_add stream 0 (_ + _) n.toNat, Nat.zero_add]
      refine congrArg _ (slice_congr fun j hj => ?_)
      exact hbytes j (hn ▸ hj)
    · rw [hadd, hsub]
      show _ = (s.conn p).config.windowSize.toNat
      omega
  · refine h.congr ?_ ?_ ?_ ?_ ?_ ?_ <;> rw [Tcp.setConn_self]
    rfl
  · exact h

/-- How many bytes of a segment with a good header are accepted: all of its data, if they have the
number of the next byte and fit in the window, and else none. -/
def accepts (s : Tcp) (p : ℕ) (packet : NetPacket) : ℕ :=
  if le32 packet.bytes 4 = (s.conn p).rcvNxt ∧
      (s.conn p).recvLen.toNat + (packet.length - tcpHeaderLen packet) ≤
        (s.conn p).config.windowSize.toNat then
    packet.length - tcpHeaderLen packet
  else 0

/-- The queue gets longer by the bytes accepted. -/
theorem recvLen_receiveData (h : RecvInv s p init stream returned) (hlen : packet.length ≤ 65535) :
    ((tcpReceiveData s p packet).conn p).recvLen.toNat =
      (s.conn p).recvLen.toNat + accepts s p packet := by
  have hwindow := h.window
  have hsize := (s.conn p).config.windowSize.toNat_lt
  have hn : (UInt32.ofNat (packet.length - tcpHeaderLen packet)).toNat =
      packet.length - tcpHeaderLen packet := by
    rw [UInt32.toNat_ofNat', Nat.mod_eq_of_lt (by omega)]
  have hadd : ((s.conn p).recvLen + UInt32.ofNat (packet.length - tcpHeaderLen packet)).toNat =
      (s.conn p).recvLen.toNat + (packet.length - tcpHeaderLen packet) := by
    rw [UInt32.toNat_add, hn, Nat.mod_eq_of_lt (by omega)]
  have hfits : (s.conn p).recvLen.toNat + (packet.length - tcpHeaderLen packet) ≤
      (s.conn p).config.windowSize.toNat ↔ (s.conn p).recvLen +
        UInt32.ofNat (packet.length - tcpHeaderLen packet) ≤
          (s.conn p).config.windowSize.toUInt32 := by
    rw [UInt32.le_iff_toNat_le, hadd, UInt16.toNat_toUInt32]
  rw [tcpReceiveData]
  simp only [accepts, hfits]
  split_ifs with hpos haccept haccept
  · rw [Tcp.setConn_self, ← hadd]
  · rw [Tcp.setConn_self, Nat.add_zero]
  · -- a segment without data
    rw [UInt32.lt_iff_toNat_lt, hn] at hpos
    exact (Nat.add_eq_left.mpr (Nat.eq_zero_of_not_pos hpos)).symm
  · exact (Nat.add_zero _).symm

/-- **A segment** of the stream. -/
theorem segment (h : RecvInv s p init stream returned)
    (hbuf : (s.conn p).recvBuf ≠ (s.conn p).sendBuf) (hlen : packet.length ≤ 65535)
    (hheader : tcpHeaderLen packet ≤ packet.length)
    (hdata : Carries init stream (returned.length + (s.conn p).recvLen.toNat) packet) :
    RecvInv (tcpReceiveConn s p packet) p init stream returned := by
  obtain ⟨h₁, heq⟩ := h.receiveAck packet hbuf
  have h₂ := h₁.receiveData hlen hheader (heq ▸ hdata)
  rw [tcpReceiveConn, h.established]
  refine h₂.congr ?_ ?_ ?_ ?_ ?_ ?_ <;> rw [Tcp.setConn_self]
  rfl

/-- A segment makes the queue longer by the bytes accepted of it. -/
theorem recvLen_segment (h : RecvInv s p init stream returned)
    (hbuf : (s.conn p).recvBuf ≠ (s.conn p).sendBuf) (hlen : packet.length ≤ 65535) :
    ((tcpReceiveConn s p packet).conn p).recvLen.toNat =
      (s.conn p).recvLen.toNat + accepts s p packet := by
  obtain ⟨h₁, heq⟩ := h.receiveAck packet hbuf
  rw [tcpReceiveConn, h.established, Tcp.setConn_self]
  refine (h₁.recvLen_receiveData hlen).trans ?_
  rw [accepts, accepts, heq, (touches_tcpReceiveAck s p packet).same.config, h₁.nxt, h.nxt, heq]

end RecvInv

/-! ### Runs -/

/-- The connections, what `tcp_receive` has returned for one of them, and how many bytes have been
accepted for it. -/
structure Receiving where
  tcp : Tcp
  returned : List UInt8
  accepted : ℕ

/-- A call: a read of the connection, or a packet that arrives. Which packets may arrive in a run is
said where the run is defined. -/
inductive ReceiveOp where
  | receive (maxLength : UInt32)
  | packet (iface : ℕ) (packet : NetPacket)

namespace Receiving

/-- The bytes a segment has put into the buffer are accepted. -/
def received (p : ℕ) (w : Receiving) (tcp : Tcp) : Receiving :=
  ⟨tcp, w.returned, w.accepted + ((tcp.conn p).recvLen.toNat - (w.tcp.conn p).recvLen.toNat)⟩

/-- One call. There is no next state where the list of the connections does not end. -/
def step (p : ℕ) (w : Receiving) : ReceiveOp → Option Receiving
  | .receive maxLength =>
    match tcpReceive w.tcp p maxLength with
    | (bytes, tcp) => some ⟨tcp, w.returned ++ bytes, w.accepted⟩
  | .packet iface packet => (tcpReceivePacket w.tcp iface packet).map (w.received p)

/-- The segments are for the connection, and carry bytes of the stream. -/
def Allowed (p : ℕ) (init : UInt32) (stream : ℕ → UInt8) (w : Receiving) : ReceiveOp → Prop
  | .receive _ => True
  | .packet _ packet => packet.length ≤ 65535 ∧ tcpPacketKey packet = (w.tcp.conn p).key ∧
    Carries init stream w.accepted packet

/-- How many bytes a call accepts: those of a segment with a good header that is what comes next. -/
def accepts (p : ℕ) (w : Receiving) : ReceiveOp → ℕ
  | .receive _ => 0
  | .packet iface packet =>
    if iface ≠ 0 ∧ 20 ≤ tcpHeaderLen packet ∧ tcpHeaderLen packet ≤ packet.length then
      RecvInv.accepts w.tcp p packet
    else 0

/-- The step relation of a run. What arrives for the connection is a piece of one stream, at the
place its sequence number says, and a call that does not return is no step. -/
def Step (p : ℕ) (init : UInt32) (stream : ℕ → UInt8) (w : Receiving) (op : ReceiveOp)
    (w' : Receiving) : Prop :=
  w.Allowed p init stream op ∧ w.step p op = some w'

end Receiving

/-- What the receive buffer is to be, after a run from `tcp`. The count of the accepted bytes is
kept by the run and grows by what a segment adds; that these bytes are the returned ones and the
buffered ones is what is to be shown. -/
structure ReceiveSpec (p : ℕ) (conns : List ℕ) (tcp : Tcp) (stream : ℕ → UInt8) (w : Receiving) :
    Prop where
  /-- What has been returned and what is in the buffer are the bytes accepted, -/
  stream : w.returned ++ slice (w.tcp.buf (w.tcp.conn p).recvBuf) 0 (w.tcp.conn p).recvLen.toNat =
    slice stream 0 w.accepted
  nxt : (w.tcp.conn p).rcvNxt = (tcp.conn p).rcvNxt + UInt32.ofNat w.accepted
  /-- what is in the buffer and the window make up a window, -/
  window : (w.tcp.conn p).recvLen.toNat + (w.tcp.conn p).rcvWnd.toNat =
    (tcp.conn p).config.windowSize.toNat
  /-- and the other connections are as they were. -/
  others : ∀ q ∈ conns, q ≠ p → w.tcp.conn q = tcp.conn q ∧
    w.tcp.buf (tcp.conn q).sendBuf = tcp.buf (tcp.conn q).sendBuf ∧
    w.tcp.buf (tcp.conn q).recvBuf = tcp.buf (tcp.conn q).recvBuf

/-- The invariant of a run from `tcp`: the connection is in its list and the only one of its
four-tuple, nothing but the connection has been touched, and its buffer has what was accepted and
not returned. -/
structure RecvRunInv (base : Pmm) (rest : List Allocation) (pmm : Pmm) (conns : List ℕ) (p : ℕ)
    (tcp : Tcp) (stream : ℕ → UInt8) (w : Receiving) : Prop where
  list : TcpInv base rest pmm w.tcp conns
  mem : p ∈ conns
  unique : ∀ q ∈ conns, (w.tcp.conn q).key = (w.tcp.conn p).key → q = p
  touches : TcpTouches tcp w.tcp p
  recv : RecvInv w.tcp p (tcp.conn p).rcvNxt stream w.returned
  accepted : w.accepted = w.returned.length + (w.tcp.conn p).recvLen.toNat

namespace RecvRunInv

variable {base pmm : Pmm} {rest : List Allocation} {conns : List ℕ} {p : ℕ} {tcp : Tcp}
  {stream : ℕ → UInt8} {w : Receiving}

theorem spec (h : RecvRunInv base rest pmm conns p tcp stream w) :
    ReceiveSpec p conns tcp stream w where
  stream := by
    rw [h.accepted]
    exact h.recv.queue
  nxt := by
    rw [h.accepted]
    exact h.recv.nxt
  window := by
    rw [← h.touches.same.config]
    exact h.recv.window
  others q hq hqp := by
    have hne := (h.list.buffers_ne h.mem).2 q hq hqp
    have hconn := h.touches.conn q hqp
    rw [hconn, h.touches.same.sendBuf p, h.touches.same.recvBuf p] at hne
    obtain ⟨hss, hsr⟩ := hne _ (Or.inl rfl)
    obtain ⟨hrs, hrr⟩ := hne _ (Or.inr rfl)
    exact ⟨hconn, h.touches.buf _ hss hsr, h.touches.buf _ hrs hrr⟩

/-- A call that changes the connection only. -/
theorem of_touches (h : RecvRunInv base rest pmm conns p tcp stream w) {tcp' : Tcp}
    {returned : List UInt8} {accepted : ℕ} (ht : TcpTouches w.tcp tcp' p)
    (hrecv : RecvInv tcp' p (tcp.conn p).rcvNxt stream returned)
    (haccepted : accepted = returned.length + (tcp'.conn p).recvLen.toNat) :
    RecvRunInv base rest pmm conns p tcp stream ⟨tcp', returned, accepted⟩ where
  list := h.list.congr ht.same
  mem := h.mem
  unique q hq hkey := by
    rw [ht.same.key, ht.same.key] at hkey
    exact h.unique q hq hkey
  touches := h.touches.trans ht
  recv := hrecv
  accepted := haccepted

/-- A segment that is dropped before its connection is looked up. -/
theorem received_self (w : Receiving) (p : ℕ) : w.received p w.tcp = w := by
  rw [Receiving.received, Nat.sub_self, Nat.add_zero]

/-- **One call keeps the invariant**, and accepts what it is to accept. -/
theorem step (h : RecvRunInv base rest pmm conns p tcp stream w) {op : ReceiveOp}
    (hop : w.Allowed p (tcp.conn p).rcvNxt stream op) :
    ∃ w', w.step p op = some w' ∧ RecvRunInv base rest pmm conns p tcp stream w' ∧
      w'.accepted = w.accepted + w.accepts p op := by
  cases op with
  | receive maxLength =>
    have hlen := RecvInv.length_tcpReceive w.tcp p maxLength
    refine ⟨⟨(tcpReceive w.tcp p maxLength).2, w.returned ++ (tcpReceive w.tcp p maxLength).1,
      w.accepted⟩, rfl, h.of_touches (touches_tcpReceive w.tcp p maxLength)
      (h.recv.receive maxLength) ?_, rfl⟩
    rw [h.accepted, List.length_append, Nat.add_assoc, hlen]
  | packet iface packet =>
    obtain ⟨hlen, hkey, hdata⟩ := hop
    have hp : p ≠ 0 := fun hp => h.list.list.null_notMem (hp ▸ h.mem)
    rw [Receiving.step, tcpReceivePacket, Receiving.accepts]
    split_ifs with hargs hgood hheader hgood hgood
    · -- no interface, or too short for any header
      omega
    · exact ⟨w, congrArg some (received_self w p), h, rfl⟩
    · omega
    · exact ⟨w, congrArg some (received_self w p), h, rfl⟩
    · rw [hkey, h.list.lookup_key h.mem h.unique, Option.map_some, Option.map_some, if_neg hp]
      have hbuf := (h.list.buffers_ne h.mem).1.symm
      have hgrow := h.recv.recvLen_segment hbuf hlen
      have hadded : w.accepted + (((tcpReceiveConn w.tcp p packet).conn p).recvLen.toNat -
          (w.tcp.conn p).recvLen.toNat) = w.accepted + RecvInv.accepts w.tcp p packet := by
        rw [hgrow, Nat.add_sub_cancel_left]
      refine ⟨_, rfl, h.of_touches (touches_tcpReceiveConn w.tcp p packet)
        (h.recv.segment hbuf hlen (Nat.not_lt.mp (not_or.mp hheader).2) (h.accepted ▸ hdata)) ?_,
        hadded⟩
      rw [hadded, hgrow, h.accepted, Nat.add_assoc]
    · omega

end RecvRunInv

/-- **Every run** on a connection that has been created with a four-tuple of its own, in whatever
state of the lists, and then set to `ESTABLISHED`. -/
theorem tcp_receive_run {base : Pmm} (h0 : pmmTestBlock base 0 = true) {currentTime : UInt32}
    {conn : ℕ → TcpConn} {socket : ℕ → UdpSocket} {buf : ℕ → ℕ → UInt8} {r : Sockets}
    (hr : Reaches Sockets.Step (.start base currentTime conn socket buf) r)
    {localAddr remoteAddr : Option Ipv4Addr} {localPort remotePort : UInt16}
    {config : Option TcpConfig} {p : ℕ} {pmm : Pmm} {tcp : Tcp}
    (hcreate : tcpCreateConnection r.pmm r.tcp localAddr localPort remoteAddr remotePort config =
      (p, pmm, tcp)) (hp : p ≠ 0) (hkey : ∀ q ∈ r.conns, (tcp.conn q).key ≠ (tcp.conn p).key)
    {stream : ℕ → UInt8} {w : Receiving}
    (hrun : Reaches (Receiving.Step p (tcp.conn p).rcvNxt stream) ⟨tcp.establish p, [], 0⟩ w) :
    ReceiveSpec p (p :: r.conns) (tcp.establish p) stream w ∧
      ∀ op, w.Allowed p (tcp.conn p).rcvNxt stream op → ∃ w', w.step p op = some w' ∧
        ReceiveSpec p (p :: r.conns) (tcp.establish p) stream w' ∧
        w'.accepted = w.accepted + w.accepts p op := by
  have hsockets := (SocketsInv.start h0 currentTime conn socket buf).of_reaches hr
  obtain ⟨hinv, a, b, sendBuf, recvBuf, hconn⟩ := hsockets.created hcreate hp
  have hestablish := touches_establish tcp p
  have hnxt : ((tcp.establish p).conn p).rcvNxt = (tcp.conn p).rcvNxt := by
    rw [Tcp.establish, Tcp.setConn_self]
  have h : RecvRunInv r.base r.udpAllocs pmm (p :: r.conns) p (tcp.establish p) stream w := by
    refine hrun.invariant (I := RecvRunInv r.base r.udpAllocs pmm (p :: r.conns) p
      (tcp.establish p) stream) ⟨hinv.congr hestablish.same, List.mem_cons_self, ?_, .refl _ p,
        ⟨?_, ?_, ?_, ?_⟩, ?_⟩ fun w op w' hw hstep => ?_
    · intro q hq heq
      rw [hestablish.same.key, hestablish.same.key] at heq
      exact (List.mem_cons.mp hq).resolve_right fun hq => hkey q hq heq
    · rw [Tcp.establish, Tcp.setConn_self]
    · rw [Tcp.establish, Tcp.setConn_self, hconn]
      exact (UInt32.add_zero _).symm
    · rw [Tcp.establish, Tcp.setConn_self, hconn]
      rfl
    · rw [Tcp.establish, Tcp.setConn_self, hconn]
      exact (Nat.zero_add _).trans (UInt16.toNat_toUInt32 _)
    · rw [Tcp.establish, Tcp.setConn_self, hconn]
      rfl
    · rw [← hnxt] at hstep
      obtain ⟨v, hv, hinv, -⟩ := hw.step hstep.1
      exact Option.some_inj.mp (hv.symm.trans hstep.2) ▸ hinv
  refine ⟨h.spec, fun op hop => ?_⟩
  rw [← hnxt] at hop
  obtain ⟨w', hw', hinv', haccepted⟩ := h.step hop
  exact ⟨w', hw', hinv'.spec, haccepted⟩

/-- A segment of twenty bytes of header and two of data, for the first connection. -/
def twoBytes : NetPacket where
  addr := 0
  data := 0
  bytes := fun k => if k = 0 then 0 else if k = 1 then 4 else if k = 2 then 80
    else if k = 12 then 0x50 else if k = 20 then 7 else if k = 21 then 8 else 0
  length := 22
  protocol := .tcp
  priority := 0
  iface := 4096
  srcAddr := ⟨fun _ => 0⟩
  destAddr := ⟨fun _ => 0⟩

/-- The stream it is the beginning of. -/
def sevenEight (k : ℕ) : UInt8 := UInt8.ofNat (k + 7)

/-- The segment is received, and one byte taken out. -/
def receivedOne : Receiving :=
  ⟨(tcpReceive (tcpReceiveConn (firstConnection.2.2.establish 4096) 4096 twoBytes) 4096 1).2,
    [7], 2⟩

theorem tcp_receive_run_two :
    ReceiveSpec 4096 [4096] (firstConnection.2.2.establish 4096) sevenEight receivedOne ∧
      ∀ op, receivedOne.Allowed 4096 (firstConnection.2.2.conn 4096).rcvNxt sevenEight op →
        ∃ w', receivedOne.step 4096 op = some w' ∧
          ReceiveSpec 4096 [4096] (firstConnection.2.2.establish 4096) sevenEight w' ∧
          w'.accepted = receivedOne.accepted + receivedOne.accepts 4096 op := by
  have hcreate : firstConnection = (4096, firstConnection.2.1, firstConnection.2.2) :=
    Prod.ext firstConnection_eq rfl
  generalize hs : firstConnection.2.2.establish 4096 = s
  have h₁ : Receiving.Step 4096 (firstConnection.2.2.conn 4096).rcvNxt sevenEight
      ⟨s, [], 0⟩ (.packet 4096 twoBytes) ⟨tcpReceiveConn s 4096 twoBytes, [], 2⟩ := by
    refine ⟨⟨by decide, ?_, fun _ => ⟨0, ?_, ?_, ?_, by decide +kernel⟩⟩, ?_⟩
    · rw [← hs]
      decide +kernel
    · decide +kernel
    · exact Nat.lt_of_lt_of_le (by decide) (Nat.le_add_left _ _)
    · rw [← hs]
      decide +kernel
    · have hlookup : s.lookup (tcpPacketKey twoBytes) = some 4096 := by
        rw [← hs]
        decide +kernel
      have hgrown : ((tcpReceiveConn s 4096 twoBytes).conn 4096).recvLen.toNat -
          (s.conn 4096).recvLen.toNat = 2 := by
        rw [← hs]
        decide +kernel
      rw [Receiving.step, tcpReceivePacket, if_neg (by decide), if_neg (by decide +kernel), hlookup]
      exact congrArg (fun n => some (Receiving.mk (tcpReceiveConn s 4096 twoBytes) [] (0 + n)))
        hgrown
  have h₂ : Receiving.Step 4096 (firstConnection.2.2.conn 4096).rcvNxt sevenEight
      ⟨tcpReceiveConn s 4096 twoBytes, [], 2⟩ (.receive 1) receivedOne := by
    have hbytes : (tcpReceive (tcpReceiveConn s 4096 twoBytes) 4096 1).1 = [7] := by
      rw [← hs]
      decide +kernel
    refine ⟨trivial, ?_⟩
    rw [Receiving.step, ← Prod.mk.eta (p := tcpReceive _ _ _), hbytes, receivedOne, hs]
    rfl
  subst hs
  exact tcp_receive_run (by decide) (Reaches.refl noSockets) hcreate (by decide)
    (fun _ hq => absurd hq List.not_mem_nil) (((Reaches.refl _).tail h₁).tail h₂)

end Rexus
