import Rexus.Net.Sockets
import Rexus.Net.TcpStream

/-!
# What a TCP connection has to send

The send buffer is a queue: `tcp_send` puts bytes behind its end, an acknowledgment takes bytes from
its start. An acknowledgment is any number; only one between the oldest unacknowledged byte and the
last is taken. A run carries the bytes that `tcp_send` has accepted, in order.

## Main results

* `SendInv.send`, `SendInv.ack` — the two operations on the queue
* `tcp_send_run` — the queue after every run, from the creation of the connection

## Conventions

Sequence numbers are words of thirty-two bits, and an acknowledgment is taken by its difference to
the oldest unacknowledged one, modulo `2 ^ 32`; so it does not matter where the numbers began or
whether they have wrapped. The list of what was accepted goes back to the creation of the
connection, and never shrinks.

A run is about one connection, in a state with others, and calls `tcp_send`, `tcp_receive` and
`tcp_receive_packet`, the first two for any open connection and the last with any packet. The data
to be sent lies beside the buffers of the connection, which leaves it less than 4 GiB. No function
of the module establishes a connection; that it is established is part of where a run begins.
-/

namespace Rexus

open Bytes Run

/-- The queue of `p` is what has been accepted, from the first unacknowledged byte on. -/
structure SendInv (s : Tcp) (p : ℕ) (sent : List UInt8) : Prop where
  established : (s.conn p).state = .established
  le : (s.conn p).sendLen.toNat ≤ sent.length
  una : (s.conn p).sndUna = (s.conn p).config.initialSeq +
    UInt32.ofNat (sent.length - (s.conn p).sendLen.toNat)
  queue : slice (s.buf (s.conn p).sendBuf) 0 (s.conn p).sendLen.toNat =
    sent.drop (sent.length - (s.conn p).sendLen.toNat)
  window : (s.conn p).sendLen.toNat ≤ (s.conn p).config.windowSize.toNat

namespace SendInv

variable {s s' : Tcp} {p : ℕ} {sent : List UInt8}

/-- What the invariant is about. -/
theorem congr (h : SendInv s p sent) (hstate : (s'.conn p).state = (s.conn p).state)
    (hlen : (s'.conn p).sendLen = (s.conn p).sendLen)
    (huna : (s'.conn p).sndUna = (s.conn p).sndUna)
    (hconfig : (s'.conn p).config = (s.conn p).config)
    (hbuf : s'.buf (s'.conn p).sendBuf = s.buf (s.conn p).sendBuf) : SendInv s' p sent where
  established := hstate.trans h.established
  le := hlen ▸ h.le
  una := by
    rw [huna, hconfig, hlen]
    exact h.una
  queue := by
    rw [hbuf, hlen]
    exact h.queue
  window := by
    rw [hlen, hconfig]
    exact h.window

/-- The length of the queue and a length that is not near `2 ^ 32` add up. -/
theorem toNat_add (h : SendInv s p sent) {length : UInt32} (hlt : length.toNat < 2 ^ 32 - 65535) :
    ((s.conn p).sendLen + length).toNat = (s.conn p).sendLen.toNat + length.toNat := by
  have hwindow := h.window
  have hsize := (s.conn p).config.windowSize.toNat_lt
  rw [UInt32.toNat_add, Nat.mod_eq_of_lt (by omega)]

/-- **Sending.** Bytes are accepted if and only if they fit in the window; else nothing changes. -/
theorem send (h : SendInv s p sent) (hp : p ≠ 0) (data : ℕ → UInt8) {length : UInt32}
    (hpos : 0 < length.toNat) (hlt : length.toNat < 2 ^ 32 - 65535) :
    tcpSend s p data length = (false, s) ∧
        (s.conn p).config.windowSize.toNat < (s.conn p).sendLen.toNat + length.toNat ∨
      ∃ s', tcpSend s p data length = (true, s') ∧
        (s.conn p).sendLen.toNat + length.toNat ≤ (s.conn p).config.windowSize.toNat ∧
        SendInv s' p (sent ++ slice data 0 length.toNat) ∧
        (s'.conn p).sendLen.toNat = (s.conn p).sendLen.toNat + length.toNat := by
  have hadd := h.toNat_add hlt
  have hlen0 : length ≠ 0 := by
    rintro rfl
    exact absurd hpos (by decide)
  rw [tcpSend]
  dsimp only
  rw [if_neg (not_or.mpr ⟨hp, hlen0⟩), if_neg (not_not.mpr h.established)]
  split_ifs with hfull
  · rw [UInt32.lt_iff_toNat_lt, hadd, UInt16.toNat_toUInt32] at hfull
    exact Or.inl ⟨rfl, hfull⟩
  · rw [UInt32.lt_iff_toNat_lt, hadd, UInt16.toNat_toUInt32, Nat.not_lt] at hfull
    refine Or.inr ⟨_, rfl, hfull, ?_, ?_⟩
    · have hle := h.le
      have hsub : (sent ++ slice data 0 length.toNat).length -
          ((s.conn p).sendLen.toNat + length.toNat) = sent.length - (s.conn p).sendLen.toNat := by
        rw [List.length_append, length_slice]
        omega
      refine ⟨?_, ?_, ?_, ?_, ?_⟩ <;> rw [Tcp.setConn_self]
      · exact h.established
      · rw [hadd, List.length_append, length_slice]
        omega
      · rw [hadd, hsub]
        exact h.una
      · rw [hadd, hsub, List.drop_append_of_le_length (by omega), ← h.queue]
        show slice (Function.update s.buf _ _ _) 0 _ = _
        rw [Function.update_self, slice_blit_append]
      · rw [hadd]
        exact hfull
    · rw [Tcp.setConn_self, hadd]

/-- **An acknowledgment** takes bytes from the start of the queue, or nothing. -/
theorem ack (h : SendInv s p sent) (packet : NetPacket) :
    SendInv (tcpReceiveAck s p packet) p sent ∧
      ((tcpReceiveAck s p packet).conn p).sendLen.toNat ≤ (s.conn p).sendLen.toNat := by
  rw [tcpReceiveAck]
  dsimp only
  split_ifs with hack
  · obtain ⟨-, -, hacked⟩ := hack
    generalize hacked' : le32 packet.bytes 8 - (s.conn p).sndUna = acked at hacked ⊢
    have hnum : le32 packet.bytes 8 = (s.conn p).sndUna + acked := by
      rw [← hacked', UInt32.add_comm, UInt32.sub_add_cancel]
    have hle := h.le
    have hwindow := h.window
    have hsub : ((s.conn p).sendLen - acked).toNat = (s.conn p).sendLen.toNat - acked.toNat :=
      UInt32.toNat_sub_of_le _ _ hacked
    rw [UInt32.le_iff_toNat_le] at hacked
    have hcount : sent.length - ((s.conn p).sendLen.toNat - acked.toNat) =
        sent.length - (s.conn p).sendLen.toNat + acked.toNat := by omega
    refine ⟨⟨?_, ?_, ?_, ?_, ?_⟩, ?_⟩ <;> rw [Tcp.setConn_self]
    · exact h.established
    · rw [hsub]
      omega
    · rw [hsub, hcount, hnum, h.una, UInt32.ofNat_add, UInt32.ofNat_toNat, UInt32.add_assoc]
    · show slice (Function.update s.buf _ _ _) 0 _ = _
      rw [Function.update_self, hsub, slice_shift _ hacked, h.queue, List.drop_drop, hcount]
    · rw [hsub]
      exact Nat.le_trans (Nat.sub_le _ _) hwindow
    · rw [hsub]
      exact Nat.sub_le _ _
  · refine ⟨h.congr ?_ ?_ ?_ ?_ ?_, ?_⟩ <;> rw [Tcp.setConn_self]
    rfl

/-- What a call does to another connection. -/
theorem of_touches (h : SendInv s p sent) {q : ℕ} (ht : TcpTouches s s' q) (hpq : p ≠ q)
    (hbuf : (s.conn p).sendBuf ≠ (s.conn q).sendBuf ∧ (s.conn p).sendBuf ≠ (s.conn q).recvBuf) :
    SendInv s' p sent ∧ (s'.conn p).sendLen = (s.conn p).sendLen := by
  have hconn := ht.conn p hpq
  refine ⟨h.congr ?_ ?_ ?_ ?_ ?_, ?_⟩ <;> rw [hconn]
  exact ht.buf _ hbuf.1 hbuf.2

/-- Receiving data is no matter of the queue. -/
theorem receiveData (h : SendInv s p sent) (packet : NetPacket)
    (hbuf : (s.conn p).sendBuf ≠ (s.conn p).recvBuf) :
    SendInv (tcpReceiveData s p packet) p sent ∧
      ((tcpReceiveData s p packet).conn p).sendLen = (s.conn p).sendLen := by
  rw [tcpReceiveData]
  dsimp only
  split_ifs
  · refine ⟨h.congr ?_ ?_ ?_ ?_ ?_, ?_⟩ <;> rw [Tcp.setConn_self]
    exact Function.update_of_ne hbuf ..
  · refine ⟨h.congr ?_ ?_ ?_ ?_ ?_, ?_⟩ <;> rw [Tcp.setConn_self]
    rfl
  · exact ⟨h, rfl⟩

/-- A segment for the connection. -/
theorem receiveConn (h : SendInv s p sent) (packet : NetPacket)
    (hbuf : (s.conn p).sendBuf ≠ (s.conn p).recvBuf) :
    SendInv (tcpReceiveConn s p packet) p sent ∧
      ((tcpReceiveConn s p packet).conn p).sendLen.toNat ≤ (s.conn p).sendLen.toNat := by
  have hack := touches_tcpReceiveAck s p packet
  obtain ⟨h₁, hle⟩ := h.ack packet
  obtain ⟨h₂, heq⟩ := h₁.receiveData packet (by rwa [hack.same.sendBuf, hack.same.recvBuf])
  rw [tcpReceiveConn, h.established]
  refine ⟨h₂.congr ?_ ?_ ?_ ?_ ?_, ?_⟩ <;> rw [Tcp.setConn_self]
  · rfl
  · rw [← heq] at hle
    exact hle

/-- Taking received data out is no matter of the queue. -/
theorem receive (h : SendInv s p sent) (maxLength : UInt32)
    (hbuf : (s.conn p).sendBuf ≠ (s.conn p).recvBuf) :
    SendInv (tcpReceive s p maxLength).2 p sent ∧
      ((tcpReceive s p maxLength).2.conn p).sendLen = (s.conn p).sendLen := by
  have hset : ∀ d c, c.state = (s.conn p).state → c.sendLen = (s.conn p).sendLen →
      c.sndUna = (s.conn p).sndUna → c.config = (s.conn p).config →
      c.sendBuf = (s.conn p).sendBuf →
      SendInv ((s.setBuf (s.conn p).recvBuf d).setConn p c) p sent ∧
        (((s.setBuf (s.conn p).recvBuf d).setConn p c).conn p).sendLen = (s.conn p).sendLen := by
    intro d c hstate hlen huna hconfig hsend
    refine ⟨h.congr ?_ ?_ ?_ ?_ ?_, ?_⟩ <;> rw [Tcp.setConn_self]
    · exact hstate
    · exact hlen
    · exact huna
    · exact hconfig
    · rw [hsend]
      exact Function.update_of_ne hbuf ..
    · exact hlen
  rw [tcpReceive]
  dsimp only
  split_ifs
  · exact ⟨h, rfl⟩
  · exact ⟨h, rfl⟩
  · exact ⟨h, rfl⟩
  · exact hset _ _ rfl rfl rfl rfl rfl
  · exact ⟨h, rfl⟩
  · exact hset _ _ rfl rfl rfl rfl rfl

end SendInv

/-! ### Runs -/

/-- The connections, and what `tcp_send` has accepted for one of them since it was created. The list
is a record of the run: no function shortens it. -/
structure Sending where
  tcp : Tcp
  sent : List UInt8

/-- A call: data to be sent, a read, or a packet that arrives, for this connection or for any other.
-/
inductive StreamOp where
  | send (q : ℕ) (data : ℕ → UInt8) (length : UInt32)
  | receive (q : ℕ) (maxLength : UInt32)
  | packet (iface : ℕ) (packet : NetPacket)

namespace Sending

/-- One call. Data counts as accepted if the call was for the connection and said yes; `none` stands
for a call that does not return. -/
def step (p : ℕ) (w : Sending) : StreamOp → Option Sending
  | .send q data length =>
    match tcpSend w.tcp q data length with
    | (ok, tcp) =>
      some ⟨tcp, if ok = true ∧ q = p then w.sent ++ slice data 0 length.toNat else w.sent⟩
  | .receive q maxLength => some ⟨(tcpReceive w.tcp q maxLength).2, w.sent⟩
  | .packet iface packet => (tcpReceivePacket w.tcp iface packet).map fun tcp => ⟨tcp, w.sent⟩

/-- The calls are made for open connections; the data is there, beside the buffers of the
connection, in 32-bit memory. -/
def Allowed (conns : List ℕ) : StreamOp → Prop
  | .send q _ length => q ∈ conns ∧ 0 < length.toNat ∧ length.toNat < 2 ^ 32 - 65535
  | .receive q _ => q ∈ conns
  | .packet _ _ => True

/-- The step relation of a run: an allowed call that returns. The connection may be sent to, read
and acknowledged in any order, and so may the others. -/
def Step (conns : List ℕ) (p : ℕ) (w : Sending) (op : StreamOp) (w' : Sending) : Prop :=
  Allowed conns op ∧ w.step p op = some w'

/-- The bytes of `p` that have been acknowledged. -/
def acked (p : ℕ) (w : Sending) : ℕ := w.sent.length - (w.tcp.conn p).sendLen.toNat

end Sending

/-- What the send buffer is to be, for a connection that was given the configuration `c`. -/
structure SendSpec (p : ℕ) (c : TcpConfig) (w : Sending) : Prop where
  /-- It holds what is not acknowledged, -/
  le : w.acked p ≤ w.sent.length
  una : (w.tcp.conn p).sndUna = c.initialSeq + UInt32.ofNat (w.acked p)
  queue : slice (w.tcp.buf (w.tcp.conn p).sendBuf) 0 (w.tcp.conn p).sendLen.toNat =
    w.sent.drop (w.acked p)
  length : (w.tcp.conn p).sendLen.toNat = w.sent.length - w.acked p
  /-- no more than a window, -/
  window : (w.tcp.conn p).sendLen.toNat ≤ c.windowSize.toNat
  /-- and what would be more is refused, and changes nothing. -/
  refuses : ∀ data length, 0 < length.toNat → length.toNat < 2 ^ 32 - 65535 →
    ((tcpSend w.tcp p data length).1 = false ↔
      c.windowSize.toNat < (w.tcp.conn p).sendLen.toNat + length.toNat) ∧
    ((tcpSend w.tcp p data length).1 = false → (tcpSend w.tcp p data length).2 = w.tcp)

/-- The invariant of a run: the connection is in its list with the configuration it was created
with, and its send buffer has the end of what was accepted. -/
structure SendRunInv (base : Pmm) (rest : List Allocation) (pmm : Pmm) (conns : List ℕ) (p : ℕ)
    (c : TcpConfig) (w : Sending) : Prop where
  list : TcpInv base rest pmm w.tcp conns
  mem : p ∈ conns
  config : (w.tcp.conn p).config = c
  send : SendInv w.tcp p w.sent

namespace SendRunInv

variable {base pmm : Pmm} {rest : List Allocation} {conns : List ℕ} {p : ℕ} {c : TcpConfig}
  {w w' : Sending}

theorem ne_zero (h : SendRunInv base rest pmm conns p c w) : p ≠ 0 :=
  fun hp => h.list.list.null_notMem (hp ▸ h.mem)

theorem spec (h : SendRunInv base rest pmm conns p c w) : SendSpec p c w where
  le := Nat.sub_le _ _
  una := h.config ▸ h.send.una
  queue := h.send.queue
  length := by
    have hle := h.send.le
    rw [Sending.acked]
    omega
  window := h.config ▸ h.send.window
  refuses data length hpos hlt := by
    rw [← h.config]
    rcases h.send.send h.ne_zero data hpos hlt with ⟨hsend, hfull⟩ | ⟨s', hsend, hfits, -⟩
    · rw [hsend]
      exact ⟨iff_of_true rfl hfull, fun _ => rfl⟩
    · rw [hsend]
      exact ⟨iff_of_false Bool.noConfusion (Nat.not_lt.mpr hfits), Bool.noConfusion⟩

/-- A call that changes one connection only. -/
theorem of_touches (h : SendRunInv base rest pmm conns p c w) {q : ℕ} (hq : q ∈ conns) {tcp : Tcp}
    (ht : TcpTouches w.tcp tcp q) (hself : q = p → SendInv tcp p w.sent ∧
      (tcp.conn p).sendLen.toNat ≤ (w.tcp.conn p).sendLen.toNat) :
    SendRunInv base rest pmm conns p c ⟨tcp, w.sent⟩ ∧
      w.acked p ≤ Sending.acked p ⟨tcp, w.sent⟩ := by
  have hsend : SendInv tcp p w.sent ∧
      (tcp.conn p).sendLen.toNat ≤ (w.tcp.conn p).sendLen.toNat := by
    rcases eq_or_ne q p with hqp | hqp
    · exact hself hqp
    · have hbuf := (h.list.buffers_ne hq).2 p h.mem hqp.symm _ (Or.inl rfl)
      obtain ⟨hsend, hlen⟩ := h.send.of_touches ht hqp.symm hbuf
      exact ⟨hsend, hlen ▸ Nat.le_refl _⟩
  exact ⟨⟨h.list.congr ht.same, h.mem, (ht.same.config p).trans h.config, hsend.1⟩,
    Nat.sub_le_sub_left hsend.2 _⟩

/-- **One call keeps the invariant**, and takes no acknowledgment back. -/
theorem step (h : SendRunInv base rest pmm conns p c w) {op : StreamOp}
    (hop : Sending.Allowed conns op) :
    ∃ w', w.step p op = some w' ∧ SendRunInv base rest pmm conns p c w' ∧
      w.acked p ≤ w'.acked p := by
  have hbuf := (h.list.buffers_ne h.mem).1
  cases op with
  | send q data length =>
    obtain ⟨hq, hpos, hlt⟩ := hop
    have ht := touches_tcpSend w.tcp q data length
    rcases hsend : tcpSend w.tcp q data length with ⟨ok, tcp⟩
    rw [hsend] at ht
    by_cases hok : ok = true ∧ q = p
    · obtain ⟨rfl, rfl⟩ := hok
      rcases h.send.send h.ne_zero data hpos hlt with ⟨hsend', -⟩ | ⟨s', hsend', -, hinv, hlen⟩
      · rw [hsend, Prod.mk.injEq] at hsend'
        exact Bool.noConfusion hsend'.1
      · rw [hsend, Prod.mk.injEq] at hsend'
        obtain ⟨-, rfl⟩ := hsend'
        refine ⟨⟨tcp, w.sent ++ slice data 0 length.toNat⟩, ?_,
          ⟨h.list.congr ht.same, h.mem, (ht.same.config q).trans h.config, hinv⟩, ?_⟩
        · simp only [Sending.step, hsend, and_self, if_true]
        · rw [Sending.acked, Sending.acked, hlen, List.length_append, length_slice]
          omega
    · refine ⟨⟨tcp, w.sent⟩, ?_, h.of_touches hq ht fun hqp => ?_⟩
      · simp only [Sending.step, hsend, if_neg hok]
      · subst hqp
        rcases h.send.send h.ne_zero data hpos hlt with ⟨hsend', -⟩ | ⟨s', hsend', -⟩
        · rw [hsend, Prod.mk.injEq] at hsend'
          obtain ⟨-, rfl⟩ := hsend'
          exact ⟨h.send, Nat.le_refl _⟩
        · rw [hsend, Prod.mk.injEq] at hsend'
          exact absurd ⟨hsend'.1, rfl⟩ hok
  | receive q maxLength =>
    refine ⟨_, rfl, h.of_touches hop (touches_tcpReceive w.tcp q maxLength) fun hqp => ?_⟩
    subst hqp
    obtain ⟨hinv, hlen⟩ := h.send.receive maxLength hbuf
    exact ⟨hinv, hlen ▸ Nat.le_refl _⟩
  | packet iface packet =>
    rw [Sending.step, tcpReceivePacket]
    split_ifs
    · exact ⟨w, rfl, h, Nat.le_refl _⟩
    · exact ⟨w, rfl, h, Nat.le_refl _⟩
    · obtain ⟨q, hq, hmem⟩ := h.list.lookup_mem (tcpPacketKey packet)
      rw [hq]
      rcases eq_or_ne q 0 with rfl | hq0
      · exact ⟨w, rfl, h, Nat.le_refl _⟩
      · refine ⟨⟨tcpReceiveConn w.tcp q packet, w.sent⟩, ?_,
          h.of_touches (hmem hq0) (touches_tcpReceiveConn w.tcp q packet) fun hqp => ?_⟩
        · rw [Option.map_some, Option.map_some, if_neg hq0]
        · subst hqp
          exact h.send.receiveConn packet hbuf

end SendRunInv

/-- **Every run** on a connection that has been created, in whatever state of the lists, and then
set to `ESTABLISHED`. -/
theorem tcp_send_run {base : Pmm} (h0 : pmmTestBlock base 0 = true) {currentTime : UInt32}
    {conn : ℕ → TcpConn} {socket : ℕ → UdpSocket} {buf : ℕ → ℕ → UInt8} {r : Sockets}
    (hr : Reaches Sockets.Step (.start base currentTime conn socket buf) r)
    {localAddr remoteAddr : Option Ipv4Addr} {localPort remotePort : UInt16}
    {config : Option TcpConfig} {p : ℕ} {pmm : Pmm} {tcp : Tcp}
    (hcreate : tcpCreateConnection r.pmm r.tcp localAddr localPort remoteAddr remotePort config =
      (p, pmm, tcp)) (hp : p ≠ 0) {w : Sending}
    (hrun : Reaches (Sending.Step (p :: r.conns) p) ⟨tcp.establish p, []⟩ w) :
    SendSpec p (config.getD tcpDefaultConfig) w ∧ ∀ op, Sending.Allowed (p :: r.conns) op →
      ∃ w', w.step p op = some w' ∧ SendSpec p (config.getD tcpDefaultConfig) w' ∧
        w.acked p ≤ w'.acked p := by
  have hsockets := (SocketsInv.start h0 currentTime conn socket buf).of_reaches hr
  obtain ⟨hinv, a, b, sendBuf, recvBuf, hconn⟩ := hsockets.created hcreate hp
  have h : SendRunInv r.base r.udpAllocs pmm (p :: r.conns) p (config.getD tcpDefaultConfig) w := by
    refine hrun.invariant (I := SendRunInv r.base r.udpAllocs pmm (p :: r.conns) p
      (config.getD tcpDefaultConfig)) ⟨hinv.congr (touches_establish tcp p).same,
        List.mem_cons_self, ?_, ?_, ?_, ?_, ?_, ?_⟩ fun w op w' hw hstep => ?_
    · rw [Tcp.establish, Tcp.setConn_self, hconn]
      rfl
    · rw [Tcp.establish, Tcp.setConn_self]
    · rw [Tcp.establish, Tcp.setConn_self, hconn]
      exact Nat.zero_le _
    · rw [Tcp.establish, Tcp.setConn_self, hconn]
      exact (UInt32.add_zero _).symm
    · rw [Tcp.establish, Tcp.setConn_self, hconn]
      rfl
    · rw [Tcp.establish, Tcp.setConn_self, hconn]
      exact Nat.zero_le _
    · obtain ⟨v, hv, hinv, -⟩ := hw.step hstep.1
      exact Option.some_inj.mp (hv.symm.trans hstep.2) ▸ hinv
  refine ⟨h.spec, fun op hop => ?_⟩
  obtain ⟨w', hw', hinv', hle⟩ := h.step hop
  exact ⟨w', hw', hinv'.spec, hle⟩

/-- Three bytes are sent. -/
def sendThree : Sending :=
  ⟨(tcpSend (firstConnection.2.2.establish 4096) 4096 (fun k => UInt8.ofNat (k + 1)) 3).2,
    [1, 2, 3]⟩

theorem tcp_send_run_three : SendSpec 4096 smallConfig sendThree ∧
    ∀ op, Sending.Allowed [4096] op → ∃ w', sendThree.step 4096 op = some w' ∧
      SendSpec 4096 smallConfig w' ∧ sendThree.acked 4096 ≤ w'.acked 4096 := by
  have hcreate : firstConnection = (4096, firstConnection.2.1, firstConnection.2.2) :=
    Prod.ext firstConnection_eq rfl
  have hstep : Sending.Step [4096] 4096 ⟨firstConnection.2.2.establish 4096, []⟩
      (.send 4096 (fun k => UInt8.ofNat (k + 1)) 3) sendThree := by
    refine ⟨⟨List.mem_singleton_self _, by decide, by decide⟩, ?_⟩
    have hok : (tcpSend (firstConnection.2.2.establish 4096) 4096
        (fun k => UInt8.ofNat (k + 1)) 3).1 = true := by decide +kernel
    rw [Sending.step, ← Prod.mk.eta (p := tcpSend _ _ _ _), hok]
    rfl
  exact tcp_send_run (by decide) (Reaches.refl noSockets) hcreate (by decide)
    ((Reaches.refl _).tail hstep)

end Rexus
