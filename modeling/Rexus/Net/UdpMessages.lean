import Rexus.Net.UdpReceive

/-!
# Datagrams and what is read of them

A datagram has a sender and an end. The buffer of a socket keeps neither: it holds the payloads one
behind the other, `udp_receive` takes as many bytes as there are and as are asked for, and the
variables of the caller for the sender are not written. So the reads of a socket are its datagrams
only as long as the caller asks for no more than one of them and knows who has sent it.

## Main results

* `udpReceive_unread`, `udpReceivePacket_unread` — the unread bytes are a queue
* `udp_messages_run` — in which runs every read is a datagram

## Conventions

Two histories are kept beside the sockets: the datagrams that were accepted for one socket, each
with its sender, and what its reads have returned, each with what the caller took for the sender. A
datagram of no bytes is accepted like any other; no read can return it, and a read that finds
nothing is no result.

`TakesOne` is the condition on a read: the oldest datagram that is pending is not asked for more
than it has, and its sender is who the caller says. It is a condition on the state before the read
and on its arguments. The packets that arrive fit into the buffers as `Net/UdpReceive.lean` has it,
so that nothing is written out of bounds.
-/

namespace Rexus

open Bytes Run

/-! ### Datagrams -/

/-- A sender, and bytes: a datagram, or what the caller of `udp_receive` takes for one. -/
structure UdpMessage where
  srcAddr : Ipv4Addr
  srcPort : UInt16
  data : List UInt8

/-- `header->src_port`. -/
def udpSrcPort (packet : NetPacket) : UInt16 := le16 packet.bytes 0

/-- The datagram that a packet carries. -/
def udpMessage (packet : NetPacket) : UdpMessage where
  srcAddr := packet.srcAddr
  srcPort := udpSrcPort packet
  data := slice packet.bytes 8 (udpDataLen packet).toNat

/-- `udp_receive`, with what the variables of the caller for the sender hold: it does not write
them. -/
def udpReceiveFrom (s : Udp) (socket : ℕ) (srcAddr : Ipv4Addr) (srcPort : UInt16)
    (maxLength : UInt32) : UdpMessage × Udp :=
  match udpReceive s socket maxLength with
  | (data, s) => (⟨srcAddr, srcPort, data⟩, s)

/-- The unread bytes of a socket. -/
def Udp.unread (s : Udp) (p : ℕ) : List UInt8 :=
  slice (s.buf (s.socket p).recvBuf) (s.socket p).recvStart.toNat (s.socket p).recvLen.toNat

/-- Has this packet been accepted for the socket? -/
def UdpReceived.acceptedBy (t : UdpReceived) (p : ℕ) : Bool :=
  match t.copy with
  | some copy => copy.socket == p
  | none => false

/-! ### The queue -/

section

variable {base pmm : Pmm} {rest : List Allocation} {s : Udp} {socks : List ℕ} {p q : ℕ}

theorem Udp.length_unread (s : Udp) (p : ℕ) :
    (s.unread p).length = (s.socket p).recvLen.toNat := length_slice ..

theorem Udp.unread_eq_nil (h : (s.socket p).recvLen = 0) : s.unread p = [] :=
  List.eq_nil_of_length_eq_zero (by rw [Udp.length_unread, h, UInt32.toNat_zero])

theorem UdpInv.ne_zero (h : UdpInv base rest pmm s socks) (hp : p ∈ socks) : p ≠ 0 := fun hp0 =>
  h.list.null_notMem (hp0 ▸ hp)

/-- A read takes bytes from the start of what is unread. -/
theorem udpReceive_unread (h : UdpInv base rest pmm s socks) (hbounded : UdpBounded s socks)
    (hp : p ∈ socks) (maxLength : UInt32) :
    (udpReceive s p maxLength).1 = (s.unread p).take maxLength.toNat ∧
      (udpReceive s p maxLength).2.unread p = (s.unread p).drop maxLength.toNat := by
  have hb := hbounded p hp
  have hsize := (s.socket p).config.bufferSize.toNat_lt
  have hlen := s.length_unread p
  rw [udpReceive]
  dsimp only
  split_ifs with hargs hempty hmax hleft hleft
  · rcases hargs with hp0 | rfl
    · exact absurd hp0 (h.ne_zero hp)
    · exact ⟨rfl, rfl⟩
  · rw [hempty, UInt32.toNat_zero] at hlen
    rw [List.eq_nil_of_length_eq_zero hlen]
    simp
  · -- something is left, though the difference of the lengths is zero
    rw [UInt32.lt_iff_toNat_lt] at hmax
    have hsub := congrArg UInt32.toNat hleft
    rw [UInt32.toNat_sub_of_le _ _ (UInt32.le_of_lt hmax), UInt32.toNat_zero] at hsub
    omega
  · rw [UInt32.lt_iff_toNat_lt] at hmax
    refine ⟨(take_slice _ _ (Nat.le_of_lt hmax)).symm, ?_⟩
    rw [Udp.unread, Udp.setSocket_self, Udp.unread, drop_slice _ _ (Nat.le_of_lt hmax)]
    dsimp only [Udp.setSocket]
    rw [UInt32.toNat_add, UInt32.toNat_sub_of_le _ _ (UInt32.le_of_lt hmax),
      Nat.mod_eq_of_lt (by omega)]
  · rw [UInt32.lt_iff_toNat_lt, not_lt] at hmax
    have htake : (s.unread p).take maxLength.toNat = s.unread p :=
      List.take_of_length_le (by omega)
    refine ⟨htake.symm, ?_⟩
    rw [List.drop_of_length_le (by omega), Udp.unread, Udp.setSocket_self]
    dsimp only
    rw [UInt32.sub_self, UInt32.toNat_zero, slice_zero]
  · exact absurd (UInt32.sub_self _) hleft

theorem udpReceive_unread_of_ne (s : Udp) (hqp : p ≠ q) (maxLength : UInt32) :
    (udpReceive s q maxLength).2.unread p = s.unread p := by
  have hset : ∀ k, (s.setSocket q k).unread p = s.unread p := fun k => by
    rw [Udp.unread, s.setSocket_of_ne q k hqp]
    rfl
  rw [udpReceive]
  dsimp only
  split_ifs
  · rfl
  · rfl
  · exact hset _
  · exact hset _
  · exact hset _
  · exact hset _

/-- A packet that is accepted for a socket goes behind what is unread, and any other leaves it. -/
theorem udpReceivePacket_unread (h : UdpInv base rest pmm s socks) (hbounded : UdpBounded s socks)
    (hp : p ∈ socks) {iface : ℕ} {packet : NetPacket} {t : UdpReceived}
    (ht : udpReceivePacket s iface packet = some t)
    (hlength : ∀ q, udpTarget s iface packet = some q → q ≠ 0 → 8 ≤ (udpLength packet).toNat) :
    t.udp.unread p =
      s.unread p ++ if t.acceptedBy p then (udpMessage packet).data else [] := by
  obtain ⟨q, htarget⟩ := udpTarget_some h iface packet
  rw [udpReceivePacket, htarget, Option.map_some, Option.some_inj] at ht
  subst ht
  split_ifs with hq hacc hacc
  · cases hacc
  · rw [List.append_nil]
  all_goals
    obtain ⟨hmem, -⟩ := udpTarget_mem h htarget hq
    have hlen := hlength q htarget hq
    rw [udpDeliver] at hacc ⊢
    dsimp only at hacc ⊢
    split_ifs at hacc ⊢ with hfull
  · cases hacc
  · obtain rfl : q = p := beq_iff_eq.mp hacc
    have hb := hbounded q hmem
    have hsize := (s.socket q).config.bufferSize.toNat_lt
    rw [udp_space_iff hbounded hmem hlen] at hfull
    have hadd : ((s.socket q).recvLen + udpDataLen packet).toNat =
        (s.socket q).recvLen.toNat + (udpDataLen packet).toNat := by
      rw [UInt32.toNat_add, udpDataLen_toNat hlen, Nat.mod_eq_of_lt (by omega)]
    rw [Udp.unread, Udp.setSocket_self]
    dsimp only [Udp.setSocket, Udp.setBuf]
    rw [hadd, slice_add, Function.update_self, slice_blit, slice_blit_of_le (Nat.le_refl _)]
    rfl
  · rw [List.append_nil]
  · have hqp : q ≠ p := fun hqp => hacc (beq_iff_eq.mpr hqp)
    have hbuf := h.recvBuf_ne hmem hp hqp.symm
    rw [List.append_nil, Udp.unread, Udp.setSocket_of_ne _ _ _ hqp.symm]
    dsimp only [Udp.setSocket, Udp.setBuf]
    rw [Function.update_of_ne hbuf]
    rfl

end

/-! ### The two histories -/

/-- The sockets, the datagrams that have been accepted for one of them, and what its reads have
returned. -/
structure UdpTalk where
  udp : Udp
  accepted : List UdpMessage
  results : List UdpMessage

/-- A packet arrives, or `udp_receive` is called, with what the variables for the sender hold. -/
inductive UdpTalkOp where
  | arrive (iface : ℕ) (packet : NetPacket)
  | receive (socket : ℕ) (srcAddr : Ipv4Addr) (srcPort : UInt16) (maxLength : UInt32)

/-- A read of a datagram: bytes of it, from the first on, and its sender. -/
structure UdpMessage.ReadOf (r m : UdpMessage) : Prop where
  data : r.data <+: m.data
  srcAddr : r.srcAddr = m.srcAddr
  srcPort : r.srcPort = m.srcPort

/-- Every read is one of its own datagram. -/
def MessagesKept (accepted results : List UdpMessage) : Prop :=
  ∀ (i : ℕ) (r : UdpMessage), results[i]? = some r → ∃ m, accepted[i]? = some m ∧ r.ReadOf m

namespace MessagesKept

variable {accepted results : List UdpMessage}

theorem accept (h : MessagesKept accepted results) (ms : List UdpMessage) :
    MessagesKept (accepted ++ ms) results := by
  intro i r hr
  obtain ⟨m, hm, hread⟩ := h i r hr
  refine ⟨m, ?_, hread⟩
  rw [List.getElem?_append_left (List.getElem?_eq_some_iff.mp hm).1, hm]

theorem read (h : MessagesKept accepted results) {r m : UdpMessage}
    (hm : accepted[results.length]? = some m) (hread : r.ReadOf m) :
    MessagesKept accepted (results ++ [r]) := by
  intro i r' hr'
  rw [List.getElem?_append] at hr'
  split_ifs at hr' with hi
  · exact h i r' hr'
  · obtain ⟨hi0, rfl⟩ := List.getElem?_eq_some_iff.mp hr'
    have hi' : i = results.length := by
      rw [List.length_singleton] at hi0
      omega
    subst hi'
    exact ⟨m, hm, by simpa using hread⟩

end MessagesKept

namespace UdpTalk

/-- One step. The histories are those of the socket `p`, and only a read that returns bytes is a
result. -/
def step (p : ℕ) (w : UdpTalk) : UdpTalkOp → Option UdpTalk
  | .arrive iface packet =>
    (udpReceivePacket w.udp iface packet).map fun t =>
      { w with
        udp := t.udp
        accepted := w.accepted ++ if t.acceptedBy p then [udpMessage packet] else [] }
  | .receive socket srcAddr srcPort maxLength =>
    let r := udpReceiveFrom w.udp socket srcAddr srcPort maxLength
    some
      { w with
        udp := r.2
        results := w.results ++ if socket = p ∧ r.1.data ≠ [] then [r.1] else [] }

/-- What arrives fits, and open sockets are read. -/
def Allowed (socks : List ℕ) (w : UdpTalk) : UdpTalkOp → Prop
  | .arrive iface packet => UdpFits w.udp iface packet
  | .receive socket .. => socket ∈ socks

/-- The datagrams of which nothing has been returned. -/
def pending (w : UdpTalk) : List UdpMessage := w.accepted.drop w.results.length

/-- A read that finds bytes finds nothing of the datagrams before the oldest that is pending, takes
no more than that one, and is called with its sender. -/
def TakesOne (p : ℕ) (w : UdpTalk) : UdpTalkOp → Prop
  | .arrive .. => True
  | .receive socket srcAddr srcPort maxLength =>
    socket = p → maxLength ≠ 0 → (w.udp.socket p).recvLen ≠ 0 →
      (w.udp.socket p).recvLen.toNat = (w.pending.flatMap UdpMessage.data).length ∧
        ∃ m ms, w.pending = m :: ms ∧
          min maxLength.toNat (w.udp.socket p).recvLen.toNat ≤ m.data.length ∧
          srcAddr = m.srcAddr ∧ srcPort = m.srcPort

/-- The step relation of a run: an allowed operation that returns. The datagrams that have arrived
and the answers of the reads are written down as they happen. -/
def Step (socks : List ℕ) (p : ℕ) (w : UdpTalk) (op : UdpTalkOp) (w' : UdpTalk) : Prop :=
  w.Allowed socks op ∧ w.step p op = some w'

/-- The step relation of a run whose reads take one datagram each. -/
def TakesOneStep (socks : List ℕ) (p : ℕ) (w : UdpTalk) (op : UdpTalkOp) (w' : UdpTalk) : Prop :=
  w.Step socks p op w' ∧ w.TakesOne p op

end UdpTalk

/-- The invariant: what is unread is the end of all that has been accepted. -/
structure TalkInv (base : Pmm) (rest : List Allocation) (pmm : Pmm) (socks : List ℕ) (p : ℕ)
    (w : UdpTalk) : Prop where
  inv : UdpInv base rest pmm w.udp socks
  bounded : UdpBounded w.udp socks
  queue : w.udp.unread p <:+ w.accepted.flatMap UdpMessage.data
  kept : MessagesKept w.accepted w.results

namespace TalkInv

variable {base pmm : Pmm} {rest : List Allocation} {socks : List ℕ} {p : ℕ} {w w' : UdpTalk}

/-- What is unread, if nothing is left of a datagram that has been returned. -/
theorem unread_eq (h : TalkInv base rest pmm socks p w)
    (hlen : (w.udp.socket p).recvLen.toNat = (w.pending.flatMap UdpMessage.data).length) :
    w.udp.unread p = w.pending.flatMap UdpMessage.data := by
  have hpending : w.pending.flatMap UdpMessage.data <:+ w.accepted.flatMap UdpMessage.data := by
    refine ⟨(w.accepted.take w.results.length).flatMap UdpMessage.data, ?_⟩
    rw [UdpTalk.pending, ← List.flatMap_append, List.take_append_drop]
  have hlen' : (w.udp.unread p).length = (w.pending.flatMap UdpMessage.data).length := by
    rw [Udp.length_unread, hlen]
  exact (List.suffix_of_suffix_length_le h.queue hpending (Nat.le_of_eq hlen')).eq_of_length hlen'

/-- A datagram that is accepted. -/
theorem arrive (h : TalkInv base rest pmm socks p w) (hp : p ∈ socks) {iface : ℕ}
    {packet : NetPacket} (hstep : w.step p (.arrive iface packet) = some w')
    (hfits : UdpFits w.udp iface packet) : TalkInv base rest pmm socks p w' := by
  obtain ⟨t, ht, rfl⟩ := Option.map_eq_some_iff.mp hstep
  obtain ⟨hsame, hbounded⟩ := udpReceivePacket_bounded h.inv h.bounded ht hfits
  refine ⟨h.inv.congr hsame, hbounded, ?_, ?_⟩
  · have hunread := udpReceivePacket_unread h.inv h.bounded hp ht
      fun q hq hq0 => (hfits q hq hq0).1
    obtain ⟨before, hbefore⟩ := h.queue
    refine ⟨before, ?_⟩
    dsimp only
    rw [hunread, ← List.append_assoc, hbefore, List.flatMap_append]
    split_ifs
    · rw [List.flatMap_singleton]
    · rfl
  · exact h.kept.accept _

/-- A read of one datagram. -/
theorem receive (h : TalkInv base rest pmm socks p w) (hp : p ∈ socks) {socket : ℕ}
    {srcAddr : Ipv4Addr} {srcPort : UInt16} {maxLength : UInt32}
    (hstep : w.step p (.receive socket srcAddr srcPort maxLength) = some w')
    (hsocket : socket ∈ socks)
    (htakes : w.TakesOne p (.receive socket srcAddr srcPort maxLength)) :
    TalkInv base rest pmm socks p w' := by
  cases hstep
  obtain ⟨hsame, hbounded⟩ := udpReceive_bounded h.bounded hsocket maxLength
  rcases eq_or_ne socket p with rfl | hne
  · obtain ⟨hdata, hunread⟩ := udpReceive_unread h.inv h.bounded hp maxLength
    refine ⟨h.inv.congr hsame, hbounded, ?_, ?_⟩
    · show (udpReceive w.udp socket maxLength).2.unread socket <:+ _
      rw [hunread]
      exact (List.drop_suffix _ _).trans h.queue
    · dsimp only
      split_ifs with hsome
      · have hdata : (udpReceiveFrom w.udp socket srcAddr srcPort maxLength).1.data =
            (w.udp.unread socket).take maxLength.toNat := hdata
        have hmax : maxLength ≠ 0 := by
          rintro rfl
          exact hsome.2 hdata
        have hrecv : (w.udp.socket socket).recvLen ≠ 0 := by
          intro hrecv
          refine hsome.2 ?_
          rw [hdata, Udp.unread_eq_nil hrecv, List.take_nil]
        obtain ⟨hlen, m, ms, hms, hmin, haddr, hport⟩ := htakes rfl hmax hrecv
        refine h.kept.read (m := m) ?_ ⟨?_, haddr, hport⟩
        · have hhead := congrArg List.head? hms
          rwa [UdpTalk.pending, List.head?_drop] at hhead
        · rw [hdata, List.take_eq_take_min, Udp.length_unread, h.unread_eq hlen, hms,
            List.flatMap_cons, List.take_append_of_le_length hmin]
          exact List.take_prefix _ _
      · rw [List.append_nil]
        exact h.kept
  · refine ⟨h.inv.congr hsame, hbounded, ?_, ?_⟩
    · show (udpReceive w.udp socket maxLength).2.unread p <:+ _
      rw [udpReceive_unread_of_ne w.udp hne.symm maxLength]
      exact h.queue
    · dsimp only
      rw [if_neg fun hand => hne hand.1, List.append_nil]
      exact h.kept

/-- One step whose read, if it is one, takes one datagram. -/
theorem step (h : TalkInv base rest pmm socks p w) (hp : p ∈ socks) {op : UdpTalkOp}
    (hstep : w.TakesOneStep socks p op w') : TalkInv base rest pmm socks p w' := by
  obtain ⟨⟨hop, hstep⟩, htakes⟩ := hstep
  cases op with
  | arrive iface packet => exact h.arrive hp hstep hop
  | receive socket srcAddr srcPort maxLength => exact h.receive hp hstep hop htakes

end TalkInv

/-- **Every run** from a socket without unread bytes in which each read takes no more than one
datagram, and is called with its sender, keeps the datagrams apart. -/
theorem udp_messages_run {base : Pmm} (h0 : pmmTestBlock base 0 = true) {currentTime : UInt32}
    {conn : ℕ → TcpConn} {socket : ℕ → UdpSocket} {buf : ℕ → ℕ → UInt8} {r : Sockets}
    (hrun : Reaches Sockets.UdpFitsStep (.start base currentTime conn socket buf) r) {p : ℕ}
    (hp : p ∈ r.socks) (hempty : (r.udp.socket p).recvLen = 0) {w : UdpTalk}
    (htalk : Reaches (UdpTalk.TakesOneStep r.socks p) ⟨r.udp, [], []⟩ w) :
    MessagesKept w.accepted w.results := by
  obtain ⟨hinv, hbounded⟩ := udpFits_inv h0 hrun
  refine (htalk.invariant (I := TalkInv r.base r.tcpAllocs r.pmm r.socks p)
    ⟨hinv.udp, hbounded, ?_, ?_⟩ fun _ _ _ h hstep => h.step hp hstep).kept
  · rw [Udp.unread_eq_nil hempty]
    exact List.nil_suffix
  · intro i m hm
    cases hm

/-! ### Two senders -/

/-- A datagram of one byte for port `53`, from this port. -/
def oneByte (srcPort b : UInt8) : NetPacket :=
  { datagram 9 with
    bytes := fun k => [srcPort, 0, 53, 0, 9, 0, 0, 0, b].getD k 0
    length := 9 }

/-- The state after a packet that is accepted. -/
def UdpTalk.deliver (w : UdpTalk) (packet : NetPacket) : UdpTalk :=
  { w with
    udp := (udpDeliver w.udp 4096 packet).udp
    accepted := w.accepted ++ [udpMessage packet] }

theorem UdpTalk.step_deliver {w : UdpTalk} {packet : NetPacket}
    (htarget : udpTarget w.udp 4096 packet = some 4096)
    (haccepted : (udpDeliver w.udp 4096 packet).acceptedBy 4096 = true)
    (hlen : 8 ≤ (udpLength packet).toNat)
    (hspace : (w.udp.socket 4096).recvStart.toNat + (w.udp.socket 4096).recvLen.toNat +
      ((udpLength packet).toNat - 8) ≤ (w.udp.socket 4096).config.bufferSize.toNat) :
    w.Step [4096] 4096 (.arrive 4096 packet) (w.deliver packet) := by
  constructor
  · intro q hq _
    obtain rfl := Option.some_inj.mp (htarget.symm.trans hq)
    exact ⟨hlen, fun _ => hspace⟩
  · rw [step, udpReceivePacket, htarget, Option.map_some, Option.map_some,
      if_neg (by decide : ¬ 4096 = 0), if_pos haccepted]
    rfl

/-- Nothing has arrived. -/
def noTalk : UdpTalk := ⟨oneSocket.udp, [], []⟩

/-- A byte has arrived from port `1`. -/
def oneArrived : UdpTalk := noTalk.deliver (oneByte 1 0xAA)

/-- And another from port `2`. -/
def twoArrived : UdpTalk := oneArrived.deliver (oneByte 2 0xBB)

theorem step_oneArrived : noTalk.Step [4096] 4096 (.arrive 4096 (oneByte 1 0xAA)) oneArrived :=
  UdpTalk.step_deliver (by decide +kernel) (by decide +kernel) (by decide +kernel)
    (by decide +kernel)

theorem step_twoArrived : oneArrived.Step [4096] 4096 (.arrive 4096 (oneByte 2 0xBB)) twoArrived :=
  UdpTalk.step_deliver (by decide +kernel) (by decide +kernel) (by decide +kernel)
    (by decide +kernel)

/-- A read into a buffer of `512` bytes, by a caller who takes the first for the sender. -/
def UdpTalk.readOne (w : UdpTalk) : UdpTalk :=
  let r := udpReceiveFrom w.udp 4096 ⟨fun _ => 0⟩ 1 512
  { w with udp := r.2, results := w.results ++ [r.1] }

theorem UdpTalk.step_readOne {w : UdpTalk} (hread : (udpReceive w.udp 4096 512).1 ≠ []) :
    w.Step [4096] 4096 (.receive 4096 ⟨fun _ => 0⟩ 1 512) w.readOne := by
  refine ⟨List.mem_singleton_self 4096, ?_⟩
  have hand : 4096 = 4096 ∧ (udpReceiveFrom w.udp 4096 ⟨fun _ => 0⟩ 1 512).1.data ≠ [] :=
    ⟨rfl, hread⟩
  rw [step, if_pos hand]
  rfl

/-- A read of the first byte, with its sender. -/
theorem udp_messages_run_one :
    MessagesKept oneArrived.readOne.accepted oneArrived.readOne.results := by
  refine udp_messages_run (by decide) ((Reaches.refl noSockets).tail ⟨udpStep_oneSocket, trivial⟩)
    (by decide +kernel : 4096 ∈ oneSocket.socks) (by decide +kernel)
    (((Reaches.refl noTalk).tail ⟨step_oneArrived, trivial⟩).tail
      ⟨UdpTalk.step_readOne (by decide +kernel), ?_⟩)
  intro _ _ _
  exact ⟨by decide +kernel, _, [], rfl, by decide +kernel, rfl, rfl⟩

/-- Two bytes have arrived from two senders, and are read as one datagram. -/
theorem not_messagesKept_two :
    Reaches (UdpTalk.Step [4096] 4096) noTalk twoArrived.readOne ∧
      ¬ MessagesKept twoArrived.readOne.accepted twoArrived.readOne.results := by
  refine ⟨(((Reaches.refl noTalk).tail step_oneArrived).tail step_twoArrived).tail
    (UdpTalk.step_readOne (by decide +kernel)), fun hkept => ?_⟩
  obtain ⟨m, hm, hread⟩ := hkept 0 _ rfl
  obtain rfl : udpMessage (oneByte 1 0xAA) = m := Option.some_inj.mp hm
  exact absurd hread.data.length_le (by decide +kernel)

end Rexus
