import Rexus.Lib.CountedList
import Rexus.Mem.PmmClient
import Rexus.Net.Interface

/-!
# TCP connections

Creating and closing connections, from `net/tcp.c`. A connection holds a block for its structure
and two runs of blocks, for what is to be sent and for what has been received, whose size is that of
its window. The contents of the buffers are kept by pointer.

## Main results

* `TcpInv.create`, `TcpInv.close`, `TcpInv.cleanup` — what the calls make of the list and of the
  allocations it holds

## Conventions

A connection is a structure by its address, and its two buffers are allocations of their own, by
theirs; all are freed when it is closed. The window of a configuration is any number, and a buffer
has as many blocks as it takes for that. A creation that runs out of memory gives back what it has
so far.

A new connection is closed, and no function of the file makes it anything else: the handshake, the
timers, retransmission and the sending of segments are not there, and the fields for them are kept
as the functions set them. Nor is it looked for whether another connection has the same four-tuple.
Of the statistics there are the fields that are counted.
-/

namespace Rexus

open Linked Links Loop

/-! ### The data -/

/-- `tcp_state_t`. -/
inductive TcpState where
  | closed
  | listen
  | synSent
  | synReceived
  | established
  | finWait1
  | finWait2
  | closeWait
  | closing
  | lastAck
  | timeWait
  deriving DecidableEq

/-- `tcp_config_t`. -/
structure TcpConfig where
  mss : UInt16
  windowScale : UInt8
  sackPermitted : Bool
  timestamps : Bool
  initialSeq : UInt32
  windowSize : UInt16
  retransmitTime : UInt32
  keepaliveTime : UInt32

/-- `tcp_stats_t`: the fields that are counted. They are written by the functions that are modelled,
and read by none of them. -/
structure TcpStats where
  packetsReceived : UInt64
  bytesSent : UInt64
  bytesReceived : UInt64
  outOfOrder : UInt64

/-- `tcp_conn_t`. -/
structure TcpConn where
  localAddr : Ipv4Addr
  remoteAddr : Ipv4Addr
  localPort : UInt16
  remotePort : UInt16
  state : TcpState
  config : TcpConfig
  stats : TcpStats
  sndUna : UInt32
  sndNxt : UInt32
  sndWnd : UInt32
  rcvNxt : UInt32
  rcvWnd : UInt32
  rto : UInt32
  srtt : UInt32
  rttvar : UInt32
  lastAck : UInt32
  keepalive : UInt32
  sendBuf : ℕ
  sendLen : UInt32
  recvBuf : ℕ
  recvLen : UInt32
  next : ℕ

/-- `tcp_state`, the connections by address, and the contents of the buffers. A buffer is a function
of the offset, and has no end: where a write goes is said, and whether that is inside is proved. -/
structure Tcp where
  connections : ℕ
  connectionCount : UInt32
  currentTime : UInt32
  conn : ℕ → TcpConn
  buf : ℕ → ℕ → UInt8

/-- The blocks of a `tcp_conn_t`. -/
def tcpConnBlocks : ℕ := (204 + 4095) / 4096

theorem tcpConnBlocks_pos : 0 < tcpConnBlocks := by decide

/-- The blocks of one buffer. -/
def TcpConfig.bufBlocks (c : TcpConfig) : ℕ := (c.windowSize.toNat + 4095) / 4096

namespace Tcp

/-- The head and the `next` pointers. -/
def links (s : Tcp) : Links ℕ := ⟨s.connections, fun p => (s.conn p).next⟩

/-- A structure is written. -/
def setConn (s : Tcp) (p : ℕ) (c : TcpConn) : Tcp :=
  { s with conn := Function.update s.conn p c }

/-- `*ptr = v`. -/
def setPlace (s : Tcp) : Option ℕ → ℕ → Tcp
  | none, v => { s with connections := v }
  | some p, v => s.setConn p { s.conn p with next := v }

end Tcp

/-! ### The functions -/

/-- The default configuration. -/
def tcpDefaultConfig : TcpConfig := ⟨1460, 0, false, false, 0, 65535, 1000, 7200000⟩

/-- The structure as `tcp_create_connection` fills it in before it allocates the buffers. -/
def newTcpConn (localAddr remoteAddr : Ipv4Addr) (localPort remotePort : UInt16)
    (config : TcpConfig) : TcpConn where
  localAddr := localAddr
  remoteAddr := remoteAddr
  localPort := localPort
  remotePort := remotePort
  state := .closed
  config := config
  stats := ⟨0, 0, 0, 0⟩
  sndUna := 0
  sndNxt := 0
  sndWnd := 0
  rcvNxt := 0
  rcvWnd := 0
  rto := 0
  srtt := 0
  rttvar := 0
  lastAck := 0
  keepalive := 0
  sendBuf := 0
  sendLen := 0
  recvBuf := 0
  recvLen := 0
  next := 0

/-- The sequence numbers, the windows, the timers and the link. -/
def TcpConn.start (c : TcpConn) (currentTime : UInt32) (next : ℕ) : TcpConn :=
  { c with
    sndUna := c.config.initialSeq
    sndNxt := c.config.initialSeq
    sndWnd := c.config.windowSize.toUInt32
    rcvWnd := c.config.windowSize.toUInt32
    rto := c.config.retransmitTime
    keepalive := currentTime + c.config.keepaliveTime
    next }

/-- The allocations of `tcp_create_connection`, and the insertion. -/
def tcpNewConnection (pmm : Pmm) (s : Tcp) (c : TcpConn) : ℕ × Pmm × Tcp :=
  match pmmAllocBlocks pmm tcpConnBlocks with
  | (conn, pmm) =>
    if conn = 0 then (0, pmm, s)
    else
      match pmmAllocBlocks pmm c.config.bufBlocks with
      | (sendBuf, pmm) =>
        match pmmAllocBlocks pmm c.config.bufBlocks with
        | (recvBuf, pmm) =>
          let c := { c with sendBuf, recvBuf }
          if sendBuf = 0 ∨ recvBuf = 0 then
            let pmm := pmmFreeUnlessNull pmm sendBuf c.config.bufBlocks
            let pmm := pmmFreeUnlessNull pmm recvBuf c.config.bufBlocks
            (0, pmmFreeBlocks pmm conn tcpConnBlocks, s.setConn conn c)
          else
            (conn, pmm, { s.setConn conn (c.start s.currentTime s.connections) with
              connections := conn
              connectionCount := s.connectionCount + 1 })

/-- `tcp_create_connection`; `none` is a null pointer. -/
def tcpCreateConnection (pmm : Pmm) (s : Tcp) (localAddr : Option Ipv4Addr) (localPort : UInt16)
    (remoteAddr : Option Ipv4Addr) (remotePort : UInt16) (config : Option TcpConfig) :
    ℕ × Pmm × Tcp :=
  match localAddr with
  | none => (0, pmm, s)
  | some localAddr =>
    match remoteAddr with
    | none => (0, pmm, s)
    | some remoteAddr =>
      if 256 ≤ s.connectionCount then (0, pmm, s)
      else
        tcpNewConnection pmm s
          (newTcpConn localAddr remoteAddr localPort remotePort (config.getD tcpDefaultConfig))

/-- The loop of `tcp_close_connection` that takes the connection out of the list. -/
def Tcp.unlink (s : Tcp) (conn : ℕ) : Option Tcp :=
  (iterate (placeTurn s.links fun p => p != 0 && p != conn) listFuel none).map fun ptr =>
    if s.links.get ptr = 0 then s
    else { s.setPlace ptr (s.conn conn).next with connectionCount := s.connectionCount - 1 }

/-- `tcp_close_connection`: the connection is taken out of the list and freed with its buffers,
whatever its state is; `none` if the walk does not end. -/
def tcpCloseConnection (pmm : Pmm) (s : Tcp) (conn : ℕ) : Option (Pmm × Tcp) :=
  if conn = 0 then some (pmm, s)
  else
    (s.unlink conn).map fun s =>
      let c := s.conn conn
      let pmm := pmmFreeUnlessNull pmm c.sendBuf c.config.bufBlocks
      let pmm := pmmFreeUnlessNull pmm c.recvBuf c.config.bufBlocks
      (pmmFreeBlocks pmm conn tcpConnBlocks, s)

/-- One turn of the loop of `tcp_cleanup`. -/
def tcpCleanupTurn (w : ℕ × Pmm × Tcp) : Option (Turn (ℕ × Pmm × Tcp) (Pmm × Tcp)) :=
  match w with
  | (conn, pmm, s) =>
    if conn = 0 then some (.done (pmm, s))
    else (tcpCloseConnection pmm s conn).map fun t => .next ((s.conn conn).next, t)

/-- `tcp_cleanup`: every connection of the list is freed with its buffers; `none` if the walk does
not end. -/
def tcpCleanup (pmm : Pmm) (s : Tcp) : Option (Pmm × Tcp) :=
  iterate tcpCleanupTurn listFuel (s.connections, pmm, s)

/-- The four-tuple of a connection, or of a segment for it. -/
structure TcpKey where
  localAddr : Ipv4Addr
  localPort : UInt16
  remoteAddr : Ipv4Addr
  remotePort : UInt16
  deriving DecidableEq

/-- The four-tuple of a connection. -/
def TcpConn.key (c : TcpConn) : TcpKey := ⟨c.localAddr, c.localPort, c.remoteAddr, c.remotePort⟩

/-- The tests of the search in `tcp_receive_packet`. -/
def TcpConn.has (c : TcpConn) (k : TcpKey) : Bool :=
  c.localPort == k.localPort && c.remotePort == k.remotePort &&
    ipv4AddrEquals c.localAddr k.localAddr && ipv4AddrEquals c.remoteAddr k.remoteAddr

theorem TcpConn.has_iff {c : TcpConn} {k : TcpKey} : c.has k = true ↔ c.key = k := by
  obtain ⟨la, lp, ra, rp⟩ := k
  simp only [TcpConn.has, TcpConn.key, ipv4AddrEquals, Bool.and_eq_true, beq_iff_eq,
    decide_eq_true_iff, TcpKey.mk.injEq]
  tauto

/-- The search of `tcp_receive_packet`: the first connection of the four-tuple, or null. -/
def Tcp.lookup (s : Tcp) (k : TcpKey) : Option ℕ :=
  iterate (searchTurn s.links.next fun p => p == 0 || (s.conn p).has k) listFuel s.connections

/-! ### When a connection is made -/

/-- There is room for a structure and two buffers of `n` blocks. -/
def TcpFits (pmm : Pmm) (n : ℕ) : Prop :=
  let conn := pmmAllocBlocks pmm tcpConnBlocks
  let sendBuf := pmmAllocBlocks conn.2 n
  conn.1 ≠ 0 ∧ sendBuf.1 ≠ 0 ∧ (pmmAllocBlocks sendBuf.2 n).1 ≠ 0

theorem tcpNewConnection_ne_zero_iff {pmm : Pmm} {s : Tcp} {c : TcpConn} :
    (tcpNewConnection pmm s c).1 ≠ 0 ↔ TcpFits pmm c.config.bufBlocks := by
  rw [tcpNewConnection, TcpFits]
  dsimp only
  split_ifs with hconn hnull
  · exact iff_of_false (fun h => h rfl) fun h => h.1 hconn
  · refine iff_of_false (fun h => h rfl) fun h => ?_
    exact hnull.elim h.2.1 h.2.2
  · exact iff_of_true hconn ⟨hconn, (not_or.mp hnull).1, (not_or.mp hnull).2⟩

/-- A connection is made if there are fewer than 256, and room for one more. -/
theorem tcpCreateConnection_ne_zero_iff {pmm : Pmm} {s : Tcp} {a b : Ipv4Addr} {lp rp : UInt16}
    {config : Option TcpConfig} :
    (tcpCreateConnection pmm s (some a) lp (some b) rp config).1 ≠ 0 ↔
      s.connectionCount < 256 ∧ TcpFits pmm (config.getD tcpDefaultConfig).bufBlocks := by
  simp only [tcpCreateConnection]
  split_ifs with hcount
  · exact iff_of_false (fun h => h rfl) fun h => absurd h.1 (UInt32.not_lt.mpr hcount)
  · rw [tcpNewConnection_ne_zero_iff]
    exact (and_iff_right (UInt32.not_le.mp hcount)).symm

/-! ### The list and its allocations -/

namespace Tcp

variable (s : Tcp) (p : ℕ) (c : TcpConn) (ptr : Option ℕ) (v : ℕ)

@[simp] theorem setConn_self : (s.setConn p c).conn p = c := Function.update_self ..

theorem setConn_of_ne {q : ℕ} (h : q ≠ p) : (s.setConn p c).conn q = s.conn q :=
  Function.update_of_ne h ..

@[simp] theorem links_setPlace : (s.setPlace ptr v).links = s.links.set ptr v := by
  cases ptr with
  | none => rfl
  | some p =>
    refine Links.ext rfl (funext fun q => ?_)
    rcases eq_or_ne q p with rfl | hq
    · simp [links, setPlace, Links.set]
    · simp [links, setPlace, Links.set, setConn_of_ne, hq]

/-- A write through a place leaves everything but a link. -/
theorem conn_setPlace (q : ℕ) : ∃ next, (s.setPlace ptr v).conn q = { s.conn q with next } := by
  cases ptr with
  | none => exact ⟨_, rfl⟩
  | some p =>
    rcases eq_or_ne q p with rfl | hq
    · exact ⟨v, setConn_self ..⟩
    · exact ⟨_, setConn_of_ne _ _ _ hq⟩

/-- What a connection holds. -/
def allocs : List Allocation :=
  [⟨(s.conn p).sendBuf, (s.conn p).config.bufBlocks⟩,
    ⟨(s.conn p).recvBuf, (s.conn p).config.bufBlocks⟩, ⟨p, tcpConnBlocks⟩]

theorem allocs_congr {s s' : Tcp} {p : ℕ} (h : ∃ next, s'.conn p = { s.conn p with next }) :
    s'.allocs p = s.allocs p := by
  obtain ⟨next, h⟩ := h
  rw [allocs, allocs, h]

end Tcp

/-- Only data has changed: the state, the numbers, the lengths and the contents of the buffers. -/
structure Tcp.SameObjects (s s' : Tcp) : Prop where
  connections : s'.connections = s.connections
  connectionCount : s'.connectionCount = s.connectionCount
  key : ∀ p, (s'.conn p).key = (s.conn p).key
  config : ∀ p, (s'.conn p).config = (s.conn p).config
  sendBuf : ∀ p, (s'.conn p).sendBuf = (s.conn p).sendBuf
  recvBuf : ∀ p, (s'.conn p).recvBuf = (s.conn p).recvBuf
  next : ∀ p, (s'.conn p).next = (s.conn p).next

namespace Tcp.SameObjects

variable {s s' s'' : Tcp}

theorem refl (s : Tcp) : s.SameObjects s :=
  ⟨rfl, rfl, fun _ => rfl, fun _ => rfl, fun _ => rfl, fun _ => rfl, fun _ => rfl⟩

theorem trans (h : s.SameObjects s') (h' : s'.SameObjects s'') : s.SameObjects s'' where
  connections := h'.connections.trans h.connections
  connectionCount := h'.connectionCount.trans h.connectionCount
  key p := (h'.key p).trans (h.key p)
  config p := (h'.config p).trans (h.config p)
  sendBuf p := (h'.sendBuf p).trans (h.sendBuf p)
  recvBuf p := (h'.recvBuf p).trans (h.recvBuf p)
  next p := (h'.next p).trans (h.next p)

theorem allocs (h : s.SameObjects s') (p : ℕ) : s'.allocs p = s.allocs p := by
  rw [Tcp.allocs, Tcp.allocs, h.sendBuf, h.recvBuf, h.config]

end Tcp.SameObjects

/-- The connections are a list, and what they hold is allocated; `rest` is what others hold. -/
structure TcpInv (base : Pmm) (rest : List Allocation) (pmm : Pmm) (s : Tcp) (conns : List ℕ) :
    Prop where
  list : CountedList s.links 0 s.connectionCount 256 conns
  buffers : ∀ p ∈ conns, (s.conn p).sendBuf ≠ 0 ∧ (s.conn p).recvBuf ≠ 0 ∧
    0 < (s.conn p).config.bufBlocks
  client : ClientInv base ⟨pmm, conns.flatMap s.allocs ++ rest⟩

namespace TcpInv

variable {base pmm : Pmm} {rest : List Allocation} {s : Tcp} {conns us vs : List ℕ} {p : ℕ}

/-- The allocations of a new connection: nothing is left of a failed one. -/
theorem newConnection (h : TcpInv base rest pmm s conns) (h0 : pmmTestBlock base 0 = true)
    (hcount : ¬ 256 ≤ s.connectionCount) (c : TcpConn) :
    (∃ pmm' s', tcpNewConnection pmm s c = (0, pmm', s') ∧ TcpInv base rest pmm' s' conns ∧
        s'.links.head = s.links.head ∧ s'.connectionCount = s.connectionCount ∧
        ∀ q ∈ conns, s'.conn q = s.conn q) ∨
      ∃ p pmm' s' sendBuf recvBuf, tcpNewConnection pmm s c = (p, pmm', s') ∧ p ≠ 0 ∧
        TcpInv base rest pmm' s' (p :: conns) ∧
        s'.conn p = TcpConn.start { c with sendBuf, recvBuf } s.currentTime s.connections ∧
        ∀ q ∈ conns, s'.conn q = s.conn q := by
  rw [tcpNewConnection]
  rcases hp : pmmAllocBlocks pmm tcpConnBlocks with ⟨conn, pmm₁⟩
  obtain ⟨h₁, -⟩ := h.client.record_allocBlocks h0 hp
  rcases eq_or_ne conn 0 with rfl | hconn
  · rw [PmmClient.record, if_pos rfl] at h₁
    exact Or.inl ⟨pmm₁, s, rfl, ⟨h.list, h.buffers, h₁⟩, rfl, rfl, fun _ _ => rfl⟩
  rw [PmmClient.record, if_neg hconn] at h₁
  have hnew : conn ∉ conns := fun hmem => by
    refine @ClientInv.addr_ne _ _ _ _ ⟨conn, tcpConnBlocks⟩ h₁ ?_ tcpConnBlocks_pos
      tcpConnBlocks_pos rfl
    refine List.mem_append_left rest (List.mem_flatMap.mpr ⟨conn, hmem, ?_⟩)
    exact List.mem_cons_of_mem _ (List.mem_cons_of_mem _ List.mem_cons_self)
  have hold : ∀ (c : TcpConn), ∀ q ∈ conns, (s.setConn conn c).conn q = s.conn q :=
    fun c q hq => s.setConn_of_ne conn c fun heq => hnew (heq ▸ hq)
  rcases hsend : pmmAllocBlocks pmm₁ c.config.bufBlocks with ⟨sendBuf, pmm₂⟩
  obtain ⟨h₂, -⟩ := h₁.record_allocBlocks h0 hsend
  rcases hrecv : pmmAllocBlocks pmm₂ c.config.bufBlocks with ⟨recvBuf, pmm₃⟩
  obtain ⟨h₃, hsize⟩ := h₂.record_allocBlocks h0 hrecv
  simp only [if_neg hconn, hsend, hrecv]
  have hallocs : ∀ c : TcpConn, conns.flatMap (s.setConn conn c).allocs = conns.flatMap s.allocs :=
    fun c => List.flatMap_congr fun q hq => Tcp.allocs_congr ⟨_, hold c q hq⟩
  split_ifs with hnull
  · refine Or.inl ⟨_, _, rfl, ⟨?_, fun q hq => ?_, ?_⟩, rfl, rfl, hold _⟩
    · exact h.list.congr rfl fun q hq => congrArg TcpConn.next (hold _ q hq)
    · rw [hold _ q hq]
      exact h.buffers q hq
    · have hfree := (h₃.perm (ClientInv.perm_record_record _ _ _ _ _)).freeUnlessNull
      rw [hallocs]
      exact hfree.freeUnlessNull.freeBlocks_cons
  · obtain ⟨hsend0, hrecv0⟩ := not_or.mp hnull
    rw [PmmClient.record, if_neg hrecv0, PmmClient.record, if_neg hsend0] at h₃
    refine Or.inr ⟨conn, _, _, sendBuf, recvBuf, rfl, hconn, ⟨?_, fun q hq => ?_, ?_⟩,
      Tcp.setConn_self .., hold _⟩
    · refine h.list.push (by decide) ?_ hconn hnew rfl (congrArg TcpConn.next (Tcp.setConn_self ..))
        fun q hq => congrArg TcpConn.next (hold _ q hq)
      rwa [UInt32.le_iff_toNat_le] at hcount
    · show (Tcp.conn (s.setConn conn _) q).sendBuf ≠ 0 ∧
        (Tcp.conn (s.setConn conn _) q).recvBuf ≠ 0 ∧
        0 < (Tcp.conn (s.setConn conn _) q).config.bufBlocks
      rcases List.mem_cons.mp hq with rfl | hq
      · rw [Tcp.setConn_self]
        exact ⟨hsend0, hrecv0, hsize hrecv0⟩
      · rw [hold _ q hq]
        exact h.buffers q hq
    · show ClientInv base ⟨pmm₃, (conn :: conns).flatMap (s.setConn conn _).allocs ++ rest⟩
      rw [List.flatMap_cons, hallocs, Tcp.allocs, Tcp.setConn_self]
      exact h₃.perm (List.Perm.swap _ _ _)

/-- Creating a connection: a null pointer, and nothing has changed, or a new connection at the
head of the list. -/
theorem create (h : TcpInv base rest pmm s conns) (h0 : pmmTestBlock base 0 = true)
    (localAddr : Option Ipv4Addr) (localPort : UInt16) (remoteAddr : Option Ipv4Addr)
    (remotePort : UInt16) (config : Option TcpConfig) :
    (∃ pmm' s', tcpCreateConnection pmm s localAddr localPort remoteAddr remotePort config =
        (0, pmm', s') ∧ TcpInv base rest pmm' s' conns ∧ s'.links.head = s.links.head ∧
        s'.connectionCount = s.connectionCount ∧ ∀ q ∈ conns, s'.conn q = s.conn q) ∨
      ∃ p pmm' s' a b sendBuf recvBuf, localAddr = some a ∧ remoteAddr = some b ∧
        tcpCreateConnection pmm s localAddr localPort remoteAddr remotePort config =
          (p, pmm', s') ∧ p ≠ 0 ∧ TcpInv base rest pmm' s' (p :: conns) ∧
        s'.conn p = TcpConn.start { newTcpConn a b localPort remotePort
          (config.getD tcpDefaultConfig) with sendBuf, recvBuf } s.currentTime s.connections ∧
        ∀ q ∈ conns, s'.conn q = s.conn q := by
  have hsame : ∃ pmm' s', (0, pmm, s) = (0, pmm', s') ∧ TcpInv base rest pmm' s' conns ∧
      s'.links.head = s.links.head ∧ s'.connectionCount = s.connectionCount ∧
      ∀ q ∈ conns, s'.conn q = s.conn q := ⟨pmm, s, rfl, h, rfl, rfl, fun _ _ => rfl⟩
  cases localAddr with
  | none => exact Or.inl hsame
  | some a =>
    cases remoteAddr with
    | none => exact Or.inl hsame
    | some b =>
      simp only [tcpCreateConnection]
      split_ifs with hcount
      · exact Or.inl hsame
      refine (h.newConnection h0 hcount _).imp_right ?_
      rintro ⟨p, pmm', s', sendBuf, recvBuf, hnew⟩
      exact ⟨p, pmm', s', a, b, sendBuf, recvBuf, rfl, rfl, hnew⟩

/-- Closing a connection of the list: what it held is given back. -/
theorem close (h : TcpInv base rest pmm s (us ++ p :: vs)) :
    ∃ pmm' s', tcpCloseConnection pmm s p = some (pmm', s') ∧
      TcpInv base rest pmm' s' (us ++ vs) ∧
      ∀ q, ∃ next, s'.conn q = { s.conn q with next } := by
  have hmem : p ∈ us ++ p :: vs := List.mem_append_right us List.mem_cons_self
  have hp0 : p ≠ 0 := fun hp0 => h.list.null_notMem (hp0 ▸ hmem)
  have hconn := s.conn_setPlace us.getLast? (s.conn p).next
  obtain ⟨hplace, hget⟩ := h.list.iterate_place (by decide : 256 < listFuel)
  obtain ⟨hsend, hrecv, -⟩ := h.buffers p hmem
  obtain ⟨next, hp⟩ := hconn p
  rw [tcpCloseConnection, if_neg hp0, Tcp.unlink, hplace, Option.map_some, hget, if_neg hp0,
    Option.map_some]
  refine ⟨_, _, rfl, ⟨?_, fun q hq => ?_, ?_⟩, hconn⟩
  · have hremove := h.list.remove
    rwa [show s.links.next p = (s.conn p).next from rfl, ← Tcp.links_setPlace] at hremove
  · obtain ⟨next, hq'⟩ := hconn q
    show (Tcp.conn (s.setPlace _ _) q).sendBuf ≠ 0 ∧ (Tcp.conn (s.setPlace _ _) q).recvBuf ≠ 0 ∧
      0 < (Tcp.conn (s.setPlace _ _) q).config.bufBlocks
    rw [hq']
    exact h.buffers q (List.perm_middle.mem_iff.mpr (List.mem_cons_of_mem p hq))
  · have hlive := h.client.owner_first
    have hallocs : ∀ q, (s.setPlace us.getLast? (s.conn p).next).allocs q = s.allocs q :=
      fun q => Tcp.allocs_congr (hconn q)
    show ClientInv base ⟨_, (us ++ vs).flatMap (s.setPlace _ _).allocs ++ rest⟩
    rw [List.flatMap_congr fun q _ => hallocs q]
    simp only [hp, pmmFreeUnlessNull, if_neg hsend, if_neg hrecv]
    exact hlive.freeBlocks_cons.freeBlocks_cons.freeBlocks_cons

/-- All connections are closed, one after the other. -/
theorem cleanup (h : TcpInv base rest pmm s conns) :
    ∃ pmm' s', tcpCleanup pmm s = some (pmm', s') ∧ TcpInv base rest pmm' s' [] := by
  have hloop : ∀ conns pmm s n, TcpInv base rest pmm s conns → conns.length < n →
      ∃ pmm' s', iterate tcpCleanupTurn n (s.connections, pmm, s) = some (pmm', s') ∧
        TcpInv base rest pmm' s' [] := by
    intro conns
    induction conns with
    | nil =>
      intro pmm s n h hn
      obtain ⟨n, rfl⟩ := Nat.exists_eq_add_of_lt hn
      have hhead : s.connections = 0 := h.list.head_eq
      exact ⟨pmm, s, iterate_done (by rw [tcpCleanupTurn, if_pos hhead]), h⟩
    | cons p conns ih =>
      intro pmm s n h hn
      obtain ⟨n, rfl⟩ : ∃ k, n = k + 1 := ⟨n - 1, by rw [List.length_cons] at hn; omega⟩
      have hhead : s.connections = p := h.list.head_eq
      have hp0 : p ≠ 0 := fun hp0 => h.list.null_notMem (hp0 ▸ List.mem_cons_self)
      have hnext : (s.conn p).next = conns.headD 0 :=
        Seg.next_eq (show Seg _ _ ([] ++ p :: conns) _ from h.list.lists)
      obtain ⟨pmm', s', hclose, h', -⟩ :=
        close (show TcpInv base rest pmm s ([] ++ p :: conns) from h)
      have hhead' : s'.connections = conns.headD 0 := h'.list.head_eq
      have hturn : tcpCleanupTurn (s.connections, pmm, s) =
          some (.next (s'.connections, pmm', s')) := by
        simp only [tcpCleanupTurn, hhead, if_neg hp0, hclose, hnext, hhead', Option.map_some]
      rw [iterate_next hturn]
      exact ih pmm' s' n h' (by rw [List.length_cons] at hn; omega)
  exact hloop conns pmm s listFuel h (Nat.lt_of_le_of_lt h.list.length_le (by decide))

/-- The search finds the first connection of the list. -/
theorem lookup (h : TcpInv base rest pmm s conns) (k : TcpKey) :
    s.lookup k = some ((conns.find? fun p => (s.conn p).has k).getD 0) :=
  iterate_find_null h.list.lists h.list.null_notMem
    (Nat.lt_of_le_of_lt h.list.length_le (by decide))

/-- A connection that shares its four-tuple with no other is found by it. -/
theorem lookup_key (h : TcpInv base rest pmm s conns) (hp : p ∈ conns)
    (hunique : ∀ q ∈ conns, (s.conn q).key = (s.conn p).key → q = p) :
    s.lookup (s.conn p).key = some p := by
  rw [h.lookup]
  cases hfind : conns.find? fun q => (s.conn q).has (s.conn p).key with
  | none =>
    have hnot := List.find?_eq_none.mp hfind p hp
    exact absurd (TcpConn.has_iff.mpr rfl) hnot
  | some q =>
    have hkey := TcpConn.has_iff.mp (List.find?_some (p := fun q => (s.conn q).has _) hfind)
    exact congrArg some (hunique q (List.mem_of_find?_eq_some hfind) hkey)

/-- What is found is a connection of the list, or null. -/
theorem lookup_mem (h : TcpInv base rest pmm s conns) (k : TcpKey) :
    ∃ q, s.lookup k = some q ∧ (q ≠ 0 → q ∈ conns) := by
  refine ⟨_, h.lookup k, fun hq => ?_⟩
  cases hfind : conns.find? fun q => (s.conn q).has k with
  | none => exact absurd (by rw [hfind]; rfl) hq
  | some q => exact List.mem_of_find?_eq_some hfind

/-- The two buffers of a connection are two buffers, and no other connection's. -/
theorem buffers_ne (h : TcpInv base rest pmm s conns) (hp : p ∈ conns) :
    (s.conn p).sendBuf ≠ (s.conn p).recvBuf ∧ ∀ q ∈ conns, q ≠ p →
      ∀ b, b = (s.conn q).sendBuf ∨ b = (s.conn q).recvBuf →
        b ≠ (s.conn p).sendBuf ∧ b ≠ (s.conn p).recvBuf := by
  obtain ⟨us, vs, rfl⟩ := List.append_of_mem hp
  obtain ⟨-, -, hsize⟩ := h.buffers p hp
  have hsend := h.client.owner_first
  have hrecv := hsend.perm (List.Perm.swap _ _ _)
  refine ⟨(hsend.addr_ne List.mem_cons_self hsize hsize).symm, fun q hq hqp b hb => ?_⟩
  have hq' : q ∈ us ++ vs :=
    (List.mem_cons.mp (List.perm_middle.mem_iff.mp hq)).resolve_left hqp
  obtain ⟨-, -, hsize'⟩ := h.buffers q hq
  have hmem : (⟨b, (s.conn q).config.bufBlocks⟩ : Allocation) ∈
      (us ++ vs).flatMap s.allocs ++ rest := by
    refine List.mem_append_left _ (List.mem_flatMap.mpr ⟨q, hq', ?_⟩)
    rw [Tcp.allocs, List.mem_cons, List.mem_cons]
    rcases hb with rfl | rfl
    · exact Or.inl rfl
    · exact Or.inr (Or.inl rfl)
  have htail : ∀ a a' : Allocation, ⟨b, (s.conn q).config.bufBlocks⟩ ∈
      a :: a' :: ((us ++ vs).flatMap s.allocs ++ rest) :=
    fun a a' => List.mem_cons_of_mem a (List.mem_cons_of_mem a' hmem)
  exact ⟨hsend.addr_ne (htail _ _) hsize hsize', hrecv.addr_ne (htail _ _) hsize hsize'⟩

/-- The data is no part of the invariant. -/
theorem congr (h : TcpInv base rest pmm s conns) {s' : Tcp} (hs : s.SameObjects s') :
    TcpInv base rest pmm s' conns where
  list := by
    rw [hs.connectionCount]
    exact h.list.congr hs.connections fun q _ => hs.next q
  buffers q hq := by
    rw [hs.sendBuf, hs.recvBuf, hs.config]
    exact h.buffers q hq
  client := by
    rw [List.flatMap_congr fun q _ => hs.allocs q]
    exact h.client

end TcpInv

end Rexus
