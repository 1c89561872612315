import Rexus.Net.Tcp
import Rexus.Net.Udp

/-!
# Sockets over whole runs

Connections and sockets are created and closed in any order, over one allocator, which the rest of
the kernel uses too. A run carries the lists of the objects that are open, and what the allocator
would be without them.

## Main results

* `SocketsInv.step` — one call keeps the invariant
* `sockets_run` — the lists, the counters and the blocks after every run
* `demux_run` — which runs leave no two objects that match the same packets

## Conventions

An open object is one that has been created and not closed; `Allowed` says that nothing else is
closed or used, which the modules do not check themselves, since the caller has the pointer only
from the creation. What is sent and received changes the data of an object and not what it is found
by, nor what it holds, and is one step with any outcome. Both modules are in one run, because they
share the allocator.

The counters of the two modules are words of thirty-two bits and stay below the limits of the
modules. For the searches a run is one in which every connection that is made has a four-tuple of
its own: `udp_create_socket` looks for that itself, and `tcp_create_connection` does not.
-/

namespace Rexus

open Linked Loop Run

/-- The allocator and the two modules, the open objects in the order of their lists, and the
allocator as it would be without them. -/
structure Sockets where
  pmm : Pmm
  tcp : Tcp
  udp : Udp
  conns : List ℕ
  socks : List ℕ
  base : Pmm

/-- A call, a change of the data of the open objects, or what the rest of the kernel does to the
allocator. -/
inductive SocketOp where
  | tcpCreate (localAddr : Option Ipv4Addr) (localPort : UInt16) (remoteAddr : Option Ipv4Addr)
      (remotePort : UInt16) (config : Option TcpConfig)
  | tcpClose (p : ℕ)
  | tcpCleanup
  | udpCreate (localAddr : Option Ipv4Addr) (localPort : UInt16) (config : Option UdpConfig)
  | udpClose (p : ℕ)
  | udpCleanup
  | data (tcp : Tcp) (udp : Udp)
  | others (base pmm : Pmm)

/-- A new object goes to the head of its list, unless the pointer returned is null. -/
def pushUnlessNull (p : ℕ) (xs : List ℕ) : List ℕ := if p = 0 then xs else p :: xs

namespace Sockets

/-- What the connections hold. -/
def tcpAllocs (r : Sockets) : List Allocation := r.conns.flatMap r.tcp.allocs

/-- What the sockets hold. -/
def udpAllocs (r : Sockets) : List Allocation := r.socks.flatMap r.udp.allocs

/-- One step; `none` if the call does not return. The record follows the answers: an object is open
from the creation that does not return null until it is closed or its module cleaned up. -/
def step (r : Sockets) : SocketOp → Option Sockets
  | .tcpCreate localAddr localPort remoteAddr remotePort config =>
    match tcpCreateConnection r.pmm r.tcp localAddr localPort remoteAddr remotePort config with
    | (p, pmm, tcp) => some { r with pmm, tcp, conns := pushUnlessNull p r.conns }
  | .tcpClose p =>
    (tcpCloseConnection r.pmm r.tcp p).map fun (pmm, tcp) =>
      { r with pmm, tcp, conns := r.conns.erase p }
  | .tcpCleanup =>
    (Rexus.tcpCleanup r.pmm r.tcp).map fun (pmm, tcp) => { r with pmm, tcp, conns := [] }
  | .udpCreate localAddr localPort config =>
    (udpCreateSocket r.pmm r.udp localAddr localPort config).map fun (p, pmm, udp) =>
      { r with pmm, udp, socks := pushUnlessNull p r.socks }
  | .udpClose p =>
    (udpCloseSocket r.pmm r.udp p).map fun (pmm, udp) =>
      { r with pmm, udp, socks := r.socks.erase p }
  | .udpCleanup =>
    (Rexus.udpCleanup r.pmm r.udp).map fun (pmm, udp) => { r with pmm, udp, socks := [] }
  | .data tcp udp => some { r with tcp, udp }
  | .others base pmm => some { r with base, pmm }

/-- Only open objects are closed; sending and receiving change only their data; other clients of the
allocator leave alone what they hold, and block `0`. -/
def Allowed (r : Sockets) : SocketOp → Prop
  | .tcpClose p => p ∈ r.conns
  | .udpClose p => p ∈ r.socks
  | .data tcp udp => r.tcp.SameObjects tcp ∧ r.udp.SameObjects udp
  | .others base pmm =>
    ClientInv base ⟨pmm, r.tcpAllocs ++ r.udpAllocs⟩ ∧ pmmTestBlock base 0 = true
  | _ => True

/-- The step relation of a run: an allowed call that returns, or a change to what the objects are
about that leaves the lists and the buffers where they are. -/
def Step (r : Sockets) (op : SocketOp) (r' : Sockets) : Prop := r.Allowed op ∧ r.step op = some r'

/-- Nothing is open. -/
def start (base : Pmm) (currentTime : UInt32) (conn : ℕ → TcpConn) (socket : ℕ → UdpSocket)
    (buf : ℕ → ℕ → UInt8) : Sockets :=
  ⟨base, ⟨0, 0, currentTime, conn, buf⟩, ⟨0, 0, socket, buf⟩, [], [], base⟩

end Sockets

/-- The invariant: for each of the two modules the list and its counter, and the allocator as seen
from that module, with the blocks of the other among those it must leave alone. -/
structure SocketsInv (r : Sockets) : Prop where
  tcp : TcpInv r.base r.udpAllocs r.pmm r.tcp r.conns
  udp : UdpInv r.base r.tcpAllocs r.pmm r.udp r.socks
  reserved : pmmTestBlock r.base 0 = true

namespace SocketsInv

variable {r : Sockets} {pmm : Pmm} {p : ℕ}

/-- What a call of `tcp.c` does, the sockets do not see. -/
theorem of_tcp (h : SocketsInv r) {tcp : Tcp} {conns : List ℕ}
    (htcp : TcpInv r.base r.udpAllocs pmm tcp conns) :
    SocketsInv { r with pmm, tcp, conns } where
  tcp := htcp
  udp := ⟨h.udp.list, h.udp.buffers, htcp.client.perm List.perm_append_comm⟩
  reserved := h.reserved

/-- What a call of `udp.c` does, the connections do not see. -/
theorem of_udp (h : SocketsInv r) {udp : Udp} {socks : List ℕ}
    (hudp : UdpInv r.base r.tcpAllocs pmm udp socks) :
    SocketsInv { r with pmm, udp, socks } where
  tcp := ⟨h.tcp.list, h.tcp.buffers, hudp.client.perm List.perm_append_comm⟩
  udp := hudp
  reserved := h.reserved

theorem erase_append_cons {us vs : List ℕ} (hnodup : (us ++ p :: vs).Nodup) :
    (us ++ p :: vs).erase p = us ++ vs := by
  have hus : p ∉ us := fun hp => (List.nodup_append.mp hnodup).2.2 p hp p List.mem_cons_self rfl
  rw [List.erase_append_right _ hus, List.erase_cons_head]

/-- Closing an open connection. -/
theorem tcpClose (h : SocketsInv r) (hp : p ∈ r.conns) :
    ∃ pmm tcp, tcpCloseConnection r.pmm r.tcp p = some (pmm, tcp) ∧
      TcpInv r.base r.udpAllocs pmm tcp (r.conns.erase p) ∧
      ∀ q, ∃ next, tcp.conn q = { r.tcp.conn q with next } := by
  have htcp := h.tcp
  obtain ⟨us, vs, hconns⟩ := List.append_of_mem hp
  rw [hconns] at htcp ⊢
  rw [erase_append_cons htcp.list.nodup]
  exact htcp.close

/-- Closing an open socket. -/
theorem udpClose (h : SocketsInv r) (hp : p ∈ r.socks) :
    ∃ pmm udp, udpCloseSocket r.pmm r.udp p = some (pmm, udp) ∧
      UdpInv r.base r.tcpAllocs pmm udp (r.socks.erase p) ∧
      ∀ q, ∃ next, udp.socket q = { r.udp.socket q with next } := by
  have hudp := h.udp
  obtain ⟨us, vs, hsocks⟩ := List.append_of_mem hp
  rw [hsocks] at hudp ⊢
  rw [erase_append_cons hudp.list.nodup]
  exact hudp.close

/-- A connection that has been created. -/
theorem created (h : SocketsInv r) {localAddr remoteAddr : Option Ipv4Addr}
    {localPort remotePort : UInt16} {config : Option TcpConfig} {tcp : Tcp}
    (hcreate : tcpCreateConnection r.pmm r.tcp localAddr localPort remoteAddr remotePort config =
      (p, pmm, tcp)) (hp : p ≠ 0) :
    TcpInv r.base r.udpAllocs pmm tcp (p :: r.conns) ∧ ∃ a b sendBuf recvBuf,
      tcp.conn p = TcpConn.start { newTcpConn a b localPort remotePort
        (config.getD tcpDefaultConfig) with sendBuf, recvBuf } r.tcp.currentTime
        r.tcp.connections := by
  rcases h.tcp.create h.reserved localAddr localPort remoteAddr remotePort config with
    ⟨pmm', tcp', hcreate', -⟩ | ⟨p', pmm', tcp', a, b, sendBuf, recvBuf, -, -, hcreate', -, hinv,
      hconn, -⟩
  · rw [hcreate', Prod.mk.injEq] at hcreate
    exact absurd hcreate.1.symm hp
  · rw [hcreate', Prod.mk.injEq, Prod.mk.injEq] at hcreate
    obtain ⟨rfl, rfl, rfl⟩ := hcreate
    exact ⟨hinv, a, b, sendBuf, recvBuf, hconn⟩

/-- **One call keeps the invariant**, and every call returns. -/
theorem step (h : SocketsInv r) {op : SocketOp} (hop : r.Allowed op) :
    ∃ r', r.step op = some r' ∧ SocketsInv r' := by
  cases op with
  | tcpCreate localAddr localPort remoteAddr remotePort config =>
    rcases h.tcp.create h.reserved localAddr localPort remoteAddr remotePort config with
      ⟨pmm, tcp, hcreate, hinv, -⟩ | ⟨p, pmm, tcp, -, -, -, -, -, -, hcreate, hp0, hinv, -⟩
    · exact ⟨_, by rw [Sockets.step, hcreate]; rfl, h.of_tcp hinv⟩
    · refine ⟨{ r with pmm, tcp, conns := p :: r.conns }, ?_, h.of_tcp hinv⟩
      simp only [Sockets.step, hcreate, pushUnlessNull, if_neg hp0]
  | tcpClose p =>
    obtain ⟨pmm, tcp, hclose, hinv, -⟩ := h.tcpClose hop
    exact ⟨_, by rw [Sockets.step, hclose]; rfl, h.of_tcp hinv⟩
  | tcpCleanup =>
    obtain ⟨pmm, tcp, hcleanup, hinv⟩ := h.tcp.cleanup
    exact ⟨_, by rw [Sockets.step, hcleanup]; rfl, h.of_tcp hinv⟩
  | udpCreate localAddr localPort config =>
    rcases h.udp.create h.reserved localAddr localPort config with
      ⟨pmm, udp, hcreate, hinv, -⟩ | ⟨p, pmm, udp, -, -, -, hcreate, hp0, hinv, -⟩
    · exact ⟨_, by rw [Sockets.step, hcreate]; rfl, h.of_udp hinv⟩
    · refine ⟨{ r with pmm, udp, socks := p :: r.socks }, ?_, h.of_udp hinv⟩
      simp only [Sockets.step, hcreate, Option.map_some, pushUnlessNull, if_neg hp0]
  | udpClose p =>
    obtain ⟨pmm, udp, hclose, hinv, -⟩ := h.udpClose hop
    exact ⟨_, by rw [Sockets.step, hclose]; rfl, h.of_udp hinv⟩
  | udpCleanup =>
    obtain ⟨pmm, udp, hcleanup, hinv⟩ := h.udp.cleanup
    exact ⟨_, by rw [Sockets.step, hcleanup]; rfl, h.of_udp hinv⟩
  | data tcp udp =>
    obtain ⟨htcp, hudp⟩ := hop
    have hdata : SocketsInv { r with tcp } := h.of_tcp (h.tcp.congr htcp)
    exact ⟨_, rfl, hdata.of_udp (hdata.udp.congr hudp)⟩
  | others base pmm =>
    exact ⟨_, rfl, ⟨h.tcp.list, h.tcp.buffers, hop.1⟩,
      ⟨h.udp.list, h.udp.buffers, hop.1.perm List.perm_append_comm⟩, hop.2⟩

theorem start {base : Pmm} (h0 : pmmTestBlock base 0 = true) (currentTime : UInt32)
    (conn : ℕ → TcpConn) (socket : ℕ → UdpSocket) (buf : ℕ → ℕ → UInt8) :
    SocketsInv (.start base currentTime conn socket buf) where
  tcp := ⟨CountedList.nil rfl, (fun _ hp => nomatch hp), ClientInv.start base⟩
  udp := ⟨CountedList.nil rfl, (fun _ hp => nomatch hp), ClientInv.start base⟩
  reserved := h0

/-- The invariant holds wherever a run ends. -/
theorem of_reaches {r r' : Sockets} (h : SocketsInv r) (hrun : Reaches Sockets.Step r r') :
    SocketsInv r' :=
  hrun.invariant h fun _ _ _ ha hstep => by
    obtain ⟨b, hb, hinv⟩ := ha.step hstep.1
    exact Option.some_inj.mp (hb.symm.trans hstep.2) ▸ hinv

end SocketsInv

/-! ### What is allocated -/

/-- Two allocators with the same bitmap and the same counter. -/
structure SameBlocks (s t : Pmm) : Prop where
  memBlocks : t.memBlocks = s.memBlocks
  usedSet : t.usedSet = s.usedSet
  memUsedBlocks : t.memUsedBlocks = s.memUsedBlocks

/-- What the lists, the counters and the blocks are to be. The run keeps a record of the connections
and sockets that are open; each has its structure and its buffers. -/
structure SocketSpec (r : Sockets) : Prop where
  /-- The lists have the open objects, no more than 256, and the counters are their lengths. -/
  conns : CountedList r.tcp.links 0 r.tcp.connectionCount 256 r.conns
  socks : CountedList r.udp.links 0 r.udp.socketCount 256 r.socks
  /-- The blocks in use are those of the open objects, -/
  blocks : ∀ b, b ∈ r.pmm.usedSet ↔
    b ∈ r.base.usedSet ∨ ∃ a ∈ r.tcpAllocs ++ r.udpAllocs, b ∈ a.blocks
  /-- no two of which share a block, nor one with the rest of the kernel. -/
  fresh : ∀ a ∈ r.tcpAllocs ++ r.udpAllocs, Disjoint r.base.usedSet a.blocks
  disjoint : (r.tcpAllocs ++ r.udpAllocs).Pairwise fun a a' => Disjoint a.blocks a'.blocks

/-- What the calls are to do, in every state of a run: they return, one that fails has changed
nothing a caller can tell, and a cleanup gives back what its module holds. -/
structure SocketCalls (r : Sockets) : Prop where
  /-- They return. -/
  returns : ∀ op, r.Allowed op → ∃ r', r.step op = some r'
  /-- A creation that returns null changes neither the list, nor the counter, nor the bitmap. -/
  tcp_null : ∀ localAddr localPort remoteAddr remotePort config pmm tcp,
    tcpCreateConnection r.pmm r.tcp localAddr localPort remoteAddr remotePort config =
      (0, pmm, tcp) →
    tcp.connections = r.tcp.connections ∧ tcp.connectionCount = r.tcp.connectionCount ∧
      (∀ p ∈ r.conns, tcp.conn p = r.tcp.conn p) ∧ SameBlocks r.pmm pmm
  udp_null : ∀ localAddr localPort config pmm udp,
    udpCreateSocket r.pmm r.udp localAddr localPort config = some (0, pmm, udp) →
    udp.sockets = r.udp.sockets ∧ udp.socketCount = r.udp.socketCount ∧
      (∀ p ∈ r.socks, udp.socket p = r.udp.socket p) ∧ SameBlocks r.pmm pmm
  /-- A cleanup leaves an empty list and none of its blocks. -/
  tcp_cleanup : ∃ pmm tcp, tcpCleanup r.pmm r.tcp = some (pmm, tcp) ∧ tcp.connections = 0 ∧
    tcp.connectionCount = 0 ∧
    ∀ b, b ∈ pmm.usedSet ↔ b ∈ r.base.usedSet ∨ ∃ a ∈ r.udpAllocs, b ∈ a.blocks
  udp_cleanup : ∃ pmm udp, udpCleanup r.pmm r.udp = some (pmm, udp) ∧ udp.sockets = 0 ∧
    udp.socketCount = 0 ∧
    ∀ b, b ∈ pmm.usedSet ↔ b ∈ r.base.usedSet ∨ ∃ a ∈ r.tcpAllocs, b ∈ a.blocks

namespace SocketsInv

variable {r : Sockets}

theorem spec (h : SocketsInv r) : SocketSpec r :=
  ⟨h.tcp.list, h.udp.list, h.tcp.client.mem_usedSet, h.tcp.client.fresh, h.tcp.client.disjoint⟩

/-- Invariants that hold the same allocations. -/
theorem sameBlocks {base s t : Pmm} {live : List Allocation} (hs : ClientInv base ⟨s, live⟩)
    (ht : ClientInv base ⟨t, live⟩) : SameBlocks s t := by
  obtain ⟨hblocks, hset, hcount⟩ := hs.eq_of_live ht
  exact ⟨hblocks, hset, hcount⟩

theorem calls (h : SocketsInv r) : SocketCalls r where
  returns op hop := by
    obtain ⟨r', hr', -⟩ := h.step hop
    exact ⟨r', hr'⟩
  tcp_null localAddr localPort remoteAddr remotePort config pmm tcp hcreate := by
    rcases h.tcp.create h.reserved localAddr localPort remoteAddr remotePort config with
      ⟨pmm', tcp', hcreate', hinv, hhead, hcount, hold⟩ |
      ⟨p, pmm', tcp', -, -, -, -, -, -, hcreate', hp0, -⟩
    · rw [hcreate', Prod.mk.injEq, Prod.mk.injEq] at hcreate
      obtain ⟨-, rfl, rfl⟩ := hcreate
      refine ⟨hhead, hcount, hold, sameBlocks h.tcp.client ?_⟩
      have hallocs : r.conns.flatMap tcp'.allocs = r.conns.flatMap r.tcp.allocs :=
        List.flatMap_congr fun q hq => Tcp.allocs_congr ⟨_, hold q hq⟩
      exact hallocs ▸ hinv.client
    · rw [hcreate', Prod.mk.injEq] at hcreate
      exact absurd hcreate.1 hp0
  udp_null localAddr localPort config pmm udp hcreate := by
    rcases h.udp.create h.reserved localAddr localPort config with
      ⟨pmm', udp', hcreate', hinv, hhead, hcount, hold⟩ |
      ⟨p, pmm', udp', -, -, -, hcreate', hp0, -⟩
    · rw [hcreate', Option.some_inj, Prod.mk.injEq, Prod.mk.injEq] at hcreate
      obtain ⟨-, rfl, rfl⟩ := hcreate
      refine ⟨hhead, hcount, hold, sameBlocks h.udp.client ?_⟩
      have hallocs : r.socks.flatMap udp'.allocs = r.socks.flatMap r.udp.allocs :=
        List.flatMap_congr fun q hq => Udp.allocs_congr ⟨_, hold q hq⟩
      exact hallocs ▸ hinv.client
    · rw [hcreate', Option.some_inj, Prod.mk.injEq] at hcreate
      exact absurd hcreate.1 hp0
  tcp_cleanup := by
    obtain ⟨pmm, tcp, hcleanup, hinv⟩ := h.tcp.cleanup
    refine ⟨pmm, tcp, hcleanup, hinv.list.head_eq, ?_, hinv.client.mem_usedSet⟩
    exact UInt32.toNat_inj.mp hinv.list.count
  udp_cleanup := by
    obtain ⟨pmm, udp, hcleanup, hinv⟩ := h.udp.cleanup
    refine ⟨pmm, udp, hcleanup, hinv.list.head_eq, ?_, hinv.client.mem_usedSet⟩
    exact UInt32.toNat_inj.mp hinv.list.count

end SocketsInv

/-- **Every run** of creations and closings, with block `0` reserved. -/
theorem sockets_run {base : Pmm} (h0 : pmmTestBlock base 0 = true) {currentTime : UInt32}
    {conn : ℕ → TcpConn} {socket : ℕ → UdpSocket} {buf : ℕ → ℕ → UInt8} {r : Sockets}
    (hrun : Reaches Sockets.Step (.start base currentTime conn socket buf) r) :
    SocketSpec r ∧ SocketCalls r := by
  have h := (SocketsInv.start h0 currentTime conn socket buf).of_reaches hrun
  exact ⟨h.spec, h.calls⟩

/-! ### Who gets a packet -/

namespace Sockets

/-- No two connections have one four-tuple. -/
def TcpUnique (r : Sockets) : Prop :=
  ∀ p ∈ r.conns, ∀ q ∈ r.conns, (r.tcp.conn p).key = (r.tcp.conn q).key → p = q

/-- No two sockets have one address and port. -/
def UdpUnique (r : Sockets) : Prop :=
  ∀ p ∈ r.socks, ∀ q ∈ r.socks, (r.udp.socket p).localAddr = (r.udp.socket q).localAddr →
    (r.udp.socket p).localPort = (r.udp.socket q).localPort → p = q

/-- A connection that is made has a four-tuple that no open one has. -/
def Distinct (r : Sockets) : SocketOp → Prop
  | .tcpCreate (some a) localPort (some b) remotePort config =>
    r.tcp.connectionCount < 256 → TcpFits r.pmm (config.getD tcpDefaultConfig).bufBlocks →
      ∀ q ∈ r.conns, (r.tcp.conn q).key ≠ ⟨a, localPort, b, remotePort⟩
  | _ => True

/-- A step of a run in which every connection that is made has a four-tuple of its own. -/
def DistinctStep (r : Sockets) (op : SocketOp) (r' : Sockets) : Prop := r.Step op r' ∧ r.Distinct op

/-- The objects that stay open keep what they are matched by. -/
def KeepsKeys (r r' : Sockets) : Prop :=
  (∀ p ∈ r.conns, p ∈ r'.conns → (r'.tcp.conn p).key = (r.tcp.conn p).key) ∧
    ∀ p ∈ r.socks, p ∈ r'.socks → (r'.udp.socket p).localAddr = (r.udp.socket p).localAddr ∧
      (r'.udp.socket p).localPort = (r.udp.socket p).localPort

end Sockets

/-- What the searches are to find. A search takes the first object of the list that matches, so what
is for an object behind another that matches too would never get to it. -/
structure DemuxSpec (r : Sockets) : Prop where
  /-- A segment matches one connection at most, and a datagram one socket; -/
  tcp : r.TcpUnique
  udp : r.UdpUnique
  /-- and what is for an open object, that object gets. -/
  tcp_lookup : ∀ p ∈ r.conns, r.tcp.lookup (r.tcp.conn p).key = some p
  udp_lookup : ∀ p ∈ r.socks,
    r.udp.lookup (r.udp.socket p).localAddr (r.udp.socket p).localPort = some p

namespace SocketsInv

variable {r r' : Sockets}

theorem demux (h : SocketsInv r) (htcp : r.TcpUnique) (hudp : r.UdpUnique) : DemuxSpec r where
  tcp := htcp
  udp := hudp
  tcp_lookup p hp := h.tcp.lookup_key hp fun q hq hkey => htcp q hq p hp hkey
  udp_lookup p hp := by
    rw [h.udp.lookup]
    cases hfind : r.socks.find? fun q =>
        (r.udp.socket q).has (r.udp.socket p).localAddr (r.udp.socket p).localPort with
    | none =>
      have hnot := List.find?_eq_none.mp hfind p hp
      exact absurd (UdpSocket.has_iff.mpr ⟨rfl, rfl⟩) hnot
    | some q =>
      obtain ⟨haddr, hport⟩ := UdpSocket.has_iff.mp
        (List.find?_some (p := fun q => (r.udp.socket q).has _ _) hfind)
      exact congrArg some (hudp q (List.mem_of_find?_eq_some hfind) p hp haddr hport)

/-- One more object, with a key that none of the others has. -/
theorem eq_of_key_cons {α β : Type*} {f : α → β} {p : α} {l : List α}
    (hl : ∀ q ∈ l, ∀ q' ∈ l, f q = f q' → q = q') (hp : ∀ q ∈ l, f q ≠ f p) :
    ∀ q ∈ p :: l, ∀ q' ∈ p :: l, f q = f q' → q = q' := by
  intro q hq q' hq' heq
  rcases List.mem_cons.mp hq with rfl | hmem
  · rcases List.mem_cons.mp hq' with rfl | hmem'
    · rfl
    · exact absurd heq.symm (hp q' hmem')
  · rcases List.mem_cons.mp hq' with rfl | hmem'
    · exact absurd heq (hp q hmem)
    · exact hl q hmem q' hmem' heq

/-- Fewer connections are as distinct as before. -/
theorem tcpUnique_of_subset (hu : r.TcpUnique) (hkeep : r.KeepsKeys r')
    (hsub : ∀ p ∈ r'.conns, p ∈ r.conns) : r'.TcpUnique := by
  intro p hp q hq hkey
  rw [hkeep.1 p (hsub p hp) hp, hkeep.1 q (hsub q hq) hq] at hkey
  exact hu p (hsub p hp) q (hsub q hq) hkey

theorem udpUnique_of_subset (hu : r.UdpUnique) (hkeep : r.KeepsKeys r')
    (hsub : ∀ p ∈ r'.socks, p ∈ r.socks) : r'.UdpUnique := by
  intro p hp q hq haddr hport
  obtain ⟨hap, hpp⟩ := hkeep.2 p (hsub p hp) hp
  obtain ⟨haq, hpq⟩ := hkeep.2 q (hsub q hq) hq
  rw [hap, haq] at haddr
  rw [hpp, hpq] at hport
  exact hu p (hsub p hp) q (hsub q hq) haddr hport

/-- **A new connection** is distinct from the others if and only if it was asked to be. -/
theorem tcpCreate_unique (h : SocketsInv r) (hu : r.TcpUnique)
    (localAddr remoteAddr : Option Ipv4Addr) (localPort remotePort : UInt16)
    (config : Option TcpConfig) :
    ∃ r', r.step (.tcpCreate localAddr localPort remoteAddr remotePort config) = some r' ∧
      r.KeepsKeys r' ∧ r'.socks = r.socks ∧ r'.udp = r.udp ∧
      (r'.TcpUnique ↔
        r.Distinct (.tcpCreate localAddr localPort remoteAddr remotePort config)) := by
  rcases h.tcp.create h.reserved localAddr localPort remoteAddr remotePort config with
    ⟨pmm, tcp, hcreate, hinv, -, -, hold⟩ |
    ⟨p, pmm, tcp, a, b, sendBuf, recvBuf, rfl, rfl, hcreate, hp0, hinv, hp, hold⟩
  · have hkeep : r.KeepsKeys { r with pmm, tcp } :=
      ⟨fun p hp _ => congrArg TcpConn.key (hold p hp), fun _ _ _ => ⟨rfl, rfl⟩⟩
    refine ⟨{ r with pmm, tcp }, by rw [Sockets.step, hcreate]; rfl, hkeep, rfl, rfl,
      iff_of_true (tcpUnique_of_subset hu hkeep fun _ => id) ?_⟩
    cases localAddr with
    | none => trivial
    | some a =>
      cases remoteAddr with
      | none => trivial
      | some b =>
        intro hcount hfits
        refine absurd (congrArg Prod.fst hcreate) ?_
        exact tcpCreateConnection_ne_zero_iff.mpr ⟨hcount, hfits⟩
  · have hnew : p ∉ r.conns := (List.nodup_cons.mp hinv.list.nodup).1
    have hkey : (tcp.conn p).key = ⟨a, localPort, b, remotePort⟩ := by rw [hp]; rfl
    have hkeep : r.KeepsKeys { r with pmm, tcp, conns := p :: r.conns } :=
      ⟨fun q hq _ => congrArg TcpConn.key (hold q hq), fun _ _ _ => ⟨rfl, rfl⟩⟩
    refine ⟨{ r with pmm, tcp, conns := p :: r.conns }, ?_, hkeep, rfl, rfl,
      fun hu' hcount hfits q hq heq => ?_, fun hdistinct => ?_⟩
    · simp only [Sockets.step, hcreate, pushUnlessNull, if_neg hp0]
    · have hq' : (tcp.conn q).key = (tcp.conn p).key := by rw [hold q hq, heq, hkey]
      have hqp := hu' q (List.mem_cons_of_mem p hq) p List.mem_cons_self hq'
      exact hnew (hqp ▸ hq)
    · have hne : (tcpCreateConnection r.pmm r.tcp (some a) localPort (some b) remotePort config).1 ≠
          0 := by rwa [hcreate]
      obtain ⟨hcount, hfits⟩ := tcpCreateConnection_ne_zero_iff.mp hne
      have hother := hdistinct hcount hfits
      refine eq_of_key_cons (f := fun q => (tcp.conn q).key) (fun q hq q' hq' heq => ?_)
        fun q hq heq => ?_
      · rw [hold q hq, hold q' hq'] at heq
        exact hu q hq q' hq' heq
      · rw [hold q hq, hkey] at heq
        exact hother q hq heq

/-- A new socket is distinct from the others. -/
theorem udpCreate_unique (h : SocketsInv r) (hu : r.UdpUnique) (localAddr : Option Ipv4Addr)
    (localPort : UInt16) (config : Option UdpConfig) :
    ∃ r', r.step (.udpCreate localAddr localPort config) = some r' ∧ r.KeepsKeys r' ∧
      r'.conns = r.conns ∧ r'.tcp = r.tcp ∧ r'.UdpUnique := by
  rcases h.udp.create h.reserved localAddr localPort config with
    ⟨pmm, udp, hcreate, hinv, -, -, hold⟩ |
    ⟨p, pmm, udp, a, recvBuf, rfl, hcreate, hp0, hinv, hp, hother, hold⟩
  · have hkeep : r.KeepsKeys { r with pmm, udp } := by
      refine ⟨fun _ _ _ => rfl, fun p hp _ => ?_⟩
      show (udp.socket p).localAddr = _ ∧ (udp.socket p).localPort = _
      rw [hold p hp]
      exact ⟨rfl, rfl⟩
    exact ⟨{ r with pmm, udp }, by rw [Sockets.step, hcreate]; rfl, hkeep, rfl, rfl,
      udpUnique_of_subset hu hkeep fun _ => id⟩
  · have hkeep : r.KeepsKeys { r with pmm, udp, socks := p :: r.socks } := by
      refine ⟨fun _ _ _ => rfl, fun q hq _ => ?_⟩
      show (udp.socket q).localAddr = _ ∧ (udp.socket q).localPort = _
      rw [hold q hq]
      exact ⟨rfl, rfl⟩
    refine ⟨{ r with pmm, udp, socks := p :: r.socks }, ?_, hkeep, rfl, rfl, ?_⟩
    · simp only [Sockets.step, hcreate, Option.map_some, pushUnlessNull, if_neg hp0]
    · refine fun q hq q' hq' haddr hport => eq_of_key_cons
        (f := fun q => ((udp.socket q).localAddr, (udp.socket q).localPort))
        (fun q hq q' hq' heq => ?_) (fun q hq heq => ?_) q hq q' hq' (Prod.ext haddr hport)
      · obtain ⟨haddr, hport⟩ := Prod.mk.inj heq
        rw [hold q hq, hold q' hq'] at haddr hport
        exact hu q hq q' hq' haddr hport
      · obtain ⟨haddr, hport⟩ := Prod.mk.inj heq
        rw [hold q hq, hp] at haddr hport
        exact Bool.false_ne_true ((hother q hq).symm.trans (UdpSocket.has_iff.mpr ⟨haddr, hport⟩))

/-- **One step**, and when it leaves the objects distinct. -/
theorem step_unique (h : SocketsInv r) (htcp : r.TcpUnique) (hudp : r.UdpUnique) {op : SocketOp}
    (hop : r.Allowed op) : ∃ r', r.step op = some r' ∧ r.KeepsKeys r' ∧ r'.UdpUnique ∧
      (r'.TcpUnique ↔ r.Distinct op) := by
  -- the steps after which no more is open than before
  have hless : ∀ r', r.step op = some r' → r.KeepsKeys r' → (∀ p ∈ r'.conns, p ∈ r.conns) →
      (∀ p ∈ r'.socks, p ∈ r.socks) → r.Distinct op →
      ∃ r', r.step op = some r' ∧ r.KeepsKeys r' ∧ r'.UdpUnique ∧
        (r'.TcpUnique ↔ r.Distinct op) := fun r' hstep hkeep hconns hsocks hdistinct =>
    ⟨r', hstep, hkeep, udpUnique_of_subset hudp hkeep hsocks,
      iff_of_true (tcpUnique_of_subset htcp hkeep hconns) hdistinct⟩
  cases op with
  | tcpCreate localAddr localPort remoteAddr remotePort config =>
    obtain ⟨r', hstep, hkeep, hsocks, hudp', hiff⟩ :=
      h.tcpCreate_unique htcp localAddr remoteAddr localPort remotePort config
    refine ⟨r', hstep, hkeep, ?_, hiff⟩
    rw [Sockets.UdpUnique, hsocks, hudp']
    exact hudp
  | tcpClose p =>
    obtain ⟨pmm, tcp, hclose, -, hold⟩ := h.tcpClose hop
    refine hless { r with pmm, tcp, conns := r.conns.erase p }
      (by rw [Sockets.step, hclose]; rfl) ⟨fun q _ _ => ?_, fun _ _ _ => ⟨rfl, rfl⟩⟩
      (fun _ => List.mem_of_mem_erase) (fun _ => id) trivial
    obtain ⟨next, hq⟩ := hold q
    show (tcp.conn q).key = _
    rw [hq]
    rfl
  | tcpCleanup =>
    obtain ⟨pmm, tcp, hcleanup, -⟩ := h.tcp.cleanup
    exact hless { r with pmm, tcp, conns := [] } (by rw [Sockets.step, hcleanup]; rfl)
      ⟨(fun _ _ hp => nomatch hp), fun _ _ _ => ⟨rfl, rfl⟩⟩ (fun _ hp => nomatch hp) (fun _ => id)
      trivial
  | udpCreate localAddr localPort config =>
    obtain ⟨r', hstep, hkeep, hconns, htcp', hu⟩ :=
      h.udpCreate_unique hudp localAddr localPort config
    refine ⟨r', hstep, hkeep, hu, iff_of_true ?_ trivial⟩
    rw [Sockets.TcpUnique, hconns, htcp']
    exact htcp
  | udpClose p =>
    obtain ⟨pmm, udp, hclose, -, hold⟩ := h.udpClose hop
    refine hless { r with pmm, udp, socks := r.socks.erase p }
      (by rw [Sockets.step, hclose]; rfl) ⟨fun _ _ _ => rfl, fun q _ _ => ?_⟩
      (fun _ => id) (fun _ => List.mem_of_mem_erase) trivial
    obtain ⟨next, hq⟩ := hold q
    show (udp.socket q).localAddr = _ ∧ (udp.socket q).localPort = _
    rw [hq]
    exact ⟨rfl, rfl⟩
  | udpCleanup =>
    obtain ⟨pmm, udp, hcleanup, -⟩ := h.udp.cleanup
    exact hless { r with pmm, udp, socks := [] } (by rw [Sockets.step, hcleanup]; rfl)
      ⟨fun _ _ _ => rfl, fun _ _ hp => nomatch hp⟩ (fun _ => id) (fun _ hp => nomatch hp) trivial
  | data tcp udp =>
    obtain ⟨htcp, hudp'⟩ := hop
    exact hless { r with tcp, udp } rfl ⟨fun q _ _ => htcp.key q,
      fun q _ _ => ⟨hudp'.localAddr q, hudp'.localPort q⟩⟩ (fun _ => id) (fun _ => id) trivial
  | others base pmm =>
    exact hless { r with base, pmm } rfl ⟨fun _ _ _ => rfl, fun _ _ _ => ⟨rfl, rfl⟩⟩
      (fun _ => id) (fun _ => id) trivial

end SocketsInv

/-- **Every run** whose connections are made with four-tuples of their own leaves no packet with
two objects, and a further call leaves none with two exactly if it makes no other connection. -/
theorem demux_run {base : Pmm} (h0 : pmmTestBlock base 0 = true) {currentTime : UInt32}
    {conn : ℕ → TcpConn} {socket : ℕ → UdpSocket} {buf : ℕ → ℕ → UInt8} {r : Sockets}
    (hrun : Reaches Sockets.DistinctStep (.start base currentTime conn socket buf) r) :
    DemuxSpec r ∧ ∀ op, r.Allowed op →
      ∃ r', r.step op = some r' ∧ r.KeepsKeys r' ∧ (DemuxSpec r' ↔ r.Distinct op) := by
  have hstart := SocketsInv.start h0 currentTime conn socket buf
  have h : SocketsInv r ∧ r.TcpUnique ∧ r.UdpUnique := by
    refine hrun.invariant (I := fun r => SocketsInv r ∧ r.TcpUnique ∧ r.UdpUnique) ⟨hstart, ?_, ?_⟩
      fun a op b ha hstep => ?_
    · exact fun _ hp => nomatch hp
    · exact fun _ hp => nomatch hp
    · obtain ⟨ha, htcp, hudp⟩ := ha
      obtain ⟨⟨hop, hb⟩, hdistinct⟩ := hstep
      obtain ⟨b', hb', -, hudp', hiff⟩ := ha.step_unique htcp hudp hop
      obtain rfl := Option.some_inj.mp (hb'.symm.trans hb)
      exact ⟨ha.of_reaches ((Reaches.refl _).tail ⟨hop, hb⟩), hiff.mpr hdistinct, hudp'⟩
  obtain ⟨h, htcp, hudp⟩ := h
  refine ⟨h.demux htcp hudp, fun op hop => ?_⟩
  obtain ⟨r', hr', hkeep, hudp', hiff⟩ := h.step_unique htcp hudp hop
  have h' : SocketsInv r' := h.of_reaches ((Reaches.refl _).tail ⟨hop, hr'⟩)
  exact ⟨r', hr', hkeep, fun hspec => hiff.mp hspec.tcp, fun hd => h'.demux (hiff.mpr hd) hudp'⟩

/-! ### Two connections -/

/-- Nothing is open, and eight blocks. -/
def noSockets : Sockets :=
  .start pmmEight 0 (fun _ => newTcpConn ⟨fun _ => 0⟩ ⟨fun _ => 0⟩ 0 0 tcpDefaultConfig)
    (fun _ => newUdpSocket ⟨fun _ => 0⟩ 0 udpDefaultConfig) fun _ _ => 0

/-- A window of one block. -/
def smallConfig : TcpConfig := { tcpDefaultConfig with windowSize := 4096 }

/-- A connection from a local port to port `1024`, with a window of one block. -/
def connectOp (localPort : UInt16) : SocketOp :=
  .tcpCreate (some ⟨fun _ => 0⟩) localPort (some ⟨fun _ => 0⟩) 1024 (some smallConfig)

/-- The state after it. -/
def Sockets.connect (r : Sockets) (localPort : UInt16) : Sockets :=
  match tcpCreateConnection r.pmm r.tcp (some ⟨fun _ => 0⟩) localPort (some ⟨fun _ => 0⟩) 1024
      (some smallConfig) with
  | (p, pmm, tcp) => { r with pmm, tcp, conns := pushUnlessNull p r.conns }

theorem Sockets.step_connect (r : Sockets) (localPort : UInt16) :
    r.Step (connectOp localPort) (r.connect localPort) := ⟨trivial, rfl⟩

theorem conns_connect_connect : ((noSockets.connect 80).connect 80).conns = [16384, 4096] := by
  decide +kernel

theorem sockets_run_two :
    SocketSpec ((noSockets.connect 80).connect 81) ∧
      SocketCalls ((noSockets.connect 80).connect 81) :=
  sockets_run (by decide) (((Reaches.refl _).tail (noSockets.step_connect 80)).tail
    ((noSockets.connect 80).step_connect 81))

theorem demux_run_two :
    DemuxSpec ((noSockets.connect 80).connect 81) ∧
      ∀ op, ((noSockets.connect 80).connect 81).Allowed op →
        ∃ r', ((noSockets.connect 80).connect 81).step op = some r' ∧
          ((noSockets.connect 80).connect 81).KeepsKeys r' ∧
          (DemuxSpec r' ↔ ((noSockets.connect 80).connect 81).Distinct op) := by
  have h₁ : Sockets.DistinctStep noSockets (connectOp 80) (noSockets.connect 80) :=
    ⟨noSockets.step_connect 80, fun _ _ _ hq => nomatch hq⟩
  have h₂ : Sockets.DistinctStep (noSockets.connect 80) (connectOp 81)
      ((noSockets.connect 80).connect 81) := by
    refine ⟨(noSockets.connect 80).step_connect 81, fun _ _ q hq heq => ?_⟩
    obtain rfl : q = 4096 := List.mem_singleton.mp hq
    exact absurd (congrArg TcpKey.localPort heq) (by decide)
  exact demux_run (by decide) (((Reaches.refl _).tail h₁).tail h₂)

/-- Two connections are made with one four-tuple. -/
theorem not_demuxSpec_two :
    Reaches Sockets.Step noSockets ((noSockets.connect 80).connect 80) ∧
      ¬ DemuxSpec ((noSockets.connect 80).connect 80) := by
  refine ⟨((Reaches.refl _).tail (noSockets.step_connect 80)).tail
    ((noSockets.connect 80).step_connect 80), fun h => ?_⟩
  have hmem : ∀ p ∈ [16384, 4096], p ∈ ((noSockets.connect 80).connect 80).conns :=
    fun p hp => conns_connect_connect ▸ hp
  have heq := h.tcp 16384 (hmem _ (by decide)) 4096 (hmem _ (by decide)) rfl
  exact absurd heq (by decide)

/-- What the first of them returns. -/
def firstConnection : ℕ × Pmm × Tcp :=
  tcpCreateConnection noSockets.pmm noSockets.tcp (some ⟨fun _ => 0⟩) 80 (some ⟨fun _ => 0⟩) 1024
    (some smallConfig)

theorem firstConnection_eq : firstConnection.1 = 4096 := by decide +kernel

end Rexus
