import Rexus.Lib.CountedList
import Rexus.Mem.PmmClient
import Rexus.Net.Interface

/-!
# UDP sockets

Creating and closing sockets, from `net/udp.c`. A socket holds a block for its structure and a run
of blocks for what has been received. A socket is created only if no other has its address and port.

## Main results

* `UdpInv.create`, `UdpInv.close`, `UdpInv.cleanup` — what the calls make of the list and of the
  allocations it holds

## Conventions

A socket is found by its local address and its port, whatever they are, and a creation looks for
them before it allocates. The local address may be a null pointer, and so may the configuration,
which is then the default one. A buffer has as many blocks as it takes for the size in the
configuration; the blocks of a socket and of its buffer are given back together.

The limit on the number of sockets is checked before anything is allocated. `udp_cleanup` closes all
of them, one after the other. The contents of a buffer are kept by its pointer, and a new one holds
what the memory held.
-/

namespace Rexus

open Linked Links Loop

/-! ### The data -/

/-- `udp_config_t`. -/
structure UdpConfig where
  bufferSize : UInt16
  checksum : Bool
  timeout : UInt32

/-- `udp_socket_t`, without its statistics. -/
structure UdpSocket where
  localAddr : Ipv4Addr
  localPort : UInt16
  config : UdpConfig
  recvBuf : ℕ
  recvLen : UInt32
  recvStart : UInt32
  next : ℕ

/-- `udp_state`, the sockets by address, and the contents of the buffers. A buffer is a function of
the offset, and has no end: where a write goes is said, and whether that is inside is proved. -/
structure Udp where
  sockets : ℕ
  socketCount : UInt32
  socket : ℕ → UdpSocket
  buf : ℕ → ℕ → UInt8

/-- The blocks of a `udp_socket_t`. -/
def udpSocketBlocks : ℕ := (88 + 4095) / 4096

theorem udpSocketBlocks_pos : 0 < udpSocketBlocks := by decide

/-- The blocks of the buffer. -/
def UdpConfig.bufBlocks (c : UdpConfig) : ℕ := (c.bufferSize.toNat + 4095) / 4096

namespace Udp

/-- The head and the `next` pointers. -/
def links (s : Udp) : Links ℕ := ⟨s.sockets, fun p => (s.socket p).next⟩

/-- A structure is written. -/
def setSocket (s : Udp) (p : ℕ) (k : UdpSocket) : Udp :=
  { s with socket := Function.update s.socket p k }

/-- `*ptr = v`. -/
def setPlace (s : Udp) : Option ℕ → ℕ → Udp
  | none, v => { s with sockets := v }
  | some p, v => s.setSocket p { s.socket p with next := v }

end Udp

/-! ### The functions -/

/-- Has the socket this address and this port? -/
def UdpSocket.has (k : UdpSocket) (addr : Ipv4Addr) (port : UInt16) : Bool :=
  k.localPort == port && ipv4AddrEquals k.localAddr addr

theorem UdpSocket.has_iff {k : UdpSocket} {addr : Ipv4Addr} {port : UInt16} :
    k.has addr port = true ↔ k.localAddr = addr ∧ k.localPort = port := by
  simp only [UdpSocket.has, ipv4AddrEquals, Bool.and_eq_true, beq_iff_eq, decide_eq_true_iff]
  exact and_comm

/-- The first socket of this address and this port, or null. -/
def Udp.lookup (s : Udp) (addr : Ipv4Addr) (port : UInt16) : Option ℕ :=
  iterate (searchTurn s.links.next fun p => p == 0 || (s.socket p).has addr port) listFuel s.sockets

/-- The default configuration. -/
def udpDefaultConfig : UdpConfig := ⟨8192, true, 0⟩

/-- The structure as `udp_create_socket` fills it in before it allocates the buffer. -/
def newUdpSocket (localAddr : Ipv4Addr) (localPort : UInt16) (config : UdpConfig) : UdpSocket where
  localAddr := localAddr
  localPort := localPort
  config := config
  recvBuf := 0
  recvLen := 0
  recvStart := 0
  next := 0

/-- The allocations of `udp_create_socket`, and the insertion. -/
def udpNewSocket (pmm : Pmm) (s : Udp) (k : UdpSocket) : ℕ × Pmm × Udp :=
  match pmmAllocBlocks pmm udpSocketBlocks with
  | (socket, pmm) =>
    if socket = 0 then (0, pmm, s)
    else
      match pmmAllocBlocks pmm k.config.bufBlocks with
      | (recvBuf, pmm) =>
        let k := { k with recvBuf }
        if recvBuf = 0 then (0, pmmFreeBlocks pmm socket udpSocketBlocks, s.setSocket socket k)
        else
          (socket, pmm, { s.setSocket socket { k with next := s.sockets } with
            sockets := socket
            socketCount := s.socketCount + 1 })

/-- `udp_create_socket`; `none` for an address is a null pointer. -/
def udpCreateSocket (pmm : Pmm) (s : Udp) (localAddr : Option Ipv4Addr) (localPort : UInt16)
    (config : Option UdpConfig) : Option (ℕ × Pmm × Udp) :=
  match localAddr with
  | none => some (0, pmm, s)
  | some localAddr =>
    if 256 ≤ s.socketCount then some (0, pmm, s)
    else
      (s.lookup localAddr localPort).map fun socket =>
        if socket ≠ 0 then (0, pmm, s)
        else udpNewSocket pmm s (newUdpSocket localAddr localPort (config.getD udpDefaultConfig))

/-- The loop of `udp_close_socket` that takes the socket out of the list. -/
def Udp.unlink (s : Udp) (socket : ℕ) : Option Udp :=
  (iterate (placeTurn s.links fun p => p != 0 && p != socket) listFuel none).map fun ptr =>
    if s.links.get ptr = 0 then s
    else { s.setPlace ptr (s.socket socket).next with socketCount := s.socketCount - 1 }

/-- `udp_close_socket`: the socket is taken out of the list and freed with its buffer; `none` if the
walk does not end. -/
def udpCloseSocket (pmm : Pmm) (s : Udp) (socket : ℕ) : Option (Pmm × Udp) :=
  if socket = 0 then some (pmm, s)
  else
    (s.unlink socket).map fun s =>
      let k := s.socket socket
      let pmm := pmmFreeUnlessNull pmm k.recvBuf k.config.bufBlocks
      (pmmFreeBlocks pmm socket udpSocketBlocks, s)

/-- One turn of the loop of `udp_cleanup`. -/
def udpCleanupTurn (w : ℕ × Pmm × Udp) : Option (Turn (ℕ × Pmm × Udp) (Pmm × Udp)) :=
  match w with
  | (socket, pmm, s) =>
    if socket = 0 then some (.done (pmm, s))
    else (udpCloseSocket pmm s socket).map fun t => .next ((s.socket socket).next, t)

/-- `udp_cleanup`: every socket of the list is freed with its buffer; `none` if the walk does not
end. -/
def udpCleanup (pmm : Pmm) (s : Udp) : Option (Pmm × Udp) :=
  iterate udpCleanupTurn listFuel (s.sockets, pmm, s)

/-! ### The list and its allocations -/

namespace Udp

variable (s : Udp) (p : ℕ) (k : UdpSocket) (ptr : Option ℕ) (v : ℕ)

@[simp] theorem setSocket_self : (s.setSocket p k).socket p = k := Function.update_self ..

theorem setSocket_of_ne {q : ℕ} (h : q ≠ p) : (s.setSocket p k).socket q = s.socket q :=
  Function.update_of_ne h ..

@[simp] theorem links_setPlace : (s.setPlace ptr v).links = s.links.set ptr v := by
  cases ptr with
  | none => rfl
  | some p =>
    refine Links.ext rfl (funext fun q => ?_)
    rcases eq_or_ne q p with rfl | hq
    · simp [links, setPlace, Links.set]
    · simp [links, setPlace, Links.set, setSocket_of_ne, hq]

/-- A write through a place leaves everything but a link. -/
theorem socket_setPlace (q : ℕ) :
    ∃ next, (s.setPlace ptr v).socket q = { s.socket q with next } := by
  cases ptr with
  | none => exact ⟨_, rfl⟩
  | some p =>
    rcases eq_or_ne q p with rfl | hq
    · exact ⟨v, setSocket_self ..⟩
    · exact ⟨_, setSocket_of_ne _ _ _ hq⟩

/-- What a socket holds. -/
def allocs : List Allocation :=
  [⟨(s.socket p).recvBuf, (s.socket p).config.bufBlocks⟩, ⟨p, udpSocketBlocks⟩]

theorem allocs_congr {s s' : Udp} {p : ℕ} (h : ∃ next, s'.socket p = { s.socket p with next }) :
    s'.allocs p = s.allocs p := by
  obtain ⟨next, h⟩ := h
  rw [allocs, allocs, h]

end Udp

/-- Only data has changed: the lengths and the contents of the buffers. So the list of the sockets,
what each of them is for, and where its buffer lies are the same. -/
structure Udp.SameObjects (s s' : Udp) : Prop where
  sockets : s'.sockets = s.sockets
  socketCount : s'.socketCount = s.socketCount
  localAddr : ∀ p, (s'.socket p).localAddr = (s.socket p).localAddr
  localPort : ∀ p, (s'.socket p).localPort = (s.socket p).localPort
  config : ∀ p, (s'.socket p).config = (s.socket p).config
  recvBuf : ∀ p, (s'.socket p).recvBuf = (s.socket p).recvBuf
  next : ∀ p, (s'.socket p).next = (s.socket p).next

namespace Udp.SameObjects

variable {s s' s'' : Udp}

theorem refl (s : Udp) : s.SameObjects s :=
  ⟨rfl, rfl, fun _ => rfl, fun _ => rfl, fun _ => rfl, fun _ => rfl, fun _ => rfl⟩

theorem allocs (h : s.SameObjects s') (p : ℕ) : s'.allocs p = s.allocs p := by
  rw [Udp.allocs, Udp.allocs, h.recvBuf, h.config]

end Udp.SameObjects

/-- The sockets are a list, and what they hold is allocated; `rest` is what others hold. -/
structure UdpInv (base : Pmm) (rest : List Allocation) (pmm : Pmm) (s : Udp) (socks : List ℕ) :
    Prop where
  list : CountedList s.links 0 s.socketCount 256 socks
  buffers : ∀ p ∈ socks, (s.socket p).recvBuf ≠ 0 ∧ 0 < (s.socket p).config.bufBlocks
  client : ClientInv base ⟨pmm, socks.flatMap s.allocs ++ rest⟩

namespace UdpInv

variable {base pmm : Pmm} {rest : List Allocation} {s : Udp} {socks us vs : List ℕ} {p : ℕ}

/-- The search finds the first socket of the list. -/
theorem lookup (h : UdpInv base rest pmm s socks) (addr : Ipv4Addr) (port : UInt16) :
    s.lookup addr port = some ((socks.find? fun p => (s.socket p).has addr port).getD 0) :=
  iterate_find_null h.list.lists h.list.null_notMem
    (Nat.lt_of_le_of_lt h.list.length_le (by decide))

/-- The allocations of a new socket: nothing is left of a failed one. -/
theorem newSocket (h : UdpInv base rest pmm s socks) (h0 : pmmTestBlock base 0 = true)
    (hcount : ¬ 256 ≤ s.socketCount) (k : UdpSocket) :
    (∃ pmm' s', udpNewSocket pmm s k = (0, pmm', s') ∧ UdpInv base rest pmm' s' socks ∧
        s'.links.head = s.links.head ∧ s'.socketCount = s.socketCount ∧
        ∀ q ∈ socks, s'.socket q = s.socket q) ∨
      ∃ p pmm' s' recvBuf, udpNewSocket pmm s k = (p, pmm', s') ∧ p ≠ 0 ∧
        UdpInv base rest pmm' s' (p :: socks) ∧
        s'.socket p = { k with recvBuf, next := s.sockets } ∧
        ∀ q ∈ socks, s'.socket q = s.socket q := by
  rw [udpNewSocket]
  rcases hp : pmmAllocBlocks pmm udpSocketBlocks with ⟨socket, pmm₁⟩
  obtain ⟨h₁, -⟩ := h.client.record_allocBlocks h0 hp
  rcases eq_or_ne socket 0 with rfl | hsocket
  · rw [PmmClient.record, if_pos rfl] at h₁
    exact Or.inl ⟨pmm₁, s, rfl, ⟨h.list, h.buffers, h₁⟩, rfl, rfl, fun _ _ => rfl⟩
  rw [PmmClient.record, if_neg hsocket] at h₁
  have hnew : socket ∉ socks := fun hmem => by
    refine @ClientInv.addr_ne _ _ _ _ ⟨socket, udpSocketBlocks⟩ h₁ ?_ udpSocketBlocks_pos
      udpSocketBlocks_pos rfl
    refine List.mem_append_left rest (List.mem_flatMap.mpr ⟨socket, hmem, ?_⟩)
    exact List.mem_cons_of_mem _ List.mem_cons_self
  have hold : ∀ (k : UdpSocket), ∀ q ∈ socks, (s.setSocket socket k).socket q = s.socket q :=
    fun k q hq => s.setSocket_of_ne socket k fun heq => hnew (heq ▸ hq)
  have hallocs : ∀ k : UdpSocket,
      socks.flatMap (s.setSocket socket k).allocs = socks.flatMap s.allocs :=
    fun k => List.flatMap_congr fun q hq => Udp.allocs_congr ⟨_, hold k q hq⟩
  rcases hrecv : pmmAllocBlocks pmm₁ k.config.bufBlocks with ⟨recvBuf, pmm₂⟩
  obtain ⟨h₂, hsize⟩ := h₁.record_allocBlocks h0 hrecv
  simp only [if_neg hsocket, hrecv]
  split_ifs with hrecv0
  · rw [PmmClient.record, if_pos hrecv0] at h₂
    refine Or.inl ⟨_, _, rfl, ⟨?_, fun q hq => ?_, ?_⟩, rfl, rfl, hold _⟩
    · exact h.list.congr rfl fun q hq => congrArg UdpSocket.next (hold _ q hq)
    · rw [hold _ q hq]
      exact h.buffers q hq
    · rw [hallocs]
      exact h₂.freeBlocks_cons
  · rw [PmmClient.record, if_neg hrecv0] at h₂
    refine Or.inr ⟨socket, _, _, recvBuf, rfl, hsocket, ⟨?_, fun q hq => ?_, ?_⟩,
      Udp.setSocket_self .., hold _⟩
    · refine h.list.push (by decide) ?_ hsocket hnew rfl
        (congrArg UdpSocket.next (Udp.setSocket_self ..))
        fun q hq => congrArg UdpSocket.next (hold _ q hq)
      rwa [UInt32.le_iff_toNat_le] at hcount
    · show (Udp.socket (s.setSocket socket _) q).recvBuf ≠ 0 ∧
        0 < (Udp.socket (s.setSocket socket _) q).config.bufBlocks
      rcases List.mem_cons.mp hq with rfl | hq
      · rw [Udp.setSocket_self]
        exact ⟨hrecv0, hsize hrecv0⟩
      · rw [hold _ q hq]
        exact h.buffers q hq
    · show ClientInv base ⟨pmm₂, (socket :: socks).flatMap (s.setSocket socket _).allocs ++ rest⟩
      rw [List.flatMap_cons, hallocs, Udp.allocs, Udp.setSocket_self]
      exact h₂

/-- Creating a socket: a null pointer, and nothing has changed, or a new socket at the head of the
list, whose address and port no other has. -/
theorem create (h : UdpInv base rest pmm s socks) (h0 : pmmTestBlock base 0 = true)
    (localAddr : Option Ipv4Addr) (localPort : UInt16) (config : Option UdpConfig) :
    (∃ pmm' s', udpCreateSocket pmm s localAddr localPort config = some (0, pmm', s') ∧
        UdpInv base rest pmm' s' socks ∧ s'.links.head = s.links.head ∧
        s'.socketCount = s.socketCount ∧ ∀ q ∈ socks, s'.socket q = s.socket q) ∨
      ∃ p pmm' s' a recvBuf, localAddr = some a ∧
        udpCreateSocket pmm s localAddr localPort config = some (p, pmm', s') ∧ p ≠ 0 ∧
        UdpInv base rest pmm' s' (p :: socks) ∧
        s'.socket p = { newUdpSocket a localPort (config.getD udpDefaultConfig) with
          recvBuf, next := s.sockets } ∧
        (∀ q ∈ socks, (s.socket q).has a localPort = false) ∧
        ∀ q ∈ socks, s'.socket q = s.socket q := by
  have hsame : ∃ pmm' s', some (0, pmm, s) = some (0, pmm', s') ∧ UdpInv base rest pmm' s' socks ∧
      s'.links.head = s.links.head ∧ s'.socketCount = s.socketCount ∧
      ∀ q ∈ socks, s'.socket q = s.socket q := ⟨pmm, s, rfl, h, rfl, rfl, fun _ _ => rfl⟩
  cases localAddr with
  | none => exact Or.inl hsame
  | some a =>
    simp only [udpCreateSocket, h.lookup, Option.map_some]
    split_ifs with hcount hused
    · exact Or.inl hsame
    · exact Or.inl hsame
    have hnone : ∀ q ∈ socks, (s.socket q).has a localPort = false := by
      intro q hq
      cases hfind : socks.find? fun p => (s.socket p).has a localPort with
      | none => simpa using List.find?_eq_none.mp hfind q hq
      | some p =>
        rw [hfind, not_not] at hused
        have hp : p = 0 := hused
        exact absurd (hp ▸ List.mem_of_find?_eq_some hfind) h.list.null_notMem
    rcases h.newSocket h0 hcount (newUdpSocket a localPort (config.getD udpDefaultConfig)) with
      ⟨pmm', s', hnew, hrest⟩ | ⟨p, pmm', s', recvBuf, hnew, hp0, hinv, hp, hold⟩
    · exact Or.inl ⟨pmm', s', congrArg some hnew, hrest⟩
    · exact Or.inr ⟨p, pmm', s', a, recvBuf, rfl, congrArg some hnew, hp0, hinv, hp, hnone, hold⟩

/-- Closing a socket of the list: what it held is given back. -/
theorem close (h : UdpInv base rest pmm s (us ++ p :: vs)) :
    ∃ pmm' s', udpCloseSocket pmm s p = some (pmm', s') ∧
      UdpInv base rest pmm' s' (us ++ vs) ∧
      ∀ q, ∃ next, s'.socket q = { s.socket q with next } := by
  have hmem : p ∈ us ++ p :: vs := List.mem_append_right us List.mem_cons_self
  have hp0 : p ≠ 0 := fun hp0 => h.list.null_notMem (hp0 ▸ hmem)
  have hsocket := s.socket_setPlace us.getLast? (s.socket p).next
  obtain ⟨hplace, hget⟩ := h.list.iterate_place (by decide : 256 < listFuel)
  obtain ⟨hrecv, -⟩ := h.buffers p hmem
  obtain ⟨next, hp⟩ := hsocket p
  rw [udpCloseSocket, if_neg hp0, Udp.unlink, hplace, Option.map_some, hget, if_neg hp0,
    Option.map_some]
  refine ⟨_, _, rfl, ⟨?_, fun q hq => ?_, ?_⟩, hsocket⟩
  · have hremove := h.list.remove
    rwa [show s.links.next p = (s.socket p).next from rfl, ← Udp.links_setPlace] at hremove
  · obtain ⟨next, hq'⟩ := hsocket q
    show (Udp.socket (s.setPlace _ _) q).recvBuf ≠ 0 ∧
      0 < (Udp.socket (s.setPlace _ _) q).config.bufBlocks
    rw [hq']
    exact h.buffers q (List.perm_middle.mem_iff.mpr (List.mem_cons_of_mem p hq))
  · have hlive := h.client.owner_first
    have hallocs : ∀ q, (s.setPlace us.getLast? (s.socket p).next).allocs q = s.allocs q :=
      fun q => Udp.allocs_congr (hsocket q)
    show ClientInv base ⟨_, (us ++ vs).flatMap (s.setPlace _ _).allocs ++ rest⟩
    rw [List.flatMap_congr fun q _ => hallocs q]
    simp only [hp, pmmFreeUnlessNull, if_neg hrecv]
    exact hlive.freeBlocks_cons.freeBlocks_cons

/-- All sockets are closed, one after the other. -/
theorem cleanup (h : UdpInv base rest pmm s socks) :
    ∃ pmm' s', udpCleanup pmm s = some (pmm', s') ∧ UdpInv base rest pmm' s' [] := by
  have hloop : ∀ socks pmm s n, UdpInv base rest pmm s socks → socks.length < n →
      ∃ pmm' s', iterate udpCleanupTurn n (s.sockets, pmm, s) = some (pmm', s') ∧
        UdpInv base rest pmm' s' [] := by
    intro socks
    induction socks with
    | nil =>
      intro pmm s n h hn
      obtain ⟨n, rfl⟩ := Nat.exists_eq_add_of_lt hn
      have hhead : s.sockets = 0 := h.list.head_eq
      exact ⟨pmm, s, iterate_done (by rw [udpCleanupTurn, if_pos hhead]), h⟩
    | cons p socks ih =>
      intro pmm s n h hn
      obtain ⟨n, rfl⟩ : ∃ k, n = k + 1 := ⟨n - 1, by rw [List.length_cons] at hn; omega⟩
      have hhead : s.sockets = p := h.list.head_eq
      have hp0 : p ≠ 0 := fun hp0 => h.list.null_notMem (hp0 ▸ List.mem_cons_self)
      have hnext : (s.socket p).next = socks.headD 0 :=
        Seg.next_eq (show Seg _ _ ([] ++ p :: socks) _ from h.list.lists)
      obtain ⟨pmm', s', hclose, h', -⟩ :=
        close (show UdpInv base rest pmm s ([] ++ p :: socks) from h)
      have hhead' : s'.sockets = socks.headD 0 := h'.list.head_eq
      have hturn : udpCleanupTurn (s.sockets, pmm, s) =
          some (.next (s'.sockets, pmm', s')) := by
        simp only [udpCleanupTurn, hhead, if_neg hp0, hclose, hnext, hhead', Option.map_some]
      rw [iterate_next hturn]
      exact ih pmm' s' n h' (by rw [List.length_cons] at hn; omega)
  exact hloop socks pmm s listFuel h (Nat.lt_of_le_of_lt h.list.length_le (by decide))

/-- The buffer of a socket is no other's. -/
theorem recvBuf_ne (h : UdpInv base rest pmm s socks) (hp : p ∈ socks) {q : ℕ} (hq : q ∈ socks)
    (hqp : q ≠ p) : (s.socket q).recvBuf ≠ (s.socket p).recvBuf := by
  obtain ⟨us, vs, rfl⟩ := List.append_of_mem hp
  have hq' : q ∈ us ++ vs :=
    (List.mem_cons.mp (List.perm_middle.mem_iff.mp hq)).resolve_left hqp
  have hmem : (⟨(s.socket q).recvBuf, (s.socket q).config.bufBlocks⟩ : Allocation) ∈
      (us ++ vs).flatMap s.allocs ++ rest :=
    List.mem_append_left _ (List.mem_flatMap.mpr ⟨q, hq', List.mem_cons_self⟩)
  exact h.client.owner_first.addr_ne (List.mem_cons_of_mem _ hmem) (h.buffers p hp).2
    (h.buffers q hq).2

/-- The data is no part of the invariant. -/
theorem congr (h : UdpInv base rest pmm s socks) {s' : Udp} (hs : s.SameObjects s') :
    UdpInv base rest pmm s' socks where
  list := by
    rw [hs.socketCount]
    exact h.list.congr hs.sockets fun q _ => hs.next q
  buffers q hq := by
    rw [hs.recvBuf, hs.config]
    exact h.buffers q hq
  client := by
    rw [List.flatMap_congr fun q _ => hs.allocs q]
    exact h.client

end UdpInv

end Rexus
