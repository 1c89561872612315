import Rexus.Net.UdpSend

/-!
# The memory of packets

A packet is two allocations. `udp_send` makes one for each datagram, and a driver one for each frame
that has arrived; `net_process_rx_queue` gives the packets of the drivers to the handlers of their
protocols, and gives back itself only those without a handler. Neither `udp_send` nor
`udp_receive_packet` gives a packet back.

## Main results

* `ClientInv.netAlloc`, `ClientInv.netFree` — a packet as two allocations
* `sends_keepsLive` — sending gives back nothing but fragments it has made itself
* `packet_memory_run` — which runs lose no memory

## Conventions

To lose memory is said of the bitmap: what is in use is what was in use at the start and what the
packets hold that the drivers have not handed over yet. So a packet that is leaked shows in the
bitmap as soon as it is leaked, and a run is followed call by call, each with the condition under
which it leaks nothing. The sockets are there from the start, and what they hold is part of the
base.

Of the drivers it is assumed that they copy what they send. What they do when they are polled is an
argument: the frames they take, and whether they hand over a packet. The only protocol with a
handler is UDP; packets of the others are freed by `net_process_rx_queue`, as it does for those it
does not know.
-/

namespace Rexus

open Run

/-! ### A packet as two allocations -/

/-- What a packet holds. -/
def packetAllocs (packet : NetPacket) : List Allocation :=
  [⟨packet.addr, 1⟩, ⟨packet.data, (packet.length + 4095) / 4096⟩]

namespace ClientInv

variable {base pmm : Pmm} {live : List Allocation}

/-- A block that is freed, first in the list. -/
theorem freeBlock_cons {p : ℕ} (h : ClientInv base ⟨pmm, ⟨p, 1⟩ :: live⟩) :
    ClientInv base ⟨pmmFreeBlock pmm p, live⟩ := by
  have hfree := h.freeBlock List.mem_cons_self
  rwa [show (PmmClient.live ⟨pmm, ⟨p, 1⟩ :: live⟩).erase ⟨p, 1⟩ = live from
    List.erase_cons_head ..] at hfree

/-- Allocating a packet: none, and the memory is as it was, or two more allocations. -/
theorem netAlloc (h : ClientInv base ⟨pmm, live⟩) (h0 : pmmTestBlock base 0 = true)
    (junk : NetPacket) (size : ℕ) :
    (∃ pmm', netAllocPacket pmm junk size = (none, pmm') ∧ ClientInv base ⟨pmm', live⟩) ∨
      ∃ packet pmm', netAllocPacket pmm junk size = (some packet, pmm') ∧ packet.length = size ∧
        packet.data ≠ 0 ∧ 0 < (size + 4095) / 4096 ∧
        ClientInv base ⟨pmm', packetAllocs packet ++ live⟩ := by
  rw [netAllocPacket]
  split_ifs with hsize
  · exact Or.inl ⟨pmm, rfl, h⟩
  rcases h.allocBlock h0 with hblock | ⟨addr, pmm₁, hblock, haddr, h₁⟩
  · rw [hblock]
    exact Or.inl ⟨pmm, rfl, h⟩
  · rcases h₁.allocBlocks h0 ((size + 4095) / 4096) with hblocks |
      ⟨data, pmm₂, hblocks, hdata, hn, h₂⟩
    · refine Or.inl ⟨pmmFreeBlock pmm₁ addr, ?_, h₁.freeBlock_cons⟩
      simp only [hblock, hblocks, if_neg haddr, if_pos]
    · refine Or.inr ⟨{ junk with addr, data, length := size, protocol := .none, priority := 0 },
        pmm₂, ?_, rfl, hdata, hn, h₂.perm (List.Perm.swap _ _ _)⟩
      simp only [hblock, hblocks, if_neg haddr, if_neg hdata]

/-- Giving a packet back. -/
theorem netFree {packet : NetPacket} (h : ClientInv base ⟨pmm, packetAllocs packet ++ live⟩)
    (hdata : packet.data ≠ 0) : ClientInv base ⟨netFreePacket pmm packet, live⟩ := by
  rw [netFreePacket, if_neg hdata]
  exact (h.perm (List.Perm.swap _ _ _)).freeBlocks_cons.freeBlock_cons

end ClientInv

/-! ### Sending -/

/-- The send functions of the interfaces copy a frame; they leave the memory alone. -/
def Copies (driver : Driver) : Prop := ∀ pmm sent, (driver pmm sent).2 = pmm

/-- What was live is live, and there may be more. -/
def KeepsLive (base : Pmm) (t t' : Transmit) : Prop :=
  ∀ live, ClientInv base ⟨t.table.pmm, live⟩ →
    ∃ lost, (∀ a ∈ lost, 0 < a.size) ∧ ClientInv base ⟨t'.table.pmm, lost ++ live⟩

section

variable {driver : Driver} {base : Pmm}

theorem KeepsLive.of_pmm {t t' : Transmit} (h : t'.table.pmm = t.table.pmm) :
    KeepsLive base t t' := fun live hlive => ⟨[], by simp, h ▸ hlive⟩

theorem netSendPacket_pmm (hcopies : Copies driver) (t : Transmit) (p : ℕ) (packet : NetPacket) :
    (netSendPacket driver t p packet).2.table.pmm = t.table.pmm := by
  rw [netSendPacket]
  dsimp only
  by_cases hcan : p = 0 ∨ (t.net.iface p).hasSend = false
  · rw [if_pos hcan]
  · rw [if_neg hcan]
    exact hcopies _ _

theorem packetAllocs_size {packet : NetPacket} (h : 0 < (packet.length + 4095) / 4096) :
    ∀ a ∈ packetAllocs packet, 0 < a.size := by
  intro a ha
  rcases List.mem_cons.mp ha with rfl | ha
  · exact Nat.one_pos
  · rcases List.mem_singleton.mp ha with rfl
    exact h

/-- A turn of the fragmenter keeps its fragment if it is sent, and gives it back otherwise. -/
theorem fragmentTurn_keepsLive (h0 : pmmTestBlock base 0 = true) (hcopies : Copies driver)
    (junk : ℕ → NetPacket) (packet : NetPacket) (dataLen maxData : UInt16) (count i : ℕ)
    (w : Transmit × UInt16) :
    Loop.Post (fun w' => KeepsLive base w.1 w'.1) (fun t' => KeepsLive base w.1 t')
      (fragmentTurn driver junk packet dataLen maxData count i w) := by
  have halloc : ∀ live, ClientInv base ⟨w.1.table.pmm, live⟩ → _ := fun live hlive =>
    hlive.netAlloc h0 (junk i) (20 + (if i = count - 1 then dataLen - w.2 else maxData).toNat)
  rw [fragmentTurn]
  dsimp only
  rcases hmk : netAllocPacket w.1.table.pmm (junk i)
    (20 + (if i = count - 1 then dataLen - w.2 else maxData).toNat) with ⟨_ | frag, pmm⟩
  · intro live hlive
    rcases halloc live hlive with ⟨pmm', hnone, h⟩ | ⟨_, _, hsome, -⟩
    · rw [hmk, Prod.mk.injEq] at hnone
      exact ⟨[], by simp, hnone.2 ▸ h⟩
    · rw [hmk, Prod.mk.injEq] at hsome
      cases hsome.1
  · dsimp only
    let frag' : NetPacket :=
      { frag with
        bytes := fragmentBytes frag.bytes packet.bytes w.2
          (if i = count - 1 then dataLen - w.2 else maxData) (decide (i < count - 1)) }
    have hpmm := netSendPacket_pmm hcopies (w.1.setPmm pmm) packet.iface frag'
    have hfrag : ∀ live, ClientInv base ⟨w.1.table.pmm, live⟩ → frag'.data ≠ 0 ∧
        (∀ a ∈ packetAllocs frag', 0 < a.size) ∧
        ClientInv base ⟨pmm, packetAllocs frag' ++ live⟩ := by
      intro live hlive
      rcases halloc live hlive with ⟨_, hnone, -⟩ | ⟨_, _, hsome, hlen, hdata, hpos, h⟩
      · rw [hmk, Prod.mk.injEq] at hnone
        cases hnone.1
      · rw [hmk, Prod.mk.injEq, Option.some_inj] at hsome
        obtain ⟨rfl, rfl⟩ := hsome
        rw [← hlen] at hpos
        exact ⟨hdata, packetAllocs_size hpos, h⟩
    split
    · next t' hs =>
      rw [show netSendPacket driver (w.1.setPmm pmm) packet.iface frag' = _ from hs] at hpmm
      intro live hlive
      obtain ⟨-, hsize, h⟩ := hfrag live hlive
      exact ⟨packetAllocs frag', hsize, hpmm ▸ h⟩
    · next t' hs =>
      rw [show netSendPacket driver (w.1.setPmm pmm) packet.iface frag' = _ from hs] at hpmm
      intro live hlive
      obtain ⟨hdata, -, h⟩ := hfrag live hlive
      refine ⟨[], by simp, ?_⟩
      show ClientInv base ⟨netFreePacket t'.table.pmm frag', live⟩
      rw [show t'.table.pmm = pmm from hpmm]
      exact h.netFree hdata

/-- Sending gives nothing back that it has not allocated. -/
theorem sends_keepsLive (h0 : pmmTestBlock base 0 = true) (hcopies : Copies driver) :
    Sends driver (KeepsLive base) where
  refl t := .of_pmm rfl
  trans t u v h h' live hlive := by
    obtain ⟨lost, hlost, hu⟩ := h live hlive
    obtain ⟨lost', hlost', hv⟩ := h' _ hu
    refine ⟨lost' ++ lost, fun a ha => (List.mem_append.mp ha).elim (hlost' a) (hlost a), ?_⟩
    rwa [List.append_assoc]
  ipId t ipId := .of_pmm rfl
  packet t p packet := .of_pmm (netSendPacket_pmm hcopies t p packet)
  turn := fragmentTurn_keepsLive h0 hcopies

end

/-! ### Receiving -/

/-- The stack, the sockets, and the packets that drivers have allocated and not handed over, each
with its interface. -/
structure Traffic where
  stack : Transmit
  udp : Udp
  pending : List (ℕ × NetPacket)

/-- What the driver of an interface does when it is polled: it takes frames, and may hand over a
packet. -/
structure RxTurn where
  frames : List NetPacket
  ready : Bool

/-- The first packet of an interface, and the rest. -/
def takeFirst (p : ℕ) : List (ℕ × NetPacket) → Option (NetPacket × List (ℕ × NetPacket))
  | [] => none
  | x :: xs =>
    if x.1 = p then some (x.2, xs) else (takeFirst p xs).map fun (packet, ys) => (packet, x :: ys)

/-- A call of `udp_send`, a frame that a driver takes between the calls, or a call of
`net_process_rx_queue`. -/
inductive TrafficOp where
  | send (socket : ℕ) (destAddr : Option Ipv4Addr) (destPort : UInt16) (data : Option (ℕ → UInt8))
      (length : ℕ) (junk : ℕ → NetPacket) (junkPacket : NetPacket)
  | arrive (p : ℕ) (frame : NetPacket)
  | processRx (turns : ℕ → RxTurn)

namespace Traffic

/-- The allocator is another. -/
def setPmm (w : Traffic) (pmm : Pmm) : Traffic := { w with stack := w.stack.setPmm pmm }

/-- The driver of an interface allocates a packet for a frame, and fills it in. -/
def arrive (w : Traffic) (p : ℕ) (frame : NetPacket) : Traffic :=
  match netAllocPacket w.stack.table.pmm frame frame.length with
  | (none, pmm) => w.setPmm pmm
  | (some packet, pmm) =>
    { w.setPmm pmm with
      pending := w.pending ++ [(p, { frame with addr := packet.addr, data := packet.data })] }

/-- `net_receive_packet`: the driver takes the frames that come meanwhile, and if it is ready, hands
over the first packet it has for the interface, which is the caller's from then on. -/
def netReceivePacket (w : Traffic) (p : ℕ) (turn : RxTurn) : Option NetPacket × Traffic :=
  if p = 0 ∨ (w.stack.net.iface p).hasReceive = false then (none, w)
  else
    let w := turn.frames.foldl (fun w frame => w.arrive p frame) w
    if turn.ready then
      match takeFirst p w.pending with
      | none => (none, w)
      | some (packet, pending) => (some packet, { w with pending })
    else (none, w)

/-- What becomes of a packet when `udp_receive_packet` is the only handler. -/
def handle (w : Traffic) (p : ℕ) (packet : NetPacket) : Option Traffic :=
  match packet.protocol with
  | .udp => (udpReceivePacket w.udp p packet).map fun t => { w with udp := t.udp }
  | _ => some (w.setPmm (netFreePacket w.stack.table.pmm packet))

/-- One turn of the loop of `net_process_rx_queue`. -/
def poll (turns : ℕ → RxTurn) (w : Traffic) (p : ℕ) : Option Traffic :=
  match w.netReceivePacket p (turns p) with
  | (none, w) => some w
  | (some packet, w) => w.handle p packet

/-- The turns over a list of interfaces. -/
def pollAll (turns : ℕ → RxTurn) : List ℕ → Traffic → Option Traffic
  | [], w => some w
  | p :: ps, w => (w.poll turns p).bind (pollAll turns ps)

/-- One call. The loop of `net_process_rx_queue` goes over the interfaces in their order, which no
turn changes. -/
def step (driver : Driver) (w : Traffic) : TrafficOp → Option Traffic
  | .send socket destAddr destPort data length junk junkPacket =>
    (udpSend driver junk junkPacket w.stack w.udp socket destAddr destPort data length).map
      fun (_, stack) => { w with stack }
  | .arrive p frame => some (w.arrive p frame)
  | .processRx turns => (netProcessRxQueue w.stack.net).bind fun ps => pollAll turns ps w

/-- The driver of the interface hands over a UDP packet. -/
def HandsUdp (w : Traffic) (turns : ℕ → RxTurn) (p : ℕ) : Prop :=
  ∃ packet w', w.netReceivePacket p (turns p) = (some packet, w') ∧ packet.protocol = .udp

/-- No driver hands over a UDP packet. -/
def NoUdp (turns : ℕ → RxTurn) : List ℕ → Traffic → Prop
  | [], _ => True
  | p :: ps, w => ¬ w.HandsUdp turns p ∧ ∀ w', w.poll turns p = some w' → NoUdp turns ps w'

/-- A call that loses no memory: `udp_send` refuses its arguments, or there is no packet for the
datagram, and no UDP packet is received. -/
def Keeps (w : Traffic) : TrafficOp → Prop
  | .send socket destAddr _ data length _ junkPacket =>
    destAddr = none ∨ data = none ∨ socket = 0 ∨ length = 0 ∨ 65535 - 8 < length ∨
      (netAllocPacket w.stack.table.pmm junkPacket (8 + length)).1 = none
  | .arrive .. => True
  | .processRx turns => ∀ ps, netProcessRxQueue w.stack.net = some ps → NoUdp turns ps w

/-- The step relation of a run: a send that returns, a frame for which a driver makes a packet, or a
walk over the interfaces that ends. -/
def Step (driver : Driver) (w : Traffic) (op : TrafficOp) (w' : Traffic) : Prop :=
  w.step driver op = some w'

/-- The step relation of a run whose calls lose no memory. -/
def KeepsStep (driver : Driver) (w : Traffic) (op : TrafficOp) (w' : Traffic) : Prop :=
  w.Step driver op w' ∧ w.Keeps op

/-- What the packets of the drivers hold. -/
def pendingAllocs (w : Traffic) : List Allocation := w.pending.flatMap fun x => packetAllocs x.2

end Traffic

/-- The bitmap is that of `base` but for the packets of the drivers. -/
def MemoryKept (base : Pmm) (w : Traffic) : Prop :=
  ∀ b, b ∈ w.stack.table.pmm.usedSet ↔
    b ∈ base.usedSet ∨ ∃ a ∈ w.pendingAllocs, b ∈ a.blocks

/-! ### What is lost -/

/-- There is a packet. -/
def HasData (packet : NetPacket) : Prop := packet.data ≠ 0 ∧ 0 < (packet.length + 4095) / 4096

/-- The invariant: besides the packets of the drivers there may be allocations that nobody will give
back. -/
structure TrafficInv (base : Pmm) (lost : List Allocation) (w : Traffic) : Prop where
  client : ClientInv base ⟨w.stack.table.pmm, w.pendingAllocs ++ lost⟩
  data : ∀ x ∈ w.pending, HasData x.2
  size : ∀ a ∈ lost, 0 < a.size

theorem takeFirst_perm {p : ℕ} {l ys : List (ℕ × NetPacket)} {packet : NetPacket}
    (h : takeFirst p l = some (packet, ys)) : l.Perm ((p, packet) :: ys) := by
  induction l generalizing ys with
  | nil => cases h
  | cons x xs ih =>
    rw [takeFirst] at h
    split_ifs at h with hx
    · obtain ⟨rfl, rfl⟩ := Prod.mk.inj (Option.some_inj.mp h)
      rw [← hx]
    · obtain ⟨⟨packet', zs⟩, hzs, heq⟩ := Option.map_eq_some_iff.mp h
      obtain ⟨rfl, rfl⟩ := Prod.mk.inj heq
      exact ((ih hzs).cons x).trans (List.Perm.swap _ _ _)

namespace TrafficInv

variable {driver : Driver} {base : Pmm} {lost : List Allocation} {w w' : Traffic} {p : ℕ}
  {turns : ℕ → RxTurn}

/-- Nothing is lost, or the bitmap is another. -/
theorem kept_iff (h : TrafficInv base lost w) : MemoryKept base w ↔ lost = [] := by
  constructor
  · intro hkept
    refine List.eq_nil_iff_forall_not_mem.mpr fun a ha => ?_
    have hmem : a ∈ w.pendingAllocs ++ lost := List.mem_append_right _ ha
    have hblock : a.addr / 4096 ∈ a.blocks :=
      Finset.mem_Ico.mpr ⟨Nat.le_refl _, Nat.lt_add_of_pos_right (h.size a ha)⟩
    rcases (hkept _).mp (h.client.blocks_subset hmem hblock) with hb | ⟨a', ha', hb⟩
    · exact Finset.disjoint_left.mp (h.client.fresh a hmem) hb hblock
    · have hdis := (List.pairwise_append.mp h.client.disjoint).2.2 a' ha' a ha
      exact Finset.disjoint_left.mp hdis hb hblock
  · rintro rfl b
    have hused := h.client.mem_usedSet b
    rwa [List.append_nil] at hused

/-- A driver takes a frame. -/
theorem arrive (h : TrafficInv base lost w) (h0 : pmmTestBlock base 0 = true) (p : ℕ)
    (frame : NetPacket) : TrafficInv base lost (w.arrive p frame) := by
  rw [Traffic.arrive]
  rcases h.client.netAlloc h0 frame frame.length with
    ⟨pmm', hnone, hclient⟩ | ⟨packet, pmm', hsome, hlen, hdata, hpos, hclient⟩
  · rw [hnone]
    exact ⟨hclient, h.data, h.size⟩
  · rw [hsome]
    refine ⟨?_, ?_, h.size⟩
    · have hallocs : packetAllocs packet =
          packetAllocs { frame with addr := packet.addr, data := packet.data } := by
        rw [packetAllocs, packetAllocs, hlen]
      show ClientInv base ⟨pmm', (w.pending ++ [_]).flatMap _ ++ lost⟩
      rw [List.flatMap_append, List.flatMap_singleton, List.append_assoc, ← hallocs]
      exact hclient.perm (List.perm_append_comm_assoc _ _ _)
    · intro x hx
      rcases List.mem_append.mp hx with hx | hx
      · exact h.data x hx
      · rw [List.mem_singleton.mp hx]
        exact ⟨hdata, hpos⟩

theorem frames (h : TrafficInv base lost w) (h0 : pmmTestBlock base 0 = true) (p : ℕ)
    (frames : List NetPacket) :
    TrafficInv base lost (frames.foldl (fun w frame => w.arrive p frame) w) := by
  induction frames generalizing w with
  | nil => exact h
  | cons frame frames ih => exact ih (h.arrive h0 p frame)

/-- A poll of a driver: the packet it hands over is no longer among those of the drivers. -/
theorem netReceivePacket (h : TrafficInv base lost w) (h0 : pmmTestBlock base 0 = true) (p : ℕ)
    (turn : RxTurn) :
    (∃ w', w.netReceivePacket p turn = (none, w') ∧ TrafficInv base lost w') ∨
      ∃ packet w', w.netReceivePacket p turn = (some packet, w') ∧ HasData packet ∧
        (∀ x ∈ w'.pending, HasData x.2) ∧
        ClientInv base
          ⟨w'.stack.table.pmm, packetAllocs packet ++ (w'.pendingAllocs ++ lost)⟩ := by
  rw [Traffic.netReceivePacket]
  have hframes := h.frames h0 p turn.frames
  split_ifs with hcan hready
  · exact Or.inl ⟨w, rfl, h⟩
  · dsimp only
    cases htake : takeFirst p (turn.frames.foldl (fun w frame => w.arrive p frame) w).pending with
    | none => exact Or.inl ⟨_, rfl, hframes⟩
    | some taken =>
      obtain ⟨packet, pending⟩ := taken
      have hperm := takeFirst_perm htake
      have hdata := fun x hx => hframes.data x (hperm.mem_iff.mpr hx)
      refine Or.inr ⟨packet, _, rfl, hdata _ List.mem_cons_self, ?_, ?_⟩
      · exact fun x hx => hdata x (List.mem_cons_of_mem _ hx)
      · rw [← List.append_assoc]
        exact hframes.client.perm ((hperm.flatMap_right _).append_right lost)
  · exact Or.inl ⟨_, rfl, hframes⟩

/-- **A turn of the loop** loses a packet exactly if it is a UDP packet. -/
theorem poll (h : TrafficInv base lost w) (h0 : pmmTestBlock base 0 = true)
    (hpoll : w.poll turns p = some w') :
    ∃ lost', TrafficInv base lost' w' ∧ (lost' = [] ↔ lost = [] ∧ ¬ w.HandsUdp turns p) := by
  rw [Traffic.poll] at hpoll
  rcases h.netReceivePacket h0 p (turns p) with ⟨u, hnone, hu⟩ |
    ⟨packet, u, hsome, hdata, hpending, hu⟩
  · rw [hnone] at hpoll
    obtain rfl := Option.some_inj.mp hpoll
    refine ⟨lost, hu, (and_iff_left ?_).symm⟩
    rintro ⟨packet, u, hsome, -⟩
    rw [hnone] at hsome
    cases hsome
  · rw [hsome] at hpoll
    have hudp : w.HandsUdp turns p ↔ packet.protocol = .udp := by
      constructor
      · rintro ⟨packet', u', hsome', hproto⟩
        rw [hsome] at hsome'
        obtain ⟨hpacket, -⟩ := Prod.mk.inj hsome'
        rwa [Option.some_inj.mp hpacket]
      · exact fun hproto => ⟨packet, u, hsome, hproto⟩
    rw [hudp]
    dsimp only at hpoll
    rw [Traffic.handle] at hpoll
    split at hpoll
    · next hproto =>
      -- the handler keeps nothing of the packet, and does not give it back
      obtain ⟨t, -, rfl⟩ := Option.map_eq_some_iff.mp hpoll
      refine ⟨packetAllocs packet ++ lost, ⟨?_, hpending, ?_⟩, ?_⟩
      · exact hu.perm (List.perm_append_comm_assoc _ _ _)
      · exact fun a ha => (List.mem_append.mp ha).elim (packetAllocs_size hdata.2 a) (h.size a)
      · exact iff_of_false (fun hnil => nomatch hnil) fun hand => hand.2 hproto
    · next hproto =>
      obtain rfl := Option.some_inj.mp hpoll
      exact ⟨lost, ⟨hu.netFree hdata.1, hpending, h.size⟩,
        (and_iff_left fun hudp => hproto hudp).symm⟩

theorem pollAll (h : TrafficInv base lost w) (h0 : pmmTestBlock base 0 = true) {ps : List ℕ}
    (hpoll : Traffic.pollAll turns ps w = some w') :
    ∃ lost', TrafficInv base lost' w' ∧ (lost' = [] ↔ lost = [] ∧ Traffic.NoUdp turns ps w) := by
  induction ps generalizing w lost with
  | nil =>
    obtain rfl := Option.some_inj.mp hpoll
    exact ⟨lost, h, (and_iff_left trivial).symm⟩
  | cons p ps ih =>
    obtain ⟨u, hu, hrest⟩ := Option.bind_eq_some_iff.mp hpoll
    obtain ⟨lost₁, h₁, hiff₁⟩ := h.poll h0 hu
    obtain ⟨lost₂, h₂, hiff₂⟩ := ih h₁ hrest
    refine ⟨lost₂, h₂, ?_⟩
    rw [hiff₂, hiff₁, and_assoc]
    refine and_congr_right fun _ => and_congr_right fun _ =>
      ⟨fun hno v hv => ?_, fun hno => hno u hu⟩
    rwa [← Option.some_inj.mp (hu.symm.trans hv)]

/-- **A call of `udp_send`** loses the packet exactly if it makes one. -/
theorem send (h : TrafficInv base lost w) (h0 : pmmTestBlock base 0 = true)
    (hcopies : Copies driver) {socket : ℕ} {destAddr : Option Ipv4Addr} {destPort : UInt16}
    {data : Option (ℕ → UInt8)} {length : ℕ} {junk : ℕ → NetPacket} {junkPacket : NetPacket}
    (hstep : w.step driver (.send socket destAddr destPort data length junk junkPacket) = some w') :
    ∃ lost', TrafficInv base lost' w' ∧ (lost' = [] ↔
      lost = [] ∧ w.Keeps (.send socket destAddr destPort data length junk junkPacket)) := by
  have hsame : ∀ {P : Prop}, P → ∃ lost', TrafficInv base lost' w ∧ (lost' = [] ↔ lost = [] ∧ P) :=
    fun hP => ⟨lost, h, (and_iff_left hP).symm⟩
  obtain ⟨⟨answer, t⟩, hsend, rfl⟩ := Option.map_eq_some_iff.mp hstep
  cases destAddr with
  | none =>
    obtain ⟨-, rfl⟩ := Prod.mk.inj (Option.some_inj.mp hsend)
    exact hsame (Or.inl rfl)
  | some destAddr =>
    cases data with
    | none =>
      obtain ⟨-, rfl⟩ := Prod.mk.inj (Option.some_inj.mp hsend)
      exact hsame (Or.inr (Or.inl rfl))
    | some data =>
      rw [udpSend] at hsend
      split_ifs at hsend with hargs hlong
      · obtain ⟨-, rfl⟩ := Prod.mk.inj (Option.some_inj.mp hsend)
        exact hsame (Or.inr (Or.inr (hargs.imp_right Or.inl)))
      · obtain ⟨-, rfl⟩ := Prod.mk.inj (Option.some_inj.mp hsend)
        exact hsame (Or.inr (Or.inr (Or.inr (Or.inr (Or.inl hlong)))))
      rcases h.client.netAlloc h0 junkPacket (8 + length) with
        ⟨pmm', hnone, hclient⟩ | ⟨packet, pmm', hsome, hlen, -, hpos, hclient⟩
      · rw [hnone] at hsend
        obtain ⟨-, rfl⟩ := Prod.mk.inj (Option.some_inj.mp hsend)
        refine ⟨lost, ⟨hclient, h.data, h.size⟩, (and_iff_left ?_).symm⟩
        exact Or.inr (Or.inr (Or.inr (Or.inr (Or.inr (congrArg Prod.fst hnone)))))
      · rw [hsome] at hsend
        rw [← hlen] at hpos
        obtain ⟨more, hmore, hclient'⟩ :=
          (sends_keepsLive h0 hcopies).sendPacket hsend _ hclient
        refine ⟨more ++ (packetAllocs packet ++ lost), ⟨?_, h.data, ?_⟩, iff_of_false ?_ ?_⟩
        · refine hclient'.perm ?_
          exact ((List.perm_append_comm_assoc _ _ _).append_left more).trans
            (List.perm_append_comm_assoc _ _ _)
        · intro a ha
          rcases List.mem_append.mp ha with ha | ha
          · exact hmore a ha
          · exact (List.mem_append.mp ha).elim (packetAllocs_size hpos a) (h.size a)
        · intro hnil
          exact nomatch (List.append_eq_nil_iff.mp hnil).2
        · rintro ⟨-, hrefused⟩
          rcases hrefused with hrefused | hrefused | hrefused | hrefused | hrefused | hrefused
          · cases hrefused
          · cases hrefused
          · exact hargs (Or.inl hrefused)
          · exact hargs (Or.inr hrefused)
          · exact hlong hrefused
          · rw [hsome] at hrefused
            cases hrefused

/-- **One call** loses nothing exactly if it is one that keeps the memory. -/
theorem step (h : TrafficInv base lost w) (h0 : pmmTestBlock base 0 = true)
    (hcopies : Copies driver) {op : TrafficOp} (hstep : w.step driver op = some w') :
    ∃ lost', TrafficInv base lost' w' ∧ (lost' = [] ↔ lost = [] ∧ w.Keeps op) := by
  cases op with
  | send socket destAddr destPort data length junk junkPacket => exact h.send h0 hcopies hstep
  | arrive p frame =>
    obtain rfl := Option.some_inj.mp hstep
    exact ⟨lost, h.arrive h0 p frame, (and_iff_left trivial).symm⟩
  | processRx turns =>
    obtain ⟨ps, hps, hpoll⟩ := Option.bind_eq_some_iff.mp hstep
    obtain ⟨lost', h', hiff⟩ := h.pollAll h0 hpoll
    refine ⟨lost', h', hiff.trans (and_congr_right fun _ =>
      ⟨fun hno ps' hps' => ?_, fun hno => hno ps hps⟩)⟩
    rwa [← Option.some_inj.mp (hps.symm.trans hps')]

end TrafficInv

/-- **Every run** whose calls each refuse their datagram, have no memory for it, or receive no UDP
packet, loses no memory; and after such a run the next call loses none exactly if it is one of
these. -/
theorem packet_memory_run {driver : Driver} (hcopies : Copies driver) {base : Pmm}
    (h0 : pmmTestBlock base 0 = true) {stack : Transmit} (hbase : stack.table.pmm = base)
    {udp : Udp} {w : Traffic} (hrun : Reaches (Traffic.KeepsStep driver) ⟨stack, udp, []⟩ w) :
    MemoryKept base w ∧
      ∀ op w', w.Step driver op w' → (MemoryKept base w' ↔ w.Keeps op) := by
  have hstart : TrafficInv base [] ⟨stack, udp, []⟩ :=
    ⟨by rw [hbase]; exact ClientInv.start base, by simp, by simp⟩
  have h : TrafficInv base [] w := by
    refine hrun.invariant hstart fun u op u' hu hstep => ?_
    obtain ⟨lost', hu', hiff⟩ := hu.step h0 hcopies hstep.1
    rwa [hiff.mpr ⟨rfl, hstep.2⟩] at hu'
  refine ⟨h.kept_iff.mpr rfl, fun op w' hstep => ?_⟩
  obtain ⟨lost', h', hiff⟩ := h.step h0 hcopies hstep
  rw [h'.kept_iff, hiff]
  exact and_iff_right rfl

/-! ### A datagram without a route -/

/-- A driver that sends everything, and copies it. -/
def copyingDriver : Driver := fun pmm _ => (true, pmm)

/-- An interface, no route, a socket, and eight blocks of memory. -/
def quiet : Traffic := ⟨{ oneInterface 1500 with table := noRoute.table }, oneSocket.udp, []⟩

/-- A datagram of one byte. -/
def sendOp : TrafficOp :=
  .send 4096 (some zeroAddr) 53 (some fun _ => 0) 1 (fun _ => packetOf 0) (packetOf 0)

/-- A frame of no protocol that the kernel knows. -/
def strangeFrame : NetPacket := { packetOf 60 with protocol := .none }

/-- A datagram of no bytes. -/
def refusedOp : TrafficOp :=
  .send 4096 (some zeroAddr) 53 (some fun _ => 0) 0 (fun _ => packetOf 0) (packetOf 0)

/-- The drivers hand over what they have. -/
def takeOp : TrafficOp := .processRx fun _ => ⟨[], true⟩

/-- The frame has arrived. -/
def strangeArrived : Traffic := quiet.arrive 4096 strangeFrame

theorem noUdp_strangeArrived : Traffic.NoUdp (fun _ => ⟨[], true⟩) [4096] strangeArrived := by
  refine ⟨?_, fun _ _ => trivial⟩
  rintro ⟨packet, w', hpacket, hudp⟩
  have hprotocol : (strangeArrived.netReceivePacket 4096 ⟨[], true⟩).1.map
      (fun packet => packet.protocol) = some .none := by
    decide +kernel
  rw [hpacket, Option.map_some, hudp] at hprotocol
  cases hprotocol

theorem keeps_takeOp : strangeArrived.Keeps takeOp := by
  intro ps hps
  have hlist : netProcessRxQueue strangeArrived.stack.net = some [4096] := by decide +kernel
  exact Option.some_inj.mp (hlist.symm.trans hps) ▸ noUdp_strangeArrived

/-- A frame arrives, `udp_send` refuses to send nothing, and `net_process_rx_queue` frees the packet
of the frame. -/
theorem packet_memory_run_freed : ∃ w, strangeArrived.Step copyingDriver takeOp w ∧
    w.pending.length = 0 ∧ MemoryKept pmmEight w ∧
      ∀ op w', w.Step copyingDriver op w' → (MemoryKept pmmEight w' ↔ w.Keeps op) := by
  have hframe : Traffic.KeepsStep copyingDriver quiet (.arrive 4096 strangeFrame) strangeArrived :=
    ⟨rfl, trivial⟩
  have hrefused : Traffic.KeepsStep copyingDriver strangeArrived refusedOp strangeArrived :=
    ⟨rfl, Or.inr (Or.inr (Or.inr (Or.inl rfl)))⟩
  have htake : (strangeArrived.step copyingDriver takeOp).map (fun w => w.pending.length) =
      some 0 := by
    decide +kernel
  obtain ⟨w, hw, hpending⟩ := Option.map_eq_some_iff.mp htake
  have hbase : quiet.stack.table.pmm = pmmEight := rfl
  have hrun : Reaches (Traffic.KeepsStep copyingDriver) ⟨quiet.stack, quiet.udp, []⟩ w :=
    (((Reaches.refl quiet).tail hframe).tail hrefused).tail ⟨hw, keeps_takeOp⟩
  exact ⟨w, hw, hpending, packet_memory_run (fun _ _ => rfl) (by decide) hbase hrun⟩

/-- It is not sent, and its packet is not given back. -/
theorem not_memoryKept_send : Copies copyingDriver ∧ MemoryKept pmmEight quiet ∧
    ∃ w', quiet.Step copyingDriver sendOp w' ∧ ¬ MemoryKept pmmEight w' := by
  have hquiet : TrafficInv pmmEight [] quiet := ⟨ClientInv.start pmmEight, by simp [quiet], by simp⟩
  obtain ⟨w', hstep⟩ : ∃ w', quiet.step copyingDriver sendOp = some w' :=
    Option.isSome_iff_exists.mp (by decide +kernel)
  refine ⟨fun _ _ => rfl, hquiet.kept_iff.mpr rfl, w', hstep, fun hkept => ?_⟩
  obtain ⟨lost', h', hiff⟩ := hquiet.step (by decide) (fun _ _ => rfl) hstep
  rcases (hiff.mp (h'.kept_iff.mp hkept)).2 with h | h | h | h | h | h
  · cases h
  · cases h
  · exact absurd h (by decide)
  · exact absurd h (by decide)
  · exact absurd h (by decide)
  · exact absurd (congrArg Option.isSome h) (by decide +kernel)

end Rexus
