import Rexus.Drivers.E1000Receive
import Rexus.Net.PacketMemory

/-!
# Frames

`eth_send_frame` and `eth_receive_frame` of `net/ethernet.c`, with `net_receive_packet` of
`net/net.c`, over the e1000 driver and its ring. Each makes a packet for the frame, or has the
driver make one, and gives it back before it returns. In a run the frames arrive, and the rest of
the kernel allocates and frees, in any order with the calls.

A frame is taken from the ring before its length is compared with the room of the caller: one that
is too long for it is lost.

## Main results

* `FrameInv.receive`, `FrameInv.send` — the two calls keep the queue, and the memory of the others
* `frames_run` — what every run has taken, given, and sent

## Conventions

The packets of this layer live only during a call, so what a run keeps is the ring, the counters of
the interface, and the lists of what was taken, given and handed over. The device does not write to
the descriptor at `RDT`; a frame for which there is no descriptor is lost before it gets here, and
is not in the list of those that arrived.

Two things are assumed of a run: block `0` is in use, as `pmm_init` leaves it whenever there is
memory, since otherwise an allocation of it would be taken for a failure and lost; and the send
functions of the drivers copy what they are given and leave the allocator alone, `Copies`. The
caller's buffer for a frame is there and has room for the length it says.
-/

namespace Rexus

open Bytes Pmm Run

/-! ### The functions -/

/-- The driver with its device, and what `net_receive_packet` counts of each interface. The device
has counters of its own, which are part of its structure. -/
structure FrameStack where
  dev : Reception
  rxPackets : ℕ → UInt64
  rxBytes : ℕ → UInt64

namespace FrameStack

/-- The interfaces and the allocator. -/
def net (s : FrameStack) : Transmit := s.dev.stack.toTransmit

/-- The allocator. -/
def pmm (s : FrameStack) : Pmm := s.net.table.pmm

/-- The interfaces and the allocator are others. -/
def setNet (s : FrameStack) (t : Transmit) : FrameStack :=
  { s with dev := { s.dev with stack := { s.dev.stack with toTransmit := t } } }

/-- The allocator is another. -/
def setPmm (s : FrameStack) (pmm : Pmm) : FrameStack := s.setNet (s.net.setPmm pmm)

end FrameStack

/-- `net_receive_packet`, of an interface of the driver, with the device it writes `RDT` of. -/
def e1000NetReceive (s : FrameStack) (p : ℕ) (junk : NetPacket) : Option NetPacket × FrameStack :=
  if p = 0 ∨ (s.net.net.iface p).hasReceive = false then (none, s)
  else
    let dev := s.dev.receive p s.pmm junk
    match (e1000ReceivePacket s.dev.stack junk p).1 with
    | none => (none, { s with dev })
    | some packet =>
      (some packet,
        { dev
          rxPackets := Function.update s.rxPackets p (s.rxPackets p + 1)
          rxBytes := Function.update s.rxBytes p (s.rxBytes p + UInt64.ofNat packet.length) })

/-- What the caller of `eth_receive_frame` finds: the answer, its buffer, and `*length`. -/
structure FrameResult where
  ok : Bool
  data : ℕ → UInt8
  length : ℕ

/-- `eth_receive_frame`, with a buffer that is there. -/
def ethReceiveFrame (s : FrameStack) (p : ℕ) (junk : NetPacket) (data : ℕ → UInt8) (length : ℕ) :
    FrameResult × FrameStack :=
  if p = 0 ∨ length < 64 then (⟨false, data, length⟩, s)
  else
    match e1000NetReceive s p junk with
    | (none, s) => (⟨false, data, length⟩, s)
    | (some packet, s) =>
      if length < packet.length then
        (⟨false, data, length⟩, s.setPmm (netFreePacket s.pmm packet))
      else
        (⟨true, blit data 0 packet.bytes 0 packet.length, packet.length⟩,
          s.setPmm (netFreePacket s.pmm packet))

/-- `eth_send_frame`; `none` is a null pointer. -/
def ethSendFrame (driver : Driver) (junk : NetPacket) (t : Transmit) (p : ℕ)
    (data : Option (ℕ → UInt8)) (length : ℕ) : Bool × Transmit :=
  match data with
  | none => (false, t)
  | some data =>
    if p = 0 ∨ length < 64 ∨ 1518 < length then (false, t)
    else
      match netAllocPacket t.table.pmm junk length with
      | (none, pmm) => (false, t.setPmm pmm)
      | (some packet, pmm) =>
        let packet := { packet with bytes := blit packet.bytes 0 data 0 length, length }
        match netSendPacket driver (t.setPmm pmm) p packet with
        | (success, t) => (success, t.setPmm (netFreePacket t.table.pmm packet))

/-! ### A run -/

/-- What can happen at the interface of the run: a frame arrives, a call of either function, or one
of the rest of the kernel to the allocator. A frame may be sent through any interface. -/
inductive FrameOp where
  | arrive (frame : List UInt8)
  | receive (junk : NetPacket) (data : ℕ → UInt8) (length : ℕ)
  | send (junk : NetPacket) (q : ℕ) (data : Option (ℕ → UInt8)) (length : ℕ)
  | memory (op : PmmOp)

/-- The stack; what the rest of the kernel has allocated; the frames that were taken from the ring,
each with the room of the caller; the frames that callers were given; and those that were handed to
a driver, each with its interface. -/
structure FrameRun where
  stack : FrameStack
  live : List Allocation
  taken : List (List UInt8 × ℕ)
  given : List (List UInt8)
  handed : List (ℕ × List UInt8)

/-- A packet that was handed to a driver, as a frame. -/
def sentFrame (x : ℕ × NetPacket) : ℕ × List UInt8 := (x.1, slice x.2.bytes 0 x.2.length)

namespace FrameRun

/-- A call of `eth_receive_frame`. -/
def receive (w : FrameRun) (p : ℕ) (junk : NetPacket) (data : ℕ → UInt8) (length : ℕ) : FrameRun :=
  let (r, stack) := ethReceiveFrame w.stack p junk data length
  { w with
    stack
    taken := w.taken ++
      (stack.dev.returned.drop w.stack.dev.returned.length).map fun frame => (frame, length)
    given := if r.ok then w.given ++ [slice r.data 0 r.length] else w.given }

/-- A call of `eth_send_frame`. -/
def send (w : FrameRun) (driver : Driver) (junk : NetPacket) (q : ℕ) (data : Option (ℕ → UInt8))
    (length : ℕ) : FrameRun :=
  let t := (ethSendFrame driver junk w.stack.net q data length).2
  let frame := slice (data.getD fun _ => 0) 0 length
  { w with
    stack := w.stack.setNet t
    handed := w.handed ++ (t.sent.drop w.stack.net.sent.length).map fun _ => (q, frame) }

/-- One event. The device does not write to the descriptor at `RDT`. -/
def step (driver : Driver) (p : ℕ) (w : FrameRun) : FrameOp → Option FrameRun
  | .arrive frame =>
    if w.stack.dev.head = w.stack.dev.tail ∨ 2 ^ 16 ≤ frame.length then none
    else some { w with stack := { w.stack with dev := w.stack.dev.arrive p frame } }
  | .receive junk data length => some (w.receive p junk data length)
  | .send junk q data length => some (w.send driver junk q data length)
  | .memory op =>
    (PmmClient.step ⟨w.stack.pmm, w.live⟩ op).map fun c =>
      { w with stack := w.stack.setPmm c.pmm, live := c.live }

/-- The step relation of a run: an event that can happen. The device has a frame for a ring that is
not full only, and the rest of the kernel gives back what it holds and nothing else. -/
def Step (driver : Driver) (p : ℕ) (w : FrameRun) (op : FrameOp) (w' : FrameRun) : Prop :=
  w.step driver p op = some w'

/-- After `e1000_init`: nothing has arrived or been taken, given or sent, and the counters of the
interfaces are anything. -/
def start (s : DriverStack) (rxPackets rxBytes : ℕ → UInt64) : FrameRun :=
  ⟨⟨Reception.start s, rxPackets, rxBytes⟩, [], [], [], []⟩

end FrameRun

/-! ### The ring -/

namespace Reception

/-- The ring, with the frames that calls have returned for those that they have found: without
memory a frame is found again. -/
def ring (t : Reception) : Reception := { t with found := t.returned }

end Reception

section

variable {t : Reception} {p : ℕ} {pending : List (List UInt8)} {base : Pmm}
  {live : List Allocation}

/-- Another stack with the same descriptors and the same buffers behind the interface has the same
ring. -/
theorem ReceiveInv.congr (h : ReceiveInv t p pending) {s : DriverStack}
    (hdev : s.e1000Dev p = t.stack.e1000Dev p)
    (hdescs : (s.memory.device (s.e1000Dev p)).rxDescs = (t.device p).rxDescs)
    (hcur : (s.memory.device (s.e1000Dev p)).rxCur = (t.device p).rxCur)
    (hdesc : s.memory.rxDesc = t.stack.memory.rxDesc)
    (hbuffer : s.memory.buffer = t.stack.memory.buffer) :
    ReceiveInv { t with stack := s } p pending := by
  have hcur' : Reception.cur { t with stack := s } p = t.cur p := congrArg UInt32.toNat hcur
  have hdesc' : ∀ i, Reception.desc { t with stack := s } p i = t.desc p i := fun i => by
    show s.memory.rxDesc (s.memory.device (s.e1000Dev p)).rxDescs i = _
    rw [hdescs, hdesc]
    rfl
  have hframe : ∀ i, Reception.frame { t with stack := s } p i = t.frame p i := fun i => by
    rw [Reception.frame, hdesc']
    show slice (s.memory.buffer _) 0 _ = _
    rw [hbuffer]
    rfl
  refine
    { dev := hdev ▸ h.dev
      cur_lt := hcur' ▸ h.cur_lt
      pending_lt := h.pending_lt
      head := hcur' ▸ h.head
      tail := hcur' ▸ h.tail
      distinct := fun i hi j hj hij => h.distinct i hi j hj (by rwa [hdesc', hdesc'] at hij)
      done := fun k frame hk => ?_
      free := fun k hle hk => ?_
      arrived := h.arrived
      fits := h.fits
      returned := h.returned }
  · rw [hcur', hdesc', hframe]
    exact h.done k frame hk
  · rw [hcur', hdesc']
    exact h.free k hle hk

theorem ReceiveInv.setPmm (h : ReceiveInv t.ring p pending) (pmm : Pmm) :
    ReceiveInv (Reception.ring
      { t with stack := { t.stack with toTransmit := t.stack.setPmm pmm } }) p pending :=
  h.congr rfl rfl rfl rfl rfl

/-- A frame that is not returned stays in the ring. -/
theorem ReceiveInv.reject (h : ReceiveInv t p pending) (pmm : Pmm) :
    ReceiveInv { t with stack := t.stack.setMemory pmm (t.rejectMemory p) } p pending := by
  have hdevice : (t.rejectMemory p).device (t.stack.e1000Dev p) =
      { t.device p with rxErrors := (t.device p).rxErrors + 1 } := E1000Memory.setDevice_device ..
  have hdescs := congrArg E1000Device.rxDescs hdevice
  have hcur := congrArg E1000Device.rxCur hdevice
  exact h.congr rfl hdescs hcur rfl rfl

/-- How a call of the driver can end: without a packet, and the ring and the memory are as they
were; or the first frame of the ring is in a packet that has been allocated for it. -/
inductive ReceiveEnds (p : ℕ) (base : Pmm) (live : List Allocation) (t u : Reception) :
    List (List UInt8) → Option NetPacket → Prop
  | none {pending : List (List UInt8)} (sent : u.stack.sent = t.stack.sent)
      (returned : u.returned = t.returned) (ring : ReceiveInv u.ring p pending)
      (client : ClientInv base ⟨u.stack.table.pmm, live⟩) : ReceiveEnds p base live t u pending none
  | some {pending : List (List UInt8)} {frame : List UInt8} {packet : NetPacket}
      (sent : u.stack.sent = t.stack.sent) (returned : u.returned = t.returned ++ [frame])
      (ring : ReceiveInv u.ring p pending)
      (client : ClientInv base ⟨u.stack.table.pmm, packetAllocs packet ++ live⟩)
      (data : packet.data ≠ 0) (length : packet.length = frame.length)
      (bytes : slice packet.bytes 0 packet.length = frame) :
      ReceiveEnds p base live t u (frame :: pending) (some packet)

theorem ReceiveInv.receiveEnds (h : ReceiveInv t.ring p pending)
    (hclient : ClientInv base ⟨t.stack.table.pmm, live⟩) (h0 : pmmTestBlock base 0 = true)
    (junk : NetPacket) : ReceiveEnds p base live t (t.receive p t.stack.table.pmm junk) pending
      (e1000ReceivePacket t.stack junk p).1 := by
  have hstack : t.stack.setMemory t.stack.table.pmm t.stack.memory = t.stack := rfl
  have hcall := Reception.e1000ReceivePacket_eq t p t.stack.table.pmm junk
  rw [hstack] at hcall
  cases pending with
  | nil =>
    have hnext : t.next p = none := h.next_nil
    rw [Reception.receive_none hnext, hcall, if_pos (Or.inr (Reception.next_eq_none.mp hnext))]
    exact .none rfl rfl h hclient
  | cons frame pending =>
    have hnext : t.next p = some frame := h.next_cons
    obtain ⟨hdone, hframe⟩ := Reception.next_eq_some.mp hnext
    have hlen : (t.desc p (t.cur p)).length.toNat = frame.length := by
      rw [← hframe, Reception.length_frame]
    have hgo : ¬(t.stack.e1000Dev p = 0 ∨ (t.desc p (t.cur p)).status &&& 0x01 = 0) :=
      not_or.mpr ⟨h.dev, hdone⟩
    rw [if_neg hgo] at hcall
    rw [Reception.receive, hstack]
    by_cases hlong : 2048 < (t.desc p (t.cur p)).length
    · rw [if_pos hlong] at hcall
      rw [hcall]
      exact .none rfl rfl (h.reject _) hclient
    rw [if_neg hlong] at hcall
    rcases hclient.netAlloc h0 junk (t.desc p (t.cur p)).length.toNat with
      ⟨pmm', halloc, hpmm⟩ | ⟨packet, pmm', halloc, hlength, hdata, -, hpmm⟩
    · rw [halloc] at hcall
      rw [hcall]
      exact .none rfl rfl (h.reject _) hpmm
    · rw [halloc] at hcall
      have hfits : Fits frame := by
        rw [hlen] at halloc
        by_contra hnot
        obtain ⟨_, hnone⟩ := netAllocPacket_not_fits t.stack.table.pmm junk hnot
        have hcontra := (congrArg Prod.fst halloc).symm.trans (congrArg Prod.fst hnone)
        exact Option.some_ne_none packet hcontra
      have hbytes : slice (blit packet.bytes 0 (t.stack.memory.buffer (t.desc p (t.cur p)).addr) 0
          (t.desc p (t.cur p)).length.toNat) 0 packet.length = frame := by
        rw [hlength, slice_blit]
        exact hframe
      rw [hcall]
      dsimp only
      rw [hbytes]
      exact .some rfl rfl (h.accept hfits) hpmm hdata (hlength.trans hlen) hbytes

end

/-! ### The calls -/

/-- What a call with room for `length` bytes gives of a frame that was taken from the ring. -/
def handOver (x : List UInt8 × ℕ) : Option (List UInt8) :=
  if x.1.length ≤ x.2 then some x.1 else none

/-- What holds of a run: `pending` are the frames in the ring, `base` is the allocator at the start,
and `start` the run then. -/
structure FrameInv (base : Pmm) (p : ℕ) (start w : FrameRun) (pending : List (List UInt8)) :
    Prop where
  ring : ReceiveInv w.stack.dev.ring p pending
  client : ClientInv base ⟨w.stack.pmm, w.live⟩
  taken : w.taken.map Prod.fst = w.stack.dev.returned
  given : w.given = w.taken.filterMap handOver
  packets : w.stack.rxPackets p = start.stack.rxPackets p + UInt64.ofNat w.taken.length
  bytes : w.stack.rxBytes p =
    start.stack.rxBytes p + UInt64.ofNat (w.taken.map fun x => x.1.length).sum
  sent : w.stack.net.sent.map sentFrame = start.stack.net.sent.map sentFrame ++ w.handed
  sizes : ∀ x ∈ w.handed, 64 ≤ x.2.length ∧ x.2.length ≤ 1518

namespace FrameInv

variable {base : Pmm} {p : ℕ} {start w : FrameRun} {pending : List (List UInt8)}
  {frame : List UInt8} {junk : NetPacket} {data : ℕ → UInt8} {length : ℕ}

/-- A frame arrives. -/
theorem arrive (h : FrameInv base p start w pending) (hroom : w.stack.dev.head ≠ w.stack.dev.tail)
    (hlen : frame.length < 2 ^ 16) :
    FrameInv base p start { w with stack := { w.stack with dev := w.stack.dev.arrive p frame } }
      (pending ++ [frame]) :=
  { h with ring := h.ring.arrive hroom hlen }

/-- A call, by the frames that it takes from the ring. -/
theorem receive_eq {r : FrameResult} {stack : FrameStack} {frames : List (List UInt8)}
    (hcall : ethReceiveFrame w.stack p junk data length = (r, stack))
    (hreturned : stack.dev.returned = w.stack.dev.returned ++ frames) :
    w.receive p junk data length =
      { w with
        stack
        taken := w.taken ++ frames.map fun frame => (frame, length)
        given := if r.ok then w.given ++ [slice r.data 0 r.length] else w.given } := by
  rw [FrameRun.receive, hcall]
  dsimp only
  rw [hreturned, List.drop_left]

/-- A call that takes no frame. -/
theorem receive_none (h : FrameInv base p start w pending) {dev : Reception}
    (hcall : ethReceiveFrame w.stack p junk data length =
      (⟨false, data, length⟩, { w.stack with dev }))
    (hreturned : dev.returned = w.stack.dev.returned) (hsent : dev.stack.sent = w.stack.net.sent)
    (hring : ReceiveInv dev.ring p pending)
    (hclient : ClientInv base ⟨dev.stack.table.pmm, w.live⟩) :
    FrameInv base p start (w.receive p junk data length) pending := by
  have hnone : dev.returned = w.stack.dev.returned ++ [] :=
    hreturned.trans (List.append_nil _).symm
  rw [receive_eq hcall hnone, List.map_nil, List.append_nil]
  exact
    { ring := hring
      client := hclient
      taken := h.taken.trans hreturned.symm
      given := h.given
      packets := h.packets
      bytes := h.bytes
      sent := (congrArg (List.map sentFrame) hsent).trans h.sent
      sizes := h.sizes }

/-- A call that takes the first frame. -/
theorem receive_some (h : FrameInv base p start w (frame :: pending)) {r : FrameResult}
    {dev : Reception}
    (hcall : ethReceiveFrame w.stack p junk data length = (r,
      { dev
        rxPackets := Function.update w.stack.rxPackets p (w.stack.rxPackets p + 1)
        rxBytes := Function.update w.stack.rxBytes p
          (w.stack.rxBytes p + UInt64.ofNat frame.length) }))
    (hok : (if r.ok then some (slice r.data 0 r.length) else none) = handOver (frame, length))
    (hreturned : dev.returned = w.stack.dev.returned ++ [frame])
    (hsent : dev.stack.sent = w.stack.net.sent) (hring : ReceiveInv dev.ring p pending)
    (hclient : ClientInv base ⟨dev.stack.table.pmm, w.live⟩) :
    FrameInv base p start (w.receive p junk data length) pending := by
  rw [receive_eq hcall hreturned]
  refine
    { ring := hring
      client := hclient
      taken := ?_
      given := ?_
      packets := ?_
      bytes := ?_
      sent := (congrArg (List.map sentFrame) hsent).trans h.sent
      sizes := h.sizes }
  · rw [List.map_append, h.taken]
    exact hreturned.symm
  · show (if r.ok then _ else _) = _
    rw [List.filterMap_append, ← h.given, List.map_singleton, List.filterMap_cons, ← hok]
    split_ifs
    · rfl
    · exact (List.append_nil _).symm
  · show Function.update _ p _ p = _
    rw [Function.update_self, h.packets, List.length_append, UInt64.ofNat_add, ← UInt64.add_assoc]
    rfl
  · show Function.update _ p _ p = _
    rw [Function.update_self, h.bytes, List.map_append, List.sum_append, UInt64.ofNat_add,
      ← UInt64.add_assoc]
    rfl

/-- **A call of `eth_receive_frame`**: the queue goes on, and the memory is as it was. With room for
a frame, memory, and a frame that fits it is taken. -/
theorem receive (h : FrameInv base p start w pending) (h0 : pmmTestBlock base 0 = true)
    (junk : NetPacket) (data : ℕ → UInt8) (length : ℕ) :
    ∃ pending', FrameInv base p start (w.receive p junk data length) pending' := by
  by_cases hroom : p = 0 ∨ length < 64
  · have hcall : ethReceiveFrame w.stack p junk data length = (⟨false, data, length⟩, w.stack) := by
      rw [ethReceiveFrame, if_pos hroom]
    exact ⟨pending, h.receive_none hcall rfl rfl h.ring h.client⟩
  by_cases hcan : p = 0 ∨ (w.stack.net.net.iface p).hasReceive = false
  · have hcall : ethReceiveFrame w.stack p junk data length = (⟨false, data, length⟩, w.stack) := by
      rw [ethReceiveFrame, if_neg hroom, e1000NetReceive, if_pos hcan]
    exact ⟨pending, h.receive_none hcall rfl rfl h.ring h.client⟩
  have hends := h.ring.receiveEnds h.client h0 junk
  have hcall := ethReceiveFrame.eq_def w.stack p junk data length
  rw [if_neg hroom, e1000NetReceive, if_neg hcan] at hcall
  generalize hpacket : (e1000ReceivePacket w.stack.dev.stack junk p).1 = packet at hends hcall
  cases hends with
  | none sent returned ring client =>
    exact ⟨_, h.receive_none hcall returned sent ring client⟩
  | @some pending frame packet sent returned ring client hdata hlength hbytes =>
    have hclient := client.netFree hdata
    dsimp only at hcall
    rw [hlength] at hcall
    by_cases hlong : length < frame.length
    · rw [if_pos hlong] at hcall
      exact ⟨pending, h.receive_some hcall (if_neg (Nat.not_le.mpr hlong)).symm returned sent
        (ring.setPmm _) hclient⟩
    · rw [if_neg hlong] at hcall
      refine ⟨pending, h.receive_some hcall ?_ returned sent (ring.setPmm _) hclient⟩
      rw [handOver, if_pos (Nat.not_lt.mp hlong), if_pos rfl]
      dsimp only
      rw [slice_blit, ← hlength, hbytes]

end FrameInv

/-- Whether a frame has been taken is decided by the driver alone. -/
theorem ethReceiveFrame_returned {s : FrameStack} {p length : ℕ} (hp : p ≠ 0) (hroom : 64 ≤ length)
    (hcan : (s.net.net.iface p).hasReceive = true) (junk : NetPacket) (data : ℕ → UInt8) :
    (ethReceiveFrame s p junk data length).2.dev.returned =
      (s.dev.receive p s.pmm junk).returned := by
  have hgo : ¬(p = 0 ∨ length < 64) := not_or.mpr ⟨hp, Nat.not_lt.mpr hroom⟩
  have hgo' : ¬(p = 0 ∨ (s.net.net.iface p).hasReceive = false) := not_or.mpr ⟨hp, by simp [hcan]⟩
  rw [ethReceiveFrame, if_neg hgo, e1000NetReceive, if_neg hgo']
  cases (e1000ReceivePacket s.dev.stack junk p).1 with
  | none => rfl
  | some packet =>
    dsimp only
    split_ifs
    · rfl
    · rfl

/-- What `eth_send_frame` leaves: the packet has been given back, and it may have been handed to the
driver, with the bytes of the caller. -/
structure FrameSent (t t' : Transmit) (q : ℕ) (data : Option (ℕ → UInt8)) (length : ℕ) : Prop where
  drivers : SameDrivers t.net t'.net
  sent : t'.sent = t.sent ∨ ∃ packet bytes, data = some bytes ∧ 64 ≤ length ∧ length ≤ 1518 ∧
    t'.sent = t.sent ++ [(q, packet)] ∧ sentFrame (q, packet) = (q, slice bytes 0 length)

theorem ethSendFrame_sent {driver : Driver} {base : Pmm} {live : List Allocation} {t : Transmit}
    (hcopies : Copies driver) (hclient : ClientInv base ⟨t.table.pmm, live⟩)
    (h0 : pmmTestBlock base 0 = true) (junk : NetPacket) (q : ℕ) (data : Option (ℕ → UInt8))
    (length : ℕ) :
    FrameSent t (ethSendFrame driver junk t q data length).2 q data length ∧
      ClientInv base ⟨(ethSendFrame driver junk t q data length).2.table.pmm, live⟩ := by
  cases data with
  | none => exact ⟨⟨SameDrivers.refl _, Or.inl rfl⟩, hclient⟩
  | some bytes =>
    rw [ethSendFrame]
    by_cases hbad : q = 0 ∨ length < 64 ∨ 1518 < length
    · rw [if_pos hbad]
      exact ⟨⟨SameDrivers.refl _, Or.inl rfl⟩, hclient⟩
    rw [if_neg hbad]
    rcases hclient.netAlloc h0 junk length with
      ⟨pmm, halloc, hpmm⟩ | ⟨packet, pmm, halloc, hlength, hdata, -, hpmm⟩
    · rw [halloc]
      exact ⟨⟨SameDrivers.refl _, Or.inl rfl⟩, hpmm⟩
    rw [halloc]
    dsimp only
    let packet' : NetPacket :=
      { packet with bytes := blit packet.bytes 0 bytes 0 length, length }
    have hdrivers := netSendPacket_sameDrivers driver (t.setPmm pmm) q packet'
    have hpmm' := netSendPacket_pmm hcopies (t.setPmm pmm) q packet'
    have hsent : (netSendPacket driver (t.setPmm pmm) q packet').2.sent = t.sent ∨
        (netSendPacket driver (t.setPmm pmm) q packet').2.sent = t.sent ++ [(q, packet')] := by
      by_cases hcan : CanSend (t.setPmm pmm).net q
      · obtain ⟨t', hsend, hsent, -⟩ := netSendPacket_can driver packet' hcan
        exact Or.inr (hsend ▸ hsent)
      · rw [netSendPacket_cannot hcan]
        exact Or.inl rfl
    have hallocs : packetAllocs packet' = packetAllocs packet := by
      rw [packetAllocs, packetAllocs, hlength]
    have hfreed : ClientInv base ⟨netFreePacket pmm packet', live⟩ :=
      ClientInv.netFree (hallocs ▸ hpmm) hdata
    have hframe : sentFrame (q, packet') = (q, slice bytes 0 length) :=
      congrArg (Prod.mk q) (slice_blit ..)
    refine ⟨⟨hdrivers, ?_⟩, ?_⟩
    · exact hsent.imp_right fun h => ⟨packet', bytes, rfl, by omega, by omega, h, hframe⟩
    · show ClientInv base ⟨netFreePacket (netSendPacket driver _ q packet').2.table.pmm packet', _⟩
      rw [hpmm']
      exact hfreed

namespace FrameInv

variable {base : Pmm} {p q : ℕ} {start w w' : FrameRun} {pending : List (List UInt8)}
  {driver : Driver} {frame : List UInt8} {junk : NetPacket} {data : Option (ℕ → UInt8)} {length : ℕ}


/-- A frame that fits is taken, if there is memory. -/
theorem receive_taken (h : FrameInv base p start w pending) (hp : p ≠ 0) (hroom : 64 ≤ length)
    (hcan : (w.stack.net.net.iface p).hasReceive = true) (hmemory : MemoryAvailable w.stack.pmm)
    (hnext : w.stack.dev.next p = some frame) (hfits : Fits frame) (junk : NetPacket)
    (data : ℕ → UInt8) :
    (w.receive p junk data length).taken = w.taken ++ [(frame, length)] := by
  have hdev : w.stack.dev.stack.e1000Dev p ≠ 0 := h.ring.dev
  obtain ⟨pmm', heq⟩ := Reception.receive_fits junk hdev hmemory hnext hfits
  have hreturned := ethReceiveFrame_returned hp hroom hcan junk data
  rw [show w.stack.dev.receive p w.stack.pmm junk = _ from heq] at hreturned
  rw [receive_eq rfl hreturned]
  rfl

/-- What a call of `eth_send_frame` hands to the driver. -/
theorem send_handed {t : Transmit} (ht : (ethSendFrame driver junk w.stack.net q data length).2 = t)
    (h : FrameSent w.stack.net t q data length) :
    ∃ frames, (w.send driver junk q data length).handed = w.handed ++ frames ∧
      (w.send driver junk q data length).stack.net.sent.map sentFrame =
        w.stack.net.sent.map sentFrame ++ frames ∧
      ∀ x ∈ frames, 64 ≤ x.2.length ∧ x.2.length ≤ 1518 := by
  rcases h.sent with hsent | ⟨packet, bytes, rfl, hmin, hmax, hsent, hframe⟩
  · refine ⟨[], ?_, ?_, nofun⟩
    · rw [FrameRun.send, ht]
      dsimp only
      rw [hsent, List.drop_length, List.map_nil]
    · rw [FrameRun.send, ht, List.append_nil]
      exact congrArg _ hsent
  · refine ⟨[(q, slice bytes 0 length)], ?_, ?_, ?_⟩
    · rw [FrameRun.send, ht]
      dsimp only
      rw [hsent, List.drop_left]
      rfl
    · rw [FrameRun.send, ht, ← hframe, ← List.map_singleton, ← List.map_append]
      exact congrArg _ hsent
    · intro x hx
      rw [List.mem_singleton.mp hx, length_slice]
      exact ⟨hmin, hmax⟩

/-- **A call of `eth_send_frame`**: the queue is as it was, and so is the memory. -/
theorem send (h : FrameInv base p start w pending) (h0 : pmmTestBlock base 0 = true)
    (hcopies : Copies driver) (junk : NetPacket) (q : ℕ) (data : Option (ℕ → UInt8)) (length : ℕ) :
    FrameInv base p start (w.send driver junk q data length) pending := by
  obtain ⟨hsent, hclient⟩ := ethSendFrame_sent hcopies h.client h0 junk q data length
  obtain ⟨frames, hhanded, hframes, hsizes⟩ := send_handed rfl hsent
  have hdata := hsent.drivers.driverData p
  have hdevice : (w.send driver junk q data length).stack.dev.device p = w.stack.dev.device p :=
    congrArg w.stack.dev.stack.memory.device hdata
  have hdescs := congrArg E1000Device.rxDescs hdevice
  have hcur := congrArg E1000Device.rxCur hdevice
  refine
    { ring := h.ring.congr hdata hdescs hcur rfl rfl
      client := hclient
      taken := h.taken
      given := h.given
      packets := h.packets
      bytes := h.bytes
      sent := ?_
      sizes := fun x hx => ?_ }
  · rw [hframes, hhanded, h.sent, List.append_assoc]
  · rw [hhanded, List.mem_append] at hx
    exact hx.elim (h.sizes x) (hsizes x)

/-- A call of the rest of the kernel to the allocator. -/
theorem memory (h : FrameInv base p start w pending) (h0 : pmmTestBlock base 0 = true) {op : PmmOp}
    {c : PmmClient} (hop : PmmClient.step ⟨w.stack.pmm, w.live⟩ op = some c) :
    FrameInv base p start { w with stack := w.stack.setPmm c.pmm, live := c.live } pending :=
  { h with
    ring := h.ring.setPmm c.pmm
    client := h.client.step h0 hop }

/-- **A step.** -/
theorem step (h : FrameInv base p start w pending) (h0 : pmmTestBlock base 0 = true)
    (hcopies : Copies driver) {op : FrameOp} (hstep : FrameRun.Step driver p w op w') :
    ∃ pending', FrameInv base p start w' pending' := by
  rw [FrameRun.Step] at hstep
  cases op with
  | arrive frame =>
    rw [FrameRun.step] at hstep
    split_ifs at hstep with hcan
    obtain ⟨hroom, hlen⟩ := not_or.mp hcan
    rw [← Option.some_inj.mp hstep]
    exact ⟨_, h.arrive hroom (Nat.lt_of_not_le hlen)⟩
  | receive junk data length =>
    rw [← Option.some_inj.mp hstep]
    exact h.receive h0 junk data length
  | send junk q data length =>
    rw [← Option.some_inj.mp hstep]
    exact ⟨pending, h.send h0 hcopies junk q data length⟩
  | memory op =>
    obtain ⟨c, hop, rfl⟩ := Option.map_eq_some_iff.mp hstep
    exact ⟨pending, h.memory h0 hop⟩

end FrameInv

/-- What a run has done since its start: the frames were taken in the order in which they arrived,
and given if there was room; those that were sent are those that were handed over, and none is too
short or too long; the interface has counted what was taken; and no memory is in use but what was
at the start and what the rest of the kernel holds. -/
structure FramesRight (p : ℕ) (start w : FrameRun) : Prop where
  order : w.taken.map Prod.fst <+: w.stack.dev.arrived
  given : w.given = w.taken.filterMap handOver
  packets : w.stack.rxPackets p = start.stack.rxPackets p + UInt64.ofNat w.taken.length
  bytes : w.stack.rxBytes p =
    start.stack.rxBytes p + UInt64.ofNat (w.taken.map fun x => x.1.length).sum
  sent : w.stack.net.sent.map sentFrame = start.stack.net.sent.map sentFrame ++ w.handed
  sizes : ∀ x ∈ w.handed, 64 ≤ x.2.length ∧ x.2.length ≤ 1518
  memory : ∀ b, b ∈ w.stack.pmm.usedSet ↔
    b ∈ start.stack.pmm.usedSet ∨ ∃ a ∈ w.live, b ∈ a.blocks

/-- **Every run from a set-up is right**, and a call with room for a frame takes the one that is
next, if it fits into a packet and there is memory for it. -/
theorem frames_run {driver : Driver} (hcopies : Copies driver) {s s' : DriverStack}
    {p mmioBase : ℕ} {ioBase : UInt32} {macAddr : Fin 6 → UInt8}
    (h : e1000Init s p mmioBase ioBase macAddr = (true, s'))
    (h0 : pmmTestBlock s'.table.pmm 0 = true) {rxPackets rxBytes : ℕ → UInt64} {w : FrameRun}
    (hreach : Reaches (FrameRun.Step driver p) (.start s' rxPackets rxBytes) w) :
    FramesRight p (.start s' rxPackets rxBytes) w ∧
      ∀ frame, w.stack.dev.next p = some frame → Fits frame → MemoryAvailable w.stack.pmm →
        p ≠ 0 → (w.stack.net.net.iface p).hasReceive = true → ∀ junk data length, 64 ≤ length →
          (w.receive p junk data length).taken = w.taken ++ [(frame, length)] := by
  obtain ⟨pending, hinv⟩ : ∃ pending,
      FrameInv s'.table.pmm p (.start s' rxPackets rxBytes) w pending := by
    refine hreach.invariant
      (I := fun w => ∃ pending, FrameInv s'.table.pmm p (.start s' rxPackets rxBytes) w pending)
      ⟨[], ?_⟩ fun _ _ _ ⟨_, ha⟩ hab => ha.step h0 hcopies hab
    exact
      { ring := e1000Init_receiveInv h
        client := ClientInv.start _
        taken := rfl
        given := rfl
        packets := (UInt64.add_zero _).symm
        bytes := (UInt64.add_zero _).symm
        sent := (List.append_nil _).symm
        sizes := nofun }
  have hright : FramesRight p (.start s' rxPackets rxBytes) w :=
    { hinv with
      order := hinv.taken ▸ ⟨pending, hinv.ring.arrived.symm⟩
      memory := hinv.client.mem_usedSet }
  exact ⟨hright, fun frame hnext hfits hmemory hp hcan junk data length hroom =>
    hinv.receive_taken hp hroom hcan hmemory hnext hfits junk data⟩

/-- A frame of sixty-four bytes arrives at the interface at `524288`. -/
def frameReceived : FrameRun :=
  let w := FrameRun.start readyDriver (fun _ => 0) fun _ => 0
  { w with stack := { w.stack with dev := w.stack.dev.arrive 524288 (List.replicate 64 7) } }

theorem frameReceived_reaches : Reaches (FrameRun.Step copyingDriver 524288)
    (.start readyDriver (fun _ => 0) fun _ => 0) frameReceived := by
  have hlen : (List.replicate 64 (7 : UInt8)).length < 2 ^ 16 := by
    rw [List.length_replicate]
    decide
  have hcan : ¬((Reception.start readyDriver).head = (Reception.start readyDriver).tail ∨
      2 ^ 16 ≤ (List.replicate 64 (7 : UInt8)).length) :=
    not_or.mpr ⟨(by decide : ¬(0 = 31)), Nat.not_le.mpr hlen⟩
  have hstep : FrameRun.Step copyingDriver 524288 (.start readyDriver (fun _ => 0) fun _ => 0)
      (.arrive (List.replicate 64 7)) frameReceived := by
    rw [FrameRun.Step, FrameRun.step]
    exact if_neg hcan
  exact (Reaches.refl _).tail hstep

/-- A call takes it and gives it. -/
def frameGiven : FrameRun := frameReceived.receive 524288 (packetOf 1) (fun _ => 0) 100

theorem frames_run_first : frameGiven.given = [List.replicate 64 7] ∧
    FramesRight 524288 (.start readyDriver (fun _ => 0) fun _ => 0) frameGiven ∧
      ∀ frame, frameGiven.stack.dev.next 524288 = some frame → Fits frame →
        MemoryAvailable frameGiven.stack.pmm → 524288 ≠ 0 →
          (frameGiven.stack.net.net.iface 524288).hasReceive = true → ∀ junk data length,
            64 ≤ length → (frameGiven.receive 524288 junk data length).taken =
              frameGiven.taken ++ [(frame, length)] := by
  have hstep : FrameRun.Step copyingDriver 524288 frameReceived
      (.receive (packetOf 1) (fun _ => 0) 100) frameGiven := rfl
  have hreach := frameReceived_reaches.tail hstep
  exact ⟨by decide +kernel,
    frames_run (fun _ _ => rfl) e1000Init_unusedDriver (by decide +kernel) hreach⟩

end Rexus
