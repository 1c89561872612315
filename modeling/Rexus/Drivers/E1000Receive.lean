import Rexus.Net.DriverData
import Rexus.Lib.RingBuffer

/-!
# Frames that are not accepted

The device writes each frame into the next descriptor of the receive ring, as long as it is not the
one at the tail. `e1000_receive_packet` gives a descriptor back, and goes on to the next, only when
it returns a packet: a frame for which it does not stays where it is, and is found again by every
call. This is so for a frame that is too long for the buffers, and for one of length zero or of more
than 1518 bytes, for which `net_alloc_packet` has no packet.

## Main results

* `ReceiveInv.arrive`, `ReceiveInv.accept` — the ring as a queue of frames
* `ReceiveInv.callRight_iff` — which frames a call deals with
* `e1000_receive_run` — what is returned in a run without others

## Conventions

The device is modelled by what it does to the ring: a frame that arrives is written to the
descriptor at its head, as long as this is not the one at the tail, with the status that says that
it is complete. A frame for which there is no descriptor is lost in the device and is no event.
Frames are lists of bytes of any length that a descriptor can say.

A run begins with a set-up that has succeeded, and has arrivals and calls in any order. Each call is
given the allocator as it is then. What was found is the list of the frames that calls have come to,
and what was returned those that were handed up in a packet; a frame that stays in the ring is found
again. That there is memory is a condition on the call, since a frame for which there is none is
lost as well.
-/

namespace Rexus

open Bytes Run Loop Pmm

/-! ### The device -/

/-- The driver, the registers `RDH` and `RDT`, the frames that the device has written, those that
calls have found, and those that they have returned. -/
structure Reception where
  stack : DriverStack
  head : ℕ
  tail : ℕ
  arrived : List (List UInt8)
  found : List (List UInt8)
  returned : List (List UInt8)

/-- What can happen: a frame arrives, or there is a call, with the allocator as it then is. -/
inductive ReceptionOp where
  | arrive (frame : List UInt8)
  | receive (pmm : Pmm) (junk : NetPacket)

/-- A frame that is to be returned. -/
def Fits (frame : List UInt8) : Prop := 1 ≤ frame.length ∧ frame.length ≤ 1518

instance (frame : List UInt8) : Decidable (Fits frame) := inferInstanceAs (Decidable (_ ∧ _))

/-- There is a block for the structure of a packet, and one for its data. -/
def MemoryAvailable (pmm : Pmm) : Prop :=
  (pmmAllocBlock pmm).1 ≠ 0 ∧ (pmmAllocBlocks (pmmAllocBlock pmm).2 1).1 ≠ 0

instance (pmm : Pmm) : Decidable (MemoryAvailable pmm) := inferInstanceAs (Decidable (_ ∧ _))

namespace Reception

/-- The device structure of an interface. -/
def device (t : Reception) (p : ℕ) : E1000Device := t.stack.memory.device (t.stack.e1000Dev p)

/-- The descriptor at an index of the ring. -/
def desc (t : Reception) (p i : ℕ) : E1000RxDesc :=
  t.stack.memory.rxDesc (t.device p).rxDescs i

/-- `rx_cur`. -/
def cur (t : Reception) (p : ℕ) : ℕ := (t.device p).rxCur.toNat

/-- The frame in a descriptor. -/
def frame (t : Reception) (p i : ℕ) : List UInt8 :=
  slice (t.stack.memory.buffer (t.desc p i).addr) 0 (t.desc p i).length.toNat

/-- The frame that a call finds, if the descriptor at `rx_cur` is done. -/
def next (t : Reception) (p : ℕ) : Option (List UInt8) :=
  if (t.desc p (t.cur p)).status &&& 0x01 = 0 then none else some (t.frame p (t.cur p))

/-- The device writes a frame to the descriptor at `RDH`, and goes on. -/
def arrive (t : Reception) (p : ℕ) (frame : List UInt8) : Reception :=
  let desc := t.desc p t.head
  let bytes := blit (t.stack.memory.buffer desc.addr) 0 (fun k => frame.getD k 0) 0 frame.length
  let desc' := { desc with length := UInt16.ofNat frame.length, status := 0x01 ||| 0x02 }
  let memory :=
    (t.stack.memory.setBuffer desc.addr bytes).setRxDesc (t.device p).rxDescs t.head desc'
  { t with
    stack := { t.stack with memory }
    head := (t.head + 1) % 32
    arrived := t.arrived ++ [frame] }

/-- A call. It writes `RDT` when it returns a packet. -/
def receive (t : Reception) (p : ℕ) (pmm : Pmm) (junk : NetPacket) : Reception :=
  match e1000ReceivePacket (t.stack.setMemory pmm t.stack.memory) junk p with
  | (none, stack) => { t with stack, found := t.found ++ (t.next p).toList }
  | (some packet, stack) =>
    { t with
      stack
      tail := t.cur p
      found := t.found ++ (t.next p).toList
      returned := t.returned ++ [slice packet.bytes 0 packet.length] }

/-- One event. The device does not write to the descriptor at `RDT`. -/
def step (t : Reception) (p : ℕ) : ReceptionOp → Option Reception
  | .arrive frame =>
    if t.head = t.tail ∨ 2 ^ 16 ≤ frame.length then none else some (t.arrive p frame)
  | .receive pmm junk => some (t.receive p pmm junk)

/-- After `e1000_init`. -/
def start (s : DriverStack) : Reception := ⟨s, 0, 31, [], [], []⟩

/-- A step at an interface with memory available, and a call only if the frame it finds fits. -/
def FittingStep (p : ℕ) (t : Reception) (op : ReceptionOp) (u : Reception) : Prop :=
  t.step p op = some u ∧ ∀ pmm junk, op = .receive pmm junk →
    MemoryAvailable pmm ∧ ∀ frame, t.next p = some frame → Fits frame

/-- Every frame is found once, in order, and those that fit are returned. -/
structure Right (t : Reception) (p : ℕ) : Prop where
  found : t.found <+: t.arrived
  returned : t.returned = t.found.filter Fits
  all : t.next p = none → t.found = t.arrived

/-- A call that finds a frame gives its descriptor back, and goes on to the next. -/
def CallRight (t : Reception) (p : ℕ) (pmm : Pmm) (junk : NetPacket) : Prop :=
  t.next p ≠ none →
    ((t.receive p pmm junk).desc p (t.cur p)).status &&& 0x01 = 0 ∧
      (t.receive p pmm junk).tail = t.cur p ∧
      (t.receive p pmm junk).cur p = (t.cur p + 1) % 32

end Reception

/-! ### A call -/

theorem netAllocPacket_fits {pmm : Pmm} (h : MemoryAvailable pmm) (junk : NetPacket) {size : ℕ}
    (hpos : 1 ≤ size) (hle : size ≤ 1518) :
    ∃ packet pmm', netAllocPacket pmm junk size = (some packet, pmm') ∧ packet.length = size := by
  have hone : (size + 4095) / 4096 = 1 := by omega
  rw [netAllocPacket, if_neg (Nat.not_lt.mpr hle), hone]
  dsimp only
  rw [if_neg h.1, if_neg h.2]
  exact ⟨_, _, rfl, rfl⟩

/-- Nothing is allocated for no bytes. -/
theorem netAllocPacket_zero (pmm : Pmm) (junk : NetPacket) :
    ∃ pmm', netAllocPacket pmm junk 0 = (none, pmm') := by
  have hnone : ∀ pmm, (pmmAllocBlocks pmm 0).1 = 0 := fun pmm => by
    rcases pmmAllocBlocks_cases pmm 0 with ⟨heq, -⟩ | ⟨b, -, hpos, -⟩
    · rw [heq]
    · exact absurd hpos (Nat.lt_irrefl 0)
  rw [netAllocPacket, if_neg (Nat.not_lt_zero _)]
  dsimp only
  split_ifs with haddr hdata
  · exact ⟨_, rfl⟩
  · exact ⟨_, rfl⟩
  · exact absurd (hnone _) hdata

/-- Nor for a frame that is too long. -/
theorem netAllocPacket_not_fits (pmm : Pmm) (junk : NetPacket) {size : ℕ}
    (h : ¬(1 ≤ size ∧ size ≤ 1518)) : ∃ pmm', netAllocPacket pmm junk size = (none, pmm') := by
  rcases Nat.eq_zero_or_pos size with rfl | hpos
  · exact netAllocPacket_zero pmm junk
  · exact ⟨pmm, if_pos (by omega)⟩

namespace Reception

variable {t u : Reception} {p : ℕ} {pmm : Pmm} {junk : NetPacket} {frame : List UInt8}

@[simp] theorem length_frame (t : Reception) (p i : ℕ) :
    (t.frame p i).length = (t.desc p i).length.toNat := by
  simp [frame]

theorem next_eq_none : t.next p = none ↔ (t.desc p (t.cur p)).status &&& 0x01 = 0 := by
  rw [next]
  split_ifs with h
  · exact iff_of_true rfl h
  · exact iff_of_false nofun h

theorem next_eq_some :
    t.next p = some frame ↔
      (t.desc p (t.cur p)).status &&& 0x01 ≠ 0 ∧ t.frame p (t.cur p) = frame := by
  rw [next]
  split_ifs with h
  · exact iff_of_false (fun hnone => nomatch hnone) fun hsome => hsome.1 h
  · rw [Option.some_inj]
    exact (and_iff_right h).symm

/-- The memory after a call that finds a frame, and returns no packet. -/
def rejectMemory (t : Reception) (p : ℕ) : E1000Memory :=
  t.stack.memory.setDevice (t.stack.e1000Dev p)
    { t.device p with rxErrors := (t.device p).rxErrors + 1 }

/-- And after one that returns it. -/
def acceptMemory (t : Reception) (p : ℕ) : E1000Memory :=
  let d := t.device p
  (t.stack.memory.setRxDesc d.rxDescs (t.cur p) { t.desc p (t.cur p) with status := 0 }).setDevice
    (t.stack.e1000Dev p)
    { d with
      rxPackets := d.rxPackets + 1
      rxBytes := d.rxBytes + (t.desc p (t.cur p)).length.toUInt32
      rxCur := (d.rxCur + 1) % 32 }

/-- What a call does, in these words. -/
theorem e1000ReceivePacket_eq (t : Reception) (p : ℕ) (pmm : Pmm) (junk : NetPacket) :
    e1000ReceivePacket (t.stack.setMemory pmm t.stack.memory) junk p =
      if t.stack.e1000Dev p = 0 ∨ (t.desc p (t.cur p)).status &&& 0x01 = 0 then
        (none, t.stack.setMemory pmm t.stack.memory)
      else if 2048 < (t.desc p (t.cur p)).length then
        (none, t.stack.setMemory pmm (t.rejectMemory p))
      else
        match netAllocPacket pmm junk (t.desc p (t.cur p)).length.toNat with
        | (none, pmm) => (none, t.stack.setMemory pmm (t.rejectMemory p))
        | (some packet, pmm) =>
          (some { packet with
            bytes := blit packet.bytes 0 (t.stack.memory.buffer (t.desc p (t.cur p)).addr) 0
              (t.desc p (t.cur p)).length.toNat },
            t.stack.setMemory pmm (t.acceptMemory p)) :=
  rfl

/-- A call that finds no frame changes nothing but the allocator. -/
theorem receive_none (h : t.next p = none) :
    t.receive p pmm junk = { t with stack := t.stack.setMemory pmm t.stack.memory } := by
  rw [receive, e1000ReceivePacket_eq, if_pos (Or.inr (next_eq_none.mp h)), h]
  dsimp only
  rw [Option.toList_none, List.append_nil]

/-- A call that finds a frame that does not fit stays where it is. -/
theorem receive_not_fits (hdev : t.stack.e1000Dev p ≠ 0) (h : t.next p = some frame)
    (hfits : ¬Fits frame) : (t.receive p pmm junk).cur p = t.cur p := by
  obtain ⟨hdone, rfl⟩ := next_eq_some.mp h
  rw [Fits, length_frame] at hfits
  have hcall : ∃ pmm', e1000ReceivePacket (t.stack.setMemory pmm t.stack.memory) junk p =
      (none, t.stack.setMemory pmm' (t.rejectMemory p)) := by
    obtain ⟨pmm', hnone⟩ := netAllocPacket_not_fits pmm junk hfits
    rw [e1000ReceivePacket_eq, if_neg (not_or.mpr ⟨hdev, hdone⟩), hnone]
    split_ifs with hlong
    · exact ⟨pmm, rfl⟩
    · exact ⟨pmm', rfl⟩
  obtain ⟨pmm', hcall⟩ := hcall
  rw [receive, hcall]
  show ((t.rejectMemory p).device (t.stack.e1000Dev p)).rxCur.toNat = t.cur p
  rw [rejectMemory, E1000Memory.setDevice_device]
  rfl

/-- The state after a call that returns a frame. -/
def accept (t : Reception) (p : ℕ) (pmm : Pmm) (frame : List UInt8) : Reception :=
  { t with
    stack := t.stack.setMemory pmm (t.acceptMemory p)
    tail := t.cur p
    found := t.found ++ [frame]
    returned := t.returned ++ [frame] }

/-- One that fits is returned, if there is memory. -/
theorem receive_fits (junk : NetPacket) (hdev : t.stack.e1000Dev p ≠ 0)
    (hmemory : MemoryAvailable pmm) (h : t.next p = some frame) (hfits : Fits frame) :
    ∃ pmm', t.receive p pmm junk = t.accept p pmm' frame := by
  obtain ⟨hdone, hframe⟩ := next_eq_some.mp h
  have hlen : (t.desc p (t.cur p)).length.toNat = frame.length := by rw [← hframe, length_frame]
  obtain ⟨packet, pmm', hpacket, hlength⟩ := netAllocPacket_fits hmemory junk hfits.1 hfits.2
  have hshort : ¬2048 < (t.desc p (t.cur p)).length := by
    rw [UInt16.lt_iff_toNat_lt, hlen]
    exact Nat.not_lt.mpr (hfits.2.trans (by decide))
  rw [← hlen] at hpacket hlength
  refine ⟨pmm', ?_⟩
  rw [receive, e1000ReceivePacket_eq, if_neg (not_or.mpr ⟨hdev, hdone⟩), if_neg hshort, hpacket, h]
  dsimp only
  rw [Option.toList_some, hlength, slice_blit, show slice _ 0 _ = frame from hframe, accept]

/-! ### What the two change of the ring -/

theorem accept_device (t : Reception) (p : ℕ) (pmm : Pmm) (frame : List UInt8) :
    (t.accept p pmm frame).device p = { t.device p with
      rxPackets := (t.device p).rxPackets + 1
      rxBytes := (t.device p).rxBytes + (t.desc p (t.cur p)).length.toUInt32
      rxCur := ((t.device p).rxCur + 1) % 32 } :=
  E1000Memory.setDevice_device ..

theorem accept_cur (hcur : t.cur p < 32) (pmm : Pmm) (frame : List UInt8) :
    (t.accept p pmm frame).cur p = (t.cur p + 1) % 32 := by
  have hnext : ((t.device p).rxCur + 1).toNat = t.cur p + 1 := by
    rw [UInt32.toNat_add]
    exact Nat.mod_eq_of_lt (Nat.lt_of_le_of_lt hcur (by decide))
  rw [cur, accept_device, UInt32.toNat_mod, hnext]
  rfl

theorem accept_desc (t : Reception) (p : ℕ) (pmm : Pmm) (frame : List UInt8) (i : ℕ) :
    (t.accept p pmm frame).desc p i =
      if i = t.cur p then { t.desc p (t.cur p) with status := 0 } else t.desc p i := by
  rw [desc, accept_device]
  show (t.acceptMemory p).rxDesc (t.device p).rxDescs i = _
  rw [acceptMemory, E1000Memory.setDevice_rxDesc, E1000Memory.setRxDesc_rxDesc,
    Function.update_apply]
  rfl

theorem accept_frame {i : ℕ} (hi : i ≠ t.cur p) (pmm : Pmm) (frame : List UInt8) :
    (t.accept p pmm frame).frame p i = t.frame p i := by
  rw [Reception.frame, accept_desc, if_neg hi]
  rfl

theorem arrive_desc (t : Reception) (p : ℕ) (frame : List UInt8) (i : ℕ) :
    (t.arrive p frame).desc p i =
      if i = t.head then
        { t.desc p t.head with length := UInt16.ofNat frame.length, status := 0x01 ||| 0x02 }
      else t.desc p i := by
  show (E1000Memory.setRxDesc _ (t.device p).rxDescs t.head _).rxDesc (t.device p).rxDescs i = _
  rw [E1000Memory.setRxDesc_rxDesc, Function.update_apply]
  rfl

theorem arrive_addr (t : Reception) (p : ℕ) (frame : List UInt8) (i : ℕ) :
    ((t.arrive p frame).desc p i).addr = (t.desc p i).addr := by
  rw [arrive_desc]
  split_ifs with hi
  · rw [hi]
  · rfl

/-- The frame is in the buffer. -/
theorem arrive_frame_self (hlen : frame.length < 2 ^ 16) (p : ℕ) :
    (t.arrive p frame).frame p t.head = frame := by
  have hbuffer : (t.arrive p frame).stack.memory.buffer (t.desc p t.head).addr =
      blit (t.stack.memory.buffer (t.desc p t.head).addr) 0 (fun k => frame.getD k 0) 0
        frame.length := Function.update_self ..
  rw [Reception.frame, arrive_desc, if_pos rfl, hbuffer]
  dsimp only
  rw [UInt16.toNat_ofNat_of_lt' hlen, slice_blit, slice_getD]

/-- The other frames are where they were. -/
theorem arrive_frame_of_ne {i : ℕ} (hi : i ≠ t.head)
    (haddr : (t.desc p i).addr ≠ (t.desc p t.head).addr) (frame : List UInt8) :
    (t.arrive p frame).frame p i = t.frame p i := by
  have hbuffer : (t.arrive p frame).stack.memory.buffer (t.desc p i).addr =
      t.stack.memory.buffer (t.desc p i).addr := Function.update_of_ne haddr ..
  rw [Reception.frame, arrive_desc, if_neg hi, hbuffer, Reception.frame]

end Reception

/-! ### The ring as a queue -/

/-- From `rx_cur` on the ring holds the frames that have not been found, and the descriptors behind
them are the device's. -/
structure ReceiveInv (t : Reception) (p : ℕ) (pending : List (List UInt8)) : Prop where
  dev : t.stack.e1000Dev p ≠ 0
  cur_lt : t.cur p < 32
  pending_lt : pending.length < 32
  head : t.head = (t.cur p + pending.length) % 32
  tail : t.tail = (t.cur p + 31) % 32
  distinct : ∀ i < 32, ∀ j < 32, (t.desc p i).addr = (t.desc p j).addr → i = j
  done : ∀ k frame, pending[k]? = some frame →
    (t.desc p ((t.cur p + k) % 32)).status &&& 0x01 ≠ 0 ∧ t.frame p ((t.cur p + k) % 32) = frame
  free : ∀ k, pending.length ≤ k → k < 32 →
    (t.desc p ((t.cur p + k) % 32)).status &&& 0x01 = 0
  arrived : t.arrived = t.found ++ pending
  fits : ∀ frame ∈ t.found, Fits frame
  returned : t.returned = t.found

namespace ReceiveInv

variable {t : Reception} {p : ℕ} {pending : List (List UInt8)} {frame : List UInt8}
  {pmm : Pmm} {junk : NetPacket}

theorem next_nil (h : ReceiveInv t p []) : t.next p = none := by
  have hfree := h.free 0 (Nat.le_refl 0) (by decide)
  rw [Nat.add_zero, Nat.mod_eq_of_lt h.cur_lt] at hfree
  exact Reception.next_eq_none.mpr hfree

theorem next_cons (h : ReceiveInv t p (frame :: pending)) : t.next p = some frame := by
  have hdone := h.done 0 frame rfl
  rw [Nat.add_zero, Nat.mod_eq_of_lt h.cur_lt] at hdone
  exact Reception.next_eq_some.mpr hdone

/-- Between the head and the tail there is a descriptor unless there are thirty-one frames. -/
theorem head_eq_tail (h : ReceiveInv t p pending) : t.head = t.tail ↔ pending.length = 31 := by
  rw [h.head, h.tail]
  exact ⟨RingBuffer.add_mod_inj h.pending_lt (by decide), fun hlen => by rw [hlen]⟩

/-- **A frame that arrives is behind the others.** -/
theorem arrive (h : ReceiveInv t p pending) (hroom : t.head ≠ t.tail)
    (hlen : frame.length < 2 ^ 16) : ReceiveInv (t.arrive p frame) p (pending ++ [frame]) := by
  have hfull : pending.length ≠ 31 := fun hlen => hroom (h.head_eq_tail.mpr hlen)
  have hpending := h.pending_lt
  have hcur : (t.arrive p frame).cur p = t.cur p := rfl
  have hlength : (pending ++ [frame]).length = pending.length + 1 := List.length_append
  have hhead_lt : t.head < 32 := h.head ▸ Nat.mod_lt _ (by decide)
  -- the other positions are other descriptors, with other buffers
  have hne : ∀ k < 32, k ≠ pending.length → (t.cur p + k) % 32 ≠ t.head := fun k hk hkn heq =>
    hkn (RingBuffer.add_mod_inj hk hpending (heq.trans h.head))
  refine
    { dev := h.dev
      cur_lt := h.cur_lt
      pending_lt := by omega
      head := ?_
      tail := h.tail
      distinct := fun i hi j hj hij => ?_
      done := fun k frame' hk => ?_
      free := fun k hle hk => ?_
      arrived := (congrArg (· ++ [frame]) h.arrived).trans (List.append_assoc ..)
      fits := h.fits
      returned := h.returned }
  · show (t.head + 1) % 32 = _
    rw [hcur, h.head, hlength, Nat.mod_add_mod, Nat.add_assoc]
  · rw [Reception.arrive_addr, Reception.arrive_addr] at hij
    exact h.distinct i hi j hj hij
  · rw [hcur]
    rcases Nat.lt_trichotomy k pending.length with hlt | rfl | hgt
    · rw [List.getElem?_append_left hlt] at hk
      have hk32 : k < 32 := hlt.trans hpending
      have hother := hne k hk32 (Nat.ne_of_lt hlt)
      rw [Reception.arrive_desc, if_neg hother, Reception.arrive_frame_of_ne hother fun haddr =>
        hother (h.distinct _ (Nat.mod_lt _ (by decide)) _ hhead_lt haddr)]
      exact h.done k frame' hk
    · rw [List.getElem?_concat_length, Option.some_inj] at hk
      subst hk
      rw [← h.head, Reception.arrive_desc, if_pos rfl, Reception.arrive_frame_self hlen]
      exact ⟨(by decide : (0x01 ||| 0x02 : UInt8) &&& 0x01 ≠ 0), rfl⟩
    · rw [List.getElem?_eq_none (by omega)] at hk
      cases hk
  · rw [hlength] at hle
    rw [hcur, Reception.arrive_desc, if_neg (hne k hk (by omega))]
    exact h.free k (by omega) hk

/-- **A frame that is returned was the first.** -/
theorem accept (h : ReceiveInv t p (frame :: pending)) (hfits : Fits frame) :
    ReceiveInv (t.accept p pmm frame) p pending := by
  have hcur := Reception.accept_cur h.cur_lt pmm frame
  have hcur_lt := h.cur_lt
  have hpending : pending.length + 1 < 32 := h.pending_lt
  have hslot : ∀ k,
      ((t.accept p pmm frame).cur p + k) % 32 = (t.cur p + (k + 1)) % 32 := fun k => by
    rw [hcur, Nat.mod_add_mod, Nat.add_assoc, Nat.add_comm 1 k]
  have hne : ∀ k, k + 1 < 32 → (t.cur p + (k + 1)) % 32 ≠ t.cur p := fun k hk => by omega
  refine
    { dev := h.dev
      cur_lt := hcur ▸ Nat.mod_lt _ (by decide)
      pending_lt := by omega
      head := ?_
      tail := ?_
      distinct := fun i hi j hj hij => ?_
      done := fun k frame' hk => ?_
      free := fun k hle hk => ?_
      arrived := h.arrived.trans (List.append_cons ..)
      fits := fun f hf => ?_
      returned := congrArg (· ++ [frame]) h.returned }
  · rw [hslot]
    exact h.head
  · rw [hslot]
    show t.cur p = _
    omega
  · have haddr : ∀ i, ((t.accept p pmm frame).desc p i).addr = (t.desc p i).addr := fun i => by
      rw [Reception.accept_desc]
      split_ifs with hi
      · rw [hi]
      · rfl
    rw [haddr, haddr] at hij
    exact h.distinct i hi j hj hij
  · have hlt : k < pending.length := (List.getElem?_eq_some_iff.mp hk).1
    have hother := hne k (by omega)
    rw [hslot, Reception.accept_desc, if_neg hother, Reception.accept_frame hother]
    exact h.done (k + 1) frame' hk
  · rw [hslot, Reception.accept_desc]
    split_ifs with hi
    · exact (by decide : (0 : UInt8) &&& 0x01 = 0)
    · have hk31 : k ≠ 31 := fun hk31 => hi (by omega)
      exact h.free (k + 1) (Nat.succ_le_succ hle) (by omega)
  · rcases List.mem_append.mp hf with hf | hf
    · exact h.fits f hf
    · exact List.mem_singleton.mp hf ▸ hfits

/-- **Which frames a call deals with.** -/
theorem callRight_iff (h : ReceiveInv t p pending) (hmemory : MemoryAvailable pmm) :
    t.CallRight p pmm junk ↔ ∀ frame, t.next p = some frame → Fits frame := by
  cases pending with
  | nil => exact iff_of_true (fun hnext => absurd h.next_nil hnext) fun frame hnext =>
      nomatch h.next_nil.symm.trans hnext
  | cons frame pending =>
    have hnext := h.next_cons
    constructor
    · intro hright frame' hframe'
      obtain rfl := Option.some_inj.mp (hnext.symm.trans hframe')
      by_contra hfits
      obtain ⟨-, -, hcur⟩ := hright (by rw [hnext]; exact nofun)
      rw [Reception.receive_not_fits h.dev hnext hfits] at hcur
      have hcur_lt := h.cur_lt
      omega
    · intro hfits _
      obtain ⟨pmm', heq⟩ :=
        Reception.receive_fits junk h.dev hmemory hnext (hfits frame hnext)
      rw [heq, Reception.accept_desc, if_pos rfl]
      exact ⟨(by decide : (0 : UInt8) &&& 0x01 = 0), rfl, Reception.accept_cur h.cur_lt pmm' frame⟩

theorem right (h : ReceiveInv t p pending) : t.Right p where
  found := ⟨pending, h.arrived.symm⟩
  returned := by
    rw [h.returned, List.filter_eq_self.mpr fun f hf => decide_eq_true (h.fits f hf)]
  all hnext := by
    cases pending with
    | nil => exact (h.arrived.trans (List.append_nil _)).symm
    | cons frame pending => exact nomatch h.next_cons.symm.trans hnext

/-- **A step at which the frame fits keeps the ring a queue.** -/
theorem fittingStep (h : ReceiveInv t p pending) {op : ReceptionOp} {u : Reception}
    (hstep : Reception.FittingStep p t op u) : ∃ pending', ReceiveInv u p pending' := by
  obtain ⟨hstep, hop⟩ := hstep
  cases op with
  | arrive frame =>
    rw [Reception.step] at hstep
    split_ifs at hstep with hcan
    obtain ⟨hroom, hlen⟩ := not_or.mp hcan
    obtain rfl := Option.some_inj.mp hstep
    exact ⟨_, h.arrive hroom (Nat.lt_of_not_le hlen)⟩
  | receive pmm junk =>
    obtain ⟨hmemory, hfits⟩ := hop pmm junk rfl
    obtain rfl := Option.some_inj.mp hstep
    cases pending with
    | nil =>
      rw [Reception.receive_none h.next_nil]
      exact ⟨[], { h with }⟩
    | cons frame pending =>
      have hnext := h.next_cons
      obtain ⟨pmm', heq⟩ :=
        Reception.receive_fits junk h.dev hmemory hnext (hfits frame hnext)
      rw [heq]
      exact ⟨pending, h.accept (hfits frame hnext)⟩

end ReceiveInv

/-- After the set-up the ring is empty. -/
theorem e1000Init_receiveInv {s s' : DriverStack} {p mmioBase : ℕ} {ioBase : UInt32}
    {macAddr : Fin 6 → UInt8} (h : e1000Init s p mmioBase ioBase macAddr = (true, s')) :
    ReceiveInv (Reception.start s') p [] := by
  obtain ⟨up, rfl⟩ := e1000Init_setUp h
  obtain ⟨descs, buffers, -, m₁, hrx, -, hm₁⟩ := e1000InitRx_true up.initRx
  obtain ⟨_, _, -, m₂, -, hdevice, hdescs, hm₂⟩ := e1000InitTx_true up.initTx
  have hdev : (Reception.start (up.stack p)).stack.e1000Dev p = up.dev := up.stack_dev p
  have hnew : up.m₁.device up.dev =
      { m₁.device up.dev with rxDescs := descs, rxBuffers := buffers, rxCur := 0 } := by
    rw [hm₁, E1000Memory.setDevice_device]
  have hring : ((Reception.start (up.stack p)).device p).rxDescs = descs ∧
      ((Reception.start (up.stack p)).device p).rxCur = 0 := by
    rw [Reception.device, hdev]
    show (up.m₂.device up.dev).rxDescs = descs ∧ (up.m₂.device up.dev).rxCur = 0
    rw [hm₂, E1000Memory.setDevice_device, hdevice, hnew]
    exact ⟨rfl, rfl⟩
  have hcur : (Reception.start (up.stack p)).cur p = 0 := congrArg UInt32.toNat hring.2
  have hdesc : ∀ i, (Reception.start (up.stack p)).desc p i = m₁.rxDesc descs i := fun i => by
    rw [Reception.desc, hring.1]
    show up.m₂.rxDesc descs i = _
    rw [hm₂, E1000Memory.setDevice_rxDesc, hdescs, hm₁, E1000Memory.setDevice_rxDesc]
  refine
    { dev := hdev ▸ up.dev_ne_zero
      cur_lt := hcur ▸ by decide
      pending_lt := by decide
      head := ?_
      tail := ?_
      distinct := fun i hi j hj hij => ?_
      done := fun k frame hk => nomatch hk
      free := fun k _ hk => ?_
      arrived := rfl
      fits := nofun
      returned := rfl }
  · rw [hcur]
    rfl
  · rw [hcur]
    rfl
  · rw [hdesc, hdesc, (hrx i hi).1, (hrx j hj).1] at hij
    omega
  · rw [hdesc, (hrx _ (Nat.mod_lt _ (by decide))).2]
    decide

open Reception

/-- **The frames are returned**: in every run from a set-up in which memory is available and no call
finds a frame that does not fit, every frame is found once, in order, and returned; and the next
call deals with what it finds exactly if this fits. -/
theorem e1000_receive_run {s s' : DriverStack} {p mmioBase : ℕ} {ioBase : UInt32}
    {macAddr : Fin 6 → UInt8} (h : e1000Init s p mmioBase ioBase macAddr = (true, s'))
    {t : Reception} (hreach : Reaches (FittingStep p) (start s') t) :
    t.Right p ∧ ∀ pmm junk, MemoryAvailable pmm →
      (t.CallRight p pmm junk ↔ ∀ frame, t.next p = some frame → Fits frame) := by
  obtain ⟨pending, hinv⟩ : ∃ pending, ReceiveInv t p pending :=
    hreach.invariant (I := fun t => ∃ pending, ReceiveInv t p pending)
      ⟨[], e1000Init_receiveInv h⟩ fun _ _ _ ⟨_, ha⟩ hab => ha.fittingStep hab
  exact ⟨hinv.right, fun _ _ hmemory => hinv.callRight_iff hmemory⟩

/-- The first frame arrives at the interface at `524288`. -/
def frameArrived (frame : List UInt8) : Reception := (start readyDriver).arrive 524288 frame

theorem frameArrived_reaches {frame : List UInt8} (hlen : frame.length < 2 ^ 16) :
    Reaches (FittingStep 524288) (start readyDriver) (frameArrived frame) := by
  have hcan : ¬((start readyDriver).head = (start readyDriver).tail ∨ 2 ^ 16 ≤ frame.length) :=
    not_or.mpr ⟨(by decide : ¬(0 = 31)), Nat.not_le.mpr hlen⟩
  exact (Reaches.refl _).tail (i := .arrive frame) ⟨if_neg hcan, nofun⟩

theorem memoryAvailable_readyDriver : MemoryAvailable readyDriver.table.pmm := by decide +kernel

/-- A frame of one byte arrives, and a call returns it. -/
theorem e1000_receive_run_first :
    let t := (frameArrived [7]).receive 524288 readyDriver.table.pmm (packetOf 1)
    t.found = [[7]] ∧ t.Right 524288 ∧ ∀ pmm junk, MemoryAvailable pmm →
      (t.CallRight 524288 pmm junk ↔ ∀ frame, t.next 524288 = some frame → Fits frame) := by
  have hnext : (frameArrived [7]).next 524288 = some [7] := by decide +kernel
  have hfits : ∀ frame, (frameArrived [7]).next 524288 = some frame → Fits frame := by
    intro frame hframe
    obtain rfl := Option.some_inj.mp (hnext.symm.trans hframe)
    decide
  have harrived : Reaches (FittingStep 524288) (start readyDriver) (frameArrived [7]) :=
    frameArrived_reaches (by decide)
  have hreach := harrived.tail (i := .receive readyDriver.table.pmm (packetOf 1))
    ⟨rfl, fun _ _ heq => by
      obtain ⟨rfl, rfl⟩ := ReceptionOp.receive.inj heq
      exact ⟨memoryAvailable_readyDriver, hfits⟩⟩
  exact ⟨by decide +kernel, e1000_receive_run e1000Init_unusedDriver hreach⟩

/-- A frame of 1519 bytes: the call does not go on to the next descriptor. -/
theorem not_callRight_long :
    e1000Init unusedDriver 524288 1048576 0 (fun _ => 2) = (true, readyDriver) ∧
      Reaches (FittingStep 524288) (start readyDriver) (frameArrived (List.replicate 1519 0)) ∧
      MemoryAvailable readyDriver.table.pmm ∧
      ¬(frameArrived (List.replicate 1519 0)).CallRight 524288 readyDriver.table.pmm
        (packetOf 1) := by
  have hmemory := memoryAvailable_readyDriver
  have hlen : (List.replicate 1519 (0 : UInt8)).length < 2 ^ 16 := by
    rw [List.length_replicate]
    decide
  have hinv := (e1000Init_receiveInv e1000Init_unusedDriver).arrive
    (by decide : ¬(0 = 31)) hlen
  refine ⟨e1000Init_unusedDriver, frameArrived_reaches hlen, hmemory, fun hright => ?_⟩
  have hfits := (hinv.callRight_iff hmemory).mp hright _ hinv.next_cons
  rw [Fits, List.length_replicate] at hfits
  exact absurd hfits.2 (by decide)

end Rexus
