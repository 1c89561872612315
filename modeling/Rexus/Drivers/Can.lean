import Rexus.Lib.RingBuffer

/-!
# The CAN driver

`drivers/can.c`, as it is built for ARM. Frames to send wait in a ring of 32 slots, from which
`can_process_tx_interrupt` moves them to the mailbox while the hardware says that it is empty;
`can_send_frame` calls it at once if it is. Frames that arrive and pass a filter wait in a ring of
64 slots for `can_receive_frame`. What the hardware does is an argument: the values of the flag as
it is read, one after the other, and the frames in the receive FIFO.

## What a proof uses

* `canProcessTxInterrupt_fifo`, `canProcessRxInterrupt_fifo` — what the interrupts do to a ring

## Conventions

A frame is its identifier, two flags, its length and eight bytes, of which those behind the length
are kept as they are. A frame with a length above eight is refused by `can_send_frame`; one that
arrives has the length the hardware says. A filter is a mask and a pattern for identifiers of one
kind, and accepts a frame if the two agree under the mask. There are places for 14 filters, and with
none in use nothing is accepted.

The interrupts and the calls are each one event: an interrupt in the middle of a call, which the
source does not exclude, is not modelled. The callback for frames gets those that are put into the
ring, in that order, and does nothing here. Null pointers are left out. What the driver does when it
is built for another processor is the other branch of the preprocessor and is not in the model.
-/

namespace Rexus

/-- `can_frame_t`. -/
structure CanFrame where
  id : UInt32
  extended : Bool
  rtr : Bool
  dlc : UInt8
  data : Fin 8 → UInt8

/-- `can_filter_t`. -/
structure CanFilter where
  idMask : UInt32
  idFilter : UInt32
  extended : Bool

/-- `can_state`, but for its mode and its callback: the two rings, and the filters with the flags
that say which are used. The registers are in another structure. -/
structure Can where
  rx : RingBuffer 64 CanFrame
  tx : RingBuffer 32 CanFrame
  filters : ℕ → CanFilter
  filterUsed : ℕ → Bool

/-- A frame of zeros. -/
def zeroCanFrame : CanFrame := ⟨0, false, false, 0, fun _ => 0⟩

/-- `can_init`. -/
def canInit : Can where
  rx := RingBuffer.empty (fun _ => zeroCanFrame) (by decide)
  tx := RingBuffer.empty (fun _ => zeroCanFrame) (by decide)
  filters := fun _ => ⟨0, 0, false⟩
  filterUsed := fun _ => false

/-! ### Filters -/

/-- `can_frame_matches_filter`: the identifiers agree in the bits of the mask, and the frame has the
format of the filter. -/
def canFrameMatchesFilter (frame : CanFrame) (filter : CanFilter) : Bool :=
  frame.extended == filter.extended &&
    frame.id &&& filter.idMask == filter.idFilter &&& filter.idMask

/-- `can_add_filter`, but for the registers. -/
def canAddFilter (c : Can) (filter : CanFilter) : Bool × Can :=
  match (List.range 14).find? fun i => !c.filterUsed i with
  | none => (false, c)
  | some i =>
    (true, { c with
      filters := Function.update c.filters i filter
      filterUsed := Function.update c.filterUsed i true })

/-- `can_remove_filter`, but for the registers. -/
def canRemoveFilter (c : Can) (filterNum : UInt8) : Can :=
  if 14 ≤ filterNum.toNat then c
  else { c with filterUsed := Function.update c.filterUsed filterNum.toNat false }

/-! ### Sending -/

/-- `can_process_tx_interrupt`, and the frames it moves to the mailbox. The list holds what
`CAN_TSR_TME0` reads as; behind its end the mailbox is not empty. -/
def canProcessTxInterrupt : List Bool → Can → List CanFrame × Can
  | [], c => ([], c)
  | flag :: flags, c =>
    match c.tx.take with
    | none => ([], c)
    | some (frame, tx) =>
      if flag then
        match canProcessTxInterrupt flags { c with tx } with
        | (sent, c) => (frame :: sent, c)
      else ([], c)

/-- `can_send_frame`, of a frame that is there. -/
def canSendFrame (flags : List Bool) (c : Can) (frame : CanFrame) : Bool × List CanFrame × Can :=
  if 8 < frame.dlc then (false, [], c)
  else
    match c.tx.put frame with
    | none => (false, [], c)
    | some tx =>
      match flags with
      | true :: flags => (true, canProcessTxInterrupt flags { c with tx })
      | _ => (true, [], { c with tx })

/-! ### Receiving -/

/-- Does a filter accept this frame? -/
def canFrameAccepted (c : Can) (frame : CanFrame) : Bool :=
  (List.range 14).any fun i => c.filterUsed i && canFrameMatchesFilter frame (c.filters i)

/-- One turn of `can_process_rx_interrupt`, with the frame if it is put into the ring. It is then
handed to the callback too, if there is one. -/
def canReceiveTurn (c : Can) (frame : CanFrame) : Option CanFrame × Can :=
  if canFrameAccepted c frame then
    match c.rx.put frame with
    | none => (none, c)
    | some rx => (some frame, { c with rx })
  else (none, c)

/-- `can_process_rx_interrupt`, given the frames in the FIFO, and those it puts into the ring. -/
def canProcessRxInterrupt : List CanFrame → Can → List CanFrame × Can
  | [], c => ([], c)
  | frame :: frames, c =>
    match canReceiveTurn c frame with
    | (stored, c) =>
      match canProcessRxInterrupt frames c with
      | (rest, c) => (stored.toList ++ rest, c)

/-- `can_receive_frame`, with room for a frame. -/
def canReceiveFrame (c : Can) : Option CanFrame × Can :=
  match c.rx.take with
  | none => (none, c)
  | some (frame, rx) => (some frame, { c with rx })

/-! ### What happens to the rings -/

section

variable {c : Can} {accepted consumed : List CanFrame}

/-- The frames moved to the mailbox were pending first; the other ring is as it was. -/
theorem canProcessTxInterrupt_fifo (h : c.tx.Fifo accepted consumed) (flags : List Bool) :
    (canProcessTxInterrupt flags c).2.tx.Fifo accepted
        (consumed ++ (canProcessTxInterrupt flags c).1) ∧
      (canProcessTxInterrupt flags c).2.rx = c.rx := by
  induction flags generalizing c consumed with
  | nil => exact ⟨by rwa [canProcessTxInterrupt, List.append_nil], rfl⟩
  | cons flag flags ih =>
    rw [canProcessTxInterrupt]
    cases htake : c.tx.take with
    | none => exact ⟨by rwa [List.append_nil], rfl⟩
    | some p =>
      obtain ⟨frame, tx⟩ := p
      dsimp only
      split_ifs
      · obtain ⟨hfifo, hrx⟩ := ih (c := { c with tx }) (h.take htake)
        rw [List.append_assoc, List.singleton_append] at hfifo
        exact ⟨hfifo, hrx⟩
      · exact ⟨by rwa [List.append_nil], rfl⟩

theorem canSendFrame_fifo (h : c.tx.Fifo accepted consumed) (flags : List Bool) (frame : CanFrame) :
    (canSendFrame flags c frame).2.2.tx.Fifo
        (accepted ++ if (canSendFrame flags c frame).1 then [frame] else [])
        (consumed ++ (canSendFrame flags c frame).2.1) ∧
      (canSendFrame flags c frame).2.2.rx = c.rx := by
  have hrefused : c.tx.Fifo (accepted ++ []) (consumed ++ []) := by
    rwa [List.append_nil, List.append_nil]
  rw [canSendFrame]
  by_cases hdlc : 8 < frame.dlc
  · rw [if_pos hdlc]
    exact ⟨hrefused, rfl⟩
  rw [if_neg hdlc]
  cases hput : c.tx.put frame with
  | none => exact ⟨hrefused, rfl⟩
  | some tx =>
    have hfifo := h.put hput
    dsimp only
    split
    · exact canProcessTxInterrupt_fifo (c := { c with tx }) hfifo _
    · exact ⟨by rwa [List.append_nil], rfl⟩

theorem canReceiveTurn_fifo (h : c.rx.Fifo accepted consumed) (frame : CanFrame) :
    (canReceiveTurn c frame).2.rx.Fifo (accepted ++ (canReceiveTurn c frame).1.toList) consumed ∧
      (canReceiveTurn c frame).2.tx = c.tx := by
  rw [canReceiveTurn]
  split_ifs
  · cases hput : c.rx.put frame with
    | none => exact ⟨by rwa [Option.toList_none, List.append_nil], rfl⟩
    | some rx => exact ⟨h.put hput, rfl⟩
  · exact ⟨by rwa [Option.toList_none, List.append_nil], rfl⟩

/-- The frames put into the ring are pending last; the other ring is as it was. -/
theorem canProcessRxInterrupt_fifo (h : c.rx.Fifo accepted consumed) (frames : List CanFrame) :
    (canProcessRxInterrupt frames c).2.rx.Fifo (accepted ++ (canProcessRxInterrupt frames c).1)
        consumed ∧
      (canProcessRxInterrupt frames c).2.tx = c.tx := by
  induction frames generalizing c accepted with
  | nil => exact ⟨by rwa [canProcessRxInterrupt, List.append_nil], rfl⟩
  | cons frame frames ih =>
    obtain ⟨hturn, htx⟩ := canReceiveTurn_fifo h frame
    obtain ⟨hfifo, hrest⟩ := ih hturn
    rw [canProcessRxInterrupt]
    exact ⟨by rwa [← List.append_assoc], hrest.trans htx⟩

theorem canReceiveFrame_fifo (h : c.rx.Fifo accepted consumed) :
    (canReceiveFrame c).2.rx.Fifo accepted (consumed ++ (canReceiveFrame c).1.toList) ∧
      (canReceiveFrame c).2.tx = c.tx := by
  rw [canReceiveFrame]
  cases htake : c.rx.take with
  | none => exact ⟨by rwa [Option.toList_none, List.append_nil], rfl⟩
  | some p => exact ⟨h.take htake, rfl⟩

end

end Rexus
