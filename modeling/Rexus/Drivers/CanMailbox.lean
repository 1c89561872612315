import Mathlib.Data.Fintype.Basic
import Mathlib.Tactic.FinCases
import Rexus.Drivers.Can
import Rexus.Lib.BitField

/-!
# The mailbox of the CAN controller

The words that `can_process_tx_interrupt` of `drivers/can.c` writes to the transmit mailbox for a
frame, and the frame that `can_process_rx_interrupt` makes of the words of the receive FIFO. Both
have the identifier in their high bits, 11 or 29 of them, and the flags in the low ones.
`can_send_frame` looks at the length of a frame and not at its identifier, so that what does not
fit in its bits is shifted out.

## Main results

* `canReadMailbox_canFillMailbox` — what is read back of any frame
* `canLoopback_iff` — an accepted frame comes back exactly if its identifier fits

## Conventions

The words are those of the data sheet as the source uses them: an identifier of eleven bits at the
top of its word, or one of twenty-nine with the bit that says so, the flag for a request of data,
and the bit with which the driver asks for the transmission. The data are two words, the low byte
first. The hardware clears the request when it has sent the frame; that in loopback mode it then
receives what it has sent, word by word, is `canLoopback`.

Frames are those that the driver accepts, of at most eight bytes of data. The bytes behind the
length are carried along, since the words have room for all eight.
-/

namespace Rexus

/-- The words of a mailbox: `TIR`, `TDTR`, `TDLR` and `TDHR`, or those of the FIFO. -/
structure CanMailbox where
  ir : BitVec 32
  dtr : BitVec 32
  dlr : BitVec 32
  dhr : BitVec 32

/-- `CAN_TI0R_IDE` and `CAN_RI0R_IDE`. -/
def canIde : BitVec 32 := 4

/-- `CAN_TI0R_RTR` and `CAN_RI0R_RTR`. -/
def canRtr : BitVec 32 := 2

/-- `CAN_TI0R_TXRQ`. -/
def canTxrq : BitVec 32 := 1

/-- `CAN_RDT0R_DLC`. -/
def canDlc : BitVec 32 := 0xF

/-- What `can_process_tx_interrupt` writes for a frame. -/
def canFillMailbox (frame : CanFrame) : CanMailbox :=
  let rir := if frame.extended then frame.id.toBitVec <<< 3 else frame.id.toBitVec <<< 21
  let rir := rir ||| if frame.extended then canIde else 0
  let rir := rir ||| if frame.rtr then canRtr else 0
  { ir := rir ||| canTxrq
    dtr := frame.dlc.toBitVec.setWidth 32
    dlr := BitField.word (frame.data 0).toBitVec (frame.data 1).toBitVec (frame.data 2).toBitVec
      (frame.data 3).toBitVec
    dhr := BitField.word (frame.data 4).toBitVec (frame.data 5).toBitVec (frame.data 6).toBitVec
      (frame.data 7).toBitVec }

/-- The controller clears the request when it has sent the frame, which in loopback mode it then
receives. -/
def canLoopback (mailbox : CanMailbox) : CanMailbox :=
  { mailbox with ir := mailbox.ir &&& ~~~canTxrq }

/-- The frame that `can_process_rx_interrupt` makes of these words. -/
def canReadMailbox (mailbox : CanMailbox) : CanFrame :=
  let rir := mailbox.ir
  let extended := rir &&& canIde != 0
  let rdlr := mailbox.dlr
  let rdhr := mailbox.dhr
  { id := UInt32.ofBitVec (if extended then rir >>> 3 else rir >>> 21)
    extended
    rtr := rir &&& canRtr != 0
    dlc := UInt8.ofBitVec ((mailbox.dtr &&& canDlc).setWidth 8)
    data := fun
      | 0 => UInt8.ofBitVec (rdlr.setWidth 8)
      | 1 => UInt8.ofBitVec ((rdlr >>> 8).setWidth 8)
      | 2 => UInt8.ofBitVec ((rdlr >>> 16).setWidth 8)
      | 3 => UInt8.ofBitVec ((rdlr >>> 24).setWidth 8)
      | 4 => UInt8.ofBitVec (rdhr.setWidth 8)
      | 5 => UInt8.ofBitVec ((rdhr >>> 8).setWidth 8)
      | 6 => UInt8.ofBitVec ((rdhr >>> 16).setWidth 8)
      | 7 => UInt8.ofBitVec ((rdhr >>> 24).setWidth 8) }

/-- The bits of the identifier word below an identifier of this kind. -/
def CanFrame.idShift (frame : CanFrame) : ℕ := if frame.extended then 3 else 21

/-- The identifier fits in the 29 or 11 bits the mailbox has for it. -/
def CanFrame.FitsMailbox (frame : CanFrame) : Prop :=
  if frame.extended then frame.id.toNat < 2 ^ 29 else frame.id.toNat < 2 ^ 11

instance (frame : CanFrame) : Decidable frame.FitsMailbox :=
  inferInstanceAs (Decidable (if frame.extended then _ else _))

/-! ### Reading back -/

section

variable (frame : CanFrame)

/-- The flags, below every identifier. -/
def CanFrame.flagBits : BitVec 32 :=
  (if frame.extended then canIde else 0) ||| if frame.rtr then canRtr else 0

theorem CanFrame.three_le_idShift : 3 ≤ frame.idShift := by
  rw [idShift]
  split_ifs <;> decide

theorem CanFrame.getLsbD_id {i : ℕ} (hi : i < 3) :
    (frame.id.toBitVec <<< frame.idShift).getLsbD i = false := by
  have hlow : i < frame.idShift := Nat.lt_of_lt_of_le hi frame.three_le_idShift
  simp [hlow]

theorem canLoopback_ir : (canLoopback (canFillMailbox frame)).ir =
    frame.id.toBitVec <<< frame.idShift ||| frame.flagBits := by
  have hfill : (canFillMailbox frame).ir =
      (frame.id.toBitVec <<< frame.idShift ||| frame.flagBits) ||| canTxrq := by
    rw [canFillMailbox, CanFrame.idShift, CanFrame.flagBits, ← BitVec.or_assoc]
    cases frame.extended <;> rfl
  have hzero : (frame.id.toBitVec <<< frame.idShift ||| frame.flagBits).getLsbD 0 = false := by
    rw [BitVec.getLsbD_or, frame.getLsbD_id (by decide), CanFrame.flagBits]
    cases frame.extended <;> cases frame.rtr <;> rfl
  rw [canLoopback, hfill, show canTxrq = 1#32 <<< 0 from rfl]
  refine BitVec.eq_of_getLsbD_eq fun i _ => ?_
  rw [BitField.getLsbD_clear (by decide), BitField.getLsbD_set (by decide)]
  by_cases hi : i = 0
  · rw [hi, hzero]
    rfl
  · simp [hi]

theorem canLoopback_ide : ((canLoopback (canFillMailbox frame)).ir &&& canIde != 0) =
    frame.extended := by
  rw [canLoopback_ir, show canIde = 1#32 <<< 2 from rfl, BitField.and_bit_bne_zero (by decide),
    BitVec.getLsbD_or, frame.getLsbD_id (by decide), CanFrame.flagBits]
  cases frame.extended <;> cases frame.rtr <;> rfl

theorem canLoopback_rtr : ((canLoopback (canFillMailbox frame)).ir &&& canRtr != 0) =
    frame.rtr := by
  rw [canLoopback_ir, show canRtr = 1#32 <<< 1 from rfl, BitField.and_bit_bne_zero (by decide),
    BitVec.getLsbD_or, frame.getLsbD_id (by decide), CanFrame.flagBits]
  cases frame.extended <;> cases frame.rtr <;> rfl

theorem CanFrame.flagBits_ushiftRight : frame.flagBits >>> frame.idShift = 0#32 := by
  rw [flagBits, idShift]
  cases frame.extended <;> cases frame.rtr <;> rfl

/-- What is read back of a frame: an identifier without what has been shifted out. -/
theorem canReadMailbox_canFillMailbox (hdlc : frame.dlc ≤ 8) :
    canReadMailbox (canLoopback (canFillMailbox frame)) =
      { frame with
        id := UInt32.ofBitVec ((frame.id.toBitVec <<< frame.idShift) >>> frame.idShift) } := by
  have hlength : (frame.dlc.toBitVec.setWidth 32 &&& canDlc).setWidth 8 = frame.dlc.toBitVec := by
    have hle : frame.dlc.toNat ≤ 8 := hdlc
    refine BitVec.eq_of_toNat_eq ?_
    rw [BitVec.toNat_setWidth, BitVec.toNat_and, BitVec.toNat_setWidth, UInt8.toNat_toBitVec,
      show canDlc.toNat = 2 ^ 4 - 1 from rfl, Nat.and_two_pow_sub_one_eq_mod]
    omega
  have hid : (if (canLoopback (canFillMailbox frame)).ir &&& canIde != 0 then
      (canLoopback (canFillMailbox frame)).ir >>> 3
      else (canLoopback (canFillMailbox frame)).ir >>> 21) =
      (frame.id.toBitVec <<< frame.idShift) >>> frame.idShift := by
    have hshift : (canLoopback (canFillMailbox frame)).ir >>> frame.idShift =
        (frame.id.toBitVec <<< frame.idShift) >>> frame.idShift := by
      rw [canLoopback_ir, BitField.ushiftRight_or_low frame.flagBits_ushiftRight]
    rw [← hshift, canLoopback_ide, CanFrame.idShift]
    cases frame.extended <;> rfl
  obtain ⟨h0, h1, h2, h3⟩ := BitField.byte_word (frame.data 0).toBitVec (frame.data 1).toBitVec
    (frame.data 2).toBitVec (frame.data 3).toBitVec
  obtain ⟨h4, h5, h6, h7⟩ := BitField.byte_word (frame.data 4).toBitVec (frame.data 5).toBitVec
    (frame.data 6).toBitVec (frame.data 7).toBitVec
  refine (CanFrame.mk.injEq ..).mpr ⟨congrArg UInt32.ofBitVec hid, canLoopback_ide frame,
    canLoopback_rtr frame, congrArg UInt8.ofBitVec hlength, funext fun k => ?_⟩
  fin_cases k
  · exact congrArg UInt8.ofBitVec h0
  · exact congrArg UInt8.ofBitVec h1
  · exact congrArg UInt8.ofBitVec h2
  · exact congrArg UInt8.ofBitVec h3
  · exact congrArg UInt8.ofBitVec h4
  · exact congrArg UInt8.ofBitVec h5
  · exact congrArg UInt8.ofBitVec h6
  · exact congrArg UInt8.ofBitVec h7

theorem CanFrame.fitsMailbox_iff :
    frame.FitsMailbox ↔ frame.id.toNat < 2 ^ (32 - frame.idShift) := by
  rw [FitsMailbox, idShift]
  cases frame.extended <;> rfl

end

/-- What `can_send_frame` looks at. -/
theorem dlc_le_of_canSendFrame {flags : List Bool} {c : Can} {frame : CanFrame}
    (h : (canSendFrame flags c frame).1 = true) : frame.dlc ≤ 8 := by
  by_contra hdlc
  rw [canSendFrame, if_pos (UInt8.not_le.mp hdlc)] at h
  cases h

/-- **A frame that is accepted** comes back from the mailbox in loopback mode exactly if its
identifier fits. -/
theorem canLoopback_iff {flags : List Bool} {c : Can} {frame : CanFrame}
    (h : (canSendFrame flags c frame).1 = true) :
    canReadMailbox (canLoopback (canFillMailbox frame)) = frame ↔ frame.FitsMailbox := by
  rw [canReadMailbox_canFillMailbox frame (dlc_le_of_canSendFrame h), frame.fitsMailbox_iff,
    ← UInt32.toNat_toBitVec,
    ← BitField.shiftLeft_ushiftRight_eq_iff (by rw [CanFrame.idShift]; split_ifs <;> decide)]
  constructor
  · intro heq
    exact congrArg (fun f => f.id.toBitVec) heq
  · intro hid
    rw [hid]

/-- A standard frame with the highest identifier there is. -/
theorem canLoopback_iff_highest :
    canReadMailbox (canLoopback (canFillMailbox { zeroCanFrame with id := 0x7FF })) =
      { zeroCanFrame with id := 0x7FF } :=
  (canLoopback_iff (show (canSendFrame [] canInit { zeroCanFrame with id := 0x7FF }).1 = true by
    decide)).mpr (by decide)

/-- One with an identifier of twelve bits is accepted and comes back as another one. -/
theorem not_canLoopback_twelve : ¬ ∀ flags c frame, (canSendFrame flags c frame).1 = true →
    canReadMailbox (canLoopback (canFillMailbox frame)) = frame := by
  intro hall
  have heq := hall [] canInit { zeroCanFrame with id := 0x800 } (by decide)
  exact absurd (congrArg CanFrame.id heq) (by decide)

end Rexus
