import Rexus.Net.DriverData

/-!
# Waiting for the transmit ring

The device gives back a descriptor by setting its status, and `e1000_send_packet` waits until the
status of the next one is set. For a descriptor that has been submitted this is a completion that
the device owes. But `e1000_init_tx` clears the descriptors: the status of one that was never
submitted is zero as well, and nobody sets it. So the first packet waits forever, and with it
everything else.

## Main results

* `e1000InitTx_clear` — the transmit ring after the set-up
* `e1000_send_never_ready` — no reachable state is right

## Conventions

The device owes a completion for each descriptor that it has been given and has not given back, and
completes them in their order, at any time. That a descriptor is ready is its status, one word of
which the device sets a bit and the driver clears it all. A call that waits is no step: it has not
happened yet, and the run goes on with what the device does.

To be right is said of a state: if the next send would wait, then for a completion that the device
owes. The state after every set-up is wrong, with any memory and at any interface, and nothing that
can happen makes it right.
-/

namespace Rexus

open Run Loop

/-- The driver, and the descriptors that the device has not given back, in the order in which they
were submitted. -/
structure Transmission where
  stack : DriverStack
  submitted : List ℕ

/-- What can happen: a call that does not wait, or a completion. The device completes what was
submitted in that order, one descriptor at a time. -/
inductive TransmissionOp where
  | send (packet : NetPacket)
  | complete

namespace Transmission

/-- The descriptor at an index of the ring of an interface. -/
def desc (t : Transmission) (p i : ℕ) : E1000TxDesc :=
  t.stack.memory.txDesc (t.stack.memory.device (t.stack.e1000Dev p)).txDescs i

/-- `tx_cur`. -/
def cur (t : Transmission) (p : ℕ) : ℕ :=
  (t.stack.memory.device (t.stack.e1000Dev p)).txCur.toNat

/-- One event at an interface. A call that waits has not happened yet; the device completes the
first descriptor that it has, by setting a bit of its status. -/
def step (t : Transmission) (p : ℕ) : TransmissionOp → Option Transmission
  | .send packet =>
    match e1000SendPacket t.stack p packet with
    | some (true, stack) => some ⟨stack, t.submitted ++ [t.cur p]⟩
    | some (false, stack) => some ⟨stack, t.submitted⟩
    | none => none
  | .complete =>
    match t.submitted with
    | i :: submitted =>
      let desc := { t.desc p i with status := (t.desc p i).status ||| 0x01 }
      let descs := (t.stack.memory.device (t.stack.e1000Dev p)).txDescs
      some ⟨{ t.stack with memory := t.stack.memory.setTxDesc descs i desc }, submitted⟩
    | [] => none

/-- The step relation at an interface. -/
def Step (p : ℕ) (t : Transmission) (op : TransmissionOp) (u : Transmission) : Prop :=
  t.step p op = some u

/-- A send only waits for a completion that the device owes. -/
def WaitsForDevice (t : Transmission) (p : ℕ) : Prop :=
  t.cur p ∉ t.submitted → (t.desc p (t.cur p)).status ≠ 0

end Transmission

/-! ### The ring after the set-up -/

section

variable {pmm pmm' : Pmm} {m m' : E1000Memory} {dev : ℕ}

/-- The first descriptor is the next. -/
theorem e1000InitTx_clear (h : e1000InitTx pmm m dev = (true, pmm', m')) :
    (m'.device dev).txCur = 0 ∧ ∀ i < 32, (m'.txDesc (m'.device dev).txDescs i).status = 0 := by
  obtain ⟨descs, buffers, -, m₁, hclear, -, -, rfl⟩ := e1000InitTx_true h
  rw [E1000Memory.setDevice_device, E1000Memory.setDevice_txDesc]
  exact ⟨rfl, hclear⟩

/-- The next descriptor of an interface that has just been set up. -/
theorem e1000Init_clear {s s' : DriverStack} {p mmioBase : ℕ} {ioBase : UInt32}
    {macAddr : Fin 6 → UInt8} (h : e1000Init s p mmioBase ioBase macAddr = (true, s')) :
    s'.e1000Dev p ≠ 0 ∧
      (Transmission.desc ⟨s', []⟩ p (Transmission.cur ⟨s', []⟩ p)).status = 0 := by
  obtain ⟨up, rfl⟩ := e1000Init_setUp h
  obtain ⟨hcur, hclear⟩ := e1000InitTx_clear up.initTx
  rw [Transmission.desc, Transmission.cur, up.stack_dev, up.stack_memory, hcur]
  exact ⟨up.dev_ne_zero, hclear 0 (by decide)⟩

end

/-! ### Runs -/

namespace Transmission

variable {t u : Transmission} {p : ℕ}

/-- With the next descriptor clear, a packet that is not too long waits. -/
theorem e1000SendPacket_clear (hdev : t.stack.e1000Dev p ≠ 0)
    (hclear : (t.desc p (t.cur p)).status = 0) (packet : NetPacket) :
    e1000SendPacket t.stack p packet =
      if 2048 < packet.length then some (false, t.stack) else none := by
  rw [desc, cur] at hclear
  rw [e1000SendPacket]
  dsimp only
  rw [if_pos hclear]
  exact if_congr (or_iff_right hdev) rfl rfl

/-- And if none is submitted, nothing can change. -/
theorem step_clear (hdev : t.stack.e1000Dev p ≠ 0) (hclear : (t.desc p (t.cur p)).status = 0)
    (hnone : t.submitted = []) {op : TransmissionOp} (h : Step p t op u) : u = t := by
  rw [Step] at h
  cases op with
  | send packet =>
    rw [step, e1000SendPacket_clear hdev hclear] at h
    split_ifs at h
    exact (Option.some_inj.mp h).symm
  | complete =>
    rw [step, hnone] at h
    cases h

end Transmission

open Transmission

/-- **No reachable state is right**: after every set-up that succeeds, whatever is sent, the next
descriptor is not submitted and its status is zero. -/
theorem e1000_send_never_ready {s s' : DriverStack} {p mmioBase : ℕ} {ioBase : UInt32}
    {macAddr : Fin 6 → UInt8} (h : e1000Init s p mmioBase ioBase macAddr = (true, s'))
    {t : Transmission} (hreach : Reaches (Transmission.Step p) ⟨s', []⟩ t) :
    ¬t.WaitsForDevice p := by
  obtain ⟨hdev, hclear⟩ := e1000Init_clear h
  have ht : t = ⟨s', []⟩ := hreach.invariant (I := (· = ⟨s', []⟩)) rfl fun a op b ha hab => by
    subst ha
    exact step_clear hdev hclear rfl hab
  subst ht
  exact fun hwaits => hwaits List.not_mem_nil hclear

/-- The device of the interface at `524288`, in the block at `4096`. -/
theorem e1000_send_never_ready_first : ¬WaitsForDevice ⟨readyDriver, []⟩ 524288 :=
  e1000_send_never_ready e1000Init_unusedDriver (Reaches.refl _)

/-- The first packet, of one byte, waits forever: nothing has been submitted. -/
theorem not_waitsForDevice_first :
    e1000Init unusedDriver 524288 1048576 0 (fun _ => 2) = (true, readyDriver) ∧
      cur ⟨readyDriver, []⟩ 524288 = 0 ∧ (desc ⟨readyDriver, []⟩ 524288 0).status = 0 ∧
      e1000SendPacket readyDriver 524288 (packetOf 1) = none ∧
      ¬WaitsForDevice ⟨readyDriver, []⟩ 524288 := by
  have hcur : cur ⟨readyDriver, []⟩ 524288 = 0 := by decide +kernel
  have hsend : (e1000SendPacket readyDriver 524288 (packetOf 1)).isNone = true := by decide +kernel
  obtain ⟨-, hclear⟩ := e1000Init_clear e1000Init_unusedDriver
  refine ⟨e1000Init_unusedDriver, hcur, hcur ▸ hclear, Option.isNone_iff_eq_none.mp hsend,
    fun hwaits => hwaits List.not_mem_nil hclear⟩

end Rexus
