import Rexus.Net.Fragment

/-!
# The e1000 driver

`drivers/e1000.c`. The device structure is in a block of the allocator, and an interface points to
it; each of the two rings has its descriptors in one run of blocks and their buffers in another.
The registers are the hardware's: what the EEPROM holds is an argument of the set-up, and a frame
has arrived when its descriptor says so.

## What a proof uses

* `e1000Init_true` — what a set-up that succeeds has done

## Conventions

Memory is known by what it is taken for: a device structure, an array of descriptors or a buffer,
each a map from addresses, with no relation between them but that the allocator gives them out
apart. The descriptors that the driver writes are words of the structure as the hardware has it, of
which the fields are kept that the driver uses. A ring has 32 descriptors, and a buffer 2048 bytes.

Writes to the registers are left out where nobody reads them back; `RDT`, by which the driver gives
a descriptor back, is kept by the runs that need it. A call that waits for the hardware has no
result, `none`. The packets are those of `Rexus.Net.Packet`, and the interface is one of the list of
`Rexus.Net.Interface`.
-/

namespace Rexus

open Bytes Loop Pmm

/-! ### The data -/

/-- `e1000_device_t`, but for its first member, which the driver leaves zero. -/
structure E1000Device where
  mmioBase : ℕ
  ioBase : UInt32
  macAddr : Fin 6 → UInt8
  rxDescs : ℕ
  rxBuffers : ℕ
  rxCur : UInt32
  txDescs : ℕ
  txBuffers : ℕ
  txCur : UInt32
  rxBytes : UInt32
  txBytes : UInt32
  rxPackets : UInt32
  txPackets : UInt32
  rxErrors : UInt32

/-- `e1000_rx_desc_t`: the fields the driver uses. -/
structure E1000RxDesc where
  addr : ℕ
  length : UInt16
  status : UInt8

/-- `e1000_tx_desc_t`: the fields the driver uses. -/
structure E1000TxDesc where
  addr : ℕ
  length : UInt16
  cmd : UInt8
  status : UInt8

/-- What the memory at an address reads as when it is taken for a device structure, for an array of
descriptors, or for a buffer. -/
structure E1000Memory where
  device : ℕ → E1000Device
  rxDesc : ℕ → ℕ → E1000RxDesc
  txDesc : ℕ → ℕ → E1000TxDesc
  buffer : ℕ → ℕ → UInt8

namespace E1000Memory

/-- The device structure at `dev` is written. -/
def setDevice (m : E1000Memory) (dev : ℕ) (d : E1000Device) : E1000Memory :=
  { m with device := Function.update m.device dev d }

/-- The bytes of a buffer are written. -/
def setBuffer (m : E1000Memory) (addr : ℕ) (bytes : ℕ → UInt8) : E1000Memory :=
  { m with buffer := Function.update m.buffer addr bytes }

/-- A descriptor of the array at `descs` is written. -/
def setRxDesc (m : E1000Memory) (descs i : ℕ) (desc : E1000RxDesc) : E1000Memory :=
  { m with rxDesc := Function.update m.rxDesc descs (Function.update (m.rxDesc descs) i desc) }

/-- A descriptor of the array at `descs` is written. -/
def setTxDesc (m : E1000Memory) (descs i : ℕ) (desc : E1000TxDesc) : E1000Memory :=
  { m with txDesc := Function.update m.txDesc descs (Function.update (m.txDesc descs) i desc) }

section

variable (m : E1000Memory)

@[simp] theorem setDevice_device (dev : ℕ) (d : E1000Device) : (m.setDevice dev d).device dev = d :=
  Function.update_self ..

@[simp] theorem setDevice_rxDesc (dev : ℕ) (d : E1000Device) :
    (m.setDevice dev d).rxDesc = m.rxDesc := rfl

@[simp] theorem setDevice_txDesc (dev : ℕ) (d : E1000Device) :
    (m.setDevice dev d).txDesc = m.txDesc := rfl

@[simp] theorem setRxDesc_rxDesc (descs i : ℕ) (desc : E1000RxDesc) :
    (m.setRxDesc descs i desc).rxDesc descs = Function.update (m.rxDesc descs) i desc :=
  Function.update_self ..

@[simp] theorem setTxDesc_txDesc (descs i : ℕ) (desc : E1000TxDesc) :
    (m.setTxDesc descs i desc).txDesc descs = Function.update (m.txDesc descs) i desc :=
  Function.update_self ..

end

end E1000Memory

/-! ### Set-up -/

/-- `p->driver_data = v`. -/
def NetState.setDriverData (s : NetState) (p v : ℕ) : NetState :=
  { s with iface := Function.update s.iface p { s.iface p with driverData := v } }

/-- The two allocations of a ring: the descriptors, and the buffers. Without memory for the buffers
the descriptors are given back. -/
def e1000AllocRing (pmm : Pmm) : Option (ℕ × ℕ) × Pmm :=
  match pmmAllocBlocks pmm ((16 * 32 + 4095) / 4096) with
  | (descs, pmm) =>
    if descs = 0 then (none, pmm)
    else
      match pmmAllocBlocks pmm ((2048 * 32 + 4095) / 4096) with
      | (buffers, pmm) =>
        if buffers = 0 then (none, pmmFreeBlocks pmm descs ((16 * 32 + 4095) / 4096))
        else (some (descs, buffers), pmm)

/-- `e1000_init_rx`: the answer, the allocator and the memory. Without the memory for the ring the
answer is no, and the structure is as it was. -/
def e1000InitRx (pmm : Pmm) (m : E1000Memory) (dev : ℕ) : Bool × Pmm × E1000Memory :=
  match e1000AllocRing pmm with
  | (none, pmm) => (false, pmm, m)
  | (some (descs, buffers), pmm) =>
    let m := forRange (fun i m => m.setRxDesc descs i
      { m.rxDesc descs i with addr := buffers + i * 2048, status := 0 }) 32 0 m
    (true, pmm, m.setDevice dev
      { m.device dev with rxDescs := descs, rxBuffers := buffers, rxCur := 0 })

/-- `e1000_init_tx`, in the same way. What has been allocated for the receive ring before is not its
business, and stays allocated if it fails. -/
def e1000InitTx (pmm : Pmm) (m : E1000Memory) (dev : ℕ) : Bool × Pmm × E1000Memory :=
  match e1000AllocRing pmm with
  | (none, pmm) => (false, pmm, m)
  | (some (descs, buffers), pmm) =>
    let m := forRange (fun i m => m.setTxDesc descs i
      ⟨buffers + i * 2048, 0, 0x08 ||| 0x01, 0⟩) 32 0 m
    (true, pmm, m.setDevice dev
      { m.device dev with txDescs := descs, txBuffers := buffers, txCur := 0 })

/-- The structure after the `memset` and the two assignments of `e1000_init`, and with the address
that was read from the EEPROM. -/
def newE1000Device (mmioBase : ℕ) (ioBase : UInt32) (macAddr : Fin 6 → UInt8) : E1000Device :=
  ⟨mmioBase, ioBase, macAddr, 0, 0, 0, 0, 0, 0, 0, 0, 0, 0, 0⟩

/-- The stack, the address of each interface, and the memory of the driver. -/
structure DriverStack extends Transmit where
  mac : ℕ → Fin 6 → UInt8
  memory : E1000Memory

namespace DriverStack

/-- The allocator and the memory of the driver are others. -/
def setMemory (s : DriverStack) (pmm : Pmm) (memory : E1000Memory) : DriverStack :=
  { s with toTransmit := s.toTransmit.setPmm pmm, memory }

/-- `p->driver_data = v`. -/
def setDriverData (s : DriverStack) (p v : ℕ) : DriverStack :=
  { s with net := s.net.setDriverData p v }

/-- What every function of the driver takes for its device structure. -/
def e1000Dev (s : DriverStack) (p : ℕ) : ℕ := (s.net.iface p).driverData

end DriverStack

/-- `e1000_init`, of an interface that is there, given the address in the EEPROM. What the receive
ring has been given is lost if the transmit ring fails. -/
def e1000Init (s : DriverStack) (p mmioBase : ℕ) (ioBase : UInt32) (macAddr : Fin 6 → UInt8) :
    Bool × DriverStack :=
  match pmmAllocBlocks s.table.pmm ((144 + 4095) / 4096) with
  | (dev, pmm) =>
    if dev = 0 then (false, s.setMemory pmm s.memory)
    else
      match e1000InitRx pmm (s.memory.setDevice dev (newE1000Device mmioBase ioBase macAddr))
        dev with
      | (false, pmm, m) => (false, s.setMemory (pmmFreeBlocks pmm dev ((144 + 4095) / 4096)) m)
      | (true, pmm, m) =>
        match e1000InitTx pmm m dev with
        | (false, pmm, m) => (false, s.setMemory (pmmFreeBlocks pmm dev ((144 + 4095) / 4096)) m)
        | (true, pmm, m) =>
          (true, { (s.setMemory pmm m).setDriverData p dev with
            mac := Function.update s.mac p (m.device dev).macAddr })

/-! ### Sending and receiving -/

/-- `e1000_send_packet`, of a packet that is there. With a descriptor that the device has not given
back it waits, which is `none`. -/
def e1000SendPacket (s : DriverStack) (p : ℕ) (packet : NetPacket) :
    Option (Bool × DriverStack) :=
  let dev := s.e1000Dev p
  if dev = 0 ∨ 2048 < packet.length then some (false, s)
  else
    let d := s.memory.device dev
    let desc := s.memory.txDesc d.txDescs d.txCur.toNat
    if desc.status = 0 then none
    else
      let m := s.memory.setBuffer desc.addr
        (blit (s.memory.buffer desc.addr) 0 packet.bytes 0 packet.length)
      let m := m.setTxDesc d.txDescs d.txCur.toNat
        { desc with
          length := UInt16.ofNat packet.length
          cmd := 0x01 ||| 0x02 ||| 0x08
          status := 0 }
      let m := m.setDevice dev
        { d with
          txPackets := d.txPackets + 1
          txBytes := d.txBytes + UInt32.ofNat packet.length
          txCur := (d.txCur + 1) % 32 }
      some (true, { s with memory := m })

/-- `e1000_receive_packet`, given what the memory of the packet holds. -/
def e1000ReceivePacket (s : DriverStack) (junk : NetPacket) (p : ℕ) :
    Option NetPacket × DriverStack :=
  let dev := s.e1000Dev p
  let d := s.memory.device dev
  let desc := s.memory.rxDesc d.rxDescs d.rxCur.toNat
  if dev = 0 ∨ desc.status &&& 0x01 = 0 then (none, s)
  else
    let failed := s.memory.setDevice dev { d with rxErrors := d.rxErrors + 1 }
    if 2048 < desc.length then (none, { s with memory := failed })
    else
      match netAllocPacket s.table.pmm junk desc.length.toNat with
      | (none, pmm) => (none, s.setMemory pmm failed)
      | (some packet, pmm) =>
        let m := s.memory.setRxDesc d.rxDescs d.rxCur.toNat { desc with status := 0 }
        let m := m.setDevice dev
          { d with
            rxPackets := d.rxPackets + 1
            rxBytes := d.rxBytes + desc.length.toUInt32
            rxCur := (d.rxCur + 1) % 32 }
        let bytes := blit packet.bytes 0 (s.memory.buffer desc.addr) 0 desc.length.toNat
        (some { packet with bytes }, s.setMemory pmm m)

/-! ### What the set-up does -/

section

variable {pmm pmm' : Pmm} {m m' : E1000Memory} {dev : ℕ}

/-- How the allocation of a ring can end. -/
theorem e1000AllocRing_cases {r : Option (ℕ × ℕ)} (h : e1000AllocRing pmm = (r, pmm')) :
    (pmmAllocBlocks pmm 1 = (0, pmm') ∧ r = none) ∨
      ∃ descs pmm₁, pmmAllocBlocks pmm 1 = (descs, pmm₁) ∧ descs ≠ 0 ∧
        ((∃ pmm₂, pmmAllocBlocks pmm₁ 16 = (0, pmm₂) ∧ r = none ∧
            pmm' = pmmFreeBlocks pmm₂ descs 1) ∨
          ∃ buffers, pmmAllocBlocks pmm₁ 16 = (buffers, pmm') ∧ buffers ≠ 0 ∧
            r = some (descs, buffers)) := by
  obtain ⟨a, pmm₁, h₁⟩ : ∃ a pmm₁, pmmAllocBlocks pmm 1 = (a, pmm₁) := ⟨_, _, rfl⟩
  obtain ⟨b, pmm₂, h₂⟩ : ∃ b pmm₂, pmmAllocBlocks pmm₁ 16 = (b, pmm₂) := ⟨_, _, rfl⟩
  simp only [e1000AllocRing, Nat.reduceMul, Nat.reduceAdd, Nat.reduceDiv, h₁, h₂] at h
  split_ifs at h with ha hb
  · obtain ⟨rfl, rfl⟩ := Prod.mk.inj h
    exact Or.inl ⟨ha ▸ h₁, rfl⟩
  · obtain ⟨rfl, rfl⟩ := Prod.mk.inj h
    exact Or.inr ⟨a, pmm₁, h₁, ha, Or.inl ⟨pmm₂, hb ▸ h₂, rfl, rfl⟩⟩
  · obtain ⟨rfl, rfl⟩ := Prod.mk.inj h
    exact Or.inr ⟨a, pmm₁, h₁, ha, Or.inr ⟨b, h₂, hb, rfl⟩⟩

/-- A ring that is allocated is in two runs of blocks that were free. -/
theorem e1000AllocRing_takes {descs buffers : ℕ}
    (h : e1000AllocRing pmm = (some (descs, buffers), pmm')) :
    descs ≠ 0 ∧ buffers ≠ 0 ∧
      ∃ pmm₁, Takes pmm pmm₁ (Finset.Ico (descs / 4096) (descs / 4096 + 1)) ∧
        Takes pmm₁ pmm' (Finset.Ico (buffers / 4096) (buffers / 4096 + 16)) := by
  obtain ⟨-, hr⟩ | ⟨a, pmm₁, h₁, ha, ⟨_, -, hr, -⟩ | ⟨b, h₂, hb, hr⟩⟩ := e1000AllocRing_cases h
  · cases hr
  · cases hr
  obtain ⟨rfl, rfl⟩ := Prod.mk.inj (Option.some_inj.mp hr)
  exact ⟨ha, hb, pmm₁, (takes_of_pmmAllocBlocks h₁ ha).2.2, (takes_of_pmmAllocBlocks h₂ hb).2.2⟩

/-- The loop of `e1000_init_rx`: the descriptors are clear, and have their buffers. -/
theorem forRange_setRxDesc {m₁ : E1000Memory} {descs buffers n : ℕ}
    (h : forRange (fun i m => E1000Memory.setRxDesc m descs i
      { m.rxDesc descs i with addr := buffers + i * 2048, status := 0 }) n 0 m = m₁) :
    (∀ i < n, (m₁.rxDesc descs i).addr = buffers + i * 2048 ∧ (m₁.rxDesc descs i).status = 0) ∧
      m₁.device = m.device := by
  induction n generalizing m₁ with
  | zero =>
    subst h
    exact ⟨fun i hi => absurd hi (Nat.not_lt_zero i), rfl⟩
  | succ n ih =>
    obtain ⟨hdone, hdevice⟩ := ih rfl
    rw [forRange_succ, Nat.zero_add] at h
    subst h
    refine ⟨fun i hi => ?_, hdevice⟩
    rw [E1000Memory.setRxDesc_rxDesc, Function.update_apply]
    split_ifs with hin
    · exact ⟨by rw [hin], rfl⟩
    · exact hdone i (by omega)

/-- The receive ring of a set-up that succeeds. -/
theorem e1000InitRx_true (h : e1000InitRx pmm m dev = (true, pmm', m')) :
    ∃ descs buffers, e1000AllocRing pmm = (some (descs, buffers), pmm') ∧
      ∃ m₁ : E1000Memory, (∀ i < 32, (m₁.rxDesc descs i).addr = buffers + i * 2048 ∧
          (m₁.rxDesc descs i).status = 0) ∧ m₁.device = m.device ∧
        m' = m₁.setDevice dev
          { m₁.device dev with rxDescs := descs, rxBuffers := buffers, rxCur := 0 } := by
  rw [e1000InitRx] at h
  rcases hring : e1000AllocRing pmm with ⟨_ | ⟨descs, buffers⟩, pmm₁⟩
  · rw [hring] at h
    cases (Prod.mk.inj h).1
  rw [hring] at h
  obtain ⟨-, h⟩ := Prod.mk.inj h
  obtain ⟨rfl, rfl⟩ := Prod.mk.inj h
  obtain ⟨hdone, hdevice⟩ := forRange_setRxDesc (n := 32) rfl
  exact ⟨descs, buffers, rfl, _, hdone, hdevice, rfl⟩

/-- The loop of `e1000_init_tx`: the descriptors are clear. -/
theorem forRange_setTxDesc {m₁ : E1000Memory} {descs buffers n : ℕ}
    (h : forRange (fun i m => E1000Memory.setTxDesc m descs i
      ⟨buffers + i * 2048, 0, 0x08 ||| 0x01, 0⟩) n 0 m = m₁) :
    (∀ i < n, (m₁.txDesc descs i).status = 0) ∧ m₁.device = m.device ∧ m₁.rxDesc = m.rxDesc := by
  induction n generalizing m₁ with
  | zero =>
    subst h
    exact ⟨fun i hi => absurd hi (Nat.not_lt_zero i), rfl, rfl⟩
  | succ n ih =>
    obtain ⟨hdone, hdevice, hrx⟩ := ih rfl
    rw [forRange_succ, Nat.zero_add] at h
    subst h
    refine ⟨fun i hi => ?_, hdevice, hrx⟩
    rw [E1000Memory.setTxDesc_txDesc, Function.update_apply]
    split_ifs
    · rfl
    · exact hdone i (by omega)

/-- The transmit ring: every descriptor is clear. -/
theorem e1000InitTx_true (h : e1000InitTx pmm m dev = (true, pmm', m')) :
    ∃ descs buffers, e1000AllocRing pmm = (some (descs, buffers), pmm') ∧
      ∃ m₁ : E1000Memory, (∀ i < 32, (m₁.txDesc descs i).status = 0) ∧ m₁.device = m.device ∧
        m₁.rxDesc = m.rxDesc ∧ m' = m₁.setDevice dev
          { m₁.device dev with txDescs := descs, txBuffers := buffers, txCur := 0 } := by
  rw [e1000InitTx] at h
  rcases hring : e1000AllocRing pmm with ⟨_ | ⟨descs, buffers⟩, pmm₁⟩
  · rw [hring] at h
    cases (Prod.mk.inj h).1
  rw [hring] at h
  obtain ⟨-, h⟩ := Prod.mk.inj h
  obtain ⟨rfl, rfl⟩ := Prod.mk.inj h
  obtain ⟨hdone, hdevice, hrx⟩ := forRange_setTxDesc (n := 32) rfl
  exact ⟨descs, buffers, rfl, _, hdone, hdevice, hrx, rfl⟩

end

/-- The steps of a set-up that succeeds: the structure, the receive ring and the transmit ring are
allocated one after the other, and none of the allocations is refused. -/
structure E1000SetUp (s : DriverStack) (mmioBase : ℕ) (ioBase : UInt32)
    (macAddr : Fin 6 → UInt8) where
  dev : ℕ
  pmm : Pmm
  pmm₁ : Pmm
  m₁ : E1000Memory
  pmm₂ : Pmm
  m₂ : E1000Memory
  alloc : pmmAllocBlocks s.table.pmm ((144 + 4095) / 4096) = (dev, pmm)
  dev_ne_zero : dev ≠ 0
  initRx : e1000InitRx pmm (s.memory.setDevice dev (newE1000Device mmioBase ioBase macAddr)) dev =
    (true, pmm₁, m₁)
  initTx : e1000InitTx pmm₁ m₁ dev = (true, pmm₂, m₂)

namespace E1000SetUp

variable {s : DriverStack} {mmioBase : ℕ} {ioBase : UInt32} {macAddr : Fin 6 → UInt8}

/-- What they leave. -/
def stack (up : E1000SetUp s mmioBase ioBase macAddr) (p : ℕ) : DriverStack :=
  { (s.setMemory up.pmm₂ up.m₂).setDriverData p up.dev with
    mac := Function.update s.mac p (up.m₂.device up.dev).macAddr }

@[simp] theorem stack_memory (up : E1000SetUp s mmioBase ioBase macAddr) (p : ℕ) :
    (up.stack p).memory = up.m₂ := rfl

@[simp] theorem stack_dev (up : E1000SetUp s mmioBase ioBase macAddr) (p : ℕ) :
    (up.stack p).e1000Dev p = up.dev := by
  show (Function.update s.net.iface p _ p).driverData = up.dev
  rw [Function.update_self]

end E1000SetUp

theorem e1000Init_setUp {s s' : DriverStack} {p mmioBase : ℕ} {ioBase : UInt32}
    {macAddr : Fin 6 → UInt8} (h : e1000Init s p mmioBase ioBase macAddr = (true, s')) :
    ∃ up : E1000SetUp s mmioBase ioBase macAddr, s' = up.stack p := by
  rw [e1000Init] at h
  rcases hdev : pmmAllocBlocks s.table.pmm ((144 + 4095) / 4096) with ⟨dev, pmm⟩
  rw [hdev] at h
  dsimp only at h
  split_ifs at h with h0
  · cases (Prod.mk.inj h).1
  rcases hrx : e1000InitRx pmm (s.memory.setDevice dev (newE1000Device mmioBase ioBase macAddr))
    dev with ⟨_ | _, pmm₁, m₁⟩
  · rw [hrx] at h
    cases (Prod.mk.inj h).1
  rcases htx : e1000InitTx pmm₁ m₁ dev with ⟨_ | _, pmm₂, m₂⟩
  · simp only [hrx, htx] at h
    cases (Prod.mk.inj h).1
  simp only [hrx, htx] at h
  exact ⟨⟨dev, pmm, pmm₁, m₁, pmm₂, m₂, hdev, h0, hrx, htx⟩, (Prod.mk.inj h).2.symm⟩

/-- A set-up that succeeds: the device structure is in a block that is in use, the interface
points to it, and nothing else of the interfaces has changed. -/
theorem e1000Init_true {s s' : DriverStack} {p mmioBase : ℕ} {ioBase : UInt32}
    {macAddr : Fin 6 → UInt8} (h : e1000Init s p mmioBase ioBase macAddr = (true, s')) :
    ∃ dev, dev ≠ 0 ∧ dev / 4096 ∈ s'.table.pmm.usedSet ∧ s'.net = s.net.setDriverData p dev := by
  obtain ⟨up, rfl⟩ := e1000Init_setUp h
  obtain ⟨_, _, hrx, -⟩ := e1000InitRx_true up.initRx
  obtain ⟨_, _, htx, -⟩ := e1000InitTx_true up.initTx
  obtain ⟨-, -, _, hB₁, hB₂⟩ := e1000AllocRing_takes hrx
  obtain ⟨-, -, _, hC₁, hC₂⟩ := e1000AllocRing_takes htx
  refine ⟨up.dev, up.dev_ne_zero, (hC₁.trans hC₂).subset ((hB₁.trans hB₂).subset ?_), rfl⟩
  refine (takes_of_pmmAllocBlocks up.alloc up.dev_ne_zero).2.2.taken_subset ?_
  rw [Finset.mem_Ico]
  omega

end Rexus
