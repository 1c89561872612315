import Rexus.Drivers.E1000
import Rexus.Net.Ipv4Receive

/-!
# What an interface points to

`iface->driver_data` is the device structure to `net/ethernet.c` and to the drivers, and the
configuration to `ipv4_configure_interface` and `ipv4_get_interface_config` of `net/ipv4.c`. A run
begins when a driver has been set up on an interface. At each call the routes, the allocator and the
memory of the devices are what the rest of the kernel and the hardware have made of them, but
nobody frees the device structure or what the interface points to.

## Main results

* `StackCall.sameDrivers` — only `ipv4_configure_interface` changes what an interface points to
* `driverData_run` — after every run, which of the two users of the pointer finds its own

## Conventions

The pointer `driver_data` is a number, and what it points to is read from one memory in two ways, as
a device structure and as a configuration: neither function knows which of them was stored.
Addresses of the two are different, since both are blocks that are allocated and not freed; that
nobody frees them is the hypothesis `Live` of each step.

A run starts when a driver has been set up on the interface and makes any calls of the stack or of
the driver; of a call that does not return there is no step. The calls are given the routes, the
allocator and the slots of reassembly as they are at that time, because other parts of the kernel
change them in between.
-/

namespace Rexus

open Pmm Run

/-! ### The functions -/

/-- `eth_ops_t`: which of the operations that the stack asks for are there. The stack tests each
pointer before it calls through it, and that test is all that is modelled of it. -/
structure EthOps where
  hasInit : Bool
  hasSend : Bool
  hasReceive : Bool

/-- `eth_init_device`, given what the `init` of the device returns. -/
def ethInitDevice (s : DriverStack) (p dev : ℕ) (ops : EthOps) (init : Bool) :
    Bool × DriverStack :=
  if p = 0 ∨ dev = 0 then (false, s)
  else
    let k := { s.net.iface p with
      hasInit := ops.hasInit
      hasSend := ops.hasSend
      hasReceive := ops.hasReceive
      mtu := 1500
      driverData := dev }
    (init, { s with net := { s.net with iface := Function.update s.net.iface p k } })

/-- `ipv4_configure_interface`; `none` is a null pointer. -/
def ipv4ConfigureInterface (s : DriverStack) (p : ℕ) (config : Option Ipv4Config) :
    Bool × DriverStack :=
  match config with
  | none => (false, s)
  | some config =>
    if p = 0 then (false, s)
    else
      match pmmAllocBlocks s.table.pmm ((24 + 4095) / 4096) with
      | (ifaceConfig, pmm) =>
        let s := s.setMemory pmm s.memory
        if ifaceConfig = 0 then (false, s)
        else
          let net := { s.net with configAt := Function.update s.net.configAt ifaceConfig config }
          (true, { s with net }.setDriverData p ifaceConfig)

/-! ### The calls -/

/-- The driver, the routes, and the datagrams that are being collected: whatever a call of the
network layer or of the driver may change. -/
structure NetStack extends DriverStack where
  slots : ℕ → ReassemblySlot

/-- A call of the stack or of the driver, with the answers of the drivers and the contents of new
memory. -/
inductive StackCall where
  | configure (p : ℕ) (config : Option Ipv4Config)
  | getConfig (p : ℕ)
  | addRoute (network netmask gateway : Option Ipv4Addr) (iface : ℕ) (metric : UInt32)
  | removeRoute (network netmask : Option Ipv4Addr)
  | findRoute (destAddr : Ipv4Addr)
  | flushRoutes
  | send (driver : Driver) (junk : ℕ → NetPacket) (packet : NetPacket) (destAddr : Ipv4Addr)
      (protocol ttl : UInt8)
  | forward (driver : Driver) (junk : ℕ → NetPacket) (packet : NetPacket)
  | receive (driver : Driver) (junk : ℕ → NetPacket) (junkBuffer : ℕ → UInt8)
      (junkPacket : NetPacket) (iface : ℕ) (packet : NetPacket)
  | netSend (driver : Driver) (p : ℕ) (packet : NetPacket)
  | driverSend (p : ℕ) (packet : NetPacket)
  | driverReceive (junk : NetPacket) (p : ℕ)

namespace NetStack

/-- The part below the driver is another. -/
def setStack (s : NetStack) (t : Transmit) : NetStack := { s with toTransmit := t }

/-- The routes and the allocator are others. -/
def setTable (s : NetStack) (table : RouteTable) : NetStack := { s with table }

/-- All but the slots is other. -/
def setDriver (s : NetStack) (d : DriverStack) : NetStack := { s with toDriverStack := d }

end NetStack

/-- The call; `none` is one that does not return. -/
def StackCall.run (s : NetStack) : StackCall → Option NetStack
  | .configure p config => some (s.setDriver (ipv4ConfigureInterface s.toDriverStack p config).2)
  | .getConfig _ => some s
  | .addRoute network netmask gateway iface metric =>
    (ipv4AddRoute s.table network netmask gateway iface metric).map fun (_, table) =>
      s.setTable table
  | .removeRoute network netmask =>
    (ipv4RemoveRoute s.table network netmask).map fun (_, table) => s.setTable table
  | .findRoute destAddr => (ipv4FindRoute s.table destAddr).map fun _ => s
  | .flushRoutes => (ipv4FlushRoutes s.table).map s.setTable
  | .send driver junk packet destAddr protocol ttl =>
    (ipv4SendPacket driver junk s.toTransmit packet destAddr protocol ttl).map fun (_, t) =>
      s.setStack t
  | .forward driver junk packet =>
    (ipv4ForwardPacket driver junk s.toTransmit packet).map fun (_, t) => s.setStack t
  | .receive driver junk junkBuffer junkPacket iface packet =>
    (ipv4ReceivePacket driver junk junkBuffer junkPacket s.toTransmit s.slots iface packet).map
      fun r => { s.setStack r.stack with slots := r.slots }
  | .netSend driver p packet => some (s.setStack (netSendPacket driver s.toTransmit p packet).2)
  | .driverSend p packet =>
    (e1000SendPacket s.toDriverStack p packet).map fun (_, d) => s.setDriver d
  | .driverReceive junk p => some (s.setDriver (e1000ReceivePacket s.toDriverStack junk p).2)

/-- The configuration that the call stores for the interface, if it succeeds. -/
def StackCall.stored (s : NetStack) (p : ℕ) : StackCall → Option Ipv4Config
  | .configure q config =>
    if q = p ∧ (ipv4ConfigureInterface s.toDriverStack q config).1 = true then config else none
  | _ => none

/-! ### Runs -/

/-- A driver is set up on the interface at `p`, with its device structure at `dev`. -/
inductive DriverSetUp (s : DriverStack) (p dev : ℕ) (s' : DriverStack) : Prop where
  | eth (ops : EthOps) (h : ethInitDevice s p dev ops true = (true, s'))
  | e1000 (mmioBase : ℕ) (ioBase : UInt32) (macAddr : Fin 6 → UInt8) (hp : p ≠ 0)
      (h : e1000Init s p mmioBase ioBase macAddr = (true, s')) (hdev : dev = s'.e1000Dev p)

/-- A call, and the routes, the allocator and the memory of the devices as they are then. -/
structure StackOp where
  table : RouteTable
  memory : E1000Memory
  call : StackCall

/-- The stack at the call. -/
def StackOp.enter (op : StackOp) (s : NetStack) : NetStack :=
  { s with table := op.table, memory := op.memory }

/-- The stack, and the configurations that have been stored for the interface so far, the latest at
the end. The list is a record of the run, which no function reads. -/
structure Configuring where
  stack : NetStack
  configs : List Ipv4Config

namespace Configuring

/-- Neither the device structure nor what the interface points to is free. -/
def Live (w : Configuring) (p dev : ℕ) (op : StackOp) : Prop :=
  ¬ FreeRun op.table.pmm 1 (dev / 4096) ∧
    ¬ FreeRun op.table.pmm 1 (w.stack.e1000Dev p / 4096)

/-- The step relation of a run: a call that returns, in a state in which the routes and the memory
are what the rest of the kernel has made of them, but for the two blocks in question. -/
def Step (p dev : ℕ) (w : Configuring) (op : StackOp) (w' : Configuring) : Prop :=
  w.Live p dev op ∧ op.call.run (op.enter w.stack) = some w'.stack ∧
    w'.configs = w.configs ++ (op.call.stored (op.enter w.stack) p).toList

/-- What `ipv4_get_interface_config` is to return: the last configuration that has been stored. -/
def GetsStored (w : Configuring) (p : ℕ) : Prop :=
  ∀ config, ipv4GetInterfaceConfig w.stack.net p = some config →
    w.configs.getLast? = some config

end Configuring

/-- What is to hold of the pointer: the driver finds its device structure behind it, and
`ipv4_get_interface_config` returns what has been stored last, and only that. -/
structure DriverDataRight (w : Configuring) (p dev : ℕ) : Prop where
  device : w.stack.e1000Dev p = dev
  config : w.GetsStored p

/-! ### What the calls do -/

section

variable {s s' : DriverStack} {p dev : ℕ}

/-- Everything `ipv4_configure_interface` can do: it fails and changes nothing of the interfaces, or
it stores the configuration in a block that was free and lets the interface point to it. -/
theorem ipv4ConfigureInterface_cases (s : DriverStack) (p : ℕ) (config : Option Ipv4Config) :
    (∃ s', ipv4ConfigureInterface s p config = (false, s') ∧ s'.net = s.net) ∨
      p ≠ 0 ∧ ∃ c b s', config = some c ∧ b ≠ 0 ∧ FreeRun s.table.pmm 1 (b / 4096) ∧
        ipv4ConfigureInterface s p config = (true, s') ∧
        s'.net = { s.net with
          configAt := Function.update s.net.configAt b c }.setDriverData p b := by
  cases config with
  | none => exact Or.inl ⟨s, rfl, rfl⟩
  | some c =>
    rw [ipv4ConfigureInterface]
    dsimp only
    by_cases hp : p = 0
    · rw [if_pos hp]
      exact Or.inl ⟨s, rfl, rfl⟩
    rw [if_neg hp]
    rcases halloc : pmmAllocBlocks s.table.pmm ((24 + 4095) / 4096) with ⟨b, pmm⟩
    dsimp only
    by_cases hb : b = 0
    · rw [if_pos hb]
      exact Or.inl ⟨_, rfl, rfl⟩
    rw [if_neg hb]
    have htakes := (takes_of_pmmAllocBlocks halloc hb).2.2
    have hmem : b / 4096 ∈ Finset.Ico (b / 4096) (b / 4096 + (24 + 4095) / 4096) := by
      rw [Finset.mem_Ico]
      omega
    exact Or.inr ⟨hp, c, b, _, rfl, hb,
      freeRun_one.mpr ⟨htakes.lt hmem, htakes.notMem hmem⟩, rfl, rfl⟩

theorem e1000SendPacket_net {packet : NetPacket} {answer : Bool}
    (h : e1000SendPacket s p packet = some (answer, s')) : s'.net = s.net := by
  rw [e1000SendPacket] at h
  dsimp only at h
  split_ifs at h
  · obtain ⟨-, rfl⟩ := Prod.mk.inj (Option.some_inj.mp h)
    rfl
  · obtain ⟨-, rfl⟩ := Prod.mk.inj (Option.some_inj.mp h)
    rfl

theorem e1000ReceivePacket_net (s : DriverStack) (junk : NetPacket) (p : ℕ) :
    (e1000ReceivePacket s junk p).2.net = s.net := by
  rw [e1000ReceivePacket]
  dsimp only
  by_cases hwait : s.e1000Dev p = 0 ∨
      (s.memory.rxDesc (s.memory.device (s.e1000Dev p)).rxDescs
        (s.memory.device (s.e1000Dev p)).rxCur.toNat).status &&& 0x01 = 0
  · rw [if_pos hwait]
  rw [if_neg hwait]
  split
  · rfl
  · split <;> rfl

theorem e1000Dev_of_net {dev : ℕ} (h : s'.net = s.net.setDriverData p dev) :
    s'.e1000Dev p = dev := by
  rw [DriverStack.e1000Dev, h]
  simp [NetState.setDriverData]

/-- The device structure is not free when `e1000_init` has returned. -/
theorem e1000Init_live {mmioBase : ℕ} {ioBase : UInt32} {macAddr : Fin 6 → UInt8}
    (h : e1000Init s p mmioBase ioBase macAddr = (true, s')) :
    ¬ FreeRun s'.table.pmm 1 (s'.e1000Dev p / 4096) := by
  obtain ⟨dev, -, hused, hnet⟩ := e1000Init_true h
  rw [e1000Dev_of_net hnet, freeRun_one, not_and_not_right]
  exact fun _ => hused

/-- A set-up that succeeds leaves a device structure that the interface points to. -/
theorem DriverSetUp.device (h : DriverSetUp s p dev s') :
    p ≠ 0 ∧ dev ≠ 0 ∧ s'.e1000Dev p = dev := by
  cases h with
  | eth ops h =>
    rw [ethInitDevice] at h
    split_ifs at h with h0
    · cases (Prod.mk.inj h).1
    rw [not_or] at h0
    obtain ⟨-, rfl⟩ := Prod.mk.inj h
    exact ⟨h0.1, h0.2, by simp [DriverStack.e1000Dev]⟩
  | e1000 mmioBase ioBase macAddr hp h hdev =>
    obtain ⟨dev', hdev', -, hnet⟩ := e1000Init_true h
    rw [← e1000Dev_of_net hnet, ← hdev] at hdev'
    exact ⟨hp, hdev', hdev.symm⟩

end

/-- Only `ipv4_configure_interface` changes what an interface points to. -/
theorem StackCall.sameDrivers {s s' : NetStack} {call : StackCall}
    (hcall : ∀ p config, call ≠ .configure p config) (h : call.run s = some s') :
    SameDrivers s.net s'.net := by
  cases call with
  | configure p config => exact absurd rfl (hcall p config)
  | getConfig p =>
    obtain rfl := Option.some_inj.mp h
    exact SameDrivers.refl _
  | addRoute network netmask gateway iface metric =>
    obtain ⟨_, -, rfl⟩ := Option.map_eq_some_iff.mp h
    exact SameDrivers.refl _
  | removeRoute network netmask =>
    obtain ⟨_, -, rfl⟩ := Option.map_eq_some_iff.mp h
    exact SameDrivers.refl _
  | findRoute destAddr =>
    obtain ⟨_, -, rfl⟩ := Option.map_eq_some_iff.mp h
    exact SameDrivers.refl _
  | flushRoutes =>
    obtain ⟨_, -, rfl⟩ := Option.map_eq_some_iff.mp h
    exact SameDrivers.refl _
  | send driver junk packet destAddr protocol ttl =>
    obtain ⟨⟨answer, t⟩, hsend, rfl⟩ := Option.map_eq_some_iff.mp h
    exact ipv4SendPacket_sameDrivers hsend
  | forward driver junk packet =>
    obtain ⟨⟨answer, t⟩, hforward, rfl⟩ := Option.map_eq_some_iff.mp h
    exact ipv4ForwardPacket_sameDrivers hforward
  | receive driver junk junkBuffer junkPacket iface packet =>
    obtain ⟨r, hreceive, rfl⟩ := Option.map_eq_some_iff.mp h
    exact ipv4ReceivePacket_sameDrivers hreceive
  | netSend driver p packet =>
    obtain rfl := Option.some_inj.mp h
    exact netSendPacket_sameDrivers driver s.toTransmit p packet
  | driverSend p packet =>
    obtain ⟨⟨answer, d⟩, hsend, rfl⟩ := Option.map_eq_some_iff.mp h
    have hnet := e1000SendPacket_net hsend
    exact ⟨fun q => by rw [← hnet]; rfl, by rw [← hnet]; rfl⟩
  | driverReceive junk p =>
    obtain rfl := Option.some_inj.mp h
    have hnet := e1000ReceivePacket_net s.toDriverStack junk p
    exact ⟨fun q => by rw [← hnet]; rfl, by rw [← hnet]; rfl⟩

/-! ### The invariant -/

/-- The interface points to the device structure until a configuration is stored for it, and from
then on to the last configuration. -/
structure ConfiguringInv (p dev : ℕ) (w : Configuring) : Prop where
  device : w.configs = [] → w.stack.e1000Dev p = dev
  config : ∀ config, w.configs.getLast? = some config →
    w.stack.e1000Dev p ≠ 0 ∧ w.stack.e1000Dev p ≠ dev ∧
      w.stack.net.configAt (w.stack.e1000Dev p) = config

namespace ConfiguringInv

variable {p dev : ℕ} {w w' : Configuring}

/-- The pointer, and the memory behind it, are the same. -/
theorem congr (h : ConfiguringInv p dev w) (hdata : w'.stack.e1000Dev p = w.stack.e1000Dev p)
    (hat : w'.stack.net.configAt (w.stack.e1000Dev p) = w.stack.net.configAt (w.stack.e1000Dev p))
    (hconfigs : w'.configs = w.configs) : ConfiguringInv p dev w' where
  device h0 := hdata.trans (h.device (hconfigs ▸ h0))
  config config hlast := by
    rw [hdata, hat]
    exact h.config config (hconfigs ▸ hlast)

/-- **One call keeps the invariant.** -/
theorem step (h : ConfiguringInv p dev w) {op : StackOp}
    (hstep : Configuring.Step p dev w op w') : ConfiguringInv p dev w' := by
  obtain ⟨⟨hdev, hlive⟩, hrun, hconfigs⟩ := hstep
  by_cases hcall : ∀ q config, op.call ≠ .configure q config
  · have hsame := StackCall.sameDrivers hcall hrun
    refine h.congr (hsame.driverData p) (congrFun hsame.configAt _) ?_
    rw [hconfigs, StackCall.stored.eq_def]
    split
    · next q config heq => exact absurd heq (hcall q config)
    · exact List.append_nil _
  · push Not at hcall
    obtain ⟨q, config, hcall⟩ := hcall
    rw [hcall] at hrun hconfigs
    have hstack : w'.stack.net =
        (ipv4ConfigureInterface (op.enter w.stack).toDriverStack q config).2.net := by
      rw [← Option.some_inj.mp hrun]
      rfl
    rcases ipv4ConfigureInterface_cases (op.enter w.stack).toDriverStack q config with
      ⟨s', hfail, hnet⟩ | ⟨hq, c, b, s', rfl, hb, hfree, hok, hnet⟩
    · rw [hfail, hnet] at hstack
      rw [StackCall.stored, hfail] at hconfigs
      exact h.congr (congrArg (fun net : NetState => (net.iface p).driverData) hstack)
        (congrArg (fun net : NetState => net.configAt _) hstack) (by simpa using hconfigs)
    · rw [hok, hnet] at hstack
      rw [StackCall.stored, hok] at hconfigs
      have hb_dev : b ≠ dev := fun heq => hdev (heq ▸ hfree)
      have hb_live : w.stack.e1000Dev p ≠ b := fun heq => hlive (heq ▸ hfree)
      rcases eq_or_ne q p with rfl | hqp
      · -- the interface itself: it points to the new block now
        have hdata : w'.stack.e1000Dev q = b := by
          rw [DriverStack.e1000Dev, hstack]
          simp [NetState.setDriverData]
        rw [if_pos ⟨rfl, rfl⟩] at hconfigs
        refine ⟨fun h0 => ?_, fun config hlast => ?_⟩
        · rw [h0] at hconfigs
          simp at hconfigs
        · rw [hconfigs] at hlast
          obtain rfl : c = config := by simpa using hlast
          rw [hdata, hstack]
          exact ⟨hb, hb_dev, by simp [NetState.setDriverData]⟩
      · -- another interface: its block is neither of the two
        rw [if_neg fun hand => hqp hand.1] at hconfigs
        refine h.congr ?_ ?_ (by simpa using hconfigs)
        · rw [DriverStack.e1000Dev, hstack]
          simp [NetState.setDriverData, Ne.symm hqp]
          rfl
        · rw [hstack]
          simp [NetState.setDriverData, hb_live]
          rfl

end ConfiguringInv

/-- **After every run** the functions of the driver find the device structure exactly if no
configuration has been stored for the interface, and `ipv4_get_interface_config` returns what has
been stored exactly if one has: the two are never both right. -/
theorem driverData_run {s s' : DriverStack} {p dev : ℕ} (hset : DriverSetUp s p dev s')
    {slots : ℕ → ReassemblySlot} {w : Configuring}
    (hrun : Reaches (Configuring.Step p dev) ⟨⟨s', slots⟩, []⟩ w) :
    (w.stack.e1000Dev p = dev ↔ w.configs = []) ∧ (w.GetsStored p ↔ w.configs ≠ []) ∧
      ¬ DriverDataRight w p dev := by
  obtain ⟨hp, hdev, hstart⟩ := hset.device
  have h : ConfiguringInv p dev w :=
    hrun.invariant ⟨fun _ => hstart, fun _ hlast => nomatch hlast⟩ fun _ _ _ h hstep => h.step hstep
  have hdevice : w.stack.e1000Dev p = dev ↔ w.configs = [] := by
    refine ⟨fun heq => ?_, h.device⟩
    by_contra hne
    exact (h.config _ (List.getLast?_eq_some_getLast hne)).2.1 heq
  have hconfig : w.GetsStored p ↔ w.configs ≠ [] := by
    constructor
    · intro hgets h0
      have hdata := h.device h0
      rw [DriverStack.e1000Dev] at hdata
      have hget : ipv4GetInterfaceConfig w.stack.net p = some (w.stack.net.configAt dev) := by
        rw [ipv4GetInterfaceConfig, if_neg hp, hdata, if_neg hdev]
      have hlast := hgets _ hget
      rw [h0] at hlast
      cases hlast
    · intro hne config hget
      have hlast := List.getLast?_eq_some_getLast hne
      obtain ⟨hdata, -, hat⟩ := h.config _ hlast
      rw [DriverStack.e1000Dev] at hdata hat
      rw [ipv4GetInterfaceConfig, if_neg hp, if_neg hdata, hat] at hget
      rw [hlast, hget]
  refine ⟨hdevice, hconfig, fun hright => ?_⟩
  exact hconfig.mp hright.config (hdevice.mp hright.device)

/-! ### A driver that is set up, and an interface that is configured -/

/-- Sixty-four blocks, an interface without a driver, and a device that has not been used. -/
def unusedDriver : DriverStack where
  toTransmit := (oneInterface 1500).setPmm
    { pmmEight with
      memBlocks := 64
      memBlocks_le := by decide }
  mac := fun _ _ => 0
  memory :=
    { device := fun _ => newE1000Device 0 0 fun _ => 0
      rxDesc := fun _ _ => ⟨0, 0, 0⟩
      txDesc := fun _ _ => ⟨0, 0, 0, 0⟩
      buffer := fun _ _ => 0 }

/-- The device of the interface at `524288` is set up. -/
def readyDriver : DriverStack := (e1000Init unusedDriver 524288 1048576 0 fun _ => 2).2

/-- The interface is configured. -/
def configureReady : StackOp where
  table := readyDriver.table
  memory := readyDriver.memory
  call := .configure 524288 (some emptyConfig)

/-- The stack after that. -/
def configuredStack : NetStack :=
  ⟨(ipv4ConfigureInterface readyDriver 524288 (some emptyConfig)).2, fun _ => emptySlot⟩

theorem e1000Init_unusedDriver :
    e1000Init unusedDriver 524288 1048576 0 (fun _ => 2) = (true, readyDriver) := by
  have hinit : (e1000Init unusedDriver 524288 1048576 0 fun _ => 2).1 = true := by decide +kernel
  exact Prod.ext hinit rfl

theorem readyDriver_dev : readyDriver.e1000Dev 524288 = 4096 := by decide +kernel

theorem readyDriver_setUp : DriverSetUp unusedDriver 524288 4096 readyDriver :=
  .e1000 1048576 0 (fun _ => 2) (by decide) e1000Init_unusedDriver readyDriver_dev.symm

theorem configureReady_reaches :
    Reaches (Configuring.Step 524288 4096) ⟨⟨readyDriver, fun _ => emptySlot⟩, []⟩
      ⟨configuredStack, [emptyConfig]⟩ := by
  have hok : (ipv4ConfigureInterface readyDriver 524288 (some emptyConfig)).1 = true := by
    decide +kernel
  have hlive := e1000Init_live e1000Init_unusedDriver
  refine (Reaches.refl _).tail (i := configureReady) ⟨⟨?_, hlive⟩, rfl, ?_⟩
  · rw [readyDriver_dev] at hlive
    exact hlive
  · show [emptyConfig] = [] ++ (StackCall.stored ⟨readyDriver, _⟩ 524288 configureReady.call).toList
    rw [configureReady, StackCall.stored, if_pos ⟨rfl, hok⟩]
    rfl

theorem driverData_run_configured :
    (configuredStack.e1000Dev 524288 = 4096 ↔ [emptyConfig] = []) ∧
      (Configuring.GetsStored ⟨configuredStack, [emptyConfig]⟩ 524288 ↔ [emptyConfig] ≠ []) ∧
      ¬ DriverDataRight ⟨configuredStack, [emptyConfig]⟩ 524288 4096 :=
  driverData_run readyDriver_setUp configureReady_reaches

/-- Before the interface is configured, its device structure is taken for a configuration; after
it has been, the configuration is taken for the device structure. -/
theorem not_driverDataRight_configured :
    DriverSetUp unusedDriver 524288 4096 readyDriver ∧
      (∃ config, ipv4GetInterfaceConfig readyDriver.net 524288 = some config) ∧
      Reaches (Configuring.Step 524288 4096) ⟨⟨readyDriver, fun _ => emptySlot⟩, []⟩
        ⟨configuredStack, [emptyConfig]⟩ ∧
      configuredStack.e1000Dev 524288 = 81920 ∧
      ¬ DriverDataRight ⟨configuredStack, [emptyConfig]⟩ 524288 4096 := by
  have hdev : configuredStack.e1000Dev 524288 = 81920 := by decide +kernel
  refine ⟨readyDriver_setUp, ⟨readyDriver.net.configAt 4096, ?_⟩, configureReady_reaches, hdev,
    fun hright => ?_⟩
  · have hready : (readyDriver.net.iface 524288).driverData = 4096 := readyDriver_dev
    rw [ipv4GetInterfaceConfig, if_neg (by decide), hready, if_neg (by decide)]
  · exact absurd (hdev.symm.trans hright.device) (by decide)

end Rexus
