import Rexus.Net.Fragment

/-!
# Sending and forwarding

`ipv4_send_packet` and `ipv4_forward_packet` of `net/ipv4.c`. Both end in the same way: a packet
that is too long for the interface is fragmented, and if that succeeds the packet itself is sent as
well. They differ in the length they compare with the MTU: the total length of the header, or that
of the packet.

## Main results

* `ipv4SendPacket_header` — the packet a payload is sent as is never what it should be
* `ipv4Transmit_right_iff` — when the common end is right, whatever memory and drivers do
* `transmit_right_iff` — the same of the two functions
* `Sends.sendPacket`, `Sends.forwardPacket` — a relation that each step of sending keeps

## Conventions

To be right is said of what the interfaces have been handed: `CarriesPayload` and `Carried` speak of
the packets and not of the steps that made them, and a call that returns false may have handed over
some of them. What `ipv4_send_packet` is given is a payload in a packet; what `ipv4_forward_packet`
is given is a packet with a header, of which it takes one hop.

The allocator and the drivers are any, so the conditions hold for every way in which memory runs out
or a device refuses. The routing table is that of `Net/Route.lean`, in any state. A result of `none`
is a division by zero, in the fragmenter, or a walk over the interfaces that does not end, and
counts as wrong wherever something is to be returned.
-/

namespace Rexus

open Bytes

/-! ### The functions -/

/-- The end of both functions; `length` is what is compared with the MTU of the interface. -/
def ipv4Transmit (driver : Driver) (junk : ℕ → NetPacket) (t : Transmit) (p : ℕ)
    (packet : NetPacket) (length : ℕ) : Option (Bool × Transmit) :=
  let mtu := (t.net.iface p).mtu
  if mtu.toNat < length then
    match ipv4FragmentPacket driver junk t packet mtu.toUInt16 with
    | none => none
    | some (false, t) => some (false, t)
    | some (true, t) => some (netSendPacket driver t p packet)
  else some (netSendPacket driver t p packet)

/-- The header that `ipv4_send_packet` writes at the start of the data. -/
def ipv4BuildHeader (id : UInt16) (packet : NetPacket) (srcAddr destAddr : Ipv4Addr)
    (protocol ttl : UInt8) : NetPacket :=
  let d := Function.update packet.bytes 0 ((4 : UInt8) <<< 4 ||| 5)
  let d := Function.update d 1 0
  let d := putLe16 d 2 (UInt16.ofNat (20 + packet.length))
  let d := putLe16 d 4 id
  let d := putLe16 d 6 0
  let d := Function.update d 8 (if ttl = 0 then 64 else ttl)
  let d := Function.update d 9 protocol
  let d := putAddr d 12 srcAddr
  let d := putAddr d 16 destAddr
  { packet with bytes := ipv4Seal d }

/-- `ipv4_send_packet`, of a packet and a destination that are there. -/
def ipv4SendPacket (driver : Driver) (junk : ℕ → NetPacket) (t : Transmit) (packet : NetPacket)
    (destAddr : Ipv4Addr) (protocol ttl : UInt8) : Option (Bool × Transmit) :=
  match ipv4FindRoute t.table destAddr with
  | none => none
  | some route =>
    if route = 0 then some (false, t)
    else
      let p := (t.table.route route).iface
      match ipv4GetInterfaceConfig t.net p with
      | none => some (false, t)
      | some config =>
        let packet := ipv4BuildHeader t.ipId packet config.addr destAddr protocol ttl
        ipv4Transmit driver junk { t with ipId := t.ipId + 1 } p packet
          (ipv4Header packet.bytes).totalLength.toNat

/-- The header of a packet that is forwarded: one hop less, and sealed. -/
def ipv4Hop (packet : NetPacket) : NetPacket :=
  { packet with
    bytes := ipv4Seal (Function.update packet.bytes 8 ((ipv4Header packet.bytes).ttl - 1)) }

/-- `ipv4_forward_packet`: the answer, and the state with what the drivers have been handed. With
`none` a walk or a loop over fragments does not end; `junk` is what new packets contain at first. -/
def ipv4ForwardPacket (driver : Driver) (junk : ℕ → NetPacket) (t : Transmit)
    (packet : NetPacket) : Option (Bool × Transmit) :=
  if (ipv4Header packet.bytes).ttl ≤ 1 then some (false, t)
  else
    let packet := ipv4Hop packet
    match ipv4FindRoute t.table (ipv4Header packet.bytes).destAddr with
    | none => none
    | some route =>
      if route = 0 then some (false, t)
      else ipv4Transmit driver junk t (t.table.route route).iface packet packet.length

/-! ### The packet that is sent -/

theorem ipv4Header_buildHeader (id : UInt16) (packet : NetPacket) (srcAddr destAddr : Ipv4Addr)
    (protocol ttl : UInt8) : ∃ checksum,
    ipv4Header (ipv4BuildHeader id packet srcAddr destAddr protocol ttl).bytes =
      ⟨0x45, 0, UInt16.ofNat (20 + packet.length), id, 0, if ttl = 0 then 64 else ttl, protocol,
        checksum, srcAddr, destAddr⟩ := by
  obtain ⟨checksum, h⟩ := ipv4Header_ipv4Seal
    (putAddr (putAddr (Function.update (Function.update (putLe16 (putLe16 (putLe16 (Function.update
      (Function.update packet.bytes 0 ((4 : UInt8) <<< 4 ||| 5)) 1 0) 2
      (UInt16.ofNat (20 + packet.length))) 4 id) 6 0) 8 (if ttl = 0 then 64 else ttl)) 9 protocol)
      12 srcAddr) 16 destAddr)
  refine ⟨checksum, ?_⟩
  rw [ipv4BuildHeader]
  dsimp only
  rw [h]
  simp only [ipv4Header_putAddr_sixteen, ipv4Header_putAddr_twelve, ipv4Header_update_nine,
    ipv4Header_update_eight, ipv4Header_putLe16_six, ipv4Header_putLe16_four,
    ipv4Header_putLe16_two, ipv4Header_update_one, ipv4Header_update_zero]
  rfl

theorem totalLength_buildHeader (id : UInt16) (packet : NetPacket) (srcAddr destAddr : Ipv4Addr)
    (protocol ttl : UInt8) :
    (ipv4Header
      (ipv4BuildHeader id packet srcAddr destAddr protocol ttl).bytes).totalLength.toNat =
        (20 + packet.length) % 2 ^ 16 := by
  obtain ⟨checksum, h⟩ := ipv4Header_buildHeader id packet srcAddr destAddr protocol ttl
  rw [h, UInt16.toNat_ofNat']

theorem dontFragment_buildHeader (id : UInt16) (packet : NetPacket)
    (srcAddr destAddr : Ipv4Addr) (protocol ttl : UInt8) :
    (ipv4Header
      (ipv4BuildHeader id packet srcAddr destAddr protocol ttl).bytes).dontFragment = false := by
  obtain ⟨checksum, h⟩ := ipv4Header_buildHeader id packet srcAddr destAddr protocol ttl
  rw [h]
  exact (by decide : ((0 : UInt16) &&& 0x4000 != 0) = false)

/-- The header takes the place of the first twenty bytes. -/
theorem buildHeader_of_le (id : UInt16) (packet : NetPacket) (srcAddr destAddr : Ipv4Addr)
    (protocol ttl : UInt8) {k : ℕ} (h : 20 ≤ k) :
    (ipv4BuildHeader id packet srcAddr destAddr protocol ttl).bytes k = packet.bytes k := by
  rw [ipv4BuildHeader]
  dsimp only
  rw [ipv4Seal_of_le _ h, putAddr_of_ge _ _ (by omega), putAddr_of_ge _ _ (by omega),
    Function.update_of_ne (by omega), Function.update_of_ne (by omega),
    putLe16_of_ne _ (by omega) (by omega), putLe16_of_ne _ (by omega) (by omega),
    putLe16_of_ne _ (by omega) (by omega), Function.update_of_ne (by omega),
    Function.update_of_ne (by omega)]

/-- What the packet that carries a payload is to be: a header of twenty bytes that says what was
asked for and passes the check of a receiver, and the payload behind it, whole and unchanged. -/
structure CarriesPayload (payload : List UInt8) (srcAddr destAddr : Ipv4Addr)
    (protocol ttl : UInt8) (packet : NetPacket) : Prop where
  length : packet.length = payload.length + 20
  totalLength : (ipv4Header packet.bytes).totalLength.toNat = payload.length + 20
  protocol : (ipv4Header packet.bytes).protocol = protocol
  ttl : (ipv4Header packet.bytes).ttl = if ttl = 0 then 64 else ttl
  srcAddr : (ipv4Header packet.bytes).srcAddr = srcAddr
  destAddr : (ipv4Header packet.bytes).destAddr = destAddr
  verify : ipv4Verify packet.bytes = true
  payload : slice packet.bytes 20 payload.length = payload

section

variable {driver : Driver} {junk : ℕ → NetPacket} {t t' : Transmit} {packet : NetPacket}
  {destAddr : Ipv4Addr} {protocol ttl : UInt8} {p length : ℕ}

/-- The packet is short enough for the interface. -/
theorem ipv4Transmit_short (h : length ≤ (t.net.iface p).mtu.toNat) :
    ipv4Transmit driver junk t p packet length = some (netSendPacket driver t p packet) := by
  rw [ipv4Transmit]
  exact if_neg (Nat.not_lt.mpr h)

/-- The packet is too long, and is sent as well once its fragments have been. -/
theorem ipv4Transmit_true (hlt : (t.net.iface p).mtu.toNat < length)
    (h : ipv4FragmentPacket driver junk t packet (t.net.iface p).mtu.toUInt16 = some (true, t')) :
    ipv4Transmit driver junk t p packet length = some (netSendPacket driver t' p packet) := by
  rw [ipv4Transmit, if_pos hlt, h]

theorem ipv4Transmit_false (hlt : (t.net.iface p).mtu.toNat < length)
    (h : ipv4FragmentPacket driver junk t packet (t.net.iface p).mtu.toUInt16 = some (false, t')) :
    ipv4Transmit driver junk t p packet length = some (false, t') := by
  rw [ipv4Transmit, if_pos hlt, h]

/-- With a route and a configuration, sending comes to the common end. -/
theorem ipv4SendPacket_transmit {route : ℕ} {config : Ipv4Config}
    (hroute : ipv4FindRoute t.table destAddr = some route) (hne : route ≠ 0)
    (hconfig : ipv4GetInterfaceConfig t.net (t.table.route route).iface = some config) :
    ipv4SendPacket driver junk t packet destAddr protocol ttl =
      ipv4Transmit driver junk { t with ipId := t.ipId + 1 } (t.table.route route).iface
        (ipv4BuildHeader t.ipId packet config.addr destAddr protocol ttl)
        ((20 + packet.length) % 2 ^ 16) := by
  simp only [ipv4SendPacket, hroute, if_neg hne, hconfig, totalLength_buildHeader]

/-- A payload that needs no fragments is sent as one packet. -/
theorem ipv4SendPacket_short {route : ℕ} {config : Ipv4Config}
    (hroute : ipv4FindRoute t.table destAddr = some route) (hne : route ≠ 0)
    (hconfig : ipv4GetInterfaceConfig t.net (t.table.route route).iface = some config)
    (hmtu : packet.length + 20 ≤ (t.net.iface (t.table.route route).iface).mtu.toNat) :
    ipv4SendPacket driver junk t packet destAddr protocol ttl =
      some (netSendPacket driver { t with ipId := t.ipId + 1 } (t.table.route route).iface
        (ipv4BuildHeader t.ipId packet config.addr destAddr protocol ttl)) := by
  rw [ipv4SendPacket_transmit hroute hne hconfig]
  refine ipv4Transmit_short (Nat.le_trans ?_ hmtu)
  rw [Nat.add_comm 20]
  exact Nat.mod_le ..

/-- The packet has the length of the payload, and no room for the header. -/
theorem not_carriesPayload (id : UInt16) (packet : NetPacket) (srcAddr destAddr : Ipv4Addr)
    (protocol ttl : UInt8) :
    ¬ CarriesPayload (slice packet.bytes 0 packet.length) srcAddr destAddr protocol ttl
      (ipv4BuildHeader id packet srcAddr destAddr protocol ttl) := by
  intro hcarries
  have hlength := hcarries.length
  rw [length_slice] at hlength
  exact absurd hlength (Nat.ne_of_lt (Nat.lt_add_of_pos_right (by decide)))

/-- **Every payload** that needs no fragments is sent without its first twenty bytes, and without
room for them: the packet that is sent has the right header, but the length of the payload. -/
theorem ipv4SendPacket_header {route : ℕ} {config : Ipv4Config}
    (hroute : ipv4FindRoute t.table destAddr = some route) (hne : route ≠ 0)
    (hconfig : ipv4GetInterfaceConfig t.net (t.table.route route).iface = some config)
    (hmtu : packet.length + 20 ≤ (t.net.iface (t.table.route route).iface).mtu.toNat) :
    ipv4SendPacket driver junk t packet destAddr protocol ttl =
        some (netSendPacket driver { t with ipId := t.ipId + 1 } (t.table.route route).iface
          (ipv4BuildHeader t.ipId packet config.addr destAddr protocol ttl)) ∧
      (ipv4BuildHeader t.ipId packet config.addr destAddr protocol ttl).length = packet.length ∧
      (∀ k, 20 ≤ k → (ipv4BuildHeader t.ipId packet config.addr destAddr protocol ttl).bytes k =
        packet.bytes k) ∧
      ¬ CarriesPayload (slice packet.bytes 0 packet.length) config.addr destAddr protocol ttl
        (ipv4BuildHeader t.ipId packet config.addr destAddr protocol ttl) :=
  ⟨ipv4SendPacket_short hroute hne hconfig hmtu, rfl,
    fun _ => buildHeader_of_le t.ipId packet config.addr destAddr protocol ttl,
    not_carriesPayload t.ipId packet config.addr destAddr protocol ttl⟩

/-! ### What is handed to the interfaces -/

/-- The data a packet carries behind its header. -/
def packetPayload (packet : NetPacket) : List UInt8 := slice packet.bytes 20 (packet.length - 20)

/-- What a call that succeeds is to have handed to the interfaces: packets no longer than they can
take, which carry the payload. -/
def Carried (net : NetState) (payload : List UInt8) (before after : List (ℕ × NetPacket)) : Prop :=
  ∃ handed, after = before ++ handed ∧
    (∀ x ∈ handed, (ipv4Header x.2.bytes).totalLength.toNat ≤ (net.iface x.1).mtu.toNat) ∧
    handed.flatMap (fun x => packetPayload x.2) = payload

/-- What the common end is to do: with sizes that are right if it fragments, to return, and to have
carried the payload if it returns true. -/
structure TransmitRight (driver : Driver) (junk : ℕ → NetPacket) (t : Transmit) (p : ℕ)
    (packet : NetPacket) (length : ℕ) (payload : List UInt8) : Prop where
  sizes : (t.net.iface p).mtu.toNat < length → (ipv4Header packet.bytes).dontFragment = false →
    FragSizes (t.net.iface p).mtu packet.length
  handed : ∃ ok t', ipv4Transmit driver junk t p packet length = some (ok, t') ∧
    (ok = true → Carried t.net payload t.sent t'.sent)

/-- Fragmentation cannot succeed: the first fragment is more than a packet can hold, or its
interface cannot send. -/
def CannotFragment (net : NetState) (mtu : UInt32) (packet : NetPacket) : Prop :=
  20 < packet.length ∧ (¬ CanSend net packet.iface ∨
    1498 < min ((mtu.toNat - 20) / 8 * 8) (packet.length - 20))

/-- When the common end is right: see `ipv4Transmit_right_iff`. -/
def TransmitCondition (net : NetState) (p : ℕ) (packet : NetPacket) (length : ℕ)
    (payload : List UInt8) : Prop :=
  length ≤ (net.iface p).mtu.toNat ∧ (¬ CanSend net p ∨
      (ipv4Header packet.bytes).totalLength.toNat ≤ (net.iface p).mtu.toNat ∧
        packetPayload packet = payload) ∨
    (net.iface p).mtu.toNat < length ∧ ((ipv4Header packet.bytes).dontFragment = true ∨
      (28 ≤ (net.iface p).mtu.toNat ∧ (net.iface p).mtu.toNat < 65556 ∧ 20 ≤ packet.length ∧
        packet.length < 65556) ∧ (¬ CanSend net p ∨ CannotFragment net (net.iface p).mtu packet))

/-- The sizes of the fragmenter. -/
theorem FragSizes.toNat {mtu : UInt32} {length : ℕ} (h : FragSizes mtu length) :
    (fragMaxData mtu.toUInt16).toNat = (mtu.toNat - 20) / 8 * 8 ∧
      (fragPayload length).toNat = length - 20 := by
  obtain ⟨hmin, -, hlen, -⟩ := fragSizes_iff.mp h
  have hmax := h.maxData
  have hpayload := h.dataLen
  omega

/-- Nothing has been sent for a packet that may not be fragmented. -/
theorem ipv4FragmentPacket_dontFragment {mtu : UInt16}
    (hdf : (ipv4Header packet.bytes).dontFragment = true) :
    ipv4FragmentPacket driver junk t packet mtu = some (false, t) := by
  rw [ipv4FragmentPacket, if_pos hdf]

theorem CannotFragment.ne_true {mtu : UInt32} (h : CannotFragment t.net mtu packet)
    (hfrag : FragSizes mtu packet.length) :
    ipv4FragmentPacket driver junk t packet mtu.toUInt16 ≠ some (true, t') := by
  intro htrue
  obtain ⟨hlen, hfails⟩ := h
  obtain ⟨hmax, hpayload⟩ := hfrag.toNat
  have hdf : (ipv4Header packet.bytes).dontFragment = false := by
    by_contra hdf
    rw [Bool.not_eq_false] at hdf
    rw [ipv4FragmentPacket_dontFragment hdf] at htrue
    cases htrue
  obtain ⟨u, hfalse⟩ := @ipv4FragmentPacket_fails driver junk t packet _ hdf hfrag.ne_zero
    (by omega) (by rwa [hmax, hpayload])
  rw [hfalse] at htrue
  cases htrue

/-- The packet itself is sent, if anything is. -/
theorem TransmitRight.of_short {payload : List UInt8} (hle : length ≤ (t.net.iface p).mtu.toNat)
    (h : CanSend t.net p → (ipv4Header packet.bytes).totalLength.toNat ≤
      (t.net.iface p).mtu.toNat ∧ packetPayload packet = payload) :
    TransmitRight driver junk t p packet length payload := by
  rcases hsend : netSendPacket driver t p packet with ⟨ok, t'⟩
  refine ⟨fun hlt => absurd hlt (Nat.not_lt.mpr hle), ok, t',
    (ipv4Transmit_short hle).trans (congrArg some hsend), ?_⟩
  rintro rfl
  have hcan : CanSend t.net p := by
    by_contra hcannot
    rw [netSendPacket_cannot hcannot] at hsend
    cases hsend
  obtain ⟨hlength, hpayload⟩ := h hcan
  obtain ⟨hsent, -⟩ := netSendPacket_true hsend
  refine ⟨[(p, packet)], hsent, ?_, ?_⟩
  · simpa using hlength
  · simpa using hpayload

/-- The fragments are not all sent, or the packet itself is not. -/
theorem TransmitRight.of_cannot {payload : List UInt8} (hlt : (t.net.iface p).mtu.toNat < length)
    (hfrag : FragSizes (t.net.iface p).mtu packet.length)
    (h : ¬ CanSend t.net p ∨ CannotFragment t.net (t.net.iface p).mtu packet) :
    TransmitRight driver junk t p packet length payload := by
  obtain ⟨ok, t', hresult⟩ := ipv4FragmentPacket_returns driver junk t packet hfrag.ne_zero
  refine ⟨fun _ _ => hfrag, false, t', ?_, by simp⟩
  cases ok with
  | false => exact ipv4Transmit_false hlt hresult
  | true =>
    obtain ⟨-, hsame, -⟩ := ipv4FragmentPacket_sent hresult
    have hcannot : ¬ CanSend t'.net p := fun hcan =>
      (h.resolve_left (not_not.mpr ((hsame.canSend p).mp hcan))).ne_true hfrag hresult
    exact (ipv4Transmit_true hlt hresult).trans (congrArg some (netSendPacket_cannot hcannot))

/-- **The condition suffices**, whatever memory and drivers do. -/
theorem TransmitRight.of_condition {payload : List UInt8}
    (h : TransmitCondition t.net p packet length payload) :
    TransmitRight driver junk t p packet length payload := by
  rcases h with ⟨hle, h⟩ | ⟨hlt, hdf | ⟨hsizes, h⟩⟩
  · exact .of_short hle fun hcan => h.resolve_left (not_not.mpr hcan)
  · exact ⟨fun _ hdf' => absurd (hdf.symm.trans hdf') (by decide), false, t,
      ipv4Transmit_false hlt (ipv4FragmentPacket_dontFragment hdf), by simp⟩
  · exact .of_cannot hlt (fragSizes_iff.mpr hsizes) h

/-- A packet that is sent is short enough, and carries the payload. -/
theorem TransmitRight.short {payload : List UInt8} (hle : length ≤ (t.net.iface p).mtu.toNat)
    (h : TransmitRight willingDriver junk t p packet length payload) (hcan : CanSend t.net p) :
    (ipv4Header packet.bytes).totalLength.toNat ≤ (t.net.iface p).mtu.toNat ∧
      packetPayload packet = payload := by
  obtain ⟨-, ok, t', hresult, hcarried⟩ := h
  obtain ⟨u, hsend, hsent, -⟩ := netSendPacket_can willingDriver packet hcan
  rw [ipv4Transmit_short hle, hsend, Option.some_inj, Prod.mk.injEq] at hresult
  obtain ⟨rfl, rfl⟩ := hresult
  obtain ⟨handed, hafter, hmtu, hall⟩ := hcarried rfl
  obtain rfl := List.append_cancel_left (hafter.symm.trans hsent)
  exact ⟨by simpa using hmtu, by simpa using hall⟩

/-- With memory and drivers that never fail, a packet of which all fragments are sent is sent as
well: it is too long, or its payload is carried twice. -/
theorem TransmitRight.cannot {payload : List UInt8} (hlt : (t.net.iface p).mtu.toNat < length)
    (hdf : (ipv4Header packet.bytes).dontFragment = false)
    (hover : (t.net.iface p).mtu.toNat < (ipv4Header packet.bytes).totalLength.toNat ∨
      20 < packet.length ∧ payload = packetPayload packet)
    (hpmm : t.table.pmm = pmmEight)
    (h : TransmitRight willingDriver junk t p packet length payload) :
    ¬ CanSend t.net p ∨ CannotFragment t.net (t.net.iface p).mtu packet := by
  obtain ⟨hsizes, ok, t', hresult, hcarried⟩ := h
  have hfrag := hsizes hlt hdf
  obtain ⟨hmax, hpayload⟩ := hfrag.toNat
  by_contra hno
  rw [not_or, not_not, CannotFragment, not_and, not_or, not_not, Nat.not_lt] at hno
  obtain ⟨hcan, hno⟩ := hno
  obtain ⟨u, hu⟩ := @ipv4FragmentPacket_willing junk t packet _ hdf hfrag.ne_zero
    (by rwa [hmax, hpayload, Nat.sub_pos_iff_lt]) hpmm
  obtain ⟨hD, hsame, fs, hsent, hfs⟩ := ipv4FragmentPacket_sent hu
  obtain ⟨u', hsend, hsent', -⟩ :=
    netSendPacket_can willingDriver packet ((hsame.canSend p).mpr hcan)
  rw [ipv4Transmit_true hlt hu, hsend, Option.some_inj, Prod.mk.injEq] at hresult
  obtain ⟨rfl, rfl⟩ := hresult
  obtain ⟨handed, hafter, hmtu, hall⟩ := hcarried rfl
  rw [hsent', hsent, List.append_assoc] at hafter
  obtain rfl := List.append_cancel_left hafter
  rcases hover with htotal | ⟨hlen, rfl⟩
  · exact absurd (hmtu (p, packet) (by simp)) (Nat.not_le.mpr htotal)
  · rw [List.flatMap_append, List.flatMap_map, List.flatMap_singleton] at hall
    have hfrags : fs.flatMap packetPayload = slice packet.bytes 20 _ := hfs.payload hD
    have hcount : (fs.flatMap packetPayload ++ packetPayload packet).length =
        (packetPayload packet).length := congrArg List.length hall
    rw [List.length_append, hfrags, length_slice, hpayload] at hcount
    omega

/-- **The condition is needed**, with memory and drivers that never fail. -/
theorem TransmitCondition.of_right {payload : List UInt8}
    (hover : (t.net.iface p).mtu.toNat < length → 28 ≤ (t.net.iface p).mtu.toNat →
      (t.net.iface p).mtu.toNat < (ipv4Header packet.bytes).totalLength.toNat ∨
        20 < packet.length ∧ payload = packetPayload packet)
    (hpmm : t.table.pmm = pmmEight)
    (h : TransmitRight willingDriver junk t p packet length payload) :
    TransmitCondition t.net p packet length payload := by
  rcases Nat.lt_or_ge (t.net.iface p).mtu.toNat length with hlt | hle
  · refine Or.inr ⟨hlt, ?_⟩
    cases hdf : (ipv4Header packet.bytes).dontFragment with
    | true => exact Or.inl rfl
    | false =>
      have hsizes := fragSizes_iff.mp (h.sizes hlt hdf)
      exact Or.inr ⟨hsizes, h.cannot hlt hdf (hover hlt hsizes.1) hpmm⟩
  · exact Or.inl ⟨hle, or_iff_not_imp_left.mpr fun hcan => h.short hle (not_not.mp hcan)⟩

/-! ### The two functions -/

/-- What `ipv4_send_packet` is to do with the payload it is given: it returns, fragments it cuts fit
the unit of the route, and what it says it has sent carries the whole payload. -/
structure SendRight (driver : Driver) (junk : ℕ → NetPacket) (t : Transmit) (packet : NetPacket)
    (destAddr : Ipv4Addr) (protocol ttl : UInt8) : Prop where
  sizes : ∀ route config, ipv4FindRoute t.table destAddr = some route → route ≠ 0 →
    ipv4GetInterfaceConfig t.net (t.table.route route).iface = some config →
    (t.net.iface (t.table.route route).iface).mtu.toNat < (20 + packet.length) % 2 ^ 16 →
    FragSizes (t.net.iface (t.table.route route).iface).mtu packet.length
  handed : ∃ ok t', ipv4SendPacket driver junk t packet destAddr protocol ttl = some (ok, t') ∧
    (ok = true → Carried t.net (slice packet.bytes 0 packet.length) t.sent t'.sent)

/-- What `ipv4_forward_packet` is to do with a packet: it returns, fragments it cuts fit the unit of
the route, and what it says it has sent carries the payload of the packet. -/
structure ForwardRight (driver : Driver) (junk : ℕ → NetPacket) (t : Transmit)
    (packet : NetPacket) : Prop where
  sizes : ∀ route, 1 < (ipv4Header packet.bytes).ttl →
    ipv4FindRoute t.table (ipv4Header packet.bytes).destAddr = some route → route ≠ 0 →
    (t.net.iface (t.table.route route).iface).mtu.toNat < packet.length →
    (ipv4Header packet.bytes).dontFragment = false →
    FragSizes (t.net.iface (t.table.route route).iface).mtu packet.length
  handed : ∃ ok t', ipv4ForwardPacket driver junk t packet = some (ok, t') ∧
    (ok = true → Carried t.net (packetPayload packet) t.sent t'.sent)

/-- When `ipv4_send_packet` is right: it cannot send, or there is no payload, or it needs fragments
of a size that can be computed, and cannot make them. -/
def SendCondition (t : Transmit) (packet : NetPacket) (route : ℕ) : Prop :=
  let p := (t.table.route route).iface
  let mtu := (t.net.iface p).mtu
  route = 0 ∨ ipv4GetInterfaceConfig t.net p = none ∨
    (20 + packet.length) % 2 ^ 16 ≤ mtu.toNat ∧ (¬ CanSend t.net p ∨ packet.length = 0) ∨
    mtu.toNat < (20 + packet.length) % 2 ^ 16 ∧
      (28 ≤ mtu.toNat ∧ 20 ≤ packet.length ∧ packet.length < 65556) ∧
      (¬ CanSend t.net p ∨ CannotFragment t.net mtu packet)

/-- When `ipv4_forward_packet` is right: it does not send, or the packet and its total length are
short enough, or it needs fragments of a size that can be computed, and cannot make them. -/
def ForwardCondition (t : Transmit) (packet : NetPacket) (route : ℕ) : Prop :=
  let p := (t.table.route route).iface
  let mtu := (t.net.iface p).mtu
  (ipv4Header packet.bytes).ttl ≤ 1 ∨ route = 0 ∨
    packet.length ≤ mtu.toNat ∧ (¬ CanSend t.net p ∨
      (ipv4Header packet.bytes).totalLength.toNat ≤ mtu.toNat) ∨
    mtu.toNat < packet.length ∧ ((ipv4Header packet.bytes).dontFragment = true ∨
      (28 ≤ mtu.toNat ∧ packet.length < 65556) ∧
        (¬ CanSend t.net p ∨ CannotFragment t.net mtu packet))

theorem ipv4Header_hop (packet : NetPacket) : ∃ ttl checksum,
    ipv4Header (ipv4Hop packet).bytes = { ipv4Header packet.bytes with ttl, checksum } := by
  obtain ⟨checksum, h⟩ := ipv4Header_ipv4Seal
    (Function.update packet.bytes 8 ((ipv4Header packet.bytes).ttl - 1))
  refine ⟨(ipv4Header packet.bytes).ttl - 1, checksum, ?_⟩
  rw [ipv4Hop, h, ipv4Header_update_eight]

theorem dontFragment_hop (packet : NetPacket) : (ipv4Header (ipv4Hop packet).bytes).dontFragment =
    (ipv4Header packet.bytes).dontFragment := by
  obtain ⟨ttl, checksum, h⟩ := ipv4Header_hop packet
  rw [h]
  rfl

theorem packetPayload_hop (packet : NetPacket) :
    packetPayload (ipv4Hop packet) = packetPayload packet := by
  refine slice_congr fun k _ => ?_
  show ipv4Seal _ (20 + k) = _
  rw [ipv4Seal_of_le _ (by omega), Function.update_of_ne (by omega)]

/-- A payload is carried behind the header only if it is empty. -/
theorem packetPayload_buildHeader_iff (id : UInt16) (packet : NetPacket)
    (srcAddr destAddr : Ipv4Addr) (protocol ttl : UInt8) :
    packetPayload (ipv4BuildHeader id packet srcAddr destAddr protocol ttl) =
      slice packet.bytes 0 packet.length ↔ packet.length = 0 := by
  constructor
  · intro heq
    have hlen := congrArg List.length heq
    rw [packetPayload, length_slice, length_slice, ipv4BuildHeader] at hlen
    dsimp only at hlen
    omega
  · intro h0
    rw [packetPayload, ipv4BuildHeader]
    simp [h0]

/-- Sending is the common end, once there are a route and a configuration. -/
theorem sendRight_iff {route : ℕ} {config : Ipv4Config}
    (hroute : ipv4FindRoute t.table destAddr = some route) (hne : route ≠ 0)
    (hconfig : ipv4GetInterfaceConfig t.net (t.table.route route).iface = some config) :
    SendRight driver junk t packet destAddr protocol ttl ↔
      TransmitRight driver junk { t with ipId := t.ipId + 1 } (t.table.route route).iface
        (ipv4BuildHeader t.ipId packet config.addr destAddr protocol ttl)
        ((20 + packet.length) % 2 ^ 16) (slice packet.bytes 0 packet.length) := by
  have hsend := @ipv4SendPacket_transmit driver junk t packet destAddr protocol ttl route config
    hroute hne hconfig
  have hdf := dontFragment_buildHeader t.ipId packet config.addr destAddr protocol ttl
  constructor
  · rintro ⟨hsizes, hhanded⟩
    refine ⟨fun hlt _ => hsizes route config hroute hne hconfig hlt, ?_⟩
    rwa [hsend] at hhanded
  · rintro ⟨hsizes, hhanded⟩
    refine ⟨fun route' config' hroute' _ _ hlt => ?_, ?_⟩
    · obtain rfl := Option.some_inj.mp (hroute'.symm.trans hroute)
      exact hsizes hlt hdf
    · rwa [hsend]

/-- Forwarding is the common end, once there is a route. -/
theorem forwardRight_iff {route : ℕ} (httl : ¬ (ipv4Header packet.bytes).ttl ≤ 1)
    (hroute : ipv4FindRoute t.table (ipv4Header packet.bytes).destAddr = some route)
    (hne : route ≠ 0) : ForwardRight driver junk t packet ↔
      TransmitRight driver junk t (t.table.route route).iface (ipv4Hop packet) packet.length
        (packetPayload packet) := by
  obtain ⟨ttl, checksum, hheader⟩ := ipv4Header_hop packet
  have hdf := dontFragment_hop packet
  have hforward : ipv4ForwardPacket driver junk t packet =
      ipv4Transmit driver junk t (t.table.route route).iface (ipv4Hop packet) packet.length := by
    rw [ipv4ForwardPacket, if_neg httl]
    simp only [hheader, hroute, if_neg hne]
    rfl
  constructor
  · rintro ⟨hsizes, hhanded⟩
    refine ⟨fun hlt hdf' => ?_, ?_⟩
    · exact hsizes route (UInt8.not_le.mp httl) hroute hne hlt (hdf.symm.trans hdf')
    · rwa [hforward] at hhanded
  · rintro ⟨hsizes, hhanded⟩
    refine ⟨fun route' _ hroute' _ hlt hdf' => ?_, ?_⟩
    · obtain rfl := Option.some_inj.mp (hroute'.symm.trans hroute)
      exact hsizes hlt (hdf.trans hdf')
    · rwa [hforward]

/-- The common end is right for all memory and drivers exactly under its condition. -/
theorem ipv4Transmit_right_iff {payload : List UInt8}
    (hover : (t.net.iface p).mtu.toNat < length → 28 ≤ (t.net.iface p).mtu.toNat →
      (t.net.iface p).mtu.toNat < (ipv4Header packet.bytes).totalLength.toNat ∨
        20 < packet.length ∧ payload = packetPayload packet) :
    (∀ driver junk pmm, TransmitRight driver junk (t.setPmm pmm) p packet length payload) ↔
      TransmitCondition t.net p packet length payload := by
  constructor
  · intro h
    exact TransmitCondition.of_right (t := t.setPmm pmmEight) hover rfl
      (h willingDriver (fun _ => packet) pmmEight)
  · intro h driver junk pmm
    exact TransmitRight.of_condition h

/-- The condition of the common end, of the packet that is sent. -/
theorem transmitCondition_buildHeader_iff {route : ℕ} {config : Ipv4Config} (hne : route ≠ 0)
    (hconfig : ipv4GetInterfaceConfig t.net (t.table.route route).iface = some config) :
    TransmitCondition t.net (t.table.route route).iface
        (ipv4BuildHeader t.ipId packet config.addr destAddr protocol ttl)
        ((20 + packet.length) % 2 ^ 16) (slice packet.bytes 0 packet.length) ↔
      SendCondition t packet route := by
  rw [TransmitCondition, SendCondition, totalLength_buildHeader, packetPayload_buildHeader_iff,
    dontFragment_buildHeader, hconfig]
  have hmod : (20 + packet.length) % 2 ^ 16 < 65536 := Nat.mod_lt _ (by decide)
  constructor
  · rintro (⟨hle, h⟩ | ⟨hlt, h | ⟨⟨hmin, -, hlen⟩, h⟩⟩)
    · exact Or.inr (Or.inr (Or.inl ⟨hle, h.imp_right And.right⟩))
    · cases h
    · exact Or.inr (Or.inr (Or.inr ⟨hlt, ⟨hmin, hlen⟩, h⟩))
  · rintro (h | h | ⟨hle, h⟩ | ⟨hlt, ⟨hmin, hlen⟩, h⟩)
    · exact absurd h hne
    · cases h
    · exact Or.inl ⟨hle, h.imp_right (⟨hle, ·⟩)⟩
    · refine Or.inr ⟨hlt, Or.inr ⟨⟨hmin, ?_, hlen⟩, h⟩⟩
      exact Nat.lt_trans (Nat.lt_trans hlt hmod) (by decide)

/-- And of the packet that is forwarded. -/
theorem transmitCondition_hop_iff {route : ℕ} (httl : ¬ (ipv4Header packet.bytes).ttl ≤ 1)
    (hne : route ≠ 0) :
    TransmitCondition t.net (t.table.route route).iface (ipv4Hop packet) packet.length
        (packetPayload packet) ↔ ForwardCondition t packet route := by
  obtain ⟨ttl, checksum, hheader⟩ := ipv4Header_hop packet
  have htotal : (ipv4Header (ipv4Hop packet).bytes).totalLength =
      (ipv4Header packet.bytes).totalLength := by
    rw [hheader]
  rw [TransmitCondition, ForwardCondition, htotal, packetPayload_hop, dontFragment_hop]
  constructor
  · rintro (⟨hle, h⟩ | ⟨hlt, h⟩)
    · exact Or.inr (Or.inr (Or.inl ⟨hle, h.imp_right And.left⟩))
    · refine Or.inr (Or.inr (Or.inr ⟨hlt, h.imp_right ?_⟩))
      rintro ⟨⟨hmin, -, -, hlen⟩, h⟩
      exact ⟨⟨hmin, hlen⟩, h⟩
  · rintro (h | h | ⟨hle, h⟩ | ⟨hlt, h⟩)
    · exact absurd h httl
    · exact absurd h hne
    · exact Or.inl ⟨hle, h.imp_right (⟨·, rfl⟩)⟩
    · refine Or.inr ⟨hlt, h.imp_right ?_⟩
      rintro ⟨⟨hmin, hlen⟩, h⟩
      exact ⟨⟨hmin, Nat.lt_trans hlt hlen, Nat.le_trans (by decide)
        (Nat.le_trans hmin (Nat.le_of_lt hlt)), hlen⟩, h⟩

theorem send_right_iff {route : ℕ} (hroute : ipv4FindRoute t.table destAddr = some route) :
    (∀ driver junk pmm, SendRight driver junk (t.setPmm pmm) packet destAddr protocol ttl) ↔
      SendCondition t packet route := by
  -- a call that does not come to the common end
  have hfalse : (∀ config, route ≠ 0 →
        ipv4GetInterfaceConfig t.net (t.table.route route).iface ≠ some config) →
      (∀ driver junk pmm, ipv4SendPacket driver junk (t.setPmm pmm) packet destAddr protocol ttl =
        some (false, t.setPmm pmm)) →
      ∀ driver junk pmm, SendRight driver junk (t.setPmm pmm) packet destAddr protocol ttl := by
    intro hnone hresult driver junk pmm
    refine ⟨fun route' config hroute' hne hconfig => ?_, _, _, hresult driver junk pmm, by simp⟩
    obtain rfl := Option.some_inj.mp (hroute'.symm.trans hroute)
    exact absurd hconfig (hnone config hne)
  rcases eq_or_ne route 0 with rfl | hne
  · refine iff_of_true (hfalse (fun _ h => absurd rfl h) fun driver junk pmm => ?_) (Or.inl rfl)
    have hroute : ipv4FindRoute (t.setPmm pmm).table destAddr = some 0 := hroute
    simp only [ipv4SendPacket, hroute, if_true]
  cases hconfig : ipv4GetInterfaceConfig t.net (t.table.route route).iface with
  | none =>
    refine iff_of_true (hfalse (fun config _ h => ?_) fun driver junk pmm => ?_)
      (Or.inr (Or.inl hconfig))
    · exact nomatch hconfig.symm.trans h
    · have hroute : ipv4FindRoute (t.setPmm pmm).table destAddr = some route := hroute
      have hconfig : ipv4GetInterfaceConfig (t.setPmm pmm).net
          ((t.setPmm pmm).table.route route).iface = none := hconfig
      simp only [ipv4SendPacket, hroute, if_neg hne, hconfig]
  | some config =>
    have hright : (∀ driver junk pmm,
        SendRight driver junk (t.setPmm pmm) packet destAddr protocol ttl) ↔
        ∀ driver junk pmm, TransmitRight driver junk
          (Transmit.setPmm { t with ipId := t.ipId + 1 } pmm) (t.table.route route).iface
          (ipv4BuildHeader t.ipId packet config.addr destAddr protocol ttl)
          ((20 + packet.length) % 2 ^ 16) (slice packet.bytes 0 packet.length) :=
      forall_congr' fun driver => forall_congr' fun junk => forall_congr' fun pmm =>
        sendRight_iff (t := t.setPmm pmm) hroute hne hconfig
    rw [hright, ipv4Transmit_right_iff]
    · exact transmitCondition_buildHeader_iff (t := t) hne hconfig
    · intro hlt _
      rw [totalLength_buildHeader]
      exact Or.inl hlt

theorem forward_right_iff {route : ℕ}
    (hroute : ipv4FindRoute t.table (ipv4Header packet.bytes).destAddr = some route) :
    (∀ driver junk pmm, ForwardRight driver junk (t.setPmm pmm) packet) ↔
      ForwardCondition t packet route := by
  obtain ⟨ttl, checksum, hheader⟩ := ipv4Header_hop packet
  by_cases httl : (ipv4Header packet.bytes).ttl ≤ 1
  · refine iff_of_true (fun driver junk pmm => ⟨?_, false, t.setPmm pmm, if_pos httl, by simp⟩)
      (Or.inl httl)
    intro route' hlt
    exact absurd httl (UInt8.not_le.mpr hlt)
  rcases eq_or_ne route 0 with rfl | hne
  · refine iff_of_true (fun driver junk pmm => ⟨?_, false, t.setPmm pmm, ?_, by simp⟩)
      (Or.inr (Or.inl rfl))
    · intro route' _ hroute' hne
      exact absurd (Option.some_inj.mp (hroute'.symm.trans hroute)) hne
    · have hroute : ipv4FindRoute (t.setPmm pmm).table (ipv4Header packet.bytes).destAddr =
          some 0 := hroute
      rw [ipv4ForwardPacket, if_neg httl]
      simp only [hheader, hroute, if_true]
  have hright : (∀ driver junk pmm, ForwardRight driver junk (t.setPmm pmm) packet) ↔
      ∀ driver junk pmm, TransmitRight driver junk (t.setPmm pmm) (t.table.route route).iface
        (ipv4Hop packet) packet.length (packetPayload packet) :=
    forall_congr' fun driver => forall_congr' fun junk => forall_congr' fun pmm =>
      forwardRight_iff (t := t.setPmm pmm) httl hroute hne
  rw [hright, ipv4Transmit_right_iff]
  · exact transmitCondition_hop_iff httl hne
  · intro hlt hmin
    refine Or.inr ⟨?_, (packetPayload_hop packet).symm⟩
    show 20 < packet.length
    exact Nat.lt_of_lt_of_le (by decide) (Nat.le_trans hmin (Nat.le_of_lt hlt))

/-- **When sending and forwarding are right**, whatever memory and drivers do. -/
theorem transmit_right_iff {route route' : ℕ}
    (hroute : ipv4FindRoute t.table destAddr = some route)
    (hroute' : ipv4FindRoute t.table (ipv4Header packet.bytes).destAddr = some route') :
    ((∀ driver junk pmm, SendRight driver junk (t.setPmm pmm) packet destAddr protocol ttl) ↔
        SendCondition t packet route) ∧
      ((∀ driver junk pmm, ForwardRight driver junk (t.setPmm pmm) packet) ↔
        ForwardCondition t packet route') :=
  ⟨send_right_iff hroute, forward_right_iff hroute'⟩

end

/-! ### What each step keeps -/

/-- A relation between what the stack is before and after: whatever is handed to a driver, and
whatever becomes of a turn of the fragmenter, it holds. -/
structure Sends (driver : Driver) (R : Transmit → Transmit → Prop) : Prop where
  refl : ∀ t, R t t
  trans : ∀ t u v, R t u → R u v → R t v
  ipId : ∀ t ipId, R t { t with ipId }
  packet : ∀ t p packet, R t (netSendPacket driver t p packet).2
  turn : ∀ junk packet dataLen maxData count i w,
    Loop.Post (fun w' => R w.1 w'.1) (fun t' => R w.1 t')
      (fragmentTurn driver junk packet dataLen maxData count i w)

namespace Sends

variable {driver : Driver} {R : Transmit → Transmit → Prop} {junk : ℕ → NetPacket}
  {t t' : Transmit} {packet : NetPacket} {answer : Bool} {p : ℕ}

/-- The loop of the fragmenter, whether it runs to its end or not. -/
theorem loop (h : Sends driver R) (junk : ℕ → NetPacket) (packet : NetPacket)
    (dataLen maxData : UInt16) (count n : ℕ) (w : Transmit × UInt16) :
    Loop.Post (fun w' => R w.1 w'.1) (fun t' => R w.1 t')
      (Loop.tryRange (fragmentTurn driver junk packet dataLen maxData count) n 0 w) := by
  refine Loop.tryRange_inv _ (fun _ (w' : Transmit × UInt16) => R w.1 w'.1) _
    (h.refl w.1) fun i w' _ _ hw => ?_
  have hturn := h.turn junk packet dataLen maxData count i w'
  cases hres : fragmentTurn driver junk packet dataLen maxData count i w' with
  | ok w'' => rw [hres] at hturn; exact h.trans _ _ _ hw hturn
  | error t' => rw [hres] at hturn; exact h.trans _ _ _ hw hturn

theorem fragment (h : Sends driver R) {mtu : UInt16}
    (hsend : ipv4FragmentPacket driver junk t packet mtu = some (answer, t')) : R t t' := by
  rw [ipv4FragmentPacket] at hsend
  dsimp only at hsend
  split_ifs at hsend
  · obtain ⟨-, rfl⟩ := Prod.mk.inj (Option.some_inj.mp hsend)
    exact h.refl t
  · have hloop := h.loop junk packet (fragPayload packet.length) (fragMaxData mtu)
      (((fragPayload packet.length).toNat + (fragMaxData mtu).toNat - 1) /
        (fragMaxData mtu).toNat)
      (((fragPayload packet.length).toNat + (fragMaxData mtu).toNat - 1) /
        (fragMaxData mtu).toNat) (t, 0)
    split at hsend
    · next heq =>
      rw [heq] at hloop
      obtain ⟨-, rfl⟩ := Prod.mk.inj (Option.some_inj.mp hsend)
      exact hloop
    · next heq =>
      rw [heq] at hloop
      obtain ⟨-, rfl⟩ := Prod.mk.inj (Option.some_inj.mp hsend)
      exact hloop

theorem transmit (h : Sends driver R) {length : ℕ}
    (hsend : ipv4Transmit driver junk t p packet length = some (answer, t')) : R t t' := by
  rw [ipv4Transmit] at hsend
  split_ifs at hsend with hlong
  · rcases hfrag : ipv4FragmentPacket driver junk t packet (t.net.iface p).mtu.toUInt16 with
      _ | ⟨_ | _, u⟩ <;> rw [hfrag] at hsend
    · cases hsend
    · obtain ⟨-, rfl⟩ := Prod.mk.inj (Option.some_inj.mp hsend)
      exact h.fragment hfrag
    · have hpacket := h.packet u p packet
      rw [Option.some_inj.mp hsend] at hpacket
      exact h.trans _ _ _ (h.fragment hfrag) hpacket
  · have hpacket := h.packet t p packet
    rw [Option.some_inj.mp hsend] at hpacket
    exact hpacket

theorem sendPacket (h : Sends driver R) {destAddr : Ipv4Addr} {protocol ttl : UInt8}
    (hsend : ipv4SendPacket driver junk t packet destAddr protocol ttl = some (answer, t')) :
    R t t' := by
  rw [ipv4SendPacket] at hsend
  cases hroute : ipv4FindRoute t.table destAddr with
  | none => rw [hroute] at hsend; cases hsend
  | some route =>
    rw [hroute] at hsend
    dsimp only at hsend
    split_ifs at hsend with h0
    · obtain ⟨-, rfl⟩ := Prod.mk.inj (Option.some_inj.mp hsend)
      exact h.refl t
    · cases hconfig : ipv4GetInterfaceConfig t.net (t.table.route route).iface with
      | none =>
        rw [hconfig] at hsend
        obtain ⟨-, rfl⟩ := Prod.mk.inj (Option.some_inj.mp hsend)
        exact h.refl t
      | some config =>
        rw [hconfig] at hsend
        exact h.trans _ _ _ (h.ipId t _) (h.transmit hsend)

theorem forwardPacket (h : Sends driver R)
    (hsend : ipv4ForwardPacket driver junk t packet = some (answer, t')) : R t t' := by
  rw [ipv4ForwardPacket] at hsend
  split_ifs at hsend with httl
  · obtain ⟨-, rfl⟩ := Prod.mk.inj (Option.some_inj.mp hsend)
    exact h.refl t
  · dsimp only at hsend
    cases hroute : ipv4FindRoute t.table (ipv4Header (ipv4Hop packet).bytes).destAddr with
    | none => rw [hroute] at hsend; cases hsend
    | some route =>
      rw [hroute] at hsend
      dsimp only at hsend
      split_ifs at hsend with h0
      · obtain ⟨-, rfl⟩ := Prod.mk.inj (Option.some_inj.mp hsend)
        exact h.refl t
      · exact h.transmit hsend

end Sends

/-! ### An interface, and a route to it -/

/-- An interface with this MTU, configured, and the route to everything through it. -/
def oneInterface (mtu : UInt32) : Transmit where
  table := { oneRoute.table with pmm := pmmEight }
  net := ⟨4096, 1, fun _ => { newInterface with mtu, driverData := 8192 }, fun _ => emptyConfig⟩
  ipId := 0
  sent := []

theorem find_oneInterface (mtu : UInt32) :
    ipv4FindRoute (oneInterface mtu).table zeroAddr = some 4096 := by
  show ipv4FindRoute (oneInterface 0).table zeroAddr = some 4096
  decide +kernel

/-- A packet of this length, with a header that says so, and sixty-four hops to go. -/
def packetOf (length : UInt8) : NetPacket where
  addr := 0
  data := 0
  bytes := fun k => if k = 2 then length else if k = 8 then 64 else 0
  length := length.toNat
  protocol := .udp
  priority := 0
  iface := 4096
  srcAddr := zeroAddr
  destAddr := zeroAddr

theorem find_packetOf (mtu : UInt32) (length : UInt8) :
    ipv4FindRoute (oneInterface mtu).table (ipv4Header (packetOf length).bytes).destAddr =
      some 4096 := by
  have hdest : (ipv4Header (packetOf length).bytes).destAddr = zeroAddr := by
    refine congrArg Ipv4Addr.mk (funext fun k => ?_)
    show (if 16 + (k : ℕ) = 2 then length else if 16 + (k : ℕ) = 8 then 64 else 0) = 0
    rw [if_neg (by omega), if_neg (by omega)]
  rw [hdest]
  exact find_oneInterface mtu

theorem ipv4SendPacket_header_eight :
    ipv4SendPacket willingDriver (fun _ => packetOf 0) (oneInterface 1500) (packetOf 8) zeroAddr 17
        0 = some (netSendPacket willingDriver { oneInterface 1500 with ipId := 0 + 1 } 4096
          (ipv4BuildHeader 0 (packetOf 8) emptyConfig.addr zeroAddr 17 0)) ∧
      (ipv4BuildHeader 0 (packetOf 8) emptyConfig.addr zeroAddr 17 0).length = (packetOf 8).length ∧
      (∀ k, 20 ≤ k → (ipv4BuildHeader 0 (packetOf 8) emptyConfig.addr zeroAddr 17 0).bytes k =
        (packetOf 8).bytes k) ∧
      ¬ CarriesPayload (slice (packetOf 8).bytes 0 (packetOf 8).length) emptyConfig.addr zeroAddr 17
        0 (ipv4BuildHeader 0 (packetOf 8) emptyConfig.addr zeroAddr 17 0) :=
  ipv4SendPacket_header (find_oneInterface 1500) (by decide) rfl (by decide)

/-- A payload of eight bytes: the driver is given a packet of eight bytes. -/
theorem not_carriesPayload_eight : ∃ t' sent,
    ipv4SendPacket willingDriver (fun _ => packetOf 0) (oneInterface 1500) (packetOf 8) zeroAddr 17
        0 = some (true, t') ∧ t'.sent = [(4096, sent)] ∧ sent.length = 8 ∧
      ¬ CarriesPayload (slice (packetOf 8).bytes 0 8) emptyConfig.addr zeroAddr 17 0 sent := by
  have hcan : CanSend (oneInterface 1500).net 4096 := ⟨by decide, rfl⟩
  obtain ⟨t', hsend, hsent, -⟩ := netSendPacket_can (t := { oneInterface 1500 with ipId := 0 + 1 })
    willingDriver (ipv4BuildHeader 0 (packetOf 8) emptyConfig.addr zeroAddr 17 0) hcan
  refine ⟨t', _, ?_, hsent, rfl,
    not_carriesPayload 0 (packetOf 8) emptyConfig.addr zeroAddr 17 0⟩
  exact (ipv4SendPacket_short (find_oneInterface 1500) (by decide) rfl (by decide)).trans
    (congrArg some hsend)

theorem transmit_right_iff_eight :
    ((∀ driver junk pmm, SendRight driver junk ((oneInterface 1500).setPmm pmm) (packetOf 8)
        zeroAddr 17 0) ↔ SendCondition (oneInterface 1500) (packetOf 8) 4096) ∧
      ((∀ driver junk pmm, ForwardRight driver junk ((oneInterface 1500).setPmm pmm)
        (packetOf 8)) ↔ ForwardCondition (oneInterface 1500) (packetOf 8) 4096) :=
  transmit_right_iff (find_oneInterface 1500) (find_packetOf 1500 8)

/-- A packet of thirty-six bytes for an interface that takes twenty-eight: its two fragments are
sent, and then the packet itself. -/
theorem not_forwardRight_thirtySix :
    ¬ ForwardRight willingDriver (fun _ => packetOf 0) (oneInterface 28) (packetOf 36) := by
  intro hright
  have hcan : CanSend (oneInterface 28).net 4096 := ⟨by decide, rfl⟩
  have hcommon := (forwardRight_iff (by decide) (find_packetOf 28 36) (by decide)).mp hright
  have hover : 20 < (ipv4Hop (packetOf 36)).length ∧
      packetPayload (packetOf 36) = packetPayload (ipv4Hop (packetOf 36)) :=
    ⟨show 20 < (packetOf 36).length by decide, (packetPayload_hop _).symm⟩
  rcases TransmitCondition.of_right (fun _ _ => Or.inr hover) rfl hcommon with
    ⟨hle, -⟩ | ⟨-, hdf | ⟨-, hcannot | ⟨-, hcannot | hlarge⟩⟩⟩
  · exact absurd hle (by decide)
  · rw [dontFragment_hop] at hdf
    exact absurd hdf (by decide)
  · exact hcannot hcan
  · exact hcannot hcan
  · exact absurd hlarge (by decide)

end Rexus
