import Rexus.Lib.Linked
import Rexus.Lib.Run
import Rexus.Net.Packet

/-!
# The interface list

The registration functions of `net/net.c`, and the walks over the list of registered interfaces.
The list goes through the interface structures, which belong to the drivers; an interface keeps its
`next` pointer when it is unregistered. What a driver's `init` answers is an argument of the
registration; nothing else about the driver matters to the list.

A walk over 32-bit pointers that has taken `2 ^ 32` steps has come back to where it was, so this
many turns decide whether a loop ends; `none` is one that does not.

## Main results

* `InterfaceInv.step` — one call keeps the invariant, if what is registered has no `next` pointer
* `interface_run` — the list after every run, and the calls that would break it

## Conventions

Interfaces are known by the addresses of their structures, which the drivers allocate and keep; zero
is the null pointer. A structure that has never been registered has a `next` pointer of zero, as the
drivers clear it. The answer of an interface's own `init` is an argument of the call, and a refusal
leaves the list as it was.

`Allowed` is what the drivers keep to: nothing is registered twice without having been unregistered,
and only what is registered is unregistered. It does not exclude that an interface is registered
again with the pointer it had before, which is what `Clean` is about. Names, statistics and the
operations of an interface are not part of the list, and the fields that other modules need are
carried along unchanged.
-/

namespace Rexus

open Linked Loop Run

/-! ### The data -/

/-- `ipv4_config_t`. -/
structure Ipv4Config where
  addr : Ipv4Addr
  netmask : Ipv4Addr
  broadcast : Ipv4Addr
  gateway : Ipv4Addr
  dhcpEnabled : Bool
  dhcpLeaseTime : UInt32

/-- `net_interface_t`: whether the operations are there, and the fields the stack uses. -/
structure NetInterface where
  hasInit : Bool
  hasSend : Bool
  hasReceive : Bool
  mtu : UInt32
  txPackets : UInt64
  txBytes : UInt64
  txErrors : UInt64
  driverData : ℕ
  next : ℕ

/-- `net_state`, the interface structures by address, and what the memory at an address reads as
when it is taken for an IPv4 configuration. -/
structure NetState where
  interfaces : ℕ
  interfaceCount : UInt32
  iface : ℕ → NetInterface
  configAt : ℕ → Ipv4Config

/-- Turns enough for every walk over 32-bit pointers that ends. -/
def listFuel : ℕ := 2 ^ 32

namespace NetState

/-- The `next` pointers. -/
def next (s : NetState) (p : ℕ) : ℕ := (s.iface p).next

/-- `p->next = q`. -/
def setNext (s : NetState) (p q : ℕ) : NetState :=
  { s with iface := Function.update s.iface p { s.iface p with next := q } }

theorem next_setNext (s : NetState) (p q : ℕ) :
    (s.setNext p q).next = Function.update s.next p q := by
  funext x
  rcases eq_or_ne x p with rfl | hx
  · simp [next, setNext]
  · simp [next, setNext, hx]

end NetState

/-! ### The functions -/

/-- `net_register_interface`, given what `iface->init` returns. -/
def netRegisterInterface (s : NetState) (p : ℕ) (init : Bool) : Option (Bool × NetState) :=
  if p = 0 ∨ (s.iface p).hasInit = false ∨ (s.iface p).hasSend = false ∨
      (s.iface p).hasReceive = false then some (false, s)
  else if init = false then some (false, s)
  else if s.interfaces = 0 then
    some (true, { s with interfaces := p, interfaceCount := s.interfaceCount + 1 })
  else
    (iterate (searchTurn s.next fun last => s.next last == 0) listFuel s.interfaces).map fun last =>
      (true, { s.setNext last p with interfaceCount := s.interfaceCount + 1 })

/-- The removal in `net_unregister_interface`. -/
def NetState.unlink (s : NetState) (p : ℕ) : Option NetState :=
  if s.interfaces = p then some { s with interfaces := s.next p }
  else
    (iterate (searchTurn s.next fun prev => prev == 0 || s.next prev == p) listFuel
      s.interfaces).map fun prev => if prev = 0 then s else s.setNext prev (s.next p)

/-- `net_unregister_interface`; `none` if the walk over the list does not end. The counter goes down
for any interface, whether it is in the list or not; for a null pointer nothing happens. -/
def netUnregisterInterface (s : NetState) (p : ℕ) : Option NetState :=
  if p = 0 then some s
  else (s.unlink p).map fun s => { s with interfaceCount := s.interfaceCount - 1 }

/-- The loop `while (index-- > 0 && iface) iface = iface->next`. -/
def NetState.skip (s : NetState) : ℕ → ℕ → ℕ
  | 0, p => p
  | n + 1, p => if p = 0 then 0 else s.skip n (s.next p)

/-- `net_get_interface_by_index`: the interface, or `0` from the counter on. The walk is bounded by
the index, and needs no fuel. -/
def netGetInterfaceByIndex (s : NetState) (index : UInt32) : ℕ :=
  if s.interfaceCount ≤ index then 0 else s.skip index.toNat s.interfaces

/-- `net_process_rx_queue`: the interfaces it polls. -/
def netProcessRxQueue (s : NetState) : Option (List ℕ) :=
  iterate (foldTurn s.next 0 fun polled p => polled ++ [p]) listFuel (s.interfaces, [])

/-- `ipv4_get_interface_config`: what the data pointer of the interface points to, read as a
configuration; `none` where the function says no. -/
def ipv4GetInterfaceConfig (s : NetState) (p : ℕ) : Option Ipv4Config :=
  if p = 0 then none
  else if (s.iface p).driverData = 0 then none
  else some (s.configAt (s.iface p).driverData)

/-- Has the interface this address? -/
def NetState.hasAddr (s : NetState) (a : Ipv4Addr) (p : ℕ) : Bool :=
  match ipv4GetInterfaceConfig s p with
  | some config => ipv4AddrEquals a config.addr
  | none => false

/-- `ipv4_addr_is_local`; `none` if the walk over the interfaces does not end. -/
def ipv4AddrIsLocal (s : NetState) (a : Ipv4Addr) : Option Bool :=
  (iterate (searchTurn s.next fun p => p == 0 || s.hasAddr a p) listFuel
    (netGetInterfaceByIndex s 0)).map (· != 0)

/-! ### Walks -/

section Walks

variable {s : NetState} {live : List ℕ} {p : ℕ}

theorem skip_eq (h : Seg s.next p live 0) (h0 : 0 ∉ live) {i : ℕ} (hi : i < live.length) :
    s.skip i p = live[i] := by
  induction live generalizing p i with
  | nil => exact absurd hi (Nat.not_lt_zero i)
  | cons x xs ih =>
    obtain ⟨rfl, h⟩ := h
    rw [List.mem_cons, not_or] at h0
    cases i with
    | zero => rfl
    | succ i =>
      rw [NetState.skip, if_neg (Ne.symm h0.1)]
      exact ih h h0.2 (Nat.lt_of_succ_lt_succ hi)

/-- A search finds an interface with the property if there is one. -/
theorem find_ne_zero {f : ℕ → Bool} (h0 : 0 ∉ live) :
    ((live.find? f).getD 0 != 0) = live.any f := by
  induction live with
  | nil => rfl
  | cons x xs ih =>
    rw [List.mem_cons, not_or] at h0
    rw [List.find?_cons, List.any_cons]
    cases hf : f x with
    | false => rw [ih h0.2, Bool.false_or]
    | true => simpa using Ne.symm h0.1

theorem foldl_concat (seen xs : List ℕ) : xs.foldl (fun l p => l ++ [p]) seen = seen ++ xs := by
  induction xs generalizing seen with
  | nil => exact (List.append_nil seen).symm
  | cons x xs ih => rw [List.foldl_cons, ih, List.append_assoc, List.singleton_append]

end Walks

/-! ### Runs -/

/-- The interfaces, and those registered at present, in the order of their registrations. -/
structure Registry where
  net : NetState
  live : List ℕ

/-- A call, with what the driver's `init` returns. Registrations that are refused are calls of a run
like any other. -/
inductive RegistryOp where
  | register (p : ℕ) (init : Bool)
  | unregister (p : ℕ)

namespace Registry

/-- One call; `none` if it does not return. An interface is registered if the call says so, and no
longer registered when it has been taken out. -/
def step (r : Registry) : RegistryOp → Option Registry
  | .register p init =>
    (netRegisterInterface r.net p init).map fun (ok, net) =>
      ⟨net, if ok = true then r.live ++ [p] else r.live⟩
  | .unregister p => (netUnregisterInterface r.net p).map fun net => ⟨net, r.live.erase p⟩

/-- An interface is registered only while it is not registered, and unregistered only while it
is. A pointer has 32 bits. -/
def Allowed (r : Registry) : RegistryOp → Prop
  | .register p _ => p < 2 ^ 32 ∧ p ∉ r.live
  | .unregister p => p ∈ r.live

/-- `net_register_interface` puts `p` into the list. -/
def Registers (r : Registry) (p : ℕ) (init : Bool) : Prop :=
  p ≠ 0 ∧ (r.net.iface p).hasInit = true ∧ (r.net.iface p).hasSend = true ∧
    (r.net.iface p).hasReceive = true ∧ init = true

/-- What is put into the list has no `next` pointer left from an earlier registration. -/
def Clean (r : Registry) : RegistryOp → Prop
  | .register p init => r.Registers p init → r.net.next p = 0
  | .unregister _ => True

/-- One allowed call. -/
def Step (r : Registry) (op : RegistryOp) (r' : Registry) : Prop :=
  r.Allowed op ∧ r.step op = some r'

/-- One allowed call that puts no stale pointer into the list. -/
def CleanStep (r : Registry) (op : RegistryOp) (r' : Registry) : Prop := r.Step op r' ∧ r.Clean op

end Registry

/-- What the list is to be. The run keeps a record of the interfaces that are registered, in their
order; the functions of the stack only have the `next` pointers, and must find the same. -/
structure InterfaceSpec (r : Registry) : Prop where
  /-- It is finite, and holds the registered interfaces in registration order, -/
  list : Seg r.net.next r.net.interfaces r.live 0
  /-- each of them once. -/
  nodup : r.live.Nodup
  count : r.net.interfaceCount.toNat = r.live.length
  byIndex : ∀ i (hi : i < r.live.length), netGetInterfaceByIndex r.net (UInt32.ofNat i) = r.live[i]
  /-- The walks end. -/
  rxQueue : netProcessRxQueue r.net = some r.live
  isLocal : ∀ a, ipv4AddrIsLocal r.net a = some (r.live.any (r.net.hasAddr a))

/-- The invariant. Beside what is to be shown it says that the addresses are pointers of 32 bits and
not null, which bounds the length of the list. -/
structure InterfaceInv (r : Registry) : Prop where
  list : Seg r.net.next r.net.interfaces r.live 0
  nodup : r.live.Nodup
  count : r.net.interfaceCount.toNat = r.live.length
  ne_zero : 0 ∉ r.live
  lt : ∀ p ∈ r.live, p < 2 ^ 32

/-- There are fewer interfaces than pointers. -/
theorem length_lt_listFuel {ps : List ℕ} (hnodup : ps.Nodup) (h0 : 0 ∉ ps)
    (hlt : ∀ p ∈ ps, p < 2 ^ 32) : ps.length < listFuel := by
  have hsub : ps.toFinset ⊆ Finset.Ico 1 (2 ^ 32) := by
    intro p hp
    rw [List.mem_toFinset] at hp
    rw [Finset.mem_Ico]
    exact ⟨Nat.pos_of_ne_zero fun hp0 => h0 (hp0 ▸ hp), hlt p hp⟩
  have hcard := Finset.card_le_card hsub
  rw [List.toFinset_card_of_nodup hnodup, Nat.card_Ico] at hcard
  rw [listFuel]
  omega

namespace InterfaceInv

variable {r r' : Registry} {p : ℕ}

theorem length_lt (h : InterfaceInv r) : r.live.length < listFuel :=
  length_lt_listFuel h.nodup h.ne_zero h.lt

theorem spec (h : InterfaceInv r) : InterfaceSpec r where
  list := h.list
  nodup := h.nodup
  count := h.count
  byIndex i hi := by
    have hlt := h.length_lt
    have hi32 : (UInt32.ofNat i).toNat = i := by
      rw [UInt32.toNat_ofNat']
      exact Nat.mod_eq_of_lt (by rw [listFuel] at hlt; omega)
    have hcount : ¬ r.net.interfaceCount ≤ UInt32.ofNat i := by
      rw [UInt32.le_iff_toNat_le, hi32, h.count]
      omega
    rw [netGetInterfaceByIndex, if_neg hcount, hi32]
    exact skip_eq h.list h.ne_zero hi
  rxQueue := by
    rw [netProcessRxQueue, iterate_fold h.list h.ne_zero h.length_lt, foldl_concat, List.nil_append]
  isLocal a := by
    have hhead : netGetInterfaceByIndex r.net 0 = r.net.interfaces := by
      rw [netGetInterfaceByIndex]
      split_ifs with hcount
      · rw [UInt32.le_iff_toNat_le, h.count] at hcount
        have hlive : r.live = [] := List.length_eq_zero_iff.mp (Nat.le_zero.mp hcount)
        have hlist := h.list
        rw [hlive] at hlist
        exact hlist.symm
      · rfl
    rw [ipv4AddrIsLocal, hhead, iterate_find_null h.list h.ne_zero h.length_lt, Option.map_some]
    exact congrArg some (find_ne_zero h.ne_zero)

/-- A registration that is refused changes nothing. -/
theorem netRegisterInterface_of_not {init : Bool} (hreg : ¬ r.Registers p init) :
    netRegisterInterface r.net p init = some (false, r.net) := by
  rw [Registry.Registers] at hreg
  rw [netRegisterInterface]
  split_ifs with hops hinit
  · rfl
  · rfl
  all_goals simp_all

/-- The registration of an interface that is not in the list. -/
theorem register_eq (h : InterfaceInv r) {init : Bool} (hreg : r.Registers p init) :
    netRegisterInterface r.net p init = some (true,
      { (match r.live.getLast? with
          | none => { r.net with interfaces := p }
          | some last => r.net.setNext last p) with
        interfaceCount := r.net.interfaceCount + 1 }) := by
  obtain ⟨hp, hinit, hsend, hreceive, rfl⟩ := hreg
  rw [netRegisterInterface, if_neg (by simp [hp, hinit, hsend, hreceive]), if_neg (by simp)]
  have hlist := h.list
  rcases List.eq_nil_or_concat' r.live with hlive | ⟨us, last, hlive⟩
  · rw [hlive] at hlist ⊢
    have h0 : r.net.interfaces = 0 := hlist
    rw [if_pos h0]
    rfl
  · have hlt := h.length_lt
    have hne := h.ne_zero
    rw [hlive] at hlist hlt hne ⊢
    rw [List.getLast?_concat, if_neg]
    · have hlast : iterate (searchTurn r.net.next fun last => r.net.next last == 0) listFuel
          r.net.interfaces = some last := by
        refine iterate_search hlist (fun x hx => ?_) ?_ (by simp at hlt; omega)
        · rw [beq_eq_false_iff_ne]
          exact fun hx0 => hne (hx0 ▸ hlist.next_mem_of_mem_init hx)
        · rw [beq_iff_eq]
          exact hlist.next_eq
      rw [hlast]
      rfl
    · intro h0
      have hstart := hlist.start_eq
      rw [h0] at hstart
      cases us with
      | nil => exact hne (List.mem_append_right _ (List.mem_singleton.mpr hstart))
      | cons u us => exact hne (List.mem_append_left _ (List.mem_cons.mpr (Or.inl hstart)))

/-- The counter does not wrap: a pointer that is not in the list yet is one more. -/
theorem count_succ (h : InterfaceInv r) (hp : p ≠ 0) (hlt : p < 2 ^ 32) (hnew : p ∉ r.live) :
    (r.net.interfaceCount + 1).toNat = r.live.length + 1 := by
  have hcard : (p :: r.live).length < listFuel := by
    refine length_lt_listFuel (List.nodup_cons.mpr ⟨hnew, h.nodup⟩) ?_ ?_
    · rw [List.mem_cons, not_or]
      exact ⟨Ne.symm hp, h.ne_zero⟩
    · exact List.forall_mem_cons.mpr ⟨hlt, h.lt⟩
  rw [UInt32.toNat_add, h.count]
  exact Nat.mod_eq_of_lt hcard

/-- The list after a registration goes on where the new interface points. -/
theorem register (h : InterfaceInv r) {init : Bool} (hreg : r.Registers p init)
    (hnew : p ∉ r.live) :
    ∃ net, netRegisterInterface r.net p init = some (true, net) ∧
      Seg net.next net.interfaces (r.live ++ [p]) (r.net.next p) ∧ net.next p = r.net.next p ∧
      net.interfaceCount = r.net.interfaceCount + 1 := by
  refine ⟨_, h.register_eq hreg, ?_⟩
  have hlist := h.list
  have hnodup := h.nodup
  rcases List.eq_nil_or_concat' r.live with hlive | ⟨us, last, hlive⟩
  · rw [hlive]
    exact ⟨⟨rfl, rfl⟩, rfl, rfl⟩
  · rw [hlive] at hlist hnodup hnew ⊢
    have hne : p ≠ last := fun hp => hnew (hp ▸ List.mem_append_right us List.mem_cons_self)
    rw [List.getLast?_concat, List.append_assoc]
    show Seg (r.net.setNext last p).next _ _ _ ∧ (r.net.setNext last p).next p = _ ∧ _
    rw [NetState.next_setNext]
    exact ⟨hlist.snoc hnodup hnew, Function.update_of_ne hne _ _, rfl⟩

/-- A removal from the list. -/
theorem unregister (h : InterfaceInv r) (hp : p ∈ r.live) :
    ∃ net, netUnregisterInterface r.net p = some net ∧
      Seg net.next net.interfaces (r.live.erase p) 0 ∧
      net.interfaceCount = r.net.interfaceCount - 1 := by
  have hp0 : p ≠ 0 := fun hp0 => h.ne_zero (hp0 ▸ hp)
  have hlist := h.list
  have hnodup := h.nodup
  have hlt := h.length_lt
  have hne := h.ne_zero
  rw [netUnregisterInterface, if_neg hp0]
  obtain ⟨us, vs, hlive⟩ := List.append_of_mem hp
  rw [hlive] at hlist hnodup hlt hne ⊢
  have hus : p ∉ us := fun hus => (List.nodup_append.mp hnodup).2.2 p hus p List.mem_cons_self rfl
  rw [List.erase_append_right _ hus, List.erase_cons_head]
  rcases List.eq_nil_or_concat' us with rfl | ⟨ws, a, rfl⟩
  · obtain ⟨rfl, hlist⟩ := hlist
    rw [NetState.unlink, if_pos rfl]
    exact ⟨_, rfl, hlist, rfl⟩
  · rw [List.append_assoc] at hlist hnodup hlt hne
    have hhead : r.net.interfaces ≠ p := by
      rw [hlist.start_eq]
      cases ws with
      | nil => exact fun ha => hus (ha ▸ List.mem_cons_self)
      | cons w ws => exact fun hw => hus (hw ▸ List.mem_cons_self)
    have hprev : iterate (searchTurn r.net.next fun prev => prev == 0 || r.net.next prev == p)
        listFuel r.net.interfaces = some a := by
      refine iterate_search hlist (fun x hx => ?_) ?_ ?_
      · rw [Bool.or_eq_false_iff, beq_eq_false_iff_ne, beq_eq_false_iff_ne]
        exact ⟨fun hx0 => hne (hx0 ▸ List.mem_append_left _ hx), hlist.next_ne hnodup hx⟩
      · rw [Bool.or_eq_true, beq_iff_eq, beq_iff_eq]
        exact Or.inr hlist.next_eq
      · rw [List.length_append] at hlt
        omega
    have ha0 : a ≠ 0 := fun ha => hne (ha ▸ List.mem_append_right ws List.mem_cons_self)
    have hunlink := hlist.unlink hnodup
    rw [NetState.unlink, if_neg hhead, hprev, Option.map_some, if_neg ha0, List.append_assoc]
    refine ⟨_, rfl, ?_, rfl⟩
    rwa [← NetState.next_setNext] at hunlink

/-- **One call keeps the invariant**, if what it puts into the list has no `next` pointer. -/
theorem step (h : InterfaceInv r) {op : RegistryOp} (hstep : r.CleanStep op r') :
    InterfaceInv r' := by
  obtain ⟨⟨hop, hr'⟩, hclean⟩ := hstep
  cases op with
  | register p init =>
    obtain ⟨hlt, hnew⟩ := hop
    by_cases hreg : r.Registers p init
    · obtain ⟨net, hnet, hlist, -, hcount⟩ := h.register hreg hnew
      rw [Registry.step, hnet] at hr'
      obtain rfl := Option.some_inj.mp hr'
      rw [hclean hreg] at hlist
      refine ⟨hlist, List.nodup_append.mpr ⟨h.nodup, List.nodup_singleton p, ?_⟩, ?_, ?_, ?_⟩
      · rintro x hx y hy rfl
        exact hnew (List.mem_singleton.mp hy ▸ hx)
      · show net.interfaceCount.toNat = (r.live ++ [p]).length
        rw [hcount, h.count_succ hreg.1 hlt hnew, List.length_append]
        rfl
      · show 0 ∉ r.live ++ [p]
        rw [List.mem_append, not_or, List.mem_singleton]
        exact ⟨h.ne_zero, Ne.symm hreg.1⟩
      · exact List.forall_mem_append.mpr ⟨h.lt, List.forall_mem_singleton.mpr hlt⟩
    · rw [Registry.step, netRegisterInterface_of_not hreg] at hr'
      obtain rfl := Option.some_inj.mp hr'
      exact h
  | unregister p =>
    obtain ⟨net, hnet, hlist, hcount⟩ := h.unregister hop
    rw [Registry.step, hnet] at hr'
    obtain rfl := Option.some_inj.mp hr'
    refine ⟨hlist, h.nodup.erase p, ?_, fun h0 => h.ne_zero (List.mem_of_mem_erase h0),
      fun x hx => h.lt x (List.mem_of_mem_erase hx)⟩
    have hpos := List.length_pos_of_mem hop
    have hle := r.net.interfaceCount.toNat_lt
    show net.interfaceCount.toNat = (r.live.erase p).length
    rw [hcount, List.length_erase_of_mem hop, ← h.count, UInt32.toNat_sub_of_le]
    · rfl
    · rw [UInt32.le_iff_toNat_le, h.count]
      exact hpos

/-- A registration that puts a stale pointer into the list. -/
theorem not_spec_of_not_clean (h : InterfaceInv r) {op : RegistryOp} (hop : r.Allowed op)
    (hclean : ¬ r.Clean op) : ∃ r', r.step op = some r' ∧ ¬ InterfaceSpec r' := by
  cases op with
  | register p init =>
    rw [Registry.Clean, Classical.not_imp] at hclean
    obtain ⟨net, hnet, hlist, -⟩ := h.register hclean.1 hop.2
    refine ⟨⟨net, r.live ++ [p]⟩, by rw [Registry.step, hnet]; rfl, fun hspec => hclean.2 ?_⟩
    exact hlist.unique hspec.list
  | unregister p => exact absurd trivial hclean

/-- Every call returns. -/
theorem step_isSome (h : InterfaceInv r) {op : RegistryOp} (hop : r.Allowed op) :
    ∃ r', r.step op = some r' := by
  cases op with
  | register p init =>
    by_cases hreg : r.Registers p init
    · obtain ⟨net, hnet, -⟩ := h.register hreg hop.2
      exact ⟨_, by rw [Registry.step, hnet]; rfl⟩
    · exact ⟨_, by rw [Registry.step, netRegisterInterface_of_not hreg]; rfl⟩
  | unregister p =>
    obtain ⟨net, hnet, -⟩ := h.unregister hop
    exact ⟨_, by rw [Registry.step, hnet]; rfl⟩

end InterfaceInv

/-- Before the first registration. -/
def Registry.start (iface : ℕ → NetInterface) (configAt : ℕ → Ipv4Config) : Registry :=
  ⟨⟨0, 0, iface, configAt⟩, []⟩

theorem InterfaceInv.start (iface : ℕ → NetInterface) (configAt : ℕ → Ipv4Config) :
    InterfaceInv (Registry.start iface configAt) :=
  ⟨rfl, List.nodup_nil, rfl, List.not_mem_nil, by simp [Registry.start]⟩

/-- **Every run** whose registrations are of interfaces without a `next` pointer keeps the list in
order, and each further call does so exactly if it registers no other interface. -/
theorem interface_run {iface : ℕ → NetInterface} {configAt : ℕ → Ipv4Config} {r : Registry}
    (hrun : Reaches Registry.CleanStep (Registry.start iface configAt) r) :
    InterfaceSpec r ∧ ∀ op, r.Allowed op →
      ∃ r', r.step op = some r' ∧ (InterfaceSpec r' ↔ r.Clean op) := by
  have h : InterfaceInv r :=
    hrun.invariant (InterfaceInv.start iface configAt) fun _ _ _ h hstep => h.step hstep
  refine ⟨h.spec, fun op hop => ?_⟩
  by_cases hclean : r.Clean op
  · obtain ⟨r', hr'⟩ := h.step_isSome hop
    exact ⟨r', hr', iff_of_true (h.step ⟨⟨hop, hr'⟩, hclean⟩).spec hclean⟩
  · obtain ⟨r', hr', hspec⟩ := h.not_spec_of_not_clean hop hclean
    exact ⟨r', hr', iff_of_false hspec hclean⟩

/-! ### Two interfaces -/

/-- An interface that has never been registered. -/
def newInterface : NetInterface := ⟨true, true, true, 1500, 0, 0, 0, 0, 0⟩

/-- No configuration. -/
def emptyConfig : Ipv4Config :=
  ⟨⟨fun _ => 0⟩, ⟨fun _ => 0⟩, ⟨fun _ => 0⟩, ⟨fun _ => 0⟩, false, 0⟩

/-- New interfaces everywhere. -/
def noneRegistered : Registry := .start (fun _ => newInterface) fun _ => emptyConfig

/-- The interface at `4096`. -/
def oneRegistered : Registry :=
  ⟨{ noneRegistered.net with interfaces := 4096, interfaceCount := 1 }, [4096]⟩

/-- And the interface at `8192`. -/
def twoRegistered : Registry :=
  ⟨{ oneRegistered.net.setNext 4096 8192 with interfaceCount := 2 }, [4096, 8192]⟩

/-- The interface at `4096` unregistered. -/
def firstUnregistered : Registry :=
  ⟨{ twoRegistered.net with interfaces := 8192, interfaceCount := 1 }, [8192]⟩

/-- And registered again. -/
def firstReregistered : Registry :=
  ⟨{ firstUnregistered.net.setNext 8192 4096 with interfaceCount := 2 }, [8192, 4096]⟩

theorem cleanStep_one :
    Registry.CleanStep noneRegistered (.register 4096 true) oneRegistered :=
  ⟨⟨⟨by decide, by decide⟩, rfl⟩, fun _ => rfl⟩

theorem cleanStep_two :
    Registry.CleanStep oneRegistered (.register 8192 true) twoRegistered :=
  ⟨⟨⟨by decide, by decide⟩, rfl⟩, fun _ => rfl⟩

theorem step_firstUnregistered :
    Registry.Step twoRegistered (.unregister 4096) firstUnregistered :=
  ⟨List.mem_cons_self, rfl⟩

theorem step_firstReregistered :
    Registry.Step firstUnregistered (.register 4096 true) firstReregistered :=
  ⟨⟨by decide, by decide⟩, rfl⟩

theorem interface_run_two :
    InterfaceSpec twoRegistered ∧ ∀ op, twoRegistered.Allowed op →
      ∃ r', twoRegistered.step op = some r' ∧ (InterfaceSpec r' ↔ twoRegistered.Clean op) :=
  interface_run (((Reaches.refl _).tail cleanStep_one).tail cleanStep_two)

/-- The second registration of the interface at `4096` makes a cycle. -/
theorem netProcessRxQueue_firstReregistered : netProcessRxQueue firstReregistered.net = none := by
  refine iterate_eq_none (fun w => w.1 = 4096 ∨ w.1 = 8192) (Or.inr rfl) (fun w hw => ?_) listFuel
  refine Or.inr ?_
  rcases hw with hw | hw
  · exact ⟨_, by rw [foldTurn, if_neg (by omega)], Or.inr (by rw [hw]; rfl)⟩
  · exact ⟨_, by rw [foldTurn, if_neg (by omega)], Or.inl (by rw [hw]; rfl)⟩

/-- Interfaces that all start with `next = NULL`, a sequence of allowed calls, and a list with a
cycle. -/
theorem not_interfaceSpec_reregistered :
    (∀ p, noneRegistered.net.next p = 0) ∧
      Reaches Registry.Step noneRegistered firstReregistered ∧
      ¬ InterfaceSpec firstReregistered ∧ netProcessRxQueue firstReregistered.net = none := by
  refine ⟨fun _ => rfl, ?_, fun h => ?_, netProcessRxQueue_firstReregistered⟩
  · have htwo : Reaches Registry.Step noneRegistered twoRegistered :=
      ((Reaches.refl _).tail cleanStep_one.1).tail cleanStep_two.1
    exact (htwo.tail step_firstUnregistered).tail step_firstReregistered
  · exact nomatch netProcessRxQueue_firstReregistered.symm.trans h.rxQueue

end Rexus
