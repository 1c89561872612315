import Rexus.Lib.StableOrder
import Rexus.Mem.PmmClient
import Rexus.Net.Interface

/-!
# The routing table

The route functions of `net/ipv4.c`. The table is a linked list in the order of the metrics; each
route is in a block of its own. A run carries the routes that are stored, in the order of the list,
each with the number of its insertion; and, as the rest of the kernel allocates too, what the
allocator would be without the routes, which other clients may change between two calls.

## Main results

* `RouteInv.add`, `RouteInv.remove`, `RouteInv.flush` — what the calls make of the table
* `route_run` — the table after every run

## Conventions

A route is in a block, and its address is that of the block. A route is found for a destination if
the bytes of the destination under its netmask are those of its network; of several, the one with
the least metric, and of those the one that was made first. Metrics are words of thirty-two bits.

A route is made when there is memory for it, and `ipv4_add_route` then puts it before the first
route of a greater metric. Null pointers are arguments here, as `none`, since callers outside may
give them. Other clients of the allocator come between the calls and do what they like with memory
that is not the table's; block `0` is in use.
-/

namespace Rexus

open Linked Links Loop Run StableOrder

/-! ### The data -/

/-- `ipv4_route_t`, but for its link. -/
structure Ipv4RouteData where
  network : Ipv4Addr
  netmask : Ipv4Addr
  gateway : Ipv4Addr
  iface : ℕ
  metric : UInt32

/-- `ipv4_route_t`. -/
structure Ipv4Route extends Ipv4RouteData where
  next : ℕ

/-- `ipv4_state.routes`, the routes by address, and the allocator. -/
structure RouteTable where
  pmm : Pmm
  routes : ℕ
  route : ℕ → Ipv4Route

namespace RouteTable

/-- The head and the `next` pointers. -/
def links (s : RouteTable) : Links ℕ := ⟨s.routes, fun p => (s.route p).next⟩

/-- `p->next = v`. -/
def setNext (s : RouteTable) (p v : ℕ) : RouteTable :=
  { s with route := Function.update s.route p { s.route p with next := v } }

/-- `*ptr = v`. -/
def setPlace (s : RouteTable) : Option ℕ → ℕ → RouteTable
  | none, v => { s with routes := v }
  | some p, v => s.setNext p v

/-- The fields of the new route are written. -/
def setData (s : RouteTable) (p : ℕ) (d : Ipv4RouteData) : RouteTable :=
  { s with route := Function.update s.route p { d with next := (s.route p).next } }

@[simp] theorem links_setNext (s : RouteTable) (p v : ℕ) :
    (s.setNext p v).links = { s.links with next := Function.update s.links.next p v } := by
  refine Links.ext rfl (funext fun q => ?_)
  rcases eq_or_ne q p with rfl | hq
  · simp [links, setNext]
  · simp [links, setNext, hq]

@[simp] theorem links_setPlace (s : RouteTable) (ptr : Option ℕ) (v : ℕ) :
    (s.setPlace ptr v).links = s.links.set ptr v := by
  cases ptr with
  | none => rfl
  | some p => exact links_setNext s p v

@[simp] theorem links_setData (s : RouteTable) (p : ℕ) (d : Ipv4RouteData) :
    (s.setData p d).links = s.links := by
  refine Links.ext rfl (funext fun q => ?_)
  rcases eq_or_ne q p with rfl | hq
  · simp [links, setData]
  · simp [links, setData, hq]

/-- The fields of a route but its link. -/
def data (s : RouteTable) (p : ℕ) : Ipv4RouteData := (s.route p).toIpv4RouteData

@[simp] theorem data_setNext (s : RouteTable) (p v : ℕ) : (s.setNext p v).data = s.data := by
  funext q
  rcases eq_or_ne q p with rfl | hq
  · simp [data, setNext]
  · simp [data, setNext, hq]

@[simp] theorem data_setPlace (s : RouteTable) (ptr : Option ℕ) (v : ℕ) :
    (s.setPlace ptr v).data = s.data := by
  cases ptr with
  | none => rfl
  | some p => exact data_setNext s p v

@[simp] theorem data_setData (s : RouteTable) (p : ℕ) (d : Ipv4RouteData) :
    (s.setData p d).data = Function.update s.data p d := by
  funext q
  rcases eq_or_ne q p with rfl | hq
  · simp [data, setData]
  · simp [data, setData, hq]

@[simp] theorem pmm_setNext (s : RouteTable) (p v : ℕ) : (s.setNext p v).pmm = s.pmm := rfl

@[simp] theorem pmm_setPlace (s : RouteTable) (ptr : Option ℕ) (v : ℕ) :
    (s.setPlace ptr v).pmm = s.pmm := by cases ptr <;> rfl

end RouteTable

/-! ### The functions -/

/-- The address `0.0.0.0`. -/
def zeroAddr : Ipv4Addr := ⟨fun _ => 0⟩

/-- What `ipv4_add_route` writes into the new route. -/
def newRouteData (network netmask gateway : Option Ipv4Addr) (iface : ℕ) (metric : UInt32) :
    Ipv4RouteData :=
  ⟨network.getD zeroAddr, netmask.getD zeroAddr, gateway.getD zeroAddr, iface, metric⟩

/-- `ipv4_add_route`; `none` is a null pointer. -/
def ipv4AddRoute (s : RouteTable) (network netmask gateway : Option Ipv4Addr) (iface : ℕ)
    (metric : UInt32) : Option (Bool × RouteTable) :=
  if network = none ∨ netmask = none ∨ iface = 0 then some (false, s)
  else
    match pmmAllocBlocks s.pmm ((24 + 4095) / 4096) with
    | (route, pmm) =>
      if route = 0 then some (false, { s with pmm })
      else
        let s := { s with pmm }.setData route (newRouteData network netmask gateway iface metric)
        (iterate (placeTurn s.links fun p => p != 0 && decide ((s.route p).metric ≤ metric))
          listFuel none).map fun ptr =>
            (true, (s.setNext route (s.links.get ptr)).setPlace ptr route)

/-- Has the route this network and this netmask? -/
def Ipv4RouteData.has (r : Ipv4RouteData) (network netmask : Ipv4Addr) : Bool :=
  ipv4AddrEquals r.network network && ipv4AddrEquals r.netmask netmask

/-- `ipv4_remove_route`: the answer, and the table without the first route of the network and the
netmask. A null pointer is answered with no; `none` if the walk does not end. -/
def ipv4RemoveRoute (s : RouteTable) (network netmask : Option Ipv4Addr) :
    Option (Bool × RouteTable) :=
  match network, netmask with
  | some network, some netmask =>
    (iterate (placeTurn s.links fun p => p != 0 && !(s.route p).has network netmask) listFuel
      none).map fun ptr =>
        if s.links.get ptr = 0 then (false, s)
        else
          let route := s.links.get ptr
          let s := s.setPlace ptr (s.route route).next
          (true, { s with pmm := pmmFreeBlocks s.pmm route ((24 + 4095) / 4096) })
  | _, _ => some (false, s)

/-- Is the destination in the network of the route? -/
def Ipv4RouteData.covers (r : Ipv4RouteData) (dest : Ipv4Addr) : Bool :=
  decide (∀ i, dest.addr i &&& r.netmask.addr i = r.network.addr i)

/-- `ipv4_find_route`, of an address that is there. -/
def ipv4FindRoute (s : RouteTable) (dest : Ipv4Addr) : Option ℕ :=
  iterate (foldTurn s.links.next 0 fun best p =>
    if (s.route p).covers dest && (best == 0 || decide ((s.route p).metric < (s.route best).metric))
    then p else best) listFuel (s.routes, 0)

/-- One turn of the loop of `ipv4_flush_routes`. -/
def flushTurn (s : RouteTable) : Option (Turn RouteTable RouteTable) :=
  some (if s.routes = 0 then .done s
    else .next { s with
      routes := (s.route s.routes).next
      pmm := pmmFreeBlocks s.pmm s.routes ((24 + 4095) / 4096) })

/-- `ipv4_flush_routes`: every route is freed, and the list is empty; `none` if the walk does not
end. -/
def ipv4FlushRoutes (s : RouteTable) : Option RouteTable := iterate flushTurn listFuel s

/-! ### Runs -/

/-- A stored route: its address, its fields, and the number of its insertion. -/
structure StoredRoute where
  addr : ℕ
  data : Ipv4RouteData
  inserted : ℕ

namespace StoredRoute

/-- The allocation of a route. -/
def alloc (e : StoredRoute) : Allocation := ⟨e.addr, (24 + 4095) / 4096⟩

/-- In the order of the table `e` comes before `e'`. -/
abbrev Precedes (e e' : StoredRoute) : Prop :=
  Before (fun e => e.data.metric.toNat) StoredRoute.inserted e e'

end StoredRoute

/-- The table, the stored routes in its order, the number of the next insertion, and what the
allocator would be without the routes. -/
structure Routing where
  table : RouteTable
  stored : List StoredRoute
  clock : ℕ
  base : Pmm

/-- A call, or what the rest of the kernel does to the allocator. -/
inductive RouteOp where
  | add (network netmask gateway : Option Ipv4Addr) (iface : ℕ) (metric : UInt32)
  | remove (network netmask : Option Ipv4Addr)
  | flush
  | others (base pmm : Pmm)

namespace Routing

/-- A new route in the list of those stored: before the first one of a greater metric. -/
def insert (r : Routing) (addr : ℕ) (data : Ipv4RouteData) : List StoredRoute :=
  r.stored.orderedInsert (fun e e' => e.data.metric.toNat < e'.data.metric.toNat)
    ⟨addr, data, r.clock⟩

/-- One step; `none` if the call does not return. The record follows the answers: a route is stored
when the insertion says yes, with the time at which it did. -/
def step (r : Routing) : RouteOp → Option Routing
  | .add network netmask gateway iface metric =>
    (ipv4AddRoute r.table network netmask gateway iface metric).map fun (ok, table) =>
      if ok = true then
        { r with
          table
          stored := r.insert (pmmAllocBlocks r.table.pmm ((24 + 4095) / 4096)).1
            (newRouteData network netmask gateway iface metric)
          clock := r.clock + 1 }
      else { r with table }
  | .remove network netmask =>
    (ipv4RemoveRoute r.table network netmask).map fun (ok, table) =>
      if ok = true then
        { r with
          table
          stored := r.stored.eraseP fun e =>
            e.data.has (network.getD zeroAddr) (netmask.getD zeroAddr) }
      else { r with table }
  | .flush => (ipv4FlushRoutes r.table).map fun table => { r with table, stored := [] }
  | .others base pmm => some { r with base, table := { r.table with pmm } }

/-- Other clients of the allocator leave alone what the routes hold, and block `0`. -/
def Allowed (r : Routing) : RouteOp → Prop
  | .others base pmm =>
    ClientInv base ⟨pmm, r.stored.map StoredRoute.alloc⟩ ∧ pmmTestBlock base 0 = true
  | _ => True

/-- The step relation of a run: an allowed call that returns, or a change that the rest of the
kernel makes to the allocator. -/
def Step (r : Routing) (op : RouteOp) (r' : Routing) : Prop := r.Allowed op ∧ r.step op = some r'

end Routing

/-- The invariant. Beside what is to be shown it has the time at which each route was inserted, the
allocator as a client that holds one block for each, and block `0`, which is given to no one. -/
structure RouteInv (r : Routing) : Prop where
  list : r.table.links.Lists (r.stored.map StoredRoute.addr) 0
  data : ∀ e ∈ r.stored, r.table.data e.addr = e.data
  order : r.stored.Pairwise StoredRoute.Precedes
  clock : ∀ e ∈ r.stored, e.inserted < r.clock
  ne_zero : ∀ e ∈ r.stored, e.addr ≠ 0
  client : ClientInv r.base ⟨r.table.pmm, r.stored.map StoredRoute.alloc⟩
  reserved : pmmTestBlock r.base 0 = true

namespace RouteInv

variable {r : Routing} {network netmask : Ipv4Addr}

/-- Routes that have been allocated have different addresses. -/
theorem nodup_addr {base pmm : Pmm} {stored : List StoredRoute}
    (h : ClientInv base ⟨pmm, stored.map StoredRoute.alloc⟩) :
    (stored.map StoredRoute.addr).Nodup := by
  have hnodup := h.nodup_addr fun a ha => by
    obtain ⟨e, -, rfl⟩ := List.mem_map.mp ha
    exact (by decide : 0 < (24 + 4095) / 4096)
  rwa [List.map_map] at hnodup

theorem nodup (h : RouteInv r) : (r.stored.map StoredRoute.addr).Nodup := nodup_addr h.client

theorem zero_notMem (h : RouteInv r) : 0 ∉ r.stored.map StoredRoute.addr := by
  rw [List.mem_map]
  rintro ⟨e, he, h0⟩
  exact h.ne_zero e he h0

/-- There are fewer routes than pointers. -/
theorem length_lt (h : RouteInv r) : (r.stored.map StoredRoute.addr).length < listFuel := by
  refine length_lt_listFuel h.nodup h.zero_notMem fun p hp => ?_
  obtain ⟨e, he, rfl⟩ := List.mem_map.mp hp
  exact h.client.addr_lt (List.mem_map_of_mem he) (by decide : 0 < (24 + 4095) / 4096)

/-- A search by the fields of the routes finds the first stored one. -/
theorem find_addr (h : RouteInv r) (f : Ipv4RouteData → Bool) :
    (r.stored.map StoredRoute.addr).find? (fun p => f (r.table.data p)) =
      (r.stored.find? fun e => f e.data).map StoredRoute.addr := by
  have hdata := h.data
  generalize r.stored = stored at hdata ⊢
  induction stored with
  | nil => rfl
  | cons e stored ih =>
    obtain ⟨he, hdata⟩ := List.forall_mem_cons.mp hdata
    rw [List.map_cons, List.find?_cons, List.find?_cons, he, ih hdata]
    cases f e.data <;> rfl

/-- **The search** finds the first route in the order of the table whose network has the
destination. -/
theorem find (h : RouteInv r) (dest : Ipv4Addr) : ipv4FindRoute r.table dest =
    some (((r.stored.find? fun e => e.data.covers dest).map StoredRoute.addr).getD 0) := by
  have hsorted : (r.stored.map StoredRoute.addr).Pairwise
      fun p q => (r.table.data p).metric.toNat ≤ (r.table.data q).metric.toNat := by
    rw [List.pairwise_map]
    refine h.order.imp_of_mem fun {e e'} he he' hbefore => ?_
    rw [h.data e he, h.data e' he']
    exact hbefore.le
  have hfold := iterate_fold h.list h.zero_notMem h.length_lt (b := 0)
    (f := fun best p => if (r.table.data p).covers dest && (best == 0 ||
      decide ((r.table.data p).metric.toNat < (r.table.data best).metric.toNat)) then p else best)
  rw [foldl_best (p := fun p => (r.table.data p).covers dest) hsorted h.zero_notMem,
    h.find_addr fun d => d.covers dest] at hfold
  exact hfold

/-- The loop of an insertion stops behind the routes of at most the new one's metric. -/
theorem iterate_insert {t : RouteTable} {us vs : List StoredRoute} {metric : UInt32}
    (hlist : t.links.Lists ((us ++ vs).map StoredRoute.addr) 0)
    (hdata : ∀ e ∈ us ++ vs, t.data e.addr = e.data) (h0 : ∀ e ∈ us ++ vs, e.addr ≠ 0)
    (hus : ∀ e ∈ us, e.data.metric.toNat ≤ metric.toNat)
    (hvs : ∀ e ∈ vs.head?, metric.toNat < e.data.metric.toNat) {n : ℕ}
    (hn : ((us ++ vs).map StoredRoute.addr).length < n) :
    iterate (placeTurn t.links fun p => p != 0 && decide ((t.route p).metric ≤ metric)) n none =
      some (us.map StoredRoute.addr).getLast? := by
  rw [List.map_append] at hlist hn
  refine iterate_place hlist (fun p hp => ?_) ?_ (by rw [List.length_append] at hn; omega)
  · obtain ⟨e, he, rfl⟩ := List.mem_map.mp hp
    have hmem : e ∈ us ++ vs := List.mem_append_left vs he
    rw [Bool.and_eq_true, bne_iff_ne, decide_eq_true_iff, UInt32.le_iff_toNat_le]
    refine ⟨h0 e hmem, ?_⟩
    show (t.data e.addr).metric.toNat ≤ metric.toNat
    rw [hdata e hmem]
    exact hus e he
  · cases vs with
    | nil => rfl
    | cons e vs =>
      have hmem : e ∈ us ++ e :: vs := List.mem_append_right us List.mem_cons_self
      have hlt : metric.toNat < (t.data e.addr).metric.toNat := hdata e hmem ▸ hvs e rfl
      rw [Bool.and_eq_false_iff, decide_eq_false_iff_not, UInt32.le_iff_toNat_le]
      exact Or.inr (Nat.not_le_of_lt hlt)

theorem perm_insert (r : Routing) (p : ℕ) (d : Ipv4RouteData) :
    (r.insert p d).Perm (⟨p, d, r.clock⟩ :: r.stored) := List.perm_orderedInsert _ _ _

theorem mem_insert {p : ℕ} {d : Ipv4RouteData} {e : StoredRoute} :
    e ∈ r.insert p d ↔ e = ⟨p, d, r.clock⟩ ∨ e ∈ r.stored := by
  rw [(perm_insert r p d).mem_iff, List.mem_cons]

/-- What an insertion has to do to the table; the order of what is stored keeps itself. -/
theorem inserted (h : RouteInv r) {t : RouteTable} {p : ℕ} {d : Ipv4RouteData}
    (hlist : t.links.Lists ((r.insert p d).map StoredRoute.addr) 0)
    (hdata : ∀ e ∈ r.insert p d, t.data e.addr = e.data) (hp0 : p ≠ 0)
    (hclient : ClientInv r.base ⟨t.pmm, (r.insert p d).map StoredRoute.alloc⟩) :
    RouteInv { r with table := t, stored := r.insert p d, clock := r.clock + 1 } where
  list := hlist
  data := hdata
  order := pairwise_orderedInsert h.order h.clock
  clock e he := by
    rcases mem_insert.mp he with rfl | he
    · exact Nat.lt_succ_self _
    · exact Nat.lt_succ_of_lt (h.clock e he)
  ne_zero e he := by
    rcases mem_insert.mp he with rfl | he
    · exact hp0
    · exact h.ne_zero e he
  client := hclient
  reserved := h.reserved

/-- A new route. -/
theorem add (h : RouteInv r) (network netmask gateway : Option Ipv4Addr) (iface : ℕ)
    (metric : UInt32) :
    ipv4AddRoute r.table network netmask gateway iface metric = some (false, r.table) ∨
      ∃ t, ipv4AddRoute r.table network netmask gateway iface metric = some (true, t) ∧
        RouteInv { r with
          table := t
          stored := r.insert (pmmAllocBlocks r.table.pmm ((24 + 4095) / 4096)).1
            (newRouteData network netmask gateway iface metric)
          clock := r.clock + 1 } := by
  rw [ipv4AddRoute]
  split_ifs with hargs
  · exact Or.inl rfl
  rcases h.client.allocBlocks h.reserved ((24 + 4095) / 4096) with hp | ⟨p, pmm, hp, hp0, -, hpmm⟩
  · rw [hp]
    exact Or.inl rfl
  refine Or.inr ?_
  rw [hp]
  simp only [if_neg hp0]
  generalize hd : newRouteData network netmask gateway iface metric = d
  have hmetric : d.metric = metric := by rw [← hd]; rfl
  have hnodup : ((⟨p, d, r.clock⟩ :: r.stored).map StoredRoute.addr).Nodup := nodup_addr hpmm
  obtain ⟨hnew, -⟩ := List.nodup_cons.mp hnodup
  obtain ⟨us, vs, hstored, hins, hus, hvs⟩ :=
    orderedInsert_eq (fun e : StoredRoute => e.data.metric.toNat) ⟨p, d, r.clock⟩ r.stored
  -- the table with the fields of the new route written
  generalize ht : RouteTable.setData { r.table with pmm } p d = t
  have hlinks : t.links = r.table.links := by rw [← ht]; exact RouteTable.links_setData _ p d
  have hdata : t.data = Function.update r.table.data p d := by
    rw [← ht]
    exact RouteTable.data_setData _ p d
  have hold : ∀ e ∈ r.stored, t.data e.addr = e.data := fun e he => by
    rw [hdata, Function.update_of_ne, h.data e he]
    exact fun heq => hnew (List.mem_map.mpr ⟨e, he, heq⟩)
  have hlist := h.list
  have hlen := h.length_lt
  rw [← hlinks] at hlist
  rw [hstored] at hlist hlen
  rw [iterate_insert hlist (hstored ▸ hold) (hstored ▸ h.ne_zero) (hmetric ▸ hus) (hmetric ▸ hvs)
    hlen]
  refine ⟨_, rfl, h.inserted ?_ (fun e he => ?_) hp0 ?_⟩
  · rw [hstored] at hnodup
    rw [RouteTable.links_setPlace, RouteTable.links_setNext, show r.insert p d = _ from hins,
      List.map_append, List.map_cons]
    rw [List.map_cons, List.map_append] at hnodup
    rw [List.map_append] at hlist
    exact lists_insert hlist hnodup
  · rw [RouteTable.data_setPlace, RouteTable.data_setNext]
    rcases mem_insert.mp he with rfl | he
    · rw [hdata, Function.update_self]
    · exact hold e he
  · have hlive := hpmm.perm ((perm_insert r p d).symm.map StoredRoute.alloc)
    rw [RouteTable.pmm_setPlace, RouteTable.pmm_setNext, ← ht]
    exact hlive

/-- The loop of a removal stops at the first route it looks for, or at the end. -/
theorem iterate_remove (h : RouteInv r) {us vs : List StoredRoute} (hstored : r.stored = us ++ vs)
    (hus : ∀ e ∈ us, e.data.has network netmask = false)
    (hvs : ∀ e ∈ vs.head?, e.data.has network netmask = true) :
    iterate (placeTurn r.table.links fun p => p != 0 && !(r.table.route p).has network netmask)
        listFuel none = some (us.map StoredRoute.addr).getLast? ∧
      r.table.links.get (us.map StoredRoute.addr).getLast? =
        (vs.map StoredRoute.addr).headD 0 := by
  have hlist := h.list
  have hlen := h.length_lt
  rw [hstored, List.map_append] at hlist hlen
  refine ⟨iterate_place hlist (fun p hp => ?_) ?_ (by rw [List.length_append] at hlen; omega),
    get_getLast? hlist⟩
  · obtain ⟨e, he, rfl⟩ := List.mem_map.mp hp
    have hmem : e ∈ r.stored := hstored ▸ List.mem_append_left vs he
    rw [Bool.and_eq_true, bne_iff_ne, Bool.not_eq_true']
    refine ⟨h.ne_zero e hmem, ?_⟩
    show (r.table.data e.addr).has network netmask = false
    rw [h.data e hmem]
    exact hus e he
  · cases vs with
    | nil => rfl
    | cons e vs =>
      have hmem : e ∈ r.stored := hstored ▸ List.mem_append_right us List.mem_cons_self
      have hhas : (r.table.data e.addr).has network netmask = true := by
        rw [h.data e hmem]
        exact hvs e rfl
      rw [Bool.and_eq_false_iff, Bool.not_eq_false']
      exact Or.inr hhas

/-- A route that is there is removed. -/
theorem remove (h : RouteInv r) {us vs : List StoredRoute} {e : StoredRoute}
    (hstored : r.stored = us ++ e :: vs) (hus : ∀ e ∈ us, e.data.has network netmask = false)
    (he : e.data.has network netmask = true) :
    ∃ t, ipv4RemoveRoute r.table (some network) (some netmask) = some (true, t) ∧
      RouteInv { r with table := t, stored := us ++ vs } := by
  have hmem : e ∈ r.stored := hstored ▸ List.mem_append_right us List.mem_cons_self
  have hhead : ∀ e' ∈ (e :: vs).head?, e'.data.has network netmask = true := by
    intro e' he'
    obtain rfl := Option.some_inj.mp he'
    exact he
  obtain ⟨hplace, hget⟩ := h.iterate_remove hstored hus hhead
  have hperm : (e :: (us ++ vs)).Perm r.stored := hstored ▸ List.perm_middle.symm
  have hsub : (us ++ vs).Sublist r.stored :=
    hstored ▸ (List.Sublist.refl us).append (List.sublist_cons_self e vs)
  have hlist := h.list
  have hnodup := h.nodup
  rw [hstored, List.map_append, List.map_cons] at hlist hnodup
  rw [ipv4RemoveRoute, hplace, Option.map_some, hget, List.map_cons, List.headD_cons,
    if_neg (h.ne_zero e hmem)]
  refine ⟨_, rfl, ?_, fun e' he' => ?_, h.order.sublist hsub, fun e' he' => ?_, fun e' he' => ?_,
    ?_, h.reserved⟩
  · show Links.Lists (RouteTable.links _) ((us ++ vs).map StoredRoute.addr) 0
    rw [List.map_append]
    have hremove := lists_remove hlist hnodup
    rwa [← RouteTable.links_setPlace] at hremove
  · show RouteTable.data (RouteTable.setPlace _ _ _) e'.addr = e'.data
    rw [RouteTable.data_setPlace]
    exact h.data e' (hsub.subset he')
  · exact h.clock e' (hsub.subset he')
  · exact h.ne_zero e' (hsub.subset he')
  · have hgive := (h.client.perm (hperm.symm.map StoredRoute.alloc)).freeBlocks_cons
    show ClientInv r.base ⟨pmmFreeBlocks (RouteTable.pmm (RouteTable.setPlace _ _ _)) _ _, _⟩
    rw [RouteTable.pmm_setPlace]
    exact hgive

/-- A route that is not there is not removed. -/
theorem remove_none (h : RouteInv r) (hnone : ∀ e ∈ r.stored, e.data.has network netmask = false) :
    ipv4RemoveRoute r.table (some network) (some netmask) = some (false, r.table) := by
  obtain ⟨hplace, hget⟩ := h.iterate_remove
    (show r.stored = r.stored ++ [] from (List.append_nil _).symm) hnone fun e he => nomatch he
  rw [ipv4RemoveRoute, hplace, Option.map_some, hget, List.map_nil, List.headD_nil, if_pos rfl]

/-- The routes are freed one after the other, in the order of the table. -/
theorem flush_eq (h : RouteInv r) : ipv4FlushRoutes r.table = some { r.table with
    routes := 0
    pmm := pmmFreeAll r.table.pmm (r.stored.map StoredRoute.alloc) } := by
  have hloop : ∀ (stored : List StoredRoute) (table : RouteTable) n,
      table.links.Lists (stored.map StoredRoute.addr) 0 → (∀ e ∈ stored, e.addr ≠ 0) →
        stored.length < n → iterate flushTurn n table = some { table with
          routes := 0
          pmm := pmmFreeAll table.pmm (stored.map StoredRoute.alloc) } := by
    intro stored
    induction stored with
    | nil =>
      intro table n hlist _ hn
      obtain ⟨n, rfl⟩ := Nat.exists_eq_add_of_lt hn
      have hhead : table.routes = 0 := hlist
      rw [iterate_done (by rw [flushTurn, if_pos hhead]), ← hhead]
      rfl
    | cons e stored ih =>
      intro table n hlist hne hn
      obtain ⟨n, rfl⟩ : ∃ k, n = k + 1 := ⟨n - 1, by rw [List.length_cons] at hn; omega⟩
      obtain ⟨he, hlist⟩ := hlist
      have hhead : table.routes = e.addr := he
      have hne' : table.routes ≠ 0 := hhead ▸ hne e List.mem_cons_self
      rw [iterate_next (by rw [flushTurn, if_neg hne']), hhead]
      exact ih { table with
        routes := (table.route e.addr).next
        pmm := pmmFreeBlocks table.pmm e.addr ((24 + 4095) / 4096) } n hlist
        (fun e' he' => hne e' (List.mem_cons_of_mem e he'))
        (by rw [List.length_cons] at hn; omega)
  have hlen := h.length_lt
  rw [List.length_map] at hlen
  exact hloop r.stored r.table listFuel h.list h.ne_zero hlen

/-- **All routes are removed.** -/
theorem flush (h : RouteInv r) : ∃ t, ipv4FlushRoutes r.table = some t ∧
    RouteInv { r with table := t, stored := [] } := by
  have hclient := h.client
  rw [← List.append_nil (r.stored.map StoredRoute.alloc)] at hclient
  refine ⟨_, h.flush_eq, rfl, ?_, List.Pairwise.nil, ?_, ?_, hclient.freeAll, h.reserved⟩ <;>
    · intro e he
      cases he

/-- What a removal does, whatever it is asked to remove. -/
theorem remove_cases (h : RouteInv r) (network netmask : Option Ipv4Addr) :
    ipv4RemoveRoute r.table network netmask = some (false, r.table) ∧
        (∀ e ∈ r.stored, ∀ n ∈ network, ∀ m ∈ netmask, e.data.has n m = false) ∨
      ∃ n m us e vs t, network = some n ∧ netmask = some m ∧ r.stored = us ++ e :: vs ∧
        (∀ e ∈ us, e.data.has n m = false) ∧ e.data.has n m = true ∧
        ipv4RemoveRoute r.table network netmask = some (true, t) ∧
        RouteInv { r with table := t, stored := us ++ vs } := by
  cases network with
  | none => exact Or.inl ⟨rfl, fun _ _ _ hn => nomatch hn⟩
  | some n =>
    cases netmask with
    | none => exact Or.inl ⟨rfl, fun _ _ _ _ _ hm => nomatch hm⟩
    | some m =>
      cases hfind : r.stored.find? fun e => e.data.has n m with
      | none =>
        rw [List.find?_eq_none] at hfind
        refine Or.inl ⟨h.remove_none fun e he => by simpa using hfind e he, ?_⟩
        intro e he n' hn m' hm
        obtain rfl := Option.some_inj.mp hn
        obtain rfl := Option.some_inj.mp hm
        simpa using hfind e he
      | some e =>
        obtain ⟨he, us, vs, hstored, hus⟩ := List.find?_eq_some_iff_append.mp hfind
        replace hus : ∀ e ∈ us, e.data.has n m = false := fun e he => by simpa using hus e he
        obtain ⟨t, ht, hinv⟩ := h.remove hstored hus he
        exact Or.inr ⟨n, m, us, e, vs, t, rfl, rfl, hstored, hus, he, ht, hinv⟩

/-- **One step keeps the invariant**, and every call returns. -/
theorem step (h : RouteInv r) {op : RouteOp} (hop : r.Allowed op) :
    ∃ r', r.step op = some r' ∧ RouteInv r' := by
  cases op with
  | add network netmask gateway iface metric =>
    rcases h.add network netmask gateway iface metric with hadd | ⟨t, hadd, hinv⟩
    · exact ⟨_, by rw [Routing.step, hadd]; rfl, h⟩
    · exact ⟨_, by rw [Routing.step, hadd]; rfl, hinv⟩
  | remove network netmask =>
    rcases h.remove_cases network netmask with
      ⟨hremove, -⟩ | ⟨n, m, us, e, vs, t, rfl, rfl, hstored, hus, he, hremove, hinv⟩
    · exact ⟨_, by rw [Routing.step, hremove]; rfl, h⟩
    · refine ⟨_, by rw [Routing.step, hremove]; rfl, ?_⟩
      have herase : (r.stored.eraseP fun e => e.data.has n m) = us ++ vs := by
        rw [hstored, List.eraseP_append_right _ fun e he => by simp [hus e he],
          List.eraseP_cons_of_pos (p := fun e : StoredRoute => e.data.has n m) he]
      show RouteInv { r with table := t, stored := r.stored.eraseP fun e => e.data.has n m }
      rw [herase]
      exact hinv
  | flush =>
    obtain ⟨t, hflush, hinv⟩ := h.flush
    exact ⟨_, by rw [Routing.step, hflush]; rfl, hinv⟩
  | others base pmm =>
    exact ⟨_, rfl, h.list, h.data, h.order, h.clock, h.ne_zero, hop.1, hop.2⟩

end RouteInv

/-- What the table is to be. The run keeps a record of the stored routes with the time of their
insertion; the functions only have the list, and must find and free what the record says. -/
structure RouteSpec (r : Routing) : Prop where
  /-- The list has the stored routes, -/
  list : Seg (fun p => (r.table.route p).next) r.table.routes (r.stored.map StoredRoute.addr) 0
  data : ∀ e ∈ r.stored, (r.table.route e.addr).toIpv4RouteData = e.data
  /-- by metric, and those of one metric by insertion. -/
  order : r.stored.Pairwise StoredRoute.Precedes
  /-- No route is found exactly if none has the destination; else it is the least. -/
  find : ∀ dest, ∃ p, ipv4FindRoute r.table dest = some p ∧
    (p = 0 ↔ ∀ e ∈ r.stored, e.data.covers dest = false) ∧
    (p ≠ 0 → ∃ e ∈ r.stored, e.addr = p ∧ e.data.covers dest = true ∧
      ∀ e' ∈ r.stored, e'.data.covers dest = true → e' = e ∨ e.Precedes e')
  /-- The allocator has one block for each, all different and held by no one else. -/
  blocks : ∀ b, b ∈ r.table.pmm.usedSet ↔
    b ∈ r.base.usedSet ∨ ∃ e ∈ r.stored, e.addr / 4096 = b
  nodup : (r.stored.map fun e => e.addr / 4096).Nodup
  own : ∀ e ∈ r.stored, e.addr / 4096 ∉ r.base.usedSet

/-- What the calls are to do, in every state of a run: the result of each, and what it leaves, told
from the stored routes alone. -/
structure RouteCalls (r : Routing) : Prop where
  /-- They return. -/
  returns : ∀ op, r.Allowed op → ∃ r', r.step op = some r'
  /-- A failing insertion changes nothing. -/
  add_false : ∀ network netmask gateway iface metric t,
    ipv4AddRoute r.table network netmask gateway iface metric = some (false, t) → t = r.table
  /-- A removal removes the first route of the network and the netmask, and no other. -/
  remove_true : ∀ n m t, ipv4RemoveRoute r.table (some n) (some m) = some (true, t) →
    ∃ us e vs, r.stored = us ++ e :: vs ∧ (∀ e ∈ us, e.data.has n m = false) ∧
      e.data.has n m = true ∧ RouteSpec { r with table := t, stored := us ++ vs }
  remove_false : ∀ n m t, ipv4RemoveRoute r.table (some n) (some m) = some (false, t) →
    t = r.table ∧ ∀ e ∈ r.stored, e.data.has n m = false

namespace RouteInv

variable {r : Routing}

theorem spec (h : RouteInv r) : RouteSpec r := by
  have hblocks : ∀ (e : StoredRoute) b, b ∈ e.alloc.blocks ↔ e.addr / 4096 = b := by
    intro e b
    rw [Allocation.blocks, Finset.mem_Ico]
    show e.addr / 4096 ≤ b ∧ b < e.addr / 4096 + (24 + 4095) / 4096 ↔ _
    omega
  refine ⟨h.list, h.data, h.order, fun dest => ⟨_, h.find dest, ?_⟩, fun b => ?_, ?_,
    fun e he => ?_⟩
  · cases hfind : r.stored.find? fun e => e.data.covers dest with
    | none =>
      rw [List.find?_eq_none] at hfind
      exact ⟨iff_of_true rfl fun e he => by simpa using hfind e he, fun hp => absurd rfl hp⟩
    | some e =>
      have he := List.mem_of_find?_eq_some hfind
      have hcovers : e.data.covers dest = true := List.find?_some (p := fun e : StoredRoute =>
        e.data.covers dest) hfind
      refine ⟨iff_of_false (h.ne_zero e he) fun hnone => ?_, fun _ => ⟨e, he, rfl, hcovers, ?_⟩⟩
      · exact Bool.false_ne_true ((hnone e he).symm.trans hcovers)
      · exact fun e' he' hp => before_of_find? h.order hfind he' hp
  · rw [h.client.mem_usedSet]
    simp only [List.mem_map, exists_exists_and_eq_and, hblocks]
  · have hdis := List.pairwise_map.mp h.client.disjoint
    refine List.pairwise_map.mpr (hdis.imp fun {e e'} hdis heq => ?_)
    exact Finset.disjoint_left.mp hdis ((hblocks e _).mpr rfl) ((hblocks e' _).mpr heq.symm)
  · have hfresh := h.client.fresh e.alloc (List.mem_map_of_mem he)
    exact Finset.disjoint_right.mp hfresh ((hblocks e _).mpr rfl)

theorem calls (h : RouteInv r) : RouteCalls r := by
  refine ⟨fun op hop => ?_, fun network netmask gateway iface metric t ht => ?_,
    fun n m t ht => ?_, fun n m t ht => ?_⟩
  · obtain ⟨r', hr', -⟩ := h.step hop
    exact ⟨r', hr'⟩
  · rcases h.add network netmask gateway iface metric with hadd | ⟨t', hadd, -⟩
    · rw [hadd, Option.some_inj, Prod.mk.injEq] at ht
      exact ht.2.symm
    · rw [hadd, Option.some_inj, Prod.mk.injEq] at ht
      exact absurd ht.1 (by decide)
  · rcases h.remove_cases (some n) (some m) with
      ⟨hremove, -⟩ | ⟨n', m', us, e, vs, t', hn, hm, hstored, hus, he, hremove, hinv⟩
    · rw [hremove, Option.some_inj, Prod.mk.injEq] at ht
      exact absurd ht.1 (by decide)
    · rw [hremove, Option.some_inj, Prod.mk.injEq] at ht
      obtain ⟨-, rfl⟩ := ht
      obtain rfl := Option.some_inj.mp hn
      obtain rfl := Option.some_inj.mp hm
      exact ⟨us, e, vs, hstored, hus, he, hinv.spec⟩
  · rcases h.remove_cases (some n) (some m) with
      ⟨hremove, hnone⟩ | ⟨n', m', us, e, vs, t', -, -, -, -, -, hremove, -⟩
    · rw [hremove, Option.some_inj, Prod.mk.injEq] at ht
      exact ⟨ht.2.symm, fun e he => hnone e he n rfl m rfl⟩
    · rw [hremove, Option.some_inj, Prod.mk.injEq] at ht
      exact absurd ht.1 (by decide)

end RouteInv

/-- The empty table. -/
def Routing.start (base : Pmm) (route : ℕ → Ipv4Route) : Routing := ⟨⟨base, 0, route⟩, [], 0, base⟩

theorem RouteInv.start {base : Pmm} (h0 : pmmTestBlock base 0 = true) (route : ℕ → Ipv4Route) :
    RouteInv (Routing.start base route) where
  list := rfl
  data _ he := nomatch he
  order := List.Pairwise.nil
  clock _ he := nomatch he
  ne_zero _ he := nomatch he
  client := ClientInv.start base
  reserved := h0

/-- **Every run** from the empty table, with block `0` reserved. -/
theorem route_run {base : Pmm} (h0 : pmmTestBlock base 0 = true) {route : ℕ → Ipv4Route}
    {r : Routing} (hrun : Reaches Routing.Step (Routing.start base route) r) :
    RouteSpec r ∧ RouteCalls r := by
  have h : RouteInv r := hrun.invariant (RouteInv.start h0 route) fun a op b ha hstep => by
    obtain ⟨b', hb', hinv⟩ := ha.step hstep.1
    exact Option.some_inj.mp (hb'.symm.trans hstep.2) ▸ hinv
  exact ⟨h.spec, h.calls⟩

/-- A route to everything. -/
def defaultRoute (metric : UInt32) : Ipv4RouteData := ⟨zeroAddr, zeroAddr, zeroAddr, 4096, metric⟩

/-- Eight blocks, and no route. -/
def noRoute : Routing := .start pmmEight fun _ => ⟨defaultRoute 0, 0⟩

/-- A route of metric `5` in block `1`. -/
def oneRoute : Routing where
  table := ((RouteTable.setData { noRoute.table with pmm := pmmMarkBlocks pmmEight 1 1 } 4096
    (defaultRoute 5)).setNext 4096 0).setPlace none 4096
  stored := [⟨4096, defaultRoute 5, 0⟩]
  clock := 1
  base := pmmEight

/-- And before it one of metric `3` in block `2`. -/
def twoRoutes : Routing where
  table := ((RouteTable.setData
    { oneRoute.table with pmm := pmmMarkBlocks oneRoute.table.pmm 2 1 } 8192
    (defaultRoute 3)).setNext 8192 4096).setPlace none 8192
  stored := [⟨8192, defaultRoute 3, 1⟩, ⟨4096, defaultRoute 5, 0⟩]
  clock := 2
  base := pmmEight

theorem route_run_two : RouteSpec twoRoutes ∧ RouteCalls twoRoutes := by
  have h₁ : Routing.Step noRoute (.add (some zeroAddr) (some zeroAddr) none 4096 5) oneRoute :=
    ⟨trivial, rfl⟩
  have h₂ : Routing.Step oneRoute (.add (some zeroAddr) (some zeroAddr) none 4096 3) twoRoutes :=
    ⟨trivial, rfl⟩
  exact route_run (by decide) (((Reaches.refl _).tail h₁).tail h₂)

end Rexus
