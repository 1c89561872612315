import Mathlib.Data.Fintype.Pi
import Rexus.Mem.Pmm

/-!
# Packets

`net/net.h` and the packet functions of `net/net.c`. A packet is a block that holds its structure
and a run of blocks that holds its data; the bytes are kept with the structure, from the data
pointer on. The structure has the fields the protocols use: `iface`, `src_addr` and `dest_addr` are
used by `ipv4.c`, `tcp.c` and `udp.c`, though `net.h` does not declare them.

## What a proof uses

* `netAllocPacket_cases` — everything an allocation can do

## Conventions

A packet is a value that is handed from function to function; its address and that of its data are
fields of it, by which the allocator knows what is given back. Two pointers to one packet are one
value in two places, and a function that changes a packet returns the changed one. `bytes` begins at
the data pointer: to strip a header is to move it.

The memory of a new packet holds what it held before. The parameter `junk` is that memory read as a
packet, and the fields that `net_alloc_packet` sets are set in it. An allocation asks first for the
structure and then for the data, and gives the first back if there is no room for the second.
-/

namespace Rexus

/-- `ipv4_addr_t`. -/
structure Ipv4Addr where
  addr : Fin 4 → UInt8
  deriving DecidableEq

/-- `ipv4_addr_equals`, of addresses that are there. -/
def ipv4AddrEquals (a b : Ipv4Addr) : Bool := a = b

/-- `net_protocol_t`. -/
inductive NetProtocol where
  | none
  | ipv4
  | ipv6
  | arp
  | icmp
  | tcp
  | udp
  | can
  | lin
  deriving DecidableEq

/-- `net_packet_t`: the structure is at `addr`, its data at `data`. The bytes are a function of the
offset, so what lies behind `length` has a value as well; a function that reads there is said to,
not stopped. -/
structure NetPacket where
  addr : ℕ
  data : ℕ
  /-- The bytes from `data` on. -/
  bytes : ℕ → UInt8
  length : ℕ
  protocol : NetProtocol
  priority : UInt8
  iface : ℕ
  srcAddr : Ipv4Addr
  destAddr : Ipv4Addr

/-- `net_alloc_packet`, given what the memory it is given holds. The structure comes in a block
that is not cleared, so the fields it does not set are those of `junk`. -/
def netAllocPacket (pmm : Pmm) (junk : NetPacket) (size : ℕ) : Option NetPacket × Pmm :=
  if 1518 < size then (none, pmm)
  else
    match pmmAllocBlock pmm with
    | (addr, pmm) =>
      if addr = 0 then (none, pmm)
      else
        match pmmAllocBlocks pmm ((size + 4095) / 4096) with
        | (data, pmm) =>
          if data = 0 then (none, pmmFreeBlock pmm addr)
          else
            (some { junk with addr, data, length := size, protocol := .none, priority := 0 }, pmm)

/-- `net_free_packet`, of a packet that is there. -/
def netFreePacket (pmm : Pmm) (p : NetPacket) : Pmm :=
  pmmFreeBlock (if p.data = 0 then pmm else pmmFreeBlocks pmm p.data ((p.length + 4095) / 4096))
    p.addr

/-- Everything `net_alloc_packet` can do. -/
theorem netAllocPacket_cases (pmm : Pmm) (junk : NetPacket) (size : ℕ) :
    (∃ t, netAllocPacket pmm junk size = (none, t)) ∨
      ∃ addr data t, size ≤ 1518 ∧ netAllocPacket pmm junk size =
        (some { junk with addr, data, length := size, protocol := .none, priority := 0 }, t) := by
  rw [netAllocPacket]
  split_ifs with hsize
  · exact Or.inl ⟨_, rfl⟩
  dsimp only
  split_ifs
  · exact Or.inl ⟨_, rfl⟩
  · exact Or.inl ⟨_, rfl⟩
  · exact Or.inr ⟨_, _, _, Nat.le_of_not_lt hsize, rfl⟩

/-- An allocation that succeeds. -/
theorem netAllocPacket_eq_some {pmm : Pmm} {size : ℕ} (hsize : size ≤ 1518)
    (haddr : (pmmAllocBlock pmm).1 ≠ 0)
    (hdata : (pmmAllocBlocks (pmmAllocBlock pmm).2 ((size + 4095) / 4096)).1 ≠ 0)
    (junk : NetPacket) : ∃ packet pmm', netAllocPacket pmm junk size = (some packet, pmm') := by
  rw [netAllocPacket, if_neg (Nat.not_lt.mpr hsize)]
  dsimp only
  rw [if_neg haddr, if_neg hdata]
  exact ⟨_, _, rfl⟩

end Rexus
