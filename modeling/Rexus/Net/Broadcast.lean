import Mathlib.Data.Fin.VecNotation
import Mathlib.Tactic.FinCases
import Rexus.Lib.BitField
import Rexus.Net.Packet

/-!
# Broadcast addresses

`ipv4_addr_is_broadcast` of `net/ipv4.c`. An address is the broadcast address of its network when
all of its host bits, those that the netmask leaves out, are one. The function compares what is
under the netmask with what is not, where `|` or a comparison of the host bits alone would have done
it: no address passes but `0.0.0.0` with the netmask `255.255.255.255`.

## Main results

* `ipv4AddrIsBroadcast_iff` — what passes
* `broadcastRight_iff` — under a netmask that leaves out bits, the answer is right when it is no

## Conventions

A netmask is any address for `ipv4AddrIsBroadcast_iff`, with its ones in any places. For
`broadcastRight_iff` it is that of a prefix, from `0.0.0.0` on up to all ones but the last, and the
broadcast address is said by the prefix: the address has ones in all places behind it. With a prefix
of all thirty-two bits there are no host bits, and every address would be the broadcast address of
its own network; that case is left out of the second result.

An address is four bytes as the packet has them, and nothing here depends on their order. Null
pointers are left out, as the callers give the function the addresses of structures.
-/

namespace Rexus

/-- The address as a number, its first octet the highest. -/
def Ipv4Addr.word (a : Ipv4Addr) : BitVec 32 :=
  (List.ofFn a.addr).foldl (fun w octet => w <<< 8 ||| octet.toBitVec.setWidth 32) 0#32

/-- A netmask whose first `p` bits are set, and no other. -/
def Ipv4Addr.IsPrefixMask (netmask : Ipv4Addr) (p : ℕ) : Prop :=
  netmask.word = BitVec.allOnes 32 <<< (32 - p)

/-- All host bits are one. -/
def HostBitsOne (addr netmask : Ipv4Addr) : Prop := addr.word ||| netmask.word = BitVec.allOnes 32

/-- `ipv4_addr_is_broadcast`; `none` is a null pointer. -/
def ipv4AddrIsBroadcast (addr netmask : Option Ipv4Addr) : Bool :=
  match addr, netmask with
  | some addr, some netmask =>
    decide (∀ i, addr.addr i &&& netmask.addr i = 0xFF &&& ~~~netmask.addr i)
  | _, _ => false

/-- What `ipv4_addr_is_broadcast` should say of two addresses. -/
def BroadcastRight (addr netmask : Ipv4Addr) : Prop :=
  ipv4AddrIsBroadcast (some addr) (some netmask) = true ↔ HostBitsOne addr netmask

variable {addr netmask : Ipv4Addr} {p : ℕ}

/-- The four octets of the number. -/
theorem Ipv4Addr.word_eq (a : Ipv4Addr) : a.word = BitField.word (a.addr 3).toBitVec
    (a.addr 2).toBitVec (a.addr 1).toBitVec (a.addr 0).toBitVec := by
  have hofFn : List.ofFn a.addr = [a.addr 0, a.addr 1, a.addr 2, a.addr 3] := by
    simp [List.ofFn_succ]
  have htwo (x : BitVec 32) : x <<< 8 <<< 8 = x <<< 16 := (BitVec.shiftLeft_add x 8 8).symm
  have hthree (x : BitVec 32) : x <<< 16 <<< 8 = x <<< 24 := (BitVec.shiftLeft_add x 16 8).symm
  have hreverse (x y z w : BitVec 32) : x ||| y ||| z ||| w = w ||| z ||| y ||| x := by ac_rfl
  rw [Ipv4Addr.word, hofFn, BitField.word]
  simp only [List.foldl_cons, List.foldl_nil, BitVec.zero_shiftLeft, BitVec.zero_or,
    BitVec.shiftLeft_or_distrib, htwo, hthree]
  exact hreverse _ _ _ _

/-- **The addresses that pass**, whatever the netmask is. -/
theorem ipv4AddrIsBroadcast_iff : ipv4AddrIsBroadcast (some addr) (some netmask) = true ↔
    netmask.word = BitVec.allOnes 32 ∧ addr.word = 0#32 := by
  have hoctet : ∀ i, addr.addr i &&& netmask.addr i = 0xFF &&& ~~~netmask.addr i ↔
      (addr.addr i).toBitVec &&& (netmask.addr i).toBitVec = ~~~(netmask.addr i).toBitVec := by
    intro i
    rw [← UInt8.toBitVec_inj, UInt8.toBitVec_and, UInt8.toBitVec_and, UInt8.toBitVec_not]
    exact iff_of_eq (congrArg _ (BitVec.allOnes_and))
  rw [← BitField.and_eq_not_iff, addr.word_eq, netmask.word_eq, BitField.word_and,
    BitField.word_not, BitField.word_inj, ipv4AddrIsBroadcast, decide_eq_true_iff]
  constructor
  · intro h
    exact ⟨(hoctet 3).mp (h 3), (hoctet 2).mp (h 2), (hoctet 1).mp (h 1), (hoctet 0).mp (h 0)⟩
  · rintro ⟨h₃, h₂, h₁, h₀⟩ i
    rw [hoctet]
    fin_cases i
    exacts [h₀, h₁, h₂, h₃]

/-- A netmask that leaves out a bit leaves out the last. -/
theorem Ipv4Addr.IsPrefixMask.ne_allOnes (h : netmask.IsPrefixMask p) (hp : p < 32) :
    netmask.word ≠ BitVec.allOnes 32 := by
  intro hall
  have hbit := congrArg (fun x => x.getLsbD 0) (h.symm.trans hall)
  rw [BitVec.getLsbD_shiftLeft, BitVec.getLsbD_allOnes] at hbit
  simp [show 0 < 32 - p by omega] at hbit

/-- **The answer is right** when it is no: an address with all host bits one never passes. -/
theorem broadcastRight_iff (hmask : netmask.IsPrefixMask p) (hp : p < 32) :
    BroadcastRight addr netmask ↔ ¬ HostBitsOne addr netmask := by
  have hno : ¬ ipv4AddrIsBroadcast (some addr) (some netmask) = true :=
    fun h => hmask.ne_allOnes hp (ipv4AddrIsBroadcast_iff.mp h).1
  rw [BroadcastRight, iff_false_left hno]

/-- `192.168.1.1` in `192.168.1.0/24`. -/
theorem broadcastRight_iff_host :
    BroadcastRight ⟨![192, 168, 1, 1]⟩ ⟨![255, 255, 255, 0]⟩ ↔
      ¬ HostBitsOne ⟨![192, 168, 1, 1]⟩ ⟨![255, 255, 255, 0]⟩ :=
  broadcastRight_iff (p := 24) (by unfold Ipv4Addr.IsPrefixMask; decide) (by decide)

/-- `192.168.1.255`, the broadcast address of `192.168.1.0/24`, does not pass. -/
theorem not_broadcastRight :
    ¬ ∀ addr netmask : Ipv4Addr, ∀ p, 1 ≤ p → p ≤ 30 → netmask.IsPrefixMask p →
      BroadcastRight addr netmask := by
  intro h
  have hmask : Ipv4Addr.IsPrefixMask ⟨![255, 255, 255, 0]⟩ 24 := by
    unfold Ipv4Addr.IsPrefixMask
    decide
  have hright := h ⟨![192, 168, 1, 255]⟩ _ 24 (by decide) (by decide) hmask
  have hpass := hright.mpr (by unfold HostBitsOne; decide)
  exact absurd hpass (by decide)

end Rexus
