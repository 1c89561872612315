import Rexus.Net.Checksum

/-!
# The IPv4 header

`ipv4_header_t` of `net/ipv4.h`, read from the first twenty bytes of a packet and written there
field by field. A field is stored as the machine stores it; no function swaps bytes. The lemmas say
what a write makes of the header as a whole, and that what lies behind it stays.

## What a proof uses

* `ipv4Header_putLe16_two` and its like — a write to a field is an update of the record
* `ipv4Verify_ipv4Seal` — a header that is sealed passes the check of a receiver

## Conventions

The header has twenty bytes, as the structure has no options; where a packet says that its header is
longer, the functions of this stack do not look. The record is not stored anywhere: it is what the
bytes are read as, and a write to a field is a write of its bytes. Fields of two bytes are read in
the order of the machine. `packet.bytes` is a total map, so a header can be read of a packet that is
shorter than one; the functions that do so look at the length first.

The flags and the offset share one field, and the masks are those of the source. The checksum is
computed over the header with zero in its place, here and in the check of the receiver.
-/

namespace Rexus

open Bytes

/-- `ipv4_header_t`, without options. -/
structure Ipv4Header where
  versionIhl : UInt8
  tos : UInt8
  totalLength : UInt16
  id : UInt16
  flagsOffset : UInt16
  ttl : UInt8
  protocol : UInt8
  checksum : UInt16
  srcAddr : Ipv4Addr
  destAddr : Ipv4Addr
  deriving DecidableEq

/-- The address at `i`. -/
def addrAt (d : ℕ → UInt8) (i : ℕ) : Ipv4Addr := ⟨fun k => d (i + k)⟩

/-- An address is written. -/
def putAddr (d : ℕ → UInt8) (i : ℕ) (a : Ipv4Addr) : ℕ → UInt8 :=
  blit d i (fun k => a.addr (Fin.ofNat 4 k)) 0 4

/-- The header at the start of a packet. -/
def ipv4Header (d : ℕ → UInt8) : Ipv4Header where
  versionIhl := d 0
  tos := d 1
  totalLength := le16 d 2
  id := le16 d 4
  flagsOffset := le16 d 6
  ttl := d 8
  protocol := d 9
  checksum := le16 d 10
  srcAddr := addrAt d 12
  destAddr := addrAt d 16

/-- `header->checksum = 0; header->checksum = ipv4_checksum(header, sizeof(ipv4_header_t))`. -/
def ipv4Seal (d : ℕ → UInt8) : ℕ → UInt8 :=
  putLe16 (putLe16 d 10 0) 10 (ipv4Checksum (putLe16 d 10 0) 20)

/-- The check of `ipv4_receive_packet`: the checksum is computed with zero in its field. -/
def ipv4Verify (d : ℕ → UInt8) : Bool := ipv4Checksum (putLe16 d 10 0) 20 == le16 d 10

namespace Ipv4Header

variable (h : Ipv4Header)

/-- `flags_offset & IPV4_FLAG_DONT_FRAGMENT`. -/
def dontFragment : Bool := h.flagsOffset &&& 0x4000 != 0

/-- `flags_offset & IPV4_FLAG_MORE_FRAGMENTS`. -/
def moreFragments : Bool := h.flagsOffset &&& 0x2000 != 0

/-- `flags_offset & IPV4_FRAGMENT_OFFSET_MASK`, in units of eight bytes. -/
def fragmentOffset : UInt16 := h.flagsOffset &&& 0x1FFF

/-- `flags_offset & (IPV4_FLAG_MORE_FRAGMENTS | IPV4_FRAGMENT_OFFSET_MASK)`. -/
def isFragment : Bool := h.flagsOffset &&& (0x2000 ||| 0x1FFF) != 0

theorem fragmentOffset_lt : h.fragmentOffset.toNat < 2 ^ 13 := by
  rw [fragmentOffset, UInt16.toNat_and]
  exact Nat.lt_succ_of_le Nat.and_le_right

end Ipv4Header

/-! ### What a write makes of the header -/

variable (d e : ℕ → UInt8) (v : UInt16)

/-- The header is in the first twenty bytes. -/
theorem ipv4Header_congr {d e : ℕ → UInt8} (h : ∀ k < 20, d k = e k) :
    ipv4Header d = ipv4Header e := by
  have haddr : ∀ i, i ≤ 16 → addrAt d i = addrAt e i := fun i hi =>
    congrArg Ipv4Addr.mk (funext fun k => h (i + k) (by omega))
  simp only [ipv4Header, h 0 (by decide), h 1 (by decide), h 8 (by decide), h 9 (by decide),
    haddr 12 (by decide), haddr 16 (by decide), le16_congr (h 2 (by decide)) (h 3 (by decide)),
    le16_congr (h 4 (by decide)) (h 5 (by decide)), le16_congr (h 6 (by decide)) (h 7 (by decide)),
    le16_congr (h 10 (by decide)) (h 11 (by decide))]

theorem addrAt_putLe16 {i j : ℕ} (h : j + 1 < i) : addrAt (putLe16 d j v) i = addrAt d i :=
  congrArg Ipv4Addr.mk (funext fun k => putLe16_of_ne v (by omega) (by omega))

@[simp] theorem ipv4Header_putLe16_two :
    ipv4Header (putLe16 d 2 v) = { ipv4Header d with totalLength := v } := by
  simp [ipv4Header, addrAt_putLe16, le16_putLe16_of_ne, putLe16_of_ne]

@[simp] theorem ipv4Header_putLe16_four :
    ipv4Header (putLe16 d 4 v) = { ipv4Header d with id := v } := by
  simp [ipv4Header, addrAt_putLe16, le16_putLe16_of_ne, putLe16_of_ne]

@[simp] theorem ipv4Header_putLe16_six :
    ipv4Header (putLe16 d 6 v) = { ipv4Header d with flagsOffset := v } := by
  simp [ipv4Header, addrAt_putLe16, le16_putLe16_of_ne, putLe16_of_ne]

@[simp] theorem ipv4Header_putLe16_ten :
    ipv4Header (putLe16 d 10 v) = { ipv4Header d with checksum := v } := by
  simp [ipv4Header, addrAt_putLe16, le16_putLe16_of_ne, putLe16_of_ne]

theorem addrAt_update {i j : ℕ} (b : UInt8) (h : j < i) :
    addrAt (Function.update d j b) i = addrAt d i :=
  congrArg Ipv4Addr.mk (funext fun k => Function.update_of_ne (by omega) ..)

theorem le16_update {i j : ℕ} (b : UInt8) (h : i ≠ j) (h' : i + 1 ≠ j) :
    le16 (Function.update d j b) i = le16 d i :=
  le16_congr (Function.update_of_ne h ..) (Function.update_of_ne h' ..)

@[simp] theorem ipv4Header_update_zero (b : UInt8) :
    ipv4Header (Function.update d 0 b) = { ipv4Header d with versionIhl := b } := by
  simp [ipv4Header, addrAt_update, le16_update]

@[simp] theorem ipv4Header_update_one (b : UInt8) :
    ipv4Header (Function.update d 1 b) = { ipv4Header d with tos := b } := by
  simp [ipv4Header, addrAt_update, le16_update]

@[simp] theorem ipv4Header_update_eight (b : UInt8) :
    ipv4Header (Function.update d 8 b) = { ipv4Header d with ttl := b } := by
  simp [ipv4Header, addrAt_update, le16_update]

@[simp] theorem ipv4Header_update_nine (b : UInt8) :
    ipv4Header (Function.update d 9 b) = { ipv4Header d with protocol := b } := by
  simp [ipv4Header, addrAt_update, le16_update]

theorem addrAt_putAddr (i : ℕ) (a : Ipv4Addr) : addrAt (putAddr d i a) i = a := by
  refine congrArg Ipv4Addr.mk (funext fun k => ?_)
  show blit d i _ 0 4 (i + k) = a.addr k
  rw [blit_of_mem (Nat.le_add_right i k) (by omega), Nat.add_sub_cancel_left, Nat.zero_add]
  exact congrArg a.addr (Fin.ofNat_val_eq_self k)

theorem putAddr_of_lt {i k : ℕ} (a : Ipv4Addr) (h : k < i) : putAddr d i a k = d k := blit_of_lt h

theorem putAddr_of_ge {i k : ℕ} (a : Ipv4Addr) (h : i + 4 ≤ k) : putAddr d i a k = d k :=
  blit_of_ge h

theorem addrAt_putAddr_of_ne {i j : ℕ} (a : Ipv4Addr) (h : i + 4 ≤ j ∨ j + 4 ≤ i) :
    addrAt (putAddr d j a) i = addrAt d i := by
  refine congrArg Ipv4Addr.mk (funext fun k => ?_)
  rcases h with h | h
  · exact putAddr_of_lt d a (by omega)
  · exact putAddr_of_ge d a (by omega)

theorem le16_putAddr {i j : ℕ} (a : Ipv4Addr) (h : i + 1 < j) :
    le16 (putAddr d j a) i = le16 d i :=
  le16_congr (putAddr_of_lt d a (by omega)) (putAddr_of_lt d a h)

@[simp] theorem ipv4Header_putAddr_twelve (a : Ipv4Addr) :
    ipv4Header (putAddr d 12 a) = { ipv4Header d with srcAddr := a } := by
  simp [ipv4Header, addrAt_putAddr, addrAt_putAddr_of_ne, le16_putAddr, putAddr_of_lt]

@[simp] theorem ipv4Header_putAddr_sixteen (a : Ipv4Addr) :
    ipv4Header (putAddr d 16 a) = { ipv4Header d with destAddr := a } := by
  simp [ipv4Header, addrAt_putAddr, addrAt_putAddr_of_ne, le16_putAddr, putAddr_of_lt]

/-- A header that is copied. -/
@[simp] theorem ipv4Header_blit_zero : ipv4Header (blit d 0 e 0 20) = ipv4Header e :=
  ipv4Header_congr fun k hk => by simp [blit_of_mem (Nat.zero_le k) (by omega : k < 0 + 20)]

/-- What is copied behind the header. -/
@[simp] theorem ipv4Header_blit_twenty (j n : ℕ) : ipv4Header (blit d 20 e j n) = ipv4Header d :=
  ipv4Header_congr fun _ hk => blit_of_lt hk

/-- A header that is sealed has another checksum, and nothing else. -/
theorem ipv4Header_ipv4Seal : ∃ checksum,
    ipv4Header (ipv4Seal d) = { ipv4Header d with checksum } := by
  refine ⟨ipv4Checksum (putLe16 d 10 0) 20, ?_⟩
  simp [ipv4Seal]

/-- The zero in the field is overwritten. -/
theorem ipv4Seal_eq_putLe16 (d : ℕ → UInt8) :
    ipv4Seal d = putLe16 d 10 (ipv4Checksum (putLe16 d 10 0) 20) := by
  rw [ipv4Seal, putLe16_putLe16]

theorem ipv4Seal_of_le {k : ℕ} (h : 20 ≤ k) : ipv4Seal d k = d k := by
  rw [ipv4Seal_eq_putLe16, putLe16_of_ne _ (by omega) (by omega)]

/-- A header that is sealed passes the check of a receiver. -/
theorem ipv4Verify_ipv4Seal : ipv4Verify (ipv4Seal d) = true := by
  have hchecksum := checksum_putLe16 (fun d => ipv4Checksum d 20) d 10
  rw [ipv4Verify, ipv4Seal_eq_putLe16, hchecksum, beq_self_eq_true]

end Rexus
