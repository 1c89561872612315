import Mathlib.Algebra.Order.BigOperators.Group.List
import Mathlib.Algebra.Order.Group.Nat
import Rexus.Lib.Bytes
import Rexus.Lib.OnesComplement
import Rexus.Net.Packet

/-!
# Checksums

The sum of sixteen-bit words that `net/ipv4.c` and `net/udp.c` compute: over a header, and over a
pseudo header and a datagram. The words are read as the machine stores them, little-endian, and the
sum is one of thirty-two bits.

## Main results

* `checksum_putLe16` — a header whose checksum field holds the checksum passes its check
* `foldSum_represents`, `sumBytes_toNat`, `checksumOfSum_toNat` — the checksum is the complement of
  the one's complement sum of the words
* `checksumOfSum_eq_zero_iff` — the sums whose checksum is zero
* `udpChecksum_eq_zero_iff` — the datagrams whose checksum is zero

## Conventions

A buffer is a map from offsets to bytes, and a length in bytes goes with it. The words are taken in
the order of the machine, and `Lib/OnesComplement.lean` says why this does not matter for whether a
sum is zero. The length of a datagram is a number of sixteen bits, so the accumulator of thirty-two
never wraps: at most `32768` words of a datagram and six of a pseudo header are added to it.

`checksum_putLe16` is about any buffer with the checksum at an even offset, the header of a packet
and the datagram of a socket alike. A computed checksum of zero is not replaced by all ones, as the
standard has it for datagrams; the model keeps the value that the function returns.
-/

namespace Rexus

open Bytes

/-- `for (i = 0; i < n; i++) sum += ptr[i]`, of words. -/
def sumWords (d : ℕ → UInt8) : ℕ → UInt32 → UInt32
  | 0, sum => sum
  | n + 1, sum => sumWords (fun k => d (k + 2)) n (sum + (le16 d 0).toUInt32)

/-- The words of `length` bytes, and the byte left over if their number is odd. -/
def sumBytes (d : ℕ → UInt8) (length : ℕ) (sum : UInt32) : UInt32 :=
  if length % 2 = 1 then sumWords d (length / 2) sum + (d (length - 1)).toUInt32
  else sumWords d (length / 2) sum

/-- `while (sum >> 16) sum = (sum & 0xFFFF) + (sum >> 16)`. -/
def foldSum (sum : UInt32) : UInt32 :=
  if sum >>> 16 = 0 then sum else foldSum ((sum &&& (0xFFFF : UInt32)) + (sum >>> 16))
termination_by sum.toNat
decreasing_by
  rename_i h
  have hsum := sum.toNat_lt
  have hshift : (sum >>> 16).toNat = sum.toNat / 2 ^ 16 := by
    rw [UInt32.toNat_shiftRight, Nat.shiftRight_eq_div_pow]
    rfl
  have hand : (sum &&& 0xFFFF).toNat = sum.toNat % 2 ^ 16 := by
    rw [UInt32.toNat_and]
    exact Nat.and_two_pow_sub_one_eq_mod sum.toNat 16
  have hne : (sum >>> 16).toNat ≠ 0 := fun h0 => h (UInt32.toNat_inj.mp h0)
  rw [UInt32.toNat_add, hand, hshift, Nat.mod_eq_of_lt] <;> omega

/-- `return ~sum`, in sixteen bits. -/
def checksumOfSum (sum : UInt32) : UInt16 := (~~~ foldSum sum).toUInt16

/-- `ipv4_checksum`. -/
def ipv4Checksum (d : ℕ → UInt8) (length : ℕ) : UInt16 := checksumOfSum (sumBytes d length 0)

/-- The pseudo header of `udp_checksum`. -/
def udpPseudoHeader (srcAddr destAddr : Ipv4Addr) (length : UInt16) : List UInt8 :=
  List.ofFn srcAddr.addr ++ List.ofFn destAddr.addr ++
    [0, 17, UInt8.ofNat length.toNat, UInt8.ofNat (length.toNat / 256)]

/-- `udp_checksum`, of pointers that are there. -/
def udpChecksum (srcAddr destAddr : Ipv4Addr) (d : ℕ → UInt8) (length : ℕ) : UInt16 :=
  let pseudo := udpPseudoHeader srcAddr destAddr (UInt16.ofNat length)
  checksumOfSum (sumBytes d length (sumWords (fun k => pseudo.getD k 0) 6 0))

theorem putLe16_putLe16 (d : ℕ → UInt8) (i : ℕ) (v w : UInt16) :
    putLe16 (putLe16 d i v) i w = putLe16 d i w := by
  funext k
  simp only [putLe16]
  split_ifs <;> rfl

/-- A checksum that is computed with zero in its field, and written there, is found correct. -/
theorem checksum_putLe16 (check : (ℕ → UInt8) → UInt16) (d : ℕ → UInt8) (i : ℕ) :
    check (putLe16 (putLe16 d i (check (putLe16 d i 0))) i 0) =
      le16 (putLe16 d i (check (putLe16 d i 0))) i := by
  rw [putLe16_putLe16, le16_putLe16]

/-! ### What is computed -/

/-- The words from the start of a buffer, as the machine reads them. -/
def leWords (d : ℕ → UInt8) (n : ℕ) : List ℕ := (List.range n).map fun k => (le16 d (2 * k)).toNat

theorem leWords_succ (d : ℕ → UInt8) (n : ℕ) :
    leWords d (n + 1) = (le16 d 0).toNat :: leWords (fun k => d (k + 2)) n := by
  rw [leWords, List.range_succ_eq_map, List.map_cons, List.map_map]
  rfl

/-- A sum that has room for the words is one of numbers. -/
theorem sumWords_toNat {d : ℕ → UInt8} {n : ℕ} {sum : UInt32}
    (h : sum.toNat + 65535 * n < 2 ^ 32) :
    (sumWords d n sum).toNat = sum.toNat + (leWords d n).sum := by
  induction n generalizing d sum with
  | zero => rfl
  | succ n ih =>
    have hword := (le16 d 0).toNat_lt
    have hadd : (sum + (le16 d 0).toUInt32).toNat = sum.toNat + (le16 d 0).toNat := by
      rw [UInt32.toNat_add, UInt16.toNat_toUInt32, Nat.mod_eq_of_lt (by omega)]
    rw [sumWords, ih (by rw [hadd]; omega), hadd, leWords_succ, List.sum_cons, Nat.add_assoc]

/-- What a turn of the loop that folds the carries leaves. -/
theorem foldCarry_toNat (sum : UInt32) :
    ((sum &&& (0xFFFF : UInt32)) + (sum >>> 16)).toNat = sum.toNat % 65536 + sum.toNat / 65536 := by
  have hsum := sum.toNat_lt
  have hshift : (sum >>> 16).toNat = sum.toNat / 65536 := by
    rw [UInt32.toNat_shiftRight, Nat.shiftRight_eq_div_pow]
    rfl
  have hand : (sum &&& 0xFFFF).toNat = sum.toNat % 65536 := by
    rw [UInt32.toNat_and]
    exact Nat.and_two_pow_sub_one_eq_mod sum.toNat 16
  rw [UInt32.toNat_add, hand, hshift, Nat.mod_eq_of_lt (by omega)]

theorem shiftRight_eq_zero_iff (sum : UInt32) : sum >>> 16 = 0 ↔ sum.toNat < 65536 := by
  rw [← UInt32.toNat_inj, UInt32.toNat_shiftRight, Nat.shiftRight_eq_div_pow]
  simp only [UInt32.reduceToNat, Nat.reduceMod, Nat.reducePow, UInt32.toNat_zero]
  omega

/-- The loop that folds the carries ends with the one's complement sum. -/
theorem foldSum_represents (sum : UInt32) :
    OnesComplement.Represents 65535 (foldSum sum).toNat sum.toNat := by
  induction sum using foldSum.induct with
  | case1 sum h =>
    rw [foldSum, if_pos h]
    exact OnesComplement.Represents.self (Nat.le_of_lt_succ ((shiftRight_eq_zero_iff sum).mp h))
  | case2 sum h ih =>
    rw [foldSum, if_neg h]
    rw [foldCarry_toNat] at ih
    exact ih.of_carry

theorem checksumOfSum_toNat (sum : UInt32) :
    (checksumOfSum sum).toNat = 65535 - (foldSum sum).toNat := by
  have hle := (foldSum_represents sum).le
  have hsize : UInt32.size = 2 ^ 32 := rfl
  rw [checksumOfSum, UInt32.toNat_toUInt16, UInt32.toNat_not, hsize]
  omega

/-- **The sums whose checksum is zero.** -/
theorem checksumOfSum_eq_zero_iff (sum : UInt32) :
    checksumOfSum sum = 0 ↔ sum.toNat ≠ 0 ∧ 65535 ∣ sum.toNat := by
  have hfold := foldSum_represents sum
  have hle := hfold.le
  rw [← hfold.eq_top_iff (by decide), ← UInt16.toNat_inj, checksumOfSum_toNat, UInt16.toNat_zero]
  omega

/-! ### What is added up -/

theorem leWords_sum_le (d : ℕ → UInt8) (n : ℕ) : (leWords d n).sum ≤ 65535 * n := by
  induction n generalizing d with
  | zero => exact Nat.le_refl 0
  | succ n ih =>
    have hword := (le16 d 0).toNat_lt
    have hrest := ih fun k => d (k + 2)
    rw [leWords_succ, List.sum_cons]
    omega

/-- The little-endian words of a string; an odd last byte is a word whose high byte is zero. -/
def wordsOf (d : ℕ → UInt8) (length : ℕ) : List ℕ :=
  leWords d (length / 2) ++ if length % 2 = 1 then [(d (length - 1)).toNat] else []

theorem le_of_mem_wordsOf {d : ℕ → UInt8} {length a : ℕ} (h : a ∈ wordsOf d length) :
    a ≤ 65535 := by
  rcases List.mem_append.mp h with h | h
  · obtain ⟨k, -, rfl⟩ := List.mem_map.mp h
    exact Nat.le_of_lt_succ (le16 d (2 * k)).toNat_lt
  · split_ifs at h
    · rw [List.mem_singleton.mp h]
      exact (Nat.le_of_lt (d (length - 1)).toNat_lt).trans (by decide)
    · cases h

theorem wordsOf_sum (d : ℕ → UInt8) (length : ℕ) : (wordsOf d length).sum =
    (leWords d (length / 2)).sum + if length % 2 = 1 then (d (length - 1)).toNat else 0 := by
  rw [wordsOf, List.sum_append]
  split_ifs
  · rw [List.sum_singleton]
  · rfl

/-- An accumulator with room for the words does not wrap. -/
theorem sumBytes_toNat {d : ℕ → UInt8} {length : ℕ} {sum : UInt32}
    (h : sum.toNat + 65535 * (length / 2 + 1) < 2 ^ 32) :
    (sumBytes d length sum).toNat = sum.toNat + (wordsOf d length).sum := by
  have hwords : (sumWords d (length / 2) sum).toNat = sum.toNat + (leWords d (length / 2)).sum :=
    sumWords_toNat (by omega)
  rw [sumBytes, wordsOf_sum, ← Nat.add_assoc, ← hwords]
  split_ifs with hodd
  · have hbyte := (d (length - 1)).toNat_lt
    have hle := leWords_sum_le d (length / 2)
    rw [UInt32.toNat_add, UInt8.toNat_toUInt32, Nat.mod_eq_of_lt (by omega)]
  · rfl

/-! ### The checksum of a datagram -/

theorem sumWords_congr {d e : ℕ → UInt8} {n : ℕ} (h : ∀ k < 2 * n, d k = e k) (sum : UInt32) :
    sumWords d n sum = sumWords e n sum := by
  induction n generalizing d e sum with
  | zero => rfl
  | succ n ih =>
    rw [sumWords, sumWords, le16_congr (h 0 (by omega)) (h 1 (by omega))]
    exact ih (fun k hk => h (k + 2) (by omega)) _

theorem sumBytes_congr {d e : ℕ → UInt8} {length : ℕ} (h : ∀ k < length, d k = e k)
    (sum : UInt32) : sumBytes d length sum = sumBytes e length sum := by
  have hwords := sumWords_congr (n := length / 2) fun k hk => h k (by omega)
  rw [sumBytes, sumBytes]
  split_ifs with hodd
  · rw [hwords, h (length - 1) (by omega)]
  · rw [hwords]

/-- The checksum is one of the bytes of the datagram. -/
theorem udpChecksum_congr {d e : ℕ → UInt8} {length : ℕ} (h : ∀ k < length, d k = e k)
    (srcAddr destAddr : Ipv4Addr) :
    udpChecksum srcAddr destAddr d length = udpChecksum srcAddr destAddr e length :=
  congrArg checksumOfSum (sumBytes_congr h _)

/-- What the words of the pseudo header and of a datagram add up to. -/
def udpWordSum (srcAddr destAddr : Ipv4Addr) (d : ℕ → UInt8) (length : ℕ) : ℕ :=
  (leWords (fun k => (udpPseudoHeader srcAddr destAddr (UInt16.ofNat length)).getD k 0) 6).sum +
    (leWords d (length / 2)).sum + if length % 2 = 1 then (d (length - 1)).toNat else 0

/-- The number of the protocol is not zero. -/
theorem udpWordSum_ne_zero (srcAddr destAddr : Ipv4Addr) (d : ℕ → UInt8) (length : ℕ) :
    udpWordSum srcAddr destAddr d length ≠ 0 := by
  let pseudo : ℕ → UInt8 := fun k =>
    (udpPseudoHeader srcAddr destAddr (UInt16.ofNat length)).getD k 0
  have hprotocol : (le16 pseudo (2 * 4)).toNat = 17 * 256 := by
    rw [le16_toNat]
    rfl
  have hmem : (le16 pseudo (2 * 4)).toNat ∈ leWords pseudo 6 :=
    List.mem_map_of_mem (List.mem_range.mpr (by decide))
  have hle := List.le_sum_of_mem hmem
  have hpseudo : (leWords pseudo 6).sum ≤ udpWordSum srcAddr destAddr d length :=
    (Nat.le_add_right _ _).trans (Nat.le_add_right _ _)
  omega

/-- A checksum is zero if the words add up to a multiple of `65535`. -/
theorem udpChecksum_eq_zero_iff {length : ℕ} (hlength : length < 2 ^ 16)
    (srcAddr destAddr : Ipv4Addr) (d : ℕ → UInt8) :
    udpChecksum srcAddr destAddr d length = 0 ↔
      65535 ∣ udpWordSum srcAddr destAddr d length := by
  let pseudo : ℕ → UInt8 := fun k =>
    (udpPseudoHeader srcAddr destAddr (UInt16.ofNat length)).getD k 0
  have hpseudo : (sumWords pseudo 6 0).toNat = (leWords pseudo 6).sum := by
    rw [sumWords_toNat (by decide), UInt32.toNat_zero, Nat.zero_add]
  have hle := leWords_sum_le pseudo 6
  have hsum : (sumBytes d length (sumWords pseudo 6 0)).toNat =
      udpWordSum srcAddr destAddr d length := by
    rw [sumBytes_toNat (by omega), wordsOf_sum, hpseudo, ← Nat.add_assoc]
    rfl
  have hzero := checksumOfSum_eq_zero_iff (sumBytes d length (sumWords pseudo 6 0))
  rw [hsum] at hzero
  exact hzero.trans (and_iff_right (udpWordSum_ne_zero srcAddr destAddr d length))

end Rexus
