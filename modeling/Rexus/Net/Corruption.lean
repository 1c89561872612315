import Rexus.Lib.WordSum
import Rexus.Net.Ipv4Receive

/-!
# Corrupted headers

What `ipv4_checksum` of `net/ipv4.c` detects. A string whose checksum is stored in it adds up to a
multiple of `65535` that is not zero; no single bit weighs so much. `ipv4_receive_packet` does not
add up the whole header: it computes the checksum with zero in its field and compares. A header that
passes is one that adds up.

## Main results

* `ipv4Checksum_eq_zero_iff` — the strings whose checksum is zero
* `ipv4Checksum_store`, `ipv4Checksum_flipBit` — a stored checksum, and a bit that is flipped
* `corruption_detected` — for strings, and for the headers of `ipv4_send_packet`

## What is detected

A corruption is one flipped bit, anywhere in a string whose checksum is right, the checksum itself
included. Two flipped bits may cancel, and a word of zeros may become one of ones without a trace;
nothing is said of these. The strings are any of at most `65535` bytes, of odd or even length, with
the checksum in any word of them at an even place.

The headers are those that `ipv4_send_packet` builds, and for them the check is the one of
`ipv4_receive_packet` itself. To be dropped is said of the function as a whole: whatever interface
the packet has come from and whatever the stack holds, nothing is passed up and nothing of the stack
changes.
-/

namespace Rexus

open Bytes WordSum

/-- The checksum of a string, computed with zero in the field at `i`, is stored there. -/
def storeChecksum (d : ℕ → UInt8) (length i : ℕ) : ℕ → UInt8 :=
  putLe16 d i (ipv4Checksum (putLe16 d i 0) length)

/-- A stored checksum makes that of the string zero, and no flipped bit leaves it so. -/
structure ChecksumDetects (d : ℕ → UInt8) (length i : ℕ) : Prop where
  zero : ipv4Checksum (storeChecksum d length i) length = 0
  flip : ∀ p < length, ∀ b < 8, ipv4Checksum (flipBit (storeChecksum d length i) p b) length ≠ 0

/-- `ipv4_receive_packet` drops the packet wherever it arrives: nothing is passed up, nothing else
changes, and it counts as dropped and not as received. -/
def Dropped (packet : NetPacket) : Prop :=
  ∀ driver junk junkBuffer junkPacket t slots iface stats,
    ipv4ReceivePacket driver junk junkBuffer junkPacket t slots iface packet =
        some ⟨none, t, slots⟩ ∧
      ipv4ReceiveStats driver junk junkBuffer junkPacket t slots iface packet stats =
        { stats with packetsDropped := stats.packetsDropped + 1 }

section

variable {d e : ℕ → UInt8} {length i p b : ℕ}

/-! ### Sums -/

theorem sum_wordsOf (d : ℕ → UInt8) (length : ℕ) :
    (wordsOf d length).sum = WordSum.sum d length := by
  have hwords : (leWords d (length / 2)).sum = WordSum.sum d (2 * (length / 2)) :=
    (sum_two_mul d (length / 2)).symm
  rw [wordsOf_sum, hwords]
  split_ifs with hodd
  · obtain ⟨m, rfl⟩ : ∃ m, length = 2 * m + 1 := ⟨length / 2, by omega⟩
    rw [show (2 * m + 1) / 2 = m by omega, Nat.add_sub_cancel, WordSum.sum,
      weight_of_even (by omega), Nat.one_mul]
  · rw [show 2 * (length / 2) = length by omega]
    rfl

theorem sumBytes_eq_sum (d : ℕ → UInt8) (hlength : length ≤ 65535) :
    (sumBytes d length 0).toNat = WordSum.sum d length := by
  rw [sumBytes_toNat (by rw [UInt32.toNat_zero]; omega), UInt32.toNat_zero, Nat.zero_add,
    sum_wordsOf]

/-- **The strings whose checksum is zero.** -/
theorem ipv4Checksum_eq_zero_iff (hlength : length ≤ 65535) :
    ipv4Checksum d length = 0 ↔
      WordSum.sum d length ≠ 0 ∧ 65535 ∣ WordSum.sum d length := by
  rw [ipv4Checksum, checksumOfSum_eq_zero_iff, sumBytes_eq_sum d hlength]

/-! ### A stored checksum -/

theorem sum_storeChecksum (hlength : length ≤ 65535) (heven : i % 2 = 0)
    (hinside : i + 2 ≤ length) : WordSum.sum (storeChecksum d length i) length ≠ 0 ∧
      65535 ∣ WordSum.sum (storeChecksum d length i) length := by
  let e := putLe16 d i 0
  have hfold := foldSum_represents (sumBytes e length 0)
  rw [sumBytes_eq_sum e hlength] at hfold
  have hstored := sum_putLe16 (d := e) heven hinside (ipv4Checksum e length)
  rw [putLe16_putLe16, le16_putLe16, ipv4Checksum, checksumOfSum_toNat, UInt16.toNat_zero,
    Nat.add_zero] at hstored
  have hsum : WordSum.sum (storeChecksum d length i) length =
      WordSum.sum e length + (65535 - (foldSum (sumBytes e length 0)).toNat) := hstored
  rw [hsum]
  exact hfold.complement (by decide)

theorem ipv4Checksum_store (hlength : length ≤ 65535) (heven : i % 2 = 0)
    (hinside : i + 2 ≤ length) : ipv4Checksum (storeChecksum d length i) length = 0 :=
  (ipv4Checksum_eq_zero_iff hlength).mpr (sum_storeChecksum hlength heven hinside)

/-- **A bit that is flipped** in a string whose checksum is zero. -/
theorem ipv4Checksum_flipBit (hlength : length ≤ 65535) (h : ipv4Checksum d length = 0)
    (hp : p < length) (hb : b < 8) : ipv4Checksum (flipBit d p b) length ≠ 0 := by
  have hdvd := ((ipv4Checksum_eq_zero_iff hlength).mp h).2
  have hpow : 2 ^ b ≤ 2 ^ 7 := Nat.pow_le_pow_right (by decide) (Nat.le_of_lt_succ hb)
  have hweight : weight p * 2 ^ b ≤ 256 * 2 ^ 7 := Nat.mul_le_mul (weight_le p) hpow
  have hpos : 0 < weight p * 2 ^ b := Nat.mul_pos (weight_pos p) (Nat.two_pow_pos b)
  intro hzero
  exact OnesComplement.not_dvd_of_change hdvd hpos (by omega) (sum_flipBit hp hb)
    ((ipv4Checksum_eq_zero_iff hlength).mp hzero).2

/-! ### The check of a receiver -/

theorem putLe16_le16 (d : ℕ → UInt8) (i : ℕ) : putLe16 d i (le16 d i) = d := by
  have hlow := (d i).toNat_lt
  have hhigh := (d (i + 1)).toNat_lt
  funext k
  rw [putLe16]
  split_ifs with h h'
  · rw [h, ← UInt8.toNat_inj, UInt8.toNat_ofNat', le16_toNat]
    omega
  · rw [h', ← UInt8.toNat_inj, UInt8.toNat_ofNat', le16_toNat]
    omega
  · rfl

/-- A header that passes the check of a receiver has the checksum zero. -/
theorem ipv4Checksum_of_verify (h : ipv4Verify d = true) : ipv4Checksum d 20 = 0 := by
  have hstored : storeChecksum d 20 10 = d := by
    rw [ipv4Verify, beq_iff_eq] at h
    rw [storeChecksum, h, putLe16_le16]
  have hzero := ipv4Checksum_store (d := d) (i := 10) (by decide : 20 ≤ 65535) rfl (by decide)
  rwa [hstored] at hzero

theorem ipv4Seal_eq_storeChecksum (d : ℕ → UInt8) : ipv4Seal d = storeChecksum d 20 10 :=
  ipv4Seal_eq_putLe16 d

/-- No header that is sealed passes with one bit flipped. -/
theorem ipv4Verify_flipBit (hp : p < 20) (hb : b < 8)
    (h : ∀ k < 20, e k = flipBit (ipv4Seal d) p b k) : ipv4Verify e = false := by
  rw [Bool.eq_false_iff]
  intro hverify
  have hzero := ipv4Checksum_of_verify hverify
  have hsealed : ipv4Checksum (ipv4Seal d) 20 = 0 := by
    rw [ipv4Seal_eq_storeChecksum]
    exact ipv4Checksum_store (by decide) rfl (by decide)
  rw [ipv4Checksum, sumBytes_congr h] at hzero
  exact ipv4Checksum_flipBit (by decide) hsealed hp hb hzero

theorem dropped_of_verify {packet : NetPacket} (h : ipv4Verify packet.bytes = false) :
    Dropped packet := by
  intro driver junk junkBuffer junkPacket t slots iface stats
  rw [ipv4ReceivePacket, ipv4ReceiveStats]
  dsimp only
  rw [if_pos (Or.inr (Or.inr h)), if_pos (Or.inr (Or.inr h))]
  exact ⟨rfl, rfl⟩

end

/-- **Every single-bit corruption is detected**: of a string with its checksum, and of a header that
`ipv4_send_packet` has built. -/
theorem corruption_detected :
    (∀ d length i, length ≤ 65535 → i % 2 = 0 → i + 2 ≤ length → ChecksumDetects d length i) ∧
      ∀ id packet srcAddr destAddr protocol ttl p b, p < 20 → b < 8 → ∀ received : NetPacket,
        (∀ k < 20, received.bytes k =
          flipBit (ipv4BuildHeader id packet srcAddr destAddr protocol ttl).bytes p b k) →
        Dropped received := by
  refine ⟨fun d length i hlength heven hinside => ?_, ?_⟩
  · have hzero := ipv4Checksum_store (d := d) hlength heven hinside
    exact ⟨hzero, fun p hp b hb => ipv4Checksum_flipBit hlength hzero hp hb⟩
  · intro id packet srcAddr destAddr protocol ttl p b hp hb received hreceived
    exact dropped_of_verify (ipv4Verify_flipBit hp hb hreceived)

/-- A header of zeros, and the time to live of a packet that is built. -/
theorem corruption_detected_ttl : ChecksumDetects (fun _ => 0) 20 10 ∧
    Dropped { packetOf 8 with
      bytes := flipBit (ipv4BuildHeader 0 (packetOf 8) zeroAddr zeroAddr 17 0).bytes 8 0 } :=
  ⟨corruption_detected.1 _ 20 10 (by decide) rfl (by decide),
    corruption_detected.2 0 (packetOf 8) zeroAddr zeroAddr 17 0 8 0 (by decide) (by decide) _
      fun _ _ => rfl⟩

end Rexus
