import Mathlib.Data.List.GetD
import Rexus.Lib.Run
import Rexus.Lib.While
import Rexus.Net.Checksum

/-!
# The loops of the checksums

`ipv4_checksum` and `ipv4_pseudo_checksum` of `net/ipv4.c` walk over the data with a pointer and
count the length down; `udp_checksum` of `net/udp.c` and `tcp_checksum` of `net/tcp.c` go by an
index, over a pseudo header that each of them builds for itself. Here the loops are as they are
written, and all of them add up the same words.

## Main results

* `pointerSum_eq`, `indexSum_eq` — both loops are the sum of `Net/Checksum.lean`
* `iterate_foldSumTurn` — the carries are folded in at most two turns
* `checksums_agree` — the four functions agree, and on what

## Conventions

The functions take their lengths as words of the widths of their parameters, and the loops count in
these; a length is any, zero and the odd ones included. The byte left over at the end is added as it
is, which makes it the low byte of a word. The loop that folds the carries has no bound in the
source, so it runs with fuel, and the result is for all fuels from two turns on, and one for the
test that ends it.

The pointers are there: the tests for null pointers, behind which two of the functions return zero,
are left out.
-/

namespace Rexus

open Bytes Loop

/-! ### The functions -/

/-- `while (length > 1) { sum += *ptr++; length -= 2; }`, and the byte left over. -/
def pointerSum (d : ℕ → UInt8) : (length ptr : ℕ) → UInt32 → UInt32
  | 0, _, sum => sum
  | 1, ptr, sum => sum + (d ptr).toUInt32
  | length + 2, ptr, sum => pointerSum d length (ptr + 2) (sum + (le16 d ptr).toUInt32)

/-- `for (i = 0; i < n; i++) sum += ptr[i]`, of words. -/
def indexSum (d : ℕ → UInt8) (n : ℕ) (sum : UInt32) : UInt32 :=
  forRange (fun i sum => sum + (le16 d (2 * i)).toUInt32) n 0 sum

/-- One turn of `while (sum >> 16) sum = (sum & 0xFFFF) + (sum >> 16)`. -/
def foldSumTurn (sum : UInt32) : Option (Turn UInt32 UInt32) :=
  some (if sum >>> 16 = 0 then .done sum else .next ((sum &&& (0xFFFF : UInt32)) + (sum >>> 16)))

/-- `ipv4_pseudo_header_t`. -/
structure Ipv4PseudoHeader where
  srcAddr : Ipv4Addr
  destAddr : Ipv4Addr
  zero : UInt8
  protocol : UInt8
  length : UInt16

/-- Its twelve bytes. -/
def Ipv4PseudoHeader.bytes (pseudo : Ipv4PseudoHeader) : List UInt8 :=
  List.ofFn pseudo.srcAddr.addr ++ List.ofFn pseudo.destAddr.addr ++
    [pseudo.zero, pseudo.protocol, UInt8.ofNat pseudo.length.toNat,
      UInt8.ofNat (pseudo.length.toNat / 256)]

/-- A buffer that these bytes are in. -/
def bufferOf (l : List UInt8) : ℕ → UInt8 := fun k => l.getD k 0

/-- The sum of `ipv4_pseudo_checksum`, before it is folded. -/
def ipv4PseudoSum (pseudo : Ipv4PseudoHeader) (d : ℕ → UInt8) (length : ℕ) : UInt32 :=
  pointerSum d length 0 (indexSum (bufferOf pseudo.bytes) 6 0)

/-- `ipv4_pseudo_checksum`. -/
def ipv4PseudoChecksum (pseudo : Ipv4PseudoHeader) (d : ℕ → UInt8) (length : ℕ) : UInt16 :=
  checksumOfSum (ipv4PseudoSum pseudo d length)

/-- The sum of `udp_checksum` and of `tcp_checksum`, with the number of the protocol. -/
def transportSum (protocol : UInt8) (srcAddr destAddr : Ipv4Addr) (d : ℕ → UInt8) (length : ℕ) :
    UInt32 :=
  let pseudo : Ipv4PseudoHeader := ⟨srcAddr, destAddr, 0, protocol, UInt16.ofNat length⟩
  let sum := indexSum d (length / 2) (indexSum (bufferOf pseudo.bytes) 6 0)
  if length % 2 = 1 then sum + (d (length - 1)).toUInt32 else sum

/-- `tcp_checksum`, of pointers that are there. -/
def tcpChecksum (srcAddr destAddr : Ipv4Addr) (d : ℕ → UInt8) (length : ℕ) : UInt16 :=
  checksumOfSum (transportSum 6 srcAddr destAddr d length)

/-! ### The loops add up the same words -/

theorem sumBytes_add_two (d : ℕ → UInt8) (length : ℕ) (sum : UInt32) :
    sumBytes d (length + 2) sum =
      sumBytes (fun k => d (k + 2)) length (sum + (le16 d 0).toUInt32) := by
  rw [sumBytes, sumBytes, Nat.add_mod_right, Nat.add_div_right length (by decide), sumWords]
  split_ifs with hodd
  · rw [show length + 2 - 1 = length - 1 + 2 by omega]
  · rfl

/-- A pointer that walks over the data. -/
theorem pointerSum_eq (d : ℕ → UInt8) (length ptr : ℕ) (sum : UInt32) :
    pointerSum d length ptr sum = sumBytes (fun k => d (ptr + k)) length sum := by
  fun_induction pointerSum d length ptr sum with
  | case1 ptr sum => rfl
  | case2 ptr sum => rfl
  | case3 length ptr sum ih =>
    rw [ih, sumBytes_add_two]
    have hshift : (fun k => d (ptr + 2 + k)) = fun k => d (ptr + (k + 2)) :=
      funext fun k => congrArg d (by omega)
    rw [hshift]
    rfl

/-- An index that counts the words. -/
theorem indexSum_eq (d : ℕ → UInt8) (n : ℕ) (sum : UInt32) :
    indexSum d n sum = sumWords d n sum := by
  have hfrom : ∀ a sum, forRange (fun i sum => sum + (le16 d (2 * i)).toUInt32) n a sum =
      sumWords (fun k => d (2 * a + k)) n sum := by
    induction n with
    | zero => exact fun _ _ => rfl
    | succ n ih =>
      intro a sum
      have hshift : (fun k => d (2 * (a + 1) + k)) = fun k => d (2 * a + (k + 2)) :=
        funext fun k => congrArg d (by omega)
      rw [forRange, ih, sumWords, hshift]
      rfl
  rw [indexSum, hfrom]
  exact congrArg (fun e => sumWords e n sum) (funext fun k => congrArg d (by omega))

theorem ipv4Checksum_eq (d : ℕ → UInt8) (length : ℕ) :
    ipv4Checksum d length = checksumOfSum (pointerSum d length 0 0) := by
  rw [pointerSum_eq, ipv4Checksum]
  exact congrArg (fun e => checksumOfSum (sumBytes e length 0))
    (funext fun k => congrArg d (by omega))

theorem transportSum_eq (protocol : UInt8) (srcAddr destAddr : Ipv4Addr) (d : ℕ → UInt8)
    (length : ℕ) : transportSum protocol srcAddr destAddr d length =
      ipv4PseudoSum ⟨srcAddr, destAddr, 0, protocol, UInt16.ofNat length⟩ d length := by
  rw [transportSum, ipv4PseudoSum, pointerSum_eq, indexSum_eq d, sumBytes]
  simp only [Nat.zero_add]

theorem udpChecksum_eq (srcAddr destAddr : Ipv4Addr) (d : ℕ → UInt8) (length : ℕ) :
    udpChecksum srcAddr destAddr d length =
      checksumOfSum (transportSum 17 srcAddr destAddr d length) := by
  rw [udpChecksum, transportSum, indexSum_eq, indexSum_eq, sumBytes]
  rfl

/-! ### Folding -/

/-- A turn of the loop, when the turns left are enough for what it leaves. -/
theorem iterate_foldSumTurn_succ {n : ℕ} {sum : UInt32}
    (h : ¬ sum.toNat < 65536 → iterate foldSumTurn n ((sum &&& (0xFFFF : UInt32)) + (sum >>> 16)) =
      some (foldSum ((sum &&& (0xFFFF : UInt32)) + (sum >>> 16)))) :
    iterate foldSumTurn (n + 1) sum = some (foldSum sum) := by
  rw [foldSum]
  split_ifs with hshift
  · rw [iterate_done (by rw [foldSumTurn, if_pos hshift])]
  · rw [iterate_next (by rw [foldSumTurn, if_neg hshift])]
    exact h fun hlt => hshift ((shiftRight_eq_zero_iff sum).mpr hlt)

/-- **The loop ends**, after two turns at most. -/
theorem iterate_foldSumTurn (sum : UInt32) : iterate foldSumTurn 3 sum = some (foldSum sum) := by
  have hsum := sum.toNat_lt
  refine iterate_foldSumTurn_succ fun _ => iterate_foldSumTurn_succ fun h =>
    iterate_foldSumTurn_succ fun h' => ?_
  rw [foldCarry_toNat, foldCarry_toNat] at h'
  rw [foldCarry_toNat] at h
  omega

/-! ### The words of a datagram -/

/-- The checksum is the complement of the one's complement sum. -/
theorem checksumOfSum_words {sum : UInt32} {words : List ℕ} (hsum : sum.toNat = words.sum)
    (hwords : ∀ a ∈ words, a ≤ 65535) :
    (checksumOfSum sum).toNat = 65535 - OnesComplement.sum 65535 words := by
  have hfold := foldSum_represents sum
  rw [hsum] at hfold
  rw [checksumOfSum_toNat, hfold.unique (OnesComplement.represents_sum hwords)]

/-- Words before the others. -/
theorem sumBytes_add (d : ℕ → UInt8) (m length : ℕ) (sum : UInt32) :
    sumBytes d (2 * m + length) sum =
      sumBytes (fun k => d (2 * m + k)) length (sumWords d m sum) := by
  induction m generalizing d sum with
  | zero => simp only [Nat.mul_zero, Nat.zero_add, sumWords]
  | succ m ih =>
    have hshift : (fun k => d (2 * m + k + 2)) = fun k => d (2 * (m + 1) + k) :=
      funext fun k => congrArg d (by omega)
    rw [show 2 * (m + 1) + length = 2 * m + length + 2 by omega, sumBytes_add_two, ih, sumWords,
      hshift]

theorem length_bytes (pseudo : Ipv4PseudoHeader) : pseudo.bytes.length = 12 := by
  simp [Ipv4PseudoHeader.bytes]

/-- A pseudo header with the data behind it. -/
theorem sumBytes_bufferOf (pseudo : Ipv4PseudoHeader) (d : ℕ → UInt8) (length : ℕ) :
    sumBytes (bufferOf (pseudo.bytes ++ slice d 0 length)) (12 + length) 0 =
      ipv4PseudoSum pseudo d length := by
  have hlen := length_bytes pseudo
  have hfirst : sumWords (bufferOf (pseudo.bytes ++ slice d 0 length)) 6 0 =
      sumWords (bufferOf pseudo.bytes) 6 0 := by
    refine sumWords_congr (fun k hk => ?_) 0
    exact List.getD_append _ _ _ _ (by omega)
  have hrest : ∀ k < length, bufferOf (pseudo.bytes ++ slice d 0 length) (2 * 6 + k) = d k := by
    intro k hk
    rw [bufferOf, List.getD_append_right _ _ _ _ (by omega), hlen, Nat.add_sub_cancel_left,
      List.getD_eq_getElem _ _ (by rwa [length_slice])]
    simp [slice]
  rw [show 12 + length = 2 * 6 + length by omega, sumBytes_add, sumBytes_congr hrest, hfirst,
    ipv4PseudoSum, pointerSum_eq, indexSum_eq]
  simp only [Nat.zero_add]

/-- What the checksum of a datagram or segment is to be: `sum` is the accumulator of the function
that computes it, before the carries are folded. -/
structure ChecksumOf (pseudo : Ipv4PseudoHeader) (d : ℕ → UInt8) (length : ℕ) (sum : UInt32)
    (checksum : UInt16) : Prop where
  eq_pseudo : checksum = ipv4PseudoChecksum pseudo d length
  /-- It is that of the twelve bytes of the pseudo header with the data behind them, -/
  eq_ipv4 : checksum = ipv4Checksum (bufferOf (pseudo.bytes ++ slice d 0 length)) (12 + length)
  eq_pointerSum : checksum =
    checksumOfSum (pointerSum (bufferOf (pseudo.bytes ++ slice d 0 length)) (12 + length) 0 0)
  /-- the complement of the one's complement sum of the words, -/
  toNat : checksum.toNat = 65535 - OnesComplement.sum 65535
    (wordsOf (bufferOf (pseudo.bytes ++ slice d 0 length)) (12 + length))
  /-- and no accumulator wraps: each is what the words add up to. -/
  sum_toNat : sum.toNat = (wordsOf (bufferOf (pseudo.bytes ++ slice d 0 length)) (12 + length)).sum
  pseudoSum_toNat : (ipv4PseudoSum pseudo d length).toNat =
    (wordsOf (bufferOf (pseudo.bytes ++ slice d 0 length)) (12 + length)).sum
  pointerSum_toNat :
    (pointerSum (bufferOf (pseudo.bytes ++ slice d 0 length)) (12 + length) 0 0).toNat =
      (wordsOf (bufferOf (pseudo.bytes ++ slice d 0 length)) (12 + length)).sum

theorem checksumOf_pseudo (pseudo : Ipv4PseudoHeader) (d : ℕ → UInt8) {length : ℕ}
    (h : length ≤ 65535) : ChecksumOf pseudo d length (ipv4PseudoSum pseudo d length)
      (ipv4PseudoChecksum pseudo d length) := by
  have hbuffer := sumBytes_bufferOf pseudo d length
  have hsum : (ipv4PseudoSum pseudo d length).toNat =
      (wordsOf (bufferOf (pseudo.bytes ++ slice d 0 length)) (12 + length)).sum := by
    rw [← hbuffer, sumBytes_toNat, UInt32.toNat_zero, Nat.zero_add]
    rw [UInt32.toNat_zero]
    omega
  have hipv4 : ipv4PseudoChecksum pseudo d length =
      ipv4Checksum (bufferOf (pseudo.bytes ++ slice d 0 length)) (12 + length) := by
    rw [ipv4Checksum, hbuffer, ipv4PseudoChecksum]
  refine ⟨rfl, hipv4, hipv4.trans (ipv4Checksum_eq _ _),
    checksumOfSum_words hsum fun a => le_of_mem_wordsOf, hsum, hsum, ?_⟩
  rw [pointerSum_eq, ← hsum, ← hbuffer]
  simp only [Nat.zero_add]

/-- **The checksums agree**: `udp_checksum` and `tcp_checksum` are that of the pseudo header with
their protocol, and their loops end. -/
theorem checksums_agree (srcAddr destAddr : Ipv4Addr) (d : ℕ → UInt8) {length : ℕ}
    (h : length ≤ 65535) :
    ChecksumOf ⟨srcAddr, destAddr, 0, 17, UInt16.ofNat length⟩ d length
        (transportSum 17 srcAddr destAddr d length) (udpChecksum srcAddr destAddr d length) ∧
      ChecksumOf ⟨srcAddr, destAddr, 0, 6, UInt16.ofNat length⟩ d length
        (transportSum 6 srcAddr destAddr d length) (tcpChecksum srcAddr destAddr d length) ∧
      ∀ sum, iterate foldSumTurn 3 sum = some (foldSum sum) := by
  rw [udpChecksum_eq, tcpChecksum, transportSum_eq, transportSum_eq]
  exact ⟨checksumOf_pseudo _ d h, checksumOf_pseudo _ d h, iterate_foldSumTurn⟩

/-- An address with four equal bytes. -/
def sameBytes (b : UInt8) : Ipv4Addr := ⟨fun _ => b⟩

/-- Three bytes, with a carry to fold. -/
theorem checksums_agree_three :
    ChecksumOf ⟨sameBytes 127, sameBytes 10, 0, 17, 3⟩ (fun _ => 255) 3
        (transportSum 17 (sameBytes 127) (sameBytes 10) (fun _ => 255) 3)
        (udpChecksum (sameBytes 127) (sameBytes 10) (fun _ => 255) 3) ∧
      ChecksumOf ⟨sameBytes 127, sameBytes 10, 0, 6, 3⟩ (fun _ => 255) 3
        (transportSum 6 (sameBytes 127) (sameBytes 10) (fun _ => 255) 3)
        (tcpChecksum (sameBytes 127) (sameBytes 10) (fun _ => 255) 3) ∧
      ∀ sum, iterate foldSumTurn 3 sum = some (foldSum sum) :=
  checksums_agree (sameBytes 127) (sameBytes 10) (fun _ => 255) (by decide)

end Rexus
