import Rexus.Lib.Crc

/-!
# The frame check sequence

`eth_calculate_crc32` of `net/ethernet.c`, which looks up a byte at a time in a table of 256
words. Sixteen of them are there, and the rest of the array is zero. So a byte finds its word if it
is looked up below 16, with the register of the bit-by-bit CRC over the bytes before it.

That every byte finds its word is enough for a string to come out right, and what all of its
prefixes need to. A string of five bytes or more may also come out right although a byte has missed
its word: five bytes on the difference may have cancelled, as for `04 6b d4 90 2a`. In less it
cannot, so the condition is exact where all bytes but the last four find their words.

## Main results

* `ethTable_eq_iff` — the words that are there are right, and no other is
* `ethCalculateCrc32_iff` — which strings come out right

## Conventions

The frame is a list of bytes, whose check sequence is computed from its first byte to its last, in
the order in which they are sent. The register begins with all ones and is complemented at the end,
in the code and in the CRC alike, so neither matters for the comparison. The right CRC is that of
`Rexus.Lib.Crc` with the polynomial of the standard, a bit at a time and without a table. What a
driver does with a frame whose check sequence is wrong is not modelled; none of the drivers here
looks at it.
-/

namespace Rexus

/-- The words `crc32_table` is initialised with. -/
def crc32Table : List UInt32 :=
  [0x00000000, 0x77073096, 0xEE0E612C, 0x990951BA,
    0x076DC419, 0x706AF48F, 0xE963A535, 0x9E6495A3,
    0x0EDB8832, 0x79DCB8A4, 0xE0D5E91E, 0x97D2D988,
    0x09B64C2B, 0x7EB17CBD, 0xE7B82D07, 0x90BF1D91]

/-- `crc32_table[i]`; what an array is not initialised with is zero. -/
def crc32Entry (i : ℕ) : UInt32 := crc32Table.getD i 0

/-- A turn of the loop of `eth_calculate_crc32`. -/
def ethCrcTurn (crc : UInt32) (b : UInt8) : UInt32 :=
  (crc >>> 8) ^^^ crc32Entry ((crc &&& 0xFF) ^^^ b.toUInt32).toNat

/-- `eth_calculate_crc32`: the register begins with ones, each byte looks up a word of the table,
and the complement is returned. The table has only the words that the source lists. -/
def ethCalculateCrc32 (data : List UInt8) : UInt32 := ~~~data.foldl ethCrcTurn 0xFFFFFFFF

/-! ### The checksum of the frame -/

/-- The polynomial, its bits reflected. -/
def crc32Poly : BitVec 32 := 0xEDB88320

/-- The register after these bytes, bit by bit. -/
def crc32Register (data : List UInt8) : BitVec 32 :=
  Crc.register crc32Poly 0xFFFFFFFF (data.map UInt8.toBitVec)

/-- CRC-32. -/
def crc32 (data : List UInt8) : UInt32 := UInt32.ofBitVec (~~~crc32Register data)

/-- Where the table has to be right for the byte `b` after the bytes `p`. -/
def crc32Index (p : List UInt8) (b : UInt8) : BitVec 8 := Crc.index (crc32Register p) b.toBitVec

/-! ### The table -/

/-- The array as a table. -/
def ethTable (i : BitVec 8) : BitVec 32 := (crc32Entry i.toNat).toBitVec

/-- The words that are not there are zero. -/
theorem ethTable_of_ge {i : BitVec 8} (h : 16 ≤ i.toNat) : ethTable i = 0#32 := by
  rw [ethTable, crc32Entry, List.getD_eq_getElem?_getD, List.getElem?_eq_none h]
  rfl

/-- The words that are there are right, and no other is. -/
theorem ethTable_eq_iff (i : BitVec 8) : ethTable i = Crc.table crc32Poly i ↔ i.toNat < 16 := by
  constructor
  · intro h
    by_contra hge
    rw [ethTable_of_ge (Nat.le_of_not_lt hge), eq_comm,
      Crc.table_eq_zero_iff (by decide) (by decide)] at h
    rw [h] at hge
    exact hge (by decide)
  · intro hlt
    have hall : ∀ n < 16, ethTable (BitVec.ofNat 8 n) = Crc.table crc32Poly (BitVec.ofNat 8 n) := by
      decide
    have hi := hall i.toNat hlt
    rwa [BitVec.ofNat_toNat, BitVec.setWidth_eq] at hi

/-- Zero is a word of the table too, so every word of the array is. -/
theorem exists_ethTable (j : BitVec 8) : ∃ i, ethTable j = Crc.table crc32Poly i := by
  by_cases h : j.toNat < 16
  · exact ⟨j, (ethTable_eq_iff j).mpr h⟩
  · refine ⟨0#8, (ethTable_of_ge (Nat.le_of_not_lt h)).trans ?_⟩
    exact ((Crc.table_eq_zero_iff (by decide) (by decide) _).mpr rfl).symm

theorem ethCrcTurn_toBitVec (crc : UInt32) (b : UInt8) :
    (ethCrcTurn crc b).toBitVec = Crc.lookup ethTable crc.toBitVec b.toBitVec := by
  have hindex : ((crc &&& 0xFF) ^^^ b.toUInt32).toNat =
      (Crc.index crc.toBitVec b.toBitVec).toNat := by
    have hbits : ((crc &&& 0xFF) ^^^ b.toUInt32).toBitVec =
        (Crc.index crc.toBitVec b.toBitVec).setWidth 32 := by
      have hlow : crc.toBitVec &&& 0xFF#32 = (crc.toBitVec.setWidth 8).setWidth 32 := by
        refine BitVec.eq_of_toNat_eq ?_
        rw [BitVec.toNat_and, BitVec.toNat_setWidth, BitVec.toNat_setWidth,
          show (0xFF#32).toNat = 2 ^ 8 - 1 from rfl, Nat.and_two_pow_sub_one_eq_mod]
        omega
      rw [Crc.index, BitVec.setWidth_xor, ← hlow]
      rfl
    rw [← UInt32.toNat_toBitVec, hbits, BitVec.toNat_setWidth]
    exact Nat.mod_eq_of_lt (by omega)
  rw [ethCrcTurn, hindex]
  rfl

theorem ethCrcTurn_fold (crc : UInt32) (data : List UInt8) :
    (data.foldl ethCrcTurn crc).toBitVec =
      Crc.lookups ethTable crc.toBitVec (data.map UInt8.toBitVec) := by
  induction data generalizing crc with
  | nil => rfl
  | cons b data ih =>
    rw [List.foldl_cons, ih, ethCrcTurn_toBitVec]
    rfl

theorem crc32Register_eq (data : List UInt8) : crc32Register data =
    Crc.lookups (Crc.table crc32Poly) 0xFFFFFFFF (data.map UInt8.toBitVec) :=
  Crc.register_eq crc32Poly (by decide) _ _

/-- The two registers decide. -/
theorem ethCalculateCrc32_eq_iff (data : List UInt8) : ethCalculateCrc32 data = crc32 data ↔
    Crc.lookups ethTable 0xFFFFFFFF (data.map UInt8.toBitVec) =
      Crc.lookups (Crc.table crc32Poly) 0xFFFFFFFF (data.map UInt8.toBitVec) := by
  rw [← crc32Register_eq, show (0xFFFFFFFF : BitVec 32) = (0xFFFFFFFF : UInt32).toBitVec from rfl,
    ← ethCrcTurn_fold, ← UInt32.toBitVec_inj]
  exact BitVec.not_inj

/-- Every byte finds its word. -/
theorem finds_ethTable_iff (data : List UInt8) :
    Crc.Finds crc32Poly ethTable 0xFFFFFFFF (data.map UInt8.toBitVec) ↔
      ∀ k (hk : k < data.length), (crc32Index (data.take k) data[k]).toNat < 16 := by
  simp only [Crc.finds_iff, List.length_map, List.getElem_map, ← List.map_take, ethTable_eq_iff,
    ← crc32Register_eq, crc32Index]

/-- **A string** comes out as its CRC-32 if every byte finds a word that is there; it does so with
all of its prefixes exactly then, and also by itself, if all bytes but the last four find theirs. -/
theorem ethCalculateCrc32_iff (data : List UInt8) :
    ((∀ k (hk : k < data.length), (crc32Index (data.take k) data[k]).toNat < 16) →
        ethCalculateCrc32 data = crc32 data) ∧
      ((∀ k, ethCalculateCrc32 (data.take k) = crc32 (data.take k)) ↔
        ∀ k (hk : k < data.length), (crc32Index (data.take k) data[k]).toNat < 16) ∧
      ((∀ k (hk : k < data.length), k + 4 < data.length →
          (crc32Index (data.take k) data[k]).toNat < 16) →
        (ethCalculateCrc32 data = crc32 data ↔
          ∀ k (hk : k < data.length), (crc32Index (data.take k) data[k]).toNat < 16)) := by
  have hprefixes : (∀ k, ethCalculateCrc32 (data.take k) = crc32 (data.take k)) ↔
      ∀ k (hk : k < data.length), (crc32Index (data.take k) data[k]).toNat < 16 := by
    rw [← finds_ethTable_iff, ← Crc.lookups_prefixes_iff]
    simp only [ethCalculateCrc32_eq_iff, List.map_take]
  refine ⟨fun h => ?_, hprefixes, fun h => ?_⟩
  · have hall := hprefixes.mpr h data.length
    rwa [List.take_length] at hall
  · have hfront : Crc.Finds crc32Poly ethTable 0xFFFFFFFF
        ((data.take (data.length - 4)).map UInt8.toBitVec) := by
      rw [finds_ethTable_iff]
      intro k hk
      rw [List.length_take] at hk
      rw [List.take_take, Nat.min_eq_left (by omega), List.getElem_take]
      exact h k (by omega) (by omega)
    have hsplit := List.take_append_drop (data.length - 4) data
    have hlen : 8 * ((data.drop (data.length - 4)).map UInt8.toBitVec).length ≤ 32 := by
      rw [List.length_map, List.length_drop]
      omega
    have hiff := Crc.lookups_append_iff (by decide) exists_ethTable hfront hlen
    rwa [← List.map_append, hsplit, ← ethCalculateCrc32_eq_iff, finds_ethTable_iff] at hiff

/-- The byte 0 is the first to miss its word: it is looked up at 255. -/
theorem ethCalculateCrc32_zero_ne : ¬ ∀ data, ethCalculateCrc32 data = crc32 data := by
  intro hall
  exact absurd (hall [0]) (by decide)

end Rexus
