import Rexus.Net.Ipv4Send

/-!
# The laws of fragmentation

What the fragments of a packet are as a list: how their data, their offsets and their flags fit
together, and what of the header of the packet each of them carries. The loop that cuts the packet
is in `Net/Fragment.lean`; here are the laws, which do not know how the fragments were made.

`flags_offset` is one field of the header. Of the flags in it, a fragment has the one that says that
more fragments follow, and no other.

## Main results

* `FragmentsOf.laws` — pieces of at least eight bytes obey the laws
* `ipv4FragmentPacket_laws` — so do the fragments that `ipv4_fragment_packet` sends

## Scope

The laws are those a receiver relies on: the data of the fragments, in order, is that of the packet;
each offset counts the bytes before it in units of eight; all but the last say that more follow;
each has the header of the packet but for the length, the flags and the checksum; and the checksum
is right. They hold of every packet that may be fragmented, for every MTU from `28` up to the
longest frame.

That there is memory for every fragment and that the driver takes it is a hypothesis, `AllSent`, as
the fragmenter stops at the first one for which it is not so. Options are not copied: the header has
twenty bytes, as everywhere in this stack.
-/

namespace Rexus

open AlignedWord Bytes Loop

/-- The data of a fragment: what it carries behind its header. -/
def fragmentData (f : NetPacket) : List UInt8 := slice f.bytes 20 (f.length - 20)

/-- The fragments of a packet with `n` bytes of data, on an interface with this MTU. -/
structure FragmentLaws (packet : NetPacket) (n mtu : ℕ) (fs : List NetPacket) : Prop where
  data : fs.flatMap fragmentData = slice packet.bytes 20 n
  offset : ∀ i f, fs[i]? = some f → (ipv4Header f.bytes).fragmentOffset.toNat * 8 =
    ((fs.take i).map fun g => (fragmentData g).length).sum
  unit : ∀ i f, fs[i]? = some f → i + 1 < fs.length →
    0 < (fragmentData f).length ∧ 8 ∣ (fragmentData f).length
  last : ∀ f, fs.getLast? = some f → fragmentData f ≠ []
  more : ∀ i f, fs[i]? = some f →
    (ipv4Header f.bytes).moreFragments = decide (i + 1 < fs.length)
  length : ∀ f ∈ fs, f.length = (ipv4Header f.bytes).totalLength.toNat
  totalLength : ∀ f ∈ fs,
    (ipv4Header f.bytes).totalLength.toNat = 20 + (fragmentData f).length ∧
      (ipv4Header f.bytes).totalLength.toNat ≤ mtu
  verify : ∀ f ∈ fs, ipv4Verify f.bytes = true
  header : ∀ f ∈ fs, ∃ totalLength flagsOffset checksum, ipv4Header f.bytes =
    { ipv4Header packet.bytes with totalLength, flagsOffset, checksum }
  flags : ∀ f ∈ fs, (ipv4Header f.bytes).flagsOffset &&& 0xC000 = 0

/-! ### Flags and offset in one field -/

section

variable {field v : UInt16} {more : Bool}

/-- An offset of thirteen bits and a flag above it, side by side. -/
theorem flagsOffset_parts (hv : v.toNat < 2 ^ 13)
    (h : field = if more then v ||| 0x2000 else v) :
    field &&& 0x1FFF = v ∧ field &&& ~~~0x1FFF = if more then 0x2000 else 0 := by
  have hflags : v.toBitVec &&& lowMask 16 13 = v.toBitVec := by
    refine BitVec.eq_of_toNat_eq ?_
    rw [BitVec.toNat_and]
    exact (Nat.and_two_pow_sub_one_eq_mod v.toNat 13).trans (Nat.mod_eq_of_lt hv)
  have hpack : field.toBitVec = pack 13 (if more then 1 else 0) v.toBitVec := by
    rw [pack, BitVec.or_comm, h]
    cases more
    · exact BitVec.or_zero.symm
    · rfl
  refine ⟨UInt16.toBitVec_inj.mp ?_, UInt16.toBitVec_inj.mp ?_⟩
  · show field.toBitVec &&& lowMask 16 13 = v.toBitVec
    rw [hpack, low_pack hflags]
  · show field.toBitVec &&& ~~~lowMask 16 13 = _
    rw [hpack, high_pack hflags]
    cases more <;> rfl

/-- What is read above the offset is the flag. -/
theorem flagsOffset_flag (hv : v.toNat < 2 ^ 13) (h : field = if more then v ||| 0x2000 else v) :
    (field &&& 0x2000 != 0) = more ∧ field &&& 0xC000 = 0 := by
  have hmore : field &&& 0x2000 = (field &&& ~~~0x1FFF) &&& 0x2000 := by
    rw [UInt16.and_assoc]
    rfl
  have hother : field &&& 0xC000 = (field &&& ~~~0x1FFF) &&& 0xC000 := by
    rw [UInt16.and_assoc]
    rfl
  rw [hmore, hother, (flagsOffset_parts hv h).2]
  cases more <;> exact ⟨rfl, rfl⟩

end

/-! ### The laws -/

namespace FragmentsOf

variable {packet f : NetPacket} {n D i : ℕ} {fs : List NetPacket}

theorem size_le (h : 20 + D ≤ 65535) (i : ℕ) : 20 + Pieces.size n D i < 2 ^ 16 := by
  rw [Pieces.size]
  omega

theorem lt_count (h : FragmentsOf packet n D fs) (hf : fs[i]? = some f) : i < Pieces.count n D := by
  rw [← h.length]
  exact (List.getElem?_eq_some_iff.mp hf).1

theorem length_fragmentData (h : FragmentsOf packet n D fs) (hf : fs[i]? = some f) :
    (fragmentData f).length = Pieces.size n D i := by
  rw [fragmentData, length_slice, (h.piece i f hf).length, Nat.add_sub_cancel_left]

/-- The fragments before another have the data before its own. -/
theorem sum_take (h : FragmentsOf packet n D fs) (hi : i ≤ fs.length) :
    ((fs.take i).map fun g => (fragmentData g).length).sum = min n (i * D) := by
  induction i with
  | zero => simp
  | succ i ih =>
    obtain ⟨f, hf⟩ : ∃ f, fs[i]? = some f := ⟨_, List.getElem?_eq_getElem hi⟩
    have hlen := h.length_fragmentData hf
    rw [List.take_add_one, hf, List.map_append, List.sum_append, ih (by omega),
      ← Pieces.start_add_size, ← hlen]
    simp

theorem field (h : FragmentsOf packet n D fs) (hn : n < 2 ^ 16) (h8 : 8 ∣ D)
    (hf : fs[i]? = some f) :
    ∃ v : UInt16, v.toNat < 2 ^ 13 ∧ v.toNat * 8 = i * D ∧ (ipv4Header f.bytes).flagsOffset =
      if decide (i < Pieces.count n D - 1) then v ||| 0x2000 else v := by
  obtain ⟨checksum, hheader⟩ := (h.piece i f hf).header
  have hstart := Pieces.start_lt (h.lt_count hf)
  have hunits : 8 ∣ i * D := h8.mul_left i
  have hv : (UInt16.ofNat (i * D) / 8).toNat = i * D / 8 := by
    rw [UInt16.toNat_div, UInt16.toNat_ofNat_of_lt' (hstart.trans hn)]
    rfl
  refine ⟨UInt16.ofNat (i * D) / 8, ?_, ?_, ?_⟩
  · omega
  · omega
  · rw [hheader]

theorem totalLength (h : FragmentsOf packet n D fs) (hD : 20 + D ≤ 65535)
    (hf : fs[i]? = some f) :
    (ipv4Header f.bytes).totalLength.toNat = 20 + Pieces.size n D i := by
  obtain ⟨checksum, hheader⟩ := (h.piece i f hf).header
  rw [hheader]
  exact UInt16.toNat_ofNat_of_lt' (size_le hD i)

/-- **The laws of fragmentation.** -/
theorem laws {mtu : ℕ} (h : FragmentsOf packet n D fs) (hn : n < 2 ^ 16) (hD : 0 < D)
    (h8 : 8 ∣ D) (hmtu : 20 + D ≤ mtu) (hmtu' : mtu < 2 ^ 16) : FragmentLaws packet n mtu fs where
  data := h.payload hD
  offset i f hf := by
    obtain ⟨v, hv, hunits, hfield⟩ := h.field hn h8 hf
    have hi := h.lt_count hf
    rw [Ipv4Header.fragmentOffset, (flagsOffset_parts hv hfield).1, hunits,
      h.sum_take (by rw [h.length]; omega), Nat.min_eq_right (Nat.le_of_lt (Pieces.start_lt hi))]
  unit i f hf hi := by
    rw [h.length] at hi
    have hend := Pieces.end_le hi
    rw [h.length_fragmentData hf, Pieces.size, Nat.min_eq_left (by omega)]
    exact ⟨hD, h8⟩
  last f hf := by
    rw [List.getLast?_eq_getElem?] at hf
    have hstart := Pieces.start_lt (h.lt_count hf)
    rw [ne_eq, ← List.length_eq_zero_iff, h.length_fragmentData hf, Pieces.size]
    omega
  more i f hf := by
    obtain ⟨v, hv, -, hfield⟩ := h.field hn h8 hf
    rw [Ipv4Header.moreFragments, (flagsOffset_flag hv hfield).1, h.length]
    exact decide_eq_decide.mpr (by omega)
  length f hf := by
    obtain ⟨i, hf⟩ := List.mem_iff_getElem?.mp hf
    rw [h.totalLength (by omega) hf, (h.piece i f hf).length]
  totalLength f hf := by
    obtain ⟨i, hf⟩ := List.mem_iff_getElem?.mp hf
    rw [h.totalLength (by omega) hf, h.length_fragmentData hf, Pieces.size]
    omega
  verify f hf := by
    obtain ⟨i, hf⟩ := List.mem_iff_getElem?.mp hf
    exact (h.piece i f hf).verify
  header f hf := by
    obtain ⟨i, hf⟩ := List.mem_iff_getElem?.mp hf
    obtain ⟨checksum, hheader⟩ := (h.piece i f hf).header
    exact ⟨_, _, checksum, hheader⟩
  flags f hf := by
    obtain ⟨i, hf⟩ := List.mem_iff_getElem?.mp hf
    obtain ⟨v, hv, -, hfield⟩ := h.field hn h8 hf
    exact (flagsOffset_flag hv hfield).2

end FragmentsOf

/-- An MTU from 28 bytes on has room for eight bytes of data. -/
theorem fragMaxData_of_le {mtu : UInt16} (h : 28 ≤ mtu.toNat) :
    0 < (fragMaxData mtu).toNat ∧ 8 ∣ (fragMaxData mtu).toNat ∧
      20 + (fragMaxData mtu).toNat ≤ mtu.toNat := by
  have hlt := mtu.toNat_lt
  rw [fragMaxData_toNat]
  omega

/-- **The fragments that are sent obey the laws.** -/
theorem ipv4FragmentPacket_laws {driver : Driver} {junk : ℕ → NetPacket} {t : Transmit}
    {packet : NetPacket} {mtu : UInt16} {n : ℕ} (hn : 1 ≤ n ∧ n ≤ 65515)
    (hmtu : 28 ≤ mtu.toNat ∧ mtu.toNat ≤ 1518) (hlength : packet.length = 20 + n)
    (hdf : (ipv4Header packet.bytes).dontFragment = false)
    (hsent : AllSent driver junk t packet mtu) :
    ∃ t' fs, ipv4FragmentPacket driver junk t packet mtu = some (true, t') ∧
      t'.sent = t.sent ++ fs.map (fun f => (packet.iface, f)) ∧
      FragmentLaws packet n mtu.toNat fs := by
  obtain ⟨hD, h8, hle⟩ := fragMaxData_of_le hmtu.1
  have hmax : fragMaxData mtu ≠ 0 := fun h0 => by
    rw [h0] at hD
    exact absurd hD (Nat.lt_irrefl 0)
  have hpayload : (fragPayload packet.length).toNat = n := by
    rw [fragPayload_toNat, hlength]
    omega
  obtain ⟨t', hresult⟩ := ipv4FragmentPacket_allSent hdf hmax hsent
  obtain ⟨-, -, fs, hfs, hpieces⟩ := ipv4FragmentPacket_sent hresult
  rw [hpayload] at hpieces
  exact ⟨t', fs, hresult, hfs, hpieces.laws (by omega) hD h8 hle (by omega)⟩

/-- A packet of sixteen bytes of data, in two fragments. -/
theorem ipv4FragmentPacket_laws_sixteen :
    ∃ t' fs, ipv4FragmentPacket willingDriver (fun _ => packetOf 0) (oneInterface 28)
      (packetOf 36) 28 = some (true, t') ∧
      t'.sent = (oneInterface 28).sent ++ fs.map (fun f => ((packetOf 36).iface, f)) ∧
      FragmentLaws (packetOf 36) 16 28 fs :=
  ipv4FragmentPacket_laws (by decide) (by decide) rfl (by decide)
    (allSent_willing (fun _ => ⟨⟨by decide, rfl⟩, by decide⟩) rfl)

end Rexus
