import Rexus.Lib.Bytes
import Rexus.Lib.Options
import Rexus.Lib.While
import Rexus.Net.Tcp

/-!
# The options of a TCP header

`tcp_parse_options` and `tcp_build_options` of `net/tcp.c`. The parser reads from a memory that need
not have more than the header; a byte that is not there is an error. It writes into the
configuration as it goes, so where it finds the options malformed, those before have been applied.

## Main results

* `tcpParseOptions_accepts` — what is accepted, and what is made of it
* `tcpParseOptions_unchanged_iff` — when options that are rejected leave the configuration
* `tcpBuildOptions_roundTrip`

## Conventions

The header is a map from offsets to bytes or to nothing, so that a read behind its end is an error
of the model and not a zero; `headerOnly` is the memory in which the header has as many bytes as its
data offset says. The options are the area between the twentieth byte and that end, and what they
mean is said by `Options`: items, and a tail that is no item.

A configuration is read and written, and each option that is known changes one field of it. An
option of a known kind with a length other than its own is passed over like an unknown one. The
functions run with fuel, one turn for an option or for a byte of padding, and forty turns are enough
since an area has at most forty bytes.
-/

namespace Rexus

open Bytes Loop Options

/-! ### The functions -/

/-- What the loop of the parser carries: `options`, as an offset in the header, `options_len`, and
the configuration with the options applied so far. -/
structure OptionScan where
  options : ℕ
  optionsLen : ℕ
  config : TcpConfig

/-- `switch (kind)`, of an option that is inside the header. -/
def tcpParseOption (header : ℕ → Option UInt8) (options : ℕ) (kind length : UInt8)
    (config : TcpConfig) : Option TcpConfig :=
  if kind = 2 then
    if length = 4 then
      (header (options + 2)).bind fun low => (header (options + 3)).map fun high =>
        { config with mss := UInt16.ofNat (low.toNat + 256 * high.toNat) }
    else some config
  else if kind = 3 then
    if length = 3 then
      (header (options + 2)).map fun shiftCount => { config with windowScale := shiftCount }
    else some config
  else if kind = 4 then
    if length = 2 then some { config with sackPermitted := true } else some config
  else if kind = 8 then
    if length = 10 then some { config with timestamps := true } else some config
  else some config

/-- A turn of the loop of `tcp_parse_options`. -/
def tcpOptionTurn (header : ℕ → Option UInt8) (w : OptionScan) :
    Option (Turn OptionScan (Bool × TcpConfig)) :=
  if w.optionsLen = 0 then some (.done (true, w.config))
  else
    (header w.options).bind fun kind =>
      if kind = 0 then some (.done (true, w.config))
      else if kind = 1 then
        some (.next { w with options := w.options + 1, optionsLen := w.optionsLen - 1 })
      else if w.optionsLen < 2 then some (.done (false, w.config))
      else
        (header (w.options + 1)).bind fun length =>
          if length.toNat < 2 ∨ w.optionsLen < length.toNat then some (.done (false, w.config))
          else
            (tcpParseOption header w.options kind length w.config).map fun config =>
              .next ⟨w.options + length.toNat, w.optionsLen - length.toNat, config⟩

/-- `tcp_parse_options`, of pointers that are there. The lengths are of thirty-two bits. -/
def tcpParseOptions (fuel : ℕ) (header : ℕ → Option UInt8) (config : TcpConfig) :
    Option (Bool × TcpConfig) :=
  (header 12).bind fun dataOffset =>
    let headerLen := (dataOffset >>> 4).toNat * 4
    iterate (tcpOptionTurn header) fuel ⟨20, (headerLen + 2 ^ 32 - 20) % 2 ^ 32, config⟩

/-- The header with the options written so far, and `offset`, at which the next one goes. The writer
never goes back. -/
structure OptionWriter where
  header : ℕ → UInt8
  offset : ℕ

/-- Bytes are written at `options + offset`, which goes on behind them. -/
def OptionWriter.put (w : OptionWriter) (bytes : List UInt8) : OptionWriter where
  header := blit w.header (20 + w.offset) (fun k => bytes.getD k 0) 0 bytes.length
  offset := w.offset + bytes.length

/-- A turn of `while (offset & 3) options[offset++] = TCP_OPT_NOP`. -/
def tcpPadTurn (w : OptionWriter) : Option (Turn OptionWriter OptionWriter) :=
  some (if w.offset &&& 3 = 0 then .done w else .next (w.put [1]))

/-- `tcp_build_options`, of pointers that are there. -/
def tcpBuildOptions (fuel : ℕ) (header : ℕ → UInt8) (config : TcpConfig) : Option (ℕ → UInt8) :=
  let w : OptionWriter := ⟨header, 0⟩
  let w := w.put [2, 4, UInt8.ofNat config.mss.toNat, UInt8.ofNat (config.mss.toNat / 256)]
  let w := if 0 < config.windowScale then w.put [3, 3, config.windowScale] else w
  let w := if config.sackPermitted then w.put [4, 2] else w
  let w := if config.timestamps then w.put [8, 10, 0, 0, 0, 0, 0, 0, 0, 0] else w
  (iterate tcpPadTurn fuel w).map fun w =>
    Function.update w.header 12 (UInt8.ofNat ((20 + w.offset) / 4) <<< 4)

/-- The length that a header gives. -/
def headerLen (d : ℕ → UInt8) : ℕ := (d 12 >>> 4).toNat * 4

/-- A header, and no byte behind it. -/
def headerOnly (d : ℕ → UInt8) : ℕ → Option UInt8 := fun k =>
  if k < headerLen d then some (d k) else none

/-- The bytes of a header behind its fixed part. -/
def optionArea (d : ℕ → UInt8) : List UInt8 := slice d 20 (headerLen d - 20)

/-! ### What an option says -/

/-- The size that an option of kind `2` and length `4` gives. -/
def optionMss (item : Item) : Option UInt16 :=
  (item.dataOf 2 2).map fun l => UInt16.ofNat ((l.getD 0 0).toNat + 256 * (l.getD 1 0).toNat)

/-- The factor that an option of kind `3` and length `3` gives. -/
def optionWindowScale (item : Item) : Option UInt8 := (item.dataOf 3 1).map fun l => l.getD 0 0

/-- Kind `4`, length `2`. -/
def optionSackPermitted (item : Item) : Bool := (item.dataOf 4 0).isSome

/-- Kind `8`, length `10`. -/
def optionTimestamp (item : Item) : Bool := (item.dataOf 8 8).isSome

/-- A configuration with what an option says, if it is one of these. -/
def TcpConfig.apply (c : TcpConfig) (item : Item) : TcpConfig :=
  { c with
    mss := (optionMss item).getD c.mss
    windowScale := (optionWindowScale item).getD c.windowScale
    sackPermitted := c.sackPermitted || optionSackPermitted item
    timestamps := c.timestamps || optionTimestamp item }

/-- A configuration that has what these options say: the last of a kind that gives a value counts,
and the other two have nothing to give but that they are there. -/
structure TcpConfig.Agrees (c : TcpConfig) (items : List Item) : Prop where
  mss : ∀ mss ∈ (items.filterMap optionMss).getLast?, mss = c.mss
  windowScale : ∀ scale ∈ (items.filterMap optionWindowScale).getLast?, scale = c.windowScale
  sackPermitted : items.any optionSackPermitted = true → c.sackPermitted = true
  timestamps : items.any optionTimestamp = true → c.timestamps = true

variable {d : ℕ → UInt8} {header : ℕ → Option UInt8} {c config : TcpConfig} {o fuel : ℕ}
  {items : List Item} {tail area : List UInt8}

/-! ### The parser on items and tails -/

/-- The cases of the `switch`, of an option whose data is in the header. -/
theorem tcpParseOption_held (r : Record) {length : UInt8}
    (hlength : length.toNat = r.data.length + 2) (h : Held header (o + 2) r.data) :
    tcpParseOption header o r.kind length c = some (c.apply (.record r)) := by
  have hdata (n : ℕ) (hn : n < 254) : length = UInt8.ofNat (n + 2) ↔ r.data.length = n := by
    rw [← UInt8.toNat_inj, hlength, UInt8.toNat_ofNat', Nat.mod_eq_of_lt (by omega)]
    omega
  simp only [tcpParseOption, TcpConfig.apply, optionMss, optionWindowScale, optionSackPermitted,
    optionTimestamp, Item.dataOf]
  by_cases hmss : r.kind = 2
  · have hfour : length = 4 ↔ r.data.length = 2 := hdata 2 (by decide)
    by_cases htwo : r.data.length = 2
    · have hlow := h 0 (by omega)
      have hhigh := h 1 (by omega)
      simp [hmss, hfour, htwo, hlow, hhigh]
    · simp [hmss, hfour, htwo]
  · by_cases hwscale : r.kind = 3
    · have hthree : length = 3 ↔ r.data.length = 1 := hdata 1 (by decide)
      by_cases hone : r.data.length = 1
      · have hshift := h 0 (by omega)
        simp [hwscale, hthree, hone, hshift]
      · simp [hwscale, hthree, hone]
    · by_cases hsack : r.kind = 4
      · have htwo : length = 2 ↔ r.data.length = 0 := hdata 0 (by decide)
        by_cases hnone : r.data.length = 0 <;> simp [hsack, htwo, hnone]
      · have hten : length = 10 ↔ r.data.length = 8 := hdata 8 (by decide)
        by_cases htimestamp : r.kind = 8 <;> by_cases height : r.data.length = 8 <;>
          simp [hmss, hwscale, hsack, htimestamp, hten, height]

/-- A turn of the loop on an item. -/
theorem tcpOptionTurn_item (item : Item) (h : Held header o (item.encode ++ area)) :
    tcpOptionTurn header ⟨o, (item.encode ++ area).length, c⟩
      = some (.next ⟨o + item.encode.length, area.length, c.apply item⟩) := by
  have hpos := item.length_encode_pos
  unfold tcpOptionTurn
  dsimp only
  rw [if_neg (by rw [List.length_append]; omega)]
  cases item with
  | pad =>
    have hkind : header o = some 1 := h.head
    simp [hkind, Item.encode, TcpConfig.apply, optionMss, optionWindowScale, optionSackPermitted,
      optionTimestamp, Item.dataOf]
  | record r =>
    have hkind : header o = some r.kind := h.head
    have hlength : header (o + 1) = some (UInt8.ofNat (r.data.length + 2)) := h.of_cons.head
    have hdata : Held header (o + 2) r.data := h.left.of_cons.of_cons
    have hlen : (Item.record r).encode.length = r.data.length + 2 := rfl
    obtain ⟨hzero, hone⟩ := ne_of_two_le r.two_le_kind
    rw [hkind, Option.bind_some, if_neg hzero, if_neg hone,
      if_neg (by rw [List.length_append]; omega), hlength, Option.bind_some,
      if_neg (by rw [r.length_toNat, List.length_append]; omega),
      tcpParseOption_held r r.length_toNat hdata, r.length_toNat]
    simp [hlen]

theorem tcpOptionTurn_ends (hends : Ends tail) (h : Held header o tail) :
    tcpOptionTurn header ⟨o, tail.length, c⟩ = some (.done (true, c)) := by
  rcases hends with rfl | hend
  · rfl
  · obtain ⟨rest, rfl⟩ : ∃ rest, tail = 0 :: rest := by
      rw [List.head?_eq_some_iff] at hend
      exact hend
    simp [tcpOptionTurn, h.head]

theorem tcpOptionTurn_malformed (hmalformed : Malformed tail) (h : Held header o tail) :
    tcpOptionTurn header ⟨o, tail.length, c⟩ = some (.done (false, c)) := by
  match tail, hmalformed with
  | [kind], hkind =>
    obtain ⟨hzero, hone⟩ := ne_of_two_le hkind
    simp [tcpOptionTurn, h.head, hzero, hone]
  | kind :: length :: data, ⟨hkind, hlength⟩ =>
    obtain ⟨hzero, hone⟩ := ne_of_two_le hkind
    have hlen : 2 ≤ (kind :: length :: data).length := by simp
    have hbad : length.toNat < 2 ∨ (kind :: length :: data).length < length.toNat := hlength
    rw [tcpOptionTurn]
    dsimp only
    rw [if_neg (by omega), h.head, Option.bind_some, if_neg hzero, if_neg hone,
      if_neg (Nat.not_lt.mpr hlen), h.of_cons.head, Option.bind_some, if_pos hbad]

/-- The loop applies the items, and leaves at the tail. -/
theorem iterate_tcpOptionTurn {ok : Bool}
    (hlast : ∀ {o c}, Held header o tail →
      tcpOptionTurn header ⟨o, tail.length, c⟩ = some (.done (ok, c)))
    (h : Held header o (encode items ++ tail)) (hfuel : (encode items ++ tail).length < fuel) :
    iterate (tcpOptionTurn header) fuel ⟨o, (encode items ++ tail).length, c⟩
      = some (ok, items.foldl TcpConfig.apply c) := by
  induction items generalizing o c fuel with
  | nil =>
    obtain ⟨n, rfl⟩ := Nat.exists_eq_succ_of_ne_zero (by omega : fuel ≠ 0)
    exact iterate_done (hlast h)
  | cons item items ih =>
    have hpos := item.length_encode_pos
    rw [encode_cons, List.append_assoc] at h hfuel ⊢
    rw [List.length_append] at hfuel
    obtain ⟨n, rfl⟩ := Nat.exists_eq_succ_of_ne_zero (by omega : fuel ≠ 0)
    rw [iterate_next (tcpOptionTurn_item item h), ih h.right (by omega), List.foldl_cons]

/-! ### What is accepted -/

theorem headerLen_le (d : ℕ → UInt8) : headerLen d ≤ 60 := by
  have hlt := (d 12).toNat_lt
  rw [headerLen, UInt8.toNat_shiftRight, Nat.shiftRight_eq_div_pow]
  have hfour : (4 : UInt8).toNat % 8 = 4 := rfl
  rw [hfour]
  omega

theorem held_optionArea (d : ℕ → UInt8) : Held (headerOnly d) 20 (optionArea d) := fun k hk => by
  rw [optionArea, length_slice] at hk
  rw [headerOnly, if_pos (by omega), optionArea, slice, List.getElem?_ofFn, dif_pos hk]

/-- The result, of a header whose options are known to be items and a tail. -/
theorem tcpParseOptions_eq {ok : Bool} (config : TcpConfig) (hoffset : 5 ≤ (d 12 >>> 4).toNat)
    (harea : optionArea d = encode items ++ tail)
    (hlast : ∀ {o c}, Held (headerOnly d) o tail →
      tcpOptionTurn (headerOnly d) ⟨o, tail.length, c⟩ = some (.done (ok, c)))
    (hfuel : 40 < fuel) :
    tcpParseOptions fuel (headerOnly d) config = some (ok, items.foldl TcpConfig.apply config) := by
  have hle := headerLen_le d
  have hheader : 20 ≤ headerLen d := by
    rw [headerLen]
    omega
  have hlen : (encode items ++ tail).length = headerLen d - 20 := by
    rw [← harea, optionArea, length_slice]
  have hbyte : headerOnly d 12 = some (d 12) := if_pos (by omega)
  have hsize : (headerLen d + 2 ^ 32 - 20) % 2 ^ 32 = (encode items ++ tail).length := by
    omega
  rw [tcpParseOptions, hbyte, Option.bind_some]
  dsimp only
  rw [← headerLen, hsize]
  exact iterate_tcpOptionTurn hlast (harea ▸ held_optionArea d) (by omega)

/-- A value that options may give, after all of them: that of the last one which gives it. -/
theorem foldl_getD {α β : Type*} (f : α → Option β) (items : List α) (b : β) :
    items.foldl (fun b item => (f item).getD b) b = (items.filterMap f).getLast?.getD b := by
  induction items using List.reverseRecOn with
  | nil => rfl
  | append_singleton items item ih =>
    rw [List.foldl_append, List.filterMap_append, List.foldl_cons, List.foldl_nil, ih]
    cases h : f item with
    | none => simp [h]
    | some b' => simp [h]

/-- Options one by one, for each field. -/
theorem foldl_apply (items : List Item) (c : TcpConfig) :
    items.foldl TcpConfig.apply c =
      { c with
        mss := (items.filterMap optionMss).getLast?.getD c.mss
        windowScale := (items.filterMap optionWindowScale).getLast?.getD c.windowScale
        sackPermitted := c.sackPermitted || items.any optionSackPermitted
        timestamps := c.timestamps || items.any optionTimestamp } := by
  rw [← foldl_getD, ← foldl_getD]
  induction items generalizing c with
  | nil => simp
  | cons item items ih =>
    rw [List.foldl_cons, ih]
    simp [TcpConfig.apply, Bool.or_assoc]

/-- **What is accepted**: with a data offset from five on, the parser returns and reads no byte
behind the header. It returns true just where padding and options exhaust the option area, or are
ended by the byte for that, and has then applied the options one by one. -/
theorem tcpParseOptions_accepts (d : ℕ → UInt8) (config : TcpConfig)
    (hoffset : 5 ≤ (d 12 >>> 4).toNat) :
    ∃ ok config', (∀ fuel > 40, tcpParseOptions fuel (headerOnly d) config = some (ok, config')) ∧
      (ok = true ↔ ∃ items tail, optionArea d = encode items ++ tail ∧ Ends tail) ∧
      (ok = true → ∀ items tail, optionArea d = encode items ++ tail → Ends tail →
        config' = items.foldl TcpConfig.apply config) := by
  obtain ⟨items, tail, harea, hends | hmalformed⟩ := exists_split (optionArea d)
  · refine ⟨true, items.foldl TcpConfig.apply config, fun fuel => ?_, ?_, ?_⟩
    · exact tcpParseOptions_eq config hoffset harea (tcpOptionTurn_ends hends)
    · exact iff_of_true rfl ⟨items, tail, harea, hends⟩
    · intro _ items' tail' harea' hends'
      rw [(split_unique (Or.inl hends) (Or.inl hends') (harea.symm.trans harea')).1]
  · refine ⟨false, items.foldl TcpConfig.apply config, fun fuel => ?_, ?_, ?_⟩
    · exact tcpParseOptions_eq config hoffset harea (tcpOptionTurn_malformed hmalformed)
    · refine iff_of_false Bool.false_ne_true ?_
      rintro ⟨items', tail', harea', hends'⟩
      obtain ⟨-, rfl⟩ :=
        split_unique (Or.inr hmalformed) (Or.inl hends') (harea.symm.trans harea')
      exact hends'.not_malformed hmalformed
    · exact fun h => absurd h Bool.false_ne_true

/-- A header of `4 * n` bytes with these options, and else zeros. -/
def headerWith (n : UInt8) (options : List UInt8) : ℕ → UInt8 := fun k =>
  if k < 20 then if k = 12 then n <<< 4 else 0 else options.getD (k - 20) 0

theorem tcpParseOptions_accepts_mss : ∃ ok config',
    (∀ fuel > 40, tcpParseOptions fuel (headerOnly (headerWith 6 [2, 4, 5, 180])) tcpDefaultConfig
      = some (ok, config')) ∧
    (ok = true ↔ ∃ items tail,
      optionArea (headerWith 6 [2, 4, 5, 180]) = encode items ++ tail ∧ Ends tail) ∧
    (ok = true → ∀ items tail,
      optionArea (headerWith 6 [2, 4, 5, 180]) = encode items ++ tail → Ends tail →
        config' = items.foldl TcpConfig.apply tcpDefaultConfig) :=
  tcpParseOptions_accepts _ _ (by decide)

/-! ### What is left of a configuration -/

theorem foldl_apply_eq_self : items.foldl TcpConfig.apply c = c ↔ c.Agrees items := by
  have hgetD {β : Type} (o : Option β) (b : β) : o.getD b = b ↔ ∀ b' ∈ o, b' = b := by
    cases o <;> simp
  have hor (b b' : Bool) : (b || b') = b ↔ (b' = true → b = true) := by
    cases b <;> cases b' <;> simp
  rw [foldl_apply]
  constructor
  · intro h
    exact ⟨(hgetD _ _).mp (congrArg TcpConfig.mss h),
      (hgetD _ _).mp (congrArg TcpConfig.windowScale h),
      (hor _ _).mp (congrArg TcpConfig.sackPermitted h),
      (hor _ _).mp (congrArg TcpConfig.timestamps h)⟩
  · intro h
    rw [(hgetD _ _).mpr h.mss, (hgetD _ _).mpr h.windowScale, (hor _ _).mpr h.sackPermitted,
      (hor _ _).mpr h.timestamps]

theorem tcpParseOptions_unique {n m : ℕ} {r r' : Bool × TcpConfig}
    (h : tcpParseOptions n header c = some r) (h' : tcpParseOptions m header c = some r') :
    r = r' := by
  cases hoffset : header 12 with
  | none =>
    rw [tcpParseOptions, hoffset] at h
    cases h
  | some dataOffset =>
    rw [tcpParseOptions, hoffset, Option.bind_some] at h h'
    exact iterate_unique h h'

/-- **When options that are rejected leave the configuration**: it has what those before the
malformed one say. -/
theorem tcpParseOptions_unchanged_iff (d : ℕ → UInt8) (config : TcpConfig)
    (hoffset : 5 ≤ (d 12 >>> 4).toNat) :
    (∀ fuel config', tcpParseOptions fuel (headerOnly d) config = some (false, config') →
        config' = config) ↔
      ∀ items tail, optionArea d = encode items ++ tail → Malformed tail →
        config.Agrees items := by
  constructor
  · intro h items tail harea hmalformed
    have hrun := tcpParseOptions_eq config hoffset harea
      (tcpOptionTurn_malformed hmalformed) (by decide : 40 < 41)
    exact foldl_apply_eq_self.mp (h 41 _ hrun)
  · intro h fuel config' hrun
    obtain ⟨items, tail, harea, hends | hmalformed⟩ := exists_split (optionArea d)
    · have htrue := tcpParseOptions_eq config hoffset harea (tcpOptionTurn_ends hends)
        (by decide : 40 < 41)
      cases tcpParseOptions_unique hrun htrue
    · have hfalse := tcpParseOptions_eq config hoffset harea
        (tcpOptionTurn_malformed hmalformed) (by decide : 40 < 41)
      cases tcpParseOptions_unique hrun hfalse
      exact foldl_apply_eq_self.mpr (h items tail harea hmalformed)

/-- Padding, and then a record of length `0`: the area is malformed, and the configuration stays. -/
theorem tcpParseOptions_unchanged_iff_pad :
    optionArea (headerWith 6 [1, 3, 0, 0]) = encode [.pad] ++ [3, 0, 0] ∧ Malformed [3, 0, 0] ∧
      ∀ fuel config', tcpParseOptions fuel (headerOnly (headerWith 6 [1, 3, 0, 0]))
        tcpDefaultConfig = some (false, config') → config' = tcpDefaultConfig := by
  have harea : optionArea (headerWith 6 [1, 3, 0, 0]) = encode [.pad] ++ [3, 0, 0] := by decide
  have hmalformed : Malformed [3, 0, 0] := ⟨by decide, Or.inl (by decide)⟩
  refine ⟨harea, hmalformed, (tcpParseOptions_unchanged_iff _ _ (by decide)).mpr ?_⟩
  intro items tail hitems htail
  obtain ⟨rfl, -⟩ := split_unique (Or.inr hmalformed) (Or.inr htail) (harea.symm.trans hitems)
  exact foldl_apply_eq_self.mp rfl

/-- A size is written, and then a record of length `0` is found. -/
theorem tcpParseOptions_writes_before_malformed :
    ¬ ∀ (d : ℕ → UInt8) (config : TcpConfig), 5 ≤ (d 12 >>> 4).toNat → ∀ fuel config',
      tcpParseOptions fuel (headerOnly d) config = some (false, config') → config' = config := by
  intro h
  have harea : optionArea (headerWith 7 [2, 4, 5, 180, 3, 0]) =
      encode [.record ⟨2, [5, 180], by decide, by decide⟩] ++ [3, 0, 0, 0] := by decide
  have hmalformed : Malformed [3, 0, 0, 0] := ⟨by decide, Or.inl (by decide)⟩
  have hrun := tcpParseOptions_eq tcpDefaultConfig (by decide) harea
    (tcpOptionTurn_malformed hmalformed) (by decide : 40 < 41)
  exact absurd (congrArg TcpConfig.mss (h _ _ (by decide) _ _ hrun)) (by decide)

/-! ### What is built -/

/-- The options that a configuration has. -/
def TcpConfig.options (c : TcpConfig) : List Item :=
  [.record ⟨2, [UInt8.ofNat c.mss.toNat, UInt8.ofNat (c.mss.toNat / 256)], by decide,
    by rw [List.length_cons, List.length_singleton]; decide⟩] ++
  (if 0 < c.windowScale then
    [.record ⟨3, [c.windowScale], by decide, by rw [List.length_singleton]; decide⟩] else []) ++
  (if c.sackPermitted then [.record ⟨4, [], by decide, by decide⟩] else []) ++
  (if c.timestamps then [.record ⟨8, List.replicate 8 0, by decide, by decide⟩] else [])

/-- What has been written: these bytes, from the fixed part on, and nothing else. -/
structure OptionWriter.Wrote (d : ℕ → UInt8) (w : OptionWriter) (bytes : List UInt8) : Prop where
  offset_eq : w.offset = bytes.length
  slice_eq : slice w.header 20 w.offset = bytes
  frame : ∀ k, k < 20 ∨ 20 + w.offset ≤ k → w.header k = d k

variable {w : OptionWriter} {bytes bytes' : List UInt8}

theorem OptionWriter.Wrote.put (h : w.Wrote d bytes) (bytes' : List UInt8) :
    (w.put bytes').Wrote d (bytes ++ bytes') where
  offset_eq := by
    rw [List.length_append, ← h.offset_eq]
    rfl
  slice_eq := by
    dsimp only [OptionWriter.put]
    rw [slice_add, slice_blit_of_le le_rfl, h.slice_eq, slice_blit, slice_getD]
  frame k hk := by
    dsimp only [OptionWriter.put] at hk ⊢
    rcases hk with hlt | hge
    · rw [blit_of_lt (by omega), h.frame k (Or.inl hlt)]
    · rw [blit_of_ge (by omega), h.frame k (Or.inr (by omega))]

/-- A part that is written on a condition. -/
theorem OptionWriter.Wrote.putIf (h : w.Wrote d bytes) (p : Prop) [Decidable p]
    (bytes' : List UInt8) :
    (if p then w.put bytes' else w).Wrote d (bytes ++ if p then bytes' else []) := by
  by_cases hp : p
  · rw [if_pos hp, if_pos hp]
    exact h.put bytes'
  · rw [if_neg hp, if_neg hp, List.append_nil]
    exact h

/-- The padding. -/
theorem iterate_tcpPadTurn (n : ℕ) (h : w.Wrote d bytes) (hn : (w.offset + n) % 4 = 0)
    (hlt : n < 4) :
    ∃ w', (∀ fuel > n, iterate tcpPadTurn fuel w = some w') ∧
      w'.Wrote d (bytes ++ List.replicate n 1) := by
  have hand (x : ℕ) : x &&& 3 = x % 4 := Nat.and_two_pow_sub_one_eq_mod x 2
  induction n generalizing w bytes with
  | zero =>
    refine ⟨w, fun fuel hfuel => ?_, by rwa [List.replicate_zero, List.append_nil]⟩
    obtain ⟨m, rfl⟩ := Nat.exists_eq_succ_of_ne_zero (by omega : fuel ≠ 0)
    refine iterate_done ?_
    rw [tcpPadTurn, if_pos (by rw [hand]; omega)]
  | succ n ih =>
    have hnext : tcpPadTurn w = some (.next (w.put [1])) := by
      rw [tcpPadTurn, if_neg (by rw [hand]; omega)]
    have hoffset : (w.put [1]).offset = w.offset + 1 := rfl
    obtain ⟨w', hrun, hwrote⟩ := ih (h.put [1]) (by rw [hoffset]; omega) (by omega)
    refine ⟨w', fun fuel hfuel => ?_, ?_⟩
    · obtain ⟨m, rfl⟩ := Nat.exists_eq_succ_of_ne_zero (by omega : fuel ≠ 0)
      rw [iterate_next hnext, hrun m (by omega)]
    · rwa [List.append_assoc, List.singleton_append, ← List.replicate_succ] at hwrote

/-- The bytes of the options, as they are written. -/
theorem encode_options (c : TcpConfig) :
    encode c.options = [2, 4, UInt8.ofNat c.mss.toNat, UInt8.ofNat (c.mss.toNat / 256)] ++
      (if 0 < c.windowScale then [3, 3, c.windowScale] else []) ++
      (if c.sackPermitted then [4, 2] else []) ++
      (if c.timestamps then [8, 10, 0, 0, 0, 0, 0, 0, 0, 0] else []) := by
  simp only [TcpConfig.options, encode_append]
  refine congrArg₂ _ (congrArg₂ _ (congrArg₂ _ rfl ?_) ?_) ?_ <;> split <;> rfl

theorem length_encode_options_le (c : TcpConfig) : (encode c.options).length ≤ 19 := by
  rw [encode_options, List.length_append, List.length_append, List.length_append]
  have hscale : (if 0 < c.windowScale then [3, 3, c.windowScale] else []).length ≤ 3 := by
    split <;> simp
  have hsack : (if c.sackPermitted then [(4 : UInt8), 2] else []).length ≤ 2 := by
    split <;> simp
  have htime : (if c.timestamps then [(8 : UInt8), 10, 0, 0, 0, 0, 0, 0, 0, 0] else []).length
      ≤ 10 := by
    split <;> simp
  have hmss : [2, 4, UInt8.ofNat c.mss.toNat, UInt8.ofNat (c.mss.toNat / 256)].length = 4 := rfl
  omega

/-- The options of a configuration, applied to another. -/
theorem foldl_apply_options (c t : TcpConfig) :
    c.options.foldl TcpConfig.apply t =
      { t with
        mss := c.mss
        windowScale := if 0 < c.windowScale then c.windowScale else t.windowScale
        sackPermitted := c.sackPermitted || t.sackPermitted
        timestamps := c.timestamps || t.timestamps } := by
  have hmss : c.mss % 256 + 256 * (UInt8.ofNat (c.mss.toNat / 256)).toUInt16 = c.mss := by
    have hlt := c.mss.toNat_lt
    rw [← UInt16.toNat_inj, UInt16.toNat_add, UInt16.toNat_mul, UInt8.toNat_toUInt16,
      UInt8.toNat_ofNat', UInt16.toNat_mod]
    change (c.mss.toNat % 256 + 256 * (c.mss.toNat / 256 % 2 ^ 8) % 2 ^ 16) % 2 ^ 16 = _
    omega
  simp only [TcpConfig.options, List.foldl_append]
  by_cases hscale : 0 < c.windowScale <;> cases hsack : c.sackPermitted <;>
    cases htime : c.timestamps <;>
    simp [hscale, TcpConfig.apply, optionMss, optionWindowScale, optionSackPermitted,
      optionTimestamp, Item.dataOf, hmss]

theorem foldl_apply_pad (n : ℕ) (c : TcpConfig) :
    (List.replicate n .pad).foldl TcpConfig.apply c = c := by
  have hpad : c.apply .pad = c := by
    simp [TcpConfig.apply, optionMss, optionWindowScale, optionSackPermitted, optionTimestamp,
      Item.dataOf]
  induction n with
  | zero => rfl
  | succ n ih => rw [List.replicate_succ, List.foldl_cons, hpad, ih]

/-- What the builder has written before it sets the data offset. -/
theorem tcpBuildOptions_wrote (d : ℕ → UInt8) (c : TcpConfig) :
    ∃ n < 4, ∃ w : OptionWriter, (∀ fuel > 3, tcpBuildOptions fuel d c =
        some (Function.update w.header 12 (UInt8.ofNat ((20 + w.offset) / 4) <<< 4))) ∧
      w.Wrote d (encode c.options ++ List.replicate n 1) ∧ w.offset % 4 = 0 := by
  have hstart : OptionWriter.Wrote d ⟨d, 0⟩ [] := ⟨rfl, slice_zero d 20, fun _ _ => rfl⟩
  have hmss := hstart.put [2, 4, UInt8.ofNat c.mss.toNat, UInt8.ofNat (c.mss.toNat / 256)]
  have hscale := hmss.putIf (0 < c.windowScale) [3, 3, c.windowScale]
  have hsack := hscale.putIf (c.sackPermitted = true) [4, 2]
  have hwrote := hsack.putIf (c.timestamps = true) [8, 10, 0, 0, 0, 0, 0, 0, 0, 0]
  rw [List.nil_append, ← encode_options] at hwrote
  have hpad : ∃ n < 4, ((encode c.options).length + n) % 4 = 0 :=
    ⟨(4 - (encode c.options).length % 4) % 4, by omega, by omega⟩
  obtain ⟨n, hn, hmod⟩ := hpad
  obtain ⟨w, hrun, hw⟩ := iterate_tcpPadTurn n hwrote (by rw [hwrote.offset_eq, hmod]) hn
  refine ⟨n, hn, w, fun fuel hfuel => ?_, hw, ?_⟩
  · rw [tcpBuildOptions, hrun fuel (by omega), Option.map_some]
  · rw [hw.offset_eq, List.length_append, List.length_replicate, hmod]

/-- **What is built, and read back**: for every configuration the builder returns a header whose
data offset is from six to fifteen and takes in the options and less than four bytes of padding; the
parser reads this header, and what it makes of another configuration has the size, the factor if
there is one, and the two permissions if either has them. -/
theorem tcpBuildOptions_roundTrip (d : ℕ → UInt8) (c t : TcpConfig) :
    ∃ d', (∀ fuel > 3, tcpBuildOptions fuel d c = some d') ∧
      6 ≤ (d' 12 >>> 4).toNat ∧ (d' 12 >>> 4).toNat ≤ 15 ∧
      (∃ n < 4, optionArea d' = encode c.options ++ List.replicate n 1) ∧
      (∀ k, k ≠ 12 → k < 20 ∨ headerLen d' ≤ k → d' k = d k) ∧
      ∀ fuel > 40, tcpParseOptions fuel (headerOnly d') t = some (true,
        { t with
          mss := c.mss
          windowScale := if 0 < c.windowScale then c.windowScale else t.windowScale
          sackPermitted := c.sackPermitted || t.sackPermitted
          timestamps := c.timestamps || t.timestamps }) := by
  obtain ⟨n, hn, w, hrun, hwrote, hmod⟩ := tcpBuildOptions_wrote d c
  refine ⟨_, hrun, ?_⟩
  generalize hd' : Function.update w.header 12 (UInt8.ofNat ((20 + w.offset) / 4) <<< 4) = d'
  have hle := length_encode_options_le c
  have hoffset : w.offset = (encode c.options).length + n := by
    rw [hwrote.offset_eq, List.length_append, List.length_replicate]
  have hfour : 4 ≤ (encode c.options).length := by
    rw [encode_options]
    simp
  have hother (k : ℕ) (hk : k ≠ 12) : d' k = w.header k := by rw [← hd', Function.update_of_ne hk]
  have hnibble : (d' 12 >>> 4).toNat = (20 + w.offset) / 4 := by
    have hshift : ∀ x < 16, ((UInt8.ofNat x <<< 4) >>> 4).toNat = x := by decide
    rw [← hd', Function.update_self, hshift _ (by omega)]
  have hlen : headerLen d' = 20 + w.offset := by
    rw [headerLen, hnibble]
    omega
  have harea : optionArea d' = encode c.options ++ List.replicate n 1 := by
    rw [optionArea, hlen, Nat.add_sub_cancel_left, ← hwrote.slice_eq]
    exact slice_congr fun k _ => hother _ (by omega)
  refine ⟨by omega, by omega, ⟨n, hn, harea⟩, fun k hk hout => ?_, fun fuel hfuel => ?_⟩
  · rw [hother k hk, hwrote.frame k (by omega)]
  · have hitems : optionArea d' = encode (c.options ++ List.replicate n .pad) ++ [] := by
      rw [encode_append, encode_replicate_pad, List.append_nil, harea]
    rw [tcpParseOptions_eq _ (by omega) hitems (tcpOptionTurn_ends (Or.inl rfl)) hfuel,
      List.foldl_append, foldl_apply_pad, foldl_apply_options]

end Rexus
