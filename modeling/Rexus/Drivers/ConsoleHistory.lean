import Rexus.Drivers.Console

/-!
# The history of the console

What holds of the buffers whatever is typed: the line before the cursor is without a zero and the
last byte of the buffer is one, so that every copy ends; and the history is the last ten of the
lines that were entered and not empty.

## Main results

* `consolePress_inv`, `consoleUpdate_inv` — what a key and an update keep
* `console_run` — what holds in every run, and what the Up key recalls

## Conventions

The events are keys and updates, in any order and any number; a key is any pair of what is delivered
and what it decodes to. What has been entered is kept beside the console: at every Enter the line
before the cursor, unless it is empty. The history of the console holds at most ten lines, the
oldest first, and `lastTen` is what it is to be.

The invariant has in it that every buffer has a zero before its end, and so no copy fails in any
run. The Up key is spoken of by how often it is pressed, one press after the other and nothing in
between; it goes back line by line, and stays at the oldest.
-/

namespace Rexus

open Bytes Loop Run

/-! ### The last ten -/

/-- The last ten of a list. -/
def lastTen {α : Type} (l : List α) : List α := l.drop (l.length - 10)

section

variable {α : Type} {l : List α} {a : α}

theorem length_lastTen (l : List α) : (lastTen l).length = min 10 l.length := by
  rw [lastTen, List.length_drop]
  omega

theorem mem_of_mem_lastTen (h : a ∈ lastTen l) : a ∈ l := List.mem_of_mem_drop h

/-- One more: of ten the first is gone. -/
theorem lastTen_concat (l : List α) (a : α) :
    lastTen (l ++ [a]) =
      (if (lastTen l).length = 10 then (lastTen l).tail else lastTen l) ++ [a] := by
  have hlen := length_lastTen l
  rw [lastTen, List.length_append, List.length_singleton]
  split_ifs with h
  · rw [List.drop_append_of_le_length (by omega), lastTen, List.tail_drop,
      show l.length + 1 - 10 = l.length - 10 + 1 by omega]
  · rw [show l.length + 1 - 10 = 0 by omega, lastTen, show l.length - 10 = 0 by omega,
      List.drop_zero, List.drop_zero]

end

/-! ### The buffers of the history -/

/-- The buffers hold these lines. -/
def History (h : ℕ → ℕ → UInt8) (lines : List (List UInt8)) : Prop :=
  ∀ i line, lines[i]? = some line → Holds (h i) line

section

variable {c : Console} {lines : List (List UInt8)} {line : List UInt8}

/-- A line behind the others. -/
theorem History.concat {h : ℕ → ℕ → UInt8} {d : ℕ → UInt8} (hh : History h lines)
    (hd : Holds d line) : History (Function.update h lines.length d) (lines ++ [line]) := by
  intro i l hi
  rcases Nat.lt_trichotomy i lines.length with hlt | rfl | hgt
  · rw [List.getElem?_append_left hlt] at hi
    rw [Function.update_of_ne (Nat.ne_of_lt hlt)]
    exact hh i l hi
  · rw [List.getElem?_concat_length, Option.some_inj] at hi
    rw [Function.update_self, ← hi]
    exact hd
  · rw [List.getElem?_eq_none (by rw [List.length_append, List.length_singleton]; omega)] at hi
    cases hi

/-- The lines from the second on, of which `n` have been moved down. -/
structure Shifted (old : ℕ → ℕ → UInt8) (lines : List (List UInt8)) (n : ℕ)
    (h : ℕ → ℕ → UInt8) : Prop where
  done : ∀ i l, i < n → lines[i + 1]? = some l → Holds (h i) l
  rest : ∀ i, n ≤ i → h i = old i

/-- The next of them is moved down. -/
theorem Shifted.update {old h : ℕ → ℕ → UInt8} {n : ℕ} (hs : Shifted old lines n h)
    (hline : lines[n + 1]? = some line) {d : ℕ → UInt8} (hd : Holds d line) :
    Shifted old lines (n + 1) (Function.update h n d) where
  done i l hi hl := by
    rcases Nat.lt_succ_iff_lt_or_eq.mp hi with hlt | rfl
    · rw [Function.update_of_ne (Nat.ne_of_lt hlt)]
      exact hs.done i l hlt hl
    · rw [hline, Option.some_inj] at hl
      rw [Function.update_self, ← hl]
      exact hd
  rest i hi := by
    rw [Function.update_of_ne (by omega)]
    exact hs.rest i (by omega)

/-- A full history, moved down. -/
theorem consoleShiftHistory_eq (hh : History c.historyBuffer lines) (hten : lines.length = 10)
    (hlen : ∀ l ∈ lines, l.length ≤ 255) :
    ∃ h, consoleShiftHistory c =
        .ok { c with historyBuffer := h, historyCount := c.historyCount - 1 } ∧
      History h lines.tail := by
  -- the loop, by what it gives and by what one turn does
  obtain ⟨body, hshift, hbody⟩ : ∃ body : ℕ → (ℕ → ℕ → UInt8) → Except StringError _,
      (∀ h, tryRange body 9 0 c.historyBuffer = .ok h → consoleShiftHistory c =
        .ok { c with historyBuffer := h, historyCount := c.historyCount - 1 }) ∧
      ∀ i h d, strcpy (h i) (h (i + 1)) 256 = .ok d →
        body i h = .ok (Function.update h i d) :=
    ⟨_, fun h hloop => by rw [consoleShiftHistory, hloop], fun i h d hd => by rw [hd]⟩
  have hstep : ∀ n h, 0 ≤ n → n < 0 + 9 → Shifted c.historyBuffer lines n h →
      ∃ h', body n h = .ok h' ∧ Shifted c.historyBuffer lines (n + 1) h' := by
    intro n h _ hn hshifted
    obtain ⟨l, hl⟩ : ∃ l, lines[n + 1]? = some l :=
      ⟨lines[n + 1], List.getElem?_eq_getElem (by omega)⟩
    have hholds : Holds (h (n + 1)) l := by
      rw [hshifted.rest (n + 1) (Nat.le_succ n)]
      exact hh (n + 1) l hl
    have hsize : l.length < 256 := Nat.lt_succ_of_le (hlen l (List.mem_of_getElem? hl))
    exact ⟨_, hbody n h _ (strcpy_of_holds hholds hsize _), hshifted.update hl (hholds.blit _)⟩
  obtain ⟨h, hloop, hdone⟩ := tryRange_inv_ok body (Shifted c.historyBuffer lines) (n := 9)
    ⟨fun i l hi => absurd hi (Nat.not_lt_zero i), fun i _ => rfl⟩ hstep
  refine ⟨h, hshift h hloop, fun i l hi => ?_⟩
  rw [List.getElem?_tail] at hi
  have hlt := (List.getElem?_eq_some_iff.mp hi).1
  exact hdone.done i l (by omega) hi

/-- The history with one more line. -/
theorem consoleAddHistory_eq (hh : History c.historyBuffer (lastTen lines))
    (hcount : c.historyCount = (lastTen lines).length) (hlen : ∀ l ∈ lines, l.length ≤ 255)
    (hline : Holds c.inputBuffer line) (hsize : line.length ≤ 255) :
    ∃ h, consoleAddHistory c = .ok { c with
        historyBuffer := h
        historyCount := (lastTen (lines ++ [line])).length } ∧
      History h (lastTen (lines ++ [line])) := by
  have hsize : line.length < 256 := by omega
  rw [consoleAddHistory, lastTen_concat, ← hcount]
  split_ifs with hten
  · obtain ⟨h, hshift, htail⟩ := consoleShiftHistory_eq hh (hcount.symm.trans hten)
      fun l hl => hlen l (mem_of_mem_lastTen hl)
    have htaillen : (lastTen lines).tail.length = c.historyCount - 1 := by
      rw [List.length_tail, hcount]
    rw [hshift]
    dsimp only
    rw [strcpy_of_holds hline hsize]
    refine ⟨_, ?_, htail.concat (hline.blit (h (lastTen lines).tail.length))⟩
    rw [htaillen, List.length_append, List.length_singleton, htaillen]
  · dsimp only
    rw [strcpy_of_holds hline hsize, hcount]
    refine ⟨_, ?_, hh.concat (hline.blit (c.historyBuffer (lastTen lines).length))⟩
    rw [List.length_append, List.length_singleton]

end

/-! ### The invariant -/

/-- The line before the cursor. -/
def Console.line (c : Console) : List UInt8 := slice c.inputBuffer 0 c.inputPosition

/-- The lines that were entered and not empty, after an Enter. -/
def Console.submit (c : Console) (submitted : List (List UInt8)) : List (List UInt8) :=
  if 0 < c.inputPosition then submitted ++ [c.line] else submitted

/-- What is to hold when these lines, none of them empty, have been entered. -/
structure ConsoleSpec (c : Console) (submitted : List (List UInt8)) : Prop where
  position_le : c.inputPosition ≤ 255
  nonzero : ∀ k < c.inputPosition, c.inputBuffer k ≠ 0
  last_zero : c.inputBuffer 255 = 0
  count_eq : c.historyCount = min 10 submitted.length
  history : History c.historyBuffer (lastTen submitted)
  position : c.historyPosition = -1 ∨ 0 ≤ c.historyPosition ∧ c.historyPosition < c.historyCount

/-- The invariant: besides, each line fits its buffer. -/
structure ConsoleInv (c : Console) (submitted : List (List UInt8)) : Prop
    extends ConsoleSpec c submitted where
  lines : ∀ l ∈ submitted, l ≠ [] ∧ l.length ≤ 255

section

variable {c : Console} {submitted : List (List UInt8)} {l : List UInt8}

@[simp] theorem Console.length_line (c : Console) : c.line.length = c.inputPosition := by
  simp [Console.line]

theorem consoleInit_inv : ConsoleInv consoleInit [] where
  position_le := Nat.zero_le _
  nonzero k hk := absurd hk (Nat.not_lt_zero k)
  last_zero := rfl
  count_eq := rfl
  history _ _ hi := nomatch hi
  position := Or.inl rfl
  lines _ hl := nomatch hl

/-- With a zero behind it, the line is the string in the buffer. -/
theorem ConsoleInv.holds (h : ConsoleInv c submitted) :
    Holds (Function.update c.inputBuffer c.inputPosition 0) c.line := by
  have hslice : slice (Function.update c.inputBuffer c.inputPosition 0) 0 c.inputPosition =
      c.line := slice_congr fun k hk => by
    rw [Function.update_of_ne (by omega)]
  rw [← hslice]
  refine holds_slice (Function.update_self ..) fun k hk => ?_
  rw [Function.update_of_ne (Nat.ne_of_lt hk)]
  exact h.nonzero k hk

theorem ConsoleInv.submit_lines (h : ConsoleInv c submitted) :
    ∀ l ∈ c.submit submitted, l ≠ [] ∧ l.length ≤ 255 := by
  rw [Console.submit]
  split_ifs with hpos
  · intro l hl
    rcases List.mem_append.mp hl with hl | hl
    · exact h.lines l hl
    · obtain rfl := List.mem_singleton.mp hl
      have hlen := c.length_line
      refine ⟨fun hnil => ?_, hlen ▸ h.position_le⟩
      rw [hnil] at hlen
      exact Nat.ne_of_lt hpos hlen
  · exact h.lines

/-- Enter succeeds, and its line is the last of the history. -/
theorem consoleEnter_eq (h : ConsoleInv c submitted) :
    ∃ history, consoleEnter c = .ok ([10], {
        inputBuffer := Function.update c.inputBuffer c.inputPosition 0
        inputPosition := c.inputPosition
        inputReady := true
        historyBuffer := history
        historyCount := (lastTen (c.submit submitted)).length
        historyPosition := -1 }) ∧
      History history (lastTen (c.submit submitted)) := by
  have hcount := h.count_eq.trans (length_lastTen submitted).symm
  rw [consoleEnter, Console.submit]
  dsimp only
  split_ifs
  · obtain ⟨history, hadd, hhistory⟩ := consoleAddHistory_eq
      (c := { c with inputBuffer := Function.update c.inputBuffer c.inputPosition 0 })
      h.history hcount (fun l hl => (h.lines l hl).2) h.holds (c.length_line ▸ h.position_le)
    rw [hadd]
    exact ⟨history, rfl, hhistory⟩
  · exact ⟨c.historyBuffer, by rw [hcount], h.history⟩

/-- An entry of the history becomes the line. -/
theorem consoleRecall_eq {i : ℤ} (hl : Holds (c.historyBuffer i.toNat) l) (hlen : l.length ≤ 255) :
    consoleRecall c i = .ok ((List.replicate c.inputPosition [8, 32, 8]).flatten ++ l, { c with
      inputBuffer := blit c.inputBuffer 0 (c.historyBuffer i.toNat) 0 (l.length + 1)
      inputPosition := l.length
      historyPosition := i }) := by
  have hsize : l.length < 256 := Nat.lt_succ_of_le hlen
  have hholds := hl.blit c.inputBuffer
  rw [consoleRecall, consoleErase]
  dsimp only
  rw [strcpy_of_holds hl hsize]
  dsimp only
  rw [consoleShow, strlen_of_holds hholds hsize]
  dsimp only
  rw [hholds.text]

/-- The entry at a position of the history. -/
theorem ConsoleInv.entry (h : ConsoleInv c submitted) {i : ℤ} (h0 : 0 ≤ i)
    (hi : i < c.historyCount) :
    ∃ l, (lastTen submitted)[i.toNat]? = some l ∧ Holds (c.historyBuffer i.toNat) l ∧
      l.length ≤ 255 := by
  have hlen := length_lastTen submitted
  have hcount := h.count_eq
  have hlt : i.toNat < (lastTen submitted).length := by omega
  have hget := List.getElem?_eq_getElem hlt
  exact ⟨_, hget, h.history _ _ hget,
    (h.lines _ (mem_of_mem_lastTen (List.getElem_mem hlt))).2⟩

theorem ConsoleInv.recall (h : ConsoleInv c submitted) {i : ℤ} (h0 : 0 ≤ i)
    (hi : i < c.historyCount) (hl : Holds (c.historyBuffer i.toNat) l) (hlen : l.length ≤ 255) :
    ConsoleInv { c with
      inputBuffer := blit c.inputBuffer 0 (c.historyBuffer i.toNat) 0 (l.length + 1)
      inputPosition := l.length
      historyPosition := i } submitted where
  position_le := hlen
  nonzero k hk := (hl.blit c.inputBuffer).ne_zero hk
  last_zero := by
    dsimp only
    rcases Nat.lt_or_ge l.length 255 with hlt | hge
    · rw [blit_of_ge (by omega)]
      exact h.last_zero
    · rw [show 255 = l.length by omega]
      exact (hl.blit c.inputBuffer).null
  count_eq := h.count_eq
  history := h.history
  position := Or.inr ⟨h0, hi⟩
  lines := h.lines

/-- The line of `c'` is the entry `i` of the history. -/
structure Recalled (c : Console) (submitted : List (List UInt8)) (i : ℤ) (c' : Console) : Prop where
  inv : ConsoleInv c' submitted
  line : (lastTen submitted)[i.toNat]? = some c'.line
  position : c'.historyPosition = i
  count : c'.historyCount = c.historyCount
  ready : c'.inputReady = c.inputReady

theorem consoleRecall_recalled (h : ConsoleInv c submitted) {i : ℤ} (h0 : 0 ≤ i)
    (hi : i < c.historyCount) :
    ∃ out c', consoleRecall c i = .ok (out, c') ∧ Recalled c submitted i c' := by
  obtain ⟨l, hget, hl, hlen⟩ := h.entry h0 hi
  have hline := (hl.blit c.inputBuffer).text
  exact ⟨_, _, consoleRecall_eq hl hlen, h.recall h0 hi hl hlen,
    hget.trans (congrArg some hline.symm), rfl, rfl, rfl⟩

/-- The cursor may go to any place before it. -/
theorem ConsoleInv.setPosition (h : ConsoleInv c submitted) {n : ℕ} (hn : n ≤ c.inputPosition) :
    ConsoleInv { c with inputPosition := n } submitted where
  position_le := hn.trans h.position_le
  nonzero k hk := h.nonzero k (Nat.lt_of_lt_of_le hk hn)
  last_zero := h.last_zero
  count_eq := h.count_eq
  history := h.history
  position := h.position
  lines := h.lines

/-- A zero may be written from the cursor on. -/
theorem ConsoleInv.setZero (h : ConsoleInv c submitted) {n : ℕ} (hn : c.inputPosition ≤ n) :
    ConsoleInv { c with inputBuffer := Function.update c.inputBuffer n 0 } submitted where
  position_le := h.position_le
  nonzero k hk := by
    dsimp only
    rw [Function.update_of_ne (Nat.ne_of_lt (Nat.lt_of_lt_of_le hk hn))]
    exact h.nonzero k hk
  last_zero := by
    dsimp only
    rw [Function.update_apply]
    split_ifs
    · rfl
    · exact h.last_zero
  count_eq := h.count_eq
  history := h.history
  position := h.position
  lines := h.lines

theorem ConsoleInv.resetPosition (h : ConsoleInv c submitted) :
    ConsoleInv { c with historyPosition := -1 } submitted where
  position_le := h.position_le
  nonzero := h.nonzero
  last_zero := h.last_zero
  count_eq := h.count_eq
  history := h.history
  position := Or.inl rfl
  lines := h.lines

/-! ### The keys -/

/-- The line after a character, if there is room for it. -/
theorem consoleType_line (hroom : c.inputPosition < 255) (ch : UInt8) :
    (consoleType c ch).2.line = c.line ++ [ch] := by
  rw [consoleType, if_pos hroom, Console.line]
  dsimp only
  rw [slice_succ, Nat.zero_add, Function.update_of_ne (Nat.ne_of_lt (Nat.lt_succ_self _)),
    Function.update_self]
  refine congrArg₂ _ (slice_congr fun k hk => ?_) rfl
  rw [Function.update_of_ne (by omega), Function.update_of_ne (by omega)]

/-- The last character is erased, if there is one. -/
theorem consoleBackspace_line (c : Console) : (consoleBackspace c).2.line = c.line.dropLast := by
  rw [consoleBackspace, List.dropLast_eq_take, c.length_line, Console.line, Console.line,
    take_slice _ _ (Nat.sub_le _ 1)]
  split_ifs with hpos
  · refine slice_congr fun k hk => ?_
    dsimp only at hk ⊢
    rw [Function.update_of_ne (by omega)]
  · rw [show c.inputPosition - 1 = c.inputPosition by omega]

/-- The line ends at the cursor. -/
theorem consoleLeft_line (c : Console) : (consoleLeft c).2.line = c.line.dropLast := by
  rw [consoleLeft, List.dropLast_eq_take, c.length_line, Console.line, Console.line,
    take_slice _ _ (Nat.sub_le _ 1)]
  split_ifs with hpos
  · rfl
  · rw [show c.inputPosition - 1 = c.inputPosition by omega]

theorem consoleBackspace_inv (h : ConsoleInv c submitted) :
    ConsoleInv (consoleBackspace c).2 submitted := by
  rw [consoleBackspace]
  split_ifs
  · exact (h.setPosition (Nat.sub_le _ 1)).setZero (Nat.le_refl _)
  · exact h

theorem consoleType_inv (h : ConsoleInv c submitted) {ch : UInt8} (hch : ch ≠ 0) :
    ConsoleInv (consoleType c ch).2 submitted := by
  rw [consoleType]
  split_ifs with hroom
  · have hwrite : ConsoleInv { c with
        inputBuffer := Function.update c.inputBuffer c.inputPosition ch
        inputPosition := c.inputPosition + 1 } submitted :=
      { position_le := hroom
        nonzero := fun k hk => by
          dsimp only at hk ⊢
          rw [Function.update_apply]
          split_ifs with hkp
          · exact hch
          · exact h.nonzero k (by omega)
        last_zero := by
          dsimp only
          rw [Function.update_of_ne (by omega)]
          exact h.last_zero
        count_eq := h.count_eq
        history := h.history
        position := h.position
        lines := h.lines }
    exact hwrite.setZero (Nat.le_refl _)
  · exact h

/-- Where the Up key goes. -/
def Console.previous (c : Console) : ℤ :=
  if c.historyPosition = -1 then c.historyCount - 1
  else if 0 < c.historyPosition then c.historyPosition - 1
  else c.historyPosition

theorem ConsoleInv.previous_mem (h : ConsoleInv c submitted) (hcount : 0 < c.historyCount) :
    0 ≤ c.previous ∧ c.previous < c.historyCount := by
  have hpos := h.position
  rw [Console.previous]
  split_ifs
  · omega
  · omega
  · omega

/-- The Up key recalls the entry before the last one recalled. -/
theorem consoleUp_recalled (h : ConsoleInv c submitted) (hcount : 0 < c.historyCount) :
    ∃ out c', consoleUp c = .ok (out, c') ∧ Recalled c submitted c.previous c' := by
  obtain ⟨h0, hlt⟩ := h.previous_mem hcount
  have hup : consoleUp c = consoleRecall c c.previous := if_pos hcount
  rw [hup]
  exact consoleRecall_recalled h h0 hlt

theorem consoleUp_inv (h : ConsoleInv c submitted) :
    ∃ out c', consoleUp c = .ok (out, c') ∧ ConsoleInv c' submitted := by
  by_cases hcount : 0 < c.historyCount
  · obtain ⟨out, c', heq, hrecalled⟩ := consoleUp_recalled h hcount
    exact ⟨out, c', heq, hrecalled.inv⟩
  · exact ⟨_, _, if_neg hcount, h⟩

/-- The Down key, from the last entry. -/
theorem consoleDown_last (hrecalled : c.historyPosition ≠ -1)
    (hlast : (c.historyCount : ℤ) ≤ c.historyPosition + 1) :
    ∃ out, consoleDown c = .ok (out, { c with
      inputBuffer := Function.update c.inputBuffer 0 0
      inputPosition := 0
      historyPosition := -1 }) := by
  have hholds : Holds (Function.update c.inputBuffer 0 0) [] :=
    holds_slice (n := 0) (Function.update_self ..) (fun k hk => absurd hk (Nat.not_lt_zero k))
  rw [consoleDown, if_pos hrecalled, if_pos hlast]
  dsimp only [consoleErase]
  have hlen : strlen (Function.update c.inputBuffer 0 0) 256 = .ok 0 :=
    strlen_of_holds hholds (by decide)
  rw [consoleShow, hlen]
  exact ⟨_, rfl⟩

/-- And from one before it. -/
theorem consoleDown_recalled (h : ConsoleInv c submitted) (hrecalled : c.historyPosition ≠ -1)
    (hnext : c.historyPosition + 1 < c.historyCount) :
    ∃ out c', consoleDown c = .ok (out, c') ∧
      Recalled c submitted (c.historyPosition + 1) c' := by
  have hpos := h.position
  rw [consoleDown, if_pos hrecalled, if_neg (Int.not_le.mpr hnext)]
  exact consoleRecall_recalled h (by omega) hnext

theorem consoleDown_inv (h : ConsoleInv c submitted) :
    ∃ out c', consoleDown c = .ok (out, c') ∧ ConsoleInv c' submitted := by
  by_cases hrecalled : c.historyPosition = -1
  · exact ⟨_, _, if_neg (not_not.mpr hrecalled), h⟩
  by_cases hlast : (c.historyCount : ℤ) ≤ c.historyPosition + 1
  · obtain ⟨out, heq⟩ := consoleDown_last hrecalled hlast
    exact ⟨out, _, heq,
      ((h.setPosition (Nat.zero_le _)).setZero (Nat.le_refl _)).resetPosition⟩
  · obtain ⟨out, c', heq, hinv⟩ := consoleDown_recalled h hrecalled (by omega)
    exact ⟨out, c', heq, hinv.inv⟩

/-- `c'` has taken the line of `c`, which is still in the buffer. -/
structure Entered (c : Console) (submitted : List (List UInt8)) (c' : Console) : Prop where
  inv : ConsoleInv c' (c.submit submitted)
  position : c'.historyPosition = -1
  ready : c'.inputReady = true
  holds : Holds c'.inputBuffer c.line

theorem consoleEnter_entered (h : ConsoleInv c submitted) :
    ∃ out c', consoleEnter c = .ok (out, c') ∧ Entered c submitted c' := by
  obtain ⟨history, heq, hhistory⟩ := consoleEnter_eq h
  have hzero := h.setZero (Nat.le_refl c.inputPosition)
  exact ⟨_, _, heq,
    { inv :=
        { position_le := hzero.position_le
          nonzero := hzero.nonzero
          last_zero := hzero.last_zero
          count_eq := length_lastTen _
          history := hhistory
          position := Or.inl rfl
          lines := h.submit_lines }
      position := rfl
      ready := rfl
      holds := h.holds }⟩

theorem consoleLeft_inv (h : ConsoleInv c submitted) : ConsoleInv (consoleLeft c).2 submitted := by
  rw [consoleLeft]
  split_ifs
  · exact h.setPosition (Nat.sub_le _ 1)
  · exact h

/-- The lines entered after a key. -/
def Console.submitKey (c : Console) (submitted : List (List UInt8)) :
    ConsoleKey → List (List UInt8)
  | .enter => c.submit submitted
  | _ => submitted

/-- **Every key keeps the invariant**, and none of its copies goes past the end of a buffer. -/
theorem consolePress_inv (h : ConsoleInv c submitted) (key : ConsoleKey)
    (hkey : ∀ ch, key = .character ch → ch ≠ 0) :
    ∃ out c', consolePress c key = .ok (out, c') ∧
      ConsoleInv c' (c.submitKey submitted key) := by
  cases key with
  | enter =>
    obtain ⟨out, c', heq, hentered⟩ := consoleEnter_entered h
    exact ⟨out, c', heq, hentered.inv⟩
  | backspace => exact ⟨_, _, rfl, consoleBackspace_inv h⟩
  | character ch => exact ⟨_, _, rfl, consoleType_inv h (hkey ch rfl)⟩
  | up => exact consoleUp_inv h
  | down => exact consoleDown_inv h
  | home => exact ⟨_, _, rfl, h.setPosition (Nat.zero_le _)⟩
  | left => exact ⟨_, _, rfl, consoleLeft_inv h⟩
  | other => exact ⟨_, _, rfl, h⟩

/-- The input buffer holds a string, be it the line or not. -/
theorem ConsoleInv.holds_buffer (h : ConsoleInv c submitted) :
    ∃ l, Holds c.inputBuffer l ∧ l.length ≤ 255 := by
  obtain ⟨n, hn, hleast⟩ : ∃ n, c.inputBuffer n = 0 ∧ ∀ k < n, c.inputBuffer k ≠ 0 :=
    ⟨Nat.find ⟨255, h.last_zero⟩, Nat.find_spec (p := fun n => c.inputBuffer n = 0) _,
      fun k hk => Nat.find_min (p := fun n => c.inputBuffer n = 0) _ hk⟩
  refine ⟨_, holds_slice hn hleast, ?_⟩
  rw [length_slice]
  by_contra hlt
  exact hleast 255 (by omega) h.last_zero

/-- With the buffer cleared, as an update leaves it. -/
def Console.clear (c : Console) : Console :=
  { c with inputBuffer := fun _ => 0, inputPosition := 0, inputReady := false }

theorem ConsoleInv.clear (h : ConsoleInv c submitted) : ConsoleInv c.clear submitted where
  position_le := Nat.zero_le _
  nonzero k hk := absurd hk (Nat.not_lt_zero k)
  last_zero := rfl
  count_eq := h.count_eq
  history := h.history
  position := h.position
  lines := h.lines

theorem consoleUpdate_inv (h : ConsoleInv c submitted) :
    ∃ cmd c', consoleUpdate c = .ok (cmd, c') ∧ ConsoleInv c' submitted := by
  rw [consoleUpdate]
  split_ifs
  · obtain ⟨l, hl, hlen⟩ := h.holds_buffer
    rw [strlen_of_holds hl (Nat.lt_succ_of_le hlen)]
    exact ⟨_, _, rfl, h.clear⟩
  · exact ⟨_, _, rfl, h⟩

end

/-! ### Runs -/

/-- A key, with what it decodes to, or an update. -/
inductive ConsoleOp where
  | key (key : UInt16) (ascii : UInt8)
  | update

/-- The console, and the lines that were entered and not empty, the first one first. The console has
ten of them at most; the record has all. -/
structure ConsoleRun where
  console : Console
  submitted : List (List UInt8)

namespace ConsoleRun

/-- After `console_init`. -/
def start : ConsoleRun := ⟨consoleInit, []⟩

/-- One event. What an Enter submits is the line before the cursor. -/
def step (s : ConsoleRun) : ConsoleOp → Except StringError ConsoleRun
  | .key key ascii =>
    match consoleKeyboardCallback s.console key ascii with
    | .ok (_, console) =>
      .ok ⟨console, s.console.submitKey s.submitted (consoleKey key ascii)⟩
    | .error err => .error err
  | .update =>
    match consoleUpdate s.console with
    | .ok (_, console) => .ok ⟨console, s.submitted⟩
    | .error err => .error err

/-- The step relation of a run: an event that makes no access past the end of a buffer. That every
event is one is part of what is shown. -/
def Step (s : ConsoleRun) (op : ConsoleOp) (t : ConsoleRun) : Prop := s.step op = .ok t

end ConsoleRun

theorem ConsoleRun.step_inv {s : ConsoleRun} (h : ConsoleInv s.console s.submitted)
    (op : ConsoleOp) : ∃ t, s.Step op t ∧ ConsoleInv t.console t.submitted := by
  cases op with
  | key key ascii =>
    obtain ⟨out, c', heq, hinv⟩ := consolePress_inv h (consoleKey key ascii)
      fun ch hch => ne_zero_of_consoleKey hch
    refine ⟨⟨c', s.console.submitKey s.submitted (consoleKey key ascii)⟩, ?_, hinv⟩
    rw [ConsoleRun.Step, ConsoleRun.step, consoleKeyboardCallback_eq, heq]
  | update =>
    obtain ⟨cmd, c', heq, hinv⟩ := consoleUpdate_inv h
    refine ⟨⟨c', _⟩, ?_, hinv⟩
    rw [ConsoleRun.Step, ConsoleRun.step, heq]

/-- The Up key, this often. -/
def consoleUps : ℕ → Console → Except StringError Console
  | 0, c => .ok c
  | k + 1, c =>
    match consoleKeyboardCallback c keyUp 0 with
    | .ok (_, c) => consoleUps k c
    | .error err => .error err

/-- Each time it goes one entry back, and at the first it stays. -/
theorem consoleUps_eq {c : Console} {submitted : List (List UInt8)} (h : ConsoleInv c submitted)
    {i : ℕ} (hi : i < c.historyCount) (hprevious : c.previous = c.historyCount - 1 - i) (k : ℕ) :
    ∃ c', consoleUps (k + 1) c = .ok c' ∧
      (lastTen submitted)[c.historyCount - 1 - min (i + k) (c.historyCount - 1)]? =
        some c'.line := by
  induction k generalizing c i with
  | zero =>
    obtain ⟨out, c₁, heq, hrecalled⟩ := consoleUp_recalled h (by omega)
    have hline := hrecalled.line
    rw [consoleUps, consoleKeyboardCallback_eq, show consoleKey keyUp 0 = .up from rfl,
      consolePress, heq]
    refine ⟨c₁, rfl, ?_⟩
    rw [← hline, hprevious]
    congr 1
    omega
  | succ k ih =>
    obtain ⟨out, c₁, heq, hrecalled⟩ := consoleUp_recalled h (by omega)
    have hcount := hrecalled.count
    have hprevious₁ : c₁.previous =
        c₁.historyCount - 1 - ((min (i + 1) (c.historyCount - 1) : ℕ) : ℤ) := by
      rw [Console.previous, hrecalled.position, hcount, hprevious]
      split_ifs
      · omega
      · omega
      · omega
    obtain ⟨c', hrun, hget⟩ := ih hrecalled.inv (by omega) hprevious₁
    rw [consoleUps, consoleKeyboardCallback_eq, show consoleKey keyUp 0 = .up from rfl,
      consolePress, heq]
    refine ⟨c', hrun, ?_⟩
    rw [← hget, hcount]
    congr 1
    omega

/-- **What holds in every run**: the buffers hold strings, the history the last ten lines, no copy
goes past the end of a buffer; and after an Enter that has submitted a line, the Up key recalls the
lines of the history one after the other, the last one first. -/
theorem console_run {s : ConsoleRun} (h : Reaches ConsoleRun.Step ConsoleRun.start s) :
    ConsoleSpec s.console s.submitted ∧ (∀ op, ∃ t, s.Step op t) ∧
      ∀ key ascii t, consoleKey key ascii = .enter → 0 < s.console.inputPosition →
        s.Step (.key key ascii) t → ∀ k, 1 ≤ k → ∃ c', consoleUps k t.console = .ok c' ∧
          (lastTen t.submitted).reverse[min k t.console.historyCount - 1]? = some c'.line := by
  have hinv : ConsoleInv s.console s.submitted := by
    refine h.invariant (I := fun s => ConsoleInv s.console s.submitted) consoleInit_inv
      fun a op b ha hab => ?_
    obtain ⟨t, hstep, ht⟩ := a.step_inv ha op
    rwa [Except.ok.inj (hab.symm.trans hstep)]
  refine ⟨hinv.toConsoleSpec, fun op => ?_, fun key ascii t hkey hpos hstep k hk => ?_⟩
  · obtain ⟨t, hstep, -⟩ := s.step_inv hinv op
    exact ⟨t, hstep⟩
  obtain ⟨out, c₁, heq, hentered⟩ := consoleEnter_entered hinv
  have hinv₁ := hentered.inv
  have ht : t = ⟨c₁, s.console.submit s.submitted⟩ := by
    rw [ConsoleRun.Step, ConsoleRun.step, consoleKeyboardCallback_eq, hkey] at hstep
    dsimp only [consolePress] at hstep
    rw [heq] at hstep
    exact (Except.ok.inj hstep).symm
  subst ht
  have hcount := hinv₁.count_eq
  have hlen := length_lastTen (s.console.submit s.submitted)
  have hsubmit : 0 < (s.console.submit s.submitted).length := by
    rw [Console.submit, if_pos hpos, List.length_append, List.length_singleton]
    exact Nat.succ_pos _
  obtain ⟨j, rfl⟩ : ∃ j, k = j + 1 := ⟨k - 1, by omega⟩
  have hprevious : c₁.previous = c₁.historyCount - 1 - ((0 : ℕ) : ℤ) := by
    rw [Console.previous, if_pos hentered.position]
    omega
  obtain ⟨c', hups, hget⟩ := consoleUps_eq hinv₁ (by omega) hprevious j
  refine ⟨c', hups, ?_⟩
  dsimp only
  rw [List.getElem?_reverse (by omega), ← hget]
  congr 1
  omega

/-- The letter `a` is typed. -/
theorem console_run_typed :
    ConsoleSpec (consoleType consoleInit 97).2 [] ∧
      (∀ op, ∃ t, ConsoleRun.Step ⟨(consoleType consoleInit 97).2, []⟩ op t) ∧
      ∀ key ascii t, consoleKey key ascii = .enter →
        0 < (consoleType consoleInit 97).2.inputPosition →
        ConsoleRun.Step ⟨(consoleType consoleInit 97).2, []⟩ (.key key ascii) t → ∀ k, 1 ≤ k →
          ∃ c', consoleUps k t.console = .ok c' ∧
            (lastTen t.submitted).reverse[min k t.console.historyCount - 1]? = some c'.line :=
  console_run ((Reaches.refl _).tail (i := .key 97 97) rfl)

end Rexus
