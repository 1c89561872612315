import Mathlib.Tactic.Common
import Mathlib.Data.Nat.Init

/-!
# First-fit search over a predicate

Two scans over the cells `0, …, bound - 1` of a Boolean predicate `free`: one for the least free
cell, one for the least start of `count` consecutive free cells. The second keeps the length of
the run that ends at the cell under the cursor and where it began, as a C loop does, and it
never looks back.

Nothing here is about memory: a cell is a number, and `free` is any function to `Bool`.

## Main results

* `FirstFit.scanOne_eq_some_iff`, `FirstFit.scanOne_eq_none_iff`
* `FirstFit.scanRun_eq_some_iff`, `FirstFit.scanRun_eq_none_iff` — the run scan finds the least run,
  and reports failure only when there is none
* `FirstFit.IsLeastRun.unique`

## Conventions

`none` is a search without success, for both scans. The lemmas about the second scan ask for a
positive count: what it means to look for no cells is for the program to decide. Cells from the
bound on are not free for a run, whatever the predicate says of them: a run has to lie below the
bound as a whole.

The scans are written with the number of cells that are left, not with a test against the bound, and
so end by themselves.
-/

namespace FirstFit

variable {free : ℕ → Bool} {bound count : ℕ}

/-- The cells `b, …, b + count - 1` are free and lie below `bound`. -/
def IsRun (free : ℕ → Bool) (bound count b : ℕ) : Prop :=
  b + count ≤ bound ∧ ∀ k < count, free (b + k) = true

/-- `b` is the least start of a run. -/
def IsLeastRun (free : ℕ → Bool) (bound count b : ℕ) : Prop :=
  IsRun free bound count b ∧ ∀ c, IsRun free bound count c → b ≤ c

theorem IsLeastRun.unique {b c : ℕ} (hb : IsLeastRun free bound count b)
    (hc : IsLeastRun free bound count c) : b = c :=
  Nat.le_antisymm (hb.2 c hc.1) (hc.2 b hb.1)

theorem isRun_one {b : ℕ} : IsRun free bound 1 b ↔ b < bound ∧ free b = true := by
  constructor
  · rintro ⟨hb, hf⟩
    exact ⟨by omega, by simpa using hf 0 Nat.one_pos⟩
  · rintro ⟨hb, hf⟩
    refine ⟨by omega, fun k hk => ?_⟩
    obtain rfl : k = 0 := by omega
    simpa using hf

/-- A run contains a run of every smaller length. -/
theorem IsRun.mono {b m : ℕ} (h : IsRun free bound count b) (hm : m ≤ count) :
    IsRun free bound m b :=
  ⟨by have := h.1; omega, fun k hk => h.2 k (by omega)⟩

/-! ### The single-cell scan -/

/-- The first free cell of the `n` cells from `i` on. -/
def scanOne (free : ℕ → Bool) : (n i : ℕ) → Option ℕ
  | 0, _ => none
  | n + 1, i => if free i then some i else scanOne free n (i + 1)

theorem scanOne_eq_some_iff {n i b : ℕ} :
    scanOne free n i = some b ↔
      i ≤ b ∧ b < i + n ∧ free b = true ∧ ∀ c, i ≤ c → c < b → free c = false := by
  induction n generalizing i with
  | zero => simp only [scanOne]; constructor <;> intro h <;> simp at h; omega
  | succ n ih =>
    rw [scanOne]
    by_cases hi : free i = true
    · rw [if_pos hi]
      constructor
      · intro h
        obtain rfl : i = b := by simpa using h
        exact ⟨Nat.le_refl _, by omega, hi, fun c hc hcb => by omega⟩
      · rintro ⟨hib, -, -, hmin⟩
        rcases Nat.eq_or_lt_of_le hib with rfl | hlt
        · rfl
        · exact absurd (hmin i (Nat.le_refl _) hlt) (by simp [hi])
    · rw [if_neg hi, ih]
      constructor
      · rintro ⟨h1, h2, h3, hmin⟩
        refine ⟨by omega, by omega, h3, fun c hc hcb => ?_⟩
        rcases Nat.eq_or_lt_of_le hc with rfl | hlt
        · simpa using hi
        · exact hmin c (by omega) hcb
      · rintro ⟨h1, h2, h3, hmin⟩
        have hne : i ≠ b := by rintro rfl; exact hi h3
        exact ⟨by omega, by omega, h3, fun c hc hcb => hmin c (by omega) hcb⟩

theorem scanOne_eq_none_iff {n i : ℕ} :
    scanOne free n i = none ↔ ∀ c, i ≤ c → c < i + n → free c = false := by
  induction n generalizing i with
  | zero => simp only [scanOne, true_iff]; intro c hc hcn; omega
  | succ n ih =>
    rw [scanOne]
    by_cases hi : free i = true
    · rw [if_pos hi]
      refine ⟨by simp, fun h => ?_⟩
      exact absurd (h i (Nat.le_refl _) (by omega)) (by simp [hi])
    · rw [if_neg hi, ih]
      constructor
      · intro h c hc hcn
        rcases Nat.eq_or_lt_of_le hc with rfl | hlt
        · simpa using hi
        · exact h c (by omega) (by omega)
      · intro h c hc hcn
        exact h c (by omega) (by omega)

/-! ### The run scan -/

/-- Scan the `n` cells from `i` on for `count` consecutive free ones. `freeCells` is the length of
the run ending just before `i`, and `firstFree` its first cell. -/
def scanRun (free : ℕ → Bool) (count : ℕ) : (n i freeCells : ℕ) → Option ℕ → Option ℕ
  | 0, _, _, _ => none
  | n + 1, i, freeCells, firstFree =>
    if free i then
      let firstFree := if freeCells = 0 then some i else firstFree
      if freeCells + 1 = count then firstFree
      else scanRun free count n (i + 1) (freeCells + 1) firstFree
    else scanRun free count n (i + 1) 0 none

/-- What the scan knows when its cursor is at `i`: the last `freeCells` cells are free, too few for
a run, and no run starts before them. -/
structure ScanInv (free : ℕ → Bool) (bound count i freeCells : ℕ) (firstFree : Option ℕ) :
    Prop where
  le : freeCells ≤ i
  lt : freeCells < count
  run : ∀ k < freeCells, free (i - freeCells + k) = true
  first : 0 < freeCells → firstFree = some (i - freeCells)
  least : ∀ c, IsRun free bound count c → i - freeCells ≤ c

theorem ScanInv.start (hc : 0 < count) : ScanInv free bound count 0 0 none :=
  ⟨Nat.le_refl _, hc, fun k hk => by omega, fun h => by omega, fun c _ => by omega⟩

/-- A free cell extends the run. -/
theorem ScanInv.extend {i fc : ℕ} {ff : Option ℕ} (h : ScanInv free bound count i fc ff)
    (hi : free i = true) (hne : fc + 1 ≠ count) :
    ScanInv free bound count (i + 1) (fc + 1) (if fc = 0 then some i else ff) := by
  have hle := h.le
  have hlt := h.lt
  have hsub : i + 1 - (fc + 1) = i - fc := by omega
  refine ⟨by omega, by omega, fun k hk => ?_, fun _ => ?_, fun c hc => ?_⟩
  · rw [hsub]
    rcases Nat.eq_or_lt_of_le (Nat.lt_succ_iff.mp hk) with rfl | hk'
    · rw [Nat.sub_add_cancel hle]; exact hi
    · exact h.run k hk'
  · rw [hsub]
    rcases Nat.eq_zero_or_pos fc with rfl | hpos
    · simp
    · rw [if_neg (by omega), h.first hpos]
  · rw [hsub]; exact h.least c hc

/-- A cell in use ends the run, and no run can start at or before it. -/
theorem ScanInv.reset {i fc : ℕ} {ff : Option ℕ} (h : ScanInv free bound count i fc ff)
    (hi : free i = false) : ScanInv free bound count (i + 1) 0 none := by
  have hlt := h.lt
  refine ⟨by omega, by omega, fun k hk => by omega, fun h => by omega, fun c hc => ?_⟩
  by_contra hcon
  -- a run from `c ≤ i` is too long to end before `i`, so it contains `i`
  have hge := h.least c hc
  have := hc.2 (i - c) (by omega)
  rw [show c + (i - c) = i by omega, hi] at this
  exact Bool.false_ne_true this

/-- A run that reaches the wanted length is the least one. -/
theorem ScanInv.found {i fc : ℕ} {ff : Option ℕ} (h : ScanInv free bound count i fc ff)
    (hi : free i = true) (hbound : i < bound) (heq : fc + 1 = count) :
    ∃ b, (if fc = 0 then some i else ff) = some b ∧ IsLeastRun free bound count b := by
  have hle := h.le
  refine ⟨i - fc, ?_, ⟨⟨by omega, fun k hk => ?_⟩, h.least⟩⟩
  · rcases Nat.eq_zero_or_pos fc with rfl | hpos
    · simp
    · rw [if_neg (by omega), h.first hpos]
  · rcases Nat.lt_or_ge k fc with hk' | hk'
    · exact h.run k hk'
    · rw [show i - fc + k = i by omega]; exact hi

theorem scanRun_spec {n i fc : ℕ} {ff : Option ℕ} (h : ScanInv free (i + n) count i fc ff) :
    (∃ b, scanRun free count n i fc ff = some b ∧ IsLeastRun free (i + n) count b) ∨
      scanRun free count n i fc ff = none ∧ ∀ c, ¬ IsRun free (i + n) count c := by
  induction n generalizing i fc ff with
  | zero =>
    refine Or.inr ⟨rfl, fun c hc => ?_⟩
    have := h.least c hc
    have := h.lt
    have := h.le
    have := hc.1
    omega
  | succ n ih =>
    have hb : i + (n + 1) = i + 1 + n := by omega
    rw [hb] at h ⊢
    rw [scanRun]
    by_cases hi : free i = true
    · rw [if_pos hi]
      by_cases heq : fc + 1 = count
      · obtain ⟨b, hbe, hleast⟩ := h.found hi (by omega) heq
        exact Or.inl ⟨b, by simp only [heq, if_true, hbe], hleast⟩
      · simp only [heq, if_false]
        exact ih (h.extend hi heq)
    · rw [if_neg hi]
      exact ih (h.reset (by simpa using hi))

/-- What the scan of the whole bitmap does. -/
theorem scanRun_cases (n : ℕ) (hc : 0 < count) :
    (∃ b, scanRun free count n 0 0 none = some b ∧ IsLeastRun free n count b) ∨
      (scanRun free count n 0 0 none = none ∧ ∀ c, ¬ IsRun free n count c) := by
  have hspec := scanRun_spec (@ScanInv.start free (0 + n) count hc)
  rwa [Nat.zero_add] at hspec

theorem scanRun_eq_some_iff {n b : ℕ} (hc : 0 < count) :
    scanRun free count n 0 0 none = some b ↔ IsLeastRun free n count b := by
  rcases scanRun_cases n hc with ⟨c, hsome, hleast⟩ | ⟨hnone, hno⟩
  · rw [hsome, Option.some_inj]
    exact ⟨fun h => h ▸ hleast, fun h => hleast.unique h⟩
  · rw [hnone]
    exact ⟨fun h => by simp at h, fun h => absurd h.1 (hno b)⟩

theorem scanRun_eq_none_iff {n : ℕ} (hc : 0 < count) :
    scanRun free count n 0 0 none = none ↔ ∀ c, ¬ IsRun free n count c := by
  rcases scanRun_cases n hc with ⟨c, hsome, hleast⟩ | ⟨hnone, hno⟩
  · rw [hsome]
    exact ⟨fun h => by simp at h, fun h => absurd hleast.1 (h c)⟩
  · exact ⟨fun _ => hno, fun _ => hnone⟩

end FirstFit
