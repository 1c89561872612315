import Mathlib.Data.Nat.Init
import Mathlib.Tactic.Common

/-!
# Loops without a bound

A `while` or `do`-`while` loop is run with fuel: `none` says that the fuel has run out, or that the
body itself has not returned. A result does not depend on the fuel that gave it, so "the loop
returns" is that some fuel gives a result, and a loop that does not return gives none for any fuel.

## Main results

* `Loop.iterate_mono` — more fuel, the same result
* `Loop.iterate_inv` — an invariant of the turns, for the result of a loop that returns
* `Loop.iterate_eq_none` — an invariant under which no turn is the last

## Conventions

A turn is a function of the state that goes on or leaves, or has no result itself. Fuel counts
turns, that of the test that fails included: a loop whose body is never run takes one turn. `none`
does not tell a loop that needs more fuel from a body that fails at every fuel; where a program can
fail, the failure is a result of the loop and has a name of its own.

So a theorem that a loop returns is stated for all fuels above a bound, and a theorem that it does
not for all fuels.
-/

namespace Loop

variable {σ ρ : Type*}

/-- What one turn of a loop does: go on from a state, or leave with a result. -/
inductive Turn (σ ρ : Type*) where
  | next (s : σ)
  | done (r : ρ)

/-- A loop, for at most the given number of turns. -/
def iterate (body : σ → Option (Turn σ ρ)) : ℕ → σ → Option ρ
  | 0, _ => none
  | n + 1, s =>
    match body s with
    | none => none
    | some (.done r) => some r
    | some (.next t) => iterate body n t

variable {body body' : σ → Option (Turn σ ρ)} {n m : ℕ} {s t : σ} {r r' : ρ}

theorem iterate_done (h : body s = some (.done r)) : iterate body (n + 1) s = some r := by
  rw [iterate, h]

theorem iterate_next (h : body s = some (.next t)) :
    iterate body (n + 1) s = iterate body n t := by
  rw [iterate, h]

/-- More fuel, for the loop and for its body, gives the same result. -/
theorem iterate_mono (hbody : ∀ s t, body s = some t → body' s = some t) (hnm : n ≤ m)
    (h : iterate body n s = some r) : iterate body' m s = some r := by
  induction n generalizing m s with
  | zero => cases h
  | succ n ih =>
    obtain ⟨m, rfl⟩ : ∃ k, m = k + 1 := ⟨m - 1, by omega⟩
    cases hs : body s with
    | none =>
      rw [iterate, hs] at h
      cases h
    | some turn =>
      cases turn with
      | done r' =>
        rw [iterate_done hs] at h
        rw [iterate_done (hbody _ _ hs), h]
      | next t =>
        rw [iterate_next hs] at h
        rw [iterate_next (hbody _ _ hs)]
        exact ih (by omega) h

/-- Two results of one loop agree. -/
theorem iterate_unique (h : iterate body n s = some r) (h' : iterate body m s = some r') :
    r = r' := by
  have hid : ∀ s t, body s = some t → body s = some t := fun _ _ => id
  have hn := iterate_mono hid (Nat.le_max_left n m) h
  have hm := iterate_mono hid (Nat.le_max_right n m) h'
  exact Option.some_inj.mp (hn.symm.trans hm)

/-- The invariant rule. -/
theorem iterate_inv (P : σ → Prop) (Q : ρ → Prop) (hs : P s)
    (hnext : ∀ s t, P s → body s = some (.next t) → P t)
    (hdone : ∀ s r, P s → body s = some (.done r) → Q r) (h : iterate body n s = some r) :
    Q r := by
  induction n generalizing s with
  | zero => cases h
  | succ n ih =>
    cases hbs : body s with
    | none =>
      rw [iterate, hbs] at h
      cases h
    | some turn =>
      cases turn with
      | done r' =>
        rw [iterate_done hbs] at h
        exact Option.some_inj.mp h ▸ hdone s r' hs hbs
      | next t =>
        rw [iterate_next hbs] at h
        exact ih (hnext s t hs hbs) h

/-- A loop none of whose turns is the last. -/
theorem iterate_eq_none (P : σ → Prop) (hs : P s)
    (hstep : ∀ s, P s → body s = none ∨ ∃ t, body s = some (.next t) ∧ P t) (n : ℕ) :
    iterate body n s = none := by
  induction n generalizing s with
  | zero => rfl
  | succ n ih =>
    rcases hstep s hs with hbs | ⟨t, hbs, ht⟩
    · rw [iterate, hbs]
    · rw [iterate_next hbs]
      exact ih ht

end Loop
