import Mathlib.Data.Nat.Init
import Mathlib.Logic.Relation
import Mathlib.Tactic.Common

/-!
# Loops and runs

The three shapes of bounded `for` loop a C program uses — to the end, until a condition fails,
until the body aborts — and the finite runs of a labelled step relation, each with the one
induction its clients need. Everything a proof has to say about a loop is its invariant; the
induction is here.

## Main results

* `Loop.forRange_inv`, `Loop.forWhile_inv`, `Loop.tryRange_inv`
* `Loop.tryRange_inv_ok` — an invariant under which the loop is not aborted
* `Run.Reaches.invariant` — an invariant kept by every step holds wherever a run ends

## Conventions

The counter of a `for` loop is a natural number, and the loop is given where it begins and how many
turns it has at most. So these loops end by themselves, and a program whose counter could wrap, or
whose bound is computed on the way, has to show that it does not before it is modelled by one of
them. Loops that may go on for ever are in `Lib/While.lean`.

A run is reflexive and transitive: no step is a run too, and so an invariant that a run keeps is to
hold where it starts. The labels of the steps are forgotten; a result about what was done along a
run needs a state that keeps it.
-/

namespace Loop

variable {σ ε : Type*}

/-- `for (i = a; i < a + n; i++) s = body(i, s)`: a loop whose number of turns is known before it
begins, and which needs no fuel. -/
def forRange (body : ℕ → σ → σ) : (n a : ℕ) → σ → σ
  | 0, _, s => s
  | n + 1, a, s => forRange body n (a + 1) (body a s)

/-- `for (i = a; i < a + n && cond(i, s); i++) s = body(i, s)`: a loop with at most `n` turns, which
the condition may end before. -/
def forWhile (cond : ℕ → σ → Bool) (body : ℕ → σ → σ) : (n a : ℕ) → σ → σ
  | 0, _, s => s
  | n + 1, a, s => if cond a s then forWhile cond body n (a + 1) (body a s) else s

/-- `for (i = a; i < a + n; i++)` with a body that may abort the loop by `Except.error`. -/
def tryRange (body : ℕ → σ → Except ε σ) : (n a : ℕ) → σ → Except ε σ
  | 0, _, s => .ok s
  | n + 1, a, s =>
    match body a s with
    | .ok s => tryRange body n (a + 1) s
    | .error e => .error e

/-- A postcondition for both ways a computation can end. -/
def Post (P : σ → Prop) (Q : ε → Prop) : Except ε σ → Prop
  | .ok s => P s
  | .error e => Q e

@[simp] theorem post_ok {P : σ → Prop} {Q : ε → Prop} {s : σ} :
    Post P Q (.ok s) ↔ P s := Iff.rfl

@[simp] theorem post_error {P : σ → Prop} {Q : ε → Prop} {e : ε} :
    Post P Q (.error e) ↔ Q e := Iff.rfl

theorem Post.imp {P P' : σ → Prop} {Q : ε → Prop} {x : Except ε σ} (h : Post P Q x)
    (hP : ∀ s, P s → P' s) : Post P' Q x := by
  cases x with
  | ok s => exact hP s h
  | error e => exact h

theorem forRange_inv (body : ℕ → σ → σ) (P : ℕ → σ → Prop) {n a : ℕ} {s : σ} (h : P a s)
    (hstep : ∀ i s, a ≤ i → i < a + n → P i s → P (i + 1) (body i s)) :
    P (a + n) (forRange body n a s) := by
  induction n generalizing a s with
  | zero => exact h
  | succ n ih =>
    rw [show a + (n + 1) = a + 1 + n by omega]
    exact ih (hstep a s (Nat.le_refl _) (by omega) h)
      fun i s hi hin => hstep i s (by omega) (by omega)

/-- The last iteration of a loop, split off. -/
theorem forRange_succ (body : ℕ → σ → σ) (n a : ℕ) (s : σ) :
    forRange body (n + 1) a s = body (a + n) (forRange body n a s) := by
  induction n generalizing a s with
  | zero => rfl
  | succ n ih =>
    rw [forRange, ih, forRange, show a + 1 + n = a + (n + 1) by omega]

theorem forWhile_inv (cond : ℕ → σ → Bool) (body : ℕ → σ → σ) (P : ℕ → σ → Prop) {n a : ℕ}
    {s : σ} (h : P a s)
    (hstep : ∀ i s, a ≤ i → i < a + n → cond i s = true → P i s → P (i + 1) (body i s)) :
    ∃ i, a ≤ i ∧ i ≤ a + n ∧ P i (forWhile cond body n a s) ∧
      (i < a + n → cond i (forWhile cond body n a s) = false) := by
  induction n generalizing a s with
  | zero => exact ⟨a, Nat.le_refl _, Nat.le_refl _, h, fun hlt => by omega⟩
  | succ n ih =>
    rw [forWhile]
    by_cases hc : cond a s = true
    · rw [if_pos hc]
      obtain ⟨i, hai, hin, hP, hstop⟩ := ih (hstep a s (Nat.le_refl _) (by omega) hc h)
        fun i s hi hin => hstep i s (by omega) (by omega)
      exact ⟨i, by omega, by omega, hP, fun hlt => hstop (by omega)⟩
    · rw [if_neg hc]
      exact ⟨a, Nat.le_refl _, by omega, h, fun _ => by simpa using hc⟩

/-- The last iteration of a loop, split off. -/
theorem tryRange_succ (body : ℕ → σ → Except ε σ) (n a : ℕ) (s : σ) :
    tryRange body (n + 1) a s = (tryRange body n a s).bind (body (a + n)) := by
  induction n generalizing a s with
  | zero =>
    simp only [tryRange, Except.bind, Nat.add_zero]
    cases body a s <;> rfl
  | succ n ih =>
    have hnext : ∀ t, tryRange body (n + 1) (a + 1) t =
        (tryRange body n (a + 1) t).bind (body (a + (n + 1))) := fun t => by
      rw [ih, show a + 1 + n = a + (n + 1) by omega]
    rw [tryRange, tryRange]
    cases body a s with
    | ok t => exact hnext t
    | error e => rfl

/-- A loop ends with success if each iteration that is reached does. -/
theorem tryRange_ok {body : ℕ → σ → Except ε σ} {n a : ℕ} {s : σ}
    (h : ∀ i < n, ∀ t, tryRange body i a s = .ok t → ∃ u, body (a + i) t = .ok u) :
    ∃ t, tryRange body n a s = .ok t := by
  induction n with
  | zero => exact ⟨s, rfl⟩
  | succ n ih =>
    obtain ⟨t, ht⟩ := ih fun i hi => h i (by omega)
    obtain ⟨u, hu⟩ := h n (by omega) t ht
    refine ⟨u, ?_⟩
    rw [tryRange_succ, ht]
    exact hu

theorem tryRange_inv (body : ℕ → σ → Except ε σ) (P : ℕ → σ → Prop) (Q : ε → Prop) {n a : ℕ}
    {s : σ} (h : P a s)
    (hstep : ∀ i s, a ≤ i → i < a + n → P i s → Post (P (i + 1)) Q (body i s)) :
    Post (P (a + n)) Q (tryRange body n a s) := by
  induction n generalizing a s with
  | zero => exact h
  | succ n ih =>
    have hbody := hstep a s (Nat.le_refl _) (by omega) h
    rw [tryRange, show a + (n + 1) = a + 1 + n by omega]
    cases hb : body a s with
    | ok t =>
      rw [hb, post_ok] at hbody
      exact ih hbody fun i s hi hin => hstep i s (by omega) (by omega)
    | error e => rwa [hb, post_error] at hbody

theorem tryRange_inv_ok (body : ℕ → σ → Except ε σ) (P : ℕ → σ → Prop) {n a : ℕ} {s : σ} (h : P a s)
    (hstep : ∀ i s, a ≤ i → i < a + n → P i s → ∃ t, body i s = .ok t ∧ P (i + 1) t) :
    ∃ t, tryRange body n a s = .ok t ∧ P (a + n) t := by
  have hpost := tryRange_inv body P (fun _ => False) h fun i s hai hin hs => by
    obtain ⟨t, ht, hnext⟩ := hstep i s hai hin hs
    rw [ht]
    exact hnext
  cases hres : tryRange body n a s with
  | ok t =>
    rw [hres] at hpost
    exact ⟨t, rfl, hpost⟩
  | error e =>
    rw [hres] at hpost
    exact hpost.elim

end Loop

namespace Run

variable {σ ι : Type*}

/-- `t` is reached from `s` by finitely many steps, whatever their labels. -/
def Reaches (step : σ → ι → σ → Prop) : σ → σ → Prop :=
  Relation.ReflTransGen fun s t => ∃ i, step s i t

variable {step : σ → ι → σ → Prop} {s t u : σ}

theorem Reaches.refl (s : σ) : Reaches step s s := Relation.ReflTransGen.refl

theorem Reaches.tail (h : Reaches step s t) {i : ι} (hstep : step t i u) : Reaches step s u :=
  Relation.ReflTransGen.tail h ⟨i, hstep⟩

theorem Reaches.head {i : ι} (hstep : step s i t) (h : Reaches step t u) : Reaches step s u :=
  Relation.ReflTransGen.head ⟨i, hstep⟩ h

/-- **The invariant rule.** -/
theorem Reaches.invariant {I : σ → Prop} (h : Reaches step s t) (h0 : I s)
    (hstep : ∀ a i b, I a → step a i b → I b) : I t := by
  induction h with
  | refl => exact h0
  | tail _ hab ih =>
    obtain ⟨i, hi⟩ := hab
    exact hstep _ i _ ih hi

/-- A step relation that takes fewer steps reaches fewer states. -/
theorem Reaches.mono {step' : σ → ι → σ → Prop} (h : Reaches step s t)
    (hle : ∀ a i b, step a i b → step' a i b) : Reaches step' s t := by
  induction h with
  | refl => exact Reaches.refl s
  | tail _ hab ih =>
    obtain ⟨i, hi⟩ := hab
    exact ih.tail (hle _ i _ hi)

/-- A list of labels, one step after the other. -/
theorem Reaches.of_foldlM {ε : Type*} {f : σ → ι → Except ε σ} {l : List ι}
    (h : l.foldlM f s = .ok t) : Reaches (fun s i t => f s i = .ok t) s t := by
  induction l generalizing s with
  | nil => exact Except.ok.inj h ▸ Reaches.refl s
  | cons i l ih =>
    rw [List.foldlM_cons] at h
    cases hi : f s i with
    | error err =>
      rw [hi] at h
      cases h
    | ok u =>
      rw [hi] at h
      exact (ih h).head hi

end Run
