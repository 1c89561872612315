import Mathlib.Algebra.GroupWithZero.Nat
import Mathlib.Logic.Function.Basic
import Mathlib.Tactic.Common

/-!
# A stack of words

A stack that grows down, in a memory of words of 32 bits. Addresses wrap around; a stack of fewer
than `2 ^ 30` words does not come to its own beginning. All words of a stack lie at the same offset
from a multiple of four, so a word is written as a whole.

## Main results

* `WordStack.StackAt.push` — a word is pushed
* `WordStack.StackAt.get` — the word at a place

## Conventions

Addresses are words of `32` bits and memory is a map from them to words; the address of a word need
not be a multiple of four, but all words of one stack have the same remainder, and a word at another
remainder, which would overlap two of them, is not spoken of. The top of the stack is the lowest
address, and the list of its words has the top first.

A stack says nothing of the memory below it, which a push overwrites, and nothing of what is above
its last word.
-/

namespace WordStack

/-- The words from this address on. -/
def StackAt (m : UInt32 → UInt32) : UInt32 → List UInt32 → Prop
  | _, [] => True
  | a, w :: ws => m a = w ∧ StackAt m (a + 4) ws

variable {m m' : UInt32 → UInt32} {a : UInt32} {w : UInt32} {ws : List UInt32}

@[simp] theorem stackAt_nil : StackAt m a [] := trivial

@[simp] theorem stackAt_cons : StackAt m a (w :: ws) ↔ m a = w ∧ StackAt m (a + 4) ws := Iff.rfl

theorem first_place (a : UInt32) : a + UInt32.ofNat (4 * 0) = a := UInt32.add_zero a

theorem succ_place (a : UInt32) (k : ℕ) :
    a + 4 + UInt32.ofNat (4 * k) = a + UInt32.ofNat (4 * (k + 1)) := by
  rw [UInt32.add_assoc, Nat.mul_succ, Nat.add_comm (4 * k), UInt32.ofNat_add]
  rfl

theorem StackAt.get (h : StackAt m a ws) {k : ℕ} (hk : k < ws.length) :
    m (a + UInt32.ofNat (4 * k)) = ws[k] := by
  induction ws generalizing a k with
  | nil => exact absurd hk (Nat.not_lt_zero k)
  | cons w ws ih =>
    cases k with
    | zero => rw [first_place]; exact h.1
    | succ k =>
      rw [← succ_place]
      exact ih h.2 (Nat.lt_of_succ_lt_succ hk)

/-- The part at the top. -/
theorem StackAt.left {vs : List UInt32} (h : StackAt m a (ws ++ vs)) : StackAt m a ws := by
  induction ws generalizing a with
  | nil => trivial
  | cons w ws ih => exact ⟨h.1, ih h.2⟩

/-- The stack is left as it is where its words are. -/
theorem StackAt.congr (h : StackAt m a ws)
    (heq : ∀ k < ws.length, m' (a + UInt32.ofNat (4 * k)) = m (a + UInt32.ofNat (4 * k))) :
    StackAt m' a ws := by
  induction ws generalizing a with
  | nil => trivial
  | cons w ws ih =>
    refine ⟨?_, ih h.2 fun k hk => ?_⟩
    · have hzero := heq 0 (Nat.succ_pos _)
      rw [first_place] at hzero
      exact hzero.trans h.1
    · rw [succ_place]
      exact heq (k + 1) (Nat.succ_lt_succ hk)

/-- The place below a stack is not in it. -/
theorem place_ne (a : UInt32) {k : ℕ} (hk : k + 1 < 2 ^ 30) :
    a + UInt32.ofNat (4 * k) ≠ a - 4 := by
  intro heq
  have hnext : a + UInt32.ofNat (4 * (k + 1)) = a := by
    rw [Nat.mul_succ, UInt32.ofNat_add, ← UInt32.add_assoc, heq]
    exact UInt32.sub_add_cancel a 4
  have hnat := congrArg UInt32.toNat hnext
  have ha := a.toNat_lt
  rw [UInt32.toNat_add, UInt32.toNat_ofNat'] at hnat
  omega

theorem StackAt.push (h : StackAt m a ws) (hlen : ws.length < 2 ^ 30) (w : UInt32) :
    StackAt (Function.update m (a - 4) w) (a - 4) (w :: ws) := by
  refine ⟨Function.update_self .., ?_⟩
  rw [UInt32.sub_add_cancel]
  refine h.congr fun k hk => ?_
  rw [Function.update_of_ne (place_ne a (by omega))]

end WordStack
