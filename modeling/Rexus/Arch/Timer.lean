import Mathlib.Algebra.Group.Nat.Defs
import Mathlib.Data.Nat.Init
import Mathlib.Logic.Function.Iterate
import Mathlib.Tactic.Common
import Rexus.Lib.While

/-!
# System time

The timer of `arch/x86/hal_x86.c`. The handler counts ticks in 64 bits, and `hal_init_timer` keeps
how many of them are a millisecond, rounded down. A frequency below 1000 leaves zero there, by which
`hal_get_system_time` divides; any other that is not a multiple of 1000 makes a sleep short as soon
as what was rounded away adds up to a tick. The product of `hal_sleep` has 32 bits.

## Main results

* `halSleep_eq` — the ticks that a sleep takes when each `hlt` waits for one
* `timerRight_iff` — the frequencies and times for which the timer is right

## Conventions

The ports of the timer chip are written and not modelled; that it ticks with the frequency asked for
is left to it. Time is ticks: `halSleep` is given how many of them come before each test of its
loop, any numbers. A `hlt` that is woken by another interrupt is a test before which no tick has
come. The loop runs with fuel, and a sleep of which nothing more comes does not return; `TimerRight`
asks only that one that returns does not do so before its time.

`ticks_per_ms` is a word of 32 bits that `hal_init_timer` computes. A division by zero is `none`.
The tick counter has 64 bits, and a sleep whose end is beyond them is one of those that go wrong;
that the counter does not come round while a sleep lasts is not assumed.
-/

namespace Rexus

open Loop

/-- `system_ticks` and `ticks_per_ms`. -/
structure HalTimer where
  systemTicks : UInt64
  ticksPerMs : UInt32

/-- `timer_handler`: one tick is counted, in 64 bits. What the kernel does with the frame and the
end of the interrupt is elsewhere. -/
def timerHandler (s : HalTimer) : HalTimer :=
  { s with systemTicks := s.systemTicks + 1 }

/-- `hal_init_timer`, with what it writes to the ports, or `none` where it divides by zero. -/
def halInitTimer (s : HalTimer) (frequency : UInt32) : Option (HalTimer × List (UInt16 × UInt8)) :=
  if frequency = 0 then none
  else
    let divisor := 1193180 / frequency
    some ({ s with ticksPerMs := frequency / 1000 },
      [(0x43, 0x36), (0x40, (divisor &&& 0xFF).toUInt8),
        (0x40, ((divisor >>> 8) &&& 0xFF).toUInt8)])

/-- `hal_get_system_time`, or `none` where it divides by zero. -/
def halGetSystemTime (s : HalTimer) : Option UInt64 :=
  if s.ticksPerMs = 0 then none else some (s.systemTicks / s.ticksPerMs.toUInt64)

/-- `target_ticks`. -/
def targetTicks (s : HalTimer) (ms : UInt32) : UInt64 :=
  s.systemTicks + (ms * s.ticksPerMs).toUInt64

/-- One test of the loop in `hal_sleep`: the ticks that came since the one before (or since
`target_ticks` was computed), and then the test. What is counted with the state is all ticks of this
sleep and the tests. -/
def sleepTurn (between : ℕ → ℕ) (target : UInt64) :
    HalTimer × ℕ × ℕ → Option (Turn (HalTimer × ℕ × ℕ) ℕ)
  | (s, counted, tests) =>
    let s := timerHandler^[between tests] s
    let counted := counted + between tests
    some (if s.systemTicks < target then .next (s, counted, tests + 1) else .done counted)

/-- `hal_sleep`, when so many ticks come before each of its tests: how many have been counted when
it returns. -/
def halSleep (fuel : ℕ) (between : ℕ → ℕ) (s : HalTimer) (ms : UInt32) : Option ℕ :=
  iterate (sleepTurn between (targetTicks s ms)) fuel (s, 0, 0)

/-- What a timer of a frequency should do, when it has been initialised and some ticks have come:
its time is defined, and a sleep does not return before its ticks have been counted, whenever they
come. -/
def TimerRight (s₀ : HalTimer) (frequency : UInt32) (ticks : ℕ) (ms : UInt32) : Prop :=
  ∃ s ports, halInitTimer s₀ frequency = some (s, ports) ∧
    halGetSystemTime (timerHandler^[ticks] s) ≠ none ∧
    ∀ fuel between counted, halSleep fuel between (timerHandler^[ticks] s) ms = some counted →
      ms.toNat * frequency.toNat / 1000 ≤ counted

/-! ## Ticks -/

@[simp]
theorem ticksPerMs_iterate (n : ℕ) (s : HalTimer) :
    (timerHandler^[n] s).ticksPerMs = s.ticksPerMs := by
  induction n generalizing s with
  | zero => rfl
  | succ n ih => rw [Function.iterate_succ_apply, ih, timerHandler]

theorem systemTicks_iterate (n : ℕ) (s : HalTimer) :
    (timerHandler^[n] s).systemTicks.toNat = (s.systemTicks.toNat + n) % 2 ^ 64 := by
  induction n generalizing s with
  | zero =>
    have hlt := s.systemTicks.toNat_lt
    rw [Function.iterate_zero, id, Nat.add_zero, Nat.mod_eq_of_lt hlt]
  | succ n ih =>
    rw [Function.iterate_succ_apply, ih, timerHandler, UInt64.toNat_add, UInt64.toNat_one]
    omega

/-- The ticks that `hal_sleep` takes a time for, in 32 bits. -/
def sleepTicks (s : HalTimer) (ms : UInt32) : ℕ :=
  ms.toNat * s.ticksPerMs.toNat % 2 ^ 32

theorem toNat_targetTicks (s : HalTimer) (ms : UInt32) :
    (targetTicks s ms).toNat = (s.systemTicks.toNat + sleepTicks s ms) % 2 ^ 64 := by
  rw [targetTicks, UInt64.toNat_add, UInt32.toNat_toUInt64, UInt32.toNat_mul, sleepTicks]

/-! ## Sleeping -/

variable {s : HalTimer} {ms : UInt32} {fuel counted : ℕ} {between : ℕ → ℕ}

/-- A sleep whose target does not wrap waits for all of its ticks. -/
theorem sleepTicks_le (hwrap : s.systemTicks.toNat + sleepTicks s ms < 2 ^ 64)
    (h : halSleep fuel between s ms = some counted) : sleepTicks s ms ≤ counted := by
  have htarget := toNat_targetTicks s ms
  rw [Nat.mod_eq_of_lt hwrap] at htarget
  -- the counter is the one at the call and what has been counted since.
  refine iterate_inv (fun t => t.1.systemTicks.toNat = (s.systemTicks.toNat + t.2.1) % 2 ^ 64)
    (sleepTicks s ms ≤ ·) ?_ ?_ ?_ h
  · have hlt := s.systemTicks.toNat_lt
    rw [Nat.add_zero, Nat.mod_eq_of_lt hlt]
  · rintro ⟨u, c, i⟩ t hu hturn
    rw [sleepTurn, Option.some_inj] at hturn
    split at hturn
    · obtain rfl := (Turn.next.injEq _ _).mp hturn
      have hticks := systemTicks_iterate (between i) u
      dsimp only at hu ⊢
      omega
    · cases hturn
  · rintro ⟨u, c, i⟩ r hu hturn
    rw [sleepTurn, Option.some_inj] at hturn
    split at hturn
    · cases hturn
    · rename_i htest
      obtain rfl := (Turn.done.injEq _ _).mp hturn
      have hticks := systemTicks_iterate (between i) u
      rw [UInt64.lt_iff_toNat_lt, htarget] at htest
      dsimp only at hu
      omega

/-- With one tick for each `hlt`, the rest of a sleep takes the ticks that are missing. -/
theorem iterate_sleepTurn {target : UInt64} {missing : ℕ} (tests : ℕ)
    (h : s.systemTicks.toNat + 1 + missing = target.toNat) :
    iterate (sleepTurn (min 1) target) (missing + 1) (s, counted, tests + 1) =
      some (counted + 1 + missing) := by
  have htarget := target.toNat_lt
  have hone : min 1 (tests + 1) = 1 := by omega
  have htick : (timerHandler s).systemTicks.toNat = s.systemTicks.toNat + 1 := by
    rw [timerHandler, UInt64.toNat_add, UInt64.toNat_one]
    omega
  induction missing generalizing s counted tests with
  | zero =>
    refine iterate_done ?_
    rw [sleepTurn, hone, Function.iterate_one, if_neg]
    rw [UInt64.lt_iff_toNat_lt]
    omega
  | succ missing ih =>
    have hnext : sleepTurn (min 1) target (s, counted, tests + 1) =
        some (.next (timerHandler s, counted + 1, tests + 1 + 1)) := by
      rw [sleepTurn, hone, Function.iterate_one, if_pos]
      rw [UInt64.lt_iff_toNat_lt]
      omega
    rw [iterate_next hnext, ih (tests + 1) (by omega) (by omega)]
    · congr 1
      omega
    · rw [timerHandler, UInt64.toNat_add, htick, UInt64.toNat_one]
      omega

/-- **What a sleep takes** when each `hlt` waits for one tick: nothing, if the target wraps. -/
theorem halSleep_eq (s : HalTimer) (ms : UInt32) :
    halSleep (sleepTicks s ms + 1) (min 1) s ms =
      some (if s.systemTicks.toNat + sleepTicks s ms < 2 ^ 64 then sleepTicks s ms else 0) := by
  have hlt := s.systemTicks.toNat_lt
  have hticks : sleepTicks s ms < 2 ^ 32 := Nat.mod_lt _ (by decide)
  have htarget := toNat_targetTicks s ms
  rw [halSleep]
  by_cases hmore : s.systemTicks < targetTicks s ms
  · have hmoreNat := UInt64.lt_iff_toNat_lt.mp hmore
    obtain ⟨missing, hmissing⟩ : ∃ k, sleepTicks s ms = k + 1 :=
      ⟨sleepTicks s ms - 1, by omega⟩
    have hnext : sleepTurn (min 1) (targetTicks s ms) (s, 0, 0) = some (.next (s, 0, 0 + 1)) := by
      rw [sleepTurn, Nat.min_zero, Function.iterate_zero, id, if_pos hmore]
    rw [iterate_next hnext, hmissing, iterate_sleepTurn 0 (by omega), if_pos (by omega)]
    congr 1
    omega
  · have hdone : sleepTurn (min 1) (targetTicks s ms) (s, 0, 0) = some (.done 0) := by
      rw [sleepTurn, Nat.min_zero, Function.iterate_zero, id, if_neg hmore]
    rw [UInt64.lt_iff_toNat_lt] at hmore
    rw [iterate_done hdone]
    congr 1
    split <;> omega

/-! ## The rounding -/

/-- The ticks of a time: those at the rounded rate, and those of what was rounded away. -/
theorem mul_div_thousand (ms f : ℕ) :
    ms * f / 1000 = ms * (f / 1000) + ms * (f % 1000) / 1000 := by
  conv_lhs => rw [← Nat.div_add_mod f 1000, Nat.mul_add, Nat.mul_left_comm]
  rw [Nat.mul_add_div (by decide)]

/-- The timer that `hal_init_timer` leaves, some ticks later. -/
theorem halInitTimer_iterate {s₀ : HalTimer} {frequency : UInt32} {ports : List (UInt16 × UInt8)}
    (h : halInitTimer s₀ frequency = some (s, ports)) (ticks : ℕ) :
    timerHandler^[ticks] s = ⟨(timerHandler^[ticks] s₀).systemTicks, frequency / 1000⟩ := by
  have hs : s = { s₀ with ticksPerMs := frequency / 1000 } := by
    rw [halInitTimer] at h
    split at h
    · cases h
    · exact (Prod.ext_iff.mp (Option.some_inj.mp h)).1.symm
  have hrate : (timerHandler^[ticks] s).ticksPerMs = frequency / 1000 := by
    rw [ticksPerMs_iterate, hs]
  have hticks : (timerHandler^[ticks] s).systemTicks = (timerHandler^[ticks] s₀).systemTicks := by
    rw [← UInt64.toNat_inj, systemTicks_iterate, systemTicks_iterate, hs]
  cases hlater : timerHandler^[ticks] s with
  | mk systemTicks ticksPerMs =>
    rw [hlater] at hrate hticks
    rw [HalTimer.mk.injEq]
    exact ⟨hticks, hrate⟩

/-- The time is defined when a millisecond has a tick. -/
theorem halGetSystemTime_ne_none_iff (frequency : UInt32) (systemTicks : UInt64) :
    halGetSystemTime ⟨systemTicks, frequency / 1000⟩ ≠ none ↔ 1000 ≤ frequency.toNat := by
  have hrate : frequency / 1000 = 0 ↔ ¬ 1000 ≤ frequency.toNat := by
    rw [← UInt32.toNat_inj, UInt32.toNat_div]
    exact Nat.div_eq_zero_iff.trans (by simp)
  rw [halGetSystemTime]
  split
  · rename_i hzero
    exact iff_of_false (fun h => h rfl) (hrate.mp hzero)
  · rename_i hzero
    exact iff_of_true (Option.some_ne_none _) (not_not.mp (mt hrate.mpr hzero))

theorem sleepTicks_init (systemTicks : UInt64) (frequency ms : UInt32) :
    sleepTicks ⟨systemTicks, frequency / 1000⟩ ms =
      ms.toNat * (frequency.toNat / 1000) % 2 ^ 32 := by
  rw [sleepTicks, UInt32.toNat_div]
  rfl

theorem TimerRight.thousand_le {s₀ : HalTimer} {frequency ms : UInt32} {ticks : ℕ}
    (h : TimerRight s₀ frequency ticks ms) : 1000 ≤ frequency.toNat := by
  obtain ⟨s, ports, hinit, htime, -⟩ := h
  rw [halInitTimer_iterate hinit] at htime
  exact (halGetSystemTime_ne_none_iff frequency _).mp htime

/-- **The timer is right** when the frequency has a millisecond, what is rounded away is less than
one tick, and neither the product nor the sum of `hal_sleep` wraps. -/
theorem timerRight_iff (s₀ : HalTimer) (frequency ms : UInt32) (ticks : ℕ) :
    TimerRight s₀ frequency ticks ms ↔
      1000 ≤ frequency.toNat ∧ ms.toNat * (frequency.toNat % 1000) < 1000 ∧
        ms.toNat * (frequency.toNat / 1000) < 2 ^ 32 ∧
        (timerHandler^[ticks] s₀).systemTicks.toNat + ms.toNat * (frequency.toNat / 1000) <
          2 ^ 64 := by
  have hticks := sleepTicks_init (timerHandler^[ticks] s₀).systemTicks frequency ms
  have hneeded := mul_div_thousand ms.toNat frequency.toNat
  constructor
  · intro h
    refine ⟨h.thousand_le, ?_⟩
    obtain ⟨s, ports, hinit, -, hright⟩ := h
    rw [halInitTimer_iterate hinit] at hright
    have hlt := (timerHandler^[ticks] s₀).systemTicks.toNat_lt
    have hall := hright _ _ _ (halSleep_eq _ ms)
    rw [hticks, hneeded] at hall
    dsimp only at hall
    -- the sleep is short by what was rounded away and by every wrap
    generalize ms.toNat * (frequency.toNat / 1000) = slept at hall ⊢
    generalize ms.toNat * (frequency.toNat % 1000) = rest at hall ⊢
    split at hall <;> omega
  · rintro ⟨hthousand, hrest, hproduct, hsum⟩
    have hne : frequency ≠ 0 := by
      rintro rfl
      exact absurd hthousand (by decide)
    refine ⟨_, _, by rw [halInitTimer, if_neg hne], ?_⟩
    rw [halInitTimer_iterate (by rw [halInitTimer, if_neg hne])]
    refine ⟨(halGetSystemTime_ne_none_iff frequency _).mpr hthousand, ?_⟩
    intro fuel between counted h
    rw [Nat.mod_eq_of_lt hproduct] at hticks
    have hcounted := sleepTicks_le (by rw [hticks]; exact hsum) h
    rw [hneeded, Nat.div_eq_of_lt hrest]
    omega

/-- A hundred ticks a second: no millisecond has one. -/
theorem not_timerRight :
    ¬ ∀ frequency : UInt32, 1 ≤ frequency.toNat → frequency.toNat ≤ 1193180 →
      ∀ s₀ ms ticks, TimerRight s₀ frequency ticks ms := by
  intro h
  exact absurd (h 100 (by decide) (by decide) ⟨0, 0⟩ 10 0).thousand_le (by decide)

/-- At 1193 ticks a second, a second ends when 1000 have been counted. -/
example : sleepTicks ⟨0, 1193 / 1000⟩ 1000 = 1000 := rfl

end Rexus
