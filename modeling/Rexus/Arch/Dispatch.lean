import Rexus.Arch.Stubs

/-!
# Which interrupts get to their handlers

From the delivery of a vector to the call of the handler that is registered for it: the processor
and the stub as in `Rexus.Arch.Stubs`, and then the C function that the stub calls, `isr_handler`
for an exception and `irq_handler` for a request.

Two things stand between a vector and its handler. `isr_handler` halts on every number below 32.
And both functions take their argument from where a caller leaves it, but the stubs push none: the
argument is the first word of the frame itself, in which the stub has saved `ds` in the lower half
of `eax`. Only if that word happens to be the address of the frame does the function find the number
of the interrupt, and the handler the frame.

## Main results

* `interrupt_eq` — what the C function is given
* `isr_dispatch_iff` — which vectors get to their handlers

## Scope

The processor is in the kernel, as in `Rexus.Arch.Stubs`: an interrupt does not change the stack.
Registrations are made with any numbers; `irq_register_handler` is asked for a line, and its callers
in the kernel give it a vector, with `irqRegisterHandler_of_vector` as the consequence.
-/

namespace Rexus

/-- The C function that the stub of `v` calls, entered in this state, and the ports it writes. -/
def callHandler (handlers : InterruptHandlers) (v : ℕ) (entry : Cpu) :
    List (UInt16 × UInt8) × IsrOutcome :=
  if v < 32 then ([], isrHandler handlers entry.mem entry.argument)
  else irqHandler handlers entry.mem entry.argument

/-- A vector is delivered, and its stub calls the C function. -/
def interrupt (stub : ℕ → UInt32) (back : UInt32) (handlers : InterruptHandlers) (v : ℕ)
    (err : UInt32) (c : Cpu) : Option (List (UInt16 × UInt8) × IsrOutcome) :=
  (handlerEntry (idtInit stub) back v err c).map (callHandler handlers v)

/-- The handler registered last for the vector, if there is one, is called with the address of the
frame. -/
def Dispatched (calls : List RegisterCall) (stub : ℕ → UInt32) (back : UInt32) (v : ℕ)
    (err : UInt32) (c : Cpu) : Prop :=
  registeredLast calls v ≠ 0 → ∃ entry ports,
    handlerEntry (idtInit stub) back v err c = some entry ∧
      interrupt stub back (interruptHandlers calls) v err c =
        some (ports, .called (registeredLast calls v) (entry.esp + 4))

/-- The C function is given the first word of the frame. -/
theorem interrupt_eq (stub : ℕ → UInt32) (back : UInt32) (handlers : InterruptHandlers) {v : ℕ}
    (hv : v < 48) (err : UInt32) (c : Cpu) :
    ∃ entry, handlerEntry (idtInit stub) back v err c = some entry ∧ Enters v err c entry ∧
      entry.argument = Cpu.withLow c.eax c.ds ∧ entry.esp + 4 = c.esp - 56 ∧
      interrupt stub back handlers v err c = some (callHandler handlers v entry) := by
  obtain ⟨entry, hentry, henters, hargument, hframe⟩ := handlerEntry_argument stub back hv err c
  refine ⟨entry, hentry, henters, hargument, hframe, ?_⟩
  rw [interrupt, hentry, Option.map_some]

/-- What a C function calls, it calls with its own argument. -/
theorem argument_of_called {handlers : InterruptHandlers} {v handler : ℕ} {entry : Cpu}
    {regs : UInt32} (h : (callHandler handlers v entry).2 = .called handler regs) :
    regs = entry.argument := by
  rw [callHandler] at h
  split_ifs at h
  · rw [isrHandler] at h
    dsimp only at h
    split_ifs at h
    exact (IsrOutcome.called.inj h).2.symm
  · rw [irqHandler] at h
    dsimp only at h
    split_ifs at h
    exact (IsrOutcome.called.inj h).2.symm

section

variable {handlers : InterruptHandlers} {v handler : ℕ} {err : UInt32} {c entry : Cpu}
  {regs : UInt32}

/-- With the address of the frame the function reads the vector. -/
theorem intNo_of_argument (henters : Enters v err c entry) (heq : entry.argument = entry.esp + 4)
    (hv : v < 48) : (frameAt entry.mem entry.argument).intNo.toNat = v := by
  rw [heq, henters.frame]
  exact UInt32.toNat_ofNat_of_lt' (Nat.lt_trans hv (by decide))

/-- An exception is not handed on with its frame. -/
theorem not_called_of_exception (henters : Enters v err c entry) (hv : v < 32)
    (h : (callHandler handlers v entry).2 = .called handler regs) : regs ≠ entry.esp + 4 := by
  intro hregs
  have heq : entry.argument = entry.esp + 4 := (argument_of_called h).symm.trans hregs
  rw [callHandler, if_pos hv, isrHandler] at h
  dsimp only at h
  rw [intNo_of_argument henters heq (Nat.lt_trans hv (by decide)), if_pos hv] at h
  cases h

end

/-- **A vector gets to its handler** exactly if it has none, or is a request and the word that was
in `ds` and the upper half of `eax` is the address of the frame. -/
theorem isr_dispatch_iff (calls : List RegisterCall) (stub : ℕ → UInt32) (back : UInt32) {v : ℕ}
    (hv : v < 48) (err : UInt32) (c : Cpu) :
    Dispatched calls stub back v err c ↔
      registeredLast calls v = 0 ∨ (32 ≤ v ∧ Cpu.withLow c.eax c.ds = c.esp - 56) := by
  obtain ⟨entry, hentry, henters, hargument, hframe, hinterrupt⟩ :=
    interrupt_eq stub back (interruptHandlers calls) hv err c
  constructor
  · intro hdispatched
    by_cases hnone : registeredLast calls v = 0
    · exact Or.inl hnone
    obtain ⟨entry', ports, hentry', hcalled⟩ := hdispatched hnone
    obtain rfl := Option.some_inj.mp (hentry.symm.trans hentry')
    have hcall := congrArg Prod.snd (Option.some_inj.mp (hinterrupt.symm.trans hcalled))
    refine Or.inr ⟨Nat.le_of_not_lt fun hlt => not_called_of_exception henters hlt hcall rfl, ?_⟩
    rw [← hargument, ← argument_of_called hcall, hframe]
  · rintro (hnone | ⟨hge, hword⟩) hregistered
    · exact absurd hnone hregistered
    have heq : entry.argument = entry.esp + 4 := by rw [hargument, hframe, hword]
    have hhandler := interruptHandlers_eq calls hge (Nat.lt_trans hv (by decide))
    have hcall : (callHandler (interruptHandlers calls) v entry).2 =
        .called (registeredLast calls v) (entry.esp + 4) := by
      rw [callHandler, if_neg (Nat.not_lt.mpr hge), irqHandler]
      dsimp only
      rw [intNo_of_argument henters heq hv, if_neg (by omega), hhandler, if_pos hregistered, heq]
    exact ⟨entry, _, hentry, hinterrupt.trans (congrArg some (Prod.ext rfl hcall))⟩

/-- A processor with its stack where `ds` and the upper half of `eax` point to. -/
def luckyCpu : Cpu := { idleCpu with eax := 0x00100000, esp := 0x00100048 }

/-- The timer, registered by its line, when the stack happens to lie right. -/
theorem isr_dispatch_timer : Dispatched [.irq 0 4096] UInt32.ofNat 0 32 0 luckyCpu :=
  (isr_dispatch_iff [.irq 0 4096] UInt32.ofNat 0 (by decide) 0 luckyCpu).mpr
    (Or.inr ⟨by decide, by decide⟩)

/-- The page fault handler of `vmm_init` is not called even then; and the timer's is not in a
processor that waits. -/
theorem not_dispatched_pageFault : ¬ Dispatched [.isr 14 4096] UInt32.ofNat 0 14 0 luckyCpu ∧
    ¬ Dispatched [.irq 0 4096] UInt32.ofNat 0 32 0 idleCpu := by
  refine ⟨fun hdispatched => ?_, fun hdispatched => ?_⟩
  · obtain ⟨entry, hentry, henters, -, -, hinterrupt⟩ := interrupt_eq UInt32.ofNat 0
      (interruptHandlers [.isr 14 4096]) (by decide : 14 < 48) 0 luckyCpu
    obtain ⟨entry', ports, hentry', hcalled⟩ := hdispatched (by decide)
    obtain rfl := Option.some_inj.mp (hentry.symm.trans hentry')
    have hcall := congrArg Prod.snd (Option.some_inj.mp (hinterrupt.symm.trans hcalled))
    exact not_called_of_exception henters (by decide) hcall rfl
  · obtain ⟨entry, hentry, -, hargument, hframe, hinterrupt⟩ := interrupt_eq UInt32.ofNat 0
      (interruptHandlers [.irq 0 4096]) (by decide : 32 < 48) 0 idleCpu
    obtain ⟨entry', ports, hentry', hcalled⟩ := hdispatched (by decide)
    obtain rfl := Option.some_inj.mp (hentry.symm.trans hentry')
    have hcall := congrArg Prod.snd (Option.some_inj.mp (hinterrupt.symm.trans hcalled))
    have hword := argument_of_called hcall
    rw [hargument, hframe] at hword
    exact absurd hword (by decide)

end Rexus
