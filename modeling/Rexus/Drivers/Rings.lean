import Mathlib.Data.Fintype.Pi
import Rexus.Drivers.Can
import Rexus.Drivers.Keyboard
import Rexus.Lib.Run

/-!
# The rings of the drivers

The keyboard and the CAN driver keep three rings, written three times in the same way. Each is a
queue that takes an item unless one slot less than it has is taken, whatever its producer and its
consumer do and in whatever order: also where the one is called by the other, as
`can_send_frame` calls `can_process_tx_interrupt`.

A run carries what each ring has accepted and what has left it. Besides that history, each producer
and each consumer is asked for its answer in the state reached. A producer is given one item, or, as
`can_process_rx_interrupt` is, the items that have arrived: of these it takes the valid ones as long
as there is room. A consumer takes the oldest item there is, and `can_process_tx_interrupt` as many
as the mailbox is empty for. Where nothing is taken, nothing changes.

## Main results

* `RefusesWhenFull`, `TakesWhatFits` — a producer, of one item and of several
* `GivesOldest` — a consumer
* `rings_fifo` — in every run, what has been consumed and what is pending is what was accepted, and
  the producers and the consumers answer as they are to

## Scope

Each operation is one step: an interrupt does not come between two statements of a call. The driver
of the CAN is the ARM build, in which the two interrupts do something. What `CAN_TSR_TME0` reads as
is given to the operations that read it, one value for each time they do, and behind the end of the
list the mailbox is not empty. `keyboard_read_key` returns `0` where there is no key, which could be
the code of a key too; so a key counts as read if the tail has moved.
-/

namespace Rexus

open Run

/-- How a queue of this capacity is to answer in the state `s`, where `items` is pending: an item is
refused exactly when the queue is full, and then nothing changes. -/
structure RefusesWhenFull {σ α : Type} (cap : ℕ) (valid : α → Prop) (items : List α)
    (offer : α → Bool × σ) (s : σ) : Prop where
  length_le : items.length ≤ cap
  refused_iff : ∀ a, valid a → ((offer a).1 = false ↔ items.length = cap)
  unchanged : ∀ a, (offer a).1 = false → (offer a).2 = s

/-- How it is to answer where items arrive one behind the other: those that are valid are taken as
long as there is room, and become pending in their order; if none is, nothing changes. -/
structure TakesWhatFits {σ α : Type} (cap : ℕ) (valid : α → Bool) (pending : σ → List α)
    (offer : List α → List α × σ) (s : σ) : Prop where
  length_le : (pending s).length ≤ cap
  taken : ∀ as, (offer as).1 = (as.filter valid).take (cap - (pending s).length)
  kept : ∀ as, pending (offer as).2 = pending s ++ (offer as).1
  unchanged : ∀ as, (offer as).1 = [] → (offer as).2 = s

/-- How a consumer is to answer: the first `n` pending items are taken out, or all if there are
fewer; and if there are none, nothing changes. -/
structure GivesOldest {σ α : Type} (n : ℕ) (pending : σ → List α) (out : List α × σ) (s : σ) :
    Prop where
  given : out.1 = (pending s).take n
  kept : pending out.2 = (pending s).drop n
  unchanged : pending s = [] → out.2 = s

/-- A queue that is kept in a ring, and whose answer is whether the ring has room. -/
theorem RefusesWhenFull.of_put {σ α : Type} {n : ℕ} {r : RingBuffer n α} {valid : α → Prop}
    {offer : α → Bool × σ} {s : σ} (hput : ∀ a, valid a → (offer a).1 = (r.put a).isSome)
    (hsame : ∀ a, (offer a).1 = false → (offer a).2 = s) :
    RefusesWhenFull (n - 1) valid r.items offer s where
  length_le := by
    have hlt := r.count_lt
    rw [RingBuffer.length_items]
    omega
  refused_iff a ha := by
    have hlt := r.count_lt
    rw [hput a ha, Option.isSome_eq_false_iff, Option.isNone_iff_eq_none,
      RingBuffer.put_eq_none_iff, RingBuffer.length_items]
    omega
  unchanged := hsame

/-! ### The keyboard -/

/-- The keyboard, the keys its ring has accepted, and those that have been read. -/
structure KeyTraffic where
  keyboard : Keyboard
  accepted : List UInt16
  consumed : List UInt16

/-- A call on the ring. -/
inductive KeyRingOp where
  | enqueue (key : UInt16)
  | readKey

/-- `keyboard_read_key`, and the key if one has been read: then the tail has moved. -/
def keyboardTake (k : Keyboard) : List UInt16 × Keyboard :=
  let (key, k') := keyboardReadKey k
  (if k'.buffer.tail ≠ k.buffer.tail then [key] else [], k')

/-- `keyboard_buffer_enqueue`, and whether it has put the key into the ring: then the head has
moved. -/
def keyboardOffer (k : Keyboard) (key : UInt16) : Bool × Keyboard :=
  let k' := (keyboardBufferEnqueue k key).1
  (decide (k'.buffer.head ≠ k.buffer.head), k')

namespace KeyTraffic

/-- After `keyboard_init`. -/
def start (k : Keyboard) : KeyTraffic := ⟨keyboardInit k, [], []⟩

/-- One call. -/
def step (t : KeyTraffic) : KeyRingOp → KeyTraffic
  | .enqueue key =>
    { t with
      keyboard := (keyboardOffer t.keyboard key).2
      accepted := t.accepted ++ if (keyboardOffer t.keyboard key).1 then [key] else [] }
  | .readKey =>
    let (keys, k) := keyboardTake t.keyboard
    { t with
      keyboard := k
      consumed := t.consumed ++ keys }

/-- The step relation of a run. -/
def Step (t : KeyTraffic) (op : KeyRingOp) (t' : KeyTraffic) : Prop := t' = t.step op

/-- What the ring is to be. -/
structure Right (t : KeyTraffic) : Prop where
  fifo : t.keyboard.buffer.Fifo t.accepted t.consumed
  refuses : RefusesWhenFull 63 (fun _ => True) t.keyboard.buffer.items (keyboardOffer t.keyboard)
    t.keyboard
  gives : GivesOldest 1 (fun k => k.buffer.items) (keyboardTake t.keyboard) t.keyboard

end KeyTraffic

/-- One slot further is another slot. -/
theorem add_one_mod_ne {i n : ℕ} (hn : 1 < n) (hi : i < n) : (i + 1) % n ≠ i := fun h => by
  have hmod : (i + 1) % n = (i + 0) % n := h.trans (Nat.mod_eq_of_lt hi).symm
  exact Nat.one_ne_zero (RingBuffer.add_mod_inj hn (Nat.zero_lt_of_lt hn) hmod)

theorem keyboardOffer_eq (k : Keyboard) (key : UInt16) :
    keyboardOffer k key =
      match k.buffer.put key with
      | none => (false, k)
      | some buffer => (true, { k with buffer }) := by
  rw [keyboardOffer, keyboardBufferEnqueue]
  cases hput : k.buffer.put key with
  | none => simp
  | some buffer =>
    obtain ⟨-, rfl⟩ := RingBuffer.put_eq_some hput
    simp [RingBuffer.push, add_one_mod_ne (by decide : 1 < 64) k.buffer.head_lt]

theorem keyboardOffer_refuses (k : Keyboard) :
    RefusesWhenFull 63 (fun _ => True) k.buffer.items (keyboardOffer k) k := by
  refine RefusesWhenFull.of_put (n := 64) (fun key _ => ?_) fun key h => ?_
  · rw [keyboardOffer_eq]
    cases k.buffer.put key with
    | none => rfl
    | some buffer => rfl
  · rw [keyboardOffer_eq] at h ⊢
    cases hput : k.buffer.put key with
    | none => rfl
    | some buffer =>
      rw [hput] at h
      cases h

theorem keyboardTake_eq (k : Keyboard) :
    keyboardTake k =
      match k.buffer.take with
      | none => ([], k)
      | some (key, buffer) => ([key], { k with buffer }) := by
  rw [keyboardTake, keyboardReadKey]
  cases htake : k.buffer.take with
  | none => simp
  | some p =>
    obtain ⟨key, buffer⟩ := p
    rw [RingBuffer.take] at htake
    split_ifs at htake
    obtain ⟨rfl, rfl⟩ := Prod.mk.inj (Option.some_inj.mp htake)
    simp [RingBuffer.pop, add_one_mod_ne (by decide : 1 < 64) k.buffer.tail_lt]

theorem keyboardTake_gives (k : Keyboard) :
    GivesOldest 1 (fun k => k.buffer.items) (keyboardTake k) k := by
  rw [keyboardTake_eq]
  cases htake : k.buffer.take with
  | none =>
    have hnil := RingBuffer.take_eq_none_iff.mp htake
    exact ⟨by rw [hnil]; rfl, by rw [hnil]; rfl, fun _ => rfl⟩
  | some p =>
    have hitems := RingBuffer.items_take htake
    exact ⟨by rw [hitems]; rfl, by rw [hitems]; rfl,
      fun hnil => absurd (hitems.symm.trans hnil) (List.cons_ne_nil _ _)⟩

namespace KeyTraffic

theorem step_fifo {t : KeyTraffic} (h : t.keyboard.buffer.Fifo t.accepted t.consumed)
    (op : KeyRingOp) :
    (t.step op).keyboard.buffer.Fifo (t.step op).accepted (t.step op).consumed := by
  cases op with
  | enqueue key =>
    rw [step, keyboardOffer_eq]
    cases hput : t.keyboard.buffer.put key with
    | none => simpa using h
    | some buffer => exact h.put hput
  | readKey =>
    rw [step, keyboardTake_eq]
    cases htake : t.keyboard.buffer.take with
    | none => simpa using h
    | some p => exact h.take htake

end KeyTraffic

/-! ### The CAN driver -/

/-- The driver, and for each ring the frames it has accepted and those that have left it. -/
structure CanTraffic where
  can : Can
  txAccepted : List CanFrame
  txConsumed : List CanFrame
  rxAccepted : List CanFrame
  rxConsumed : List CanFrame

/-- What may happen: a call, or an interrupt. The flags are what `CAN_TSR_TME0` reads as. -/
inductive CanOp where
  | send (flags : List Bool) (frame : CanFrame)
  | txInterrupt (flags : List Bool)
  | rxInterrupt (frames : List CanFrame)
  | receive
  | addFilter (filter : CanFilter)
  | removeFilter (filterNum : UInt8)

namespace CanTraffic

/-- After `can_init`. -/
def start : CanTraffic := ⟨canInit, [], [], [], []⟩

/-- One call or interrupt. -/
def step (t : CanTraffic) : CanOp → CanTraffic
  | .send flags frame =>
    let (accepted, sent, c) := canSendFrame flags t.can frame
    { t with
      can := c
      txAccepted := t.txAccepted ++ if accepted then [frame] else []
      txConsumed := t.txConsumed ++ sent }
  | .txInterrupt flags =>
    let (sent, c) := canProcessTxInterrupt flags t.can
    { t with can := c, txConsumed := t.txConsumed ++ sent }
  | .rxInterrupt frames =>
    let (stored, c) := canProcessRxInterrupt frames t.can
    { t with can := c, rxAccepted := t.rxAccepted ++ stored }
  | .receive =>
    let (frame, c) := canReceiveFrame t.can
    { t with can := c, rxConsumed := t.rxConsumed ++ frame.toList }
  | .addFilter filter => { t with can := (canAddFilter t.can filter).2 }
  | .removeFilter filterNum => { t with can := canRemoveFilter t.can filterNum }

/-- The step relation of a run. -/
def Step (t : CanTraffic) (op : CanOp) (t' : CanTraffic) : Prop := t' = t.step op

/-- What the rings are to be. A frame to send is valid if it has at most eight bytes of data, and
one that has arrived if a filter accepts it. -/
structure Right (t : CanTraffic) : Prop where
  txFifo : t.can.tx.Fifo t.txAccepted t.txConsumed
  rxFifo : t.can.rx.Fifo t.rxAccepted t.rxConsumed
  txRefuses : ∀ flags, RefusesWhenFull 31 (fun frame => frame.dlc ≤ 8) t.can.tx.items
    (fun frame => ((canSendFrame flags t.can frame).1, (canSendFrame flags t.can frame).2.2)) t.can
  txGives : ∀ flags, GivesOldest (flags.takeWhile id).length (fun c => c.tx.items)
    (canProcessTxInterrupt flags t.can) t.can
  rxTakes : TakesWhatFits 63 (canFrameAccepted t.can) (fun c => c.rx.items)
    (fun frames => canProcessRxInterrupt frames t.can) t.can
  rxRefuses : RefusesWhenFull 63 (fun frame => canFrameAccepted t.can frame = true) t.can.rx.items
    (fun frame => (!(canProcessRxInterrupt [frame] t.can).1.isEmpty,
      (canProcessRxInterrupt [frame] t.can).2)) t.can
  rxGives : GivesOldest 1 (fun c => c.rx.items)
    ((canReceiveFrame t.can).1.toList, (canReceiveFrame t.can).2) t.can

end CanTraffic

/-- A frame of at most eight bytes is taken exactly if there is room for it. -/
theorem canSendFrame_fst {c : Can} {frame : CanFrame} (hdlc : frame.dlc ≤ 8) (flags : List Bool) :
    (canSendFrame flags c frame).1 = (c.tx.put frame).isSome := by
  rw [canSendFrame, if_neg (UInt8.not_lt.mpr hdlc)]
  cases c.tx.put frame with
  | none => rfl
  | some tx =>
    dsimp only
    split
    · rfl
    · rfl

theorem canSendFrame_refuses (c : Can) (flags : List Bool) :
    RefusesWhenFull 31 (fun frame => frame.dlc ≤ 8) c.tx.items
      (fun frame => ((canSendFrame flags c frame).1, (canSendFrame flags c frame).2.2)) c := by
  refine RefusesWhenFull.of_put (n := 32) (fun frame hdlc => canSendFrame_fst hdlc flags)
    fun frame h => ?_
  dsimp only at h ⊢
  by_cases hdlc : frame.dlc ≤ 8
  · rw [canSendFrame_fst hdlc, Option.isSome_eq_false_iff, Option.isNone_iff_eq_none] at h
    rw [canSendFrame, if_neg (UInt8.not_lt.mpr hdlc), h]
  · rw [canSendFrame, if_pos (UInt8.not_le.mp hdlc)]

theorem canProcessTxInterrupt_gives (flags : List Bool) (c : Can) :
    GivesOldest (flags.takeWhile id).length (fun c => c.tx.items) (canProcessTxInterrupt flags c)
      c := by
  induction flags generalizing c with
  | nil => exact ⟨rfl, rfl, fun _ => rfl⟩
  | cons flag flags ih =>
    rw [canProcessTxInterrupt]
    cases htake : c.tx.take with
    | none =>
      have hnil := RingBuffer.take_eq_none_iff.mp htake
      exact ⟨by rw [hnil, List.take_nil], by rw [hnil, List.drop_nil], fun _ => rfl⟩
    | some p =>
      obtain ⟨frame, tx⟩ := p
      have hitems := RingBuffer.items_take htake
      have hne : c.tx.items ≠ [] := by
        rw [hitems]
        exact List.cons_ne_nil _ _
      cases flag with
      | false => exact ⟨rfl, rfl, fun _ => rfl⟩
      | true =>
        have hrest := ih { c with tx }
        exact ⟨by rw [hitems]; exact congrArg (frame :: ·) hrest.given,
          by rw [hitems]; exact hrest.kept, fun hnil => absurd hnil hne⟩

/-- One frame that has arrived, and the others behind it. -/
theorem canProcessRxInterrupt_cons (frame : CanFrame) (frames : List CanFrame) (c : Can) :
    canProcessRxInterrupt (frame :: frames) c =
      (((canReceiveTurn c frame).1.toList ++
          (canProcessRxInterrupt frames (canReceiveTurn c frame).2).1),
        (canProcessRxInterrupt frames (canReceiveTurn c frame).2).2) := rfl

theorem canProcessRxInterrupt_takes (c : Can) :
    TakesWhatFits 63 (canFrameAccepted c) (fun c => c.rx.items)
      (fun frames => canProcessRxInterrupt frames c) c := by
  have hturns : ∀ frames (c : Can),
      (canProcessRxInterrupt frames c).1 =
          (frames.filter (canFrameAccepted c)).take (63 - c.rx.items.length) ∧
        (canProcessRxInterrupt frames c).2.rx.items =
          c.rx.items ++ (canProcessRxInterrupt frames c).1 ∧
        ((canProcessRxInterrupt frames c).1 = [] → (canProcessRxInterrupt frames c).2 = c) := by
    intro frames
    induction frames with
    | nil => exact fun c => ⟨List.take_nil.symm, (List.append_nil _).symm, fun _ => rfl⟩
    | cons frame frames ih =>
      intro c
      rw [canProcessRxInterrupt_cons, canReceiveTurn]
      split_ifs with haccepted
      · rw [List.filter_cons_of_pos haccepted]
        cases hput : c.rx.put frame with
        | none =>
          -- the ring is full, here and for what follows
          obtain ⟨htaken, hrest⟩ := ih c
          have hfull : 63 - c.rx.items.length = 0 := by
            have := RingBuffer.put_eq_none_iff.mp hput
            rw [RingBuffer.length_items]
            omega
          rw [hfull, List.take_zero] at htaken ⊢
          exact ⟨htaken, hrest⟩
        | some rx =>
          obtain ⟨htaken, hpending, -⟩ := ih { c with rx }
          have hitems := RingBuffer.items_put hput
          have hroom : 63 - c.rx.items.length = 63 - rx.items.length + 1 := by
            have := (RingBuffer.put_eq_some hput).1
            rw [hitems, List.length_append, List.length_singleton, RingBuffer.length_items]
            omega
          refine ⟨?_, ?_, fun hnil => absurd hnil (List.cons_ne_nil _ _)⟩
          · rw [hroom, List.take_succ_cons]
            exact congrArg (frame :: ·) htaken
          · rw [hpending, hitems, List.append_assoc]
            rfl
      · rw [List.filter_cons_of_neg haccepted]
        exact ih c
  refine ⟨?_, fun frames => (hturns frames c).1, fun frames => (hturns frames c).2.1,
    fun frames => (hturns frames c).2.2⟩
  have hlt := c.rx.count_lt
  rw [RingBuffer.length_items]
  omega

/-- Of a single frame. -/
theorem canProcessRxInterrupt_refuses (c : Can) :
    RefusesWhenFull 63 (fun frame => canFrameAccepted c frame = true) c.rx.items
      (fun frame => (!(canProcessRxInterrupt [frame] c).1.isEmpty,
        (canProcessRxInterrupt [frame] c).2)) c := by
  have htakes := canProcessRxInterrupt_takes c
  have hle := htakes.length_le
  refine ⟨hle, fun frame haccepted => ?_, fun frame h => htakes.unchanged [frame] ?_⟩
  · have htaken := htakes.taken [frame]
    rw [List.filter_cons_of_pos haccepted] at htaken
    dsimp only at htaken hle ⊢
    rw [htaken, Bool.not_eq_false', List.isEmpty_iff, List.take_eq_nil_iff]
    simp only [List.cons_ne_nil, or_false]
    omega
  · rwa [Bool.not_eq_false', List.isEmpty_iff] at h

theorem canReceiveFrame_gives (c : Can) :
    GivesOldest 1 (fun c => c.rx.items) ((canReceiveFrame c).1.toList, (canReceiveFrame c).2)
      c := by
  rw [canReceiveFrame]
  cases htake : c.rx.take with
  | none =>
    have hnil := RingBuffer.take_eq_none_iff.mp htake
    exact ⟨by rw [hnil]; rfl, by rw [hnil]; rfl, fun _ => rfl⟩
  | some p =>
    have hitems := RingBuffer.items_take htake
    exact ⟨by rw [hitems]; rfl, by rw [hitems]; rfl,
      fun hnil => absurd (hitems.symm.trans hnil) (List.cons_ne_nil _ _)⟩

namespace CanTraffic

theorem step_fifo {t : CanTraffic} (htx : t.can.tx.Fifo t.txAccepted t.txConsumed)
    (hrx : t.can.rx.Fifo t.rxAccepted t.rxConsumed) (op : CanOp) :
    (t.step op).can.tx.Fifo (t.step op).txAccepted (t.step op).txConsumed ∧
      (t.step op).can.rx.Fifo (t.step op).rxAccepted (t.step op).rxConsumed := by
  cases op with
  | send flags frame =>
    obtain ⟨hfifo, hsame⟩ := canSendFrame_fifo htx flags frame
    exact ⟨hfifo, by rwa [step, hsame]⟩
  | txInterrupt flags =>
    obtain ⟨hfifo, hsame⟩ := canProcessTxInterrupt_fifo htx flags
    exact ⟨hfifo, by rwa [step, hsame]⟩
  | rxInterrupt frames =>
    obtain ⟨hfifo, hsame⟩ := canProcessRxInterrupt_fifo hrx frames
    exact ⟨by rwa [step, hsame], hfifo⟩
  | receive =>
    obtain ⟨hfifo, hsame⟩ := canReceiveFrame_fifo hrx
    exact ⟨by rwa [step, hsame], hfifo⟩
  | addFilter filter =>
    rw [step, canAddFilter]
    split
    · exact ⟨htx, hrx⟩
    · exact ⟨htx, hrx⟩
  | removeFilter filterNum =>
    rw [step, canRemoveFilter]
    split_ifs
    · exact ⟨htx, hrx⟩
    · exact ⟨htx, hrx⟩

end CanTraffic

/-- **The rings are queues**: in every run of either driver. -/
theorem rings_fifo {k : Keyboard} {t : KeyTraffic} {u : CanTraffic}
    (ht : Reaches KeyTraffic.Step (KeyTraffic.start k) t)
    (hu : Reaches CanTraffic.Step CanTraffic.start u) : t.Right ∧ u.Right := by
  have hkey : t.keyboard.buffer.Fifo t.accepted t.consumed := by
    refine ht.invariant (I := fun t => t.keyboard.buffer.Fifo t.accepted t.consumed)
      (RingBuffer.items_empty _ _) fun a op b ha hab => ?_
    rw [show b = a.step op from hab]
    exact KeyTraffic.step_fifo ha op
  have hcan : u.can.tx.Fifo u.txAccepted u.txConsumed ∧
      u.can.rx.Fifo u.rxAccepted u.rxConsumed := by
    refine hu.invariant (I := fun u => u.can.tx.Fifo u.txAccepted u.txConsumed ∧
      u.can.rx.Fifo u.rxAccepted u.rxConsumed)
      ⟨RingBuffer.items_empty _ _, RingBuffer.items_empty _ _⟩ fun a op b ha hab => ?_
    rw [show b = a.step op from hab]
    exact CanTraffic.step_fifo ha.1 ha.2 op
  exact ⟨⟨hkey, keyboardOffer_refuses t.keyboard, keyboardTake_gives t.keyboard⟩,
    ⟨hcan.1, hcan.2, canSendFrame_refuses u.can,
      fun flags => canProcessTxInterrupt_gives flags u.can, canProcessRxInterrupt_takes u.can,
      canProcessRxInterrupt_refuses u.can, canReceiveFrame_gives u.can⟩⟩

/-- A key that is put and read; two frames of which the mailbox takes one; and one that arrives for
a filter, and is received. -/
theorem rings_fifo_few :
    (((KeyTraffic.start keyboardCleared).step (.enqueue 97)).step .readKey).Right ∧
      (((((CanTraffic.start.step (.send [] zeroCanFrame)).step
        (.send [true, true] zeroCanFrame)).step (.addFilter ⟨0, 0, false⟩)).step
          (.rxInterrupt [zeroCanFrame])).step .receive).Right :=
  rings_fifo ((Reaches.refl _).tail (i := .enqueue 97) rfl |>.tail (i := .readKey) rfl)
    ((Reaches.refl _).tail (i := .send [] zeroCanFrame) rfl
      |>.tail (i := .send [true, true] zeroCanFrame) rfl
      |>.tail (i := .addFilter ⟨0, 0, false⟩) rfl
      |>.tail (i := .rxInterrupt [zeroCanFrame]) rfl |>.tail (i := .receive) rfl)

end Rexus
