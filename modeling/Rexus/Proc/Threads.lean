import Rexus.Proc.Context

/-!
# Threads and ids

`thread_create` takes a block for the control block of a thread and four for its stack, and draws
its id from the counter of the process ids. Nothing in the kernel runs a thread, lists it or frees
it: a run carries the created threads beside the scheduler, in creation order. What they own joins
the base of the scheduler's invariant, so it stays theirs whatever processes are created and reaped.

## Main results

* `threads_run` — in every run of the scheduler and of `thread_create`, what the threads own is in
  use, apart, and nobody else's, and the first frame of each is at the top of its stack
* `ids_run` — and no two processes or threads have the same id, until the counter comes round

## Conventions

A run makes the calls of the scheduler, those that free no kernel table, and creations of threads,
in any order and with any arguments. A creation of a thread gets a block for the control block, then
an id, then the stack; one that has no stack gives the control block back and keeps the id. Its
parent and whether it is a thread of the kernel are stored, and read by nobody.

The stack of a thread has its first frame at the top, with the same layout as that of a process.
What is proved of it is that it stays as it was laid out, since nobody runs it. For the ids the
counter is followed as a number that does not wrap, and what is said of them holds until as many
have been drawn as there are words of thirty-two bits.
-/

namespace Rexus

open Mem Pmm Run

/-! ### Creating a thread -/

/-- `thread_t`. -/
structure Thread where
  tid : UInt32
  parent : ℕ
  esp : UInt32
  ebp : UInt32
  eip : UInt32
  stack : ℕ
  stackSize : ℕ
  isKernel : Bool

/-- The kernel, and the control blocks of threads by the address of their block. -/
structure ThreadKernel where
  kernel : Kernel
  tcb : ℕ → Thread

/-- The stack of a new thread is set up, and its control block. -/
def ThreadKernel.startThread (t : ThreadKernel) (thread stack proc : ℕ) (tid entry arg : UInt32)
    (isKernel : Bool) : ThreadKernel :=
  match [arg.toBitVec, 0#32].foldl push (t.kernel.mem, stack + 16384) with
  | (mem, sp) =>
    { kernel := { t.kernel with mem }
      tcb := Function.update t.tcb thread
        { tid
          parent := proc
          esp := UInt32.ofNat sp
          ebp := UInt32.ofNat sp
          eip := entry
          stack
          stackSize := 16384
          isKernel } }

/-- `thread_create` from the id on. -/
def threadStack (t : ThreadKernel) (thread proc : ℕ) (entry arg : UInt32) (isKernel : Bool) :
    ℕ × ThreadKernel :=
  let tid := t.kernel.nextPid
  match pmmAllocBlocks t.kernel.mem.pmm (16384 / 4096) with
  | (stack, pmm) =>
    let k := { t.kernel.setPmm pmm with nextPid := t.kernel.nextPid + 1 }
    if stack = 0 then (0, { t with kernel := k.freeRecord thread })
    else
      (thread, ({ t with kernel := k } : ThreadKernel).startThread thread stack proc tid entry arg
        isKernel)

/-- `thread_create`: the thread, or null. -/
def threadCreate (t : ThreadKernel) (proc : ℕ) (entry arg : UInt32) (isKernel : Bool) :
    ℕ × ThreadKernel :=
  if proc = 0 then (0, t)
  else
    match pmmAllocBlock t.kernel.mem.pmm with
    | (thread, pmm) =>
      let t := { t with kernel := t.kernel.setPmm pmm }
      if thread = 0 then (0, t) else threadStack t thread proc entry arg isKernel

/-- What a thread owns. -/
def ThreadKernel.owned (t : ThreadKernel) (x : ℕ) : Finset ℕ :=
  insert (x / 4096) (Finset.Ico ((t.tcb x).stack / 4096)
    ((t.tcb x).stack / 4096 + (t.tcb x).stackSize / 4096))

/-- A thread as it was created with `entry` and `arg`: its registers point to its own stack, on
which it finds a return address of zero and its argument. -/
structure ThreadOk (t : ThreadKernel) (x : ℕ) (entry arg : UInt32) : Prop where
  aligned : (t.tcb x).stack % 4096 = 0
  stackSize : (t.tcb x).stackSize = 16384
  eip : (t.tcb x).eip = entry
  esp : (t.tcb x).esp = UInt32.ofNat ((t.tcb x).stack + 16376)
  ebp : (t.tcb x).ebp = UInt32.ofNat ((t.tcb x).stack + 16376)
  /-- The return address is on top, the argument behind it. -/
  back : t.kernel.mem.word ((t.tcb x).stack + 16376) 0 = 0#32
  arg : t.kernel.mem.word ((t.tcb x).stack + 16376) 1 = arg.toBitVec

section Create

variable {t t' : ThreadKernel} {x proc : ℕ} {entry arg : UInt32} {isKernel : Bool}

/-- What a creation that fails leaves as it was: all but the allocator, and the counter. -/
structure NoThread (t t' : ThreadKernel) : Prop where
  takes : ∃ B, Takes t.kernel.mem.pmm t'.kernel.mem.pmm B
  kernel : t'.kernel = { t.kernel.setPmm t'.kernel.mem.pmm with nextPid := t'.kernel.nextPid }
  tcb : t'.tcb = t.tcb
  nextPid : t'.kernel.nextPid = t.kernel.nextPid ∨ t'.kernel.nextPid = t.kernel.nextPid + 1

/-- What a creation that succeeds does: the blocks the thread owns were free, nothing else is
written, and its id is the next one. -/
structure NewThread (t t' : ThreadKernel) (x : ℕ) (entry arg : UInt32) : Prop where
  takes : Takes t.kernel.mem.pmm t'.kernel.mem.pmm (t'.owned x)
  same : SameOutside t.kernel.mem t'.kernel.mem (t'.owned x)
  kernel : t'.kernel = { t.kernel with mem := t'.kernel.mem, nextPid := t.kernel.nextPid + 1 }
  currentDirectory : t'.kernel.mem.currentDirectory = t.kernel.mem.currentDirectory
  tcb : ∀ y, y ≠ x → t'.tcb y = t.tcb y
  tid : (t'.tcb x).tid = t.kernel.nextPid
  ok : ThreadOk t' x entry arg

/-- What setting up the stack does, in one step. -/
theorem ThreadKernel.startThread_eq (t : ThreadKernel) {stack : ℕ} (hmod : stack % 4096 = 0)
    (thread proc : ℕ) (tid entry arg : UInt32) (isKernel : Bool) :
    ∃ mem, SameOutside t.kernel.mem mem (Finset.Ico (stack / 4096) (stack / 4096 + 4)) ∧
      mem.pmm = t.kernel.mem.pmm ∧ mem.currentDirectory = t.kernel.mem.currentDirectory ∧
      mem.word (stack + 16376) 0 = 0#32 ∧ mem.word (stack + 16376) 1 = arg.toBitVec ∧
      t.startThread thread stack proc tid entry arg isKernel =
        { kernel := { t.kernel with mem }
          tcb := Function.update t.tcb thread
            { tid
              parent := proc
              esp := UInt32.ofNat (stack + 16376)
              ebp := UInt32.ofNat (stack + 16376)
              eip := entry
              stack
              stackSize := 16384
              isKernel } } := by
  obtain ⟨hsame, hpmm, hcur⟩ := foldl_push [arg.toBitVec, 0#32] t.kernel.mem
    (show stack + 4 * 2 ≤ stack + 16384 by omega) (Nat.le_refl _) hmod
  obtain ⟨hsp, -, hword⟩ := foldl_push_word [arg.toBitVec, 0#32] t.kernel.mem
    (show (stack + 16384) % 4 = 0 by omega) (Nat.le_add_left _ _)
  refine ⟨_, hsame, hpmm, hcur, hword 0 _ rfl, hword 1 _ rfl, ?_⟩
  rw [startThread]
  dsimp only
  rw [hsp]
  rfl

/-- The creation from the id on, with the block `b` taken. -/
theorem threadStack_spec {b : ℕ} {v : Pmm} (hb0 : b ≠ 0) (hv : Takes t.kernel.mem.pmm v {b})
    (h : threadStack { t with kernel := t.kernel.setPmm v } (b * 4096) proc entry arg isKernel =
      (x, t')) :
    (x = 0 ∧ NoThread t t') ∨ (x ≠ 0 ∧ NewThread t t' x entry arg) := by
  have hdiv : b * 4096 / 4096 = b := Nat.mul_div_cancel _ (by decide)
  rcases halloc : pmmAllocBlocks v (16384 / 4096) with ⟨stack, u⟩
  have halloc' : pmmAllocBlocks (t.kernel.setPmm v).mem.pmm (16384 / 4096) = (stack, u) := halloc
  rw [threadStack] at h
  dsimp only at h
  rw [halloc'] at h
  dsimp only at h
  split_ifs at h with hstack
  · subst hstack
    obtain ⟨rfl, rfl⟩ := Prod.mk.inj h
    obtain ⟨B, hB⟩ := takes_of_pmmAllocBlocks_zero halloc
    have htakes := hv.giveBack (v := pmmFreeBlock u (b * 4096)) hB fun hused => by
      have hgives := gives_pmmFreeBlock (s := u) (p := b * 4096)
        (by rw [hdiv]; exact hused (Finset.mem_singleton_self b))
      rwa [hdiv] at hgives
    exact Or.inl ⟨rfl, ⟨B, htakes⟩, rfl, rfl, Or.inr rfl⟩
  · obtain ⟨haddr, -, hu⟩ := takes_of_pmmAllocBlocks halloc hstack
    obtain ⟨m, hsame, hpmm, hcur, hback, harg, heq⟩ := ThreadKernel.startThread_eq
      { t with kernel := { (t.kernel.setPmm v).setPmm u with nextPid := t.kernel.nextPid + 1 } }
      (show stack % 4096 = 0 by omega) (b * 4096) proc t.kernel.nextPid entry arg isKernel
    obtain ⟨rfl, ht'⟩ := Prod.mk.inj (h.symm.trans (congrArg (Prod.mk _) heq))
    have hself : t'.tcb (b * 4096) =
        { tid := t.kernel.nextPid
          parent := proc
          esp := UInt32.ofNat (stack + 16376)
          ebp := UInt32.ofNat (stack + 16376)
          eip := entry
          stack
          stackSize := 16384
          isKernel } := by
      rw [ht']
      exact Function.update_self _ _ _
    have howned : t'.owned (b * 4096) = {b} ∪ Finset.Ico (stack / 4096) (stack / 4096 + 4) := by
      rw [ThreadKernel.owned, hdiv, hself]
      exact Finset.insert_eq b (Finset.Ico (stack / 4096) (stack / 4096 + 16384 / 4096))
    obtain rfl : t'.kernel.mem = m := by rw [ht']
    refine Or.inr ⟨Nat.mul_ne_zero hb0 (by decide), ⟨?_, ?_, ?_, hcur, fun y hy => ?_, ?_, ?_⟩⟩
    · rw [howned, hpmm]
      exact hv.trans hu
    · rw [howned]
      exact hsame.mono Finset.subset_union_right
    · rw [ht']
      rfl
    · rw [ht']
      exact Function.update_of_ne hy _ _
    · rw [hself]
    · constructor
      all_goals rw [hself]
      · show stack % 4096 = 0
        omega
      · exact hback
      · exact harg

/-- What `thread_create` does. -/
theorem threadCreate_spec (h : threadCreate t proc entry arg isKernel = (x, t')) :
    (x = 0 ∧ NoThread t t') ∨ (x ≠ 0 ∧ NewThread t t' x entry arg) := by
  rw [threadCreate] at h
  split_ifs at h with hproc
  · obtain ⟨rfl, rfl⟩ := Prod.mk.inj h
    exact Or.inl ⟨rfl, ⟨∅, Takes.refl _⟩, rfl, rfl, Or.inl rfl⟩
  · rcases pmmAllocBlock_takes t.kernel.mem.pmm with
      ⟨v, halloc, B, -, hv⟩ | ⟨b, v, halloc, hb0, -, hv⟩
    · rw [halloc] at h
      obtain ⟨rfl, rfl⟩ := Prod.mk.inj h
      exact Or.inl ⟨rfl, ⟨B, hv⟩, rfl, rfl, Or.inl rfl⟩
    · rw [halloc] at h
      dsimp only at h
      rw [if_neg (Nat.mul_ne_zero hb0 (by decide))] at h
      exact threadStack_spec hb0 hv h

end Create

/-! ### The base grows -/

section Base

variable {base B : Finset ℕ} {k : Kernel} {live : List ℕ}

/-- Blocks in use that no process owns may join the base. -/
theorem SchedInv.addBase (h : SchedInv base k live) (hused : B ⊆ k.mem.pmm.usedSet)
    (hdis : ∀ p ∈ live, Disjoint B (k.owned p)) : SchedInv (base ∪ B) k live := by
  have hsub : base ⊆ base ∪ B := Finset.subset_union_left
  have hidle := h.list.idle
  refine ⟨⟨h.list.seg, h.list.nodup, ?_, fun p hp => ?_, ?_, h.list.owned_used, fun p hp => ?_,
    h.list.disjoint⟩, h.current, h.states⟩
  · exact ⟨hidle.ne_zero, hidle.aligned, hsub hidle.mem, hidle.dir_ne_zero, hidle.dir_aligned,
      hsub hidle.dir_mem, fun i hi hp => ⟨(hidle.table i hi hp).1, hsub (hidle.table i hi hp).2⟩⟩
  · have hok := h.list.proc p hp
    exact ⟨hok.ne_zero, hok.aligned, hok.stack, ⟨hok.dir.ne_zero, hok.dir.aligned,
      hok.dir.table_ne_zero, hok.dir.inj, hok.dir.ne_dir, fun i hi hge hpres =>
        hsub (hok.dir.kernel i hi hge hpres)⟩, hok.stack_notMem, hok.dir_notMem, hok.disjoint⟩
  · exact Finset.union_subset h.list.base_used hused
  · exact Finset.disjoint_union_left.mpr ⟨h.list.owned_base p hp, hdis p hp⟩

end Base

/-! ### Runs -/

/-- A created thread, with what it was created with, as the run keeps it. No call of the run ends a
thread, so the list of them only grows. -/
structure Created where
  thread : ℕ
  entry : UInt32
  arg : UInt32

/-- The scheduler, the control blocks of threads, the created threads in creation order, and how
many ids have been asked for. -/
structure ThreadSched where
  sched : Sched
  tcb : ℕ → Thread
  threads : List Created
  ids : ℕ

/-- The calls of a run: those of the processes, and the creation of a thread for one of them. -/
inductive ThreadOp where
  | call (c : Call)
  | threadCreate (proc : ℕ) (entry arg : UInt32) (isKernel : Bool)

namespace ThreadSched

/-- The kernel, and the control blocks of threads. -/
def threadKernel (w : ThreadSched) : ThreadKernel := ⟨w.sched.kernel, w.tcb⟩

/-- The state `process_init` leaves. -/
def start (k : Kernel) (processIdle : UInt32) (tcb : ℕ → Thread) : ThreadSched :=
  ⟨Sched.start k processIdle, tcb, [], 0⟩

/-- One call. -/
def Step (w : ThreadSched) (op : ThreadOp) (w' : ThreadSched) : Prop :=
  match op with
  | .call c => w.sched.SafeStep c w'.sched ∧ w'.tcb = w.tcb ∧ w'.threads = w.threads ∧
      w'.ids = w.ids + c.joins
  | .threadCreate proc entry arg isKernel => ∃ x t',
      Rexus.threadCreate w.threadKernel proc entry arg isKernel = (x, t') ∧
      w' = ⟨⟨t'.kernel, w.sched.live⟩, t'.tcb,
        w.threads ++ (if x = 0 then [] else [⟨x, entry, arg⟩]), w.ids + 1⟩

/-- The ids of the created processes and threads. -/
def idList (w : ThreadSched) : List UInt32 :=
  w.sched.live.map (fun p => (w.sched.kernel.pcb p).pid) ++
    w.threads.map fun c => (w.tcb c.thread).tid

end ThreadSched

/-- What the threads have: blocks that are in use, that no other thread and no process owns, and
that were free when the first process started; and the first frame of each is as it was laid out. -/
structure ThreadsOk (base : Finset ℕ) (w : ThreadSched) : Prop where
  ok : ∀ c ∈ w.threads, ThreadOk w.threadKernel c.thread c.entry c.arg
  used : ∀ c ∈ w.threads, w.threadKernel.owned c.thread ⊆ w.sched.kernel.mem.pmm.usedSet
  apart : w.threads.Pairwise fun c d =>
    Disjoint (w.threadKernel.owned c.thread) (w.threadKernel.owned d.thread)
  base_free : ∀ c ∈ w.threads, Disjoint base (w.threadKernel.owned c.thread)
  process : ∀ c ∈ w.threads, ∀ p ∈ w.sched.live,
    Disjoint (w.threadKernel.owned c.thread) (w.sched.kernel.owned p)

/-- The invariant: the scheduler's, with a base that has what the threads own. -/
structure ThreadInv (base : Finset ℕ) (w : ThreadSched) : Prop where
  sched : ∃ base', base ⊆ base' ∧ (∀ c ∈ w.threads, w.threadKernel.owned c.thread ⊆ base') ∧
    SchedInv base' w.sched.kernel w.sched.live
  ok : ∀ c ∈ w.threads, ThreadOk w.threadKernel c.thread c.entry c.arg
  apart : w.threads.Pairwise fun c d =>
    Disjoint (w.threadKernel.owned c.thread) (w.threadKernel.owned d.thread)
  base_free : ∀ c ∈ w.threads, Disjoint base (w.threadKernel.owned c.thread)

section Runs

variable {base : Finset ℕ} {w w' : ThreadSched} {op : ThreadOp} {k : Kernel} {t t' : ThreadKernel}
  {processIdle : UInt32} {tcb : ℕ → Thread} {x : ℕ} {entry arg : UInt32}

theorem ThreadInv.threadsOk (h : ThreadInv base w) : ThreadsOk base w := by
  obtain ⟨base', -, howned, hinv⟩ := h.sched
  exact ⟨h.ok, fun c hc => (howned c hc).trans hinv.list.base_used, h.apart, h.base_free,
    fun c hc p hp => (hinv.list.owned_base p hp).mono_left (howned c hc)⟩

theorem mem_owned_self_thread (t : ThreadKernel) (x : ℕ) : x / 4096 ∈ t.owned x :=
  Finset.mem_insert_self _ _

/-- The blocks a thread owns are where its record says. -/
theorem owned_thread_congr (htcb : t'.tcb x = t.tcb x) : t'.owned x = t.owned x := by
  rw [ThreadKernel.owned, ThreadKernel.owned, htcb]

/-- A thread whose blocks are not written is as it was. -/
theorem ThreadOk.congr (h : ThreadOk t x entry arg) (htcb : t'.tcb x = t.tcb x)
    (hram : ∀ a, a / 1024 ∈ t.owned x → t'.kernel.mem.ram a = t.kernel.mem.ram a) :
    ThreadOk t' x entry arg := by
  have hword : ∀ i < 2, t'.kernel.mem.word ((t.tcb x).stack + 16376) i =
      t.kernel.mem.word ((t.tcb x).stack + 16376) i := by
    intro i hi
    refine hram _ (Finset.mem_insert_of_mem (Finset.mem_Ico.mpr ?_))
    have hmod := h.aligned
    rw [h.stackSize]
    omega
  constructor
  all_goals rw [htcb]
  · exact h.aligned
  · exact h.stackSize
  · exact h.eip
  · exact h.esp
  · exact h.ebp
  · rw [hword 0 (by decide), h.back]
  · rw [hword 1 (by decide), h.arg]

/-- A call of the scheduler. -/
theorem ThreadInv.call {c : Call} (h : ThreadInv base w) (hstep : w.Step (.call c) w') :
    ThreadInv base w' := by
  obtain ⟨hsafe, htcb, hthreads, -⟩ := hstep
  obtain ⟨base', hsub, howned, hinv⟩ := h.sched
  obtain ⟨hinv', -⟩ := hsafe.advances hinv
  obtain ⟨hram, -⟩ := hsafe.contexts hinv
  have hself : ∀ x, w'.threadKernel.owned x = w.threadKernel.owned x := fun x =>
    owned_thread_congr (congrFun htcb x)
  refine ⟨⟨base', hsub, fun c hc => ?_, hinv'⟩, fun c hc => ?_, ?_, fun c hc => ?_⟩
  all_goals rw [hthreads] at *
  · rw [hself]
    exact howned c hc
  · exact (h.ok c hc).congr (congrFun htcb _) fun a ha =>
      hram a (hinv.list.base_used (howned c hc ha))
  · exact h.apart.imp fun hcd => by rwa [hself, hself]
  · rw [hself]
    exact h.base_free c hc

theorem NoThread.frame (h : NoThread t t') (live : List ℕ) : Frame t.kernel t'.kernel live := by
  obtain ⟨B, hB⟩ := h.takes
  have hused := hB.subset
  rw [h.kernel] at hused ⊢
  exact ⟨rfl, rfl, rfl, fun _ _ => rfl, ⟨∅, Finset.disjoint_empty_right _, fun _ _ => rfl⟩, hused⟩

theorem NewThread.frame (h : NewThread t t' x entry arg) (live : List ℕ) :
    Frame t.kernel t'.kernel live := by
  have hpcb : t'.kernel.pcb = t.kernel.pcb := by rw [h.kernel]
  refine ⟨?_, ?_, h.currentDirectory, fun y _ => congrFun hpcb y, ⟨_, h.takes.free, h.same⟩,
    h.takes.subset⟩
  all_goals rw [h.kernel]

/-- A creation that fails. -/
theorem ThreadInv.none (h : ThreadInv base w) (hnone : NoThread w.threadKernel t') (n : ℕ) :
    ThreadInv base ⟨⟨t'.kernel, w.sched.live⟩, t'.tcb, w.threads, n⟩ := by
  obtain ⟨base', hsub, howned, hinv⟩ := h.sched
  have hself : ∀ x, t'.owned x = w.threadKernel.owned x := fun x =>
    owned_thread_congr (congrFun hnone.tcb x)
  have hram : t'.kernel.mem.ram = w.sched.kernel.mem.ram := by
    rw [hnone.kernel]
    rfl
  refine ⟨⟨base', hsub, fun c hc => ?_, hinv.frame (hnone.frame _)⟩, fun c hc => ?_, ?_,
    fun c hc => ?_⟩
  · exact (hself c.thread).trans_subset (howned c hc)
  · exact (h.ok c hc).congr (congrFun hnone.tcb _) fun a _ => congrFun hram a
  · exact h.apart.imp fun {c d} hcd => by
      show Disjoint (t'.owned c.thread) (t'.owned d.thread)
      rwa [hself, hself]
  · show Disjoint base (t'.owned c.thread)
    rw [hself]
    exact h.base_free c hc

/-- A creation that succeeds: what the new thread owns joins the base. -/
theorem ThreadInv.new (h : ThreadInv base w) (hnew : NewThread w.threadKernel t' x entry arg)
    (n : ℕ) :
    ThreadInv base
      ⟨⟨t'.kernel, w.sched.live⟩, t'.tcb, w.threads ++ [⟨x, entry, arg⟩], n⟩ := by
  obtain ⟨base', hsub, howned, hinv⟩ := h.sched
  have hframe := hnew.frame w.sched.live
  have hinv' := hinv.frame hframe
  have hfree : ∀ B ⊆ w.sched.kernel.mem.pmm.usedSet, Disjoint B (t'.owned x) := fun B hB =>
    hnew.takes.free.mono_left hB
  -- the block of an older thread is in use, and the block of this one was free
  have hself : ∀ c ∈ w.threads, t'.owned c.thread = w.threadKernel.owned c.thread := by
    intro c hc
    refine owned_thread_congr (hnew.tcb _ ?_)
    rintro rfl
    refine Finset.disjoint_left.mp (hfree _ ((howned c hc).trans hinv.list.base_used))
      (mem_owned_self_thread w.threadKernel c.thread) ?_
    exact mem_owned_self_thread t' c.thread
  have hold : ∀ c ∈ w.threads, Disjoint (t'.owned c.thread) (t'.owned x) := fun c hc => by
    rw [hself c hc]
    exact hfree _ ((howned c hc).trans hinv.list.base_used)
  have hprocess : ∀ p ∈ w.sched.live, Disjoint (t'.owned x) (t'.kernel.owned p) := by
    intro p hp
    have hpcb := hframe.pcb p (List.mem_cons_of_mem _ hp)
    have hp' : t'.kernel.owned p = w.sched.kernel.owned p := by
      refine owned_congr (by rw [hpcb]; exact SameOwner.refl _) fun i hi => ?_
      exact word_eq_of_owned (hinv.list.proc p hp).dir.aligned hnew.same
        (hfree _ (hinv.list.owned_used p hp)) hi
    rw [hp']
    exact (hfree _ (hinv.list.owned_used p hp)).symm
  have hmem : ∀ c ∈ w.threads ++ [(⟨x, entry, arg⟩ : Created)],
      c ∈ w.threads ∨ c = ⟨x, entry, arg⟩ :=
    fun c hc => (List.mem_append.mp hc).imp_right List.mem_singleton.mp
  refine ⟨⟨base' ∪ t'.owned x, hsub.trans Finset.subset_union_left, fun c hc => ?_,
    hinv'.addBase hnew.takes.taken_subset hprocess⟩, fun c hc => ?_, ?_, fun c hc => ?_⟩
  · rcases hmem c hc with hc | rfl
    · exact (hself c hc).trans_subset ((howned c hc).trans Finset.subset_union_left)
    · exact Finset.subset_union_right
  · rcases hmem c hc with hc | rfl
    · refine (h.ok c hc).congr (hnew.tcb _ fun heq => ?_) fun a ha => hnew.same a fun ha' => ?_
      · have hdis := hold c hc
        rw [heq] at hdis
        exact Finset.disjoint_left.mp hdis (mem_owned_self_thread t' x)
          (mem_owned_self_thread t' x)
      · rw [← hself c hc] at ha
        exact Finset.disjoint_left.mp (hold c hc) ha ha'
    · exact hnew.ok
  · refine List.pairwise_append.mpr ⟨?_, List.pairwise_singleton _ _, fun c hc d hd => ?_⟩
    · refine h.apart.imp_of_mem fun {c d} hc hd hcd => ?_
      show Disjoint (t'.owned c.thread) (t'.owned d.thread)
      rwa [hself c hc, hself d hd]
    · rw [List.mem_singleton.mp hd]
      exact hold c hc
  · rcases hmem c hc with hc | rfl
    · show Disjoint base (t'.owned c.thread)
      rw [hself c hc]
      exact h.base_free c hc
    · exact hfree _ (hsub.trans hinv.list.base_used)

theorem ThreadInv.step (h : ThreadInv base w) (hstep : w.Step op w') : ThreadInv base w' := by
  cases op with
  | call c => exact h.call hstep
  | threadCreate proc entry arg isKernel =>
    obtain ⟨x, t', hcreate, rfl⟩ := hstep
    rcases threadCreate_spec hcreate with ⟨rfl, hnone⟩ | ⟨hx, hnew⟩
    · rw [if_pos rfl, List.append_nil]
      exact h.none hnone _
    · rw [if_neg hx]
      exact h.new hnew _

theorem threadInv_run (hboot : Boot k)
    (hrun : Reaches ThreadSched.Step (ThreadSched.start k processIdle tcb) w) :
    ThreadInv (processInit k processIdle).mem.pmm.usedSet w := by
  refine hrun.invariant ⟨⟨_, Finset.Subset.refl _, ?_, hboot.schedInv processIdle⟩, ?_,
    List.Pairwise.nil, ?_⟩ fun _ _ _ ha hstep => ha.step hstep
  all_goals exact fun c hc => absurd hc List.not_mem_nil

/-- No control block has been written. -/
def noThreads : ℕ → Thread := fun _ => ⟨0, 0, 0, 0, 0, 0, 0, false⟩

/-- A thread is created beside the idle process, with the entry `1` and the argument `2`. -/
theorem small_thread : ∃ w,
    Reaches ThreadSched.Step (ThreadSched.start (smallKernel 7#32 3 0#32) 0 noThreads) w ∧
    w.threads = [⟨20480, 1, 2⟩] ∧ w.ids = 1 := by
  let t := threadCreate (ThreadSched.start (smallKernel 7#32 3 0#32) 0 noThreads).threadKernel
    12288 1 2 true
  have hthread : t.1 = 20480 := by decide
  refine ⟨_, (Reaches.refl _).tail (i := .threadCreate 12288 1 2 true) ⟨t.1, t.2, rfl, rfl⟩, ?_,
    rfl⟩
  show [] ++ (if t.1 = 0 then [] else [(⟨t.1, 1, 2⟩ : Created)]) = _
  rw [hthread]
  rfl

/-- A creation draws one id, if it has a block for the record. -/
theorem nextPid_processStack {k₁ : Kernel} {fuel b : ℕ} {e : ℕ × Kernel}
    (h : processStack fuel k₁ b entry arg = some e) : e.2.nextPid = k₁.nextPid := by
  rw [processStack] at h
  dsimp only at h
  split_ifs at h
  · obtain rfl := Option.some_inj.mp h
    rfl
  · obtain ⟨last, -, rfl⟩ := Option.map_eq_some_iff.mp h
    rfl

theorem nextPid_processCreate {k₁ : Kernel} {fuel : ℕ} {name : List UInt8}
    {priority : ProcessPriority} {e : ℕ × Kernel}
    (h : processCreate fuel k₁ name entry arg priority = some e) :
    (e.1 = 0 ∧ e.2.nextPid = k₁.nextPid) ∨ e.2.nextPid = k₁.nextPid + 1 := by
  rw [processCreate] at h
  dsimp only at h
  split_ifs at h
  · obtain rfl := Option.some_inj.mp h
    exact Or.inl ⟨rfl, rfl⟩
  · refine Or.inr ?_
    rw [processClone] at h
    rcases hclone : vmmCloneDirectory _ _ with - | ⟨dir, m⟩
    · rw [hclone] at h
      cases h
    · rw [hclone] at h
      dsimp only at h
      split_ifs at h
      · obtain rfl := Option.some_inj.mp h
        rfl
      · exact nextPid_processStack h

/-- What a call does to the ids. -/
theorem Sched.SafeStep.ids {s s' : Sched} {c : Call} (h : SchedInv base s.kernel s.live)
    (hstep : s.SafeStep c s') :
    (∃ rs : List ℕ, s'.live = s.live.filter (· ∉ rs) ∧
        (s'.kernel.nextPid = s.kernel.nextPid ∨
          (c.joins = 1 ∧ s'.kernel.nextPid = s.kernel.nextPid + 1))) ∨
      (c.joins = 1 ∧ s'.kernel.nextPid = s.kernel.nextPid + 1 ∧
        ∃ p, s'.live = s.live ++ [p] ∧ (s'.kernel.pcb p).pid = s.kernel.nextPid) := by
  obtain ⟨⟨hallowed, fuel, out, hop, rfl⟩, -⟩ := hstep
  have henter := h.enter c
  cases hcreates : c.op.creates with
  | true =>
    have hjoins : c.joins = 1 := if_pos hcreates
    obtain ⟨op, esp, ebp⟩ := c
    cases op with
    | create name entry arg priority =>
      obtain ⟨⟨proc, k'⟩, hcreate, rfl⟩ := Option.map_eq_some_iff.mp hop
      have hpid := nextPid_processCreate hcreate
      by_cases hproc : proc = 0
      · exact Or.inl ⟨[], by simp [hproc], hpid.imp And.right fun h => ⟨hjoins, h⟩⟩
      · have hpid' := hpid.resolve_left fun hcon => hproc hcon.1
        obtain ⟨dir, hstarted⟩ := processCreate_started hcreate hproc
        obtain ⟨stack, next, hrecord⟩ := hstarted.record
        refine Or.inr ⟨hjoins, hpid', proc, by simp [hproc], ?_⟩
        dsimp only
        rw [hrecord]
        rfl
    | _ => cases hcreates
  | false =>
    have hquiet := c.op.quiet_before (s.kernel.enter c)
    rw [processOp_eq henter.list henter.current hallowed hcreates] at hop
    split_ifs at hop
    · obtain ⟨e, he, rfl⟩ := Option.map_eq_some_iff.mp hop
      have hok := henter.before hallowed
      obtain ⟨-, hpid, -⟩ := processYield_contexts
        (hok.list.wellFormed hok.current hok.states) he s.members
      exact Or.inl ⟨e.1, List.append_nil _, Or.inl (hpid.trans hquiet.nextPid)⟩
    · obtain rfl := Option.some_inj.mp hop
      exact Or.inl ⟨[], by simp, Or.inl hquiet.nextPid⟩

/-- A call draws at most one id, for a process or a thread that is new. -/
structure Draws (w w' : ThreadSched) (n : ℕ) : Prop where
  le_one : n ≤ 1
  ids : w'.ids = w.ids + n
  drawn : (w'.idList.Sublist w.idList ∧
      (w'.sched.kernel.nextPid = w.sched.kernel.nextPid ∨
        (n = 1 ∧ w'.sched.kernel.nextPid = w.sched.kernel.nextPid + 1))) ∨
    (n = 1 ∧ w'.sched.kernel.nextPid = w.sched.kernel.nextPid + 1 ∧
      w'.idList.Perm (w.sched.kernel.nextPid :: w.idList))

theorem ThreadInv.call_draws {c : Call} (h : ThreadInv base w) (hstep : w.Step (.call c) w') :
    Draws w w' c.joins := by
  obtain ⟨hsafe, htcb, hthreads, hids⟩ := hstep
  obtain ⟨base', -, -, hinv⟩ := h.sched
  obtain ⟨-, hcontexts⟩ := hsafe.contexts hinv
  have hpid : ∀ l : List ℕ, l ⊆ w.sched.live →
      l.map (fun p => (w'.sched.kernel.pcb p).pid) = l.map fun p => (w.sched.kernel.pcb p).pid :=
    fun l hl => List.map_congr_left fun p hp =>
      (hcontexts.same p (List.mem_cons_of_mem _ (hl hp))).pid
  have hle : c.joins ≤ 1 := by
    rw [Call.joins]
    split_ifs <;> decide
  refine ⟨hle, hids, ?_⟩
  rw [ThreadSched.idList, ThreadSched.idList, hthreads, htcb]
  rcases hsafe.ids hinv with ⟨rs, hlive, hnext⟩ | ⟨hjoins, hnext, p, hlive, hnew⟩
  · refine Or.inl ⟨?_, hnext⟩
    rw [hlive, hpid _ (List.filter_subset_self _)]
    exact (List.filter_sublist.map _).append (List.Sublist.refl _)
  · refine Or.inr ⟨hjoins, hnext, ?_⟩
    rw [hlive, List.map_append, hpid _ (List.Subset.refl _), List.map_singleton, hnew,
      List.append_assoc]
    exact List.perm_middle

theorem ThreadInv.create_draws {proc : ℕ} {isKernel : Bool} (h : ThreadInv base w)
    (hstep : w.Step (.threadCreate proc entry arg isKernel) w') : Draws w w' 1 := by
  obtain ⟨x, t', hcreate, rfl⟩ := hstep
  have hpid : ∀ l : List ℕ, t'.kernel.pcb = w.sched.kernel.pcb →
      l.map (fun p => (t'.kernel.pcb p).pid) = l.map fun p => (w.sched.kernel.pcb p).pid :=
    fun l hpcb => by rw [hpcb]
  refine ⟨Nat.le_refl 1, rfl, ?_⟩
  rw [ThreadSched.idList, ThreadSched.idList]
  dsimp only
  rcases threadCreate_spec hcreate with ⟨rfl, hnone⟩ | ⟨hx, hnew⟩
  · refine Or.inl ⟨?_, hnone.nextPid.imp_right fun hnext => ⟨rfl, hnext⟩⟩
    rw [if_pos rfl, List.append_nil, hnone.tcb, hpid _ (by rw [hnone.kernel]; rfl)]
    exact List.Sublist.refl _
  · refine Or.inr ⟨rfl, ?_, ?_⟩
    · rw [hnew.kernel]
      rfl
    · obtain ⟨base', -, howned, hinv⟩ := h.sched
      have hold : w.threads.map (fun c => (t'.tcb c.thread).tid) =
          w.threads.map fun c => (w.tcb c.thread).tid := by
        refine List.map_congr_left fun c hc => congrArg Thread.tid (hnew.tcb _ ?_)
        rintro rfl
        exact Finset.disjoint_left.mp hnew.takes.free
          (hinv.list.base_used (howned c hc (mem_owned_self_thread _ _)))
          (mem_owned_self_thread t' _)
      rw [if_neg hx, hpid _ (by rw [hnew.kernel]; rfl), List.map_append, hold,
        List.map_singleton, hnew.tid, ← List.append_assoc]
      exact List.perm_append_singleton _ _

/-- The ids of `ids` have been drawn from a counter that started at `first` and stands at `next`. -/
structure Drawn (first : ℕ) (next : UInt32) (ids : List UInt32) : Prop where
  first_le : first ≤ next.toNat
  mem : ∀ i ∈ ids, first ≤ i.toNat ∧ i.toNat < next.toNat
  nodup : ids.Nodup

section Drawn

variable {first : ℕ} {next : UInt32} {ids ids' : List UInt32}

theorem Drawn.sublist (h : Drawn first next ids) (hsub : ids'.Sublist ids) :
    Drawn first next ids' :=
  ⟨h.first_le, fun i hi => h.mem i (hsub.subset hi), h.nodup.sublist hsub⟩

theorem toNat_next (hlt : next.toNat + 1 < 2 ^ 32) : (next + 1).toNat = next.toNat + 1 := by
  rw [UInt32.toNat_add]
  exact Nat.mod_eq_of_lt hlt

theorem Drawn.skip (h : Drawn first next ids) (hlt : next.toNat + 1 < 2 ^ 32) :
    Drawn first (next + 1) ids := by
  have hnext := toNat_next hlt
  have hfirst := h.first_le
  refine ⟨by omega, fun i hi => ?_, h.nodup⟩
  have hmem := h.mem i hi
  omega

theorem Drawn.draw (h : Drawn first next ids) (hlt : next.toNat + 1 < 2 ^ 32)
    (hperm : ids'.Perm (next :: ids)) : Drawn first (next + 1) ids' := by
  have hnext := toNat_next hlt
  have hfirst := h.first_le
  refine ⟨by omega, fun i hi => ?_, hperm.nodup_iff.mpr (List.nodup_cons.mpr ⟨fun hmem => ?_,
    h.nodup⟩)⟩
  · rcases List.mem_cons.mp (hperm.mem_iff.mp hi) with rfl | hi
    · omega
    · have hmem := h.mem i hi
      omega
  · exact Nat.lt_irrefl _ (h.mem next hmem).2

end Drawn

/-- Until the counter comes round: the ids in use have been drawn from it, each once, and it has
gone no further than the number of draws. -/
structure IdsInv (first : ℕ) (w : ThreadSched) : Prop where
  drawn : Drawn first w.sched.kernel.nextPid w.idList
  counted : w.sched.kernel.nextPid.toNat ≤ first + w.ids

theorem IdsInv.draws {first n : ℕ} (h : IdsInv first w) (hlt : first + w'.ids < 2 ^ 32)
    (hstep : Draws w w' n) : IdsInv first w' := by
  have hids := hstep.ids
  have hcount := h.counted
  rcases hstep.drawn with ⟨hsub, hnext | ⟨rfl, hnext⟩⟩ | ⟨rfl, hnext, hperm⟩
  · refine ⟨hnext ▸ h.drawn.sublist hsub, ?_⟩
    rw [hnext]
    omega
  · have hlt' : w.sched.kernel.nextPid.toNat + 1 < 2 ^ 32 := by omega
    refine ⟨hnext ▸ (h.drawn.sublist hsub).skip hlt', ?_⟩
    rw [hnext, toNat_next hlt']
    omega
  · have hlt' : w.sched.kernel.nextPid.toNat + 1 < 2 ^ 32 := by omega
    refine ⟨hnext ▸ h.drawn.draw hlt' hperm, ?_⟩
    rw [hnext, toNat_next hlt']
    omega

/-- The idle process has the id `0`. -/
theorem ThreadInv.idle_pid (h : ThreadInv base w) (hstep : w.Step op w')
    (hpid : (w.sched.kernel.pcb w.sched.kernel.processList).pid = 0) :
    (w'.sched.kernel.pcb w'.sched.kernel.processList).pid = 0 := by
  obtain ⟨base', -, -, hinv⟩ := h.sched
  cases op with
  | call c =>
    obtain ⟨hsafe, -⟩ := hstep
    obtain ⟨-, hadvances⟩ := hsafe.advances hinv
    obtain ⟨-, hcontexts⟩ := hsafe.contexts hinv
    rw [hadvances.processList]
    exact (hcontexts.same _ List.mem_cons_self).pid.trans hpid
  | threadCreate proc entry arg isKernel =>
    obtain ⟨x, t', hcreate, rfl⟩ := hstep
    have hkernel : t'.kernel.pcb = w.sched.kernel.pcb ∧
        t'.kernel.processList = w.sched.kernel.processList := by
      rcases threadCreate_spec hcreate with ⟨-, hnone⟩ | ⟨-, hnew⟩
      · rw [hnone.kernel]
        exact ⟨rfl, rfl⟩
      · rw [hnew.kernel]
        exact ⟨rfl, rfl⟩
    dsimp only
    rw [hkernel.1, hkernel.2, hpid]

/-- What the run of the ids carries along. The part on the ids holds only as long as fewer have been
drawn than there are numbers of 32 bits; the rest holds in any case. -/
structure IdsRun (base : Finset ℕ) (first : ℕ) (w : ThreadSched) : Prop where
  inv : ThreadInv base w
  idle : (w.sched.kernel.pcb w.sched.kernel.processList).pid = 0
  ids : first + w.ids < 2 ^ 32 → IdsInv first w

theorem IdsRun.step {first : ℕ} (h : IdsRun base first w) (hstep : w.Step op w') :
    IdsRun base first w' := by
  obtain ⟨n, hdraws⟩ : ∃ n, Draws w w' n := by
    cases op with
    | call c => exact ⟨_, h.inv.call_draws hstep⟩
    | threadCreate proc entry arg isKernel => exact ⟨_, h.inv.create_draws hstep⟩
  have hids := hdraws.ids
  exact ⟨h.inv.step hstep, h.inv.idle_pid hstep h.idle,
    fun hlt => (h.ids (by omega)).draws hlt hdraws⟩

/-- **No two processes or threads have the same id**, and none has that of the idle process, until
the counter comes round. -/
theorem ids_run (hboot : Boot k) (hfirst : 0 < k.nextPid.toNat)
    (hrun : Reaches ThreadSched.Step (ThreadSched.start k processIdle tcb) w)
    (hlt : k.nextPid.toNat + w.ids < 2 ^ 32) :
    (w.sched.members.map (fun p => (w.sched.kernel.pcb p).pid) ++
      w.threads.map fun c => (w.tcb c.thread).tid).Nodup := by
  have hstart : IdsRun (processInit k processIdle).mem.pmm.usedSet k.nextPid.toNat
      (ThreadSched.start k processIdle tcb) := by
    refine ⟨threadInv_run hboot (Reaches.refl _), ?_, fun _ => ⟨⟨Nat.le_refl _, ?_,
      List.nodup_nil⟩, Nat.le_refl _⟩⟩
    · exact congrArg Process.pid (Kernel.setPcb_self _ _ _)
    · exact fun i hi => absurd hi List.not_mem_nil
  have h : IdsRun (processInit k processIdle).mem.pmm.usedSet k.nextPid.toNat w :=
    hrun.invariant hstart fun _ _ _ ha hstep => ha.step hstep
  have hdrawn := (h.ids hlt).drawn
  rw [Sched.members, List.map_cons, h.idle, List.cons_append]
  refine List.nodup_cons.mpr ⟨fun hmem => ?_, hdrawn.nodup⟩
  exact absurd (hdrawn.mem 0 hmem).1 (Nat.not_le.mpr hfirst)

theorem ids_run_small : ∃ w,
    Reaches ThreadSched.Step (ThreadSched.start (smallKernel 7#32 3 0#32) 0 noThreads) w ∧
    w.threads = [⟨20480, 1, 2⟩] ∧
    (w.sched.members.map (fun p => (w.sched.kernel.pcb p).pid) ++
      w.threads.map fun c => (w.tcb c.thread).tid).Nodup := by
  obtain ⟨w, hrun, hthreads, hids⟩ := small_thread
  refine ⟨w, hrun, hthreads, ids_run boot_empty (by decide) hrun ?_⟩
  rw [hids]
  decide

end Runs

end Rexus
