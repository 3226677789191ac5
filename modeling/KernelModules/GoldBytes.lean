import KernelModules.GoldFifo
import KernelModules.SmallSteps

/-!
# `gold_dev`, one statement at a time

`gold_read` and `gold_write` move their bytes one by one under `d->lock`, and each byte takes three
assignments to the ring. `wait_event_interruptible` looks at `d->size` without the lock, so other
tasks do see the ring in the middle of a loop.

* `GoldPlace`, `goldSteps` — the critical sections, with one step for each assignment to the ring;
* `goldSteps_implements` — a section that is left alone does what `goldBody` does;
* `goldCond_between` — what a wait sees in the middle of a section it would also have seen in front
  of it or behind it;
* `gold_bytes_refine_fifo` — **the device is a queue, byte by byte**: with sections in small steps
  it still refines `Fifo UInt8 256`.
-/

namespace KernelModules

namespace GoldDevice

/-! ## The sections -/

/-- How far a critical section has got. `todo` iterations are left, `copied` are done. -/
inductive GoldPlace where
  /-- the lock is held, nothing is done yet -/
  | entered (c : GoldCall)
  /-- in `gold_read`, at the condition of the loop; then `put_user` -/
  | readTest (buf : UserDst) (todo copied : ℕ) (out : List UInt8)
  /-- at `d->tail = (d->tail + 1) % BUF_SIZE` -/
  | readTail (buf : UserDst) (todo copied : ℕ) (out : List UInt8)
  /-- at `d->size--` -/
  | readSize (buf : UserDst) (todo copied : ℕ) (out : List UInt8)
  /-- in `gold_write`, at the condition of the loop; then `get_user` -/
  | writeTest (buf : UserSrc) (todo copied : ℕ)
  /-- at `d->buffer[d->head] = c` -/
  | writeStore (c : UInt8) (buf : UserSrc) (todo copied : ℕ)
  /-- at `d->head = (d->head + 1) % BUF_SIZE` -/
  | writeHead (buf : UserSrc) (todo copied : ℕ)
  /-- at `d->size++` -/
  | writeSize (buf : UserSrc) (todo copied : ℕ)
  /-- in `IOCTL_RESET`, at `dev.tail = 0`, after `dev.size = 0` -/
  | resetTail
  /-- at `dev.head = 0` -/
  | resetHead

/-- The statement at each place. -/
def goldStmt : GoldPlace → GoldDev → Stmt GoldDev GoldPlace GoldQueue Ret
  | .entered (.read ctx buf count), d =>
    if ctx.nonblocking && bufferEmpty d then .done ⟨d, .error eagain, none⟩
    else .more d (.readTest buf count 0 [])
  | .entered (.write ctx buf count), d =>
    if ctx.nonblocking && bufferFull d then .done ⟨d, .error eagain, none⟩
    else .more d (.writeTest buf count 0)
  | .entered .poll, d => .done ⟨d, ⟨goldPoll d, []⟩, none⟩
  | .entered (.ioctl cmd arg), d =>
    if cmd = ioctlReset then .more { d with size := 0 } .resetTail
    else .done ⟨d, goldIoctlUnlocked cmd arg, none⟩
  | .readTest _ 0 copied out, d => .done ⟨d, ⟨copied, out⟩, some .writeQueue⟩
  | .readTest buf (todo + 1) copied out, d =>
    if bufferEmpty d then .done ⟨d, ⟨copied, out⟩, some .writeQueue⟩
    else if buf copied then .more d (.readTail buf todo copied (out ++ [d.front]))
    else .done ⟨d, ⟨-efault, out⟩, none⟩
  | .readTail buf todo copied out, d =>
    .more { d with tail := (d.tail + 1) % bufSize } (.readSize buf todo copied out)
  | .readSize buf todo copied out, d =>
    .more { d with size := d.size - 1 } (.readTest buf todo (copied + 1) out)
  | .writeTest _ 0 copied, d => .done ⟨d, ⟨copied, []⟩, some .readQueue⟩
  | .writeTest buf (todo + 1) copied, d =>
    if bufferFull d then .done ⟨d, ⟨copied, []⟩, some .readQueue⟩
    else match buf copied with
      | none => .done ⟨d, ⟨-efault, []⟩, none⟩
      | some c => .more d (.writeStore c buf todo copied)
  | .writeStore c buf todo copied, d =>
    .more { d with buffer := d.buffer.setIfInBounds d.head c } (.writeHead buf todo copied)
  | .writeHead buf todo copied, d =>
    .more { d with head := (d.head + 1) % bufSize } (.writeSize buf todo copied)
  | .writeSize buf todo copied, d =>
    .more { d with size := d.size + 1 } (.writeTest buf todo (copied + 1))
  | .resetTail, d => .more { d with tail := 0 } .resetHead
  | .resetHead, d => .done ⟨{ d with head := 0 }, ⟨0, []⟩, some .writeQueue⟩

/-- The critical sections in small steps. -/
def goldSteps : SmallSteps GoldDev GoldQueue GoldCall Ret GoldPlace where
  first c _ := .entered c
  stmt := goldStmt

/-! ## Left alone, they do what `goldBody` does -/

/-- The loop of `gold_read`, after it has handed out some bytes. -/
theorem leads_readTest (buf : UserDst) (todo copied : ℕ) (out : List UInt8) (d : GoldDev) :
    goldSteps.Leads (.readTest buf todo copied out) d
      (LoopExit.finish ⟨(readLoop buf todo copied d).dev, out ++ (readLoop buf todo copied d).out,
        (readLoop buf todo copied d).copied⟩ .writeQueue) := by
  induction todo generalizing copied out d with
  | zero =>
    rw [readLoop, List.append_nil]
    exact .done rfl
  | succ todo ih =>
    rw [readLoop]
    by_cases hempty : bufferEmpty d = true
    · rw [if_pos hempty, List.append_nil]
      exact .done (by simp only [goldSteps, goldStmt, if_pos hempty, LoopExit.finish])
    · rw [if_neg hempty]
      by_cases hok : buf copied = true
      · -- three assignments, and the rest of the loop
        rw [if_pos hok]
        have hrest := ih (copied + 1) (out ++ [d.front]) d.drop
        rw [List.append_assoc, List.singleton_append] at hrest
        have htest : goldStmt (.readTest buf (todo + 1) copied out) d =
            .more d (.readTail buf todo copied (out ++ [d.front])) := by
          simp only [goldStmt, if_neg hempty, if_pos hok]
        exact .more htest (.more rfl (.more rfl hrest))
      · rw [if_neg hok, List.append_nil]
        exact .done (by simp only [goldSteps, goldStmt, if_neg hempty, if_neg hok, LoopExit.finish])

/-- The loop of `gold_write`. -/
theorem leads_writeTest (buf : UserSrc) (todo copied : ℕ) (d : GoldDev) :
    goldSteps.Leads (.writeTest buf todo copied) d
      ((writeLoop buf todo copied d).finish .readQueue) := by
  induction todo generalizing copied d with
  | zero => exact .done rfl
  | succ todo ih =>
    rw [writeLoop]
    by_cases hfull : bufferFull d = true
    · rw [if_pos hfull]
      exact .done (by simp only [goldSteps, goldStmt, if_pos hfull, LoopExit.finish])
    · rw [if_neg hfull]
      cases hbuf : buf copied with
      | none =>
        exact .done (by simp only [goldSteps, goldStmt, if_neg hfull, hbuf, LoopExit.finish])
      | some c =>
        have htest : goldStmt (.writeTest buf (todo + 1) copied) d =
            .more d (.writeStore c buf todo copied) := by
          simp only [goldStmt, if_neg hfull, hbuf]
        exact .more htest (.more rfl (.more rfl (.more rfl (ih (copied + 1) (d.put c)))))

/-- **A section that is left alone** does what `goldBody` does in one step. -/
theorem goldSteps_implements : goldSteps.Implements goldMonitor := by
  intro c via d
  change goldSteps.Leads (.entered c) d (goldBody c d)
  cases c with
  | read ctx buf count =>
    rw [goldBody, goldReadLocked]
    by_cases hagain : (ctx.nonblocking && bufferEmpty d) = true
    · rw [if_pos hagain]
      exact .done (if_pos hagain)
    · rw [if_neg hagain]
      exact .more (if_neg hagain) (leads_readTest buf count 0 [] d)
  | write ctx buf count =>
    rw [goldBody, goldWriteLocked]
    by_cases hagain : (ctx.nonblocking && bufferFull d) = true
    · rw [if_pos hagain]
      exact .done (if_pos hagain)
    · rw [if_neg hagain]
      exact .more (if_neg hagain) (leads_writeTest buf count 0 d)
  | poll => exact .done rfl
  | ioctl cmd arg =>
    rw [goldBody]
    by_cases hcmd : cmd = ioctlReset
    · rw [if_pos hcmd]
      exact .more (if_pos hcmd) (.more rfl (.done rfl))
    · rw [if_neg hcmd]
      exact .done (if_neg hcmd)

/-! ## What others see in the middle of a section -/

/-- What has become of `size` since the section has started on `d₀`. -/
def SizeSince (d₀ : GoldDev) (k : GoldPlace) (d : GoldDev) : Prop :=
  match k with
  | .entered _ => d = d₀
  | .readTest .. | .readTail .. | .readSize .. => d.size ≤ d₀.size
  | .writeTest .. | .writeStore .. | .writeHead .. | .writeSize .. => d₀.size ≤ d.size
  | .resetTail | .resetHead => d.size = 0

/-- What will have become of it when the section ends. -/
def SizeUntil (k : GoldPlace) (d : GoldDev) (o : Outcome GoldDev GoldQueue Ret) : Prop :=
  match k with
  | .entered _ => True
  | .readTest .. | .readTail .. | .readSize .. => o.next.size ≤ d.size
  | .writeTest .. | .writeStore .. | .writeHead .. | .writeSize .. => d.size ≤ o.next.size
  | .resetTail | .resetHead => o.next.size = d.size

/-- A read takes from the ring, a write adds to it, and a reset empties it at once. -/
theorem SizeSince.more {d₀ d d' : GoldDev} {k k' : GoldPlace} (h : SizeSince d₀ k d)
    (hstmt : goldStmt k d = .more d' k') : SizeSince d₀ k' d' := by
  unfold goldStmt at hstmt
  split at hstmt <;> (repeat' split at hstmt) <;> cases hstmt <;> dsimp only [SizeSince] at h ⊢
  all_goals first
    | exact h
    | exact le_of_eq (congrArg GoldDev.size h)
    | exact ge_of_eq (congrArg GoldDev.size h)
    | exact (Nat.sub_le _ _).trans h
    | exact h.trans (Nat.le_succ _)

theorem sizeUntil_of_leads {k : GoldPlace} {d : GoldDev} {o : Outcome GoldDev GoldQueue Ret}
    (h : goldSteps.Leads k d o) : SizeUntil k d o := by
  induction h with
  | @done k d o hstmt =>
    change goldStmt k d = .done o at hstmt
    unfold goldStmt at hstmt
    split at hstmt <;> (repeat' split at hstmt) <;> cases hstmt <;> first
      | exact trivial
      | exact le_rfl
      | exact rfl
  | @more k k' d d' o hstmt _ ih =>
    change goldStmt k d = .more d' k' at hstmt
    unfold goldStmt at hstmt
    split at hstmt <;> (repeat' split at hstmt) <;> cases hstmt <;> dsimp only [SizeUntil] at ih ⊢
    all_goals first
      | exact ih
      | exact ih.trans (Nat.sub_le _ _)
      | exact (Nat.le_succ _).trans ih

/-- **An unlocked look** in the middle of a section sees what a look in front of it or behind it
would have seen. -/
theorem goldCond_between {d₀ d : GoldDev} {k : GoldPlace} {o : Outcome GoldDev GoldQueue Ret}
    (h₀ : d₀.size ≤ bufSize) (ho : o.next.size ≤ bufSize) (hsince : SizeSince d₀ k d)
    (huntil : SizeUntil k d o) (q : GoldQueue) :
    goldCond q d = goldCond q d₀ ∨ goldCond q d = goldCond q o.next := by
  have hsizes : d = d₀ ∨ o.next.size ≤ d.size ∧ d.size ≤ d₀.size ∨
      d₀.size ≤ d.size ∧ d.size ≤ o.next.size ∨ o.next.size = d.size := by
    unfold SizeSince at hsince
    unfold SizeUntil at huntil
    cases k
    case entered => exact .inl hsince
    case readTest | readTail | readSize => exact .inr (.inl ⟨huntil, hsince⟩)
    case writeTest | writeStore | writeHead | writeSize =>
      exact .inr (.inr (.inl ⟨hsince, huntil⟩))
    case resetTail | resetHead => exact .inr (.inr (.inr huntil))
  obtain rfl | hsizes := hsizes
  · exact .inl rfl
  have hread : ∀ x, goldCond .readQueue x = decide (x.size ≠ 0) := by
    intro x
    rw [decide_not]
    rfl
  have hwrite : ∀ x, goldCond .writeQueue x = decide (x.size ≠ bufSize) := by
    intro x
    rw [decide_not]
    rfl
  cases q with
  | readQueue =>
    simp only [hread, decide_eq_decide]
    omega
  | writeQueue =>
    simp only [hwrite, decide_eq_decide]
    omega

/-! ## The device -/

/-- Any number of tasks on the device, with sections in small steps. -/
abbrev GoldFine (Tid : Type) : Type :=
  SmallSteps.State GoldDev GoldQueue GoldCall Ret GoldPlace Tid

/-- **`gold_dev` is a bounded FIFO byte queue, byte by byte.** With a step for each assignment to
the ring, and the other tasks in between: the history is a run of the queue that the device held
when the lock was last free; a section that is under way can get to its end by itself, and does
there what it would do in one step; and whoever looks at `size` without the lock in the meantime
sees what it would have seen in front of the section or behind it. -/
theorem gold_bytes_refine_fifo {Tid : Type} [DecidableEq Tid] {s : GoldFine Tid}
    (hs : (goldSteps.lts goldMonitor Tid goldInit).Reachable s) :
    ∃ d, ∃ h : RingInv d, ∃ es,
      List.Forall₂ Explains s.outer.log es ∧
      (Fifo.lts UInt8 bufSize).Run .empty es h.toFifo ∧
      (s.inside = none → s.outer.dev = d) ∧
      ∀ i, s.inside = some i →
        (∃ n, (goldSteps.lts goldMonitor Tid goldInit).Run s (List.replicate n .work)
          ⟨s.outer.serve i.tid i.call i.via (goldBody i.call d), none⟩) ∧
        ∀ q, goldCond q s.outer.dev = goldCond q d ∨
          goldCond q s.outer.dev = goldCond q (goldBody i.call d).next := by
  obtain ⟨d, hatomic⟩ := (SmallSteps.atomic_inductive (J := fun _ _ d₀ k d => SizeSince d₀ k d)
    goldSteps_implements (fun _ _ _ => rfl) SizeSince.more).reachable hs
  obtain ⟨h, es, hlog, hrun⟩ := serveAll_refines (s.outer.log.map Monitor.Served.op)
  have hserial := hatomic.serial
  simp only [hserial] at h hlog hrun
  refine ⟨d, h, es, hlog, hrun, hatomic.free, fun i hi => ?_⟩
  obtain ⟨hleads, hsince⟩ := hatomic.busy i hi
  refine ⟨SmallSteps.exists_finish hleads hi rfl rfl, fun q => ?_⟩
  exact goldCond_between h.size_le (ringInv_goldBody h i.call).size_le hsince
    (sizeUntil_of_leads hleads) q

/-- A task writes two bytes and is stopped in the middle of the second iteration. -/
def halfway : List (SmallSteps.Act GoldCall Monitor.Duo) :=
  let write : GoldCall := .write ⟨true⟩ (fun _ => some 87) 2
  [.task (.call .one write), .task (.enter .one), .task (.lock .one)] ++ List.replicate 7 .work

/-- One byte is in the ring, and the section can get to its end. -/
theorem gold_bytes_refine_fifo_halfway :
    ∃ s, (goldSteps.lts goldMonitor Monitor.Duo goldInit).Run ⟨Monitor.start goldInit, none⟩
        halfway s ∧ s.outer.dev.size = 1 ∧
      ∃ i, s.inside = some i ∧ ∃ n s', (goldSteps.lts goldMonitor Monitor.Duo goldInit).Run s
        (List.replicate n .work) s' ∧ s'.inside = none := by
  have hmap : (halfway.foldlM (goldSteps.next goldMonitor) ⟨Monitor.start goldInit, none⟩).map
      (fun s => (s.outer.dev.size, s.inside.isSome)) = some (1, true) := by decide +kernel
  obtain ⟨s, hrun, hseen⟩ := Lts.exists_run_of_map _ _ hmap
  obtain ⟨hsize, hin⟩ := Prod.mk.inj hseen
  obtain ⟨i, hi⟩ := Option.isSome_iff_exists.mp hin
  obtain ⟨d, -, -, -, -, -, hbusy⟩ := gold_bytes_refine_fifo (hrun.reachable rfl)
  obtain ⟨⟨n, hn⟩, -⟩ := hbusy i hi
  exact ⟨s, hrun, hsize, i, hi, n, _, hn, rfl⟩

end GoldDevice

end KernelModules
