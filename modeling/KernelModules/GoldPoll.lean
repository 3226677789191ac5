import KernelModules.GoldWaits
import KernelModules.Poll

/-!
# Polling `gold_dev`

`gold_poll` puts a task on both queues before it looks under the lock, so it may miss a change only
before it is asked.

* `gold_poll_loses_no_wakeup` — **no wake-up is lost in `poll`**, with the one exception there is
  for blocking calls: a section that ends an empty or a full ring on its way to a fault;
* `gold_poll_promise` — **what `gold_poll` reports stays true** until somebody takes it away.
-/

namespace KernelModules

namespace GoldDevice

/-! ## Wake-ups -/

/-- The events `gold_poll` reports when the condition of a queue holds. -/
def eventsOf : GoldQueue → ℕ
  | .readQueue => pollIn ||| pollRdNorm
  | .writeQueue => pollOut ||| pollWrNorm

/-- `gold_poll` registers a task on both queues, and finds what is in its mask. -/
def goldPolled : Polled GoldDev GoldQueue ℕ where
  queues := [.readQueue, .writeQueue]
  finds events d := decide (goldPoll d &&& events ≠ 0)

/-- Some of the events a task asks for are those of `q`. -/
def AsksFor (events : ℕ) (q : GoldQueue) : Prop := eventsOf q &&& events ≠ 0

theorem goldPoll_eq (d : GoldDev) :
    goldPoll d = (if goldCond .readQueue d then eventsOf .readQueue else 0) |||
      if goldCond .writeQueue d then eventsOf .writeQueue else 0 := by
  rw [goldPoll, goldCond, goldCond]
  cases bufferEmpty d <;> cases bufferFull d <;> rfl

/-- The mask has one of the events exactly when the condition of such a queue holds. -/
theorem goldPoll_and {d : GoldDev} {events : ℕ} :
    goldPoll d &&& events ≠ 0 ↔ ∃ q, AsksFor events q ∧ goldCond q d = true := by
  have hside : ∀ q : GoldQueue, (if goldCond q d then eventsOf q else 0) &&& events ≠ 0 ↔
      AsksFor events q ∧ goldCond q d = true := by
    intro q
    cases goldCond q d <;> simp [AsksFor]
  rw [goldPoll_eq, Nat.and_or_distrib_right, ne_eq, Nat.or_eq_zero_iff, not_and_or]
  constructor
  · rintro (h | h)
    · exact ⟨.readQueue, (hside .readQueue).mp h⟩
    · exact ⟨.writeQueue, (hside .writeQueue).mp h⟩
  · rintro ⟨q, hq⟩
    cases q with
    | readQueue => exact .inl ((hside .readQueue).mpr hq)
    | writeQueue => exact .inr ((hside .writeQueue).mpr hq)

theorem goldPolled_answers : goldPolled.Answers goldMonitor AsksFor where
  finds_iff := by
    intro events d
    rw [goldPolled, decide_eq_true_iff]
    exact goldPoll_and
  mem_queues := by
    intro events q _
    cases q <;> simp [goldPolled]

/-- The tasks on the device and those that poll it. -/
abbrev GoldPollState (Tid Pid : Type) : Type :=
  Polled.State GoldDev GoldQueue GoldCall Ret Tid Pid ℕ

section Run

variable {Tid Pid : Type} [DecidableEq Tid] [DecidableEq Pid]

omit [DecidableEq Tid] in
/-- A section that makes no condition true on its way to a fault announces what it does. -/
theorem wakes_of_allowed {s : GoldState Tid} {a : Monitor.Act GoldCall Tid}
    (hinv : RingInv s.dev) (hP : Monitor.Allowed (fun _ => True) NoSilentChange s a) :
    goldMonitor.Wakes s a := by
  cases a with
  | lock t =>
    intro c via q hp hbefore hafter
    by_contra hwakes
    have hbefore' : ¬ goldCond q s.dev = true := by
      rw [Bool.not_eq_true]
      exact hbefore
    exact (hP.section hp).not_opens q ((silentlyOpens_iff hinv).mpr ⟨hbefore', hafter, hwakes⟩)
  | _ => trivial

/-- In a run without a silent change, every task in `poll` is on both queues and has a waker when
there is what it asks for. -/
theorem pollDue_reachable {s : GoldPollState Tid Pid}
    (hs : ((goldPolled.lts goldMonitor Tid Pid goldInit).restrict
      (Polled.OnTasks (Monitor.Allowed (fun _ => True) NoSilentChange))).Reachable s) :
    (∀ p, ∀ q ∈ goldPolled.queues, (s.poller p).Covers q) ∧ Polled.Due goldMonitor AsksFor s := by
  refine (Polled.due_inductive goldPolled_answers).reachable (hs.restrict_of ?_)
  intro s a hs hP
  cases a with
  | task b => exact wakes_of_allowed (ringInv_reachable (Polled.base_reachable hs)) hP
  | _ => trivial

/-- A silent section wakes nobody at all. -/
theorem wakes_none_of_silent {d : GoldDev} (h : RingInv d) {c : GoldCall} {q : GoldQueue}
    (hsilent : SilentlyOpens d c q) : (goldBody c d).wakes = none := by
  obtain ⟨-, -, hwakes⟩ := (silentlyOpens_iff h).mp hsilent
  cases c with
  | read ctx buf count =>
    cases q with
    | readQueue => exact hsilent.elim
    | writeQueue =>
      obtain ⟨-, -, -, ⟨-, -, -, hw⟩ | ⟨-, -, hw⟩ | ⟨-, -, hw⟩⟩ :=
        goldReadLocked_spec h ctx buf count
      · exact hw
      · exact absurd hw hwakes
      · exact hw
  | write ctx buf count =>
    cases q with
    | writeQueue => exact hsilent.elim
    | readQueue =>
      obtain ⟨-, -, -, ⟨-, -, -, hw⟩ | ⟨-, -, hw⟩ | ⟨-, -, hw⟩⟩ :=
        goldWriteLocked_spec h ctx buf count
      · exact hw
      · exact absurd hw hwakes
      · exact hw
  | poll | ioctl cmd arg => exact hsilent.elim

/-- **No wake-up is lost in `poll`**: a task that sleeps there while something it asks for is in
the mask has a waker, after which its next look finds it, in every run in which no section makes a
condition true on its way to a fault. If a section does so while nobody is about to wake a queue,
the task sleeps on, what it asks for is in the mask, and still nobody will wake it. -/
theorem gold_poll_loses_no_wakeup {s : GoldPollState Tid Pid} {p : Pid} {events : ℕ}
    {done : List GoldQueue} (hp : s.poller p = .asleep events done) :
    (((goldPolled.lts goldMonitor Tid Pid goldInit).restrict
        (Polled.OnTasks (Monitor.Allowed (fun _ => True) NoSilentChange))).Reachable s →
      goldPoll s.base.dev &&& events ≠ 0 →
        ∃ u s' s'', goldPolled.next goldMonitor s (.task (.leave u)) = some s' ∧
          goldPolled.next goldMonitor s' (.look p) = some s'' ∧ s''.poller p = .idle) ∧
    ((goldPolled.lts goldMonitor Tid Pid goldInit).Reachable s →
      ∀ t c via q, s.base.pc t = .locking c via → SilentlyOpens s.base.dev c q →
        AsksFor events q → (∀ v, (s.base.pc v).toWake = none) →
        ∃ s', goldPolled.next goldMonitor s (.task (.lock t)) = some s' ∧
          goldPoll s'.base.dev &&& events ≠ 0 ∧ s'.poller p = .asleep events done ∧
          ∀ v, (s'.base.pc v).toWake = none) := by
  constructor
  · intro hs hmask
    obtain ⟨hcovers, hdue⟩ := pollDue_reachable hs
    obtain ⟨q, hasks, hcond⟩ := goldPoll_and.mp hmask
    have hwaits : (s.poller p).Waits events := ⟨done, .inr hp⟩
    obtain ⟨u, hu⟩ := hdue p events q hwaits hasks hcond
    have hdone : (s.poller p).Covers q := hcovers p q (goldPolled_answers.mem_queues hasks)
    rw [hp] at hdone
    exact ⟨u, Polled.exists_return goldPolled_answers hu hp hdone hasks hcond⟩
  · intro hs t c via q hlocking hsilent hasks hno
    have hinv : RingInv s.base.dev := by
      refine ringInv_reachable (P := fun _ _ => True) (Polled.base_reachable (hs.to_restrict ?_))
      intro s a
      cases a <;> trivial
    obtain ⟨-, hcond, -⟩ := (silentlyOpens_iff hinv).mp hsilent
    have hbase : goldMonitor.next s.base (.lock t) =
        some (s.base.serve t c via (goldBody c s.base.dev)) := Monitor.next_lock hlocking
    refine ⟨⟨s.base.serve t c via (goldBody c s.base.dev), s.poller⟩, ?_,
      goldPoll_and.mpr ⟨q, hasks, hcond⟩, hp, fun v => ?_⟩
    · rw [Polled.next, hbase]
      rfl
    · by_cases hvt : v = t
      · subst hvt
        rw [Monitor.State.serve_pc_self]
        exact wakes_none_of_silent hinv hsilent
      · rw [Monitor.State.serve_pc_ne _ hvt]
        exact hno v

end Run

/-- One task polls the empty ring for bytes and sleeps; then a task comes to the lock. -/
def pollerAndWriter (c : GoldCall) : List (Polled.Act GoldCall Monitor.Duo Unit ℕ) :=
  Polled.Act.toSleep () pollIn ++ (Monitor.Act.toLock .two c).map .task

/-- A task sleeps in `poll`: after a one-byte write its next look finds the byte, after a write that
faults at its second byte it sleeps on and nobody will wake it. -/
theorem gold_poll_loses_no_wakeup_writer :
    (∃ s : GoldPollState Monitor.Duo Unit,
      goldPoll s.base.dev &&& pollIn ≠ 0 ∧ s.poller () = .asleep pollIn [.writeQueue, .readQueue] ∧
      ∃ u s' s'', goldPolled.next goldMonitor s (.task (.leave u)) = some s' ∧
        goldPolled.next goldMonitor s' (.look ()) = some s'' ∧ s''.poller () = .idle) ∧
    ∃ s s' : GoldPollState Monitor.Duo Unit,
      goldPolled.next goldMonitor s (.task (.lock .two)) = some s' ∧
      goldPoll s'.base.dev &&& pollIn ≠ 0 ∧
      s'.poller () = .asleep pollIn [.writeQueue, .readQueue] ∧
      ∀ v, (s'.base.pc v).toWake = none := by
  constructor
  · have hrun : ∃ s : GoldPollState Monitor.Duo Unit,
        ((goldPolled.lts goldMonitor Monitor.Duo Unit goldInit).restrict
          (Polled.OnTasks (Monitor.Allowed (fun _ => True) NoSilentChange))).Reachable s ∧
        (goldPoll s.base.dev, s.poller ()) =
          (eventsOf .readQueue ||| eventsOf .writeQueue,
            .asleep pollIn [.writeQueue, .readQueue]) :=
      Lts.exists_reachable_of_map (pollerAndWriter writeByte ++ [Polled.Act.task (.lock .two)]) _
        (by decide +kernel)
    obtain ⟨s, hs, hobs⟩ := hrun
    have hp : s.poller () = .asleep pollIn [.writeQueue, .readQueue] := congrArg Prod.snd hobs
    have hmask : goldPoll s.base.dev &&& pollIn ≠ 0 := by
      rw [show goldPoll s.base.dev = _ from congrArg Prod.fst hobs]
      decide
    exact ⟨s, hmask, hp, (gold_poll_loses_no_wakeup hp).1 hs hmask⟩
  · have hreach := Lts.reachable_of_foldlM (.init rfl)
      (rfl : (pollerAndWriter faultyWrite).foldlM (goldPolled.next goldMonitor)
        (Polled.start goldInit) = some _)
    have hrun : ∃ s : GoldPollState Monitor.Duo Unit,
        (goldPolled.lts goldMonitor Monitor.Duo Unit goldInit).Reachable s ∧
        s.poller () = .asleep pollIn [.writeQueue, .readQueue] ∧
        s.base.pc .two = .locking faultyWrite (some .writeQueue) ∧
        SilentlyOpens s.base.dev faultyWrite .readQueue ∧
        ∀ v, (s.base.pc v).toWake = none :=
      ⟨_, hreach, rfl, rfl, by decide +kernel, by decide +kernel⟩
    obtain ⟨s, hs, hp, hlocking, hsilent, hno⟩ := hrun
    obtain ⟨s', hlock, hlost⟩ := (gold_poll_loses_no_wakeup hp).2 hs .two faultyWrite
      (some .writeQueue) .readQueue hlocking hsilent (show _ ≠ 0 by decide) hno
    exact ⟨s, s', hlock, hlost⟩

/-! ## What `gold_poll` promises -/

/-- The queues have no events in common. -/
theorem asksFor_eventsOf {q q' : GoldQueue} (h : AsksFor (eventsOf q) q') : q' = q := by
  cases q <;> cases q' <;> first | rfl | exact absurd (by decide) h

/-- A call that takes away what a queue waits for: the bytes, or the room for more. -/
def Spends : GoldQueue → GoldServed → Prop
  | .readQueue, e => returned e ≠ [] ∨ IsReset e
  | .writeQueue, e => ∃ ctx buf count, e.call = .write ctx buf count ∧ 0 < count ∧
      readable buf 0 = true

/-- A `gold_poll` has reported the events of `q`, and since then nobody has taken them away. -/
def Promised (q : GoldQueue) (log : List GoldServed) : Prop :=
  ∃ pre polled post, log = pre ++ polled :: post ∧ polled.call = .poll ∧
    polled.ret.code.toNat &&& eventsOf q ≠ 0 ∧ ∀ e ∈ post, ¬ Spends q e

/-- A call that takes the ring from `d` to `d'` finds what it was promised: a read of at least one
byte returns some, and takes them from the front; a write of at least one byte puts some at the
end, though it may fault later. -/
def KeepsPromise (log : List GoldServed) (c : GoldCall) (d : GoldDev) (ret : Ret) (d' : GoldDev) :
    Prop :=
  (∀ ctx buf count, c = .read ctx buf count → 0 < count → buf 0 = true →
    Promised .readQueue log → ret.out ≠ [] ∧ contents d = ret.out ++ contents d') ∧
  ∀ ctx buf count, c = .write ctx buf count → 0 < count → readable buf 0 = true →
    Promised .writeQueue log →
      ∃ k, 0 < k ∧ k ≤ count ∧ contents d' = contents d ++ buf.bytes 0 k

/-- A section that takes nothing away leaves the condition true. -/
theorem cond_of_not_spends {d : GoldDev} (h : RingInv d) {q : GoldQueue} {c : GoldCall}
    {via : Option GoldQueue} (hcond : goldCond q d = true)
    (hkeeps : ¬ Spends q ⟨c, via, (goldBody c d).ret⟩) :
    goldCond q (goldBody c d).next = true := by
  cases c with
  | read ctx buf count =>
    obtain ⟨-, -, hout, -⟩ := goldReadLocked_spec h ctx buf count
    have hsize := size_goldReadLocked h ctx buf count
    have hsize_le := h.size_le
    change goldCond q (goldReadLocked ctx buf count d).next = true
    cases q with
    | readQueue =>
      -- it has returned nothing, so it has moved nothing
      rw [goldCond_readQueue] at hcond ⊢
      have hnone : (goldReadLocked ctx buf count d).ret.out = [] := by
        by_contra hne
        exact hkeeps (.inl hne)
      have hlen := congrArg List.length (hout.symm.trans hnone)
      rw [List.length_take, length_contents, List.length_nil] at hlen
      omega
    | writeQueue =>
      rw [goldCond_writeQueue] at hcond ⊢
      omega
  | write ctx buf count =>
    have hsize := size_goldWriteLocked h ctx buf count
    change goldCond q (goldWriteLocked ctx buf count d).next = true
    cases q with
    | readQueue =>
      rw [goldCond_readQueue] at hcond ⊢
      omega
    | writeQueue =>
      -- it has nothing to store, or faults at once
      rw [goldCond_writeQueue] at hcond ⊢
      have hnone : writeMoves buf count d = 0 := by
        rw [writeMoves, reach_eq_zero_iff]
        by_contra hmoves
        obtain ⟨hcount, hok⟩ := not_or.mp hmoves
        exact hkeeps ⟨ctx, buf, count, rfl, by omega, Bool.not_eq_false _ ▸ hok⟩
      omega
  | poll => exact hcond
  | ioctl cmd arg =>
    by_cases hcmd : cmd = ioctlReset
    · rw [goldBody, if_pos hcmd]
      cases q with
      | readQueue => exact absurd (.inr ⟨arg, by rw [hcmd]⟩) hkeeps
      | writeQueue => rfl
    · rw [goldBody, if_neg hcmd]
      exact hcond

/-- A read of a ring that holds something takes something. -/
theorem takes_of_read {d : GoldDev} (h : RingInv d) {ctx : FileCtx} {buf : UserDst} {count : ℕ}
    (hcount : 0 < count) (hbuf : buf 0 = true) (hcond : goldCond .readQueue d = true) :
    (goldReadLocked ctx buf count d).ret.out ≠ [] ∧
      contents d = (goldReadLocked ctx buf count d).ret.out ++
        contents (goldReadLocked ctx buf count d).next := by
  obtain ⟨-, hcont, hout, -⟩ := goldReadLocked_spec h ctx buf count
  rw [goldCond_readQueue] at hcond
  have hmoves : readMoves buf count d ≠ 0 := by
    rw [readMoves, ne_eq, reach_eq_zero_iff, hbuf]
    rintro (hnone | hfault)
    · omega
    · cases hfault
  rw [hout, hcont, List.take_append_drop, ← List.length_pos_iff, List.length_take, length_contents]
  exact ⟨by omega, rfl⟩

/-- A write to a ring that has room stores something. -/
theorem stores_of_write {d : GoldDev} (h : RingInv d) {ctx : FileCtx} {buf : UserSrc} {count : ℕ}
    (hcount : 0 < count) (hbuf : readable buf 0 = true) (hcond : goldCond .writeQueue d = true) :
    ∃ k, 0 < k ∧ k ≤ count ∧
      contents (goldWriteLocked ctx buf count d).next = contents d ++ buf.bytes 0 k := by
  obtain ⟨-, hcont, -⟩ := goldWriteLocked_spec h ctx buf count
  have hsize_le := h.size_le
  rw [goldCond_writeQueue] at hcond
  have hmoves : writeMoves buf count d ≠ 0 := by
    rw [writeMoves, ne_eq, reach_eq_zero_iff, hbuf]
    rintro (hnone | hfault)
    · omega
    · cases hfault
  have hle := writeMoves_le buf count d
  exact ⟨writeMoves buf count d, Nat.pos_of_ne_zero hmoves, by omega, hcont⟩

/-- One more section: what is promised after it was promised before, or it is the `gold_poll` that
promises it. -/
theorem promised_concat {log : List GoldServed} {q : GoldQueue} {x : GoldServed}
    (h : Promised q (log ++ [x])) :
    Promised q log ∧ ¬ Spends q x ∨ x.call = .poll ∧ x.ret.code.toNat &&& eventsOf q ≠ 0 := by
  obtain ⟨pre, polled, post, hlog, hpoll, hmask, hpost⟩ := h
  obtain ⟨post', hlog', rfl⟩ | ⟨-, rfl⟩ := split_concat_post hlog
  · obtain ⟨hold, hx⟩ := forall_mem_concat.mp hpost
    exact .inl ⟨⟨pre, polled, post', hlog', hpoll, hmask, hold⟩, hx⟩
  · exact .inr ⟨hpoll, hmask⟩

section Promise

variable {Tid : Type} [DecidableEq Tid] {s s' : GoldState Tid}

/-- What is promised holds. -/
theorem promised_reachable (hs : (goldMonitor.lts Tid goldInit).Reachable s) :
    RingInv s.dev ∧ ∀ q, Promised q s.log → goldCond q s.dev = true := by
  refine Monitor.reachable_sections (J := fun d log =>
    RingInv d ∧ ∀ q, Promised q log → goldCond q d = true) ?_ ?_ hs
  · refine ⟨ringInv_goldInit, ?_⟩
    rintro q ⟨pre, polled, post, hlog, -⟩
    simp at hlog
  · rintro d log c via ⟨hinv, hholds⟩
    refine ⟨ringInv_goldBody hinv c, fun q hq => ?_⟩
    obtain ⟨hold, hx⟩ | ⟨hpoll, hmask⟩ := promised_concat hq
    · exact cond_of_not_spends hinv (hholds q hold) hx
    · obtain rfl : c = .poll := hpoll
      change goldPoll d &&& eventsOf q ≠ 0 at hmask
      obtain ⟨q', hasks, hcond⟩ := goldPoll_and.mp hmask
      obtain rfl := asksFor_eventsOf hasks
      exact hcond

/-- **What `gold_poll` reports stays true**: in every run, between a `gold_poll` that reports bytes
to read and a read of at least one byte that takes none from the ring, somebody has taken bytes or
reset it; and between a `gold_poll` that reports room and a write of at least one byte that adds
none to the ring, somebody else has written. Calls that a signal cuts short come to no section. -/
theorem gold_poll_promise (hs : (goldMonitor.lts Tid goldInit).Reachable s) {t : Tid} {c : GoldCall}
    {via : Option GoldQueue} (hlocking : s.pc t = .locking c via)
    (hlock : goldMonitor.next s (.lock t) = some s') :
    ∃ ret, s'.log = s.log ++ [⟨c, via, ret⟩] ∧ KeepsPromise s.log c s.dev ret s'.dev := by
  obtain ⟨hinv, hholds⟩ := promised_reachable hs
  rw [Monitor.next_lock hlocking] at hlock
  cases hlock
  refine ⟨_, rfl, ?_, ?_⟩
  · rintro ctx buf count rfl hcount hbuf hpromised
    exact takes_of_read hinv hcount hbuf (hholds .readQueue hpromised)
  · rintro ctx buf count rfl hcount hbuf hpromised
    exact stores_of_write hinv hcount hbuf (hholds .writeQueue hpromised)

end Promise

/-- One task writes a byte, polls, and comes to the lock with another call. -/
def polledThen (c : GoldCall) : List (Monitor.Act GoldCall Monitor.Duo) :=
  Monitor.Act.through .one writeByte ++ Monitor.Act.direct .one .poll ++
    Monitor.Act.toLock .one c

/-- What a `gold_poll` after a one-byte write has promised. -/
theorem promised_polled {q : GoldQueue} {ret ret' : Ret}
    (hmask : ret'.code.toNat &&& eventsOf q ≠ 0) :
    Promised q [⟨writeByte, some .writeQueue, ret⟩, ⟨.poll, none, ret'⟩] :=
  ⟨[_], _, [], rfl, rfl, hmask, by simp⟩

/-- A read takes a byte, as promised; a write stores one, although it faults at the next. -/
theorem gold_poll_promise_both :
    (∃ (s s' : GoldState Monitor.Duo) (ret : Ret),
      goldMonitor.next s (.lock .one) = some s' ∧ Promised .readQueue s.log ∧
        ret.out ≠ [] ∧ contents s.dev = ret.out ++ contents s'.dev) ∧
    ∃ (s s' : GoldState Monitor.Duo) (k : ℕ),
      goldMonitor.next s (.lock .one) = some s' ∧ Promised .writeQueue s.log ∧
        0 < k ∧ (contents s'.dev).length = (contents s.dev).length + k := by
  constructor
  · have hreach := Lts.reachable_of_foldlM (.init rfl)
      (rfl : (polledThen readByte).foldlM goldMonitor.next (Monitor.start goldInit) = some _)
    have hrun : ∃ (s : GoldState Monitor.Duo) (ret ret' : Ret),
        (goldMonitor.lts Monitor.Duo goldInit).Reachable s ∧
        s.pc .one = .locking readByte (some .readQueue) ∧
        s.log = [⟨writeByte, some .writeQueue, ret⟩, ⟨.poll, none, ret'⟩] ∧
        ret'.code.toNat &&& eventsOf .readQueue ≠ 0 := by
      refine ⟨_, _, _, hreach, rfl, rfl, ?_⟩
      decide +kernel
    obtain ⟨s, ret, ret', hs, hlocking, hlog, hmask⟩ := hrun
    have hpromised : Promised .readQueue s.log := hlog ▸ promised_polled hmask
    obtain ⟨ret, -, hread, -⟩ := gold_poll_promise hs hlocking (Monitor.next_lock hlocking)
    exact ⟨s, _, ret, Monitor.next_lock hlocking, hpromised,
      hread ⟨false⟩ _ 1 rfl Nat.one_pos rfl hpromised⟩
  · have hreach := Lts.reachable_of_foldlM (.init rfl)
      (rfl : (polledThen faultyWrite).foldlM goldMonitor.next (Monitor.start goldInit) = some _)
    have hrun : ∃ (s : GoldState Monitor.Duo) (ret ret' : Ret),
        (goldMonitor.lts Monitor.Duo goldInit).Reachable s ∧
        s.pc .one = .locking faultyWrite (some .writeQueue) ∧
        s.log = [⟨writeByte, some .writeQueue, ret⟩, ⟨.poll, none, ret'⟩] ∧
        ret'.code.toNat &&& eventsOf .writeQueue ≠ 0 := by
      refine ⟨_, _, _, hreach, rfl, rfl, ?_⟩
      decide +kernel
    obtain ⟨s, ret, ret', hs, hlocking, hlog, hmask⟩ := hrun
    have hpromised : Promised .writeQueue s.log := hlog ▸ promised_polled hmask
    obtain ⟨-, -, -, hwrite⟩ := gold_poll_promise hs hlocking (Monitor.next_lock hlocking)
    obtain ⟨k, hk, -, hcont⟩ := hwrite ⟨false⟩ _ 2 rfl Nat.two_pos rfl hpromised
    refine ⟨s, _, k, Monitor.next_lock hlocking, hpromised, hk, ?_⟩
    rw [hcont, List.length_append, UserSrc.length_bytes]

end GoldDevice

end KernelModules
