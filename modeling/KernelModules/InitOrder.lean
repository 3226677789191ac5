import KernelModules.Publication
import KernelModules.GoldRing
import KernelModules.FixedDevice
import Mathlib.Tactic.IntervalCases

/-!
# `gold_init` and `fixed_init`

Both drivers call `cdev_add` before they have initialised their wait queues, and
`gold_init` also before it initialises its lock and assigns to the ring. The steps are
those of the source in order; a failing step ends the initialisation, so it is a run in
which the next one is never taken.

`init_order_harmless` says how many steps a call needs: with no call before the steps it
needs, nothing is used before it is initialised and nothing that was written is thrown
away; and any call that comes before them can do harm.
-/

namespace KernelModules

namespace GoldDevice

/-! ## `gold_init` -/

/-- The steps of `gold_init`. -/
def goldInitSteps : List (InitStep GoldDev GoldQueue) :=
  [ -- `alloc_chrdev_region`, `cdev_init`
    .other, .other,
    -- `cdev_add`
    .publish,
    -- `class_create`, `device_create`
    .other, .other,
    -- `mutex_init`, `init_waitqueue_head` twice
    .ready .lock, .ready (.queue .readQueue), .ready (.queue .writeQueue),
    -- `dev.head = dev.tail = dev.size = 0`
    .assign fun d => { d with head := 0, tail := 0, size := 0 } ]

/-- `gold_poll` registers with both queues before it takes the lock. -/
def goldRegisters : GoldCall → List GoldQueue
  | .poll => [.readQueue, .writeQueue]
  | _ => []

/-- The device and its initialisation. -/
def goldBoot : Boot GoldDev GoldQueue GoldCall Ret where
  monitor := goldMonitor
  static _ := false
  steps := goldInitSteps
  registers := goldRegisters
  occupied d := !bufferEmpty d

/-- How many steps must be done before a resource is ready. -/
def goldReadyAfter : Resource GoldQueue → ℕ
  | .lock => 6
  | .queue .readQueue => 7
  | .queue .writeQueue => 8

/-- How many steps of `gold_init` a call needs: those up to the last thing it may touch while
the ring is empty, or all of them if it stores a byte. -/
def goldNeeds : GoldCall → ℕ
  | .read ctx _ _ =>
    if ctx.nonblocking then goldReadyAfter .lock else goldReadyAfter (.queue .readQueue)
  | .write _ buf count =>
    if count = 0 then goldReadyAfter (.queue .readQueue)
    else if (buf 0).isNone then goldReadyAfter .lock
    else goldInitSteps.length
  | .poll => goldReadyAfter (.queue .writeQueue)
  | .ioctl cmd _ => if cmd = ioctlReset then goldReadyAfter (.queue .writeQueue) else 0

theorem goldNeeds_le (c : GoldCall) : goldNeeds c ≤ goldInitSteps.length := by
  cases c <;> simp only [goldNeeds] <;> repeat' split
  all_goals decide

theorem ready_goldBoot (n : ℕ) (r : Resource GoldQueue) :
    goldBoot.ready n r = decide (goldReadyAfter r ≤ n) := by
  rcases Nat.lt_or_ge n 9 with hn | hn
  · interval_cases n <;> rcases r with _ | _ | _ <;> rfl
  · have hafter : goldReadyAfter r ≤ n := le_trans (by rcases r with _ | _ | _ <;> decide) hn
    have htake : goldBoot.steps.take n = goldInitSteps := List.take_of_length_le hn
    rw [Boot.ready, htake, decide_eq_true hafter]
    rcases r with _ | _ | _ <;> rfl

/-- Until the last step the ring is empty. -/
def EmptyUntilInit (n : ℕ) (d : GoldDev) : Prop := n < goldInitSteps.length → d.size = 0

/-- How many steps are done when a call takes the lock: those it needs, or all if it has
waited for data. -/
def goldTakes : GoldCall → ℕ
  | .read ctx _ _ => if ctx.nonblocking then goldReadyAfter .lock else goldInitSteps.length
  | .write ctx buf count => goldNeeds (.write ctx buf count)
  | .poll => goldReadyAfter (.queue .writeQueue)
  | .ioctl cmd _ =>
    if cmd = ioctlReset then goldReadyAfter (.queue .writeQueue) else goldInitSteps.length

/-- Nobody takes the lock before it is ready. -/
theorem lock_le_goldTakes (c : GoldCall) :
    goldReadyAfter .lock ≤ goldTakes c ∧ goldTakes c ≤ goldInitSteps.length := by
  cases c <;> simp only [goldTakes, goldNeeds] <;> repeat' split
  all_goals decide

/-- `gold_write` on the empty ring starts its loop. -/
theorem goldWriteLocked_of_empty {d : GoldDev} (hd : d.size = 0) (ctx : FileCtx) (buf : UserSrc)
    (count : ℕ) :
    goldWriteLocked ctx buf count d = (writeLoop buf count 0 d).finish .readQueue := by
  have hfull : bufferFull d = false := by
    rw [bufferFull_eq_false, hd]
    decide
  rw [goldWriteLocked, hfull, Bool.and_false, if_neg Bool.false_ne_true]

/-- A call on the empty ring that is in time leaves it empty, and the queue it wakes is ready. -/
theorem goldBody_of_empty {n : ℕ} (hn : n < goldInitSteps.length) {c : GoldCall}
    (hc : goldTakes c ≤ n) {d : GoldDev} (hd : d.size = 0) :
    (goldBody c d).next.size = 0 ∧
      ∀ q, (goldBody c d).wakes = some q → goldReadyAfter (.queue q) ≤ n := by
  have hempty : bufferEmpty d = true := bufferEmpty_eq_true.mpr hd
  cases c with
  | read ctx buf count =>
    rw [goldTakes] at hc
    split at hc
    · next hnb =>
      have ho : goldBody (.read ctx buf count) d = ⟨d, .error eagain, none⟩ := by
        rw [goldBody, goldReadLocked, hnb, hempty]
        rfl
      rw [ho]
      exact ⟨hd, fun q hq => by cases hq⟩
    · omega
  | write ctx buf count =>
    rw [goldBody, goldWriteLocked_of_empty hd]
    rw [goldTakes, goldNeeds] at hc
    split at hc
    · next hcount =>
      subst hcount
      refine ⟨hd, fun q hq => ?_⟩
      cases hq
      exact hc
    · next hcount =>
      obtain ⟨count, rfl⟩ := Nat.exists_eq_succ_of_ne_zero hcount
      split at hc
      · next hbuf =>
        have hfull : bufferFull d = false := by
          rw [bufferFull_eq_false, hd]
          decide
        have hloop : writeLoop buf (count + 1) 0 d = ⟨d, [], none⟩ := by
          rw [writeLoop, hfull, if_neg Bool.false_ne_true, Option.isNone_iff_eq_none.mp hbuf]
        rw [hloop]
        exact ⟨hd, fun q hq => by cases hq⟩
      · omega
  | poll => exact ⟨hd, fun q hq => by cases hq⟩
  | ioctl cmd arg =>
    rw [goldTakes] at hc
    split at hc
    · next hcmd =>
      rw [goldBody, if_pos hcmd]
      refine ⟨rfl, fun q hq => ?_⟩
      cases hq
      exact hc
    · omega

/-- A call that goes straight to the lock takes it with what it came with. -/
theorem goldTakes_of_lock {c : GoldCall} {d : GoldDev} (h : goldEntry c d = .lock) :
    goldTakes c = goldNeeds c := by
  cases c with
  | read ctx buf count =>
    rw [goldEntry] at h
    split at h
    · next hnb => rw [goldTakes, goldNeeds, if_pos hnb, if_pos hnb]
    · cases h
  | write ctx buf count => rfl
  | poll => rfl
  | ioctl cmd arg =>
    rw [goldEntry] at h
    split at h
    · next hcmd => rw [goldTakes, goldNeeds, if_pos hcmd, if_pos hcmd]
    · cases h

/-- A call that waits is a read that needs its queue, or a write. -/
theorem goldNeeds_of_wait {c : GoldCall} {d : GoldDev} {q : GoldQueue}
    (h : goldEntry c d = .wait q) :
    q = .readQueue ∧ goldNeeds c = goldReadyAfter (.queue .readQueue) ∨
      q = .writeQueue ∧ goldTakes c = goldNeeds c := by
  cases c with
  | read ctx buf count =>
    rw [goldEntry] at h
    split at h
    · cases h
    · next hnb =>
      cases h
      exact .inl ⟨rfl, if_neg hnb⟩
  | write ctx buf count =>
    rw [goldEntry] at h
    split at h
    · cases h
    · cases h
      exact .inr ⟨rfl, rfl⟩
  | poll => cases h
  | ioctl cmd arg =>
    rw [goldEntry] at h
    split at h <;> cases h

/-- A call that returns at once needs nothing. -/
theorem goldNeeds_of_finish {c : GoldCall} {d : GoldDev} {r : Ret}
    (h : goldEntry c d = .finish r) : goldNeeds c = 0 := by
  cases c with
  | read ctx buf count | write ctx buf count =>
    rw [goldEntry] at h
    split at h <;> cases h
  | poll => cases h
  | ioctl cmd arg =>
    rw [goldEntry] at h
    split at h
    · cases h
    · next hcmd => rw [goldNeeds, if_neg hcmd]

/-- What is known during `gold_init`. -/
def goldPlan : Boot.Plan goldBoot (fun _ => goldNeeds) where
  obj := EmptyUntilInit
  waits n c q := match q with
    | .readQueue => goldReadyAfter (.queue .readQueue) ≤ n
    | .writeQueue => goldTakes c ≤ n
  passed n c _ := goldTakes c ≤ n
  waits_succ := by
    rintro n c (_ | _) h <;> exact Nat.le_succ_of_le h
  passed_succ h := Nat.le_succ_of_le h
  enter := by
    intro n c d hneeds q hq
    rw [ready_goldBoot, decide_eq_true_eq]
    cases c with
    | poll =>
      refine le_trans ?_ hneeds
      cases q <;> decide
    | read _ _ _ | write _ _ _ | ioctl _ _ => cases hq
  direct := by
    intro n c d hneeds _ hentry
    rw [goldTakes_of_lock hentry]
    exact hneeds
  await := by
    intro n c d q hneeds _ hentry
    rcases goldNeeds_of_wait hentry with ⟨rfl, heq⟩ | ⟨rfl, heq⟩
    · exact heq ▸ hneeds
    · exact heq ▸ hneeds
  pass := by
    intro n c d q hwaits hobj hcond
    cases q with
    | readQueue =>
      -- somebody has put something in, so the initialisation is over
      have hdone : ¬ n < goldInitSteps.length := fun hn => by
        have hempty := bufferEmpty_eq_true.mpr (hobj hn)
        rw [show goldBoot.monitor.cond .readQueue d = !bufferEmpty d from rfl, hempty] at hcond
        cases hcond
      exact le_trans (lock_le_goldTakes c).2 (Nat.not_lt.mp hdone)
    | writeQueue => exact hwaits
  miss := by
    intro n c d q hwaits hobj hcond
    rw [ready_goldBoot, decide_eq_true_eq]
    cases q with
    | readQueue => exact hwaits
    | writeQueue =>
      -- a full ring is not empty, so the initialisation is over
      have hdone : ¬ n < goldInitSteps.length := fun hn => by
        have hfull : bufferFull d = true := by simpa [goldBoot, goldMonitor, goldCond] using hcond
        rw [bufferFull_eq_true, hobj hn] at hfull
        cases hfull
      exact le_trans (by decide) (Nat.not_lt.mp hdone)
  ignore := by
    intro n c q _ herr
    cases herr
  lock h := by
    rw [ready_goldBoot, decide_eq_true_eq]
    exact le_trans (lock_le_goldTakes _).1 h
  body h hobj hn := (goldBody_of_empty hn h (hobj hn)).1
  wakes := by
    intro n c via d q h hobj hq
    rw [ready_goldBoot, decide_eq_true_eq]
    by_cases hn : n < goldInitSteps.length
    · exact (goldBody_of_empty hn h (hobj hn)).2 q hq
    · refine le_trans ?_ (Nat.not_lt.mp hn)
      cases q <;> decide
  init := by
    intro n d st hst hobj hn
    have hmem : st ∈ goldInitSteps := List.mem_of_getElem? hst
    have hd : d.size = 0 := hobj (Nat.lt_of_succ_lt hn)
    cases st with
    | assign f =>
      simp only [goldInitSteps, List.mem_cons, reduceCtorEq, InitStep.assign.injEq, false_or,
        List.not_mem_nil, or_false] at hmem
      subst hmem
      rfl
    | other | publish | ready r => exact hd
  keeps := by
    intro n d st hst hobj
    have hn : n < goldInitSteps.length := (List.getElem?_eq_some_iff.mp hst).1
    cases st with
    | assign f => simp [Boot.discards, goldBoot, bufferEmpty, hobj hn]
    | other | publish | ready r => rfl

/-! ## Calls that come too early -/

variable {Tid : Type*} [DecidableEq Tid]

theorem le_size_writeLoop (buf : UserSrc) (todo : ℕ) : ∀ (copied : ℕ) (d : GoldDev),
    d.size ≤ (writeLoop buf todo copied d).dev.size := by
  induction todo with
  | zero => exact fun _ d => le_refl d.size
  | succ todo ih =>
    intro copied d
    rw [writeLoop]
    split
    · exact le_refl d.size
    · split
      · exact le_refl d.size
      · next c _ => exact le_trans (Nat.le_succ _) (ih (copied + 1) (d.put c))

/-- A write whose first byte can be fetched puts something into the empty ring. -/
theorem size_pos_goldWriteLocked {d : GoldDev} (hd : d.size = 0) (ctx : FileCtx) {buf : UserSrc}
    {count : ℕ} (hcount : count ≠ 0) (hbuf : (buf 0).isNone = false) :
    0 < (goldWriteLocked ctx buf count d).next.size := by
  obtain ⟨count, rfl⟩ := Nat.exists_eq_succ_of_ne_zero hcount
  obtain ⟨c, hc⟩ := Option.isSome_iff_exists.mp (Option.isNone_eq_false_iff.mp hbuf)
  have hfull : bufferFull d = false := by
    rw [bufferFull_eq_false, hd]
    decide
  have hloop : writeLoop buf (count + 1) 0 d = writeLoop buf count 1 (d.put c) := by
    rw [writeLoop, hfull, if_neg Bool.false_ne_true, hc]
  have hsize : (goldWriteLocked ctx buf (count + 1) d).next =
      (writeLoop buf count 1 (d.put c)).dev := by
    rw [goldWriteLocked_of_empty hd, hloop, LoopExit.finish]
    split <;> rfl
  rw [hsize]
  exact lt_of_lt_of_le (Nat.succ_pos _) (le_size_writeLoop buf count 1 (d.put c))

/-- The assignment is the last step. -/
theorem assign_mem_drop {n : ℕ} (hn : n < goldInitSteps.length) :
    .assign (fun d => { d with head := 0, tail := 0, size := 0 }) ∈ goldInitSteps.drop n := by
  have hlast : n + (8 - n) = 8 := Nat.add_sub_cancel' (Nat.le_of_lt_succ hn)
  have hget : (goldInitSteps.drop n)[8 - n]? = goldInitSteps[8]? := by
    rw [List.getElem?_drop, hlast]
  exact List.mem_of_getElem? hget

/-- A task at the lock too early, on the empty ring. -/
theorem canHarm_of_locking {s : Boot.State GoldDev GoldQueue GoldCall Ret Tid} {t : Tid}
    {c : GoldCall} {via : Option GoldQueue} (hd : s.mon.dev.size = 0)
    (hp : s.mon.pc t = .locking c via) (hearly : s.done < goldNeeds c)
    (htakes : goldTakes c = goldNeeds c) (hpoll : goldRegisters c = []) :
    Boot.CanHarm goldBoot s := by
  by_cases hlock : s.done < goldReadyAfter .lock
  · refine Boot.canHarm_of_locking hp ?_
    rw [ready_goldBoot]
    exact decide_eq_false (Nat.not_le.mpr hlock)
  have hwakes : ∀ {q}, (goldBody c s.mon.dev).wakes = some q →
      s.done < goldReadyAfter (.queue q) → Boot.CanHarm goldBoot s := by
    intro q hq hqueue
    refine Boot.canHarm_of_wakes hp hq ?_
    rw [ready_goldBoot]
    exact decide_eq_false (Nat.not_le.mpr hqueue)
  cases c with
  | read ctx buf count =>
    rw [goldNeeds] at hearly htakes
    split at hearly
    · exact absurd hearly hlock
    · next hnb =>
      -- it would have waited
      rw [goldTakes, if_neg hnb, if_neg hnb] at htakes
      cases htakes
  | write ctx buf count =>
    rw [goldNeeds] at hearly
    split at hearly
    · next hcount =>
      subst hcount
      refine hwakes ?_ hearly
      rw [goldBody, goldWriteLocked_of_empty hd]
      rfl
    · next hcount =>
      split at hearly
      · exact absurd hearly hlock
      · next hbuf =>
        -- the byte is stored, and the assignment comes after it
        refine Boot.CanHarm.of_user rfl (Monitor.next_lock hp) fun harm => ?_
        have hpos := size_pos_goldWriteLocked hd ctx hcount (Bool.eq_false_iff.mpr hbuf)
        refine Boot.canHarm_of_occupied rfl (assign_mem_drop hearly) ?_
        simp only [goldBoot, Bool.not_eq_true', bufferEmpty_eq_false]
        exact Nat.ne_of_gt hpos
  | poll => cases hpoll
  | ioctl cmd arg =>
    rw [goldNeeds] at hearly
    split at hearly
    · next hcmd =>
      refine hwakes ?_ hearly
      rw [goldBody, if_pos hcmd]
      rfl
    · exact absurd hearly (Nat.not_lt_zero _)

/-- A call that has come too early, on the empty ring. -/
theorem canHarm_of_early {s : Boot.State GoldDev GoldQueue GoldCall Ret Tid} {t : Tid}
    {c : GoldCall} (hd : s.mon.dev.size = 0) (hp : s.mon.pc t = .entered c)
    (hearly : s.done < goldNeeds c) : Boot.CanHarm goldBoot s := by
  have hlate : ∀ {r}, s.done < goldReadyAfter r → goldBoot.ready s.done r = false := by
    intro r hr
    rw [ready_goldBoot]
    exact decide_eq_false (Nat.not_le.mpr hr)
  rcases hentry : goldEntry c s.mon.dev with r | _ | q
  · rw [goldNeeds_of_finish hentry] at hearly
    exact absurd hearly (Nat.not_lt_zero _)
  · by_cases hpoll : goldRegisters c = []
    · refine Boot.CanHarm.of_direct hp hentry fun harm => ?_
      exact canHarm_of_locking hd (Monitor.State.goto_pc_self ..) hearly
        (goldTakes_of_lock hentry) hpoll
    · cases c with
      | poll =>
        -- it registers before it takes the lock
        have henter : goldBoot.monitor.next s.mon (.enter t) =
            some (s.mon.goto t (.locking .poll none)) := by
          simp only [Monitor.next, hp]
          rfl
        refine Boot.canHarm_of_touches rfl henter (r := .queue .writeQueue) ?_ (hlate hearly)
        simp [Boot.touches, hp, goldBoot, goldRegisters]
      | read _ _ _ | write _ _ _ | ioctl _ _ => exact absurd rfl hpoll
  · rcases goldNeeds_of_wait hentry with ⟨rfl, heq⟩ | ⟨rfl, heq⟩
    · refine Boot.CanHarm.of_await hp hentry fun harm => ?_
      refine Boot.canHarm_of_testing (Monitor.State.goto_pc_self ..) ?_ (hlate (heq ▸ hearly))
      simp [goldBoot, goldMonitor, goldCond, Monitor.State.goto, hd]
    · refine Boot.CanHarm.of_await hp hentry fun harm => ?_
      refine Boot.CanHarm.of_pass (Monitor.State.goto_pc_self ..) ?_ fun harm => ?_
      · simp [goldBoot, goldMonitor, goldCond, Monitor.State.goto, hd, bufSize]
      · have hpoll : goldRegisters c = [] := by
          cases c with
          | poll => cases hentry
          | read _ _ _ | write _ _ _ | ioctl _ _ => rfl
        exact canHarm_of_locking hd (Monitor.State.goto_pc_self ..) hearly heq hpoll

end GoldDevice

namespace FixedDevice

/-! ## `fixed_init` -/

/-- The steps of `fixed_init`. -/
def fixedInitSteps : List (InitStep FixedDev FixedQueue) :=
  [ -- `alloc_chrdev_region`, `cdev_init`
    .other, .other,
    -- `cdev_add`
    .publish,
    -- `class_create`, `device_create`
    .other, .other,
    -- `init_waitqueue_head`
    .ready (.queue .readQueue) ]

/-- The device and its initialisation. `DEFINE_MUTEX` initialises the lock statically. -/
def fixedBoot : Boot FixedDev FixedQueue FixedCall Ret where
  monitor := fixedMonitor
  static r := r = .lock
  steps := fixedInitSteps
  registers _ := []
  occupied d := d.dataSize != 0

/-- How many steps of `fixed_init` a call needs: all of them if it waits or wakes. -/
def fixedNeeds (d : FixedDev) : FixedCall → ℕ
  | .read _ _ => if d.blockingMode = 0 then 0 else fixedInitSteps.length
  | .write userBuf count =>
    if userBuf.left (min count bufSize) = 0 then fixedInitSteps.length else 0
  | .ioctl _ _ => 0

theorem fixedNeeds_le (d : FixedDev) (c : FixedCall) : fixedNeeds d c ≤ fixedInitSteps.length := by
  cases c <;> simp only [fixedNeeds] <;> repeat' split
  all_goals decide

theorem ready_fixedBoot (n : ℕ) :
    fixedBoot.ready n (.queue .readQueue) = decide (fixedInitSteps.length ≤ n) := by
  rcases Nat.lt_or_ge n fixedInitSteps.length with hn | hn
  · have hn6 : n < 6 := hn
    interval_cases n <;> rfl
  · have htake : fixedBoot.steps.take n = fixedInitSteps := List.take_of_length_le hn
    rw [Boot.ready, htake, decide_eq_true hn]
    rfl

/-- What a call needs when it takes the lock. -/
def fixedTakes : FixedCall → ℕ
  | .write userBuf count =>
    if userBuf.left (min count bufSize) = 0 then fixedInitSteps.length else 0
  | .read _ _ | .ioctl _ _ => 0

theorem fixedTakes_le_needs (d : FixedDev) (c : FixedCall) : fixedTakes c ≤ fixedNeeds d c := by
  cases c <;> simp [fixedTakes, fixedNeeds]

theorem fixedTakes_le (c : FixedCall) : fixedTakes c ≤ fixedInitSteps.length := by
  cases c <;> simp only [fixedTakes] <;> repeat' split
  all_goals decide

/-- Only a read in blocking mode waits. -/
theorem fixedNeeds_of_wait {c : FixedCall} {d : FixedDev} {q : FixedQueue}
    (h : fixedEntry c d = .wait q) : fixedNeeds d c = fixedInitSteps.length := by
  cases c with
  | read userBuf count =>
    rw [fixedEntry] at h
    split at h
    · cases h
    · next hmode => exact if_neg hmode
  | write userBuf count => cases h
  | ioctl cmd arg =>
    rw [fixedEntry] at h
    split at h <;> cases h

/-- `fixed_init` assigns to nothing the calls use. -/
theorem assign_notMem (f : FixedDev → FixedDev) : .assign f ∉ fixedInitSteps := by
  simp [fixedInitSteps]

/-- A call that is in time leaves an empty device empty and wakes nobody. -/
theorem fixedBody_of_empty {n : ℕ} (hn : n < fixedInitSteps.length) {c : FixedCall}
    (hc : fixedTakes c ≤ n) {d : FixedDev} (hd : d.dataSize = 0) (via : Option FixedQueue) :
    (fixedBody c via d).next.dataSize = 0 ∧ (fixedBody c via d).wakes = none := by
  cases c with
  | read userBuf count =>
    simp only [fixedBody, myReadLocked]
    split
    · exact ⟨hd, rfl⟩
    · split
      · exact ⟨rfl, rfl⟩
      · exact ⟨hd, rfl⟩
  | write userBuf count =>
    rw [fixedTakes] at hc
    split at hc
    · omega
    · next hleft =>
      have ho : fixedBody (.write userBuf count) via d =
          ⟨{ d with buffer := copyFromUser d.buffer userBuf (min count bufSize) },
            .error efault, none⟩ := if_neg hleft
      rw [ho]
      exact ⟨hd, rfl⟩
  | ioctl cmd arg =>
    simp only [fixedBody, myIoctlLocked]
    split
    · exact ⟨rfl, rfl⟩
    · exact ⟨hd, rfl⟩

/-- What is known during `fixed_init`. -/
def fixedPlan : Boot.Plan fixedBoot fixedNeeds where
  obj n d := n < fixedInitSteps.length → d.dataSize = 0
  waits n _ _ := fixedInitSteps.length ≤ n
  passed n c _ := fixedTakes c ≤ n
  waits_succ h := Nat.le_succ_of_le h
  passed_succ h := Nat.le_succ_of_le h
  enter := by
    intro n c d _ q hq
    cases hq
  direct := by
    intro n c d hneeds _ _
    exact le_trans (fixedTakes_le_needs d c) hneeds
  await := by
    intro n c d q hneeds _ hentry
    exact fixedNeeds_of_wait hentry ▸ hneeds
  pass := by
    intro n c d q hwaits _ _
    exact le_trans (fixedTakes_le c) hwaits
  miss := by
    intro n c d q hwaits _ _
    cases q
    rw [ready_fixedBoot]
    exact decide_eq_true hwaits
  ignore := by
    intro n c q _ herr
    cases herr
  lock _ := rfl
  body h hobj hn := (fixedBody_of_empty hn h (hobj hn) _).1
  wakes := by
    intro n c via d q h hobj hq
    cases q
    rw [ready_fixedBoot, decide_eq_true_eq]
    by_contra hn
    have hnone := (fixedBody_of_empty (Nat.not_le.mp hn) h (hobj (Nat.not_le.mp hn)) via).2
    rw [show fixedBoot.monitor.body c via d = fixedBody c via d from rfl, hnone] at hq
    cases hq
  init := by
    intro n d st hst hobj hn
    cases st with
    | assign f => exact absurd (List.mem_of_getElem? hst) (assign_notMem f)
    | other | publish | ready r => exact hobj (Nat.lt_of_succ_lt hn)
  keeps := by
    intro n d st hst _
    cases st with
    | assign f => exact absurd (List.mem_of_getElem? hst) (assign_notMem f)
    | other | publish | ready r => rfl

variable {Tid : Type*} [DecidableEq Tid]

/-- A call that has come too early, on the empty device. -/
theorem canHarm_of_early {s : Boot.State FixedDev FixedQueue FixedCall Ret Tid} {t : Tid}
    {c : FixedCall} (hd : s.mon.dev.dataSize = 0) (hp : s.mon.pc t = .entered c)
    (hearly : s.done < fixedNeeds s.mon.dev c) : Boot.CanHarm fixedBoot s := by
  have hlate : s.done < fixedInitSteps.length →
      fixedBoot.ready s.done (.queue .readQueue) = false := by
    intro hlt
    rw [ready_fixedBoot]
    exact decide_eq_false (Nat.not_le.mpr hlt)
  cases c with
  | read userBuf count =>
    rw [fixedNeeds] at hearly
    split at hearly
    · exact absurd hearly (Nat.not_lt_zero _)
    · next hmode =>
      have hentry : fixedEntry (.read userBuf count) s.mon.dev = .wait .readQueue := if_neg hmode
      refine Boot.CanHarm.of_await hp hentry fun harm => ?_
      refine Boot.canHarm_of_testing (Monitor.State.goto_pc_self ..) ?_ (hlate hearly)
      simp [fixedBoot, fixedMonitor, fixedCond, Monitor.State.goto, hd]
  | write userBuf count =>
    rw [fixedNeeds] at hearly
    split at hearly
    · next hleft =>
      refine Boot.CanHarm.of_direct hp rfl fun harm => ?_
      refine Boot.canHarm_of_wakes (Monitor.State.goto_pc_self ..) ?_ (hlate hearly)
      simp [fixedBoot, fixedMonitor, fixedBody, myWriteLocked, hleft]
    · exact absurd hearly (Nat.not_lt_zero _)
  | ioctl cmd arg => exact absurd hearly (Nat.not_lt_zero _)

end FixedDevice

section InitOrder

open GoldDevice FixedDevice

/-- **Nothing is used or lost before its initialisation**: in every run of `gold_init`, and
of `fixed_init`, with any calls of any tasks, in which no call comes before the steps it
needs, no harm is done; and a call that comes before them can do harm. -/
theorem init_order_harmless (Tid : Type*) [DecidableEq Tid] :
    ((∀ s, ((goldBoot.lts Tid goldInit).restrict (Boot.InTime fun _ => goldNeeds)).Reachable s →
        s.harm = [] ∧ ∀ t c, s.mon.pc t = .entered c → s.done < goldNeeds c →
          Boot.CanHarm goldBoot s)) ∧
      ∀ s, ((fixedBoot.lts Tid fixedInit).restrict (Boot.InTime fixedNeeds)).Reachable s →
        s.harm = [] ∧ ∀ t c, s.mon.pc t = .entered c → s.done < fixedNeeds s.mon.dev c →
          Boot.CanHarm fixedBoot s := by
  constructor
  · intro s hs
    have hkept := (goldPlan.harmless fun _ => rfl).reachable hs
    refine ⟨hkept.harm, fun t c hp hearly => ?_⟩
    exact GoldDevice.canHarm_of_early (hkept.obj (lt_of_lt_of_le hearly (goldNeeds_le c))) hp hearly
  · intro s hs
    have hkept := (fixedPlan.harmless fun _ => rfl).reachable hs
    refine ⟨hkept.harm, fun t c hp hearly => ?_⟩
    exact FixedDevice.canHarm_of_early
      (hkept.obj (lt_of_lt_of_le hearly (fixedNeeds_le s.mon.dev c))) hp hearly

/-- A blocking read right after `cdev_add` enters `read_queue` before it is initialised, in
both drivers, and a byte written before the last assignment of `gold_init` is lost. -/
theorem init_order_harms :
    (∃ s, (goldBoot.lts Monitor.Duo goldInit).Reachable s ∧
      s.harm = [.early (.queue .readQueue)]) ∧
    (∃ s, (goldBoot.lts Monitor.Duo goldInit).Reachable s ∧ s.harm = [.discarded]) ∧
    ∃ s, (fixedBoot.lts Monitor.Duo fixedInit).Reachable s ∧
      s.harm = [.early (.queue .readQueue)] := by
  have hgold := Lts.reachable_of_foldlM (.init rfl)
    (rfl : (Boot.Act.after 3 [.call Monitor.Duo.one (.read ⟨false⟩ (fun _ => true) 1),
      .enter .one, .test .one, .prepare .one]).foldlM goldBoot.next
        ⟨Monitor.start goldInit, 0, []⟩ = some _)
  have hlost := Lts.reachable_of_foldlM (.init rfl)
    (rfl : (Boot.Act.after 8 (Monitor.Act.through Monitor.Duo.one (GoldCall.write ⟨false⟩
      (fun _ => some 87) 1)) ++ [Boot.Act.init]).foldlM goldBoot.next
        ⟨Monitor.start goldInit, 0, []⟩ = some _)
  have hfixed := Lts.reachable_of_foldlM (.init rfl)
    (rfl : (Boot.Act.after 3 [.call Monitor.Duo.one (.read (fun _ => true) 1),
      .enter .one, .test .one, .prepare .one]).foldlM fixedBoot.next
        ⟨Monitor.start fixedInit, 0, []⟩ = some _)
  exact ⟨⟨_, hgold, rfl⟩, ⟨_, hlost, rfl⟩, ⟨_, hfixed, rfl⟩⟩

end InitOrder

end KernelModules
