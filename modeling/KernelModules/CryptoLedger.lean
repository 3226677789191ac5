import KernelModules.CryptoProgram

/-!
# The ledger of `crypto_challenge.c`

Whatever the threads and the timer do, the ledger is the one of the program, with the uses of
the workers in between and the entries of the timer.

* `TimerInv` — the timer's entries;
* `Sys.Inv` — the process follows its program, the timer apart.
-/

namespace KernelModules

namespace CryptoChallenge

open Ledger ForkJoin

variable {tz : Cpu → Bool} {f : Failures}

/-! ## The timer -/

/-- The control thread has got past `mod_timer`, or never will. -/
def CtrlPc.armed : CtrlPc → Bool
  | .absent | .born | .setCount | .setupTimer | .armTimer => false
  | .clearStop | .top | .testStop | .testTime | .endRun | .endStop | .delTimer | .score
  | .dutyOn | .dutyOff | .exited => true

/-- Only `mod_timer` in `start_sampling` activates the timer. -/
theorem Step.arms {s s' : State} {a : Act} (hs : Step s a s') (hinactive : s.timerActive = false)
    (hactive : s'.timerActive = true) : s.ctrl.armed = false ∧ s'.ctrl.armed = true := by
  have hidle : s.callback = .idle ∧ s.pending = false := by
    simpa [State.timerActive, and_comm] using hinactive
  cases hs with
  | worker hs => cases hs <;> cases hinactive.symm.trans hactive
  | ctrl hs =>
    cases hs with
    | armTimer hp => exact ⟨by rw [hp]; rfl, rfl⟩
    | setupTimer _ | delTimer _ _ =>
      simp [State.timerActive, State.ctrlTo, State.delTimer, hidle.1] at hactive
    | _ => cases hinactive.symm.trans hactive
  | fire hs | callback hs =>
    cases hs with
    | fire hp _ => cases hidle.2.symm.trans hp
    | full hp | take hp _ | ops hp | temp hp | rearm hp | ret hp =>
      cases hidle.1.symm.trans hp
  | wake _ | runCtrl _ _ | askWorker | askCtrl => cases hinactive.symm.trans hactive
  | delTimer _ hidle => simp [State.timerActive, State.delTimer, hidle] at hactive

/-- The control thread does not go back. -/
theorem Step.armed {s s' : State} {a : Act} (hs : Step s a s') (harmed : s.ctrl.armed = true) :
    s'.ctrl.armed = true := by
  cases hs with
  | worker hs => cases hs <;> exact harmed
  | ctrl hs =>
    cases hs with
    | begin hp _ | setCount hp | setupTimer hp =>
      rw [hp] at harmed
      cases harmed
    | _ => rfl
  | fire hs | callback hs => rw [hs.flags.1, harmed]
  | wake _ | askWorker | askCtrl | delTimer _ _ => exact harmed
  | runCtrl hp _ =>
    rw [hp] at harmed
    cases harmed

/-- The timer's entries in the ledger: it is owned as long as it is active, and acquired once at
most, by `start_sampling`. -/
structure TimerInv (s : State) (log : List (Deed Res)) : Prop where
  /-- the entries are lawful -/
  lawful : Lawful log
  /-- an active timer is owned -/
  balance : log.count (.acquire .timer) =
    log.count (.release .timer) + if s.timerActive then 1 else 0
  /-- it is acquired once at most -/
  once : log.count (.acquire .timer) ≤ 1
  /-- not before `start_sampling` -/
  fresh : s.ctrl.armed = false → log.count (.acquire .timer) = 0

theorem TimerInv.owned {s : State} {log : List (Deed Res)} (h : TimerInv s log)
    (hactive : s.timerActive = true) : Owned log .timer := by
  have hbalance := h.balance
  rw [hactive, if_pos rfl] at hbalance
  rw [Owned, hbalance]
  exact Nat.lt_succ_self _

/-- The timer's function uses it. -/
theorem TimerInv.use {s : State} {log : List (Deed Res)} (h : TimerInv s log)
    (hactive : s.timerActive = true) : TimerInv s (log ++ [.use .timer]) where
  lawful := lawful_concat.mpr ⟨h.lawful, h.owned hactive⟩
  balance := by simpa using h.balance
  once := by simpa using h.once
  fresh := by simpa using h.fresh

/-- A step writes down what happens to the timer. -/
theorem TimerInv.step {s s' : State} {a : Act} {log : List (Deed Res)} (h : TimerInv s log)
    (hs : Step s a s') : TimerInv s' (log ++ timerDeeds s s') := by
  have hbalance := h.balance
  have hfresh : s'.ctrl.armed = false → log.count (.acquire .timer) = 0 := by
    intro hunarmed
    refine h.fresh (Bool.eq_false_of_not_eq_true fun harmed => ?_)
    cases hunarmed.symm.trans (hs.armed harmed)
  rcases hactive : s.timerActive with _ | _ <;> rcases hactive' : s'.timerActive with _ | _ <;>
    rw [timerDeeds, hactive, hactive'] <;> rw [hactive] at hbalance
  · rw [List.append_nil]
    exact ⟨h.lawful, by rw [hactive', hbalance], h.once, hfresh⟩
  · obtain ⟨hunarmed, harmed⟩ := hs.arms hactive hactive'
    have hzero := h.fresh hunarmed
    have hrelease : log.count (.release .timer) = 0 := by
      have hle := h.lawful.count_le .timer
      omega
    refine ⟨lawful_concat.mpr ⟨h.lawful, trivial⟩, ?_, ?_, fun hfalse => ?_⟩
    · simp [hactive', hzero, hrelease]
    · simp [hzero]
    · cases hfalse.symm.trans harmed
  · refine ⟨lawful_concat.mpr ⟨h.lawful, h.owned hactive⟩, ?_, ?_, ?_⟩
    · simpa [hactive'] using hbalance
    · simpa using h.once
    · simpa using hfresh
  · rw [List.append_nil]
    exact ⟨h.lawful, by rw [hactive', hbalance], h.once, hfresh⟩

/-! ## The threads -/

theorem goesTo_workerTo {s : State} {i : Cpu} {p : WorkerPc}
    (hp : Phase.GoesTo (s.worker i).phase p.phase) (t : Thread) :
    Phase.GoesTo (s.phase t) ((s.workerTo i p).phase t) := by
  cases t with
  | worker j =>
    by_cases hj : j = i
    · rw [State.phase, State.phase, hj, s.workerTo_worker_self]
      exact hp
    · rw [State.phase, State.phase, s.workerTo_worker_of_ne p hj]
      exact .inl rfl
  | ctrl => exact .inl rfl

/-- The threads go on, or end. -/
theorem Step.goesTo {s s' : State} {a : Act} (hs : Step s a s') (ha : a.byThread = true)
    (t : Thread) : Phase.GoesTo (s.phase t) (s'.phase t) := by
  cases hs with
  | worker hs =>
    cases hs with
    | exit hp _ => exact goesTo_workerTo (.inr ⟨by rw [hp]; rfl, rfl⟩) t
    | go hp _ | on hp _ | off hp _ | crypto hp =>
      exact goesTo_workerTo (.inl (by rw [hp]; rfl)) t
    | inc hp => exact goesTo_workerTo (p := .top) (.inl (by rw [hp]; rfl)) t
  | ctrl hs =>
    cases t with
    | worker i =>
      rw [State.phase, State.phase, hs.worker.1]
      exact .inl rfl
    | ctrl =>
      have hphase : ∀ {p : CtrlPc}, s.ctrl = p → p.phase = s.phase .ctrl := by
        rintro p rfl
        rfl
      cases hs with
      | unborn hp _ | exit hp _ => exact .inr ⟨(hphase hp).symm, rfl⟩
      | begin hp _ | setCount hp | setupTimer hp | armTimer hp | clearStop hp | go hp _
      | finished hp _ | going hp _ | late hp | early hp | endRun hp | endStop hp | delTimer hp _
      | score hp | dutyOn hp | dutyOff hp => exact .inl (hphase hp)
  | fire hs | callback hs =>
    cases t with
    | worker i =>
      rw [State.phase, State.phase, hs.worker.1]
      exact .inl rfl
    | ctrl =>
      rw [State.phase, State.phase, hs.flags.1]
      exact .inl rfl
  | wake _ | runCtrl _ _ | askWorker | askCtrl | delTimer _ _ => cases ha

/-- A worker that uses something is running. -/
theorem uses_without_timer (s : State) (a : Act) :
    ∀ d ∈ without (uses s a) .timer,
      ∃ t, s.phase t = .live ∧ ∃ r ∈ Thread.needs t, d = .use r := by
  intro d hd
  cases a with
  | worker i =>
    rw [uses] at hd
    split at hd
    · next hp =>
      refine ⟨.worker i, by rw [State.phase, hp]; rfl, ?_⟩
      have hd := (List.mem_filter.mp hd).1
      simp only [List.mem_cons, List.not_mem_nil, or_false] at hd
      rcases hd with rfl | rfl | rfl <;> simp [Thread.needs]
    · cases hd
  | callback reading =>
    rw [uses] at hd
    split at hd
    · cases hd
    · cases hd
  | ctrl _ _ | fire | wake _ | runCtrl | askWorker _ | askCtrl | delTimer => cases hd

/-- A callback that uses the timer is running. -/
theorem uses_timer (s : State) (a : Act) :
    history (uses s a) .timer = [] ∨
      history (uses s a) .timer = [.use .timer] ∧ s.timerActive = true := by
  cases a with
  | worker i =>
    rw [uses]
    split <;> exact .inl rfl
  | callback reading =>
    rw [uses]
    split
    · next hp => exact .inr ⟨rfl, by simp [State.timerActive, hp]⟩
    · exact .inl rfl
  | ctrl _ _ | fire | wake _ | runCtrl | askWorker _ | askCtrl | delTimer => exact .inl rfl

theorem history_timerDeeds (s s' : State) :
    history (timerDeeds s s') .timer = timerDeeds s s' := by
  rw [timerDeeds]
  split <;> rfl

theorem without_timerDeeds (s s' : State) : without (timerDeeds s s') .timer = [] := by
  rw [timerDeeds]
  split <;> rfl

/-! ## The module's process follows its program -/

/-- The process is somewhere in its program, as the ledger says, the timer apart. -/
structure Sys.Inv (tz : Cpu → Bool) (f : Failures) (s : Sys) : Prop where
  /-- the threads run as they do by themselves -/
  core : (lts tz).Reachable s.core
  /-- the timer -/
  timer : TimerInv s.core (history s.log .timer)
  /-- the process -/
  main : ∃ done, Follows Thread.needs (program f) done s.todo s.core.phase (without s.log .timer) ∧
    (.call .stopSampling ∈ done → s.core.halted = true)

/-- The flags are right. -/
theorem Sys.Inv.flags {s : Sys} (h : s.Inv tz f) : CryptoChallenge.Inv s.core :=
  (inv_inductive tz).reachable h.core

/-- What the process does to the threads is one of their steps, if any. -/
theorem step_of_exec {s s' : State} {x : Instr Res Thread Call} (h : exec s x = some s') :
    s' = s ∨ ∃ a, next s a = some s' := by
  cases x with
  | deed d => exact .inl (Option.some.inj h).symm
  | start t => exact .inr ⟨t.startAct, h⟩
  | ask t => exact .inr ⟨t.askAct, h⟩
  | join t =>
    rw [exec] at h
    split at h
    · exact .inl (Option.some.inj h).symm
    · cases h
  | call c =>
    cases c
    exact .inr ⟨.delTimer, h⟩

theorem timerDeeds_self (s : State) : timerDeeds s s = [] := by
  rw [timerDeeds]
  cases s.timerActive <;> rfl

/-- The timer's entries after a step of the process. -/
theorem Sys.Inv.timer_main {s : Sys} (h : s.Inv tz f) {x : Instr Res Thread Call} {core : State}
    (hx : ∀ d ∈ x.deeds, d.res ≠ .timer) (hexec : exec s.core x = some core) :
    TimerInv core (history (s.log ++ x.deeds ++ timerDeeds s.core core) .timer) := by
  have hnone : history x.deeds .timer = [] := by
    rw [history, List.filter_eq_nil_iff]
    intro d hd
    simpa using hx d hd
  rw [history_append, history_append, hnone, List.append_nil, history_timerDeeds]
  rcases step_of_exec hexec with rfl | ⟨a, hnext⟩
  · rw [timerDeeds_self, List.append_nil]
    exact h.timer
  · exact h.timer.step (step_of_next hnext)

/-- What an instruction writes without the timer. -/
theorem without_main {log : List (Deed Res)} {x : Instr Res Thread Call} {s s' : State}
    (hx : ∀ d ∈ x.deeds, d.res ≠ .timer) :
    without (log ++ x.deeds ++ timerDeeds s s') .timer = without log .timer ++ x.deeds := by
  have hall : without x.deeds .timer = x.deeds := by
    rw [without, List.filter_eq_self]
    intro d hd
    simpa using hx d hd
  rw [without_append, without_append, hall, without_timerDeeds, List.append_nil]

theorem phase_worker_of_ne {s : State} {i : Cpu} {p : WorkerPc} {t : Thread}
    (ht : t ≠ .worker i) : (s.workerTo i p).phase t = s.phase t := by
  cases t with
  | worker j =>
    rw [State.phase, State.phase, s.workerTo_worker_of_ne p fun hj => ht (by rw [hj])]
  | ctrl => rfl

/-- Every instruction of the process is one of those of a program that starts and joins
threads. -/
theorem follows_exec {done todo : Code} {x : Instr Res Thread Call} {s s' : State}
    {log : List (Deed Res)}
    (h : Follows Thread.needs (program f) done (x :: todo) s.phase log)
    (hexec : exec s x = some s') :
    Follows Thread.needs (program f) (done ++ [x]) todo s'.phase (log ++ x.deeds) := by
  cases x with
  | deed d =>
    obtain rfl : s = s' := Option.some.inj hexec
    exact h.deed
  | start t =>
    rw [Instr.deeds, List.append_nil]
    cases t with
    | worker i =>
      have hstep : Step s (.wake i) s' := step_of_next hexec
      cases hstep with
      | wake hp => exact h.start (by rw [State.phase, hp]; rfl) phase_worker_of_ne
    | ctrl =>
      have hstep : Step s .runCtrl s' := step_of_next hexec
      cases hstep with
      | runCtrl hp _ =>
        refine h.start (by rw [State.phase, hp]; rfl) fun {u} hu => ?_
        cases u with
        | worker i => rfl
        | ctrl => exact (hu rfl).elim
  | ask t =>
    rw [Instr.deeds, List.append_nil]
    have hskip := h.skip rfl fun ht => by cases ht
    refine hskip.run fun u => .inl ?_
    cases t with
    | worker i =>
      have hstep : Step s (.askWorker i) s' := step_of_next hexec
      cases hstep with
      | askWorker => cases u <;> rfl
    | ctrl =>
      have hstep : Step s .askCtrl s' := step_of_next hexec
      cases hstep with
      | askCtrl => cases u <;> rfl
  | join t =>
    rw [Instr.deeds, List.append_nil]
    rw [exec] at hexec
    split at hexec
    · next hended =>
      obtain rfl : s = s' := Option.some.inj hexec
      refine h.skip rfl fun ht => ?_
      cases ht
      exact hended
    · cases hexec
  | call c =>
    rw [Instr.deeds, List.append_nil]
    have hskip := h.skip rfl fun ht => by cases ht
    refine hskip.run fun u => .inl ?_
    cases c
    have hstep : Step s .delTimer s' := step_of_next hexec
    cases hstep with
    | delTimer _ _ => cases u <;> rfl

/-- `stop_sampling` has returned when the process is past it. -/
theorem halted_exec {x : Instr Res Thread Call} {s s' : State} (h : CryptoChallenge.Inv s)
    (hexec : exec s x = some s') (hhalted : s.halted = true ∨ x = .call .stopSampling) :
    s'.halted = true := by
  rcases hhalted with hhalted | rfl
  · rcases step_of_exec hexec with rfl | ⟨a, hnext⟩
    · exact hhalted
    · exact (h.samples_step hhalted (step_of_next hnext)).1
  · have hstep : Step s .delTimer s' := step_of_next hexec
    cases hstep with
    | delTimer _ _ => rfl

/-- The process goes on in its program. -/
theorem Sys.Inv.main_step {s : Sys} (h : s.Inv tz f) {x : Instr Res Thread Call} {todo : Code}
    {core : State} (htodo : s.todo = x :: todo) (hexec : exec s.core x = some core) :
    Sys.Inv tz f ⟨core, todo, s.log ++ x.deeds ++ timerDeeds s.core core⟩ := by
  obtain ⟨done, hfollows, hhalted⟩ := h.main
  rw [htodo] at hfollows
  have hx : ∀ d ∈ x.deeds, d.res ≠ .timer := by
    intro d hd
    refine (plain_program (f := f) ?_).2
    rw [hfollows.split, deeds_append, deeds_cons]
    exact List.mem_append_right _ (List.mem_append_left _ hd)
  refine ⟨?_, h.timer_main hx hexec, done ++ [x], ?_, fun hcall => ?_⟩
  · rcases step_of_exec hexec with rfl | ⟨a, hnext⟩
    · exact h.core
    · exact h.core.step hnext
  · rw [without_main hx]
    exact follows_exec hfollows hexec
  · refine halted_exec h.flags hexec ?_
    rcases List.mem_append.mp hcall with hcall | hcall
    · exact .inl (hhalted hcall)
    · exact .inr (List.mem_singleton.mp hcall).symm

/-- The threads go on. -/
theorem Sys.Inv.thread_step {s : Sys} (h : s.Inv tz f) {a : Act} {core : State}
    (ha : a.byThread = true)
    (hnext : CryptoChallenge.next s.core a = some core) :
    Sys.Inv tz f ⟨core, s.todo, s.log ++ uses s.core a ++ timerDeeds s.core core⟩ := by
  obtain ⟨done, hfollows, hhalted⟩ := h.main
  have hstep := step_of_next hnext
  refine ⟨h.core.step hnext, ?_, done, ?_, fun hcall => ?_⟩
  · rw [history_append, history_append, history_timerDeeds]
    rcases uses_timer s.core a with hnone | ⟨huse, hactive⟩
    · rw [hnone, List.append_nil]
      exact h.timer.step hstep
    · rw [huse]
      exact (h.timer.use hactive).step hstep
  · rw [without_append, without_append, without_timerDeeds, List.append_nil]
    exact (hfollows.uses (uses_without_timer s.core a)).run (hstep.goesTo ha)
  · exact (h.flags.samples_step (hhalted hcall) hstep).1

theorem Sys.inv_inductive (tz : Cpu → Bool) (f : Failures) :
    (moduleLts tz f).Inductive (Sys.Inv tz f) where
  init hi := by
    cases hi
    refine ⟨.init rfl, ?_, [], ?_, fun hcall => by cases hcall⟩
    · exact ⟨lawful_nil, rfl, Nat.zero_le _, fun _ => rfl⟩
    · have hphase : (CryptoChallenge.start tz).phase = fun _ => .absent := by
        funext t
        cases t <;> rfl
      rw [Sys.start, hphase]
      exact .init _ _
  step {s s' a} h hs := by
    cases a with
    | main =>
      simp only [Lts.ofNext, Sys.next] at hs
      split at hs
      · cases hs
      · next x todo htodo =>
        obtain ⟨core, hexec, rfl⟩ := Option.map_eq_some_iff.mp hs
        exact h.main_step htodo hexec
    | thread a =>
      simp only [Lts.ofNext, Sys.next] at hs
      split at hs
      · next ha =>
        obtain ⟨core, hnext, rfl⟩ := Option.map_eq_some_iff.mp hs
        exact h.thread_step ha hnext
      · cases hs

end CryptoChallenge

end KernelModules
