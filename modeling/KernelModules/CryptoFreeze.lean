import KernelModules.CryptoChallenge
import Mathlib.Algebra.BigOperators.Fin

/-!
# The result of `crypto_challenge.c` is frozen

The control thread switches the workers off, sets `stop`, waits for the timer and computes
the score, in this order and once only. What the others can still do then is bounded by where
they stand: a worker that has seen `run` before can count one more operation, and a callback
that is running has ended before `stop_sampling` returns.

* `CtrlInv` — the flags at each place of the control thread;
* `WorkerPc.credit` — what a worker can still count while `run` is false;
* `result_frozen` — the result, over every run.
-/

namespace KernelModules

namespace CryptoChallenge

variable {tz : Cpu → Bool}

/-! ## The flags at each place of the control thread -/

/-- The flags `stop`, `run`, the times the score was computed, and whether `stop_sampling` has
returned, by the place of the control thread. -/
def CtrlInv (stop run : Bool) (scored : ℕ) (halted : Bool) : CtrlPc → Prop
  | .absent => stop = false ∧ scored = 0
  | .born | .setCount | .setupTimer | .armTimer | .clearStop | .testTime | .endRun | .dutyOn
  | .dutyOff => stop = false ∧ scored = 0 ∧ halted = false
  | .endStop => stop = false ∧ scored = 0 ∧ halted = false ∧ run = false
  | .delTimer => stop = true ∧ scored = 0 ∧ halted = false ∧ run = false
  | .score => stop = true ∧ scored = 0 ∧ halted = true ∧ run = false
  | .top | .testStop =>
    stop = false ∧ scored = 0 ∧ halted = false ∨
      stop = true ∧ scored = 1 ∧ halted = true ∧ run = false
  | .exited =>
    stop = false ∧ scored = 0 ∨ stop = true ∧ scored = 1 ∧ halted = true ∧ run = false

/-- The flags are right, and after `stop_sampling` the timer is dead. -/
structure Inv (s : State) : Prop where
  /-- the flags -/
  ctrl : CtrlInv s.ctx.stop s.ctx.run s.scored s.halted s.ctrl
  /-- the timer -/
  timer : s.halted = true → s.pending = false ∧ s.callback = .idle

theorem Inv.ctrlStep {s s' : State} (h : Inv s) (hs : CtrlStep s s') : Inv s' := by
  have hctrl := h.ctrl
  cases hs with
  | unborn hp _ =>
    rw [hp] at hctrl
    exact ⟨.inl ⟨hctrl.1, hctrl.2.1⟩, h.timer⟩
  | begin hp _ | setCount hp | late hp | early hp =>
    rw [hp] at hctrl
    exact ⟨hctrl, h.timer⟩
  | setupTimer hp =>
    rw [hp] at hctrl
    exact ⟨hctrl, fun hhalted => ⟨rfl, (h.timer hhalted).2⟩⟩
  | armTimer hp =>
    rw [hp] at hctrl
    exact ⟨hctrl, fun hhalted => by cases hctrl.2.2.symm.trans hhalted⟩
  | clearStop hp =>
    rw [hp] at hctrl
    exact ⟨.inl ⟨rfl, hctrl.2⟩, h.timer⟩
  | exit hp _ =>
    rw [hp] at hctrl
    exact ⟨hctrl.imp_left fun hgoing => ⟨hgoing.1, hgoing.2.1⟩, h.timer⟩
  | go hp _ =>
    rw [hp] at hctrl
    exact ⟨hctrl, h.timer⟩
  | finished hp _ =>
    rw [hp] at hctrl
    exact ⟨hctrl, h.timer⟩
  | going hp hstop =>
    rw [hp] at hctrl
    refine ⟨hctrl.resolve_right fun hover => ?_, h.timer⟩
    cases hstop.symm.trans hover.1
  | endRun hp =>
    rw [hp] at hctrl
    exact ⟨⟨hctrl.1, hctrl.2.1, hctrl.2.2, rfl⟩, h.timer⟩
  | endStop hp =>
    rw [hp] at hctrl
    exact ⟨⟨rfl, hctrl.2⟩, h.timer⟩
  | delTimer hp hidle =>
    rw [hp] at hctrl
    exact ⟨⟨hctrl.1, hctrl.2.1, rfl, hctrl.2.2.2⟩, fun _ => ⟨rfl, hidle⟩⟩
  | score hp =>
    rw [hp] at hctrl
    exact ⟨.inr ⟨hctrl.1, congrArg (· + 1) hctrl.2.1, hctrl.2.2⟩, h.timer⟩
  | dutyOn hp =>
    rw [hp] at hctrl
    exact ⟨hctrl, h.timer⟩
  | dutyOff hp =>
    rw [hp] at hctrl
    exact ⟨.inl hctrl, h.timer⟩

/-- After `stop_sampling` the timer takes no step. -/
theorem Inv.not_timerStep {s s' : State} (h : Inv s) (hhalted : s.halted = true)
    (hs : TimerStep s s') : False := by
  obtain ⟨hpending, hidle⟩ := h.timer hhalted
  cases hs with
  | fire hp _ => cases hpending.symm.trans hp
  | full hp | take hp _ | ops hp | temp hp | rearm hp | ret hp => cases hidle.symm.trans hp

/-- The timer moves no flag. -/
theorem TimerStep.flags {s s' : State} (hs : TimerStep s s') :
    s'.ctrl = s.ctrl ∧ s'.ctx.stop = s.ctx.stop ∧ s'.ctx.run = s.ctx.run ∧
      s'.scored = s.scored ∧ s'.halted = s.halted := by
  cases hs <;> exact ⟨rfl, rfl, rfl, rfl, rfl⟩

theorem Inv.step {s s' : State} {a : Act} (h : Inv s) (hs : Step s a s') : Inv s' := by
  cases hs with
  | worker hs => cases hs <;> exact ⟨h.ctrl, h.timer⟩
  | ctrl hs => exact h.ctrlStep hs
  | fire hs | callback hs =>
    obtain ⟨hctrl, hstop, hrun, hscored, hhalted⟩ := hs.flags
    refine ⟨?_, fun hh => (h.not_timerStep (hhalted ▸ hh) hs).elim⟩
    rw [hctrl, hstop, hrun, hscored, hhalted]
    exact h.ctrl
  | wake _ | askWorker | askCtrl => exact ⟨h.ctrl, h.timer⟩
  | runCtrl hp hhalted =>
    have hctrl := h.ctrl
    rw [hp] at hctrl
    exact ⟨⟨hctrl.1, hctrl.2, hhalted⟩, h.timer⟩
  | delTimer hp hidle =>
    refine ⟨?_, fun _ => ⟨rfl, hidle⟩⟩
    have hctrl := h.ctrl
    rcases hp with hp | hp
    · rw [hp] at hctrl
      rw [State.delTimer, hp]
      exact hctrl
    · rw [hp] at hctrl
      rw [State.delTimer, hp]
      exact hctrl.imp_right fun hover => ⟨hover.1, hover.2.1, rfl, hover.2.2.2⟩

theorem inv_inductive (tz : Cpu → Bool) : (lts tz).Inductive Inv where
  init hi := by
    cases hi
    exact ⟨⟨rfl, rfl⟩, nofun⟩
  step h hs := h.step (step_of_next hs)

/-! ## `stop` and `run` -/

/-- `stop` is never taken back. -/
theorem Inv.stop_step {s s' : State} {a : Act} (h : Inv s) (hstop : s.ctx.stop = true)
    (hs : Step s a s') : s'.ctx.stop = true := by
  cases hs with
  | worker hs => cases hs <;> exact hstop
  | ctrl hs =>
    cases hs with
    | clearStop hp =>
      have hctrl := h.ctrl
      rw [hp] at hctrl
      cases hctrl.1.symm.trans hstop
    | endStop _ => rfl
    | _ => exact hstop
  | fire hs | callback hs => rw [hs.flags.2.1, hstop]
  | wake _ | runCtrl _ _ | askWorker | askCtrl | delTimer _ _ => exact hstop

/-- Once `stop` is set, `run` is false. -/
theorem Inv.run_of_stop {s : State} (h : Inv s) (hstop : s.ctx.stop = true) :
    s.ctx.run = false := by
  have hctrl := h.ctrl
  rw [hstop] at hctrl
  cases hc : s.ctrl <;> rw [hc] at hctrl
  case delTimer | score => exact hctrl.2.2.2
  case top | testStop | exited =>
    rcases hctrl with hgoing | hover
    · cases hgoing.1
    · exact hover.2.2.2
  all_goals cases hctrl.1

/-! ## What the workers still count -/

/-- What a worker can still count without a look at `run`. -/
def WorkerPc.credit : WorkerPc → ℕ
  | .crypto | .inc => 1
  | .absent | .top | .test | .exited => 0

theorem WorkerPc.credit_le (p : WorkerPc) : p.credit ≤ 1 := by
  cases p <;> decide

/-- Between two states each worker has counted `more`, on credit. -/
structure Grown (s s' : State) (more : Cpu → ℕ) : Prop where
  /-- what each has counted -/
  incs : ∀ i, s'.incs i = s.incs i + more i
  /-- what they have counted together -/
  ops : s'.ctx.ops = s.ctx.ops + UInt64.ofNat (∑ i, more i)
  /-- on credit -/
  credit : ∀ i, more i + (s'.worker i).credit ≤ (s.worker i).credit

theorem Grown.refl (s : State) : Grown s s fun _ => 0 where
  incs _ := rfl
  ops := by simp
  credit i := (Nat.zero_add _).le

/-- Steps that count nothing and give no credit. -/
theorem Grown.congr {s s' s'' : State} {more : Cpu → ℕ} (h : Grown s s' more)
    (hincs : s''.incs = s'.incs) (hops : s''.ctx.ops = s'.ctx.ops)
    (hcredit : ∀ i, (s''.worker i).credit ≤ (s'.worker i).credit) : Grown s s'' more where
  incs i := by rw [hincs, h.incs]
  ops := by rw [hops, h.ops]
  credit i := le_trans (Nat.add_le_add_left (hcredit i) _) (h.credit i)

/-- A worker that moves to a place with no more credit gets none. -/
theorem credit_workerTo {s : State} {i : Cpu} {p : WorkerPc}
    (hp : p.credit ≤ (s.worker i).credit) (j : Cpu) :
    ((s.workerTo i p).worker j).credit ≤ (s.worker j).credit := by
  by_cases hj : j = i
  · rw [hj, s.workerTo_worker_self]
    exact hp
  · rw [s.workerTo_worker_of_ne p hj]

theorem sum_update_succ (more : Cpu → ℕ) (i : Cpu) :
    ∑ j, Function.update more i (more i + 1) j = ∑ j, more j + 1 := by
  rw [Finset.sum_update_of_mem (Finset.mem_univ i), Finset.sdiff_singleton_eq_erase,
    ← Finset.add_sum_erase _ more (Finset.mem_univ i)]
  omega

/-- A worker counts what it has credit for. -/
theorem Grown.counted {s s' : State} {more : Cpu → ℕ} (h : Grown s s' more) {i : Cpu}
    (hp : s'.worker i = .inc) : Grown s (s'.counted i) (Function.update more i (more i + 1)) where
  incs j := by
    by_cases hj : j = i
    · rw [hj, s'.counted_incs_self, Function.update_self, h.incs, Nat.add_assoc]
    · rw [s'.counted_incs_of_ne hj, Function.update_of_ne hj, h.incs]
  ops := by
    rw [s'.counted_ops, h.ops, sum_update_succ, UInt64.ofNat_add, UInt64.add_assoc]
    rfl
  credit j := by
    by_cases hj : j = i
    · have hcredit := h.credit i
      rw [hp] at hcredit
      rw [hj, Function.update_self, s'.counted_worker, s'.workerTo_worker_self]
      exact hcredit
    · rw [Function.update_of_ne hj, s'.counted_worker, s'.workerTo_worker_of_ne _ hj]
      exact h.credit j

/-- The control thread and the timer count nothing. -/
theorem CtrlStep.worker {s s' : State} (hs : CtrlStep s s') :
    s'.worker = s.worker ∧ s'.incs = s.incs ∧ s'.ctx.ops = s.ctx.ops := by
  cases hs <;> exact ⟨rfl, rfl, rfl⟩

theorem TimerStep.worker {s s' : State} (hs : TimerStep s s') :
    s'.worker = s.worker ∧ s'.incs = s.incs ∧ s'.ctx.ops = s.ctx.ops := by
  cases hs <;> exact ⟨rfl, rfl, rfl⟩

/-- While `run` is false the workers count on credit. -/
theorem Grown.step {s s' s'' : State} {more : Cpu → ℕ} {a : Act} (h : Grown s s' more)
    (hrun : s'.ctx.run = false) (hs : Step s' a s'') : ∃ more, Grown s s'' more := by
  cases hs with
  | worker hs =>
    cases hs with
    | exit hp _ | go hp _ | off hp _ | crypto hp =>
      exact ⟨more, h.congr rfl rfl (credit_workerTo (by rw [hp]; decide))⟩
    | on _ hon => cases hrun.symm.trans hon
    | inc hp => exact ⟨_, h.counted hp⟩
  | ctrl hs =>
    obtain ⟨hworker, hincs, hops⟩ := hs.worker
    exact ⟨more, h.congr hincs hops fun i => by rw [hworker]⟩
  | fire hs | callback hs =>
    obtain ⟨hworker, hincs, hops⟩ := hs.worker
    exact ⟨more, h.congr hincs hops fun i => by rw [hworker]⟩
  | wake hp => exact ⟨more, h.congr rfl rfl (credit_workerTo (by rw [hp]; decide))⟩
  | runCtrl _ _ | askWorker | askCtrl | delTimer _ _ =>
    exact ⟨more, h.congr rfl rfl fun _ => le_rfl⟩

/-! ## The samples and the score -/

/-- Once `stop_sampling` has returned, the samples stay as they are. -/
theorem Inv.samples_step {s s' : State} {a : Act} (h : Inv s) (hhalted : s.halted = true)
    (hs : Step s a s') : s'.halted = true ∧ s'.ctx.sampleCount = s.ctx.sampleCount ∧
      s'.ctx.samples = s.ctx.samples ∧ s'.ctx.invalid = s.ctx.invalid := by
  cases hs with
  | worker hs => cases hs <;> exact ⟨hhalted, rfl, rfl, rfl⟩
  | ctrl hs =>
    cases hs with
    | setCount hp =>
      have hctrl := h.ctrl
      rw [hp] at hctrl
      cases hctrl.2.2.symm.trans hhalted
    | delTimer _ _ => exact ⟨rfl, rfl, rfl, rfl⟩
    | _ => exact ⟨hhalted, rfl, rfl, rfl⟩
  | fire hs | callback hs => exact (h.not_timerStep hhalted hs).elim
  | wake _ | runCtrl _ _ | askWorker | askCtrl => exact ⟨hhalted, rfl, rfl, rfl⟩
  | delTimer _ _ => exact ⟨rfl, rfl, rfl, rfl⟩

/-- The score is computed once at most. -/
theorem Inv.scored_le {s : State} (h : Inv s) : s.scored ≤ 1 := by
  have hctrl := h.ctrl
  cases hc : s.ctrl <;> rw [hc] at hctrl
  case absent => exact hctrl.2.trans_le (Nat.zero_le 1)
  case top | testStop =>
    rcases hctrl with hgoing | hover
    · exact hgoing.2.1.trans_le (Nat.zero_le 1)
    · exact hover.2.1.le
  case exited =>
    rcases hctrl with hgoing | hover
    · exact hgoing.2.trans_le (Nat.zero_le 1)
    · exact hover.2.1.le
  all_goals exact hctrl.2.1.trans_le (Nat.zero_le 1)

/-- Once it is computed, it stays. -/
theorem Inv.score_step {s s' : State} {a : Act} (h : Inv s) (hscored : s.scored = 1)
    (hs : Step s a s') : s'.scored = 1 ∧ s'.ctx.finalScore = s.ctx.finalScore := by
  cases hs with
  | worker hs => cases hs <;> exact ⟨hscored, rfl⟩
  | ctrl hs =>
    cases hs with
    | score hp =>
      have hctrl := h.ctrl
      rw [hp] at hctrl
      cases hctrl.2.1.symm.trans hscored
    | _ => exact ⟨hscored, rfl⟩
  | fire hs | callback hs =>
    cases hs <;> exact ⟨hscored, rfl⟩
  | wake _ | runCtrl _ _ | askWorker | askCtrl | delTimer _ _ => exact ⟨hscored, rfl⟩

/-! ## The result is frozen -/

/-- From `stop = true` on, the workers count on credit only. -/
theorem Inv.run_grown {s s' : State} {as : List Act} (h : Inv s) (hstop : s.ctx.stop = true)
    (hr : (lts tz).Run s as s') : s'.ctx.run = false ∧ ∃ more, Grown s s' more := by
  obtain ⟨hinv, hstop', hgrown⟩ :=
    (inv_inductive tz).run (J := fun s' => s'.ctx.stop = true ∧ ∃ more, Grown s s' more)
      (fun hi hj hs => by
        obtain ⟨hstop, more, hgrown⟩ := hj
        have hs := step_of_next hs
        exact ⟨hi.stop_step hstop hs, hgrown.step (hi.run_of_stop hstop) hs⟩)
      h ⟨hstop, _, Grown.refl s⟩ hr
  exact ⟨hinv.run_of_stop hstop', hgrown⟩

/-- From the return of `stop_sampling` on, the samples stay. -/
theorem Inv.run_samples {s s' : State} {as : List Act} (h : Inv s) (hhalted : s.halted = true)
    (hr : (lts tz).Run s as s') : s'.ctx.sampleCount = s.ctx.sampleCount ∧
      s'.ctx.samples = s.ctx.samples ∧ s'.ctx.invalid = s.ctx.invalid := by
  obtain ⟨-, -, hsame⟩ :=
    (inv_inductive tz).run (J := fun s' => s'.halted = true ∧
        s'.ctx.sampleCount = s.ctx.sampleCount ∧
        s'.ctx.samples = s.ctx.samples ∧ s'.ctx.invalid = s.ctx.invalid)
      (fun hi hj hs => by
        obtain ⟨hhalted, hcount, hsamples, hinvalid⟩ := hj
        obtain ⟨hhalted', hcount', hsamples', hinvalid'⟩ :=
          hi.samples_step hhalted (step_of_next hs)
        exact ⟨hhalted', hcount'.trans hcount, hsamples'.trans hsamples,
          hinvalid'.trans hinvalid⟩)
      h ⟨hhalted, rfl, rfl, rfl⟩ hr
  exact hsame

/-- From `compute_score` on, the score stays. -/
theorem Inv.run_score {s s' : State} {as : List Act} (h : Inv s) (hscored : s.scored = 1)
    (hr : (lts tz).Run s as s') : s'.ctx.finalScore = s.ctx.finalScore := by
  obtain ⟨-, -, hsame⟩ :=
    (inv_inductive tz).run (J := fun s' => s'.scored = 1 ∧ s'.ctx.finalScore = s.ctx.finalScore)
      (fun hi hj hs => by
        obtain ⟨hscored, hscore⟩ := hj
        obtain ⟨hscored', hscore'⟩ := hi.score_step hscored (step_of_next hs)
        exact ⟨hscored', hscore'.trans hscore⟩)
      h ⟨hscored, rfl⟩ hr
  exact hsame

/-- After `stop = true` the workers stay switched off and count at most one operation each;
after `stop_sampling` the samples stay; the score is computed once at most and then stays. -/
theorem result_frozen {s s' : State} {as : List Act} (hs : (lts tz).Reachable s)
    (hr : (lts tz).Run s as s') :
    (s.ctx.stop = true → s'.ctx.run = false ∧
      ∃ more : Cpu → ℕ, (∀ i, more i ≤ 1) ∧ (∀ i, s'.incs i = s.incs i + more i) ∧
        s'.ctx.ops = s.ctx.ops + UInt64.ofNat (∑ i, more i)) ∧
    (s.halted = true → s'.ctx.sampleCount = s.ctx.sampleCount ∧
      s'.ctx.samples = s.ctx.samples ∧ s'.ctx.invalid = s.ctx.invalid) ∧
    s'.scored ≤ 1 ∧
    (s.scored = 1 → s'.ctx.finalScore = s.ctx.finalScore) := by
  have h : Inv s := (inv_inductive tz).reachable hs
  have h' : Inv s' := (inv_inductive tz).reachable (hr.reachable_of hs)
  refine ⟨fun hstop => ?_, fun hhalted => h.run_samples hhalted hr, h'.scored_le,
    fun hscored => h.run_score hscored hr⟩
  obtain ⟨hrun, more, hgrown⟩ := h.run_grown hstop hr
  refine ⟨hrun, more, fun i => ?_, hgrown.incs, hgrown.ops⟩
  calc more i ≤ more i + (s'.worker i).credit := Nat.le_add_right ..
    _ ≤ (s.worker i).credit := hgrown.credit i
    _ ≤ 1 := (s.worker i).credit_le

/-- A sample is taken, a worker sees `run`, then the deadline passes and the score is
computed. -/
def lateRun : List Act :=
  [.wake core0, .runCtrl] ++ List.replicate 9 (.ctrl false 0) ++ [.fire] ++
    List.replicate 8 (.callback none) ++ [.worker core0, .worker core0] ++
    List.replicate 3 (.ctrl false 0) ++ List.replicate 5 (.ctrl true 0)

/-- The worker counts its operation after the score was computed. -/
theorem result_frozen_lateRun : ∃ s s' : State,
    (lts fun _ => true).Reachable s ∧ s.ctx.stop = true ∧ s.halted = true ∧ s.scored = 1 ∧
      s'.incs core0 = 1 ∧ s'.ctx.run = false ∧ s'.ctx.sampleCount = s.ctx.sampleCount ∧
      s'.ctx.finalScore = s.ctx.finalScore := by
  have hs := Lts.reachable_of_foldlM (.init rfl)
    (rfl : lateRun.foldlM next (start fun _ => true) = some _)
  obtain ⟨hstop, hhalted, -, hscored⟩ :=
    result_frozen hs (Lts.run_of_foldlM .nil
      (rfl : [Act.worker core0, Act.worker core0].foldlM next _ = some _))
  exact ⟨_, _, hs, rfl, rfl, rfl, rfl, (hstop rfl).1, (hhalted rfl).1, hscored rfl⟩

end CryptoChallenge

end KernelModules
