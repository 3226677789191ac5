import KernelModules.Transition
import Mathlib.Logic.Function.Basic
import Mathlib.Data.List.FinRange

/-!
# `crypto_challenge.c`

A benchmark of four worker threads, a control thread that switches them on and off and ends
the run at its deadline, and a timer that takes samples. They share `ctx` without a lock:
`run` and `stop` are plain variables, only `ops` is atomic.

Each read or write of a shared variable is a step of its own, so that other threads come in
between; what the environment decides (whether the deadline has passed, what a sensor reads)
is in the label of the step.

* `Ctx`, `computeScore` — the shared variables, and the score as the code computes it, with
  unsigned arithmetic modulo `2 ^ 64`;
* `State`, `next` — the threads, the timer and the module that starts and stops them;
* `Step` — what a step can do, case by case.
-/

namespace KernelModules

namespace CryptoChallenge

/-! ## The shared variables -/

/-- `MAX_CORES` -/
def maxCores : ℕ := 4
/-- `BENCH_DURATION_SEC` -/
def benchDurationSec : ℕ := 60
/-- `SAMPLE_PERIOD_MS` -/
def samplePeriodMs : ℕ := 100
/-- `MAX_SAMPLES` -/
def maxSamples : ℕ := benchDurationSec * 1000 / samplePeriodMs
/-- `THERMAL_LIMIT_MILLIC` -/
def thermalLimitMillic : Int32 := 65000

/-- A core. -/
abbrev Cpu := Fin maxCores

/-- The first one. -/
def core0 : Cpu := ⟨0, Nat.succ_pos 3⟩

/-- `struct sample` -/
structure Sample where
  /-- `ops` -/
  ops : UInt64
  /-- `temp` -/
  temp : Cpu → Int32

/-- `struct challenge_ctx`, as far as the threads use it. -/
structure Ctx where
  /-- `tz`: which thermal zones there are. One that is missing is an error pointer and not `NULL`;
  `thermal_zone_get_temp` fails on it. -/
  tz : Cpu → Bool
  /-- `samples` -/
  samples : ℕ → Sample
  /-- `sample_count` -/
  sampleCount : ℕ
  /-- `ops` -/
  ops : UInt64
  /-- `run` -/
  run : Bool
  /-- `stop` -/
  stop : Bool
  /-- `final_score` -/
  finalScore : UInt64
  /-- `invalid` -/
  invalid : Bool

/-- `ctx` after the `memset` in `mod_init`, with the zones found there. -/
def Ctx.init (tz : Cpu → Bool) : Ctx :=
  ⟨tz, fun _ => ⟨0, fun _ => 0⟩, 0, 0, false, false, 0, false⟩

/-- `read_temp`; the reading is `none` if the sensor fails. The error pointer of a missing zone
passes the test for `NULL`, and the call behind it fails: the value is 0 either way. -/
def readTemp (tz : Bool) (reading : Option Int32) : Int32 := if tz then reading.getD 0 else 0

/-- What one core adds to `thermal_cost` in one sample. -/
def thermalPenalty (initTemp t : Int32) : UInt64 :=
  let delta := t - initTemp
  let delta := if delta < 0 then 0 else delta
  delta.toInt64.toUInt64 * delta.toInt64.toUInt64

/-- `thermal_cost` -/
def thermalCost (c : Ctx) : UInt64 :=
  (List.range' 1 (c.sampleCount - 1)).foldl (fun cost i =>
    (List.finRange maxCores).foldl (fun cost core =>
      cost + thermalPenalty ((c.samples 0).temp core) ((c.samples i).temp core)) cost) 0

/-- `compute_score`: the new `final_score`. Without a sample it reads `samples[-1]`, where
`junk` stands. -/
def computeScore (junk : UInt64) (c : Ctx) : UInt64 :=
  let ops0 := (c.samples 0).ops
  let ops1 := if c.sampleCount = 0 then junk else (c.samples (c.sampleCount - 1)).ops
  let ops := ops1 - ops0
  if c.invalid then 0
  else
    let throughput := ops / UInt64.ofNat benchDurationSec
    let denom := thermalCost c / 100000 + 1
    let num := throughput * 100000
    num / denom

/-! ## The threads -/

/-- Where a worker is in `worker_fn`. -/
inductive WorkerPc where
  /-- not started -/
  | absent
  /-- at the test of `kthread_should_stop` -/
  | top
  /-- at the test of `run` -/
  | test
  /-- in `do_crypto` -/
  | crypto
  /-- at `atomic64_inc` -/
  | inc
  /-- returned -/
  | exited
  deriving DecidableEq

/-- Where the control thread is in `control_fn`. -/
inductive CtrlPc where
  /-- not started -/
  | absent
  /-- created, its function not entered yet -/
  | born
  /-- `sample_count = 0` -/
  | setCount
  /-- `timer_setup` -/
  | setupTimer
  /-- `mod_timer` -/
  | armTimer
  /-- `stop = false` -/
  | clearStop
  /-- at the test of `kthread_should_stop` -/
  | top
  /-- at the test of `stop` -/
  | testStop
  /-- at the test of the deadline -/
  | testTime
  /-- past the deadline: `run = false` -/
  | endRun
  /-- `stop = true` -/
  | endStop
  /-- `stop_sampling` -/
  | delTimer
  /-- `compute_score` -/
  | score
  /-- before the deadline: `run = true` -/
  | dutyOn
  /-- `run = false` -/
  | dutyOff
  /-- returned -/
  | exited
  deriving DecidableEq

/-- Where the timer's callback is in `sample_fn`. -/
inductive CallbackPc where
  /-- not running -/
  | idle
  /-- at the test of `sample_count` -/
  | test
  /-- at `s->ops = ..` of sample `k` -/
  | ops (k : ℕ)
  /-- in the loop over the cores, with those still to be read -/
  | temps (k : ℕ) (left : List Cpu)
  /-- at the return -/
  | ret
  deriving DecidableEq

/-- The shared variables, the threads and the timer. No step of theirs reads the last three
fields. -/
structure State where
  /-- `ctx` -/
  ctx : Ctx
  /-- where each worker is -/
  worker : Cpu → WorkerPc
  /-- where the control thread is -/
  ctrl : CtrlPc
  /-- the timer is pending -/
  pending : Bool
  /-- where its callback is -/
  callback : CallbackPc
  /-- the workers asked to stop -/
  workerStop : Cpu → Bool
  /-- the control thread is asked to stop -/
  ctrlStop : Bool
  /-- how often each worker has counted an operation -/
  incs : Cpu → ℕ
  /-- `stop_sampling` has returned -/
  halted : Bool
  /-- how often `compute_score` was executed -/
  scored : ℕ

/-- The module is loaded, no thread is started. -/
def start (tz : Cpu → Bool) : State :=
  ⟨.init tz, fun _ => .absent, .absent, false, .idle, fun _ => false, false, fun _ => 0, false, 0⟩

/-- The step taken next. -/
inductive Act where
  /-- a step of a worker -/
  | worker (i : Cpu)
  /-- a step of the control thread; `late` is its test of the deadline -/
  | ctrl (late : Bool) (junk : UInt64)
  /-- the timer expires -/
  | fire
  /-- a step of the callback, with what a sensor reads -/
  | callback (reading : Option Int32)
  /-- the module starts a worker -/
  | wake (i : Cpu)
  /-- the module starts the control thread -/
  | runCtrl
  /-- the module asks a worker to stop -/
  | askWorker (i : Cpu)
  /-- the module asks the control thread to stop -/
  | askCtrl
  /-- the module calls `stop_sampling` -/
  | delTimer
  deriving DecidableEq

/-- A worker moves. -/
def State.workerTo (s : State) (i : Cpu) (p : WorkerPc) : State :=
  { s with worker := Function.update s.worker i p }

/-- A worker counts an operation and starts over. -/
def State.counted (s : State) (i : Cpu) : State :=
  { s.workerTo i .top with
    ctx := { s.ctx with ops := s.ctx.ops + 1 }
    incs := Function.update s.incs i (s.incs i + 1) }

/-- The control thread moves. -/
def State.ctrlTo (s : State) (p : CtrlPc) : State := { s with ctrl := p }

/-- `run` is assigned to. -/
def State.setRun (s : State) (b : Bool) : State := { s with ctx := { s.ctx with run := b } }

/-- `stop` is assigned to. -/
def State.setStop (s : State) (b : Bool) : State := { s with ctx := { s.ctx with stop := b } }

/-- `del_timer_sync` returns. -/
def State.delTimer (s : State) : State := { s with pending := false, halted := true }

/-- `compute_score` -/
def State.score (s : State) (junk : UInt64) : State :=
  { s with ctx := { s.ctx with finalScore := computeScore junk s.ctx }, scored := s.scored + 1 }

/-- One sample is changed. -/
def Ctx.setSample (c : Ctx) (k : ℕ) (f : Sample → Sample) : Ctx :=
  { c with samples := Function.update c.samples k (f (c.samples k)) }

/-- `s->temp[i] = temp`, and `invalid = 1` if it is too hot. -/
def Ctx.setTemp (c : Ctx) (k : ℕ) (i : Cpu) (temp : Int32) : Ctx :=
  { c.setSample k fun s => { s with temp := Function.update s.temp i temp } with
    invalid := c.invalid || decide (thermalLimitMillic < temp) }

/-- A step of `worker_fn`. -/
def workerNext (s : State) (i : Cpu) : Option State :=
  match s.worker i with
  | .absent | .exited => none
  | .top => some (s.workerTo i (if s.workerStop i then .exited else .test))
  | .test => some (s.workerTo i (if s.ctx.run then .crypto else .top))
  | .crypto => some (s.workerTo i .inc)
  | .inc => some (s.counted i)

/-- A step of `control_fn`. A thread that is asked to stop before it gets to run never enters
it. -/
def ctrlNext (s : State) (late : Bool) (junk : UInt64) : Option State :=
  match s.ctrl with
  | .absent | .exited => none
  | .born => some (s.ctrlTo (if s.ctrlStop then .exited else .setCount))
  | .setCount => some { s.ctrlTo .setupTimer with ctx := { s.ctx with sampleCount := 0 } }
  | .setupTimer => some { s.ctrlTo .armTimer with pending := false }
  | .armTimer => some { s.ctrlTo .clearStop with pending := true }
  | .clearStop => some ((s.setStop false).ctrlTo .top)
  | .top => some (s.ctrlTo (if s.ctrlStop then .exited else .testStop))
  | .testStop => some (s.ctrlTo (if s.ctx.stop then .top else .testTime))
  | .testTime => some (s.ctrlTo (if late then .endRun else .dutyOn))
  | .endRun => some ((s.setRun false).ctrlTo .endStop)
  | .endStop => some ((s.setStop true).ctrlTo .delTimer)
  | .delTimer => if s.callback = .idle then some (s.delTimer.ctrlTo .score) else none
  | .score => some ((s.score junk).ctrlTo .top)
  | .dutyOn => some ((s.setRun true).ctrlTo .dutyOff)
  | .dutyOff => some ((s.setRun false).ctrlTo .top)

/-- A step of `sample_fn`. -/
def callbackNext (s : State) (reading : Option Int32) : Option State :=
  match s.callback with
  | .idle => none
  | .test =>
    if maxSamples ≤ s.ctx.sampleCount then some { s with callback := .ret }
    else some { s with
      ctx := { s.ctx with sampleCount := s.ctx.sampleCount + 1 }
      callback := .ops s.ctx.sampleCount }
  | .ops k => some { s with
      ctx := s.ctx.setSample k fun smp => { smp with ops := s.ctx.ops }
      callback := .temps k (List.finRange maxCores) }
  | .temps k (i :: left) => some { s with
      ctx := s.ctx.setTemp k i (readTemp (s.ctx.tz i) reading)
      callback := .temps k left }
  | .temps _ [] => some { s with pending := true, callback := .ret }
  | .ret => some { s with callback := .idle }

/-- One step. The module calls `stop_sampling` when the control thread is gone, or if there
never was one, and starts none afterwards; `del_timer_sync` waits for the callback. -/
def next (s : State) : Act → Option State
  | .worker i => workerNext s i
  | .ctrl late junk => ctrlNext s late junk
  | .fire =>
    if s.pending ∧ s.callback = .idle then some { s with pending := false, callback := .test }
    else none
  | .callback reading => callbackNext s reading
  | .wake i => if s.worker i = .absent then some (s.workerTo i .top) else none
  | .runCtrl => if s.ctrl = .absent ∧ s.halted = false then some (s.ctrlTo .born) else none
  | .askWorker i => some { s with workerStop := Function.update s.workerStop i true }
  | .askCtrl => some { s with ctrlStop := true }
  | .delTimer =>
    if (s.ctrl = .absent ∨ s.ctrl = .exited) ∧ s.callback = .idle then some s.delTimer else none

/-- The threads and the timer as a transition system. -/
abbrev lts (tz : Cpu → Bool) : Lts State Act := Lts.ofNext (start tz) next

/-! ## A worker moves -/

section Worker

variable (s : State) {i j : Cpu}

@[simp]
theorem State.workerTo_worker_self (p : WorkerPc) : (s.workerTo i p).worker i = p := by
  simp [State.workerTo]

theorem State.workerTo_worker_of_ne (p : WorkerPc) (h : j ≠ i) :
    (s.workerTo i p).worker j = s.worker j := by
  simp [State.workerTo, h]

@[simp]
theorem State.counted_worker : (s.counted i).worker = (s.workerTo i .top).worker := rfl

@[simp]
theorem State.counted_incs_self : (s.counted i).incs i = s.incs i + 1 := by
  simp [State.counted]

theorem State.counted_incs_of_ne (h : j ≠ i) : (s.counted i).incs j = s.incs j := by
  simp [State.counted, h]

@[simp]
theorem State.counted_ops : (s.counted i).ctx.ops = s.ctx.ops + 1 := rfl

end Worker

/-! ## What a step can do -/

/-- The steps of `workerNext`. -/
inductive WorkerStep (s : State) (i : Cpu) : State → Prop where
  /-- asked to stop -/
  | exit : s.worker i = .top → s.workerStop i = true → WorkerStep s i (s.workerTo i .exited)
  /-- not asked to stop -/
  | go : s.worker i = .top → s.workerStop i = false → WorkerStep s i (s.workerTo i .test)
  /-- switched on -/
  | on : s.worker i = .test → s.ctx.run = true → WorkerStep s i (s.workerTo i .crypto)
  /-- switched off -/
  | off : s.worker i = .test → s.ctx.run = false → WorkerStep s i (s.workerTo i .top)
  /-- `do_crypto` -/
  | crypto : s.worker i = .crypto → WorkerStep s i (s.workerTo i .inc)
  /-- `atomic64_inc` -/
  | inc : s.worker i = .inc → WorkerStep s i (s.counted i)

theorem workerStep_of_next {s s' : State} {i : Cpu} (h : workerNext s i = some s') :
    WorkerStep s i s' := by
  rw [workerNext] at h
  split at h
  · cases h
  · cases h
  · next hp =>
    cases hstop : s.workerStop i <;> rw [hstop] at h <;> cases h
    · exact .go hp hstop
    · exact .exit hp hstop
  · next hp =>
    cases hrun : s.ctx.run <;> rw [hrun] at h <;> cases h
    · exact .off hp hrun
    · exact .on hp hrun
  · next hp => cases h; exact .crypto hp
  · next hp => cases h; exact .inc hp

/-- The steps of `ctrlNext`. -/
inductive CtrlStep (s : State) : State → Prop where
  /-- asked to stop before it began -/
  | unborn : s.ctrl = .born → s.ctrlStop = true → CtrlStep s (s.ctrlTo .exited)
  /-- it begins -/
  | begin : s.ctrl = .born → s.ctrlStop = false → CtrlStep s (s.ctrlTo .setCount)
  /-- `sample_count = 0` -/
  | setCount : s.ctrl = .setCount →
      CtrlStep s { s.ctrlTo .setupTimer with ctx := { s.ctx with sampleCount := 0 } }
  /-- `timer_setup` -/
  | setupTimer : s.ctrl = .setupTimer → CtrlStep s { s.ctrlTo .armTimer with pending := false }
  /-- `mod_timer` -/
  | armTimer : s.ctrl = .armTimer → CtrlStep s { s.ctrlTo .clearStop with pending := true }
  /-- `stop = false` -/
  | clearStop : s.ctrl = .clearStop → CtrlStep s ((s.setStop false).ctrlTo .top)
  /-- asked to stop -/
  | exit : s.ctrl = .top → s.ctrlStop = true → CtrlStep s (s.ctrlTo .exited)
  /-- not asked to stop -/
  | go : s.ctrl = .top → s.ctrlStop = false → CtrlStep s (s.ctrlTo .testStop)
  /-- the benchmark is over -/
  | finished : s.ctrl = .testStop → s.ctx.stop = true → CtrlStep s (s.ctrlTo .top)
  /-- it is not -/
  | going : s.ctrl = .testStop → s.ctx.stop = false → CtrlStep s (s.ctrlTo .testTime)
  /-- the deadline has passed -/
  | late : s.ctrl = .testTime → CtrlStep s (s.ctrlTo .endRun)
  /-- it has not -/
  | early : s.ctrl = .testTime → CtrlStep s (s.ctrlTo .dutyOn)
  /-- `run = false` at the end -/
  | endRun : s.ctrl = .endRun → CtrlStep s ((s.setRun false).ctrlTo .endStop)
  /-- `stop = true` -/
  | endStop : s.ctrl = .endStop → CtrlStep s ((s.setStop true).ctrlTo .delTimer)
  /-- `stop_sampling` returns -/
  | delTimer : s.ctrl = .delTimer → s.callback = .idle → CtrlStep s (s.delTimer.ctrlTo .score)
  /-- `compute_score` -/
  | score {junk : UInt64} : s.ctrl = .score → CtrlStep s ((s.score junk).ctrlTo .top)
  /-- `run = true` -/
  | dutyOn : s.ctrl = .dutyOn → CtrlStep s ((s.setRun true).ctrlTo .dutyOff)
  /-- `run = false` -/
  | dutyOff : s.ctrl = .dutyOff → CtrlStep s ((s.setRun false).ctrlTo .top)

theorem ctrlStep_of_next {s s' : State} {late : Bool} {junk : UInt64}
    (h : ctrlNext s late junk = some s') : CtrlStep s s' := by
  rw [ctrlNext] at h
  split at h
  case h_1 | h_2 => cases h
  case h_3 hp =>
    cases hstop : s.ctrlStop <;> rw [hstop] at h <;> cases h
    · exact .begin hp hstop
    · exact .unborn hp hstop
  case h_4 hp => cases h; exact .setCount hp
  case h_5 hp => cases h; exact .setupTimer hp
  case h_6 hp => cases h; exact .armTimer hp
  case h_7 hp => cases h; exact .clearStop hp
  case h_8 hp =>
    cases hstop : s.ctrlStop <;> rw [hstop] at h <;> cases h
    · exact .go hp hstop
    · exact .exit hp hstop
  case h_9 hp =>
    cases hstop : s.ctx.stop <;> rw [hstop] at h <;> cases h
    · exact .going hp hstop
    · exact .finished hp hstop
  case h_10 hp =>
    cases late <;> cases h
    · exact .early hp
    · exact .late hp
  case h_11 hp => cases h; exact .endRun hp
  case h_12 hp => cases h; exact .endStop hp
  case h_13 hp =>
    split at h
    · next hidle => cases h; exact .delTimer hp hidle
    · cases h
  case h_14 hp => cases h; exact .score hp
  case h_15 hp => cases h; exact .dutyOn hp
  case h_16 hp => cases h; exact .dutyOff hp

/-- The steps of `callbackNext`, and the expiry of the timer. -/
inductive TimerStep (s : State) : State → Prop where
  /-- the timer expires -/
  | fire : s.pending = true → s.callback = .idle →
      TimerStep s { s with pending := false, callback := .test }
  /-- `samples` is full -/
  | full : s.callback = .test → TimerStep s { s with callback := .ret }
  /-- the next sample is taken -/
  | take : s.callback = .test → s.ctx.sampleCount < maxSamples →
      TimerStep s { s with
        ctx := { s.ctx with sampleCount := s.ctx.sampleCount + 1 }
        callback := .ops s.ctx.sampleCount }
  /-- its operations -/
  | ops {k : ℕ} : s.callback = .ops k →
      TimerStep s { s with
        ctx := s.ctx.setSample k fun smp => { smp with ops := s.ctx.ops }
        callback := .temps k (List.finRange maxCores) }
  /-- one of its temperatures -/
  | temp {k : ℕ} {i : Cpu} {left : List Cpu} {t : Int32} : s.callback = .temps k (i :: left) →
      TimerStep s { s with ctx := s.ctx.setTemp k i t, callback := .temps k left }
  /-- `mod_timer` -/
  | rearm {k : ℕ} : s.callback = .temps k [] →
      TimerStep s { s with pending := true, callback := .ret }
  /-- the callback returns -/
  | ret : s.callback = .ret → TimerStep s { s with callback := .idle }

theorem timerStep_of_next {s s' : State} {reading : Option Int32}
    (h : callbackNext s reading = some s') : TimerStep s s' := by
  rw [callbackNext] at h
  split at h
  · cases h
  · next hp =>
    split at h
    · cases h; exact .full hp
    · next hcount => cases h; exact .take hp (Nat.not_le.mp hcount)
  · next hp => cases h; exact .ops hp
  · next hp => cases h; exact .temp hp
  · next hp => cases h; exact .rearm hp
  · next hp => cases h; exact .ret hp

/-- The steps of `next`. -/
inductive Step (s : State) : Act → State → Prop where
  /-- a worker -/
  | worker {i : Cpu} {s' : State} : WorkerStep s i s' → Step s (.worker i) s'
  /-- the control thread -/
  | ctrl {late : Bool} {junk : UInt64} {s' : State} : CtrlStep s s' → Step s (.ctrl late junk) s'
  /-- the timer expires -/
  | fire {s' : State} : TimerStep s s' → Step s .fire s'
  /-- the callback -/
  | callback {reading : Option Int32} {s' : State} : TimerStep s s' → Step s (.callback reading) s'
  /-- a worker is started -/
  | wake {i : Cpu} : s.worker i = .absent → Step s (.wake i) (s.workerTo i .top)
  /-- the control thread is started -/
  | runCtrl : s.ctrl = .absent → s.halted = false → Step s .runCtrl (s.ctrlTo .born)
  /-- a worker is asked to stop -/
  | askWorker {i : Cpu} :
      Step s (.askWorker i) { s with workerStop := Function.update s.workerStop i true }
  /-- the control thread is asked to stop -/
  | askCtrl : Step s .askCtrl { s with ctrlStop := true }
  /-- `stop_sampling` returns to the module -/
  | delTimer : s.ctrl = .absent ∨ s.ctrl = .exited → s.callback = .idle →
      Step s .delTimer s.delTimer

/-- Every step of `next` is one of `Step`. -/
theorem step_of_next {s s' : State} {a : Act} (h : next s a = some s') : Step s a s' := by
  cases a with
  | worker i => exact .worker (workerStep_of_next h)
  | ctrl late junk => exact .ctrl (ctrlStep_of_next h)
  | callback reading => exact .callback (timerStep_of_next h)
  | fire =>
    simp only [next] at h
    split at h
    · next hc => cases h; exact .fire (.fire hc.1 hc.2)
    · cases h
  | wake i =>
    simp only [next] at h
    split at h
    · next hc => cases h; exact .wake hc
    · cases h
  | runCtrl =>
    simp only [next] at h
    split at h
    · next hc => cases h; exact .runCtrl hc.1 hc.2
    · cases h
  | askWorker i => cases h; exact .askWorker
  | askCtrl => cases h; exact .askCtrl
  | delTimer =>
    simp only [next] at h
    split at h
    · next hc => cases h; exact .delTimer hc.1 hc.2
    · cases h

end CryptoChallenge

end KernelModules
