import KernelModules.CryptoChallenge
import KernelModules.Jiffies

/-!
# How long the benchmark takes

`control_fn` compares `jiffies` with `start_jiffies + BENCH_DURATION_SEC * HZ` once in each round,
and a round takes its two `msleep`s and whatever else the thread has to wait for. Here the threads
of `CryptoChallenge` go on in time: the outcome of the comparison is that of the counter, which
wraps around at any moment, and time passes between any two steps.

* `Timed`, `timedNext` — the threads in time; their steps are steps of `next` (`timed_core`);
* `Prompt` — from one comparison to the next at most so many jiffies pass;
* `bench_duration` — **the benchmark** ends later than 60 seconds after its start, and by no more
  than one round; so many rounds it has.
-/

namespace KernelModules

namespace CryptoChallenge

open Jiffies

/-! ## The threads in time -/

/-- What the passing of time depends on. -/
structure Clock where
  /-- the number of bits of `jiffies` -/
  width : ℕ
  /-- there are some -/
  width_pos : 0 < width
  /-- `jiffies` when the module is loaded -/
  boot : BitVec width
  /-- `HZ` -/
  hz : ℕ
  /-- `duty_on_ms`, in jiffies -/
  dutyOn : ℕ
  /-- `duty_off_ms`, in jiffies -/
  dutyOff : ℕ
  /-- the duration of the benchmark is less than half a turn of the counter -/
  small : benchDurationSec * hz < 2 ^ (width - 1)

/-- The duration of the benchmark, in jiffies. -/
def Clock.duration (c : Clock) : ℕ := benchDurationSec * c.hz

/-- The threads, the time that has passed since the module was loaded, and what the control thread
has done in it. -/
structure Timed where
  /-- the threads -/
  core : State
  /-- the jiffies that have passed -/
  now : ℕ
  /-- when `start_jiffies` was set -/
  started : ℕ
  /-- when `jiffies` was last compared, or `start_jiffies` set -/
  tested : ℕ
  /-- when the last `msleep` may return -/
  wake : ℕ
  /-- the rounds begun -/
  rounds : ℕ

/-- The module is loaded, no thread is started. -/
def timedStart (tz : Cpu → Bool) : Timed := ⟨start tz, 0, 0, 0, 0, 0⟩

/-- What happens next. -/
inductive TimedAct where
  /-- time passes -/
  | pass (n : ℕ)
  /-- a step -/
  | step (a : Act)

/-- `time_after(jiffies, ctx.start_jiffies + BENCH_DURATION_SEC * HZ)` -/
def Timed.late (c : Clock) (s : Timed) : Bool :=
  timeAfter (counter c.boot s.now) (counter c.boot s.started + BitVec.ofNat c.width c.duration)

/-- The control thread takes a step to `core`. -/
def Timed.ctrlStep (c : Clock) (s : Timed) (core : State) : Timed :=
  match s.core.ctrl with
  | .born => { s with core := core, started := s.now, tested := s.now }
  | .testTime =>
    { s with core := core, tested := s.now, rounds := if s.late c then s.rounds else s.rounds + 1 }
  -- the `msleep` behind each of the assignments
  | .dutyOn => { s with core := core, wake := s.now + c.dutyOn }
  | .dutyOff => { s with core := core, wake := s.now + c.dutyOff }
  | _ => { s with core := core }

/-- One step. A thread in `msleep` takes none, and the comparison has the outcome it has. -/
def timedNext (c : Clock) (s : Timed) : TimedAct → Option Timed
  | .pass n => some { s with now := s.now + n }
  | .step (.ctrl late junk) =>
    if s.wake ≤ s.now ∧ (s.core.ctrl = .testTime → late = s.late c) then
      (next s.core (.ctrl late junk)).map (s.ctrlStep c)
    else none
  | .step a => (next s.core a).map fun core => { s with core := core }

/-- The threads in time as a transition system. -/
abbrev timedLts (c : Clock) (tz : Cpu → Bool) : Lts Timed TimedAct :=
  Lts.ofNext (timedStart tz) (timedNext c)

/-- The benchmark is going on: the next comparison is still to come. -/
def State.measuring (s : State) : Bool :=
  match s.ctrl with
  | .setCount | .setupTimer | .armTimer | .clearStop | .testTime | .dutyOn | .dutyOff => true
  | .top | .testStop => !s.ctx.stop
  | .absent | .born | .endRun | .endStop | .delTimer | .score | .exited => false

/-- From one comparison to the next at most `g` jiffies pass. -/
def Prompt (g : ℕ) (s : Timed) : TimedAct → Prop
  | .pass n => s.core.measuring = true → s.now + n ≤ s.tested + g
  | .step _ => True

instance (g : ℕ) (s : Timed) (a : TimedAct) : Decidable (Prompt g s a) :=
  match a with
  | .pass n => inferInstanceAs (Decidable (s.core.measuring = true → s.now + n ≤ s.tested + g))
  | .step _ => isTrue trivial

/-! ## The steps -/

variable {c : Clock} {tz : Cpu → Bool} {g : ℕ} {s s' : Timed}

@[simp] theorem ctrlStep_core (c : Clock) (s : Timed) (core : State) :
    (s.ctrlStep c core).core = core := by
  unfold Timed.ctrlStep
  split <;> rfl

/-- What the other threads and the module change. -/
theorem Step.others {s s' : State} {a : Act} (h : Step s a s')
    (ha : ∀ late junk, a ≠ .ctrl late junk) : s'.ctx.stop = s.ctx.stop ∧ s'.scored = s.scored ∧
      (s'.ctrl = s.ctrl ∨ s.ctrl = .absent ∧ s'.ctrl = .born) := by
  cases h with
  | ctrl _ => exact absurd rfl (ha _ _)
  | worker hw => cases hw <;> exact ⟨rfl, rfl, .inl rfl⟩
  | fire ht => cases ht <;> exact ⟨rfl, rfl, .inl rfl⟩
  | callback ht => cases ht <;> exact ⟨rfl, rfl, .inl rfl⟩
  | runCtrl habsent _ => exact ⟨rfl, rfl, .inr ⟨habsent, rfl⟩⟩
  | wake _ | askWorker | askCtrl | delTimer _ _ => exact ⟨rfl, rfl, .inl rfl⟩

/-- **One step**: time passes, the control thread takes a step, or another thread does. -/
theorem timedNext_cases {a : TimedAct} (h : timedNext c s a = some s') :
    (∃ n, a = .pass n ∧ s' = { s with now := s.now + n }) ∨
    (∃ late junk core, s.wake ≤ s.now ∧ (s.core.ctrl = .testTime → late = s.late c) ∧
      next s.core (.ctrl late junk) = some core ∧ s' = s.ctrlStep c core) ∨
    ∃ a core, (∀ late junk, a ≠ .ctrl late junk) ∧ next s.core a = some core ∧
      s' = { s with core := core } := by
  cases a with
  | pass n => exact .inl ⟨n, rfl, (Option.some.inj h).symm⟩
  | step a =>
    by_cases ha : ∃ late junk, a = .ctrl late junk
    · obtain ⟨late, junk, rfl⟩ := ha
      simp only [timedNext, Option.ite_none_right_eq_some, Option.map_eq_some_iff] at h
      obtain ⟨⟨hwake, hlate⟩, core, hcore, rfl⟩ := h
      exact .inr (.inl ⟨late, junk, core, hwake, hlate, hcore, rfl⟩)
    · have hother : ∀ late junk, a ≠ .ctrl late junk := fun late junk heq => ha ⟨late, junk, heq⟩
      have hnext : timedNext c s (.step a) =
          (next s.core a).map fun core => { s with core := core } := by
        cases a with
        | ctrl late junk => exact absurd rfl (hother late junk)
        | _ => rfl
      rw [hnext, Option.map_eq_some_iff] at h
      obtain ⟨core, hcore, rfl⟩ := h
      exact .inr (.inr ⟨a, core, hother, hcore, rfl⟩)

/-- The threads in time do nothing that the threads do not do. -/
theorem timed_core (hs : (timedLts c tz).Reachable s) : (lts tz).Reachable s.core := by
  induction hs with
  | init hi =>
    cases hi
    exact .init rfl
  | step _ hstep ih =>
    rcases timedNext_cases hstep with ⟨n, -, rfl⟩ | ⟨late, junk, core, -, -, hcore, rfl⟩ |
      ⟨a, core, -, hcore, rfl⟩
    · exact ih
    · rw [ctrlStep_core]
      exact ih.step hcore
    · exact ih.step hcore

/-! ## The rounds -/

/-- How long one round takes at least. -/
def Clock.round (c : Clock) : ℕ := c.dutyOn + c.dutyOff

/-- While the benchmark is going on: no comparison has been late, and the rounds begun have taken
the time they take. `slept` is how long the thread has been in `msleep`. -/
structure Going (c : Clock) (g : ℕ) (s : Timed) (slept : ℕ) : Prop where
  /-- no score is computed -/
  unscored : s.core.scored = 0
  /-- time goes on -/
  started_le : s.started ≤ s.tested
  /-- time goes on -/
  tested_le : s.tested ≤ s.now
  /-- the next comparison is not long in coming -/
  prompt : s.now ≤ s.tested + g
  /-- the last one was not late -/
  early : s.tested ≤ s.started + c.duration
  /-- no round takes longer than from one comparison to the next -/
  short : s.tested ≤ s.started + s.rounds * g
  /-- nor less than it sleeps -/
  long : s.started + slept ≤ max s.now s.wake
  /-- the last one began in time -/
  begun : (s.rounds - 1) * c.round ≤ c.duration

/-- When it is over: the last comparison was late, by no more than one round. -/
structure Over (c : Clock) (g : ℕ) (s : Timed) : Prop where
  /-- it was late -/
  late : s.started + c.duration < s.tested
  /-- by no more than one round -/
  prompt : s.tested ≤ s.started + c.duration + g
  /-- no round took longer than that -/
  short : s.tested ≤ s.started + (s.rounds + 1) * g
  /-- and the last one began in time -/
  begun : (s.rounds - 1) * c.round ≤ c.duration

/-- What is known at each place of the control thread. -/
def OnTime (c : Clock) (g : ℕ) (s : Timed) : Prop :=
  match s.core.ctrl with
  | .absent | .born => s.core.scored = 0 ∧ s.rounds = 0
  | .setCount | .setupTimer | .armTimer | .clearStop => Going c g s 0 ∧ s.rounds = 0
  | .top | .testStop =>
    if s.core.ctx.stop then Over c g s else Going c g s (s.rounds * c.round)
  | .testTime => s.core.ctx.stop = false ∧ Going c g s (s.rounds * c.round)
  | .dutyOn => s.core.ctx.stop = false ∧ 0 < s.rounds ∧ Going c g s ((s.rounds - 1) * c.round)
  | .dutyOff => s.core.ctx.stop = false ∧ 0 < s.rounds ∧
      Going c g s ((s.rounds - 1) * c.round + c.dutyOn)
  | .endRun | .endStop => Over c g s
  | .delTimer | .score => s.core.ctx.stop = true ∧ Over c g s
  | .exited => 0 < s.core.scored → Over c g s

theorem Going.core {slept : ℕ} (h : Going c g s slept) {core : State}
    (hscored : core.scored = s.core.scored) : Going c g { s with core := core } slept :=
  ⟨hscored.trans h.unscored, h.started_le, h.tested_le, h.prompt, h.early, h.short, h.long, h.begun⟩

theorem Over.core (h : Over c g s) (core : State) : Over c g { s with core := core } :=
  ⟨h.late, h.prompt, h.short, h.begun⟩

theorem Over.pass (h : Over c g s) (n : ℕ) : Over c g { s with now := s.now + n } :=
  ⟨h.late, h.prompt, h.short, h.begun⟩

/-- Time passes while the benchmark is going on. -/
theorem Going.pass {slept n : ℕ} (h : Going c g s slept) (hn : s.now + n ≤ s.tested + g) :
    Going c g { s with now := s.now + n } slept := by
  refine ⟨h.unscored, h.started_le, h.tested_le.trans (Nat.le_add_right ..), hn, h.early, h.short,
    h.long.trans ?_, h.begun⟩
  exact max_le_max (Nat.le_add_right ..) le_rfl

/-- The comparison is that of the time that has passed. -/
theorem Going.late_iff {slept : ℕ} (h : Going c g s slept) (hg : g ≤ 2 ^ (c.width - 1)) :
    s.late c = true ↔ s.started + c.duration < s.now := by
  have hsmall : c.duration < 2 ^ (c.width - 1) := c.small
  have hprompt := h.prompt
  have hearly := h.early
  have hstarted := h.started_le
  have htested := h.tested_le
  rw [Timed.late, counter_add]
  exact timeAfter_counter c.boot (by omega) (by omega) c.width_pos

/-- Time passes. -/
theorem OnTime.pass (h : OnTime c g s) {n : ℕ} (hprompt : Prompt g s (.pass n)) :
    OnTime c g { s with now := s.now + n } := by
  unfold OnTime at h ⊢
  have hn : s.core.measuring = true → s.now + n ≤ s.tested + g := hprompt
  unfold State.measuring at hn
  dsimp only
  cases hp : s.core.ctrl <;> simp only [hp] at h hn ⊢
  case absent | born => exact h
  case setCount | setupTimer | armTimer | clearStop => exact ⟨h.1.pass (hn trivial), h.2⟩
  case top | testStop =>
    cases hstop : s.core.ctx.stop <;> simp only [hstop] at h hn ⊢
    · exact Going.pass h (hn rfl)
    · exact Over.pass h n
  case testTime => exact ⟨h.1, h.2.pass (hn trivial)⟩
  case dutyOn | dutyOff => exact ⟨h.1, h.2.1, h.2.2.pass (hn trivial)⟩
  case endRun | endStop => exact h.pass n
  case delTimer | score => exact ⟨h.1, h.2.pass n⟩
  case exited => exact fun hscored => (h hscored).pass n

/-- Another thread takes a step. -/
theorem OnTime.others (h : OnTime c g s) {core : State}
    (hstop : core.ctx.stop = s.core.ctx.stop) (hscored : core.scored = s.core.scored)
    (hctrl : core.ctrl = s.core.ctrl ∨ s.core.ctrl = .absent ∧ core.ctrl = .born) :
    OnTime c g { s with core := core } := by
  unfold OnTime at h ⊢
  dsimp only
  rw [hstop]
  rcases hctrl with hctrl | ⟨habsent, hborn⟩
  · rw [hctrl]
    cases hp : s.core.ctrl <;> simp only [hp] at h ⊢
    case absent | born => exact ⟨hscored.trans h.1, h.2⟩
    case setCount | setupTimer | armTimer | clearStop => exact ⟨h.1.core hscored, h.2⟩
    case top | testStop =>
      cases hstop : s.core.ctx.stop <;> simp only [hstop] at h ⊢
      · exact Going.core h hscored
      · exact Over.core h core
    case testTime => exact ⟨h.1, h.2.core hscored⟩
    case dutyOn | dutyOff => exact ⟨h.1, h.2.1, h.2.2.core hscored⟩
    case endRun | endStop => exact h.core core
    case delTimer | score => exact ⟨h.1, h.2.core core⟩
    case exited => exact fun hpos => (h (hscored ▸ hpos)).core core
  · simp only [habsent] at h
    simp only [hborn]
    exact ⟨hscored.trans h.1, h.2⟩

/-- The comparison. -/
theorem OnTime.test (h : OnTime c g s) (hg : g ≤ 2 ^ (c.width - 1)) (hwake : s.wake ≤ s.now)
    (hp : s.core.ctrl = .testTime) :
    OnTime c g (s.ctrlStep c (s.core.ctrlTo (if s.late c then .endRun else .dutyOn))) := by
  simp only [OnTime, hp] at h
  obtain ⟨hstop, hgoing⟩ := h
  have hlate := hgoing.late_iff hg
  have hprompt := hgoing.prompt
  have hshort := hgoing.short
  have hstarted := hgoing.started_le
  have htested := hgoing.tested_le
  have hearly := hgoing.early
  have hlong := hgoing.long
  rw [max_eq_left hwake] at hlong
  have hnext : s.now ≤ s.started + (s.rounds + 1) * g := by
    rw [Nat.succ_mul]
    omega
  simp only [Timed.ctrlStep, hp]
  cases hcase : s.late c with
  | true =>
    have hover := hlate.mp hcase
    exact ⟨hover, hprompt.trans (Nat.add_le_add_right hearly g), hnext, hgoing.begun⟩
  | false =>
    have hintime : s.now ≤ s.started + c.duration := by
      rw [← Nat.not_lt, ← hlate, hcase]
      exact Bool.false_ne_true
    refine ⟨hstop, Nat.succ_pos _, hgoing.unscored, hstarted.trans htested, le_rfl,
      Nat.le_add_right .., hintime, hnext, ?_, ?_⟩
    · exact hlong.trans (le_max_left ..)
    · change (s.rounds + 1 - 1) * c.round ≤ c.duration
      rw [Nat.add_sub_cancel]
      omega

/-- The control thread takes a step. -/
theorem OnTime.ctrl (h : OnTime c g s) (hg : g ≤ 2 ^ (c.width - 1)) (hwake : s.wake ≤ s.now)
    {late : Bool} {junk : UInt64} {core : State} (hlate : s.core.ctrl = .testTime → late = s.late c)
    (hcore : next s.core (.ctrl late junk) = some core) : OnTime c g (s.ctrlStep c core) := by
  cases step_of_next hcore with
  | ctrl hstep =>
  cases hstep with
  | late hp | early hp =>
    have hnext : next s.core (.ctrl late junk) =
        some (s.core.ctrlTo (if late then .endRun else .dutyOn)) := by
      simp only [next, ctrlNext, hp]
    rw [hnext, Option.some.injEq, hlate hp] at hcore
    rw [← hcore]
    exact h.test hg hwake hp
  | unborn hp _ =>
    simp only [OnTime, hp] at h
    simp only [Timed.ctrlStep, hp]
    exact fun hpos => absurd h.1 hpos.ne'
  | begin hp _ =>
    simp only [OnTime, hp] at h
    simp only [Timed.ctrlStep, hp]
    refine ⟨⟨h.1, le_rfl, le_rfl, Nat.le_add_right .., Nat.le_add_right .., Nat.le_add_right ..,
      le_max_left .., ?_⟩, h.2⟩
    change (s.rounds - 1) * c.round ≤ c.duration
    rw [h.2, Nat.zero_sub, Nat.zero_mul]
    exact Nat.zero_le _
  | setCount hp | setupTimer hp | armTimer hp =>
    simp only [OnTime, hp] at h
    simp only [Timed.ctrlStep, hp]
    exact ⟨h.1.core rfl, h.2⟩
  | clearStop hp =>
    simp only [OnTime, hp] at h
    simp only [Timed.ctrlStep, hp]
    have hslept : s.rounds * c.round = 0 := by rw [h.2, Nat.zero_mul]
    change Going c g _ (s.rounds * c.round)
    rw [hslept]
    exact h.1.core rfl
  | exit hp _ =>
    simp only [OnTime, hp] at h
    simp only [Timed.ctrlStep, hp]
    intro hpos
    split at h
    · exact h.core _
    · exact absurd h.unscored hpos.ne'
  | go hp _ =>
    simp only [OnTime, hp] at h
    simp only [Timed.ctrlStep, hp, OnTime, State.ctrlTo]
    split at h
    · next hstop =>
      rw [if_pos hstop]
      exact h.core _
    · next hstop =>
      rw [if_neg hstop]
      exact h.core rfl
  | finished hp hstop =>
    simp only [OnTime, hp, hstop, if_true] at h
    simp only [Timed.ctrlStep, hp, OnTime, State.ctrlTo, hstop, if_true]
    exact h.core _
  | going hp hstop =>
    simp only [OnTime, hp, hstop, Bool.false_eq_true, if_false] at h
    simp only [Timed.ctrlStep, hp]
    exact ⟨hstop, h.core rfl⟩
  | endRun hp =>
    simp only [OnTime, hp] at h
    simp only [Timed.ctrlStep, hp]
    exact h.core _
  | endStop hp =>
    simp only [OnTime, hp] at h
    simp only [Timed.ctrlStep, hp]
    exact ⟨rfl, h.core _⟩
  | delTimer hp _ =>
    simp only [OnTime, hp] at h
    simp only [Timed.ctrlStep, hp]
    exact ⟨h.1, h.2.core _⟩
  | score hp =>
    simp only [OnTime, hp] at h
    simp only [Timed.ctrlStep, hp, OnTime, State.ctrlTo, State.score, h.1, if_true]
    exact h.2.core _
  | dutyOn hp =>
    simp only [OnTime, hp] at h
    simp only [Timed.ctrlStep, hp]
    obtain ⟨hstop, hpos, hgoing⟩ := h
    have hlong := hgoing.long
    rw [max_eq_left hwake] at hlong
    refine ⟨hstop, hpos, hgoing.unscored, hgoing.started_le, hgoing.tested_le, hgoing.prompt,
      hgoing.early, hgoing.short, ?_, hgoing.begun⟩
    exact le_max_of_le_right ((Nat.add_assoc ..).symm.trans_le (Nat.add_le_add_right hlong _))
  | dutyOff hp =>
    simp only [OnTime, hp] at h
    simp only [Timed.ctrlStep, hp, OnTime, State.ctrlTo, State.setRun]
    obtain ⟨hstop, hpos, hgoing⟩ := h
    have hlong := hgoing.long
    rw [max_eq_left hwake] at hlong
    have hround : s.rounds * c.round = (s.rounds - 1) * c.round + c.dutyOn + c.dutyOff := by
      obtain ⟨r, hr⟩ := Nat.exists_eq_succ_of_ne_zero hpos.ne'
      rw [hr, Nat.succ_sub_one, Nat.succ_mul, Clock.round, Nat.add_assoc]
    rw [hstop, if_neg Bool.false_ne_true, hround]
    refine ⟨hgoing.unscored, hgoing.started_le, hgoing.tested_le, hgoing.prompt, hgoing.early,
      hgoing.short, le_max_of_le_right ?_, hgoing.begun⟩
    exact (Nat.add_assoc ..).symm.trans_le (Nat.add_le_add_right hlong _)

/-- Every step keeps the time. -/
theorem onTime_inductive (hg : g ≤ 2 ^ (c.width - 1)) :
    ((timedLts c tz).restrict (Prompt g)).Inductive (OnTime c g) where
  init := by
    rintro s rfl
    exact ⟨rfl, rfl⟩
  step := by
    rintro s s' a h ⟨hprompt, hs⟩
    rcases timedNext_cases hs with ⟨n, rfl, rfl⟩ | ⟨late, junk, core, hwake, hlate, hcore, rfl⟩ |
      ⟨a, core, hother, hcore, rfl⟩
    · exact h.pass hprompt
    · exact h.ctrl hg hwake hlate hcore
    · obtain ⟨hstop, hscored, hctrl⟩ := (step_of_next hcore).others hother
      exact h.others hstop hscored hctrl

/-- **The benchmark.** When the score is computed, the last comparison came later than 60 seconds
after `start_jiffies` was set, and by no more than the jiffies from one comparison to the next,
whatever `jiffies` was then and wherever it wraps around. By then the last round began within the
60 seconds, so that its duty cycles bound the number of rounds from above, as the time from one
comparison to the next does from below. The threads do meanwhile what they do without a clock. -/
theorem bench_duration (hg : g ≤ 2 ^ (c.width - 1))
    (hs : ((timedLts c tz).restrict (Prompt g)).Reachable s) (hscored : 0 < s.core.scored) :
    s.started + 60 * c.hz < s.tested ∧ s.tested ≤ s.started + 60 * c.hz + g ∧
      (s.rounds - 1) * (c.dutyOn + c.dutyOff) ≤ 60 * c.hz ∧ 60 * c.hz < (s.rounds + 1) * g ∧
      (lts tz).Reachable s.core := by
  have htime := (onTime_inductive hg).reachable hs
  have hover : Over c g s := by
    unfold OnTime at htime
    cases hp : s.core.ctrl <;> simp only [hp] at htime
    case absent | born => exact absurd htime.1 hscored.ne'
    case setCount | setupTimer | armTimer | clearStop => exact absurd htime.1.unscored hscored.ne'
    case top | testStop =>
      split at htime
      · exact htime
      · exact absurd htime.unscored hscored.ne'
    case testTime => exact absurd htime.2.unscored hscored.ne'
    case dutyOn | dutyOff => exact absurd htime.2.2.unscored hscored.ne'
    case endRun | endStop => exact htime
    case delTimer | score => exact htime.2
    case exited => exact htime hscored
  have hlate : s.started + 60 * c.hz < s.tested := hover.late
  have hshort := hover.short
  exact ⟨hlate, hover.prompt, hover.begun, by omega, timed_core hs.of_restrict⟩

/-- A 32-bit counter that wraps around 100 ticks after the module is loaded, at 250 Hz. -/
def wrapping : Clock := ⟨32, by decide, 0xffffff9c, 250, 5, 5, by decide⟩

/-- A comparison 32 seconds after the start, a round, and a comparison behind the 60 seconds. -/
def oneRound : List TimedAct :=
  [.step .runCtrl] ++ List.replicate 7 (.step (.ctrl false 0)) ++ [.pass 8000] ++
    List.replicate 2 (.step (.ctrl false 0)) ++ [.pass 5, .step (.ctrl false 0), .pass 7002] ++
    List.replicate 2 (.step (.ctrl false 0)) ++ List.replicate 5 (.step (.ctrl true 0))

/-- The benchmark has taken a little more than 60 seconds. -/
theorem bench_duration_oneRound : ∃ s : Timed,
    ((timedLts wrapping fun _ => true).restrict (Prompt 8000)).Reachable s ∧
      s.rounds = 1 ∧ s.tested = s.started + 15007 ∧ 60 * 250 < s.tested - s.started := by
  have hmap : (oneRound.foldlM (Lts.guardNext (timedNext wrapping) (Prompt 8000))
      (timedStart fun _ => true)).map
      (fun s => (s.rounds, s.tested, s.started, s.core.scored)) = some (1, 15007, 0, 1) := by
    decide +kernel
  obtain ⟨s, hs, hseen⟩ := Lts.exists_reachable_of_map oneRound _ hmap
  simp only [Prod.mk.injEq] at hseen
  obtain ⟨hrounds, htested, hstarted, hscored⟩ := hseen
  obtain ⟨hlate, -⟩ := bench_duration (c := wrapping) (by decide) hs (by omega)
  have hhz : wrapping.hz = 250 := rfl
  rw [hhz] at hlate
  exact ⟨s, hs, hrounds, by omega, by omega⟩

end CryptoChallenge

end KernelModules
