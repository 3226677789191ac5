import KernelModules.Transition
import Mathlib.Algebra.Order.Ring.Nat
import Mathlib.Logic.Function.Iterate

/-!
# A delayed work that arms itself again

A worker runs the handler of a delayed work some time after it is due, and the handler arms the work
for the next time. To stop it, its owner takes it off the timer and forbids to arm it, and then
waits until nobody runs the handler.

* `State`, `next` — the work, its owner, and the time that passes;
* `counted_inductive` — **it never runs too often**: each run of the handler is behind a full delay;
* `timely_inductive` — **nor too seldom**, if no run ends later than so many ticks after it was due;
* `step_of_cancel` — once it is being stopped, the handler runs only if it has been called already.
-/

namespace KernelModules

universe u

/-- A handler and what it waits for. -/
structure DelayedWork (σ : Type u) where
  /-- from arming to due, in ticks -/
  delay : ℕ
  /-- what the handler does before it arms the work again -/
  handler : σ → σ

namespace DelayedWork

variable {σ : Type u}

/-- Where the work is. -/
inductive Work where
  /-- not armed -/
  | idle
  /-- armed -/
  | queued (due : ℕ)
  /-- the handler is called -/
  | running (due : ℕ)
  /-- the handler is about to arm the work -/
  | rearming (due : ℕ)
  deriving DecidableEq

/-- What its owner does. -/
inductive Owner where
  /-- has not started it, or has stopped it -/
  | down
  /-- has started it -/
  | up
  /-- is stopping it -/
  | canceling
  deriving DecidableEq

/-- The work in time. No step reads the last three fields. -/
structure State (σ : Type u) where
  /-- the ticks that have passed -/
  now : ℕ
  /-- what the handler works on -/
  data : σ
  /-- the work -/
  work : Work
  /-- its owner -/
  owner : Owner
  /-- when it was started -/
  since : ℕ
  /-- the data it was started with -/
  first : σ
  /-- how often the handler has run since then -/
  runs : ℕ

/-- Nobody has started it. -/
def start (d : σ) : State σ := ⟨0, d, .idle, .down, 0, d, 0⟩

/-- What happens next. -/
inductive Act (σ : Type u) where
  /-- time passes -/
  | pass (n : ℕ)
  /-- the owner sets the data up -/
  | prepare (d : σ)
  /-- it starts the work -/
  | start
  /-- a worker calls the handler -/
  | execute
  /-- the handler does what it is for -/
  | handle
  /-- it arms the work again -/
  | rearm
  /-- the owner takes the work off the timer, and forbids to arm it -/
  | cancel
  /-- nobody runs the handler any more -/
  | stop

/-- One step. -/
def next (W : DelayedWork σ) (s : State σ) : Act σ → Option (State σ)
  | .pass n => some { s with now := s.now + n }
  | .prepare d => match s.owner with
    | .down => some { s with data := d, since := s.now, first := d, runs := 0 }
    | _ => none
  | .start => match s.owner with
    | .down => some ⟨s.now, s.data, .queued (s.now + W.delay), .up, s.now, s.data, 0⟩
    | _ => none
  | .execute => match s.work with
    | .queued due => if due ≤ s.now then some { s with work := .running due } else none
    | _ => none
  | .handle => match s.work with
    | .running due =>
      some { s with work := .rearming due, data := W.handler s.data, runs := s.runs + 1 }
    | _ => none
  | .rearm => match s.work, s.owner with
    | .rearming _, .up => some { s with work := .queued (s.now + W.delay) }
    | .rearming _, _ => some { s with work := .idle }
    | _, _ => none
  | .cancel => match s.owner, s.work with
    | .up, .queued _ => some { s with owner := .canceling, work := .idle }
    | .up, _ => some { s with owner := .canceling }
    | _, _ => none
  | .stop => match s.owner, s.work with
    | .canceling, .idle => some { s with owner := .down }
    | _, _ => none

/-- The work as a transition system. -/
abbrev lts (W : DelayedWork σ) (d : σ) : Lts (State σ) (Act σ) := Lts.ofNext (start d) (next W)

/-! ## What a step can do -/

variable {W : DelayedWork σ} {s s' : State σ} {a : Act σ} {d : σ} {g : ℕ}

/-- What a step does. -/
inductive Step (W : DelayedWork σ) (s : State σ) : Act σ → State σ → Prop where
  /-- time passes -/
  | pass {n : ℕ} : Step W s (.pass n) { s with now := s.now + n }
  /-- the data is set up -/
  | prepare {d : σ} : s.owner = .down →
      Step W s (.prepare d) { s with data := d, since := s.now, first := d, runs := 0 }
  /-- the start -/
  | start : s.owner = .down →
      Step W s .start ⟨s.now, s.data, .queued (s.now + W.delay), .up, s.now, s.data, 0⟩
  /-- the call of the handler -/
  | execute {due : ℕ} : s.work = .queued due → due ≤ s.now →
      Step W s .execute { s with work := .running due }
  /-- its body -/
  | handle {due : ℕ} : s.work = .running due → Step W s .handle
      { s with work := .rearming due, data := W.handler s.data, runs := s.runs + 1 }
  /-- the work is armed -/
  | rearm {due : ℕ} : s.work = .rearming due → s.owner = .up →
      Step W s .rearm { s with work := .queued (s.now + W.delay) }
  /-- it is not to be armed any more -/
  | lapse {due : ℕ} : s.work = .rearming due → s.owner ≠ .up →
      Step W s .rearm { s with work := .idle }
  /-- the work is taken off the timer -/
  | dequeue {due : ℕ} : s.owner = .up → s.work = .queued due →
      Step W s .cancel { s with owner := .canceling, work := .idle }
  /-- it was not there -/
  | cancel : s.owner = .up → (∀ due, s.work ≠ .queued due) →
      Step W s .cancel { s with owner := .canceling }
  /-- the end -/
  | stop : s.owner = .canceling → s.work = .idle → Step W s .stop { s with owner := .down }

theorem step_of_next (h : next W s a = some s') : Step W s a s' := by
  cases a with
  | pass n => cases h; exact .pass
  | prepare d =>
    simp only [next] at h
    split at h
    · next howner => cases h; exact .prepare howner
    · cases h
  | start =>
    simp only [next] at h
    split at h
    · next howner => cases h; exact .start howner
    · cases h
  | execute =>
    simp only [next] at h
    split at h
    · next due hwork =>
      split at h
      · next hdue => cases h; exact .execute hwork hdue
      · cases h
    · cases h
  | handle =>
    simp only [next] at h
    split at h
    · next hwork => cases h; exact .handle hwork
    · cases h
  | rearm =>
    simp only [next] at h
    split at h
    · next hwork howner => cases h; exact .rearm hwork howner
    · next hwork hne => cases h; exact .lapse hwork hne
    · cases h
  | cancel =>
    simp only [next] at h
    split at h
    · next howner hwork => cases h; exact .dequeue howner hwork
    · next howner hne => cases h; exact .cancel howner hne
    · cases h
  | stop =>
    simp only [next] at h
    split at h
    · next howner hwork => cases h; exact .stop howner hwork
    · cases h

/-! ## How often the handler runs -/

/-- Each run of the handler is behind a full delay, and only a started work is armed. -/
structure Counted (W : DelayedWork σ) (s : State σ) : Prop where
  /-- the data is what the handler has made of it -/
  data : s.data = W.handler^[s.runs] s.first
  /-- the time that has passed -/
  elapsed : s.since + s.runs * W.delay ≤ s.now
  /-- the next run is due after its delay -/
  queued : ∀ {due : ℕ}, s.work = .queued due →
    s.owner = .up ∧ s.since + s.runs * W.delay + W.delay ≤ due
  /-- it has waited for it -/
  running : ∀ {due : ℕ}, s.work = .running due →
    s.owner ≠ .down ∧ s.since + s.runs * W.delay + W.delay ≤ s.now
  /-- a handler that has to arm the work has an owner -/
  rearming : ∀ {due : ℕ}, s.work = .rearming due → s.owner ≠ .down

/-- **It never runs too often.** -/
theorem counted_inductive : (W.lts d).Inductive (Counted W) where
  init := by
    rintro s rfl
    exact ⟨rfl, by simp [start], by simp [start], by simp [start], by simp [start]⟩
  step := by
    intro s s' a h hs
    cases step_of_next hs with
    | pass =>
      refine ⟨h.data, h.elapsed.trans (Nat.le_add_right ..), h.queued, fun hwork => ?_, h.rearming⟩
      obtain ⟨howner, hwait⟩ := h.running hwork
      exact ⟨howner, hwait.trans (Nat.le_add_right ..)⟩
    | prepare howner =>
      refine ⟨rfl, by simp, fun hwork => ?_, fun hwork => ?_, h.rearming⟩
      · exact absurd (howner.symm.trans (h.queued hwork).1) (by simp)
      · exact absurd howner (h.running hwork).1
    | start _ =>
      refine ⟨rfl, by simp, fun hwork => ?_, by simp, by simp⟩
      obtain rfl := Work.queued.inj hwork
      exact ⟨rfl, by simp⟩
    | execute hwork hdue =>
      obtain ⟨howner, hwait⟩ := h.queued hwork
      refine ⟨h.data, h.elapsed, by simp, fun _ => ⟨?_, hwait.trans hdue⟩, by simp⟩
      rw [howner]
      simp
    | handle hwork =>
      obtain ⟨howner, hwait⟩ := h.running hwork
      refine ⟨?_, ?_, by simp, by simp, fun _ => howner⟩
      · change W.handler s.data = _
        rw [h.data, Function.iterate_succ_apply']
      · change s.since + (s.runs + 1) * W.delay ≤ s.now
        rw [Nat.succ_mul]
        omega
    | rearm hwork howner =>
      refine ⟨h.data, h.elapsed, fun hq => ⟨howner, ?_⟩, by simp, by simp⟩
      obtain rfl := Work.queued.inj hq
      exact Nat.add_le_add_right h.elapsed _
    | lapse hwork howner => exact ⟨h.data, h.elapsed, by simp, by simp, by simp⟩
    | dequeue howner hwork => exact ⟨h.data, h.elapsed, by simp, by simp, by simp⟩
    | cancel howner hwork =>
      refine ⟨h.data, h.elapsed, fun hq => absurd hq (hwork _), fun hr => ⟨by simp, ?_⟩, by simp⟩
      exact (h.running hr).2
    | stop howner hwork =>
      refine ⟨h.data, h.elapsed, fun hq => ?_, fun hr => ?_, fun hr => ?_⟩
      · exact absurd (hwork.symm.trans hq) (by simp)
      · exact absurd (hwork.symm.trans hr) (by simp)
      · exact absurd (hwork.symm.trans hr) (by simp)

/-- When the work that is going on was due, or will be. -/
def Work.due : Work → Option ℕ
  | .idle => none
  | .queued due | .running due | .rearming due => some due

/-- While the work is started, each run ends at most `g` ticks after it was due. -/
def Prompt (g : ℕ) (s : State σ) : Act σ → Prop
  | .pass n => s.owner = .up → ∀ due ∈ s.work.due, s.now + n ≤ due + g
  | _ => True

instance (g : ℕ) (s : State σ) (a : Act σ) : Decidable (Prompt g s a) :=
  match a with
  | .pass n => inferInstanceAs (Decidable (s.owner = .up → ∀ due ∈ s.work.due, s.now + n ≤ due + g))
  | .prepare _ | .start | .execute | .handle | .rearm | .cancel | .stop => isTrue trivial

/-- The runs that have ended were due at most a delay and `g` ticks from each other. -/
structure OnTime (W : DelayedWork σ) (g : ℕ) (s : State σ) : Prop where
  /-- the work is armed, or its handler runs -/
  armed : s.work ≠ .idle
  /-- the run that is going on -/
  soon : ∀ due ∈ s.work.due, s.now ≤ due + g
  /-- it is due in time -/
  waiting : ∀ {due : ℕ}, s.work = .queued due ∨ s.work = .running due →
    due ≤ s.since + s.runs * (W.delay + g) + W.delay
  /-- it was due in time -/
  rearming : ∀ {due : ℕ}, s.work = .rearming due →
    due + g ≤ s.since + s.runs * (W.delay + g)

/-- **Nor does it run too seldom.** -/
theorem timely_inductive : ((W.lts d).restrict (Prompt g)).Inductive fun s =>
    s.owner = .up → OnTime W g s where
  init := by
    rintro s rfl howner
    cases howner
  step := by
    rintro s s' a h ⟨hprompt, hs⟩ hup
    cases step_of_next hs with
    | pass => exact ⟨(h hup).armed, hprompt hup, (h hup).waiting, (h hup).rearming⟩
    | prepare howner => exact absurd (howner.symm.trans hup) (by simp)
    | start _ =>
      refine ⟨by simp, ?_, ?_, by simp⟩
      · rintro due hdue
        obtain rfl := Option.some.inj hdue
        change s.now ≤ s.now + W.delay + g
        omega
      · rintro due (hdue | hdue)
        · obtain rfl := Work.queued.inj hdue
          simp
        · cases hdue
    | @execute due hwork hdue =>
      refine ⟨by simp, ?_, ?_, by simp⟩
      · rintro due' hdue'
        exact (h hup).soon due' (by rw [hwork]; exact hdue')
      · rintro due' (hdue' | hdue')
        · cases hdue'
        · obtain rfl := Work.running.inj hdue'
          exact (h hup).waiting (.inl hwork)
    | @handle due hwork =>
      refine ⟨by simp, ?_, ?_, ?_⟩
      · rintro due' hdue'
        exact (h hup).soon due' (by rw [hwork]; exact hdue')
      · rintro due' (hdue' | hdue') <;> cases hdue'
      · rintro due' hdue'
        obtain rfl := Work.rearming.inj hdue'
        have hwait := (h hup).waiting (.inr hwork)
        change due + g ≤ s.since + (s.runs + 1) * (W.delay + g)
        rw [Nat.succ_mul]
        omega
    | @rearm due hwork _ =>
      refine ⟨by simp, ?_, ?_, by simp⟩
      · rintro due' hdue'
        obtain rfl := Option.some.inj hdue'
        change s.now ≤ s.now + W.delay + g
        omega
      · rintro due' (hdue' | hdue')
        · obtain rfl := Work.queued.inj hdue'
          have hend := (h hup).rearming hwork
          have hsoon := (h hup).soon due (by rw [hwork]; rfl)
          change s.now + W.delay ≤ s.since + s.runs * (W.delay + g) + W.delay
          omega
        · cases hdue'
    | lapse _ hne => exact absurd hup hne
    | dequeue | cancel | stop => cases hup

/-- So many times it has run. -/
theorem OnTime.now_le (h : OnTime W g s) : s.now ≤ s.since + (s.runs + 1) * (W.delay + g) := by
  rw [Nat.succ_mul]
  rcases hwork : s.work with _ | due | due | due
  · exact absurd hwork h.armed
  · have hsoon := h.soon due (by rw [hwork]; rfl)
    have hwait := h.waiting (.inl hwork)
    omega
  · have hsoon := h.soon due (by rw [hwork]; rfl)
    have hwait := h.waiting (.inr hwork)
    omega
  · have hsoon := h.soon due (by rw [hwork]; rfl)
    have hend := h.rearming hwork
    omega

/-! ## How it is stopped -/

/-- With nobody in the handler the owner is done. -/
theorem next_stop (howner : s.owner = .canceling) (hwork : s.work = .idle) :
    next W s .stop = some { s with owner := .down } := by
  simp only [next, howner, hwork]

/-- Somebody who is about to arm a work that is being stopped does not. -/
theorem next_lapse {due : ℕ} (howner : s.owner = .canceling) (hwork : s.work = .rearming due) :
    next W s .rearm = some { s with work := .idle } := by
  simp only [next, howner, hwork]

theorem next_handle {due : ℕ} (hwork : s.work = .running due) : next W s .handle =
    some { s with work := .rearming due, data := W.handler s.data, runs := s.runs + 1 } := by
  simp only [next, hwork]

/-- The runs that have been called and have not done anything yet. -/
def Work.pending : Work → ℕ
  | .running _ => 1
  | _ => 0

/-- The owner sets up what comes next. -/
def Act.Anew : Act σ → Prop
  | .prepare _ | .start => True
  | _ => False

/-- **A step while the work is being stopped**, or is: the runs that have been called are all there
are. -/
theorem step_of_cancel (h : Counted W s) (hs : next W s a = some s') (howner : s.owner ≠ .up)
    (ha : ¬ a.Anew) :
    s'.owner ≠ .up ∧ s'.runs + s'.work.pending = s.runs + s.work.pending := by
  cases step_of_next hs with
  | pass => exact ⟨howner, rfl⟩
  | prepare _ | start _ => exact absurd trivial ha
  | execute hwork _ => exact absurd (h.queued hwork).1 howner
  | handle hwork => exact ⟨howner, by rw [hwork]; rfl⟩
  | rearm _ hup | dequeue hup _ | cancel hup _ => exact absurd hup howner
  | lapse hwork _ => exact ⟨howner, by rw [hwork]; rfl⟩
  | stop _ _ => exact ⟨by simp, rfl⟩

end DelayedWork

end KernelModules
