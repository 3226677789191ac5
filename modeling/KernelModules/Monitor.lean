import KernelModules.Transition
import Mathlib.Data.List.Induction
import Mathlib.Logic.Function.Basic
import Mathlib.Data.Fintype.Basic

/-!
# Blocking calls on a shared object

The shape a blocking driver call has: look at the object to decide whether to
wait, wait on a queue for a condition *without* holding the lock, take the lock,
run a critical section, release it and only then wake a queue. Any number of
tasks do this at once; a `Monitor` fixes what the object, the calls and the
critical sections are, and nothing else.

The wait is the kernel's: the condition is tested; if it fails the task enters
the queue, tests again, and only then sleeps; a wake-up makes every task of the
queue runnable, wherever in that loop it stands. Critical sections are single
steps, because they run under the lock.

Three results, each for every interleaving of any number of tasks:

* `Monitor.sections_inductive` — critical sections serialise: a property of the
  object and of the history of served sections holds in every reachable state
  as soon as each single section keeps it;
* `Monitor.fresh_reachable` — the condition a task waited for still holds when
  its section runs, in every run in which no section spoils the condition of
  another task that has passed its wait;
* `Monitor.wakeDue_inductive` — no wake-up is lost, in every run in which each
  section that makes a condition true goes on to wake its queue.
-/

namespace KernelModules

universe u v w x y

/-- Where a call goes first. -/
inductive Entry (Q : Type v) (R : Type w) : Type (max v w) where
  /-- it returns at once -/
  | finish (r : R)
  /-- it goes straight to the lock -/
  | lock
  /-- it first waits on a queue -/
  | wait (q : Q)

/-- What one critical section does: the object afterwards, the value the call
returns, and the queue it wakes after releasing the lock. -/
structure Outcome (σ : Type u) (Q : Type v) (R : Type w) : Type (max u v w) where
  /-- the object when the lock is released -/
  next : σ
  /-- the value the call returns -/
  ret : R
  /-- the queue woken after the release -/
  wakes : Option Q

/-- A shared object with blocking calls. `Q` are its wait queues, `C` the calls
with their arguments, `R` the values they return. -/
structure Monitor (σ : Type u) (Q : Type v) (C : Type w) (R : Type x) where
  /-- where a call goes first, given what it sees of the object -/
  entry : C → σ → Entry Q R
  /-- the condition the tasks of a queue wait for -/
  cond : Q → σ → Bool
  /-- the critical section; the second argument is the queue waited on -/
  body : C → Option Q → σ → Outcome σ Q R
  /-- what an interrupted wait returns; `none` if the call ignores it -/
  waitError : C → Option R
  /-- what an interrupted lock returns; `none` if the lock cannot be interrupted -/
  lockError : C → Option R

namespace Monitor

/-- How far a task has got with its current call. -/
inductive Pc (Q : Type v) (C : Type w) : Type (max v w) where
  /-- no call in progress -/
  | idle
  /-- called, nothing looked at yet -/
  | entered (c : C)
  /-- about to test the condition, not on the queue -/
  | testing (c : C) (q : Q)
  /-- the condition failed; about to enter the queue -/
  | preparing (c : C) (q : Q)
  /-- on the queue, about to test again -/
  | queued (c : C) (q : Q)
  /-- on the queue, the second test failed; about to sleep -/
  | committed (c : C) (q : Q)
  /-- asleep on the queue -/
  | asleep (c : C) (q : Q)
  /-- past the wait, if there was one; about to take the lock -/
  | locking (c : C) (via : Option Q)
  /-- lock released; about to wake the queue and return -/
  | leaving (wakes : Option Q)

/-- The queue a task is asleep on. -/
def Pc.sleepsOn {Q : Type v} {C : Type w} : Pc Q C → Option Q
  | .asleep _ q => some q
  | _ => none

/-- The queue a task has still to wake after its critical section. -/
def Pc.toWake {Q : Type v} {C : Type w} : Pc Q C → Option Q
  | .leaving w => w
  | _ => none

theorem Pc.toWake_eq_some {Q : Type v} {C : Type w} {p : Pc Q C} {q : Q} :
    p.toWake = some q ↔ p = .leaving (some q) := by
  cases p <;> simp [Pc.toWake]

/-- A wake-up makes the tasks of one queue runnable: whoever sleeps or was about
to goes round the wait loop again. -/
def Pc.wake {Q : Type v} {C : Type w} [DecidableEq Q] (q : Q) : Pc Q C → Pc Q C
  | .queued c q' => if q' = q then .testing c q' else .queued c q'
  | .committed c q' => if q' = q then .preparing c q' else .committed c q'
  | .asleep c q' => if q' = q then .preparing c q' else .asleep c q'
  | p => p

/-- A served critical section: the call, the queue it waited on and the value it
returned. -/
structure Served (Q : Type v) (C : Type w) (R : Type x) : Type (max v w x) where
  /-- the call -/
  call : C
  /-- the queue it waited on, if it waited -/
  via : Option Q
  /-- the value it returned -/
  ret : R

/-- The object, every task's place, and the history of served critical sections
in lock order. No step reads the history. -/
structure State (σ : Type u) (Q : Type v) (C : Type w) (R : Type x) (Tid : Type y) where
  /-- the shared object -/
  dev : σ
  /-- where each task is -/
  pc : Tid → Pc Q C
  /-- the critical sections served so far, in lock order -/
  log : List (Served Q C R)

/-- The step a task takes next. -/
inductive Act (C : Type w) (Tid : Type y) : Type (max w y) where
  /-- a task makes a call -/
  | call (t : Tid) (c : C)
  /-- it looks at the object and picks its way in -/
  | enter (t : Tid)
  /-- it tests the condition it waits for -/
  | test (t : Tid)
  /-- it enters the queue -/
  | prepare (t : Tid)
  /-- it goes to sleep -/
  | sleep (t : Tid)
  /-- a signal ends its wait -/
  | signal (t : Tid)
  /-- it takes the lock and runs its critical section -/
  | lock (t : Tid)
  /-- a signal interrupts its lock -/
  | lockFail (t : Tid)
  /-- it wakes the queue it has to wake and returns -/
  | leave (t : Tid)

/-- Two tasks, for concrete runs. -/
inductive Duo where
  /-- one task -/
  | one
  /-- the other -/
  | two
  deriving DecidableEq

instance : Fintype Duo := ⟨{.one, .two}, fun t => by cases t <;> decide⟩

/-- The steps of a task that calls, finds its condition true and stops at the lock. -/
def Act.toLock {C : Type w} {Tid : Type y} (t : Tid) (c : C) : List (Act C Tid) :=
  [.call t c, .enter t, .test t]

/-- The steps of a task that calls, finds its condition false twice and goes to sleep. -/
def Act.toSleep {C : Type w} {Tid : Type y} (t : Tid) (c : C) : List (Act C Tid) :=
  [.call t c, .enter t, .test t, .prepare t, .test t, .sleep t]

/-- The steps of a task whose call goes straight to the lock, from the call to the
return. -/
def Act.direct {C : Type w} {Tid : Type y} (t : Tid) (c : C) : List (Act C Tid) :=
  [.call t c, .enter t, .lock t, .leave t]

/-- The steps of a task whose wait is over at once, from the call to the return. -/
def Act.through {C : Type w} {Tid : Type y} (t : Tid) (c : C) : List (Act C Tid) :=
  Act.toLock t c ++ [.lock t, .leave t]

variable {σ : Type u} {Q : Type v} {C : Type w} {R : Type x} {Tid : Type y}

/-- Nobody has called yet. -/
def start (d : σ) : State σ Q C R Tid := ⟨d, fun _ => .idle, []⟩

variable [DecidableEq Tid]

/-- One task moves, the object and the history stay. -/
def State.goto (s : State σ Q C R Tid) (t : Tid) (p : Pc Q C) : State σ Q C R Tid :=
  { s with pc := Function.update s.pc t p }

@[simp] theorem State.goto_pc_self (s : State σ Q C R Tid) (t : Tid) (p : Pc Q C) :
    (s.goto t p).pc t = p :=
  Function.update_self ..

theorem State.goto_pc_ne (s : State σ Q C R Tid) {t u : Tid} (hut : u ≠ t) (p : Pc Q C) :
    (s.goto t p).pc u = s.pc u :=
  Function.update_of_ne hut ..

/-- One task has run its critical section. -/
def State.serve (s : State σ Q C R Tid) (t : Tid) (c : C) (via : Option Q)
    (o : Outcome σ Q R) : State σ Q C R Tid :=
  ⟨o.next, Function.update s.pc t (.leaving o.wakes), s.log ++ [⟨c, via, o.ret⟩]⟩

@[simp] theorem State.serve_pc_self (s : State σ Q C R Tid) (t : Tid) (c : C)
    (via : Option Q) (o : Outcome σ Q R) : (s.serve t c via o).pc t = .leaving o.wakes :=
  Function.update_self ..

theorem State.serve_pc_ne (s : State σ Q C R Tid) {t u : Tid} (hut : u ≠ t) (c : C)
    (via : Option Q) (o : Outcome σ Q R) : (s.serve t c via o).pc u = s.pc u :=
  Function.update_of_ne hut ..

variable [DecidableEq Q]

/-- One task has woken the queue it had to wake, if any, and returned. -/
def State.returned (s : State σ Q C R Tid) (t : Tid) : Option Q → State σ Q C R Tid
  | none => s.goto t .idle
  | some q => { s with pc := fun u => ((s.goto t .idle).pc u).wake q }

variable (m : Monitor σ Q C R)

/-- One step. `none` means that the task is not where the step starts. -/
def next (s : State σ Q C R Tid) : Act C Tid → Option (State σ Q C R Tid)
  | .call t c => match s.pc t with
    | .idle => some (s.goto t (.entered c))
    | _ => none
  | .enter t => match s.pc t with
    | .entered c => match m.entry c s.dev with
      | .finish _ => some (s.goto t .idle)
      | .lock => some (s.goto t (.locking c none))
      | .wait q => some (s.goto t (.testing c q))
    | _ => none
  | .test t => match s.pc t with
    | .testing c q =>
      some (s.goto t (if m.cond q s.dev then .locking c (some q) else .preparing c q))
    | .queued c q =>
      some (s.goto t (if m.cond q s.dev then .locking c (some q) else .committed c q))
    | _ => none
  | .prepare t => match s.pc t with
    | .preparing c q => some (s.goto t (.queued c q))
    | _ => none
  | .sleep t => match s.pc t with
    | .committed c q => some (s.goto t (.asleep c q))
    | _ => none
  | .signal t => match s.pc t with
    | .queued c q | .committed c q | .asleep c q => match m.waitError c with
      | some _ => some (s.goto t .idle)
      | none => some (s.goto t (.locking c (some q)))
    | _ => none
  | .lock t => match s.pc t with
    | .locking c via => some (s.serve t c via (m.body c via s.dev))
    | _ => none
  | .lockFail t => match s.pc t with
    | .locking c _ => match m.lockError c with
      | some _ => some (s.goto t .idle)
      | none => none
    | _ => none
  | .leave t => match s.pc t with
    | .leaving w => some (s.returned t w)
    | _ => none

/-- The monitor as a transition system, started on the object `d`. -/
abbrev lts (Tid : Type y) [DecidableEq Tid] (d : σ) :
    Lts (State σ Q C R Tid) (Act C Tid) :=
  Lts.ofNext (start d) m.next

/-! ## What a step can do

`next` is a program; `Step` says once, case by case, what it does, and the
invariants below go by cases on it. -/

/-- Between the first test of a wait and the end of the wait, on the queue. -/
def Pc.OnQueue (p : Pc Q C) (c : C) (q : Q) : Prop :=
  p = .queued c q ∨ p = .committed c q ∨ p = .asleep c q

/-- The steps of `next` as a relation. -/
inductive Step (s : State σ Q C R Tid) : Act C Tid → State σ Q C R Tid → Prop where
  /-- a task makes a call -/
  | call {t : Tid} {c : C} : s.pc t = .idle → Step s (.call t c) (s.goto t (.entered c))
  /-- the call returns before it does anything -/
  | finish {t : Tid} {c : C} {r : R} : s.pc t = .entered c → m.entry c s.dev = .finish r →
      Step s (.enter t) (s.goto t .idle)
  /-- the call goes straight to the lock -/
  | direct {t : Tid} {c : C} : s.pc t = .entered c → m.entry c s.dev = .lock →
      Step s (.enter t) (s.goto t (.locking c none))
  /-- the call waits first -/
  | await {t : Tid} {c : C} {q : Q} : s.pc t = .entered c → m.entry c s.dev = .wait q →
      Step s (.enter t) (s.goto t (.testing c q))
  /-- the condition is observed true -/
  | pass {t : Tid} {c : C} {q : Q} : s.pc t = .testing c q ∨ s.pc t = .queued c q →
      m.cond q s.dev = true → Step s (.test t) (s.goto t (.locking c (some q)))
  /-- the first test fails -/
  | miss {t : Tid} {c : C} {q : Q} : s.pc t = .testing c q → m.cond q s.dev = false →
      Step s (.test t) (s.goto t (.preparing c q))
  /-- the second test fails -/
  | commit {t : Tid} {c : C} {q : Q} : s.pc t = .queued c q → m.cond q s.dev = false →
      Step s (.test t) (s.goto t (.committed c q))
  /-- the task enters the queue -/
  | prepare {t : Tid} {c : C} {q : Q} : s.pc t = .preparing c q →
      Step s (.prepare t) (s.goto t (.queued c q))
  /-- the task goes to sleep -/
  | sleep {t : Tid} {c : C} {q : Q} : s.pc t = .committed c q →
      Step s (.sleep t) (s.goto t (.asleep c q))
  /-- a signal ends the wait and the call returns -/
  | interrupt {t : Tid} {c : C} {q : Q} {r : R} : (s.pc t).OnQueue c q →
      m.waitError c = some r → Step s (.signal t) (s.goto t .idle)
  /-- a signal ends the wait and the call carries on regardless -/
  | ignore {t : Tid} {c : C} {q : Q} : (s.pc t).OnQueue c q →
      m.waitError c = none → Step s (.signal t) (s.goto t (.locking c (some q)))
  /-- the critical section -/
  | lock {t : Tid} {c : C} {via : Option Q} : s.pc t = .locking c via →
      Step s (.lock t) (s.serve t c via (m.body c via s.dev))
  /-- the lock is interrupted and the call returns -/
  | lockFail {t : Tid} {c : C} {via : Option Q} {r : R} : s.pc t = .locking c via →
      m.lockError c = some r → Step s (.lockFail t) (s.goto t .idle)
  /-- the wake-up and the return -/
  | leave {t : Tid} {wakes : Option Q} : s.pc t = .leaving wakes →
      Step s (.leave t) (s.returned t wakes)

variable {m}

/-- Every step of `next` is one of `Step`. -/
theorem step_of_next {s s' : State σ Q C R Tid} {a : Act C Tid}
    (h : m.next s a = some s') : m.Step s a s' := by
  cases a with
  | call t c =>
    simp only [next] at h
    split at h
    · next hp => cases h; exact .call hp
    · cases h
  | enter t =>
    simp only [next] at h
    split at h
    · next c hp =>
      split at h
      · next r he => cases h; exact .finish hp he
      · next he => cases h; exact .direct hp he
      · next q he => cases h; exact .await hp he
    · cases h
  | test t =>
    simp only [next] at h
    split at h
    · next c q hp =>
      rcases hc : m.cond q s.dev with _ | _ <;> rw [hc] at h <;> cases h
      · exact .miss hp hc
      · exact .pass (.inl hp) hc
    · next c q hp =>
      rcases hc : m.cond q s.dev with _ | _ <;> rw [hc] at h <;> cases h
      · exact .commit hp hc
      · exact .pass (.inr hp) hc
    · cases h
  | prepare t =>
    simp only [next] at h
    split at h
    · next c q hp => cases h; exact .prepare hp
    · cases h
  | sleep t =>
    simp only [next] at h
    split at h
    · next c q hp => cases h; exact .sleep hp
    · cases h
  | signal t =>
    simp only [next] at h
    split at h
    · next c q hp =>
      split at h
      · next r he => cases h; exact .interrupt (.inl hp) he
      · next he => cases h; exact .ignore (.inl hp) he
    · next c q hp =>
      split at h
      · next r he => cases h; exact .interrupt (.inr (.inl hp)) he
      · next he => cases h; exact .ignore (.inr (.inl hp)) he
    · next c q hp =>
      split at h
      · next r he => cases h; exact .interrupt (.inr (.inr hp)) he
      · next he => cases h; exact .ignore (.inr (.inr hp)) he
    · cases h
  | lock t =>
    simp only [next] at h
    split at h
    · next c via hp => cases h; exact .lock hp
    · cases h
  | lockFail t =>
    simp only [next] at h
    split at h
    · next c via hp =>
      split at h
      · next r he => cases h; exact .lockFail hp he
      · cases h
    · cases h
  | leave t =>
    simp only [next] at h
    split at h
    · next w hp => cases h; exact .leave hp
    · cases h

/-- A task past its wait can take the lock; its section is then the last of the
history. -/
theorem next_lock {s : State σ Q C R Tid} {t : Tid} {c : C} {via : Option Q}
    (hp : s.pc t = .locking c via) :
    m.next s (.lock t) = some (s.serve t c via (m.body c via s.dev)) := by
  simp only [next, hp]

@[simp] theorem State.returned_dev (s : State σ Q C R Tid) (t : Tid) (w : Option Q) :
    (s.returned t w).dev = s.dev := by
  cases w <;> rfl

@[simp] theorem State.returned_log (s : State σ Q C R Tid) (t : Tid) (w : Option Q) :
    (s.returned t w).log = s.log := by
  cases w <;> rfl

variable (m) in
/-- The ways a call ends: the object before and after, and the value returned. -/
inductive Ends (c : C) (d : σ) : σ → R → Prop where
  /-- before it does anything -/
  | finish {r : R} : m.entry c d = .finish r → Ends c d d r
  /-- interrupted in its wait -/
  | waitError {r : R} : m.waitError c = some r → Ends c d d r
  /-- interrupted at the lock -/
  | lockError {r : R} : m.lockError c = some r → Ends c d d r
  /-- with its critical section -/
  | served (via : Option Q) : Ends c d (m.body c via d).next (m.body c via d).ret

/-- Waking a queue moves nobody past a wait, and nobody who was past one. -/
@[simp] theorem Pc.wake_eq_locking {p : Pc Q C} {q : Q} {c : C} {via : Option Q} :
    p.wake q = .locking c via ↔ p = .locking c via := by
  cases p <;> simp only [Pc.wake] <;> split <;> simp

/-! ## Calls keep to their way in

Whatever a task does, it does for a call that was really made, and it waits on
a queue only where the call's way in sent it there. -/

variable (m) in
/-- Some object sends the call this way. -/
def Routed (c : C) : Option Q → Prop
  | none => ∃ d, m.entry c d = .lock
  | some q => ∃ d, m.entry c d = .wait q

variable (m) in
/-- The call in progress satisfies `K` and came the way it was sent. -/
def Pc.Tracks (K : C → Prop) : Pc Q C → Prop
  | .idle | .leaving _ => True
  | .entered c => K c
  | .testing c q | .preparing c q | .queued c q | .committed c q | .asleep c q =>
    K c ∧ m.Routed c (some q)
  | .locking c via => K c ∧ m.Routed c via

omit [DecidableEq Tid] [DecidableEq Q] in
theorem Pc.Tracks.of_onQueue {K : C → Prop} {p : Pc Q C} {c : C} {q : Q}
    (h : p.Tracks m K) (hp : p.OnQueue c q) : K c ∧ m.Routed c (some q) := by
  rcases hp with rfl | rfl | rfl <;> exact h

omit [DecidableEq Tid] in
theorem Pc.Tracks.wake {K : C → Prop} {p : Pc Q C} (h : p.Tracks m K) (q : Q) :
    (p.wake q).Tracks m K := by
  cases p <;> simp only [Pc.wake] <;> (try split) <;> exact h

/-- Every call in progress is one that was allowed to be made. -/
theorem tracks_inductive {K : C → Prop} {d : σ}
    {P : State σ Q C R Tid → Act C Tid → Prop}
    (hK : ∀ {s : State σ Q C R Tid} {t : Tid} {c : C}, P s (.call t c) → K c) :
    ((m.lts Tid d).restrict P).Inductive fun s => ∀ t, (s.pc t).Tracks m K where
  init hi := by
    cases hi
    exact fun _ => trivial
  step := by
    intro s s' a h ⟨hP, hs⟩
    -- moving one task leaves the others where they are
    have hgoto : ∀ {t : Tid} {p : Pc Q C}, p.Tracks m K →
        ∀ u, ((s.goto t p).pc u).Tracks m K := by
      intro t p hp u
      by_cases hut : u = t
      · rw [hut, State.goto_pc_self]
        exact hp
      · rw [State.goto_pc_ne s hut]
        exact h u
    cases step_of_next hs with
    | call hp => exact hgoto (hK hP)
    | finish hp he => exact hgoto trivial
    | @direct t c hp he =>
      have ht := h t
      rw [hp] at ht
      exact hgoto ⟨ht, s.dev, he⟩
    | @await t c q hp he =>
      have ht := h t
      rw [hp] at ht
      exact hgoto ⟨ht, s.dev, he⟩
    | @pass t c q hp he =>
      have ht := h t
      rcases hp with hp | hp <;> rw [hp] at ht <;> exact hgoto ht
    | @miss t c q hp he | @commit t c q hp he =>
      have ht := h t
      rw [hp] at ht
      exact hgoto ht
    | @prepare t c q hp | @sleep t c q hp =>
      have ht := h t
      rw [hp] at ht
      exact hgoto ht
    | interrupt hp he => exact hgoto trivial
    | @ignore t c q hp he => exact hgoto ((h t).of_onQueue hp)
    | lock hp =>
      -- the task leaves its section; where it stands is all that changed
      exact hgoto trivial
    | lockFail hp he => exact hgoto trivial
    | @leave t w hp =>
      cases w with
      | none => exact hgoto trivial
      | some q => exact fun u => (hgoto (t := t) (p := .idle) trivial u).wake q

/-! ## Critical sections serialise -/

/-- **Serialisation**: a property of the object and of the history holds in every
reachable state as soon as every single critical section keeps it, whatever
else the other tasks are in the middle of. What is already known of the
reachable states may be used at the section. -/
theorem sections_inductive {d : σ} {P : State σ Q C R Tid → Act C Tid → Prop}
    {I : State σ Q C R Tid → Prop} {J : σ → List (Served Q C R) → Prop}
    (hI : ((m.lts Tid d).restrict P).Inductive I) (hinit : J d [])
    (hstep : ∀ {s : State σ Q C R Tid} {t : Tid} {c : C} {via : Option Q}, I s →
      P s (.lock t) → s.pc t = .locking c via → J s.dev s.log →
      J (m.body c via s.dev).next (s.log ++ [⟨c, via, (m.body c via s.dev).ret⟩])) :
    ((m.lts Tid d).restrict P).Inductive fun s => I s ∧ J s.dev s.log := by
  refine hI.and ?_ ?_
  · intro s hi
    cases hi
    exact hinit
  · intro s s' a hIs hJ ⟨hP, hs⟩
    cases step_of_next hs with
    | lock hp => exact hstep hIs hP hp hJ
    | leave _ =>
      rw [State.returned_dev, State.returned_log]
      exact hJ
    | _ => exact hJ

/-- **Serialisation**, for properties of single entries of the history: every served
section was run in a reachable state. -/
theorem served_reachable {d : σ} {P : State σ Q C R Tid → Act C Tid → Prop}
    {G : Served Q C R → Prop}
    (hstep : ∀ {s : State σ Q C R Tid} {t : Tid} {c : C} {via : Option Q},
      ((m.lts Tid d).restrict P).Reachable s → s.pc t = .locking c via →
      G ⟨c, via, (m.body c via s.dev).ret⟩)
    {s : State σ Q C R Tid} (hs : ((m.lts Tid d).restrict P).Reachable s) :
    ∀ e ∈ s.log, G e := by
  have hser := sections_inductive (J := fun _ log => ∀ e ∈ log, G e)
    Lts.reachable_inductive (fun e he => absurd he List.not_mem_nil)
    fun hs _ hp hJ => forall_mem_concat.mpr ⟨hJ, hstep hs hp⟩
  exact (hser.reachable hs).2

/-- A task at its lock came the way its call was sent. -/
theorem routed_reachable {d : σ} {P : State σ Q C R Tid → Act C Tid → Prop}
    {s : State σ Q C R Tid} (hs : ((m.lts Tid d).restrict P).Reachable s) {t : Tid} {c : C}
    {via : Option Q} (hp : s.pc t = .locking c via) : m.Routed c via := by
  have htrack : ∀ t, (s.pc t).Tracks m fun _ => True :=
    (tracks_inductive fun _ => trivial).reachable hs
  have hroute := htrack t
  rw [hp] at hroute
  exact hroute.2

/-- A property of the object that every section keeps holds throughout. -/
theorem dev_inductive {d : σ} {P : State σ Q C R Tid → Act C Tid → Prop} {I : σ → Prop}
    (hinit : I d) (hstep : ∀ {d : σ} (c : C) (via : Option Q), I d → I (m.body c via d).next) :
    ((m.lts Tid d).restrict P).Inductive fun s => I s.dev where
  init hi := by
    cases hi
    exact hinit
  step := by
    intro s s' a hI ⟨_, hs⟩
    cases step_of_next hs with
    | lock hp => exact hstep _ _ hI
    | leave _ =>
      rw [State.returned_dev]
      exact hI
    | _ => exact hI

/-- The section the task is about to run, if it is at its lock, satisfies `P`. -/
def Pc.Runs (P : C → Prop) : Pc Q C → Prop
  | .locking c _ => P c
  | _ => True

instance (P : C → Prop) [DecidablePred P] (p : Pc Q C) : Decidable (p.Runs P) :=
  match p with
  | .locking c _ => inferInstanceAs (Decidable (P c))
  | .idle | .entered _ | .testing _ _ | .preparing _ _ | .queued _ _ | .committed _ _
  | .asleep _ _ | .leaving _ => isTrue trivial

/-- Only calls in `K` are made, and only sections are run for which `P` holds of the
object they find. -/
def Allowed (K : C → Prop) (P : C → σ → Prop) (s : State σ Q C R Tid) : Act C Tid → Prop
  | .call _ c => K c
  | .lock t => (s.pc t).Runs fun c => P c s.dev
  | _ => True

instance (K : C → Prop) (P : C → σ → Prop) [DecidablePred K] [∀ c d, Decidable (P c d)]
    (s : State σ Q C R Tid) (a : Act C Tid) : Decidable (Allowed K P s a) :=
  match a with
  | .call _ c => inferInstanceAs (Decidable (K c))
  | .lock t => inferInstanceAs (Decidable ((s.pc t).Runs fun c => P c s.dev))
  | .enter _ | .test _ | .prepare _ | .sleep _ | .signal _ | .lockFail _ | .leave _ =>
    isTrue trivial

omit [DecidableEq Tid] [DecidableEq Q] in
theorem Allowed.section {K : C → Prop} {P : C → σ → Prop} {s : State σ Q C R Tid} {t : Tid}
    {c : C} {via : Option Q} (h : Allowed K P s (.lock t)) (hp : s.pc t = .locking c via) :
    P c s.dev := by
  have hruns : (s.pc t).Runs fun c => P c s.dev := h
  rw [hp] at hruns
  exact hruns

/-- Serialisation when only some calls are made and only some sections run. -/
theorem allowed_inductive {d : σ} {K : C → Prop} {P : C → σ → Prop}
    {J : σ → List (Served Q C R) → Prop} (hinit : J d [])
    (hstep : ∀ {d : σ} {log : List (Served Q C R)} {c : C} {via : Option Q}, K c →
      m.Routed c via → P c d → J d log →
      J (m.body c via d).next (log ++ [⟨c, via, (m.body c via d).ret⟩])) :
    ((m.lts Tid d).restrict (Allowed K P)).Inductive fun s =>
      (∀ t, (s.pc t).Tracks m K) ∧ J s.dev s.log :=
  sections_inductive (tracks_inductive fun hcall => hcall) hinit fun {s t c via} htr hP hp hJ => by
    have ht := htr t
    rw [hp] at ht
    exact hstep ht.1 ht.2 (hP.section hp) hJ

/-- The call and its way in, without the result. -/
def Served.op (e : Served Q C R) : C × Option Q := (e.call, e.via)

variable (m) in
/-- The critical sections of a list of calls, one after the other. -/
def serveAll (d : σ) (ops : List (C × Option Q)) : σ × List (Served Q C R) :=
  ops.foldl (fun r op =>
    ((m.body op.1 op.2 r.1).next, r.2 ++ [⟨op.1, op.2, (m.body op.1 op.2 r.1).ret⟩])) (d, [])

omit [DecidableEq Q] in
theorem serveAll_concat (d : σ) (ops : List (C × Option Q)) (c : C) (via : Option Q) :
    m.serveAll d (ops ++ [(c, via)]) =
      ((m.body c via (m.serveAll d ops).1).next,
        (m.serveAll d ops).2 ++ [⟨c, via, (m.body c via (m.serveAll d ops).1).ret⟩]) := by
  simp [serveAll]

omit [DecidableEq Q] in
/-- A property kept by every single section holds after any list of them. -/
theorem serveAll_inductive {d : σ} {J : σ → List (Served Q C R) → Prop} (hinit : J d [])
    (hstep : ∀ {d : σ} {log : List (Served Q C R)} (c : C) (via : Option Q), J d log →
      J (m.body c via d).next (log ++ [⟨c, via, (m.body c via d).ret⟩]))
    (ops : List (C × Option Q)) : J (m.serveAll d ops).1 (m.serveAll d ops).2 := by
  induction ops using List.reverseRecOn with
  | nil => exact hinit
  | append_singleton ops op ih =>
    rw [serveAll_concat]
    exact hstep op.1 op.2 ih

/-- Whatever the tasks do, the object is what the served sections make of it one
after the other, in lock order, and each returned what it returns there. -/
theorem reachable_serveAll {d : σ} {s : State σ Q C R Tid}
    (hs : (m.lts Tid d).Reachable s) :
    m.serveAll d (s.log.map Served.op) = (s.dev, s.log) := by
  have htrue : (m.lts Tid d).Inductive fun _ => True := ⟨fun _ => trivial, fun _ _ => trivial⟩
  have hser := sections_inductive (I := fun _ => True)
    (J := fun dev log => m.serveAll d (log.map Served.op) = (dev, log))
    (htrue.restrict fun _ _ => True) rfl fun {s t c via} _ _ _ hJ => by
      rw [List.map_append, List.map_cons, List.map_nil, Served.op, serveAll_concat, hJ]
  exact (hser.reachable hs.restrict_true).2

/-- **Serialisation**, for properties that every single section keeps by itself. -/
theorem reachable_sections {d : σ} {J : σ → List (Served Q C R) → Prop} (hinit : J d [])
    (hstep : ∀ {d : σ} {log : List (Served Q C R)} (c : C) (via : Option Q), J d log →
      J (m.body c via d).next (log ++ [⟨c, via, (m.body c via d).ret⟩]))
    {s : State σ Q C R Tid} (hs : (m.lts Tid d).Reachable s) : J s.dev s.log := by
  have hall := serveAll_inductive hinit hstep (s.log.map Served.op)
  rwa [reachable_serveAll hs] at hall

/-! ## The condition a task waited for

The wait looks at the object before the lock is taken, so its condition may be false
again when the section runs. `Cares` are the calls this matters to, `Spoils` the
sections that may leave a condition false. -/

/-- Past its wait on a queue and at its lock, with a call that cares. -/
def Pc.PastWait (Cares : C → Q → Prop) (q : Q) : Pc Q C → Prop
  | .locking c (some q') => q' = q ∧ Cares c q
  | _ => False

omit [DecidableEq Tid] [DecidableEq Q] in
theorem Pc.pastWait_iff {Cares : C → Q → Prop} {q : Q} {p : Pc Q C} :
    p.PastWait Cares q ↔ ∃ c, p = .locking c (some q) ∧ Cares c q := by
  constructor
  · intro h
    unfold Pc.PastWait at h
    split at h
    · next c q' =>
      obtain ⟨rfl, hc⟩ := h
      exact ⟨c, rfl, hc⟩
    · exact h.elim
  · rintro ⟨c, rfl, hc⟩
    exact ⟨rfl, hc⟩

instance (Cares : C → Q → Prop) [∀ c q, Decidable (Cares c q)] (q : Q) (p : Pc Q C) :
    Decidable (p.PastWait Cares q) :=
  match p with
  | .locking c (some q') => inferInstanceAs (Decidable (q' = q ∧ Cares c q))
  | .locking _ none | .idle | .entered _ | .testing _ _ | .preparing _ _ | .queued _ _
  | .committed _ _ | .asleep _ _ | .leaving _ => isFalse id

/-- The wait the task is in, if a signal can end it, satisfies `P`. -/
def Pc.Waits (P : C → Q → Prop) : Pc Q C → Prop
  | .queued c q | .committed c q | .asleep c q => P c q
  | _ => True

omit [DecidableEq Tid] [DecidableEq Q] in
theorem Pc.Waits.of_onQueue {P : C → Q → Prop} {p : Pc Q C} {c : C} {q : Q}
    (h : p.Waits P) (hp : p.OnQueue c q) : P c q := by
  rcases hp with rfl | rfl | rfl <;> exact h

instance (P : C → Q → Prop) [∀ c q, Decidable (P c q)] (p : Pc Q C) :
    Decidable (p.Waits P) :=
  match p with
  | .queued c q | .committed c q | .asleep c q => inferInstanceAs (Decidable (P c q))
  | .idle | .entered _ | .testing _ _ | .preparing _ _ | .locking _ _ | .leaving _ =>
    isTrue trivial

/-- Every task past its wait whose call cares would still find its condition true. -/
def Fresh (m : Monitor σ Q C R) (Cares : C → Q → Prop) (s : State σ Q C R Tid) : Prop :=
  ∀ t q, (s.pc t).PastWait Cares q → m.cond q s.dev = true

/-- A step that spoils nobody's condition: no section that may leave a condition false
runs while another task is past its wait for it, and no wait whose interruption is
ignored ends while its condition is false. -/
def Considerate (m : Monitor σ Q C R) (Cares : C → Q → Prop) (Spoils : σ → C → Q → Prop)
    (s : State σ Q C R Tid) : Act C Tid → Prop
  | .lock t => (s.pc t).Runs fun c =>
      ∀ q, Spoils s.dev c q → ∀ u, u ≠ t → ¬ (s.pc u).PastWait Cares q
  | .signal t => (s.pc t).Waits fun c q =>
      m.waitError c = none → Cares c q → m.cond q s.dev = true
  | _ => True

instance [Fintype Q] [Fintype Tid] (m : Monitor σ Q C R) (Cares : C → Q → Prop)
    (Spoils : σ → C → Q → Prop) [∀ c q, Decidable (Cares c q)]
    [∀ d c q, Decidable (Spoils d c q)] (s : State σ Q C R Tid) (a : Act C Tid) :
    Decidable (m.Considerate Cares Spoils s a) :=
  match a with
  | .lock t => inferInstanceAs (Decidable ((s.pc t).Runs fun c =>
      ∀ q, Spoils s.dev c q → ∀ u, u ≠ t → ¬ (s.pc u).PastWait Cares q))
  | .signal t => inferInstanceAs (Decidable ((s.pc t).Waits fun c q =>
      m.waitError c = none → Cares c q → m.cond q s.dev = true))
  | .call _ _ | .enter _ | .test _ | .prepare _ | .sleep _ | .lockFail _ | .leave _ =>
    isTrue trivial

omit [DecidableEq Tid] [DecidableEq Q] in
theorem Considerate.not_pastWait {Cares : C → Q → Prop} {Spoils : σ → C → Q → Prop}
    {s : State σ Q C R Tid} {t u : Tid} {c : C} {via : Option Q} {q : Q}
    (h : m.Considerate Cares Spoils s (.lock t)) (hp : s.pc t = .locking c via)
    (hs : Spoils s.dev c q) (hut : u ≠ t) : ¬ (s.pc u).PastWait Cares q := by
  have hruns : (s.pc t).Runs fun c =>
      ∀ q, Spoils s.dev c q → ∀ u, u ≠ t → ¬ (s.pc u).PastWait Cares q := h
  rw [hp] at hruns
  exact hruns q hs u hut

/-- **Freshness**: in a run of considerate steps, whoever has passed its wait still
finds its condition true — if `Spoils` covers every section that makes a condition
false in a state of such a run. -/
theorem fresh_reachable {Cares : C → Q → Prop} {Spoils : σ → C → Q → Prop} {d : σ}
    (hspoils : ∀ {s : State σ Q C R Tid} {c : C} {via : Option Q} {q : Q},
      ((m.lts Tid d).restrict (m.Considerate Cares Spoils)).Reachable s →
      m.cond q s.dev = true → m.cond q (m.body c via s.dev).next = false →
      Spoils s.dev c q) {s : State σ Q C R Tid}
    (hs : ((m.lts Tid d).restrict (m.Considerate Cares Spoils)).Reachable s) :
    m.Fresh Cares s := by
  refine ((Lts.reachable_inductive.and (J := m.Fresh Cares) ?_ ?_).reachable hs).2
  · intro s hi
    cases hi
    intro t q hp
    exact hp.elim
  · intro s s' a hreach h ⟨hP, hs⟩
    -- a task that moves without touching the object can only hurt itself
    have hgoto : ∀ {t : Tid} {p : Pc Q C},
        (∀ q, p.PastWait Cares q → m.cond q s.dev = true) → m.Fresh Cares (s.goto t p) := by
      intro t p hp u q hu
      by_cases hut : u = t
      · subst hut
        rw [State.goto_pc_self] at hu
        exact hp q hu
      · rw [State.goto_pc_ne s hut] at hu
        exact h u q hu
    cases step_of_next hs with
    | pass _ hc =>
      refine hgoto fun q hp => ?_
      obtain ⟨rfl, -⟩ := hp
      exact hc
    | ignore hq he =>
      refine hgoto fun q hp => ?_
      obtain ⟨rfl, hcares⟩ := hp
      exact (Pc.Waits.of_onQueue hP hq) he hcares
    | @lock t c via hp =>
      intro u q hu
      by_cases hut : u = t
      · subst hut
        rw [State.serve_pc_self] at hu
        exact hu.elim
      · rw [State.serve_pc_ne s hut] at hu
        -- the other task's condition was true, and this section did not end it
        have hbefore : m.cond q s.dev = true := h u q hu
        rcases hafter : m.cond q (m.body c via s.dev).next with _ | _
        · exact absurd hu (hP.not_pastWait hp (hspoils hreach hbefore hafter) hut)
        · exact hafter
    | @leave t w hp =>
      cases w with
      | none => exact hgoto fun _ hp => hp.elim
      | some q =>
        intro u q' hu
        rw [State.returned, Pc.pastWait_iff] at hu
        simp only [Pc.wake_eq_locking] at hu
        rw [← Pc.pastWait_iff] at hu
        exact hgoto (t := t) (p := .idle) (fun _ hp => hp.elim) u q' hu
    | _ => exact hgoto fun _ hp => hp.elim

/-- The other direction: a section that leaves a condition false while another task is
past its wait for it leaves that task free to run its own section with the condition
false. -/
theorem stale_of_pastWait {Cares : C → Q → Prop} {s : State σ Q C R Tid} {t u : Tid} {c : C}
    (via : Option Q) {q : Q} (hut : u ≠ t) (hu : (s.pc u).PastWait Cares q)
    (hafter : m.cond q (m.body c via s.dev).next = false) :
    let s₁ := s.serve t c via (m.body c via s.dev)
    ∃ c', s.pc u = .locking c' (some q) ∧ Cares c' q ∧ m.cond q s₁.dev = false ∧
      m.next s₁ (.lock u) = some (s₁.serve u c' (some q) (m.body c' (some q) s₁.dev)) := by
  obtain ⟨c', hu, hcares⟩ := Pc.pastWait_iff.mp hu
  refine ⟨c', hu, hcares, hafter, next_lock ?_⟩
  rw [State.serve_pc_ne s hut]
  exact hu

/-! ## Wake-ups -/

/-- On a queue with a failed test behind it: asleep, or on the way there with
nothing left to look at. -/
def Pc.Sleeping (p : Pc Q C) (q : Q) : Prop :=
  ∃ c, p = .committed c q ∨ p = .asleep c q

/-- Whenever a condition holds and a task sleeps on its queue, some task still has
to wake that queue. -/
def WakeDue (m : Monitor σ Q C R) (s : State σ Q C R Tid) : Prop :=
  ∀ t q, (s.pc t).Sleeping q → m.cond q s.dev = true → ∃ u, s.pc u = .leaving (some q)

omit [DecidableEq Tid] [DecidableEq Q] in
/-- What `WakeDue` says of a task that is asleep: somebody else will wake it. -/
theorem WakeDue.waker {s : State σ Q C R Tid} (h : m.WakeDue s) {t : Tid} {q : Q}
    (ht : (s.pc t).sleepsOn = some q) (hc : m.cond q s.dev = true) :
    ∃ u, u ≠ t ∧ (s.pc u).toWake = some q := by
  have hsleep : ∃ c, s.pc t = .asleep c q := by
    cases hp : s.pc t <;> rw [hp] at ht <;> cases ht
    exact ⟨_, rfl⟩
  obtain ⟨c, hp⟩ := hsleep
  obtain ⟨u, hu⟩ := h t q ⟨c, .inr hp⟩ hc
  refine ⟨u, ?_, by rw [hu]; rfl⟩
  rintro rfl
  rw [hp] at hu
  cases hu

/-- A step that owes no wake-up: a section that makes a condition true wakes its
queue. -/
def Wakes (m : Monitor σ Q C R) (s : State σ Q C R Tid) : Act C Tid → Prop
  | .lock t => ∀ c via q, s.pc t = .locking c via → m.cond q s.dev = false →
      m.cond q (m.body c via s.dev).next = true → (m.body c via s.dev).wakes = some q
  | _ => True

omit [DecidableEq Tid] in
/-- A woken queue has nobody sleeping on it, and nobody starts to sleep elsewhere. -/
theorem Pc.sleeping_of_wake {p : Pc Q C} {q q' : Q} (h : (p.wake q).Sleeping q') :
    p.Sleeping q' ∧ q' ≠ q := by
  obtain ⟨c, h⟩ := h
  cases p <;> simp only [Pc.wake] at h <;> (try split at h) <;> simp_all [Pc.Sleeping]

/-- Waking a queue leaves the other wakers where they are. -/
@[simp] theorem Pc.wake_eq_leaving {p : Pc Q C} {q : Q} {w : Option Q} :
    p.wake q = .leaving w ↔ p = .leaving w := by
  cases p <;> simp only [Pc.wake] <;> (try split) <;> simp

omit [DecidableEq Q] in
/-- A task that was no waker moves, and does not fall asleep on a true condition. -/
theorem WakeDue.goto {s : State σ Q C R Tid} (h : m.WakeDue s) {t : Tid} {p : Pc Q C}
    (hold : ∀ w, s.pc t ≠ .leaving w)
    (hnew : ∀ q, p.Sleeping q → m.cond q s.dev = true → (s.pc t).Sleeping q) :
    m.WakeDue (s.goto t p) := by
  intro u q hu hc
  have hsleep : ∃ v, (s.pc v).Sleeping q := by
    by_cases hut : u = t
    · subst hut
      rw [State.goto_pc_self] at hu
      exact ⟨u, hnew q hu hc⟩
    · rw [State.goto_pc_ne s hut] at hu
      exact ⟨u, hu⟩
  obtain ⟨v, hv⟩ := hsleep
  obtain ⟨waker, hw⟩ := h v q hv hc
  refine ⟨waker, ?_⟩
  have hne : waker ≠ t := fun heq => hold _ (heq ▸ hw)
  rw [State.goto_pc_ne s hne]
  exact hw

omit [DecidableEq Q] in
/-- A section is served that wakes the queue of every condition it makes true. -/
theorem WakeDue.serve {s : State σ Q C R Tid} (h : m.WakeDue s) {t : Tid} {c : C}
    {via : Option Q} (hP : m.Wakes s (.lock t)) (hp : s.pc t = .locking c via) :
    m.WakeDue (s.serve t c via (m.body c via s.dev)) := by
  intro u q hu hc
  have hut : u ≠ t := by
    rintro rfl
    rw [State.serve_pc_self] at hu
    obtain ⟨c', hu | hu⟩ := hu <;> cases hu
  rw [State.serve_pc_ne s hut] at hu
  rcases hbefore : m.cond q s.dev with _ | _
  · -- this section made the condition true, so it will wake the queue
    refine ⟨t, ?_⟩
    rw [State.serve_pc_self, hP c via q hp hbefore hc]
  · -- it was true before: the waker that was due then is still on its way
    obtain ⟨waker, hw⟩ := h u q hu hbefore
    refine ⟨waker, ?_⟩
    have hne : waker ≠ t := by
      rintro rfl
      rw [hp] at hw
      cases hw
    rw [State.serve_pc_ne s hne]
    exact hw

/-- Whoever sleeps when a task has left its section slept before, on a queue that this task
did not wake. -/
theorem sleeping_of_returned {s : State σ Q C R Tid} {t u : Tid} {w : Option Q} {q : Q}
    (hu : ((s.returned t w).pc u).Sleeping q) : (s.pc u).Sleeping q ∧ w ≠ some q := by
  have hidle : ((s.goto t .idle).pc u).Sleeping q → (s.pc u).Sleeping q := by
    intro hv
    by_cases hut : u = t
    · subst hut
      rw [State.goto_pc_self] at hv
      obtain ⟨c', hv | hv⟩ := hv <;> cases hv
    · rwa [State.goto_pc_ne s hut] at hv
  cases w with
  | none => exact ⟨hidle hu, by simp⟩
  | some q' =>
    obtain ⟨hu', hne⟩ := Pc.sleeping_of_wake hu
    exact ⟨hidle hu', fun heq => hne (Option.some.inj heq).symm⟩

/-- A task leaves its section, and wakes the queue it has to. -/
theorem WakeDue.returned {s : State σ Q C R Tid} (h : m.WakeDue s) {t : Tid} {w : Option Q}
    (hp : s.pc t = .leaving w) : m.WakeDue (s.returned t w) := by
  intro u q hu hc
  rw [State.returned_dev] at hc
  obtain ⟨hsleep, hw'⟩ := sleeping_of_returned hu
  obtain ⟨waker, hw⟩ := h u q hsleep hc
  have hne : waker ≠ t := by
    rintro rfl
    rw [hp] at hw
    exact hw' (Pc.leaving.inj hw)
  refine ⟨waker, ?_⟩
  cases w with
  | none => rw [State.returned, State.goto_pc_ne s hne]; exact hw
  | some q' =>
    rw [State.returned, Pc.wake_eq_leaving, State.goto_pc_ne s hne]
    exact hw

/-- **No lost wake-up**: in a run in which every section that makes a condition
true goes on to wake its queue, a sleeper whose condition holds has a waker on
the way. -/
theorem wakeDue_inductive {d : σ} :
    ((m.lts Tid d).restrict m.Wakes).Inductive m.WakeDue where
  init hi := by
    cases hi
    rintro t q ⟨c, hp | hp⟩ <;> cases hp
  step := by
    intro s s' a h ⟨hP, hs⟩
    cases step_of_next hs with
    | @commit t c q hp hc =>
      refine h.goto (fun w hw => by rw [hp] at hw; cases hw) ?_
      rintro q' ⟨c', hq | hq⟩ hc' <;> cases hq
      rw [hc] at hc'
      cases hc'
    | @sleep t c q hp =>
      refine h.goto (fun w hw => by rw [hp] at hw; cases hw) ?_
      rintro q' ⟨c', hq | hq⟩ _ <;> cases hq
      exact ⟨c, .inl hp⟩
    | lock hp => exact h.serve hP hp
    | leave hp => exact h.returned hp
    | @pass t c q hp hc =>
      refine h.goto (fun w hw => by rcases hp with hp | hp <;> rw [hp] at hw <;> cases hw) ?_
      rintro q' ⟨c', hq | hq⟩ <;> cases hq
    | @interrupt t c q r hp hc | @ignore t c q hp hc =>
      refine h.goto (fun w hw => by
        rcases hp with hp | hp | hp <;> rw [hp] at hw <;> cases hw) ?_
      rintro q' ⟨c', hq | hq⟩ <;> cases hq
    | call hp | finish hp | direct hp | await hp | miss hp | prepare hp | lockFail hp =>
      refine h.goto (fun w hw => by rw [hp] at hw; cases hw) ?_
      rintro q' ⟨c', hq | hq⟩ <;> cases hq

/-! ### Whose wake-up it is

A task that has still to wake a queue has left its section; which call that was is in the
labels of the run. -/

/-- The last call a task made in a run. -/
def Act.lastCall (t : Tid) (as : List (Act C Tid)) : Option C :=
  as.foldl (fun last a => match a with
    | .call u c => if u = t then some c else last
    | _ => last) none

theorem Act.lastCall_call (t : Tid) (as : List (Act C Tid)) (c : C) :
    Act.lastCall t (as ++ [.call t c]) = some c := by
  simp [Act.lastCall]

theorem Act.lastCall_concat {t : Tid} {as : List (Act C Tid)} {a : Act C Tid}
    (ha : ∀ c, a ≠ .call t c) : Act.lastCall t (as ++ [a]) = Act.lastCall t as := by
  simp only [Act.lastCall, List.foldl_append, List.foldl_cons, List.foldl_nil]
  split
  · next u c =>
    rw [if_neg]
    rintro rfl
    exact ha c rfl
  · rfl

variable (m) in
/-- The task is serving the given call; once it has left its section, what it has to wake
is what that section asked for. -/
def Pc.Serves (last : Option C) : Pc Q C → Prop
  | .idle => True
  | .entered c | .testing c _ | .preparing c _ | .queued c _ | .committed c _ | .asleep c _
  | .locking c _ => last = some c
  | .leaving w => ∃ c via d, last = some c ∧ (m.body c via d).wakes = w

omit [DecidableEq Tid] in
theorem Pc.Serves.wake {last : Option C} {p : Pc Q C} (h : p.Serves m last) (q : Q) :
    (p.wake q).Serves m last := by
  cases p <;> simp only [Pc.wake] <;> (try split) <;> exact h

/-- Whatever a task is in the middle of, it is the call it made last. -/
theorem Pc.serves_of_run {d : σ} {as : List (Act C Tid)} {s : State σ Q C R Tid}
    (hr : (m.lts Tid d).Run (start d) as s) (t : Tid) :
    (s.pc t).Serves m (Act.lastCall t as) := by
  induction hr generalizing t with
  | nil => trivial
  | @snoc as s s' a hr hs ih =>
    -- a task that moves on within its call, or out of it, made no call
    have hgoto : ∀ {u : Tid} {p : Pc Q C}, (∀ v c, a ≠ .call v c) →
        p.Serves m (Act.lastCall u as) →
        ((s.goto u p).pc t).Serves m (Act.lastCall t (as ++ [a])) := by
      intro u p ha hp
      rw [Act.lastCall_concat (ha t)]
      by_cases htu : t = u
      · rw [htu, State.goto_pc_self]
        exact hp
      · rw [State.goto_pc_ne s htu]
        exact ih t
    cases step_of_next hs with
    | @call u c hp =>
      by_cases htu : t = u
      · rw [htu, State.goto_pc_self, Act.lastCall_call]
        exact rfl
      · rw [State.goto_pc_ne s htu, Act.lastCall_concat (fun c heq => htu (by cases heq; rfl))]
        exact ih t
    | finish hp he | interrupt hp he | lockFail hp he => exact hgoto nofun trivial
    | @direct u c hp | @await u c q hp | @miss u c q hp | @commit u c q hp | @prepare u c q hp
    | @sleep u c q hp =>
      have hu := ih u
      rw [hp] at hu
      exact hgoto nofun hu
    | @pass u c q hp =>
      have hu := ih u
      rcases hp with hp | hp <;> rw [hp] at hu <;> exact hgoto nofun hu
    | @ignore u c q hp =>
      have hu := ih u
      rcases hp with hp | hp | hp <;> rw [hp] at hu <;> exact hgoto nofun hu
    | @lock u c via hp =>
      have hu := ih u
      rw [hp] at hu
      rw [Act.lastCall_concat nofun]
      by_cases htu : t = u
      · rw [htu, State.serve_pc_self]
        exact ⟨c, via, s.dev, hu, rfl⟩
      · rw [State.serve_pc_ne s htu]
        exact ih t
    | @leave u w hp =>
      cases w with
      | none => exact hgoto nofun trivial
      | some q => exact (hgoto (u := u) (p := .idle) nofun trivial).wake q

end Monitor

end KernelModules
