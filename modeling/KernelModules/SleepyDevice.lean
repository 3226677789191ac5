import KernelModules.Monitor
import KernelModules.Transition
import Mathlib.Data.Int.Notation
import Mathlib.Logic.Function.Basic

/-!
# `read_write_sleepy.c`

A read sleeps until a write wakes it. The two meet in one variable: a write sets `flag` and
wakes the sleepers, a read waits for it and clears it behind its wait, in a step of its
own, and does not ask what ended the wait.

* `State`, `next` — any number of tasks that read and write, with a log of what has
  happened to `flag`;
* `Careful` — a step that clears a flag clears one that has been seen, and not for a read
  that was interrupted;
* `keeps_inductive` — runs of careful steps lose no write; `loses_of_careless` — a
  step that is not careful loses one.
-/

namespace KernelModules

namespace SleepyDevice

/-- What the log holds. -/
inductive Event (Tid : Type*) where
  /-- a `driver_write` has set `flag` -/
  | set (t : Tid)
  /-- it has woken the sleepers and returned -/
  | woke (t : Tid)
  /-- the wait of a `driver_read` has ended by `flag != 0` -/
  | observed (t : Tid)
  /-- a `driver_read` has cleared `flag`, which was `old`; a signal had ended its wait or not -/
  | cleared (t : Tid) (signalled : Bool) (old : ℤ)
  deriving DecidableEq

/-- Where a task is. -/
inductive Pc where
  /-- in user space -/
  | user
  /-- in `driver_read`, about to test `flag != 0` -/
  | testing
  /-- in `driver_read`, asleep -/
  | asleep
  /-- in `driver_read`, behind its wait; a signal has ended it or not -/
  | clearing (signalled : Bool)
  /-- in `driver_write`, about to wake the sleepers -/
  | waking
  deriving DecidableEq

/-- The device and the tasks. No step reads the log. -/
structure State (Tid : Type*) where
  /-- `flag` -/
  flag : ℤ
  /-- where each task is -/
  pc : Tid → Pc
  /-- what has happened -/
  log : List (Event Tid)

/-- The step a task takes next. -/
inductive Act (Tid : Type*) where
  /-- it calls `read` -/
  | read (t : Tid)
  /-- it tests the condition of its wait -/
  | test (t : Tid)
  /-- a signal ends its wait -/
  | signal (t : Tid)
  /-- `flag = 0` -/
  | clear (t : Tid)
  /-- it calls `write`: `flag = 1` -/
  | write (t : Tid)
  /-- `wake_up_interruptible` -/
  | wake (t : Tid)

variable {Tid : Type*} [DecidableEq Tid]

/-- The tasks once the sleepers are woken. -/
def woken (pc : Tid → Pc) (t : Tid) : Pc := if pc t = .asleep then .testing else pc t

/-- The tasks once one of them has moved on. -/
def State.at (s : State Tid) (t : Tid) (pc : Pc) : State Tid :=
  { s with pc := Function.update s.pc t pc }

/-- One step. -/
def next (s : State Tid) : Act Tid → Option (State Tid)
  | .read t => if s.pc t = .user then some (s.at t .testing) else none
  | .test t =>
    if s.pc t = .testing then
      if s.flag ≠ 0 then
        some { s.at t (.clearing false) with log := s.log ++ [.observed t] }
      else some (s.at t .asleep)
    else none
  | .signal t =>
    if s.pc t = .testing ∨ s.pc t = .asleep then some (s.at t (.clearing true)) else none
  | .clear t =>
    match s.pc t with
    | .clearing signalled =>
      some { s.at t .user with flag := 0, log := s.log ++ [.cleared t signalled s.flag] }
    | _ => none
  | .write t =>
    if s.pc t = .user then
      some { s.at t .waking with flag := 1, log := s.log ++ [.set t] }
    else none
  | .wake t =>
    if s.pc t = .waking then
      some { s with pc := Function.update (woken s.pc) t .user, log := s.log ++ [.woke t] }
    else none

/-- The module is loaded and nobody uses the device. -/
def start : State Tid := ⟨0, fun _ => .user, []⟩

/-- The tasks and the device. -/
def sleepyLts (Tid : Type*) [DecidableEq Tid] : Lts (State Tid) (Act Tid) :=
  Lts.ofNext start next

/-! ## Writes that are not lost -/

/-- Since every `flag = 1` of this log, some wait has ended by observing the flag. -/
def Seen (log : List (Event Tid)) : Prop :=
  ∀ pre t post, log = pre ++ .set t :: post → ∃ u, .observed u ∈ post

/-- Since the `flag = 1` of every write that has completed, some wait has ended by observing
the flag, or `flag` is still set. -/
def State.Kept (s : State Tid) : Prop :=
  ∀ pre t post, s.log = pre ++ .set t :: post → .woke t ∈ post →
    (∃ u, .observed u ∈ post) ∨ s.flag ≠ 0

/-- No read whose wait was ended by a signal has cleared a flag that was set. -/
def State.Spared (s : State Tid) : Prop := ∀ t old, .cleared t true old ∈ s.log → old = 0

/-- `flag = 0` changes nothing, or it is done by a read that was not interrupted, and since
the last `flag = 1` some wait has ended by observing it. -/
def Careful (s : State Tid) : Act Tid → Prop
  | .clear t => s.flag = 0 ∨ s.pc t = .clearing false ∧ Seen s.log
  | _ => True

/-- What a step may do to `flag` and the log. -/
inductive Step (s : State Tid) (s' : State Tid) : Act Tid → Prop where
  /-- nothing -/
  | quiet {a : Act Tid} : (∀ t, a ≠ .clear t) → s'.flag = s.flag → s'.log = s.log →
      (∀ u, s.pc u = .waking → s'.pc u = .waking) → Step s s' a
  /-- a wait ends by observing the flag -/
  | observe {t : Tid} : s.flag ≠ 0 → s'.flag = s.flag → s'.log = s.log ++ [.observed t] →
      (∀ u, s.pc u = .waking → s'.pc u = .waking) → Step s s' (.test t)
  /-- the flag is cleared -/
  | clear {t : Tid} {signalled : Bool} : s.pc t = .clearing signalled → s'.flag = 0 →
      s'.log = s.log ++ [.cleared t signalled s.flag] →
      (∀ u, s.pc u = .waking → s'.pc u = .waking) → Step s s' (.clear t)
  /-- it is set -/
  | set {t : Tid} : s'.flag = 1 → s'.log = s.log ++ [.set t] → s'.pc t = .waking →
      (∀ u, s.pc u = .waking → s'.pc u = .waking) → Step s s' (.write t)
  /-- a write completes -/
  | wake {t : Tid} : s'.flag = s.flag → s'.log = s.log ++ [.woke t] →
      (∀ u, u ≠ t → s.pc u = .waking → s'.pc u = .waking) → Step s s' (.wake t)

/-- A task that moves on from a place that is not `waking` leaves the writers where they are. -/
theorem waking_at {s : State Tid} {t : Tid} {pc : Pc} (h : s.pc t ≠ .waking) (u : Tid)
    (hu : s.pc u = .waking) : (s.at t pc).pc u = .waking := by
  have hne : u ≠ t := by
    rintro rfl
    exact h hu
  rw [← hu]
  exact Function.update_of_ne hne ..

theorem step_of_next {s s' : State Tid} {a : Act Tid} (h : next s a = some s') : Step s s' a := by
  cases a with
  | read t =>
    obtain ⟨hpc, h⟩ := Option.ite_none_right_eq_some.mp h
    obtain rfl := Option.some.inj h
    exact .quiet (fun _ h => by cases h) rfl rfl (waking_at (by rw [hpc]; exact Pc.noConfusion))
  | test t =>
    obtain ⟨hpc, h⟩ := Option.ite_none_right_eq_some.mp h
    have hne : s.pc t ≠ .waking := by rw [hpc]; exact Pc.noConfusion
    by_cases hflag : s.flag ≠ 0
    · rw [if_pos hflag] at h
      obtain rfl := Option.some.inj h
      exact .observe hflag rfl rfl (waking_at hne)
    · rw [if_neg hflag] at h
      obtain rfl := Option.some.inj h
      exact .quiet (fun _ h => by cases h) rfl rfl (waking_at hne)
  | signal t =>
    obtain ⟨hpc, h⟩ := Option.ite_none_right_eq_some.mp h
    obtain rfl := Option.some.inj h
    refine .quiet (fun _ h => by cases h) rfl rfl (waking_at ?_)
    rcases hpc with hpc | hpc <;> (rw [hpc]; exact Pc.noConfusion)
  | clear t =>
    rw [next] at h
    rcases hpc : s.pc t with _ | _ | _ | signalled | _ <;> rw [hpc] at h
    case clearing =>
      obtain rfl := Option.some.inj h
      exact .clear hpc rfl rfl (waking_at (by rw [hpc]; exact Pc.noConfusion))
    all_goals cases h
  | write t =>
    obtain ⟨hpc, h⟩ := Option.ite_none_right_eq_some.mp h
    obtain rfl := Option.some.inj h
    exact .set rfl rfl (Function.update_self ..) (waking_at (by rw [hpc]; exact Pc.noConfusion))
  | wake t =>
    obtain ⟨hpc, h⟩ := Option.ite_none_right_eq_some.mp h
    obtain rfl := Option.some.inj h
    refine .wake rfl rfl fun u hne hu => ?_
    have hwoken : woken s.pc u = .waking := by rw [woken, hu]; rfl
    rw [← hwoken]
    exact Function.update_of_ne hne ..

/-! ## Careful runs -/

/-- Every write, completed or not, has been observed or is still in `flag`. -/
structure Keeps (s : State Tid) : Prop where
  /-- if `flag` is clear, everything has been observed -/
  seen : s.flag = 0 → Seen s.log
  /-- no interrupted read has cleared a set flag -/
  spared : s.Spared

omit [DecidableEq Tid] in
/-- An entry that is not a `flag = 1` leaves what has been seen seen. -/
theorem Seen.concat {log : List (Event Tid)} {e : Event Tid} (h : Seen log)
    (he : ∀ t, e ≠ .set t) : Seen (log ++ [e]) := by
  intro pre t post hlog
  rcases split_concat_post hlog with ⟨post', hlog', rfl⟩ | ⟨-, rfl⟩
  · obtain ⟨u, hu⟩ := h pre t post' hlog'
    exact ⟨u, List.mem_append_left _ hu⟩
  · exact absurd rfl (he t)

omit [DecidableEq Tid] in
/-- When a wait ends by observing the flag, everything has been seen. -/
theorem seen_observed (log : List (Event Tid)) (u : Tid) : Seen (log ++ [.observed u]) := by
  intro pre t post hlog
  rcases split_concat_post hlog with ⟨post', -, rfl⟩ | ⟨-, h⟩
  · exact ⟨u, List.mem_append_right _ (List.mem_singleton_self _)⟩
  · cases h

omit [DecidableEq Tid] in
/-- An entry that is not a clearing of a set flag by an interrupted read. -/
theorem Spared.concat {s s' : State Tid} {e : Event Tid} (h : s.Spared)
    (hlog : s'.log = s.log ++ [e]) (he : ∀ t old, e = .cleared t true old → old = 0) :
    s'.Spared := by
  intro t old hmem
  rw [hlog] at hmem
  rcases List.mem_append.mp hmem with hmem | hmem
  · exact h t old hmem
  · exact he t old (List.mem_singleton.mp hmem).symm

omit [DecidableEq Tid] in
/-- **A careful step** loses no write. -/
theorem Keeps.step {s s' : State Tid} {a : Act Tid} (h : Keeps s) (hcareful : Careful s a)
    (hstep : Step s s' a) : Keeps s' := by
  cases hstep with
  | quiet _ hflag hlog =>
    refine ⟨?_, ?_⟩
    · intro hclear
      rw [hlog]
      exact h.seen (hflag.symm.trans hclear)
    · rw [State.Spared, hlog]
      exact h.spared
  | observe hset hflag hlog =>
    refine ⟨?_, ?_⟩
    · intro _
      rw [hlog]
      exact seen_observed s.log _
    · exact Spared.concat h.spared hlog fun t old he => by cases he
  | @clear t signalled hpc hflag hlog =>
    refine ⟨?_, ?_⟩
    · intro _
      rw [hlog]
      have hseen : Seen s.log := hcareful.elim h.seen And.right
      exact hseen.concat fun t he => by cases he
    · refine Spared.concat h.spared hlog fun t' old he => ?_
      injection he with _ hsignalled hold
      rcases hcareful with hzero | ⟨hpc', -⟩
      · rw [← hold]
        exact hzero
      · rw [hpc, hsignalled] at hpc'
        cases hpc'
  | set hflag hlog =>
    refine ⟨?_, ?_⟩
    · intro hclear
      rw [hflag] at hclear
      cases hclear
    · exact Spared.concat h.spared hlog fun t old he => by cases he
  | wake hflag hlog =>
    refine ⟨?_, ?_⟩
    · intro hclear
      rw [hlog]
      exact (h.seen (hflag.symm.trans hclear)).concat fun t he => by cases he
    · exact Spared.concat h.spared hlog fun t old he => by cases he

theorem keeps_inductive : ((sleepyLts Tid).restrict Careful).Inductive Keeps where
  init hs := by
    obtain rfl := hs
    refine ⟨?_, ?_⟩
    · intro _ pre t post hlog
      exact absurd hlog.symm (List.append_ne_nil_of_right_ne_nil _ (List.cons_ne_nil _ _))
    · intro t old hmem
      cases hmem
  step h hstep := h.step hstep.1 (step_of_next hstep.2)

omit [DecidableEq Tid] in
theorem Keeps.kept {s : State Tid} (h : Keeps s) : s.Kept := by
  intro pre t post hlog _
  by_cases hflag : s.flag = 0
  · exact .inl (h.seen hflag pre t post hlog)
  · exact .inr hflag

/-! ## Careless steps -/

/-- A write that has set `flag` has completed or is about to. -/
def Underway (s : State Tid) : Prop :=
  ∀ pre t post, s.log = pre ++ .set t :: post → .woke t ∈ post ∨ s.pc t = .waking

omit [DecidableEq Tid] in
/-- The log grows by one entry. -/
theorem Underway.concat {s s' : State Tid} {e : Event Tid} (h : Underway s)
    (hlog : s'.log = s.log ++ [e])
    (hold : ∀ u, s.pc u = .waking → s'.pc u = .waking ∨ e = .woke u)
    (hnew : ∀ t, e = .set t → s'.pc t = .waking) : Underway s' := by
  intro pre t post hsplit
  rw [hlog] at hsplit
  rcases split_concat_post hsplit with ⟨post', hlog', rfl⟩ | ⟨-, he⟩
  · rcases h pre t post' hlog' with hwoke | hwaking
    · exact .inl (List.mem_append_left _ hwoke)
    · rcases hold t hwaking with hwaking | rfl
      · exact .inr hwaking
      · exact .inl (List.mem_append_right _ (List.mem_singleton_self _))
  · exact .inr (hnew t he)

theorem underway_inductive : (sleepyLts Tid).Inductive Underway where
  init hs := by
    obtain rfl := hs
    intro pre t post hlog
    exact absurd hlog.symm (List.append_ne_nil_of_right_ne_nil _ (List.cons_ne_nil _ _))
  step {s s' a} h hnext := by
    cases step_of_next hnext with
    | quiet _ hflag hlog hpc =>
      intro pre t post hsplit
      rw [hlog] at hsplit
      exact (h pre t post hsplit).imp_right (hpc t)
    | observe hset hflag hlog hpc =>
      exact h.concat hlog (fun u hu => .inl (hpc u hu)) fun t he => by cases he
    | clear hpc₀ hflag hlog hpc =>
      exact h.concat hlog (fun u hu => .inl (hpc u hu)) fun t he => by cases he
    | @set t hflag hlog hwaking hpc =>
      refine h.concat hlog (fun u hu => .inl (hpc u hu)) fun u he => ?_
      injection he with he
      rw [← he]
      exact hwaking
    | @wake t hflag hlog hpc =>
      refine h.concat hlog (fun u hu => ?_) fun u he => by cases he
      by_cases hne : u = t
      · rw [hne]
        exact .inr rfl
      · exact .inl (hpc u hne hu)

/-- **A careless step** loses a write, at the latest when that write completes. -/
theorem loses_of_careless {s s' : State Tid} {a : Act Tid} (hs : (sleepyLts Tid).Reachable s)
    (hnext : next s a = some s') (hcareless : ¬ Careful s a) :
    ∃ as u, (sleepyLts Tid).Run s' as u ∧ ¬ (u.Kept ∧ u.Spared) := by
  cases step_of_next hnext with
  | @clear t signalled hpc hflag hlog hwaking =>
    rw [Careful, not_or] at hcareless
    obtain ⟨hset, hcareless⟩ := hcareless
    by_cases hseen : Seen s.log
    · -- the wait was interrupted, so the step itself is wrong
      have hsignalled : signalled = true := by
        by_contra hfalse
        rw [Bool.not_eq_true] at hfalse
        exact hcareless ⟨hfalse ▸ hpc, hseen⟩
      refine ⟨[], s', .nil, fun hgood => hset (hgood.2 t s.flag ?_)⟩
      rw [hlog, hsignalled]
      exact List.mem_append_right _ (List.mem_singleton_self _)
    · -- a write has not been observed, and will not be before it completes
      simp only [Seen, not_forall] at hseen
      obtain ⟨pre, w, post, hsplit, hunseen⟩ := hseen
      have hlog' : s'.log = pre ++ .set w :: (post ++ [.cleared t signalled s.flag]) := by
        rw [hlog, hsplit, List.append_assoc, List.cons_append]
      have hunseen' : ¬ ∃ u, .observed u ∈ post ++ [.cleared t signalled s.flag] := by
        rintro ⟨u, hu⟩
        rcases List.mem_append.mp hu with hu | hu
        · exact hunseen ⟨u, hu⟩
        · cases List.mem_singleton.mp hu
      have hunderway := underway_inductive.reachable (hs.step hnext)
      rcases hunderway pre w _ hlog' with hwoke | hpcw
      · refine ⟨[], s', .nil, fun hgood => ?_⟩
        rcases hgood.1 pre w _ hlog' hwoke with hobs | hflag'
        · exact hunseen' hobs
        · exact hflag' hflag
      · have hwake : next s' (.wake w) = some { s' with
            pc := Function.update (woken s'.pc) w .user, log := s'.log ++ [.woke w] } :=
          if_pos hpcw
        refine ⟨_, _, .snoc .nil hwake, fun hgood => ?_⟩
        have hsplit' : s'.log ++ [.woke w] =
            pre ++ .set w :: (post ++ [.cleared t signalled s.flag] ++ [.woke w]) := by
          rw [hlog', List.append_assoc, List.cons_append]
        rcases hgood.1 pre w _ hsplit' (List.mem_append_right _ (List.mem_singleton_self _))
          with ⟨u, hu⟩ | hflag'
        · rcases List.mem_append.mp hu with hu | hu
          · exact hunseen' ⟨u, hu⟩
          · cases List.mem_singleton.mp hu
        · exact hflag' hflag
  | quiet hne =>
    cases a with
    | clear t => exact absurd rfl (hne t)
    | read | test | signal | write | wake => exact absurd trivial hcareless
  | observe | set | wake => exact absurd trivial hcareless

/-- **The device loses no write** in a run of careful steps, and a step that is not careful
loses one. -/
theorem sleepy_keeps_careful (Tid : Type*) [DecidableEq Tid] :
    (∀ s, ((sleepyLts Tid).restrict Careful).Reachable s → s.Kept ∧ s.Spared) ∧
      ∀ s s' a, (sleepyLts Tid).Reachable s → (sleepyLts Tid).step s a s' → ¬ Careful s a →
        ∃ as u, (sleepyLts Tid).Run s' as u ∧ ¬ (u.Kept ∧ u.Spared) := by
  refine ⟨?_, ?_⟩
  · intro s hs
    have h := keeps_inductive.reachable hs
    exact ⟨h.kept, h.spared⟩
  · intro s s' a hs hstep hcareless
    exact loses_of_careless hs hstep hcareless

/-- A reader is interrupted, a write comes, and the reader clears its flag. -/
def interruptedReader : List (Act Monitor.Duo) :=
  [.read .one, .test .one, .signal .one, .write .two, .wake .two, .clear .one]

/-- The write has completed, nobody has observed it, and `flag` is clear. -/
theorem sleepy_loses_write :
    ∃ s, (sleepyLts Monitor.Duo).Reachable s ∧ ¬ s.Kept ∧ ¬ s.Spared := by
  have hrun : ∃ s, (sleepyLts Monitor.Duo).Run start interruptedReader s ∧
      (s.flag, s.log) = (0, [.set .two, .woke .two, .cleared .one true 1]) :=
    Lts.exists_run_of_map _ (fun s : State Monitor.Duo => (s.flag, s.log)) (by decide)
  obtain ⟨s, hr, hseen⟩ := hrun
  rw [Prod.mk.injEq] at hseen
  obtain ⟨hflag, hlog⟩ := hseen
  refine ⟨s, hr.reachable rfl, fun hkept => ?_, fun hspared => ?_⟩
  · rcases hkept [] .two _ hlog (List.mem_cons_self ..) with ⟨u, hu⟩ | hflag'
    · revert hu
      simp
    · exact hflag' hflag
  · have hold := hspared .one 1 (by rw [hlog]; simp)
    cases hold

end SleepyDevice

end KernelModules
