import KernelModules.MonitorFrames

/-!
# `poll` on a monitor

A task in `poll` registers on the queues of the device, looks whether there is anything it asks
for, and sleeps if there is not. It sleeps on all of its queues at once. A wake-up that comes before
it sleeps is noted in `triggered`, and then it looks again instead.

* `Pc` — how far a task has got in `poll`;
* `next` — the tasks of the monitor, and any number of tasks that poll it;
* `due_inductive` — **no wake-up is lost**: while a task sleeps in `poll` and something it asks for
  is there, some task has still to wake that queue;
* `exists_return` — that wake-up ends its sleep, and then its look finds what is there.
-/

namespace KernelModules

universe u v w x y z e

/-- What a device does for `poll`. -/
structure Polled (σ : Type u) (Q : Type v) (E : Type e) where
  /-- the queues it registers a task on -/
  queues : List Q
  /-- whether a look finds any of the events asked for -/
  finds : E → σ → Bool

namespace Polled

open Monitor (wokenBy)

variable {σ : Type u} {Q : Type v} {C : Type w} {R : Type x} {Tid : Type y} {Pid : Type z}
  {E : Type e}

/-- How far a task has got in `poll`. -/
inductive Pc (Q : Type v) (E : Type e) where
  /-- not in `poll` -/
  | idle
  /-- asks for `events`, is on the queues in `done` and not yet on those in `todo` -/
  | registering (events : E) (done todo : List Q) (triggered : Bool)
  /-- registered, about to look again -/
  | looking (events : E) (done : List Q) (triggered : Bool)
  /-- has found nothing, about to sleep -/
  | missed (events : E) (done : List Q) (triggered : Bool)
  /-- asleep on the queues in `done` -/
  | asleep (events : E) (done : List Q)
  deriving DecidableEq

/-- Nothing is left to look at before it sleeps, or it does. -/
def Pc.Waits (p : Pc Q E) (events : E) : Prop :=
  ∃ done, p = .missed events done false ∨ p = .asleep events done

/-- It is on `q`, or will be before it looks. -/
def Pc.Covers (p : Pc Q E) (q : Q) : Prop :=
  match p with
  | .idle => True
  | .registering _ done todo _ => q ∈ done ∨ q ∈ todo
  | .looking _ done _ | .missed _ done _ | .asleep _ done => q ∈ done

section Wake

variable [DecidableEq Q]

/-- A wake-up of a queue is noted by who is registered there, and ends his sleep. -/
def Pc.wake (q : Q) : Pc Q E → Pc Q E
  | .idle => .idle
  | .registering events done todo triggered =>
    .registering events done todo (triggered || decide (q ∈ done))
  | .looking events done triggered => .looking events done (triggered || decide (q ∈ done))
  | .missed events done triggered => .missed events done (triggered || decide (q ∈ done))
  | .asleep events done => if q ∈ done then .looking events done false else .asleep events done

/-- Who waits after a wake-up has waited before, and is not on that queue. -/
theorem Pc.Waits.of_wake {p : Pc Q E} {q : Q} {events : E} (h : (p.wake q).Waits events) :
    p.Waits events ∧ ¬ p.Covers q := by
  obtain ⟨done, h⟩ := h
  cases p with
  | idle | registering _ _ _ _ | looking _ _ _ => obtain h | h := h <;> cases h
  | missed events' done' triggered =>
    obtain h | h := h
    · obtain ⟨rfl, rfl, hfalse⟩ := Pc.missed.inj h
      obtain ⟨rfl, hnot⟩ := Bool.or_eq_false_iff.mp hfalse
      have hnotMem : q ∉ done' := of_decide_eq_false hnot
      exact ⟨⟨_, .inl rfl⟩, hnotMem⟩
    · cases h
  | asleep events' done' =>
    rw [Pc.wake] at h
    split at h
    · obtain h | h := h <;> cases h
    · next hnot =>
      obtain h | h := h
      · cases h
      · obtain ⟨rfl, rfl⟩ := Pc.asleep.inj h
        exact ⟨⟨_, .inr rfl⟩, hnot⟩

theorem Pc.Covers.wake {p : Pc Q E} {q : Q} (h : p.Covers q) (q' : Q) : (p.wake q').Covers q := by
  cases p with
  | asleep events done =>
    rw [Pc.wake]
    split <;> exact h
  | _ => exact h

end Wake

/-- The tasks of the monitor and those that poll it. -/
structure State (σ : Type u) (Q : Type v) (C : Type w) (R : Type x) (Tid : Type y)
    (Pid : Type z) (E : Type e) where
  /-- the tasks of the monitor, and the object -/
  base : Monitor.State σ Q C R Tid
  /-- where each task is that polls it -/
  poller : Pid → Pc Q E

/-- What happens next. -/
inductive Act (C : Type w) (Tid : Type y) (Pid : Type z) (E : Type e) where
  /-- a task of the monitor takes a step -/
  | task (a : Monitor.Act C Tid)
  /-- a task calls `poll` -/
  | poll (p : Pid) (events : E)
  /-- it registers on the next queue -/
  | register (p : Pid)
  /-- it looks -/
  | look (p : Pid)
  /-- it sleeps, if nothing has been noted -/
  | schedule (p : Pid)
  /-- a signal ends its wait, or its time is up -/
  | giveUp (p : Pid)

/-- One task moves on. -/
def State.goto [DecidableEq Pid] (s : State σ Q C R Tid Pid E) (p : Pid) (k : Pc Q E) :
    State σ Q C R Tid Pid E :=
  { s with poller := Function.update s.poller p k }

@[simp] theorem State.goto_poller_self [DecidableEq Pid] (s : State σ Q C R Tid Pid E) (p : Pid)
    (k : Pc Q E) : (s.goto p k).poller p = k :=
  Function.update_self ..

theorem State.goto_poller_ne [DecidableEq Pid] (s : State σ Q C R Tid Pid E) {p p' : Pid}
    (hne : p' ≠ p) (k : Pc Q E) : (s.goto p k).poller p' = s.poller p' :=
  Function.update_of_ne hne ..

/-- Those that poll hear of a wake-up. -/
def State.woken [DecidableEq Q] (s : State σ Q C R Tid Pid E) (base : Monitor.State σ Q C R Tid) :
    Option Q → State σ Q C R Tid Pid E
  | none => ⟨base, s.poller⟩
  | some q => ⟨base, fun p => (s.poller p).wake q⟩

@[simp] theorem State.woken_base [DecidableEq Q] (s : State σ Q C R Tid Pid E)
    (base : Monitor.State σ Q C R Tid) (w : Option Q) : (s.woken base w).base = base := by
  cases w <;> rfl

/-- A step that the tasks of the monitor may take. -/
def OnTasks (K : Monitor.State σ Q C R Tid → Monitor.Act C Tid → Prop)
    (s : State σ Q C R Tid Pid E) : Act C Tid Pid E → Prop
  | .task a => K s.base a
  | _ => True

instance (K : Monitor.State σ Q C R Tid → Monitor.Act C Tid → Prop) [∀ s a, Decidable (K s a)]
    (s : State σ Q C R Tid Pid E) (a : Act C Tid Pid E) : Decidable (OnTasks K s a) :=
  match a with
  | .task a => inferInstanceAs (Decidable (K s.base a))
  | .poll _ _ | .register _ | .look _ | .schedule _ | .giveUp _ => isTrue trivial

/-- The steps of a task that asks for `events` on a device with two queues, finds nothing and
sleeps. -/
def Act.toSleep (p : Pid) (events : E) : List (Act C Tid Pid E) :=
  [.poll p events, .register p, .register p, .look p, .schedule p]

/-- Nobody has called yet. -/
def start (d : σ) : State σ Q C R Tid Pid E := ⟨Monitor.start d, fun _ => .idle⟩

/-- The events a task asks for are the conditions of queues that it is put on. -/
structure Answers (P : Polled σ Q E) (m : Monitor σ Q C R) (Asks : E → Q → Prop) : Prop where
  /-- a look finds the conditions that hold -/
  finds_iff : ∀ {events : E} {d : σ},
    P.finds events d = true ↔ ∃ q, Asks events q ∧ m.cond q d = true
  /-- the device registers the task on each of them -/
  mem_queues : ∀ {events : E} {q : Q}, Asks events q → q ∈ P.queues

variable (P : Polled σ Q E)

/-- A look: the call returns if there is anything it asks for. -/
def look (d : σ) (events : E) (done : List Q) (triggered : Bool) : Pc Q E :=
  if P.finds events d then .idle else .missed events done triggered

variable [DecidableEq Tid] [DecidableEq Pid] [DecidableEq Q]

/-- One step. -/
def next (m : Monitor σ Q C R) (s : State σ Q C R Tid Pid E) :
    Act C Tid Pid E → Option (State σ Q C R Tid Pid E)
  | .task a => (m.next s.base a).map fun base => s.woken base (wokenBy s.base a)
  | .poll p events => match s.poller p with
    | .idle => some (s.goto p (.registering events [] P.queues false))
    | _ => none
  | .register p => match s.poller p with
    | .registering events done (q :: todo) triggered =>
      some (s.goto p (.registering events (q :: done) todo triggered))
    | _ => none
  | .look p => match s.poller p with
    | .registering events done [] triggered | .looking events done triggered =>
      some (s.goto p (P.look s.base.dev events done triggered))
    | _ => none
  | .schedule p => match s.poller p with
    | .missed events done true => some (s.goto p (.looking events done false))
    | .missed events done false => some (s.goto p (.asleep events done))
    | _ => none
  | .giveUp p => match s.poller p with
    | .missed _ _ _ | .asleep _ _ => some (s.goto p .idle)
    | _ => none

/-- The tasks, started on the object `d`. -/
abbrev lts (m : Monitor σ Q C R) (Tid : Type y) (Pid : Type z) [DecidableEq Tid]
    [DecidableEq Pid] (d : σ) : Lts (State σ Q C R Tid Pid E) (Act C Tid Pid E) :=
  Lts.ofNext (start d) (P.next m)

/-! ## What a step can do -/

/-- What a task in `poll` does next. -/
inductive Moves (d : σ) : Pc Q E → Pc Q E → Prop where
  /-- the call -/
  | poll {events : E} : Moves d .idle (.registering events [] P.queues false)
  /-- one more queue -/
  | register {events : E} {done todo : List Q} {q : Q} {triggered : Bool} :
      Moves d (.registering events done (q :: todo) triggered)
        (.registering events (q :: done) todo triggered)
  /-- the look before it sleeps, with all queues -/
  | first {events : E} {done : List Q} {triggered : Bool} :
      Moves d (.registering events done [] triggered) (P.look d events done triggered)
  /-- a look after a wake-up -/
  | look {events : E} {done : List Q} {triggered : Bool} :
      Moves d (.looking events done triggered) (P.look d events done triggered)
  /-- something has been noted -/
  | again {events : E} {done : List Q} :
      Moves d (.missed events done true) (.looking events done false)
  /-- nothing has -/
  | sleep {events : E} {done : List Q} : Moves d (.missed events done false) (.asleep events done)
  /-- the wait ends before it sleeps -/
  | giveUp {events : E} {done : List Q} {triggered : Bool} :
      Moves d (.missed events done triggered) .idle
  /-- the sleep ends without anything -/
  | interrupt {events : E} {done : List Q} : Moves d (.asleep events done) .idle

variable {P} {m : Monitor σ Q C R} {Asks : E → Q → Prop} {s s' : State σ Q C R Tid Pid E} {d : σ}

section Moves

omit [DecidableEq Q]

theorem covers_look {events : E} {done : List Q} {triggered : Bool} {q : Q} (h : q ∈ done) :
    (P.look d events done triggered).Covers q := by
  rw [look]
  split
  · trivial
  · exact h

/-- Who waits after a look has found nothing. -/
theorem waits_look {events events' : E} {done : List Q} {triggered : Bool}
    (h : (P.look d events' done triggered).Waits events) : P.finds events d = false := by
  obtain ⟨done', h⟩ := h
  rw [look] at h
  split at h
  · obtain h | h := h <;> cases h
  · next hfinds =>
    obtain h | h := h
    · obtain ⟨rfl, -, -⟩ := Pc.missed.inj h
      exact Bool.not_eq_true _ ▸ hfinds
    · cases h

/-- No queue is forgotten. -/
theorem Moves.covers {p k : Pc Q E} (h : P.Moves d p k) {q : Q} (hq : q ∈ P.queues)
    (hp : p.Covers q) : k.Covers q := by
  cases h with
  | poll => exact .inr hq
  | register =>
    obtain hdone | htodo := hp
    · exact .inl (List.mem_cons_of_mem _ hdone)
    · obtain rfl | htodo := List.mem_cons.mp htodo
      · exact .inl List.mem_cons_self
      · exact .inr htodo
  | first => exact covers_look (hp.resolve_right List.not_mem_nil)
  | look => exact covers_look hp
  | again | sleep => exact hp
  | giveUp | interrupt => trivial

/-- Nobody waits for what he has found. -/
theorem Moves.waits {p k : Pc Q E} (h : P.Moves d p k) {events : E} (hk : k.Waits events) :
    p.Waits events ∨ P.finds events d = false := by
  cases h with
  | first | look => exact .inr (waits_look hk)
  | sleep =>
    obtain ⟨done', hk | hk⟩ := hk
    · cases hk
    · obtain ⟨rfl, rfl⟩ := Pc.asleep.inj hk
      exact .inl ⟨_, .inl rfl⟩
  | poll | register | again | giveUp | interrupt => obtain ⟨done', hk | hk⟩ := hk <;> cases hk

end Moves

/-- **One step**: a task of the monitor moves and wakes the queue it has to, or a task in `poll`
moves. -/
theorem next_cases {a : Act C Tid Pid E} (h : P.next m s a = some s') :
    (∃ b base, a = .task b ∧ m.next s.base b = some base ∧
      s' = s.woken base (wokenBy s.base b)) ∨
    ∃ p k, P.Moves s.base.dev (s.poller p) k ∧ s' = s.goto p k := by
  cases a with
  | task b =>
    obtain ⟨base, hbase, rfl⟩ := Option.map_eq_some_iff.mp h
    exact .inl ⟨b, base, rfl, hbase, rfl⟩
  | poll p events =>
    simp only [next] at h
    split at h
    · next hp => cases h; exact .inr ⟨p, _, hp ▸ .poll, rfl⟩
    · cases h
  | register p =>
    simp only [next] at h
    split at h
    · next hp => cases h; exact .inr ⟨p, _, hp ▸ .register, rfl⟩
    · cases h
  | look p =>
    simp only [next] at h
    split at h
    · next hp => cases h; exact .inr ⟨p, _, hp ▸ .first, rfl⟩
    · next hp => cases h; exact .inr ⟨p, _, hp ▸ .look, rfl⟩
    · cases h
  | schedule p =>
    simp only [next] at h
    split at h
    · next hp => cases h; exact .inr ⟨p, _, hp ▸ .again, rfl⟩
    · next hp => cases h; exact .inr ⟨p, _, hp ▸ .sleep, rfl⟩
    · cases h
  | giveUp p =>
    simp only [next] at h
    split at h
    · next hp => cases h; exact .inr ⟨p, _, hp ▸ .giveUp, rfl⟩
    · next hp => cases h; exact .inr ⟨p, _, hp ▸ .interrupt, rfl⟩
    · cases h

/-- What the tasks of the monitor do is a run of the monitor. -/
theorem base_reachable {K : Monitor.State σ Q C R Tid → Monitor.Act C Tid → Prop}
    (hs : ((P.lts m Tid Pid d).restrict (OnTasks K)).Reachable s) :
    ((m.lts Tid d).restrict K).Reachable s.base := by
  induction hs with
  | init hi =>
    cases hi
    exact .init rfl
  | step _ hstep ih =>
    obtain ⟨hK, hs⟩ := hstep
    rcases next_cases hs with ⟨b, base, rfl, hbase, rfl⟩ | ⟨p, k, -, rfl⟩
    · rw [State.woken_base]
      exact ih.step ⟨hK, hbase⟩
    · exact ih

/-! ## Wake-ups -/

/-- Whenever a task waits in `poll` for something that is there, some task has still to wake that
queue. -/
def Due (m : Monitor σ Q C R) (Asks : E → Q → Prop) (s : State σ Q C R Tid Pid E) : Prop :=
  ∀ p events q, (s.poller p).Waits events → Asks events q → m.cond q s.base.dev = true →
    ∃ u, s.base.pc u = .leaving (some q)

omit [DecidableEq Tid] [DecidableEq Pid] in
theorem covers_woken {base : Monitor.State σ Q C R Tid} {w : Option Q} {p : Pid} {q : Q}
    (h : (s.poller p).Covers q) : ((s.woken base w).poller p).Covers q := by
  cases w with
  | none => exact h
  | some q' => exact h.wake q'

/-- Every task in `poll` is on all queues before it looks. -/
theorem covers_inductive : (P.lts m Tid Pid d).Inductive fun s =>
    ∀ p, ∀ q ∈ P.queues, (s.poller p).Covers q where
  init := by
    rintro s rfl p q -
    trivial
  step := by
    intro s s' a h hs p q hq
    rcases next_cases hs with ⟨b, base, -, -, rfl⟩ | ⟨p', k, hmoves, rfl⟩
    · exact covers_woken (h p q hq)
    · by_cases hp : p = p'
      · subst hp
        rw [State.goto_poller_self]
        exact hmoves.covers hq (h p q hq)
      · rw [State.goto_poller_ne s hp]
        exact h p q hq

omit [DecidableEq Tid] [DecidableEq Pid] in
/-- Who waits after a step of the monitor has waited before, and is on no queue it wakes. -/
theorem waits_of_woken {base : Monitor.State σ Q C R Tid} {w : Option Q} {p : Pid} {events : E}
    (h : ((s.woken base w).poller p).Waits events) :
    (s.poller p).Waits events ∧ ∀ q, w = some q → ¬ (s.poller p).Covers q := by
  cases w with
  | none => exact ⟨h, by simp⟩
  | some q =>
    obtain ⟨hwaits, hnot⟩ := Pc.Waits.of_wake h
    exact ⟨hwaits, fun q' hq => Option.some.inj hq ▸ hnot⟩

omit [DecidableEq Pid] in
/-- A step of the monitor that announces what it does. -/
theorem Due.task (hAnswers : P.Answers m Asks) (h : Due m Asks s)
    (hcovers : ∀ p, ∀ q ∈ P.queues, (s.poller p).Covers q) {b : Monitor.Act C Tid}
    {base : Monitor.State σ Q C R Tid} (hwakes : m.Wakes s.base b)
    (hbase : m.next s.base b = some base) : Due m Asks (s.woken base (wokenBy s.base b)) := by
  intro p events q hp hasks hc
  rw [State.woken_base] at hc ⊢
  obtain ⟨hwaits, hnot⟩ := waits_of_woken hp
  have hwoken : wokenBy s.base b ≠ some q := fun hw =>
    hnot q hw (hcovers p q (hAnswers.mem_queues hasks))
  have hstay : m.cond q s.base.dev = true → ∃ u, base.pc u = .leaving (some q) := by
    intro hbefore
    obtain ⟨u, hu⟩ := h p events q hwaits hasks hbefore
    exact ⟨u, Monitor.leaving_of_next hbase hwoken hu⟩
  by_cases hlock : ∀ u, b ≠ .lock u
  · rw [(Monitor.next_frame hlock hbase).1] at hc
    exact hstay hc
  · -- a section: it has made the condition true and wakes the queue, or the waker was due before
    obtain ⟨u, rfl⟩ := not_forall_not.mp hlock
    rcases hbefore : m.cond q s.base.dev with _ | _
    · cases Monitor.step_of_next hbase with
      | @lock u c via hlocking =>
        refine ⟨u, ?_⟩
        rw [Monitor.State.serve_pc_self, hwakes c via q hlocking hbefore hc]
    · exact hstay hbefore

omit [DecidableEq Tid] [DecidableEq Q] in
/-- A step in `poll`: whoever waits from now on has found nothing. -/
theorem Due.move (hAnswers : P.Answers m Asks) (h : Due m Asks s) {p : Pid} {k : Pc Q E}
    (hmoves : P.Moves s.base.dev (s.poller p) k) : Due m Asks (s.goto p k) := by
  intro p' events q hp hasks hc
  by_cases hne : p' = p
  · subst hne
    rw [State.goto_poller_self] at hp
    obtain hwaits | hnone := hmoves.waits hp
    · exact h p' events q hwaits hasks hc
    · have hfinds : P.finds events s.base.dev = true := hAnswers.finds_iff.mpr ⟨q, hasks, hc⟩
      rw [hfinds] at hnone
      cases hnone
  · rw [State.goto_poller_ne s hne] at hp
    exact h p' events q hp hasks hc

/-- **No wake-up is lost** in any run whose sections announce what they do. -/
theorem due_inductive (hAnswers : P.Answers m Asks) :
    ((P.lts m Tid Pid d).restrict (OnTasks m.Wakes)).Inductive fun s =>
      (∀ p, ∀ q ∈ P.queues, (s.poller p).Covers q) ∧ Due m Asks s := by
  refine (covers_inductive.restrict _).and ?_ ?_
  · rintro s rfl p events q ⟨_, hp | hp⟩ <;> cases hp
  · rintro s s' a hcovers h ⟨hwakes, hs⟩
    rcases next_cases hs with ⟨b, base, rfl, hbase, rfl⟩ | ⟨p, k, hmoves, rfl⟩
    · exact h.task hAnswers hcovers hwakes hbase
    · exact h.move hAnswers hmoves

/-- **A wake-up ends the sleep**, and the look finds what is there. -/
theorem exists_return (hAnswers : P.Answers m Asks) {u : Tid} {p : Pid} {q : Q} {events : E}
    {done : List Q} (hu : s.base.pc u = .leaving (some q)) (hp : s.poller p = .asleep events done)
    (hcovers : q ∈ done) (hasks : Asks events q) (hc : m.cond q s.base.dev = true) :
    ∃ s' s'', P.next m s (.task (.leave u)) = some s' ∧ P.next m s' (.look p) = some s'' ∧
      s''.poller p = .idle := by
  have hnext : m.next s.base (.leave u) = some (s.base.returned u (some q)) := by
    rw [Monitor.next, hu]
  have hwoken : wokenBy s.base (.leave u : Monitor.Act C Tid) = some q :=
    Monitor.Pc.toWake_eq_some.mpr hu
  have hleave : P.next m s (.task (.leave u)) =
      some (s.woken (s.base.returned u (some q)) (some q)) := by
    rw [next, hnext, hwoken]
    rfl
  have hpoller : (s.woken (s.base.returned u (some q)) (some q)).poller p =
      .looking events done false := by
    change (s.poller p).wake q = _
    rw [hp, Pc.wake, if_pos hcovers]
  have hfinds : P.finds events (s.base.returned u (some q)).dev = true := by
    rw [Monitor.State.returned_dev]
    exact hAnswers.finds_iff.mpr ⟨q, hasks, hc⟩
  refine ⟨_, (s.woken (s.base.returned u (some q)) (some q)).goto p .idle, hleave, ?_,
    State.goto_poller_self ..⟩
  rw [next, hpoller]
  change some (State.goto _ p (P.look (s.base.returned u (some q)).dev events done false)) = _
  rw [look, if_pos hfinds]

end Polled

end KernelModules
