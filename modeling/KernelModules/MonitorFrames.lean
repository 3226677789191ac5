import KernelModules.Monitor

/-!
# What a step of a monitor leaves alone

A task that calls, waits, wakes or returns changes neither the object nor where the others stand,
but for those it wakes.

* `next_frame` — the object and the history;
* `locking_of_next` — who stands at the lock;
* `leaving_of_next` — who has still to wake a queue;
* `sleeping_of_next` — who sleeps: nobody falls asleep on a condition that holds.
-/

namespace KernelModules

universe u v w x y

namespace Monitor

variable {σ : Type u} {Q : Type v} {C : Type w} {R : Type x} {Tid : Type y}

/-- The task that takes a step. -/
def Act.tid : Act C Tid → Tid
  | .call t _ | .enter t | .test t | .prepare t | .sleep t | .signal t | .lock t | .lockFail t
  | .leave t => t

/-- The queue that a step wakes. -/
def wokenBy (s : State σ Q C R Tid) : Act C Tid → Option Q
  | .leave t => (s.pc t).toWake
  | _ => none

variable [DecidableEq Tid] [DecidableEq Q] {m : Monitor σ Q C R} {s s' : State σ Q C R Tid}
  {a : Act C Tid}

omit [DecidableEq Q] in
@[simp] theorem State.goto_goto (s : State σ Q C R Tid) (t : Tid) (p p' : Pc Q C) :
    (s.goto t p).goto t p' = s.goto t p' := by
  simp [State.goto]

/-- Nothing but a critical section changes the object or the history. -/
theorem next_frame (ha : ∀ u, a ≠ .lock u) (h : m.next s a = some s') :
    s'.dev = s.dev ∧ s'.log = s.log := by
  cases step_of_next h with
  | lock hp => exact absurd rfl (ha _)
  | leave hp => exact ⟨State.returned_dev .., State.returned_log ..⟩
  | _ => exact ⟨rfl, rfl⟩

/-- Whoever stands at the lock stays there when others take their steps. -/
theorem locking_of_next (h : m.next s a = some s') {t : Tid} (ht : t ≠ a.tid) {c : C}
    {via : Option Q} (hp : s.pc t = .locking c via) : s'.pc t = .locking c via := by
  have hgoto : ∀ {u : Tid} {p : Pc Q C}, t ≠ u → (s.goto u p).pc t = .locking c via := by
    intro u p hu
    rw [State.goto_pc_ne s hu, hp]
  cases step_of_next h with
  | @lock u _ _ _ =>
    have hu : t ≠ u := ht
    rw [State.serve_pc_ne s hu]
    exact hp
  | @leave u wakes _ =>
    have hidle : (s.goto u .idle).pc t = .locking c via := hgoto ht
    cases wakes with
    | none => exact hidle
    | some q =>
      change ((s.goto u .idle).pc t).wake q = _
      rw [hidle]
      rfl
  | _ => exact hgoto ht

/-- Who has still to wake a queue goes away only by waking it. -/
theorem leaving_of_next (h : m.next s a = some s') {q : Q} (ha : wokenBy s a ≠ some q) {u : Tid}
    (hu : s.pc u = .leaving (some q)) : s'.pc u = .leaving (some q) := by
  have hgoto : ∀ {t : Tid} {p : Pc Q C}, s.pc t ≠ .leaving (some q) →
      (s.goto t p).pc u = .leaving (some q) := by
    intro t p ht
    have hut : u ≠ t := fun heq => ht (heq ▸ hu)
    rw [State.goto_pc_ne s hut]
    exact hu
  cases step_of_next h with
  | @lock t c via hp =>
    have hut : u ≠ t := by
      rintro rfl
      rw [hp] at hu
      cases hu
    rw [State.serve_pc_ne s hut]
    exact hu
  | @leave t wakes hp =>
    have hidle : (s.goto t .idle).pc u = .leaving (some q) :=
      hgoto fun ht => ha (Pc.toWake_eq_some.mpr ht)
    cases wakes with
    | none => exact hidle
    | some q' => exact Pc.wake_eq_leaving.mpr hidle
  | pass hp _ => exact hgoto fun ht => by rcases hp with hp | hp <;> rw [hp] at ht <;> cases ht
  | interrupt hp _ | ignore hp _ =>
    exact hgoto fun ht => by rcases hp with hp | hp | hp <;> rw [hp] at ht <;> cases ht
  | call hp | finish hp | direct hp | await hp | miss hp | commit hp | prepare hp | sleep hp
  | lockFail hp => exact hgoto fun ht => by rw [hp] at ht; cases ht

/-- Outside of the sections nobody falls asleep on a condition that holds, and nobody sleeps on a
queue that is woken. -/
theorem sleeping_of_next (ha : ∀ u, a ≠ .lock u) (h : m.next s a = some s') {t : Tid} {q : Q}
    (ht : (s'.pc t).Sleeping q) (hc : m.cond q s.dev = true) :
    (s.pc t).Sleeping q ∧ wokenBy s a ≠ some q := by
  have hgoto : ∀ {u : Tid} {p : Pc Q C}, (p.Sleeping q → (s.pc u).Sleeping q) →
      ((s.goto u p).pc t).Sleeping q → (s.pc t).Sleeping q := by
    intro u p hnew ht
    by_cases htu : t = u
    · subst htu
      rw [State.goto_pc_self] at ht
      exact hnew ht
    · rwa [State.goto_pc_ne s htu] at ht
  cases step_of_next h with
  | lock hp => exact absurd rfl (ha _)
  | @leave u wakes hp =>
    obtain ⟨hsleep, hne⟩ := sleeping_of_returned ht
    refine ⟨hsleep, fun hw => hne ?_⟩
    exact Pc.leaving.inj (hp.symm.trans (Pc.toWake_eq_some.mp hw))
  | @commit u c q' hp hfalse =>
    refine ⟨hgoto ?_ ht, nofun⟩
    rintro ⟨c', hq | hq⟩ <;> cases hq
    rw [hfalse] at hc
    cases hc
  | @sleep u c q' hp =>
    refine ⟨hgoto ?_ ht, nofun⟩
    rintro ⟨c', hq | hq⟩ <;> cases hq
    exact ⟨c, .inl hp⟩
  | _ =>
    refine ⟨hgoto ?_ ht, nofun⟩
    rintro ⟨c', hq | hq⟩ <;> cases hq

end Monitor

end KernelModules
