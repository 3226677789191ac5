import KernelModules.SmallSteps

/-!
# Wake-ups of critical sections in small steps

A task that looks at its condition in the middle of a section may go to sleep on a condition that
is false for a moment only, and a condition may come true long before the section gets to its
wake-up. Neither matters if whoever makes a condition true is on the way to waking its queue.

* `Due` — somebody will wake a queue: he has left his section, or will leave it so;
* `Announces` — a statement that makes a condition true is on such a way;
* `wakeDue_inductive` — **no wake-up is lost**: while a task sleeps on a condition that holds,
  its wake-up is due, in every run whose statements announce what they do.
-/

namespace KernelModules

universe u v w x y z

variable {σ : Type u} {Q : Type v} {C : Type w} {R : Type x} {κ : Type z} {Tid : Type y}

/-! ## Wake-ups -/

/-- The object behind a statement. -/
def Stmt.next : Stmt σ κ Q R → σ
  | .more d _ => d
  | .done o => o.next

namespace SmallSteps

variable {S : SmallSteps σ Q C R κ} {m : Monitor σ Q C R}

/-- Somebody will wake `q`: he has left his section and has to, or will leave it so. -/
def Due (S : SmallSteps σ Q C R κ) (s : State σ Q C R κ Tid) (q : Q) : Prop :=
  (∃ u, s.outer.pc u = .leaving (some q)) ∨
    ∃ i o, s.inside = some i ∧ S.Leads i.place s.outer.dev o ∧ o.wakes = some q

/-- Whenever a condition holds and a task sleeps on its queue, somebody will wake it. -/
def WakeDue (S : SmallSteps σ Q C R κ) (m : Monitor σ Q C R) (s : State σ Q C R κ Tid) : Prop :=
  ∀ t q, (s.outer.pc t).Sleeping q → m.cond q s.outer.dev = true → S.Due s q

/-- A statement that makes a condition true is on the way to a wake-up of its queue. -/
def Announces (S : SmallSteps σ Q C R κ) (m : Monitor σ Q C R) (k : κ) (d : σ) : Prop :=
  ∀ q, m.cond q d = false → m.cond q (S.stmt k d).next = true →
    ∃ o, S.Leads k d o ∧ o.wakes = some q

/-- A step that announces what it does. -/
def Wakes (S : SmallSteps σ Q C R κ) (m : Monitor σ Q C R) (s : State σ Q C R κ Tid) :
    Act C Tid → Prop
  | .work => ∀ i, s.inside = some i → S.Announces m i.place s.outer.dev
  | .task _ => True

variable [DecidableEq Tid] [DecidableEq Q] {s s' : State σ Q C R κ Tid} {d₀ : σ}

/-- Who is inside a section stands at its lock. -/
theorem stands_inductive : (S.lts m Tid d₀).Inductive fun s =>
    ∀ i, s.inside = some i → s.outer.pc i.tid = .locking i.call i.via where
  init := by
    rintro s rfl i hi
    cases hi
  step := by
    intro s s' a h hs i hi
    rcases next_cases hs with ⟨t, c, via, -, -, hp, rfl⟩ | ⟨i', d, k, -, hin, -, rfl⟩ |
      ⟨i', o, -, -, -, rfl⟩ | ⟨b, outer, -, -, hothers, hnext, rfl⟩
    · obtain rfl := Option.some.inj hi
      exact hp
    · obtain rfl := Option.some.inj hi
      exact h i' hin
    · cases hi
    · exact Monitor.locking_of_next hnext (hothers i hi) (h i hi)

omit [DecidableEq Tid] [DecidableEq Q] in
/-- Whoever is due is still due after a statement. -/
theorem Due.more {q : Q} (h : S.Due s q) {i : Inside Q C κ Tid} {d : σ} {k : κ}
    (hin : s.inside = some i) (hstmt : S.stmt i.place s.outer.dev = .more d k) :
    S.Due ⟨{ s.outer with dev := d }, some { i with place := k }⟩ q := by
  obtain hu | ⟨i', o, hi', hleads, ho⟩ := h
  · exact .inl hu
  · obtain rfl : i = i' := Option.some.inj (hin.symm.trans hi')
    exact .inr ⟨_, o, rfl, hleads.of_more hstmt, ho⟩

omit [DecidableEq Q] in
/-- Whoever is due after the last statement has left his section. -/
theorem Due.done {q : Q} (h : S.Due s q) {i : Inside Q C κ Tid} {o : Outcome σ Q R}
    (hin : s.inside = some i) (hp : s.outer.pc i.tid = .locking i.call i.via)
    (hstmt : S.stmt i.place s.outer.dev = .done o) :
    S.Due ⟨s.outer.serve i.tid i.call i.via o, none⟩ q := by
  obtain ⟨u, hu⟩ | ⟨i', o', hi', hleads, ho⟩ := h
  · refine .inl ⟨u, ?_⟩
    have hne : u ≠ i.tid := by
      rintro rfl
      rw [hp] at hu
      cases hu
    rw [Monitor.State.serve_pc_ne _ hne]
    exact hu
  · obtain rfl : i = i' := Option.some.inj (hin.symm.trans hi')
    obtain rfl := hleads.of_done hstmt
    refine .inl ⟨i.tid, ?_⟩
    rw [Monitor.State.serve_pc_self, ho]

/-- **No wake-up is lost** in any run whose statements announce what they do. -/
theorem wakeDue_inductive :
    ((S.lts m Tid d₀).restrict (S.Wakes m)).Inductive fun s =>
      (∀ i, s.inside = some i → s.outer.pc i.tid = .locking i.call i.via) ∧ S.WakeDue m s := by
  refine (stands_inductive.restrict (S.Wakes m)).and ?_ ?_
  · rintro s rfl t q ⟨c, hp | hp⟩ <;> cases hp
  · rintro s s' a hstands h ⟨hwakes, hs⟩ t q ht hc
    rcases next_cases hs with ⟨u, c, via, -, hin, -, rfl⟩ | ⟨i, d, k, rfl, hin, hstmt, rfl⟩ |
      ⟨i, o, rfl, hin, hstmt, rfl⟩ | ⟨b, outer, -, hb, -, hnext, rfl⟩
    · -- the lock is taken: who has to wake `q` has left his section
      obtain hu | ⟨i, o, hi, -⟩ := h t q ht hc
      · exact .inl hu
      · rw [hin] at hi
        cases hi
    · refine Due.more ?_ hin hstmt
      rcases hbefore : m.cond q s.outer.dev with _ | _
      · -- this statement has made the condition true
        have hafter : m.cond q (S.stmt i.place s.outer.dev).next = true := by
          rw [hstmt]
          exact hc
        obtain ⟨o, hleads, ho⟩ := hwakes i hin q hbefore hafter
        exact .inr ⟨i, o, hin, hleads, ho⟩
      · exact h t q ht hbefore
    · refine Due.done ?_ hin (hstands i hin) hstmt
      have hti : t ≠ i.tid := by
        rintro rfl
        rw [Monitor.State.serve_pc_self] at ht
        obtain ⟨c, hp | hp⟩ := ht <;> cases hp
      rw [Monitor.State.serve_pc_ne _ hti] at ht
      rcases hbefore : m.cond q s.outer.dev with _ | _
      · have hafter : m.cond q (S.stmt i.place s.outer.dev).next = true := by
          rw [hstmt]
          exact hc
        obtain ⟨o', hleads, ho⟩ := hwakes i hin q hbefore hafter
        exact .inr ⟨i, o', hin, hleads, ho⟩
      · exact h t q ht hbefore
    · have hc' : m.cond q s.outer.dev = true := by
        rw [← (Monitor.next_frame hb hnext).1]
        exact hc
      obtain ⟨hsleep, hwoken⟩ := Monitor.sleeping_of_next hb hnext ht hc'
      obtain ⟨u, hu⟩ | ⟨i, o, hi, hleads, ho⟩ := h t q hsleep hc'
      · exact .inl ⟨u, Monitor.leaving_of_next hnext hwoken hu⟩
      · refine .inr ⟨i, o, hi, ?_, ho⟩
        rw [(Monitor.next_frame hb hnext).1]
        exact hleads

/-- **A task falls asleep** that looks at its condition while it is false, be it in the middle of a
section. -/
theorem run_sleep {P : C → Option Q → σ → Prop} {t : Tid} {c : C} {q : Q}
    (hidle : s.outer.pc t = .idle) (hothers : ∀ i, s.inside = some i → i.tid ≠ t)
    (hentry : m.entry c s.outer.dev = .wait q) (hc : m.cond q s.outer.dev = false) :
    ((S.lts m Tid d₀).restrict (Admits P)).Run s ((Monitor.Act.toSleep t c).map .task)
      ⟨s.outer.goto t (.asleep c q), s.inside⟩ := by
  have hstep : ∀ {outer outer' : Monitor.State σ Q C R Tid} {b : Monitor.Act C Tid},
      (∀ u, b ≠ .lock u) → b.tid = t → m.next outer b = some outer' →
      ((S.lts m Tid d₀).restrict (Admits P)).step ⟨outer, s.inside⟩ (.task b)
        ⟨outer', s.inside⟩ := by
    rintro outer outer' b hb rfl h
    exact ⟨admits_of_ne fun u hu => hb u (Act.task.inj hu), next_task hb hothers h⟩
  have hcall : m.next s.outer (.call t c) = some (s.outer.goto t (.entered c)) := by
    rw [Monitor.next, hidle]
  have henter : m.next (s.outer.goto t (.entered c)) (.enter t) =
      some (s.outer.goto t (.testing c q)) := by
    have hentry' : m.entry c (s.outer.goto t (.entered c)).dev = .wait q := hentry
    simp [Monitor.next, hentry']
  have hmiss : m.next (s.outer.goto t (.testing c q)) (.test t) =
      some (s.outer.goto t (.preparing c q)) := by
    have hc' : m.cond q (s.outer.goto t (.testing c q)).dev = false := hc
    simp [Monitor.next, hc']
  have hprepare : m.next (s.outer.goto t (.preparing c q)) (.prepare t) =
      some (s.outer.goto t (.queued c q)) := by
    simp [Monitor.next]
  have hcommit : m.next (s.outer.goto t (.queued c q)) (.test t) =
      some (s.outer.goto t (.committed c q)) := by
    have hc' : m.cond q (s.outer.goto t (.queued c q)).dev = false := hc
    simp [Monitor.next, hc']
  have hsleep : m.next (s.outer.goto t (.committed c q)) (.sleep t) =
      some (s.outer.goto t (.asleep c q)) := by
    simp [Monitor.next]
  have hstart : ((S.lts m Tid d₀).restrict (Admits P)).Run s [] ⟨s.outer, s.inside⟩ := .nil
  have hentered := (hstart.snoc (hstep (by simp) rfl hcall)).snoc (hstep (by simp) rfl henter)
  have hqueued := (hentered.snoc (hstep (by simp) rfl hmiss)).snoc
    (hstep (by simp) rfl hprepare)
  exact (hqueued.snoc (hstep (by simp) rfl hcommit)).snoc (hstep (by simp) rfl hsleep)

/-- Who has still to wake `q` wakes a task that sleeps there. -/
theorem exists_leave {t u : Tid} {q : Q}
    (hstands : ∀ i, s.inside = some i → s.outer.pc i.tid = .locking i.call i.via)
    (hu : s.outer.pc u = .leaving (some q)) (ht : (s.outer.pc t).sleepsOn = some q) :
    ∃ s', S.next m s (.task (.leave u)) = some s' ∧ ∃ c, s'.outer.pc t = .preparing c q := by
  have hsleep : ∃ c, s.outer.pc t = .asleep c q := by
    cases hp : s.outer.pc t <;> rw [hp] at ht <;> cases ht
    exact ⟨_, rfl⟩
  obtain ⟨c, hp⟩ := hsleep
  have htu : t ≠ u := by
    rintro rfl
    rw [hp] at hu
    cases hu
  have hothers : ∀ i, s.inside = some i → i.tid ≠ u := by
    rintro i hi rfl
    have hi' := hstands i hi
    rw [hu] at hi'
    cases hi'
  have hnext : m.next s.outer (.leave u) = some (s.outer.returned u (some q)) := by
    rw [Monitor.next, hu]
  refine ⟨⟨s.outer.returned u (some q), s.inside⟩, next_task (by simp) hothers hnext, c, ?_⟩
  · change ((s.outer.goto u .idle).pc t).wake q = .preparing c q
    rw [Monitor.State.goto_pc_ne _ htu, hp]
    exact if_pos rfl

/-- **A sleeper is woken** if its condition holds: whoever is inside gets to the end of his section
by his own steps, and somebody leaves and wakes it. -/
theorem exists_wake (hs : ((S.lts m Tid d₀).restrict (S.Wakes m)).Reachable s) {t : Tid} {q : Q}
    (ht : (s.outer.pc t).sleepsOn = some q) (hc : m.cond q s.outer.dev = true) :
    ∃ n s' u s'', (S.lts m Tid d₀).Run s (List.replicate n .work) s' ∧
      S.next m s' (.task (.leave u)) = some s'' ∧ ∃ c, s''.outer.pc t = .preparing c q := by
  obtain ⟨hstands, hdue⟩ := wakeDue_inductive.reachable hs
  have hsleep : (s.outer.pc t).Sleeping q := by
    cases hp : s.outer.pc t <;> rw [hp] at ht <;> cases ht
    exact ⟨_, .inr rfl⟩
  obtain ⟨u, hu⟩ | ⟨i, o, hi, hleads, ho⟩ := hdue t q hsleep hc
  · obtain ⟨s'', hleave, hwoken⟩ := exists_leave (S := S) (m := m) hstands hu ht
    exact ⟨0, s, u, s'', .nil, hleave, hwoken⟩
  · -- the one inside is on his way to the wake-up
    obtain ⟨n, hn⟩ := exists_finish (m := m) hleads hi rfl rfl
    have hne : t ≠ i.tid := by
      rintro rfl
      rw [hstands i hi] at ht
      cases ht
    obtain ⟨s'', hleave, hwoken⟩ := exists_leave (S := S) (m := m) (u := i.tid)
      (s := ⟨s.outer.serve i.tid i.call i.via o, none⟩) nofun
      (by rw [Monitor.State.serve_pc_self, ho]) (by rw [Monitor.State.serve_pc_ne _ hne]; exact ht)
    exact ⟨n, _, i.tid, s'', hn, hleave, hwoken⟩

end SmallSteps

end KernelModules
