import KernelModules.MonitorFrames

/-!
# Critical sections in small steps

A `Monitor` runs a critical section as one step. Here the same section is a program of its own,
one statement at a time, and the other tasks go on in between: they call, look at the object
without the lock, sleep and wake each other. Only the lock is not to be had.

* `SmallSteps` — the statements; `Leads` — where they lead when nobody comes in between;
* `Implements` — they lead where the monitor's sections do;
* `next` — the tasks, with at most one of them inside a section;
* `atomic_inductive` — **sections are atomic**: the object is what the served sections make of it
  one after the other, and a section that is under way is on its way to what it would have done
  in one step; `atomic_admitted` — with what is known of the sections that get the lock;
* `exists_finish` — nobody waits for the lock for ever: who has it can get to the end alone;
  `exists_call` — so can who calls while it is free.
-/

namespace KernelModules

universe u v w x y z

/-- What one statement of a critical section does. -/
inductive Stmt (σ : Type u) (κ : Type z) (Q : Type v) (R : Type x) : Type (max u v x z) where
  /-- the object changes, and there is more to do -/
  | more (d : σ) (k : κ)
  /-- the section ends -/
  | done (o : Outcome σ Q R)

/-- Critical sections as programs; `κ` are their places. -/
structure SmallSteps (σ : Type u) (Q : Type v) (C : Type w) (R : Type x) (κ : Type z) where
  /-- where the section of a call starts; the second argument is the queue waited on -/
  first : C → Option Q → κ
  /-- the statement at a place -/
  stmt : κ → σ → Stmt σ κ Q R

namespace SmallSteps

open Monitor (Served)

variable {σ : Type u} {Q : Type v} {C : Type w} {R : Type x} {κ : Type z} {Tid : Type y}

/-- Where the statements from a place on lead, when nobody comes in between. -/
inductive Leads (S : SmallSteps σ Q C R κ) : κ → σ → Outcome σ Q R → Prop where
  /-- the section ends here -/
  | done {k : κ} {d : σ} {o : Outcome σ Q R} : S.stmt k d = .done o → Leads S k d o
  /-- one more statement -/
  | more {k k' : κ} {d d' : σ} {o : Outcome σ Q R} : S.stmt k d = .more d' k' →
      Leads S k' d' o → Leads S k d o

/-- The statements of each section lead where the monitor's section does. -/
def Implements (S : SmallSteps σ Q C R κ) (m : Monitor σ Q C R) : Prop :=
  ∀ c via d, S.Leads (S.first c via) d (m.body c via d)

/-- The section that is under way. -/
structure Inside (Q : Type v) (C : Type w) (κ : Type z) (Tid : Type y) where
  /-- the task that has the lock -/
  tid : Tid
  /-- its call -/
  call : C
  /-- the queue it waited on, if it waited -/
  via : Option Q
  /-- how far it has got -/
  place : κ

/-- The tasks and the object, which may be in the middle of a section. -/
structure State (σ : Type u) (Q : Type v) (C : Type w) (R : Type x) (κ : Type z)
    (Tid : Type y) where
  /-- the tasks and the object; who is inside a section still stands at its lock -/
  outer : Monitor.State σ Q C R Tid
  /-- the section that is under way, if the lock is taken -/
  inside : Option (Inside Q C κ Tid)

/-- What happens next. -/
inductive Act (C : Type w) (Tid : Type y) where
  /-- a task takes a step outside of the sections, or takes the lock -/
  | task (a : Monitor.Act C Tid)
  /-- the next statement of the section that is under way -/
  | work

variable [DecidableEq Tid] [DecidableEq Q]

/-- One step. Who is inside a section does nothing else, and nobody else gets the lock. -/
def next (S : SmallSteps σ Q C R κ) (m : Monitor σ Q C R) (s : State σ Q C R κ Tid) :
    Act C Tid → Option (State σ Q C R κ Tid)
  | .task (.lock t) => match s.inside, s.outer.pc t with
    | none, .locking c via => some ⟨s.outer, some ⟨t, c, via, S.first c via⟩⟩
    | _, _ => none
  | .task a =>
    if s.inside.any fun i => i.tid = a.tid then none
    else (m.next s.outer a).map fun outer => ⟨outer, s.inside⟩
  | .work => match s.inside with
    | none => none
    | some i => match S.stmt i.place s.outer.dev with
      | .more d k => some ⟨{ s.outer with dev := d }, some { i with place := k }⟩
      | .done o => some ⟨s.outer.serve i.tid i.call i.via o, none⟩

/-- The tasks and the sections, started on the object `d`. -/
abbrev lts (S : SmallSteps σ Q C R κ) (m : Monitor σ Q C R) (Tid : Type y) [DecidableEq Tid]
    (d : σ) : Lts (State σ Q C R κ Tid) (Act C Tid) :=
  Lts.ofNext ⟨Monitor.start d, none⟩ (S.next m)

/-! ## What a step can do -/

variable {S : SmallSteps σ Q C R κ} {m : Monitor σ Q C R} {s s' : State σ Q C R κ Tid}

/-- The lock is free and taken. -/
theorem next_lock {t : Tid} {c : C} {via : Option Q} (hin : s.inside = none)
    (hp : s.outer.pc t = .locking c via) :
    S.next m s (.task (.lock t)) = some ⟨s.outer, some ⟨t, c, via, S.first c via⟩⟩ := by
  rw [next, hin, hp]

/-- A task that is not inside does something else. -/
theorem next_task {b : Monitor.Act C Tid} {outer : Monitor.State σ Q C R Tid}
    (hb : ∀ u, b ≠ .lock u) (hothers : ∀ i, s.inside = some i → i.tid ≠ b.tid)
    (h : m.next s.outer b = some outer) : S.next m s (.task b) = some ⟨outer, s.inside⟩ := by
  have hany : ¬ (s.inside.any fun i => i.tid = b.tid) = true := by
    rw [Option.any_eq_true]
    rintro ⟨i, hi, htid⟩
    exact hothers i hi (of_decide_eq_true htid)
  cases b with
  | lock u => exact absurd rfl (hb u)
  | call _ _ | enter _ | test _ | prepare _ | sleep _ | signal _ | lockFail _ | leave _ =>
    simp only [next, h]
    exact if_neg hany

/-- A statement of the section that is under way. -/
theorem next_more {i : Inside Q C κ Tid} {d : σ} {k : κ} (hin : s.inside = some i)
    (hstmt : S.stmt i.place s.outer.dev = .more d k) :
    S.next m s .work = some ⟨{ s.outer with dev := d }, some { i with place := k }⟩ := by
  rw [next, hin]
  dsimp only
  rw [hstmt]

/-- Its last statement. -/
theorem next_done {i : Inside Q C κ Tid} {o : Outcome σ Q R} (hin : s.inside = some i)
    (hstmt : S.stmt i.place s.outer.dev = .done o) :
    S.next m s .work = some ⟨s.outer.serve i.tid i.call i.via o, none⟩ := by
  rw [next, hin]
  dsimp only
  rw [hstmt]

/-- **One step**: the lock is taken, a statement is carried out, the last one is, or a task that is
not inside does something else. -/
theorem next_cases {a : Act C Tid} (h : S.next m s a = some s') :
    (∃ t c via, a = .task (.lock t) ∧ s.inside = none ∧ s.outer.pc t = .locking c via ∧
      s' = ⟨s.outer, some ⟨t, c, via, S.first c via⟩⟩) ∨
    (∃ i d k, a = .work ∧ s.inside = some i ∧ S.stmt i.place s.outer.dev = .more d k ∧
      s' = ⟨{ s.outer with dev := d }, some { i with place := k }⟩) ∨
    (∃ i o, a = .work ∧ s.inside = some i ∧ S.stmt i.place s.outer.dev = .done o ∧
      s' = ⟨s.outer.serve i.tid i.call i.via o, none⟩) ∨
    ∃ b outer, a = .task b ∧ (∀ u, b ≠ .lock u) ∧ (∀ i, s.inside = some i → i.tid ≠ b.tid) ∧
      m.next s.outer b = some outer ∧ s' = ⟨outer, s.inside⟩ := by
  cases a with
  | work =>
    simp only [next] at h
    split at h
    · cases h
    · next i hi =>
      split at h
      · next d k hstmt => exact .inr (.inl ⟨i, d, k, rfl, hi, hstmt, (Option.some.inj h).symm⟩)
      · next o hstmt =>
        exact .inr (.inr (.inl ⟨i, o, rfl, hi, hstmt, (Option.some.inj h).symm⟩))
  | task a =>
    cases a with
    | lock t =>
      simp only [next] at h
      split at h
      · next c via hin hp => exact .inl ⟨t, c, via, rfl, hin, hp, (Option.some.inj h).symm⟩
      · cases h
    | call _ _ | enter _ | test _ | prepare _ | sleep _ | signal _ | lockFail _ | leave _ =>
      simp only [next, Option.ite_none_left_eq_some, Option.map_eq_some_iff] at h
      obtain ⟨hothers, outer, hnext, rfl⟩ := h
      refine .inr (.inr (.inr ⟨_, outer, rfl, by simp, fun i hi => ?_, hnext, rfl⟩))
      rw [hi] at hothers
      simpa using hothers

/-! ## Sections are atomic -/

section Leads

omit [DecidableEq Tid] [DecidableEq Q]

variable {k k' : κ} {d d' : σ} {o o' : Outcome σ Q R}

theorem Leads.of_more (h : S.Leads k d o) (hstmt : S.stmt k d = .more d' k') :
    S.Leads k' d' o := by
  cases h with
  | done hdone => rw [hstmt] at hdone; cases hdone
  | more hmore hrest => rw [hstmt] at hmore; cases hmore; exact hrest

theorem Leads.of_done (h : S.Leads k d o) (hstmt : S.stmt k d = .done o') : o' = o := by
  cases h with
  | done hdone => rw [hstmt] at hdone; cases hdone; rfl
  | more hmore _ => rw [hstmt] at hmore; cases hmore

end Leads

/-- The object was `d` when the lock was last free, and the history is that of atomic sections;
`J` is what else is known of a section that is under way. -/
structure Atomic (S : SmallSteps σ Q C R κ) (m : Monitor σ Q C R)
    (J : C → Option Q → σ → κ → σ → Prop) (d₀ : σ) (s : State σ Q C R κ Tid) (d : σ) : Prop where
  /-- one section after the other -/
  serial : m.serveAll d₀ (s.outer.log.map Served.op) = (d, s.outer.log)
  /-- the lock is free -/
  free : s.inside = none → s.outer.dev = d
  /-- a section that is under way does what it would do in one step -/
  busy : ∀ i, s.inside = some i →
    S.Leads i.place s.outer.dev (m.body i.call i.via d) ∧ J i.call i.via d i.place s.outer.dev
  /-- the sections that have been served had `J` to their ends -/
  served : ∀ pre e post, s.outer.log = pre ++ e :: post →
    ∃ k d', J e.call e.via (m.serveAll d₀ (pre.map Served.op)).1 k d'

/-- The lock is taken for a section that `P` admits on the object as it is. -/
def Admits (P : C → Option Q → σ → Prop) (s : State σ Q C R κ Tid) (a : Act C Tid) : Prop :=
  ∀ t c via, a = .task (.lock t) → s.outer.pc t = .locking c via → P c via s.outer.dev

variable {J : C → Option Q → σ → κ → σ → Prop} {P : C → Option Q → σ → Prop} {d₀ d : σ}

/-- **One step** of any task. -/
theorem Atomic.step (h : Atomic S m J d₀ s d) (himpl : S.Implements m)
    (hfirst : ∀ c via d, P c via d → J c via d (S.first c via) d)
    (hmore : ∀ {c via d k d' d'' k'}, J c via d k d' → S.stmt k d' = .more d'' k' →
      J c via d k' d'')
    {a : Act C Tid} (hadmits : Admits P s a) (hs : S.next m s a = some s') :
    ∃ d', Atomic S m J d₀ s' d' := by
  rcases next_cases hs with ⟨t, c, via, rfl, hin, hp, rfl⟩ | ⟨i, d', k, -, hin, hstmt, rfl⟩ |
      ⟨i, o, -, hin, hstmt, rfl⟩ | ⟨b, outer, -, hb, -, hnext, rfl⟩
  · -- the lock is taken: the section starts on the object as it was left
    refine ⟨d, h.serial, nofun, fun i hi => ?_, h.served⟩
    obtain rfl := Option.some.inj hi
    have hP := hadmits t c via rfl hp
    rw [h.free hin] at hP ⊢
    exact ⟨himpl c via d, hfirst c via d hP⟩
  · obtain ⟨hleads, hJ⟩ := h.busy i hin
    refine ⟨d, h.serial, nofun, fun i' hi' => ?_, h.served⟩
    obtain rfl := Option.some.inj hi'
    exact ⟨hleads.of_more hstmt, hmore hJ hstmt⟩
  · -- the section ends with what the monitor's section does
    obtain ⟨hleads, hJ⟩ := h.busy i hin
    have ho : o = m.body i.call i.via d := hleads.of_done hstmt
    refine ⟨o.next, ?_, fun _ => rfl, nofun, ?_⟩
    · change m.serveAll d₀ ((s.outer.log ++ [(⟨i.call, i.via, o.ret⟩ : Served Q C R)]).map
        Served.op) = (o.next, s.outer.log ++ [⟨i.call, i.via, o.ret⟩])
      rw [List.map_append, List.map_singleton, Served.op, Monitor.serveAll_concat, h.serial, ho]
    · refine forall_split_concat.mpr ⟨h.served, i.place, s.outer.dev, ?_⟩
      rw [h.serial]
      exact hJ
  · obtain ⟨hdev, hlog⟩ := Monitor.next_frame hb hnext
    refine ⟨d, ?_, fun hnone => hdev.trans (h.free hnone), fun i hi => ?_, ?_⟩
    · rw [hlog]
      exact h.serial
    · rw [hdev]
      exact h.busy i hi
    · rw [hlog]
      exact h.served

omit [DecidableEq Tid] [DecidableEq Q] in
/-- What each section does to the object and the history, with `J` to its end, all of them do one
after the other. -/
theorem Atomic.sections (h : Atomic S m J d₀ s d) {I : σ → List (Served Q C R) → Prop}
    (hinit : I d₀ [])
    (hstep : ∀ {d log} (c via k d'), I d log → J c via d k d' →
      I (m.body c via d).next (log ++ [⟨c, via, (m.body c via d).ret⟩])) :
    I d s.outer.log := by
  have hall : ∀ (log : List (Served Q C R)) (d : σ),
      m.serveAll d₀ (log.map Served.op) = (d, log) →
      (∀ pre e post, log = pre ++ e :: post →
        ∃ k d', J e.call e.via (m.serveAll d₀ (pre.map Served.op)).1 k d') → I d log := by
    intro log
    induction log using List.reverseRecOn with
    | nil =>
      rintro d hserial -
      cases hserial
      exact hinit
    | append_singleton log e ih =>
      intro d hserial hserved
      obtain ⟨hserved, k, d', hJ⟩ := forall_split_concat.mp hserved
      rw [List.map_append, List.map_singleton, Served.op, Monitor.serveAll_concat] at hserial
      obtain ⟨rfl, hlog⟩ := Prod.mk.inj hserial
      obtain ⟨hpre, he⟩ := List.append_inj' hlog rfl
      have hI := ih _ (Prod.ext rfl hpre) hserved
      rw [← hlog, hpre]
      exact hstep _ _ _ _ hI hJ
  exact hall _ _ h.serial h.served

/-- **Sections are atomic** in every run whose sections `P` admits, with whatever the statements
of a section keep. -/
theorem atomic_admitted (himpl : S.Implements m)
    (hfirst : ∀ c via d, P c via d → J c via d (S.first c via) d)
    (hmore : ∀ {c via d k d' d'' k'}, J c via d k d' → S.stmt k d' = .more d'' k' →
      J c via d k' d'') :
    ((S.lts m Tid d₀).restrict (Admits P)).Inductive fun s => ∃ d, Atomic S m J d₀ s d where
  init := by
    rintro s rfl
    exact ⟨d₀, rfl, fun _ => rfl, nofun, fun pre e post hlog => by cases pre <;> cases hlog⟩
  step := by
    rintro s s' a ⟨d, h⟩ ⟨hadmits, hs⟩
    exact h.step himpl hfirst hmore hadmits hs

/-- So they are in every run. -/
theorem atomic_inductive (himpl : S.Implements m) (hfirst : ∀ c via d, J c via d (S.first c via) d)
    (hmore : ∀ {c via d k d' d'' k'}, J c via d k d' → S.stmt k d' = .more d'' k' →
      J c via d k' d'') :
    (S.lts m Tid d₀).Inductive fun s => ∃ d, Atomic S m J d₀ s d := by
  have hinv : ((S.lts m Tid d₀).restrict (Admits fun _ _ _ => True)).Inductive
      fun s => ∃ d, Atomic S m J d₀ s d :=
    atomic_admitted himpl (fun c via d _ => hfirst c via d) hmore
  exact ⟨hinv.init, fun h hs => hinv.step h ⟨fun _ _ _ _ _ => trivial, hs⟩⟩

/-- **The lock comes free**: who has it gets to the end by its own steps, with whatever the
section leads to. -/
theorem exists_finish {d₀ : σ} {k : κ} {d : σ} {o : Outcome σ Q R} (hleads : S.Leads k d o)
    {i : Inside Q C κ Tid} (hin : s.inside = some i) (hk : i.place = k) (hd : s.outer.dev = d) :
    ∃ n, (S.lts m Tid d₀).Run s (List.replicate n .work)
      ⟨s.outer.serve i.tid i.call i.via o, none⟩ := by
  induction hleads generalizing s i with
  | @done k d o hstmt =>
    subst hk hd
    exact ⟨1, Lts.Run.nil.snoc (next_done hin hstmt)⟩
  | @more k k' d d' o hstmt _ ih =>
    subst hk hd
    obtain ⟨n, hn⟩ := ih (s := ⟨{ s.outer with dev := d' }, some { i with place := k' }⟩)
      rfl rfl rfl
    have hfirst : (S.lts m Tid d₀).Run s [.work] _ := Lts.Run.nil.snoc (next_more hin hstmt)
    refine ⟨n + 1, ?_⟩
    rw [List.replicate_succ]
    exact hfirst.trans hn

omit [DecidableEq Tid] [DecidableEq Q] in
theorem admits_of_ne {a : Act C Tid} (ha : ∀ t, a ≠ .task (.lock t)) : Admits P s a :=
  fun t _ _ hlock _ => absurd hlock (ha t)

/-- A call that goes to the lock gets it while it is free. -/
theorem run_lock {outer : Monitor.State σ Q C R Tid} {t : Tid} {c : C} (hidle : outer.pc t = .idle)
    (hentry : m.entry c outer.dev = .lock) (hP : P c none outer.dev) :
    ((S.lts m Tid d₀).restrict (Admits P)).Run ⟨outer, none⟩
      [.task (.call t c), .task (.enter t), .task (.lock t)]
      ⟨(outer.goto t (.entered c)).goto t (.locking c none),
        some ⟨t, c, none, S.first c none⟩⟩ := by
  let outer₁ := outer.goto t (.entered c)
  let outer₂ := outer₁.goto t (.locking c none)
  have hcall : S.next m ⟨outer, none⟩ (.task (.call t c)) = some ⟨outer₁, none⟩ := by
    simp [next, Monitor.next, hidle, outer₁]
  have henter : S.next m ⟨outer₁, none⟩ (.task (.enter t)) = some ⟨outer₂, none⟩ := by
    have hentry₁ : m.entry c (outer.goto t (.entered c)).dev = .lock := hentry
    simp [next, Monitor.next, hentry₁, outer₁, outer₂]
  have hlock : S.next m ⟨outer₂, none⟩ (.task (.lock t)) =
      some ⟨outer₂, some ⟨t, c, none, S.first c none⟩⟩ :=
    next_lock rfl (Monitor.State.goto_pc_self ..)
  have hadmits : Admits P (⟨outer₂, none⟩ : State σ Q C R κ Tid) (.task (.lock t)) := by
    rintro u c' via ha hp
    cases ha
    rw [Monitor.State.goto_pc_self] at hp
    cases hp
    exact hP
  have hstart : ((S.lts m Tid d₀).restrict (Admits P)).Run ⟨outer, none⟩ [] ⟨outer, none⟩ := .nil
  have hcalled := hstart.snoc ⟨admits_of_ne (by simp), hcall⟩
  exact (hcalled.snoc ⟨admits_of_ne (by simp), henter⟩).snoc ⟨hadmits, hlock⟩

/-- **A call gets through** if it goes to the lock, the lock is free and its task is left alone. The
other tasks stay where they are, unless they are woken. -/
theorem exists_call (himpl : S.Implements m) {outer : Monitor.State σ Q C R Tid} {t : Tid} {c : C}
    (hidle : outer.pc t = .idle) (hentry : m.entry c outer.dev = .lock) (hP : P c none outer.dev) :
    ∃ as s', ((S.lts m Tid d₀).restrict (Admits P)).Run ⟨outer, none⟩ as s' ∧ s'.inside = none ∧
      (∀ u, outer.pc u = .idle → s'.outer.pc u = .idle) ∧
      s'.outer.dev = (m.body c none outer.dev).next := by
  let o := m.body c none outer.dev
  let locked : State σ Q C R κ Tid := ⟨(outer.goto t (.entered c)).goto t (.locking c none),
    some ⟨t, c, none, S.first c none⟩⟩
  let served := locked.outer.serve t c none o
  have hlocked : ((S.lts m Tid d₀).restrict (Admits P)).Run ⟨outer, none⟩ _ locked :=
    run_lock hidle hentry hP
  have hfinish : ∃ n, (S.lts m Tid d₀).Run locked (List.replicate n .work) ⟨served, none⟩ :=
    exists_finish (i := ⟨t, c, none, S.first c none⟩) (himpl c none outer.dev) rfl rfl rfl
  obtain ⟨n, hn⟩ := hfinish
  have hwork : ((S.lts m Tid d₀).restrict (Admits P)).Run locked _ ⟨served, none⟩ :=
    (hn.to_restrict fun a ha => List.eq_of_mem_replicate ha).restrict_mono fun {_ a} ha =>
      admits_of_ne fun u hu => by cases ha.symm.trans hu
  have hleave : S.next m ⟨served, none⟩ (.task (.leave t)) =
      some ⟨served.returned t o.wakes, none⟩ := by
    simp [next, Monitor.next, served]
  refine ⟨_, _, (hlocked.trans hwork).snoc ⟨admits_of_ne (by simp), hleave⟩, rfl, ?_, ?_⟩
  · intro u hu
    have hidle' : (served.goto t .idle).pc u = .idle := by
      by_cases hut : u = t
      · rw [hut, Monitor.State.goto_pc_self]
      · rw [Monitor.State.goto_pc_ne _ hut, Monitor.State.serve_pc_ne _ hut,
          Monitor.State.goto_pc_ne _ hut, Monitor.State.goto_pc_ne _ hut, hu]
    change (served.returned t o.wakes).pc u = .idle
    cases o.wakes with
    | none => exact hidle'
    | some q =>
      change ((served.goto t .idle).pc u).wake q = .idle
      rw [hidle']
      rfl
  · rw [Monitor.State.returned_dev]
    rfl

end SmallSteps

end KernelModules
