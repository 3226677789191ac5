import Mathlib.Order.Basic
import Mathlib.Data.List.Basic
import Mathlib.Data.List.Induction

/-!
# Labelled transition systems

The vocabulary the concurrent results are stated in. A system is a set of
initial states and a labelled step relation; nothing here knows what a state
is.

* `Lts.Reachable`, `Lts.Run` — the states some run ends in, and the runs
  themselves with their labels.
* `Lts.Inductive` — an inductive invariant, and the one induction
  (`Inductive.reachable`) every safety result below is an instance of; `Inductive.run` is the
  same from a later state on.
* `Lts.restrict` — the same system with only those steps that meet a condition
  on the state before the step: "every run whose steps all meet `P`" is a run
  of the restricted system.
* `Run.trans` — one run after the other; `Run.simulate` — a run of one system matched by a run of
  another with the same labels.
* `Lts.ofNext` — a system given by an executable partial step function, with
  runs that can be evaluated (`reachable_of_foldlM`).
* `split_concat` — an entry of a history that has grown by one; `forall_mem_concat`,
  `forall_split_concat` — what holds of each; `latest` — the last entry of a kind.
-/

namespace KernelModules

universe u v

/-- A labelled transition system: where runs start and what one step does. -/
structure Lts (σ : Type u) (α : Type v) where
  /-- the states a run may start in -/
  init : σ → Prop
  /-- one step, with its label -/
  step : σ → α → σ → Prop

namespace Lts

variable {σ : Type u} {α : Type v} {L : Lts σ α}

/-- The states that some run reaches. -/
inductive Reachable (L : Lts σ α) : σ → Prop where
  /-- a run starts here -/
  | init {s : σ} : L.init s → Reachable L s
  /-- one more step -/
  | step {s s' : σ} {a : α} : Reachable L s → L.step s a s' → Reachable L s'

/-- The runs from a given state: the labels in order and the state reached. -/
inductive Run (L : Lts σ α) (s₀ : σ) : List α → σ → Prop where
  /-- the empty run -/
  | nil : Run L s₀ [] s₀
  /-- one more step at the end -/
  | snoc {as : List α} {s s' : σ} {a : α} :
      Run L s₀ as s → L.step s a s' → Run L s₀ (as ++ [a]) s'

/-- An inductive invariant: true where runs start, kept by every step. -/
structure Inductive (L : Lts σ α) (I : σ → Prop) : Prop where
  /-- the invariant holds where a run starts -/
  init : ∀ {s : σ}, L.init s → I s
  /-- every step keeps the invariant -/
  step : ∀ {s s' : σ} {a : α}, I s → L.step s a s' → I s'

/-- An inductive invariant holds in every reachable state. -/
theorem Inductive.reachable {I : σ → Prop} (h : L.Inductive I) {s : σ}
    (hs : L.Reachable s) : I s := by
  induction hs with
  | init hi => exact h.init hi
  | step _ hstep ih => exact h.step ih hstep

/-- A run that starts in a reachable state ends in one. -/
theorem Run.reachable_of {s₀ s : σ} {as : List α} (h₀ : L.Reachable s₀) (hr : L.Run s₀ as s) :
    L.Reachable s := by
  induction hr with
  | nil => exact h₀
  | snoc _ hstep ih => exact ih.step hstep

/-- So does one that starts where runs start. -/
theorem Run.reachable {s₀ s : σ} {as : List α} (h₀ : L.init s₀) (hr : L.Run s₀ as s) :
    L.Reachable s := hr.reachable_of (.init h₀)

/-- Being reachable is itself inductive, so an invariant may use in its step whatever
is already known of the reachable states. -/
theorem reachable_inductive : L.Inductive L.Reachable :=
  ⟨fun hi => .init hi, fun hs hstep => hs.step hstep⟩

/-- A second invariant may use the first one in its step. -/
theorem Inductive.and {I J : σ → Prop} (hI : L.Inductive I)
    (hinit : ∀ {s : σ}, L.init s → J s)
    (hstep : ∀ {s s' : σ} {a : α}, I s → J s → L.step s a s' → J s') :
    L.Inductive fun s => I s ∧ J s where
  init hi := ⟨hI.init hi, hinit hi⟩
  step h hs := ⟨hI.step h.1 hs, hstep h.1 h.2 hs⟩

/-- What the steps keep from some state on, given the invariant, a run keeps. -/
theorem Inductive.run {I J : σ → Prop} (hI : L.Inductive I)
    (hstep : ∀ {s s' : σ} {a : α}, I s → J s → L.step s a s' → J s') {s₀ s : σ} {as : List α}
    (h₀ : I s₀) (hJ : J s₀) (hr : L.Run s₀ as s) : I s ∧ J s := by
  induction hr with
  | nil => exact ⟨h₀, hJ⟩
  | snoc _ hs ih => exact ⟨hI.step ih.1 hs, hstep ih.1 ih.2 hs⟩

/-! ## Runs all of whose steps meet a condition -/

/-- The system with only those steps that meet `P` in the state before them. -/
def restrict (L : Lts σ α) (P : σ → α → Prop) : Lts σ α where
  init := L.init
  step s a s' := P s a ∧ L.step s a s'

/-- A restricted run is a run. -/
theorem Reachable.of_restrict {P : σ → α → Prop} {s : σ}
    (hs : (L.restrict P).Reachable s) : L.Reachable s := by
  induction hs with
  | init hi => exact .init hi
  | step _ hstep ih => exact ih.step hstep.2

/-- An inductive invariant stays one when steps are left out. -/
theorem Inductive.restrict {I : σ → Prop} (h : L.Inductive I) (P : σ → α → Prop) :
    (L.restrict P).Inductive I where
  init hi := h.init hi
  step hI hs := h.step hI hs.2

/-- A run whose steps all meet a condition is a restricted run. -/
theorem Reachable.to_restrict {P : σ → α → Prop} {s : σ} (hs : L.Reachable s)
    (hP : ∀ s a, P s a) : (L.restrict P).Reachable s := by
  induction hs with
  | init hi => exact .init hi
  | step _ hstep ih => exact ih.step ⟨hP _ _, hstep⟩

/-- Every run is one restricted by no condition. -/
theorem Reachable.restrict_true {s : σ} (hs : L.Reachable s) :
    (L.restrict fun _ _ => True).Reachable s :=
  hs.to_restrict fun _ _ => trivial

/-- A condition that is weaker in the reachable states leaves out fewer steps. -/
theorem Reachable.restrict_of {P Q : σ → α → Prop}
    (hPQ : ∀ {s : σ} {a : α}, (L.restrict P).Reachable s → P s a → Q s a) {s : σ}
    (hs : (L.restrict P).Reachable s) : (L.restrict Q).Reachable s := by
  induction hs with
  | init hi => exact .init hi
  | step hs hstep ih => exact ih.step ⟨hPQ hs hstep.1, hstep.2⟩

/-- So is it with runs; the step itself may be used to compare the conditions. -/
theorem Run.restrict_of {P Q : σ → α → Prop} {s₀ : σ} (h₀ : L.init s₀)
    (hPQ : ∀ {s s' : σ} {a : α}, (L.restrict P).Reachable s → L.step s a s' → P s a → Q s a)
    {as : List α} {s : σ} (hr : (L.restrict P).Run s₀ as s) : (L.restrict Q).Run s₀ as s := by
  induction hr with
  | nil => exact .nil
  | snoc hr hstep ih => exact ih.snoc ⟨hPQ (hr.reachable h₀) hstep.2 hstep.1, hstep.2⟩

/-- A run all of whose labels meet a condition. -/
theorem Run.to_restrict {Q : α → Prop} {s₀ s : σ} {as : List α} (hr : L.Run s₀ as s)
    (has : ∀ a ∈ as, Q a) : (L.restrict fun _ a => Q a).Run s₀ as s := by
  induction hr with
  | nil => exact .nil
  | snoc _ hstep ih =>
    refine (ih fun a ha => has a (List.mem_append_left _ ha)).snoc ⟨?_, hstep⟩
    exact has _ (List.mem_append_right _ (List.mem_singleton_self _))

/-- A weaker condition leaves out fewer steps. -/
theorem Run.restrict_mono {P Q : σ → α → Prop} (hPQ : ∀ {s : σ} {a : α}, P s a → Q s a) {s₀ s : σ}
    {as : List α} (hr : (L.restrict P).Run s₀ as s) : (L.restrict Q).Run s₀ as s := by
  induction hr with
  | nil => exact .nil
  | snoc _ hstep ih => exact ih.snoc ⟨hPQ hstep.1, hstep.2⟩

/-- One run after the other. -/
theorem Run.trans {s₀ s s' : σ} {as bs : List α} (hr : L.Run s₀ as s) (hr' : L.Run s bs s') :
    L.Run s₀ (as ++ bs) s' := by
  induction hr' with
  | nil =>
    rw [List.append_nil]
    exact hr
  | snoc _ hstep ih =>
    rw [← List.append_assoc]
    exact ih.snoc hstep

/-- A run passes through each of its labels. -/
theorem Run.exists_step {s₀ s : σ} {as bs cs : List α} {a : α} (hr : L.Run s₀ as s)
    (h : as = bs ++ a :: cs) : ∃ t t', L.Run s₀ bs t ∧ L.step t a t' := by
  induction hr generalizing cs with
  | nil => exact absurd h.symm (List.append_ne_nil_of_right_ne_nil _ (List.cons_ne_nil _ _))
  | @snoc as s s' e hr hstep ih =>
    rcases List.eq_nil_or_concat cs with rfl | ⟨cs', y, rfl⟩
    · obtain ⟨rfl, he⟩ := List.append_inj' h rfl
      rw [← List.head_eq_of_cons_eq he]
      exact ⟨s, s', hr, hstep⟩
    · rw [List.concat_eq_append, ← List.cons_append, ← List.append_assoc] at h
      exact ih (List.append_inj' h rfl).1

/-- **Simulation**: what each step can match step for step, a run can match. -/
theorem Run.simulate {τ : Type*} {M : Lts τ α} {R : σ → τ → Prop}
    (hstep : ∀ {s s' : σ} {a : α} {t : τ}, R s t → L.step s a s' → ∃ t', M.step t a t' ∧ R s' t')
    {s₀ s : σ} {t₀ : τ} {as : List α} (h₀ : R s₀ t₀) (hr : L.Run s₀ as s) :
    ∃ t, M.Run t₀ as t ∧ R s t := by
  induction hr with
  | nil => exact ⟨t₀, .nil, h₀⟩
  | snoc _ hs ih =>
    obtain ⟨t, ht, hR⟩ := ih
    obtain ⟨t', ht', hR'⟩ := hstep hR hs
    exact ⟨t', ht.snoc ht', hR'⟩

/-! ## Executable systems -/

/-- The system of a partial step function, started in one state. -/
def ofNext (s₀ : σ) (next : σ → α → Option σ) : Lts σ α where
  init s := s = s₀
  step s a s' := next s a = some s'

/-- Evaluating the step function along a list of labels is a run. -/
theorem reachable_of_foldlM {s₀ : σ} {next : σ → α → Option σ} :
    ∀ {as : List α} {s s' : σ}, (ofNext s₀ next).Reachable s →
      as.foldlM next s = some s' → (ofNext s₀ next).Reachable s' := by
  intro as
  induction as with
  | nil =>
    intro s s' hs he
    obtain rfl : s = s' := Option.some.inj he
    exact hs
  | cons a as ih =>
    intro s s' hs he
    rw [List.foldlM_cons] at he
    rcases hn : next s a with _ | s₁
    · rw [hn] at he
      cases he
    · rw [hn] at he
      exact ih (hs.step hn) he

/-- So is it with the labels kept. -/
theorem run_of_foldlM {s₀ t : σ} {next : σ → α → Option σ} {as : List α} :
    ∀ {s s' : σ} {bs : List α}, (ofNext s₀ next).Run t bs s →
      as.foldlM next s = some s' → (ofNext s₀ next).Run t (bs ++ as) s' := by
  induction as with
  | nil =>
    intro s s' bs hr he
    obtain rfl : s = s' := Option.some.inj he
    rw [List.append_nil]
    exact hr
  | cons a as ih =>
    intro s s' bs hr he
    rw [List.foldlM_cons] at he
    rcases hn : next s a with _ | s₁
    · rw [hn] at he
      cases he
    · rw [hn] at he
      rw [List.append_cons]
      exact ih (hr.snoc hn) he

/-- The step function cut down to the steps that meet a decidable condition. -/
def guardNext (next : σ → α → Option σ) (P : σ → α → Prop) [∀ s a, Decidable (P s a)] :
    σ → α → Option σ :=
  fun s a => if P s a then next s a else none

/-- The guarded step function runs the restricted system. -/
theorem reachable_restrict_of_foldlM {s₀ : σ} {next : σ → α → Option σ} {P : σ → α → Prop}
    [∀ s a, Decidable (P s a)] :
    ∀ {as : List α} {s s' : σ}, ((ofNext s₀ next).restrict P).Reachable s →
      as.foldlM (guardNext next P) s = some s' → ((ofNext s₀ next).restrict P).Reachable s' := by
  intro as
  induction as with
  | nil =>
    intro s s' hs he
    obtain rfl : s = s' := Option.some.inj he
    exact hs
  | cons a as ih =>
    intro s s' hs he
    rw [List.foldlM_cons] at he
    rcases hn : guardNext next P s a with _ | s₁
    · rw [hn] at he
      cases he
    · rw [hn] at he
      by_cases hP : P s a
      · rw [guardNext, if_pos hP] at hn
        exact ih (hs.step ⟨hP, hn⟩) he
      · rw [guardNext, if_neg hP] at hn
        cases hn

/-- Running a concrete list of actions and observing where it ends. -/
theorem exists_reachable_of_map {β : Type*} {s₀ : σ} {next : σ → α → Option σ}
    {P : σ → α → Prop} [∀ s a, Decidable (P s a)] (as : List α) (f : σ → β) {y : β}
    (h : (as.foldlM (guardNext next P) s₀).map f = some y) :
    ∃ s, ((ofNext s₀ next).restrict P).Reachable s ∧ f s = y := by
  obtain ⟨s, hrun, hy⟩ := Option.map_eq_some_iff.mp h
  exact ⟨s, reachable_restrict_of_foldlM (.init rfl) hrun, hy⟩

/-- So is it with the run itself, from its start. -/
theorem exists_run_of_map {β : Type*} {s₀ : σ} {next : σ → α → Option σ} (as : List α)
    (f : σ → β) {y : β} (h : (as.foldlM next s₀).map f = some y) :
    ∃ s, (ofNext s₀ next).Run s₀ as s ∧ f s = y := by
  obtain ⟨s, hrun, hy⟩ := Option.map_eq_some_iff.mp h
  exact ⟨s, run_of_foldlM .nil hrun, hy⟩

end Lts

/-! ## Histories -/

/-- A history extended by one entry splits at an old entry or at the new one. -/
theorem split_concat_post {α : Type u} {log pre post : List α} {e x : α}
    (h : log ++ [e] = pre ++ x :: post) :
    (∃ post', log = pre ++ x :: post' ∧ post = post' ++ [e]) ∨
      (log = pre ∧ post = []) ∧ e = x := by
  rcases List.eq_nil_or_concat post with rfl | ⟨post', y, rfl⟩
  · obtain ⟨rfl, hx⟩ := List.append_inj' h rfl
    exact .inr ⟨⟨rfl, rfl⟩, List.head_eq_of_cons_eq hx⟩
  · rw [List.concat_eq_append, ← List.cons_append, ← List.append_assoc] at h
    obtain ⟨hlog, hy⟩ := List.append_inj' h rfl
    rw [← List.head_eq_of_cons_eq hy, List.concat_eq_append]
    exact .inl ⟨post', hlog, rfl⟩

/-- So it does when nothing is said of what follows the entry. -/
theorem split_concat {α : Type u} {log pre post : List α} {e x : α}
    (h : log ++ [e] = pre ++ x :: post) :
    (∃ post', log = pre ++ x :: post') ∨ log = pre ∧ e = x := by
  rcases split_concat_post h with ⟨post', hlog, -⟩ | ⟨⟨hlog, -⟩, hx⟩
  · exact .inl ⟨post', hlog⟩
  · exact .inr ⟨hlog, hx⟩

/-- What holds of each entry of a history extended by one entry. -/
theorem forall_mem_concat {α : Type u} {P : α → Prop} {log : List α} {e : α} :
    (∀ x ∈ log ++ [e], P x) ↔ (∀ x ∈ log, P x) ∧ P e := by
  rw [List.forall_mem_append, List.forall_mem_singleton]

/-- What holds of each entry and the history before it, for a history extended by one entry. -/
theorem forall_split_concat {α : Type u} {P : List α → α → Prop} {log : List α} {e : α} :
    (∀ pre x post, log ++ [e] = pre ++ x :: post → P pre x) ↔
      (∀ pre x post, log = pre ++ x :: post → P pre x) ∧ P log e := by
  constructor
  · intro h
    refine ⟨fun pre x post heq => h pre x (post ++ [e]) ?_, h log e [] rfl⟩
    rw [heq, List.append_assoc, List.cons_append]
  · rintro ⟨hold, hnew⟩ pre x post heq
    rcases split_concat heq with ⟨post, hlog⟩ | ⟨rfl, rfl⟩
    · exact hold pre x post hlog
    · exact hnew

/-- The last entry of a history that passes a test. -/
def latest {α : Type u} (p : α → Bool) (log : List α) : Option α := log.reverse.find? p

/-- A history extended by one entry. -/
theorem latest_concat {α : Type u} (p : α → Bool) (log : List α) (e : α) :
    latest p (log ++ [e]) = if p e then some e else latest p log := by
  rw [latest, List.reverse_append, List.reverse_singleton, List.singleton_append,
    List.find?_cons]
  cases p e <;> rfl

theorem latest_passes {α : Type u} {p : α → Bool} {log : List α} {e : α}
    (h : latest p log = some e) : p e = true := List.find?_some h

/-- The last entry of a kind that is of a narrower kind is the last one of that kind too. -/
theorem latest_narrow {α : Type u} {p q : α → Bool} {log : List α} {e : α}
    (hqp : ∀ x, q x = true → p x = true) (h : latest p log = some e) (hq : q e = true) :
    latest q log = some e := by
  induction log using List.reverseRecOn with
  | nil => cases h
  | append_singleton log x ih =>
    rw [latest_concat] at h ⊢
    by_cases hx : p x = true
    · rw [if_pos hx] at h
      obtain rfl := Option.some.inj h
      rw [if_pos hq]
    · rw [if_neg hx] at h
      rw [if_neg fun hqx => hx (hqp x hqx)]
      exact ih h

end KernelModules
