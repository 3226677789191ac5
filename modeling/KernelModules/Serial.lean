import Mathlib.Data.List.Nodup
import Mathlib.Logic.Function.Basic

/-!
# Plans carried out in turn

Any number of parties, each with a plan: the list of effects it is to make, in order. A
shared log takes the effects as they are made, and every party knows what it has still to
do.

* `InTurn` — the log is some of the plans one after the other, the last of them perhaps
  not finished;
* `InTurn.step` — it stays so when the effect made next is one of a party whose
  competitors have all begun nothing or finished;
* `InTurn.complete` — when nothing is left to do, the log is all the plans in some order.
-/

namespace KernelModules

namespace Serial

universe u v

variable {π : Type u} {ε : Type v} {plan rest : π → List ε} {log : List ε}

/-- The log is some of the plans, one after the other. -/
inductive InTurn (plan rest : π → List ε) : List ε → Prop where
  /-- those that have begun have finished -/
  | between {done : List π} : done.Nodup → (∀ p ∈ done, rest p = []) →
      (∀ p, p ∉ done → rest p = plan p) → InTurn plan rest (done.flatMap plan)
  /-- the last one that has begun may have something left -/
  | within {done : List π} {cur : π} {log : List ε} : (done ++ [cur]).Nodup →
      (∀ p ∈ done, rest p = []) → (∀ p, p ∉ done ++ [cur] → rest p = plan p) →
      log ++ rest cur = (done ++ [cur]).flatMap plan → InTurn plan rest log

/-- Nobody has begun. -/
theorem InTurn.start : InTurn plan plan [] :=
  .between List.nodup_nil (fun _ hp => absurd hp List.not_mem_nil) fun _ _ => rfl

variable [DecidableEq π]

/-- A party that has not begun begins, behind those that have finished. -/
theorem InTurn.opened {done : List π} {p : π} {e : ε} {es : List ε} (hnodup : done.Nodup)
    (hdone : ∀ q ∈ done, rest q = []) (hnew : ∀ q, q ∉ done → rest q = plan q)
    (hp : rest p = e :: es) :
    InTurn plan (Function.update rest p es) (done.flatMap plan ++ [e]) := by
  have hmem : p ∉ done := by
    intro hmem
    rw [hdone p hmem] at hp
    cases hp
  have hnodup' : (done ++ [p]).Nodup := by
    refine List.nodup_append.mpr ⟨hnodup, List.nodup_singleton p, ?_⟩
    intro a ha b hb
    rw [List.mem_singleton.mp hb]
    rintro rfl
    exact hmem ha
  refine .within hnodup' ?_ ?_ ?_
  · intro q hq
    rw [Function.update_of_ne (by rintro rfl; exact hmem hq)]
    exact hdone q hq
  · intro q hq
    rw [List.mem_append, List.mem_singleton, not_or] at hq
    rw [Function.update_of_ne hq.2]
    exact hnew q hq.1
  · rw [Function.update_self, List.append_assoc, List.singleton_append, ← hp, hnew p hmem,
      List.flatMap_append, List.flatMap_singleton]

/-- **One effect**: the log stays serial if nobody but the party that makes the effect is in
the middle of its plan. -/
theorem InTurn.step {p : π} {e : ε} {es : List ε} (h : InTurn plan rest log)
    (hp : rest p = e :: es) (hothers : ∀ q, q ≠ p → rest q = plan q ∨ rest q = []) :
    InTurn plan (Function.update rest p es) (log ++ [e]) := by
  cases h with
  | between hnodup hdone hnew => exact .opened hnodup hdone hnew hp
  | @within done cur _ hnodup hdone hnew hlog =>
    by_cases hcur : cur = p
    · -- the last one that has begun goes on
      subst hcur
      have hmem : cur ∉ done := fun hmem => by
        have := hdone cur hmem
        rw [hp] at this
        cases this
      refine .within hnodup ?_ ?_ ?_
      · intro q hq
        rw [Function.update_of_ne (by rintro rfl; exact hmem hq)]
        exact hdone q hq
      · intro q hq
        have hne : q ≠ cur := fun heq => hq (List.mem_append_right _ (List.mem_singleton.mpr heq))
        rw [Function.update_of_ne hne]
        exact hnew q hq
      · rw [Function.update_self, List.append_assoc, List.singleton_append, ← hp]
        exact hlog
    · rcases hothers cur hcur with hplan | hnil
      · -- it had not begun after all
        rw [hplan, List.flatMap_append, List.flatMap_singleton] at hlog
        rw [List.append_cancel_right hlog]
        refine .opened (List.nodup_append.mp hnodup).1 hdone ?_ hp
        intro q hq
        by_cases hqc : q = cur
        · rw [hqc]
          exact hplan
        · exact hnew q fun hmem => (List.mem_append.mp hmem).elim hq
            fun hmem => hqc (List.mem_singleton.mp hmem)
      · -- it has finished
        rw [hnil, List.append_nil] at hlog
        rw [hlog]
        refine .opened hnodup ?_ hnew hp
        intro q hq
        rcases List.mem_append.mp hq with hq | hq
        · exact hdone q hq
        · rw [List.mem_singleton.mp hq]
          exact hnil

omit [DecidableEq π] in
/-- **All done**: the log is all the plans, one after the other. -/
theorem InTurn.complete (h : InTurn plan rest log) (hrest : ∀ p, rest p = [])
    (hplan : ∀ p, plan p ≠ []) :
    ∃ order : List π, order.Nodup ∧ (∀ p, p ∈ order) ∧ log = order.flatMap plan := by
  have hall : ∀ {order : List π}, (∀ p, p ∉ order → rest p = plan p) → ∀ p, p ∈ order := by
    intro order hnew p
    by_contra hp
    exact hplan p ((hnew p hp).symm.trans (hrest p))
  cases h with
  | between hnodup _ hnew => exact ⟨_, hnodup, hall hnew, rfl⟩
  | @within done cur _ hnodup _ hnew hlog =>
    rw [hrest cur, List.append_nil] at hlog
    exact ⟨done ++ [cur], hnodup, hall hnew, hlog⟩

end Serial

end KernelModules
