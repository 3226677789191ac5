import KernelModules.Ledger
import Mathlib.Data.List.Infix

/-!
# Programs that start and join threads

A main thread works off a list of instructions: it keeps a ledger, and starts and joins
threads, which use resources of the ledger at any moment in between.

* `Instr`, `deeds` — the instructions, and what they write into the ledger;
* `Safe` — what can be told from the list: its deeds are lawful, and as long as a thread may
  run the resources it needs are owned;
* `Follows` — what connects the list with the ledger of a run, whatever the threads do. There
  is one rule for each kind of step, and the ledger of a safe list is lawful
  (`Follows.lawful_log`).

Instructions about different things can be checked apart (`safe_of_parts`), and one thread's
instructions are mostly a `session`.
-/

namespace KernelModules

namespace ForkJoin

open Ledger

universe u v w

/-- An instruction of the main thread. -/
inductive Instr (ρ : Type u) (τ : Type v) (κ : Type w) where
  /-- something is done with a resource -/
  | deed (d : Deed ρ)
  /-- a thread is started -/
  | start (t : τ)
  /-- a thread is asked to end -/
  | ask (t : τ)
  /-- waits until a thread has ended -/
  | join (t : τ)
  /-- something else -/
  | call (c : κ)
  deriving DecidableEq

/-- How far a thread is. -/
inductive Phase where
  /-- not started -/
  | absent
  /-- running -/
  | live
  /-- ended -/
  | ended
  deriving DecidableEq

/-- A thread goes on, or ends. -/
def Phase.GoesTo (p p' : Phase) : Prop := p' = p ∨ p = .live ∧ p' = .ended

variable {ρ : Type u} {τ : Type v} {κ : Type w}

/-- What an instruction writes into the ledger. -/
def Instr.deeds : Instr ρ τ κ → List (Deed ρ)
  | .deed d => [d]
  | .start _ | .ask _ | .join _ | .call _ => []

/-- What a list of instructions writes into the ledger. -/
def deeds (l : List (Instr ρ τ κ)) : List (Deed ρ) := l.flatMap Instr.deeds

@[simp]
theorem deeds_nil : deeds ([] : List (Instr ρ τ κ)) = [] := rfl

@[simp]
theorem deeds_cons (x : Instr ρ τ κ) (l : List (Instr ρ τ κ)) :
    deeds (x :: l) = x.deeds ++ deeds l := List.flatMap_cons ..

@[simp]
theorem deeds_append (l l' : List (Instr ρ τ κ)) : deeds (l ++ l') = deeds l ++ deeds l' :=
  List.flatMap_append ..

@[simp]
theorem deeds_map_deed (ds : List (Deed ρ)) :
    deeds (ds.map .deed : List (Instr ρ τ κ)) = ds := by
  induction ds with
  | nil => rfl
  | cons d ds ih => rw [List.map_cons, deeds_cons, ih]; rfl

theorem mem_deeds {l : List (Instr ρ τ κ)} {d : Deed ρ} : d ∈ deeds l ↔ .deed d ∈ l := by
  rw [deeds, List.mem_flatMap]
  constructor
  · rintro ⟨x, hx, hd⟩
    cases x with
    | deed e => rwa [List.mem_singleton.mp hd]
    | start _ | ask _ | join _ | call _ => cases hd
  · intro hd
    exact ⟨_, hd, List.mem_singleton_self d⟩

/-- A thread is started, asked to end and joined, with deeds before and after. -/
def session (before : List (Deed ρ)) (t : τ) (after : List (Deed ρ)) : List (Instr ρ τ κ) :=
  before.map .deed ++ .start t :: .ask t :: .join t :: after.map .deed

theorem deeds_session (before : List (Deed ρ)) (t : τ) (after : List (Deed ρ)) :
    deeds (session before t after : List (Instr ρ τ κ)) = before ++ after := by
  rw [session, deeds_append, deeds_map_deed]
  exact congrArg (before ++ ·) (deeds_map_deed after)

/-! ## Safe lists -/

section Safe

variable [DecidableEq ρ]

/-- The deeds are lawful, and between its start and its join the resources a thread needs are
owned. -/
structure Safe (needs : τ → List ρ) (script : List (Instr ρ τ κ)) : Prop where
  /-- the deeds of the main thread -/
  lawful : Lawful (deeds script)
  /-- what the other threads may use -/
  owned : ∀ {done todo : List (Instr ρ τ κ)}, script = done ++ todo → ∀ {t : τ},
    .start t ∈ done → .join t ∉ done → ∀ {r : ρ}, r ∈ needs t → Owned (deeds done) r

variable {needs : τ → List ρ}

theorem safe_nil : Safe needs ([] : List (Instr ρ τ κ)) where
  lawful := lawful_nil
  owned hsplit _ hstart := by
    rw [(List.append_eq_nil_iff.mp hsplit.symm).1] at hstart
    cases hstart

/-- It is enough that what the thread needs is there when it starts. -/
theorem safe_session {before after : List (Deed ρ)} {t : τ} (hlawful : Lawful (before ++ after))
    (howned : ∀ r ∈ needs t, Owned before r) :
    Safe needs (session before t after : List (Instr ρ τ κ)) where
  lawful := by
    rw [deeds_session]
    exact hlawful
  owned := by
    intro done todo hsplit u hstart hjoin r hr
    have hnot : ∀ ds : List (Deed ρ), Instr.start u ∉ (ds.map .deed : List (Instr ρ τ κ)) := by
      simp
    rw [session] at hsplit
    rcases List.append_eq_append_iff.mp hsplit with ⟨rest, rfl, hrest⟩ | ⟨rest, hbefore, -⟩
    · rcases rest with _ | ⟨x, _ | ⟨y, _ | ⟨z, rest⟩⟩⟩
      · rw [List.append_nil] at hstart
        exact (hnot before hstart).elim
      · obtain ⟨rfl, -⟩ := List.cons_eq_cons.mp hrest
        obtain rfl : u = t := by simpa using hstart
        simpa [Instr.deeds] using howned r hr
      · simp only [List.cons_append, List.cons_eq_cons] at hrest
        obtain ⟨rfl, rfl, -⟩ := hrest
        obtain rfl : u = t := by simpa using hstart
        simpa [Instr.deeds] using howned r hr
      · simp only [List.cons_append, List.cons_eq_cons] at hrest
        obtain ⟨rfl, rfl, rfl, hafter⟩ := hrest
        have hu : u = t := by
          have hnotrest : Instr.start u ∉ rest := fun hmem =>
            hnot after (hafter ▸ List.mem_append_left _ hmem)
          simpa [hnotrest] using hstart
        subst hu
        exact (hjoin (by simp)).elim
    · exact (hnot before (hbefore ▸ List.mem_append_left _ hstart)).elim

/-! ## Instructions about different things -/

/-- What an instruction is about. -/
def Instr.part {ι : Type*} (own : ρ → ι) (home : τ → ι) : Instr ρ τ κ → Option ι
  | .deed d => some (own d.res)
  | .start t | .ask t | .join t => some (home t)
  | .call _ => none

section Parts

variable {ι : Type*} [DecidableEq ι] {own : ρ → ι} {home : τ → ι}

/-- The instructions about one thing. -/
def about (own : ρ → ι) (home : τ → ι) (i : ι) (l : List (Instr ρ τ κ)) : List (Instr ρ τ κ) :=
  l.filter fun x => x.part own home = some i

omit [DecidableEq ρ] in
theorem about_append (i : ι) (l l' : List (Instr ρ τ κ)) :
    about own home i (l ++ l') = about own home i l ++ about own home i l' :=
  List.filter_append ..

omit [DecidableEq ρ] in
/-- Of lists that are about different things one is left. -/
theorem about_flatMap {α : Type*} {l : List α} (hl : l.Nodup) {a : α} (ha : a ∈ l)
    {g : α → List (Instr ρ τ κ)} {i : ι} (hg : ∀ b ≠ a, about own home i (g b) = []) :
    about own home i (l.flatMap g) = about own home i (g a) := by
  induction l with
  | nil => cases ha
  | cons b l ih =>
    obtain ⟨hb, hl⟩ := List.nodup_cons.mp hl
    rw [List.flatMap_cons, about_append]
    rcases List.mem_cons.mp ha with rfl | ha
    · have hrest : about own home i (l.flatMap g) = [] := by
        rw [about, List.filter_eq_nil_iff]
        intro x hx
        obtain ⟨c, hc, hx⟩ := List.mem_flatMap.mp hx
        exact List.filter_eq_nil_iff.mp (hg c fun hca => hb (hca ▸ hc)) x hx
      rw [hrest, List.append_nil]
    · rw [hg b fun hba => hb (hba ▸ ha), List.nil_append, ih hl ha]

omit [DecidableEq ρ] in
/-- They say all there is to say about their resources. -/
theorem deeds_about (i : ι) (l : List (Instr ρ τ κ)) :
    deeds (about own home i l) = (deeds l).filter fun d => own d.res = i := by
  induction l with
  | nil => rfl
  | cons x l ih =>
    have hx : deeds (about own home i [x]) = x.deeds.filter fun d => own d.res = i := by
      cases x with
      | deed d => by_cases hd : own d.res = i <;> simp [about, Instr.part, Instr.deeds, hd]
      | start t | ask t | join t =>
        by_cases ht : home t = i <;> simp [about, Instr.part, Instr.deeds, ht]
      | call c => simp [about, Instr.part, Instr.deeds]
    rw [← List.singleton_append, about_append, deeds_append, hx, ih, deeds_append,
      List.filter_append]
    simp

theorem history_about (own : ρ → ι) (home : τ → ι) (l : List (Instr ρ τ κ)) (r : ρ) :
    history (deeds (about own home (own r) l)) r = history (deeds l) r := by
  rw [deeds_about, history, List.filter_filter]
  refine List.filter_congr fun d _ => ?_
  by_cases hd : d.res = r <;> simp [hd]

theorem owned_about {l : List (Instr ρ τ κ)} {r : ρ} :
    Owned (deeds (about own home (own r) l)) r ↔ Owned (deeds l) r := by
  rw [← owned_history, history_about, owned_history]

/-- A list is safe if the instructions about each thing are, and each thread needs only what is
about the same thing as itself. -/
theorem safe_of_parts {script : List (Instr ρ τ κ)}
    (hneeds : ∀ t, ∀ r ∈ needs t, own r = home t)
    (h : ∀ i, Safe needs (about own home i script)) : Safe needs script where
  lawful := by
    refine lawful_iff_history.mpr fun r => ?_
    rw [← history_about own home]
    exact lawful_iff_history.mp (h (own r)).lawful r
  owned := by
    intro done todo hsplit t hstart hjoin r hr
    have hsplit' : about own home (own r) script =
        about own home (own r) done ++ about own home (own r) todo := by
      rw [hsplit, about_append]
    have hstart' : .start t ∈ about own home (own r) done :=
      List.mem_filter.mpr ⟨hstart, by simp [Instr.part, hneeds t r hr]⟩
    have hjoin' : .join t ∉ about own home (own r) done :=
      fun hmem => hjoin (List.mem_filter.mp hmem).1
    have howned : Owned (deeds (about own home (own r) done)) r :=
      (h (own r)).owned hsplit' hstart' hjoin' hr
    exact owned_about.mp howned

omit [DecidableEq ρ] in
/-- The order in which two things are released is told by the instructions about them. -/
theorem releasedAfter_of_part (own : ρ → ι) (home : τ → ι) {script : List (Instr ρ τ κ)} {a r : ρ}
    (h : ReleasedAfter (Ledger.moves (deeds (about own home (own r) script))) a r) :
    ReleasedAfter (Ledger.moves (deeds script)) a r := by
  rw [deeds_about, Ledger.moves, List.filter_comm] at h
  exact h.of_filter (by simp [Deed.res])

/-- So is it with being settled. -/
theorem settled_of_parts (own : ρ → ι) (home : τ → ι) {script : List (Instr ρ τ κ)}
    (h : ∀ i, Settled (deeds (about own home i script))) : Settled (deeds script) := by
  refine settled_iff_history.mpr fun r => ?_
  rw [← history_about own home]
  exact settled_iff_history.mp (h (own r)) r

end Parts

end Safe

/-! ## Runs -/

section Runs

variable [DecidableEq ρ] {needs : τ → List ρ} {script done todo : List (Instr ρ τ κ)}
  {phase phase' : τ → Phase} {log : List (Deed ρ)}

/-- The main thread has `done` some of its instructions and has the others still to do; the
threads are so far, and the ledger is what they have written. -/
structure Follows (needs : τ → List ρ) (script done todo : List (Instr ρ τ κ))
    (phase : τ → Phase) (log : List (Deed ρ)) : Prop where
  /-- the place in the list -/
  split : script = done ++ todo
  /-- only a thread that was started is there -/
  started : ∀ {t : τ}, phase t ≠ .absent → .start t ∈ done
  /-- a thread that was joined has ended -/
  joined : ∀ {t : τ}, .join t ∈ done → phase t = .ended
  /-- what the main thread did is in the ledger -/
  mem : ∀ {d : Deed ρ}, d ∈ deeds done → d ∈ log
  /-- the other threads only use resources -/
  moves : Ledger.moves log = Ledger.moves (deeds done)
  /-- they are allowed to -/
  lawful : Safe needs script → Lawful log

theorem Follows.init (needs : τ → List ρ) (script : List (Instr ρ τ κ)) :
    Follows needs script [] script (fun _ => .absent) [] where
  split := rfl
  started ht := (ht rfl).elim
  joined ht := by cases ht
  mem hd := by cases hd
  moves := rfl
  lawful _ := lawful_nil

/-- What is owned after the deeds done is owned in the ledger. -/
theorem Follows.owned_iff (h : Follows needs script done todo phase log) {r : ρ} :
    Owned log r ↔ Owned (deeds done) r := by
  rw [← owned_moves, h.moves, owned_moves]

/-- An instruction that writes nothing, and whose thread, if it joins one, has ended. -/
theorem Follows.skip {x : Instr ρ τ κ} (h : Follows needs script done (x :: todo) phase log)
    (hx : x.deeds = []) (hjoin : ∀ {t : τ}, x = .join t → phase t = .ended) :
    Follows needs script (done ++ [x]) todo phase log where
  split := by rw [h.split, List.append_cons]
  started ht := List.mem_append_left _ (h.started ht)
  joined ht := by
    rcases List.mem_append.mp ht with ht | ht
    · exact h.joined ht
    · exact hjoin (List.mem_singleton.mp ht).symm
  mem hd := h.mem (by simpa [hx] using hd)
  moves := by simpa [hx] using h.moves
  lawful := h.lawful

/-- A thread is started. -/
theorem Follows.start {t : τ} (h : Follows needs script done (.start t :: todo) phase log)
    (habsent : phase t = .absent) (hother : ∀ {u : τ}, u ≠ t → phase' u = phase u) :
    Follows needs script (done ++ [.start t]) todo phase' log where
  split := by rw [h.split, List.append_cons]
  started {u} hu := by
    by_cases hut : u = t
    · exact List.mem_append_right _ (by simp [hut])
    · rw [hother hut] at hu
      exact List.mem_append_left _ (h.started hu)
  joined {u} hu := by
    have hdone : .join u ∈ done := by simpa using hu
    have hended := h.joined hdone
    have hut : u ≠ t := by
      rintro rfl
      cases habsent.symm.trans hended
    rw [hother hut, hended]
  mem hd := h.mem (by simpa [Instr.deeds] using hd)
  moves := by simpa [Instr.deeds] using h.moves
  lawful := h.lawful

/-- The main thread writes into the ledger. -/
theorem Follows.deed {d : Deed ρ} (h : Follows needs script done (.deed d :: todo) phase log) :
    Follows needs script (done ++ [.deed d]) todo phase (log ++ [d]) where
  split := by rw [h.split, List.append_cons]
  started ht := List.mem_append_left _ (h.started ht)
  joined ht := h.joined (by simpa using ht)
  mem hd := by
    rw [deeds_append, List.mem_append] at hd
    exact List.mem_append.mpr (hd.imp_left h.mem)
  moves := by
    rw [deeds_append, moves_append, moves_append, h.moves]
    rfl
  lawful hsafe := by
    refine lawful_concat.mpr ⟨h.lawful hsafe, ?_⟩
    have hallowed : d.Allowed (deeds done) := by
      refine hsafe.lawful (deeds done) d (deeds todo) ?_
      rw [h.split, deeds_append, deeds_cons]
      rfl
    cases d with
    | acquire _ => trivial
    | use _ | release _ => exact h.owned_iff.mpr hallowed

/-- Threads run, and end. -/
theorem Follows.run (h : Follows needs script done todo phase log)
    (hphase : ∀ t, (phase t).GoesTo (phase' t)) :
    Follows needs script done todo phase' log where
  split := h.split
  started {t} ht := by
    rcases hphase t with hsame | ⟨hlive, -⟩
    · exact h.started (hsame ▸ ht)
    · exact h.started (by simp [hlive])
  joined {t} ht := by
    rcases hphase t with hsame | ⟨-, hended⟩
    · rw [hsame, h.joined ht]
    · exact hended
  mem := h.mem
  moves := h.moves
  lawful := h.lawful

/-- A running thread uses what it needs. -/
theorem Follows.use (h : Follows needs script done todo phase log) {t : τ}
    (hlive : phase t = .live) {r : ρ} (hr : r ∈ needs t) :
    Follows needs script done todo phase (log ++ [.use r]) where
  split := h.split
  started := h.started
  joined := h.joined
  mem hd := List.mem_append_left _ (h.mem hd)
  moves := by
    rw [moves_append, h.moves]
    exact List.append_nil _
  lawful hsafe := by
    refine lawful_concat.mpr ⟨h.lawful hsafe, h.owned_iff.mpr ?_⟩
    have hstart : .start t ∈ done := h.started (by simp [hlive])
    have hjoin : .join t ∉ done := fun hmem => by cases hlive.symm.trans (h.joined hmem)
    exact hsafe.owned h.split hstart hjoin hr

/-- So is it with several uses, of one thread or of different ones. -/
theorem Follows.uses {ds : List (Deed ρ)} (h : Follows needs script done todo phase log)
    (hds : ∀ d ∈ ds, ∃ t, phase t = .live ∧ ∃ r ∈ needs t, d = .use r) :
    Follows needs script done todo phase (log ++ ds) := by
  induction ds generalizing log with
  | nil => rwa [List.append_nil]
  | cons d ds ih =>
    obtain ⟨t, hlive, r, hr, rfl⟩ := hds d (List.mem_cons_self ..)
    rw [List.append_cons]
    exact ih (h.use hlive hr) fun d hd => hds d (List.mem_cons_of_mem _ hd)

/-- Whoever does it, one resource is released only after another if the list says so. -/
theorem Follows.releasedAfter (h : Follows needs script done todo phase log) {a r : ρ}
    (hscript : ReleasedAfter (Ledger.moves (deeds script)) a r) : ReleasedAfter log a r := by
  rw [h.split, deeds_append, moves_append] at hscript
  have hdone : ReleasedAfter (Ledger.moves log) a r := h.moves ▸ hscript.of_append
  exact hdone.of_filter rfl

/-- At the end the ledger is settled if the list is. -/
theorem Follows.settled_iff (h : Follows needs script done [] phase log) :
    Settled log ↔ Settled (deeds script) := by
  have hdone : script = done := by rw [h.split, List.append_nil]
  rw [← settled_moves, h.moves, hdone, settled_moves]

end Runs

end ForkJoin

end KernelModules
