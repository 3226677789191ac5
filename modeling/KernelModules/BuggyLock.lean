import KernelModules.BuggyDevice
import Mathlib.Data.List.Nodup
import Mathlib.Data.List.Perm.Subperm

/-!
# The lock of `buggy_device.c`

The lock is taken by `my_open`, which nobody notices, and given back by `my_release`, whoever has
it. So a read does not get in before some file has been closed, and each file closed lets one more
read in.

* `LockStep` — what a step does to the lock and to who is inside;
* `inside_le_releases` — **there are never more reads inside than files have been closed**, so none
  before the first one has; `exists_inside_eq_releases` — there can be as many;
* `lock_eq_of_inside` — **reads exclude each other** as long as no file is closed while one of them
  is inside.
-/

namespace KernelModules

namespace BuggyDevice

variable {Tid Fid : Type*} [DecidableEq Tid] [DecidableEq Fid]

/-! ## What a statement does to the lock -/

omit [DecidableEq Tid] [DecidableEq Fid] in
/-- **One statement**: the lock is taken by a read that gets in, it is free when a read has gone
out, or nothing happens to it. -/
theorem stmt_lock {t : Tid} {d d' : Shared Tid} {p p' : Pc Fid} (h : stmt t d p = some (d', p')) :
    (¬ p.Inside ∧ d.lock = none ∧ p'.Inside ∧ d'.lock = some t) ∨
      (p.Inside ∧ ¬ p'.Inside ∧ d'.lock = none) ∨
      (d'.lock = d.lock ∧ (p'.Inside ↔ p.Inside)) := by
  unfold stmt at h
  split at h
  case h_1 =>
    obtain ⟨hfree, h⟩ := Option.ite_none_right_eq_some.mp h
    cases h
    exact .inl ⟨id, hfree, trivial, rfl⟩
  case h_11 =>
    cases h
    exact .inr (.inl ⟨trivial, id, rfl⟩)
  case h_12 =>
    split at h <;> cases h <;> exact .inr (.inr ⟨rfl, Iff.rfl⟩)
  case h_14 | h_15 | h_16 | h_17 => cases h
  all_goals
    cases h
    refine .inr (.inr ⟨rfl, ?_⟩)
    first
    | exact Iff.rfl
    | split <;> exact Iff.rfl

omit [DecidableEq Fid] in
@[simp] theorem Pc.inside_woken {p : Pc Fid} : p.woken.Inside ↔ p.Inside := by
  cases p <;> exact Iff.rfl

/-! ## What a step does to the lock -/

/-- `t` is between `mutex_lock` and `mutex_unlock`. -/
def State.Inside (s : State Tid Fid) (t : Tid) : Prop := (s.pc t).Inside

/-- What a step does to the lock and to who is inside. -/
inductive LockStep (s s' : State Tid Fid) : Act Tid Fid → Prop where
  /-- a read gets in -/
  | getIn {t : Tid} : ¬ s.Inside t → s.shared.lock = none → s'.shared.lock = some t →
      (∀ u, s'.Inside u ↔ u = t ∨ s.Inside u) → LockStep s s' (.step t)
  /-- a read gets out -/
  | getOut {t : Tid} : s.Inside t → s'.shared.lock = none →
      (∀ u, s'.Inside u ↔ u ≠ t ∧ s.Inside u) → LockStep s s' (.step t)
  /-- a file is opened -/
  | openFile {t : Tid} {f : Fid} : s'.shared.lock = s.shared.lock.or (some t) →
      (∀ u, s'.Inside u ↔ s.Inside u) → LockStep s s' (.openFile t f)
  /-- a file is closed -/
  | release {t : Tid} {f : Fid} : s'.shared.lock = none → (∀ u, s'.Inside u ↔ s.Inside u) →
      LockStep s s' (.release t f)
  /-- anything else -/
  | other {a : Act Tid Fid} : s'.shared.lock = s.shared.lock →
      (∀ u, s'.Inside u ↔ s.Inside u) → LockStep s s' a

omit [DecidableEq Fid] in
/-- A task that moves on without getting in or out. -/
theorem inside_goto {s : State Tid Fid} {t : Tid} {p : Pc Fid}
    (hp : p.Inside ↔ (s.pc t).Inside) (u : Tid) :
    ((s.goto t p).pc u).Inside ↔ (s.pc u).Inside := by
  by_cases hut : u = t
  · rw [hut, State.goto_pc_self]
    exact hp
  · rw [State.goto_pc_ne s hut]

/-- **One step**, as far as the lock goes. -/
theorem lockStep {s s' : State Tid Fid} {a : Act Tid Fid} (h : Step s a s') :
    LockStep s s' a := by
  cases h with
  | openFile _ _ => exact .openFile rfl fun _ => Iff.rfl
  | release _ _ => exact .release rfl fun _ => Iff.rfl
  | read hpc _ => exact .other rfl (inside_goto (by rw [hpc]; exact Iff.rfl))
  | write hpc _ => exact .other rfl (inside_goto (by rw [hpc]; exact Iff.rfl))
  | reset _ => exact .other rfl fun _ => Iff.rfl
  | setBlocking _ => exact .other rfl fun _ => Iff.rfl
  | readReturn hpc => exact .other rfl (inside_goto (by rw [hpc]; exact Iff.rfl))
  | wake hpc =>
    refine .other rfl fun u => Pc.inside_woken.trans ?_
    exact inside_goto (by rw [hpc]; exact Iff.rfl) u
  | fault hpc => exact .other rfl (inside_goto (by rw [hpc]; exact Iff.rfl))
  | signal hpc =>
    refine .other rfl (inside_goto ?_)
    obtain hpc | hpc | hpc := hpc <;> rw [hpc] <;> exact Iff.rfl
  | @stmt t p p' d hpc hstmt =>
    subst hpc
    obtain ⟨hout, hfree, hin, hlock⟩ | ⟨hin, hout, hlock⟩ | ⟨hlock, hsame⟩ := stmt_lock hstmt
    · refine .getIn hout hfree hlock fun u => ?_
      by_cases hut : u = t
      · rw [hut]
        simpa [State.Inside] using hin
      · simp [State.Inside, State.goto_pc_ne s hut, hut]
    · refine .getOut hin hlock fun u => ?_
      by_cases hut : u = t
      · rw [hut]
        simpa [State.Inside] using hout
      · simp [State.Inside, State.goto_pc_ne s hut, hut]
    · exact .other hlock (inside_goto hsame)

/-! ## How many reads are inside -/

/-- How many files have been closed. -/
def releases (as : List (Act Tid Fid)) : ℕ :=
  as.countP fun a => match a with
    | .release _ _ => true
    | _ => false

omit [DecidableEq Tid] [DecidableEq Fid] in
theorem releases_concat (as : List (Act Tid Fid)) (a : Act Tid Fid) :
    releases as ≤ releases (as ++ [a]) := by
  rw [releases, releases, List.countP_append]
  exact Nat.le_add_right ..

omit [DecidableEq Tid] [DecidableEq Fid] in
theorem releases_concat_release (as : List (Act Tid Fid)) (t : Tid) (f : Fid) :
    releases (as ++ [.release t f]) = releases as + 1 := by
  simp [releases]

/-- The reads that are inside, and the one that the free lock lets in. -/
def LetIn (s : State Tid Fid) (n : ℕ) : Prop :=
  ∃ l : List Tid, l.Nodup ∧ (∀ u, u ∈ l ↔ s.Inside u) ∧
    l.length + (if s.shared.lock = none then 1 else 0) ≤ n

/-- Nothing has been opened yet. -/
def Untouched (s : State Tid Fid) : Prop :=
  (∀ t, s.pc t = .idle) ∧ ∀ f, s.files f = none

/-- The first step is to open a file; without one there is nothing to be called. -/
theorem letIn_of_untouched {s s' : State Tid Fid} {a : Act Tid Fid} {n : ℕ} (hs : Untouched s)
    (h : Step s a s') : Untouched s' ∨ LetIn s' n := by
  cases h with
  | openFile hpc hf =>
    refine .inr ⟨[], List.nodup_nil, fun u => ?_, ?_⟩
    · simp [State.Inside, hs.1 u, Pc.Inside]
    · cases hl : s.shared.lock <;> simp
  | reset _ | setBlocking _ => exact .inl hs
  | release _ hf | read _ hf | write _ hf => simp [hs.2] at hf
  | readReturn hpc | wake hpc | fault hpc => simp [hs.1] at hpc
  | stmt hpc hstmt =>
    rw [← hpc, hs.1] at hstmt
    cases hstmt
  | signal hpc => simp [hs.1] at hpc

/-- A close lets one more in. -/
theorem letIn_step {s s' : State Tid Fid} {as : List (Act Tid Fid)} {a : Act Tid Fid}
    (hs : LetIn s (releases as)) (h : Step s a s') : LetIn s' (releases (as ++ [a])) := by
  obtain ⟨l, hnodup, hmem, hlen⟩ := hs
  have hle := releases_concat as a
  cases lockStep h with
  | @getIn t hout hfree hlock hin =>
    refine ⟨t :: l, List.nodup_cons.mpr ⟨fun ht => hout ((hmem t).mp ht), hnodup⟩,
      fun u => ?_, ?_⟩
    · rw [hin, List.mem_cons, hmem]
    · simp only [hfree, hlock, if_true, reduceCtorEq, if_false, List.length_cons] at hlen ⊢
      omega
  | @getOut t hin hlock hout =>
    refine ⟨l.erase t, hnodup.erase t, fun u => ?_, ?_⟩
    · rw [hout, hnodup.mem_erase_iff, hmem]
    · have ht := (hmem t).mpr hin
      have hpos := List.length_pos_of_mem ht
      simp only [hlock, if_true, List.length_erase_of_mem ht]
      omega
  | openFile hlock hin =>
    refine ⟨l, hnodup, fun u => (hmem u).trans (hin u).symm, ?_⟩
    cases hl : s.shared.lock <;> simp [hl, hlock] at hlen ⊢ <;> omega
  | release hlock hin =>
    refine ⟨l, hnodup, fun u => (hmem u).trans (hin u).symm, ?_⟩
    rw [releases_concat_release]
    simp only [hlock, if_true]
    omega
  | other hlock hin =>
    refine ⟨l, hnodup, fun u => (hmem u).trans (hin u).symm, ?_⟩
    rw [hlock]
    omega

/-- **There are never more reads inside than files have been closed** in any run of any number of
tasks and files. -/
theorem inside_le_releases {as : List (Act Tid Fid)} {s : State Tid Fid}
    (hrun : (buggyLts Tid Fid).Run start as s) {l : List Tid} (hnodup : l.Nodup)
    (hl : ∀ t ∈ l, s.Inside t) : l.length ≤ releases as := by
  have hinv : Untouched s ∨ LetIn s (releases as) := by
    clear hl
    induction hrun with
    | nil => exact .inl ⟨fun _ => rfl, fun _ => rfl⟩
    | snoc _ hstep ih =>
      have hstep := step_of_next hstep
      obtain hs | hs := ih
      · exact letIn_of_untouched hs hstep
      · exact .inr (letIn_step hs hstep)
  obtain hs | ⟨l', -, hmem, hlen⟩ := hinv
  · cases l with
    | nil => exact Nat.zero_le _
    | cons t l =>
      have ht := hl t List.mem_cons_self
      rw [State.Inside, hs.1] at ht
      exact ht.elim
  · have hsub : l.length ≤ l'.length :=
      (hnodup.subperm fun t ht => (hmem t).mpr (hl t ht)).length_le
    omega

/-- A run it is used in: one file has been closed, and one read is inside. -/
theorem inside_le_releases_first : ([0] : List ℕ).length ≤
    releases [(.openFile 0 0 : Act ℕ ℕ), .openFile 0 1, .release 0 1, .read 0 0, .step 0] := by
  have hrun : (buggyLts ℕ ℕ).Run start _ _ := Lts.run_of_foldlM .nil
    (rfl : [Act.openFile 0 0, .openFile 0 1, .release 0 1, .read 0 0, .step 0].foldlM next start =
      some _)
  refine inside_le_releases hrun (List.nodup_singleton 0) fun t ht => ?_
  rw [List.mem_singleton.mp ht]
  trivial

/-- The first `n` tasks are inside, and the lock is free all the same. -/
structure Filled (n : ℕ) (s : State ℕ ℕ) : Prop where
  /-- who is inside, and who is in user space -/
  pc : ∀ t, s.pc t = if t < n then .readTest 0 else .idle
  /-- they all read from the same file -/
  file : s.files 0 = some n
  /-- which is the only one that is open -/
  closed : s.files 1 = none
  /-- the lock is free -/
  free : s.shared.lock = none

/-- A read gets in, and another file is opened and closed. -/
theorem filled_succ {n : ℕ} {s : State ℕ ℕ} (h : Filled n s) :
    ∃ s', (buggyLts ℕ ℕ).Run s [.read n 0, .step n, .openFile (n + 1) 1, .release (n + 1) 1] s' ∧
      Filled (n + 1) s' := by
  have hidle : ∀ t, n ≤ t → s.pc t = .idle := fun t ht => by rw [h.pc, if_neg (by omega)]
  let s₁ : State ℕ ℕ := { s.goto n (.readLock 0) with
    files := Function.update s.files 0 (some (n + 1)) }
  let s₂ : State ℕ ℕ := { s₁.goto n (.readTest 0) with
    shared := { s.shared with lock := some n }, log := s.log ++ [] }
  let s₃ : State ℕ ℕ := { s₂ with files := Function.update s₂.files 1 (some 0) }
  let s₄ : State ℕ ℕ := { s₃ with
    files := Function.update s₃.files 1 none, shared := { s₃.shared with lock := none } }
  have h₁ : next s (.read n 0) = some s₁ := by
    simp [next, State.enter, hidle n le_rfl, h.file, s₁]
  have h₂ : next s₁ (.step n) = some s₂ := by
    simp [next, stmt, Pc.event, s₁, s₂, State.goto, h.free]
  have hnext : s₂.pc (n + 1) = .idle := by
    simp [s₂, s₁, State.goto, hidle (n + 1) (Nat.le_succ n)]
  have h₃ : next s₂ (.openFile (n + 1) 1) = some s₃ := by
    simp only [next, hnext]
    simp [s₂, s₁, s₃, h.closed, State.goto]
  have h₄ : next s₃ (.release (n + 1) 1) = some s₄ := by
    have hpc : s₃.pc (n + 1) = .idle := hnext
    simp only [next, hpc]
    simp [s₃, s₄]
  refine ⟨s₄, (((Lts.Run.nil.snoc h₁).snoc h₂).snoc h₃).snoc h₄, fun t => ?_, ?_, ?_, rfl⟩
  · rcases lt_trichotomy t n with ht | rfl | ht
    · have hne : t ≠ n := by omega
      simp [s₄, s₃, s₂, s₁, State.goto, hne, h.pc, ht, Nat.lt_succ_of_lt ht]
    · simp [s₄, s₃, s₂, s₁, State.goto]
    · have hne : t ≠ n := by omega
      rw [if_neg (by omega)]
      simp [s₄, s₃, s₂, s₁, State.goto, hne, hidle t (by omega)]
  · simp [s₄, s₃, s₂, s₁, State.goto]
  · simp [s₄]

/-- A file to read from, and one that has been opened and closed. -/
theorem exists_filled : ∀ n, ∃ as s, (buggyLts ℕ ℕ).Run start as s ∧ releases as = n + 1 ∧
    Filled n s
  | 0 => by
      have hrun : (buggyLts ℕ ℕ).Run start _ _ := Lts.run_of_foldlM .nil
        (rfl : [Act.openFile 0 0, .openFile 0 1, .release 0 1].foldlM next start = some _)
      exact ⟨_, _, hrun, rfl, fun t => rfl, rfl, rfl, rfl⟩
  | n + 1 => by
      obtain ⟨as, s, hrun, hreleases, hs⟩ := exists_filled n
      obtain ⟨s', hrun', hs'⟩ := filled_succ hs
      refine ⟨_, s', hrun.trans hrun', ?_, hs'⟩
      rw [releases, List.countP_append, ← releases, hreleases]
      rfl

/-- The bound of `inside_le_releases` is reached: with `n` files closed there can be `n` reads
inside, one of which has come in through a lock that another has taken. -/
theorem exists_inside_eq_releases (n : ℕ) : ∃ as s, (buggyLts ℕ ℕ).Run start as s ∧
    releases as = n ∧ ∀ t, t < n → s.Inside t := by
  cases n with
  | zero => exact ⟨[], start, .nil, rfl, fun t ht => absurd ht (Nat.not_lt_zero t)⟩
  | succ n =>
    obtain ⟨as, s, hrun, hreleases, hs⟩ := exists_filled n
    have hidle : s.pc n = .idle := by rw [hs.pc, if_neg (lt_irrefl n)]
    have h₁ : next s (.read n 0) = some { s.goto n (.readLock 0) with
        files := Function.update s.files 0 (some (n + 1)) } := by
      simp [next, State.enter, hidle, hs.file]
    have h₂ : ∃ s', next { s.goto n (.readLock 0) with
        files := Function.update s.files 0 (some (n + 1)) } (.step n) = some s' ∧
        ∀ t, t < n + 1 → s'.Inside t := by
      refine ⟨_, by simp [next, stmt, State.goto, hs.free]; rfl, fun t ht => ?_⟩
      by_cases htn : t = n
      · simp [State.Inside, Pc.Inside, htn]
      · simp [State.Inside, Pc.Inside, htn, hs.pc, show t < n by omega]
    obtain ⟨s', h₂, hin⟩ := h₂
    refine ⟨_, s', (hrun.snoc h₁).snoc h₂, ?_, hin⟩
    rw [releases, List.countP_append, List.countP_append, ← releases, hreleases]
    rfl

/-! ## When reads exclude each other -/

/-- No file is closed while a read is inside. -/
def Undisturbed (s : State Tid Fid) (a : Act Tid Fid) : Prop :=
  ∀ t f, a = .release t f → ∀ u, ¬ s.Inside u

/-- **Reads exclude each other** in every run in which no file is closed while one of them is
inside: the one that is inside has the lock. -/
theorem lock_eq_of_inside {s : State Tid Fid}
    (hs : ((buggyLts Tid Fid).restrict Undisturbed).Reachable s) {t : Tid} (ht : s.Inside t) :
    s.shared.lock = some t := by
  have hinv : ((buggyLts Tid Fid).restrict Undisturbed).Inductive fun s =>
      ∀ u, s.Inside u → s.shared.lock = some u := by
    refine ⟨?_, ?_⟩
    · rintro s rfl u hu
      exact hu.elim
    · rintro s s' a hs ⟨hundisturbed, hstep⟩ u hu
      cases lockStep (step_of_next hstep) with
      | getIn _ hfree hlock hin =>
        obtain rfl | hu := (hin u).mp hu
        · exact hlock
        · exact absurd (hs u hu) (by rw [hfree]; nofun)
      | getOut ht hlock hin =>
        obtain ⟨hne, hu⟩ := (hin u).mp hu
        exact absurd (Option.some.inj ((hs u hu).symm.trans (hs _ ht))) hne
      | openFile hlock hin =>
        rw [hlock, hs u ((hin u).mp hu)]
        rfl
      | release _ hin => exact absurd ((hin u).mp hu) (hundisturbed _ _ rfl u)
      | other hlock hin => rw [hlock, hs u ((hin u).mp hu)]
  exact hinv.reachable hs t ht

/-- A run it is used in: the file that is closed is closed before the read gets in. -/
theorem lock_eq_of_inside_first : ∃ s, ((buggyLts ℕ ℕ).restrict Undisturbed).Reachable s ∧
    s.Inside 0 ∧ s.shared.lock = some 0 := by
  have h₀ : ((buggyLts ℕ ℕ).restrict Undisturbed).Reachable start := .init rfl
  have h₁ := h₀.step (a := .openFile 0 0) ⟨nofun, rfl⟩
  have h₂ := h₁.step (a := .openFile 0 1) ⟨nofun, rfl⟩
  have h₃ := h₂.step ⟨fun _ _ _ _ => id, (rfl : next _ (.release 0 1) = some _)⟩
  have h₄ := h₃.step (a := .read 0 0) ⟨nofun, rfl⟩
  have hs := h₄.step (a := .step 0) ⟨nofun, rfl⟩
  exact ⟨_, hs, trivial, lock_eq_of_inside hs trivial⟩

end BuggyDevice

end KernelModules
