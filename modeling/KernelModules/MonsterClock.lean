import KernelModules.DelayedWork
import KernelModules.PocketMonster

/-!
# The age of the pocket monster

`kernel_monster_init` arms the delayed work for the first time and `monster_work_handler` arms it
again, a second after each tick has ended; `kernel_monster_exit` stops it and takes the file in
`/proc` away. The module may be loaded again, and loading fails if the file cannot be made.

* `Loading`, `loadNext` — the module, the work and the time that passes;
* `monster_in_time` — **the age in seconds**: the monster that `/proc` shows is never older than the
  time since it was scheduled, and younger only by what the worker is late;
* `monster_exit` — **the exit** returns, and after it nobody ticks a monster that is gone.
-/

namespace KernelModules

namespace PocketMonster

open DelayedWork (Prompt)

/-- `msecs_to_jiffies(ms)`, which rounds up -/
def msecsToJiffies (hz ms : ℕ) : ℕ := (ms * hz + 999) / 1000

theorem msecsToJiffies_second (hz : ℕ) : msecsToJiffies hz 1000 = hz := by
  rw [msecsToJiffies]
  omega

/-- `monster_work` and `monster_work_handler` -/
def monsterWork (hz : ℕ) : DelayedWork KernelMonster := ⟨msecsToJiffies hz 1000, monsterTick⟩

/-- The module parameters. -/
structure Params where
  /-- `name` -/
  name : List UInt8
  /-- `hunger` -/
  hunger : Int32
  /-- `energy` -/
  energy : Int32
  deriving DecidableEq

/-- How far the module is with `kernel_monster_init` and `kernel_monster_exit`. -/
inductive Place where
  /-- not loaded -/
  | off
  /-- the file in `/proc` is there, the work is not scheduled -/
  | born
  /-- the work has been scheduled -/
  | loaded
  /-- `cancel_delayed_work_sync` has returned, the file is still there -/
  | leaving
  deriving DecidableEq

/-- The module in time. -/
structure Loading where
  /-- the monster and the work -/
  core : DelayedWork.State KernelMonster
  /-- the parameters of the last load -/
  params : Params
  /-- how far the module is -/
  place : Place

/-- Nothing has been loaded. -/
def unloaded : Loading := ⟨DelayedWork.start (kernelMonsterInit [] 0 0), ⟨[], 0, 0⟩, .off⟩

/-- What happens next. -/
inductive LoadAct where
  /-- `kernel_monster_init` sets the monster up, and `proc_create` succeeds if `ok` -/
  | load (params : Params) (ok : Bool)
  /-- it schedules the work -/
  | schedule
  /-- `kernel_monster_exit` calls `cancel_delayed_work_sync` -/
  | exit
  /-- this returns -/
  | cancelled
  /-- `proc_remove` -/
  | remove
  /-- time passes -/
  | pass (n : ℕ)
  /-- a worker calls `monster_work_handler` -/
  | execute
  /-- `monster_tick` -/
  | tick
  /-- `schedule_delayed_work` of the handler -/
  | rearm

/-- What it is for the work. -/
def LoadAct.core : LoadAct → Option (DelayedWork.Act KernelMonster)
  | .load p _ => some (.prepare (kernelMonsterInit p.name p.hunger p.energy))
  | .schedule => some .start
  | .exit => some .cancel
  | .cancelled => some .stop
  | .remove => none
  | .pass n => some (.pass n)
  | .execute => some .execute
  | .tick => some .handle
  | .rearm => some .rearm

/-- Where it takes the module. -/
def LoadAct.goes : LoadAct → Place → Option Place
  | .load _ true, .off => some .born
  | .load _ false, .off => some .off
  | .schedule, .born => some .loaded
  | .exit, .loaded => some .loaded
  | .cancelled, .loaded => some .leaving
  | .remove, .leaving => some .off
  | .pass _, p | .execute, p | .tick, p | .rearm, p => some p
  | _, _ => none

/-- The parameters from then on. -/
def LoadAct.given (params : Params) : LoadAct → Params
  | .load p _ => p
  | _ => params

/-- One step. -/
def loadNext (hz : ℕ) (s : Loading) (a : LoadAct) : Option Loading := do
  let place ← a.goes s.place
  let core ← a.core.elim (some s.core) ((monsterWork hz).next s.core)
  some ⟨core, a.given s.params, place⟩

/-- The module as a transition system. -/
abbrev loadLts (hz : ℕ) : Lts Loading LoadAct := Lts.ofNext unloaded (loadNext hz)

/-- While the work is scheduled, the worker is done at most `g` jiffies after it was due. -/
def Punctual (g : ℕ) (s : Loading) (a : LoadAct) : Prop := ∀ b ∈ a.core, Prompt g s.core b

instance (g : ℕ) (s : Loading) (a : LoadAct) : Decidable (Punctual g s a) :=
  inferInstanceAs (Decidable (∀ b ∈ a.core, Prompt g s.core b))

/-! ## The steps -/

variable {hz g : ℕ} {s s' : Loading} {a : LoadAct}

/-- **One step**: the module goes on, and so does the work if it has to do with it. -/
theorem loadNext_cases (h : loadNext hz s a = some s') :
    a.goes s.place = some s'.place ∧ s'.params = a.given s.params ∧
      (a.core = none ∧ s'.core = s.core ∨
        ∃ b, a.core = some b ∧ (monsterWork hz).next s.core b = some s'.core) := by
  obtain ⟨place, hplace, h⟩ := Option.bind_eq_some_iff.mp h
  obtain ⟨core, hcore, h⟩ := Option.bind_eq_some_iff.mp h
  obtain rfl := Option.some.inj h
  refine ⟨hplace, rfl, ?_⟩
  cases hb : a.core with
  | none =>
    rw [hb] at hcore
    exact .inl ⟨rfl, (Option.some.inj hcore).symm⟩
  | some b =>
    rw [hb] at hcore
    exact .inr ⟨b, rfl, hcore⟩

/-- What the work does is a run of the work. -/
theorem core_reachable (hs : ((loadLts hz).restrict (Punctual g)).Reachable s) :
    (((monsterWork hz).lts unloaded.core.data).restrict (Prompt g)).Reachable s.core := by
  induction hs with
  | init hi =>
    cases hi
    exact .init rfl
  | step _ hstep ih =>
    obtain ⟨-, -, ⟨-, hcore⟩ | ⟨b, hb, hcore⟩⟩ := loadNext_cases hstep.2
    · rw [hcore]
      exact ih
    · exact ih.step ⟨hstep.1 b hb, hcore⟩

/-- How the module and its work go together. -/
structure Together (s : Loading) : Prop where
  /-- the work is started while the module is loaded -/
  owner : s.core.owner = .down ↔ s.place ≠ .loaded
  /-- the monster is born with the parameters -/
  first : s.place ≠ .off →
    s.core.first = kernelMonsterInit s.params.name s.params.hunger s.params.energy
  /-- and is as old as this before the work is scheduled -/
  runs : s.place = .born → s.core.runs = 0

/-- Each tick is behind a second. -/
theorem core_counted : (loadLts hz).Inductive fun s => (monsterWork hz).Counted s.core where
  init := by
    rintro s rfl
    exact (DelayedWork.counted_inductive (d := unloaded.core.data)).init rfl
  step := by
    intro s s' a h hs
    obtain ⟨-, -, ⟨-, hcore⟩ | ⟨b, -, hcore⟩⟩ := loadNext_cases hs
    · rw [hcore]
      exact h
    · exact (DelayedWork.counted_inductive (d := unloaded.core.data)).step h hcore

/-- The work goes on without its owner. -/
theorem Together.step {core : DelayedWork.State KernelMonster} (h : Together s)
    (howner : core.owner = s.core.owner) (hfirst : core.first = s.core.first)
    (hruns : s.place = .born → core.runs = s.core.runs) : Together { s with core := core } where
  owner := by rw [howner]; exact h.owner
  first hplace := hfirst.trans (h.first hplace)
  runs hplace := (hruns hplace).trans (h.runs hplace)

theorem together_inductive : (loadLts hz).Inductive fun s =>
    (monsterWork hz).Counted s.core ∧ Together s := by
  refine core_counted.and ?_ ?_
  · rintro s rfl
    exact ⟨by simp [unloaded, DelayedWork.start], by simp [unloaded], by simp [unloaded]⟩
  · rintro s ⟨core, params, place⟩ a hcounted h hs
    obtain ⟨hplace, hparams, hcore⟩ := loadNext_cases hs
    have hdown : ∀ {q : Place}, q ≠ .loaded → s.place = q → s.core.owner = .down := fun hq hp =>
      h.owner.mpr (hp ▸ hq)
    obtain ⟨hnone, rfl⟩ | ⟨b, hb, hcore⟩ := hcore
    · -- only `proc_remove` has nothing to do with the work
      cases a <;> cases hnone
      rcases hp : s.place with _ | _ | _ | _ <;> rw [hp] at hplace <;> cases hplace
      exact ⟨by simp [hdown (by simp) hp], by simp, by simp⟩
    · have hstep := DelayedWork.step_of_next hcore
      cases a with
      | load p ok =>
        cases hb
        obtain rfl : params = p := hparams
        cases hstep with
        | prepare howner =>
          rcases hp : s.place with _ | _ | _ | _ <;> rw [hp] at hplace <;> cases ok <;> cases hplace
          · exact ⟨by simp [howner], by simp, by simp⟩
          · exact ⟨by simp [howner], fun _ => rfl, fun _ => rfl⟩
      | schedule =>
        cases hb
        obtain rfl : params = s.params := hparams
        rcases hp : s.place with _ | _ | _ | _ <;> rw [hp] at hplace <;> cases hplace
        cases hstep with
        | start howner =>
          refine ⟨by simp, fun _ => ?_, by simp⟩
          -- it is started with the monster that has been set up
          change s.core.data = _
          rw [hcounted.data, h.runs hp]
          exact h.first (by simp [hp])
      | exit =>
        cases hb
        obtain rfl : params = s.params := hparams
        rcases hp : s.place with _ | _ | _ | _ <;> rw [hp] at hplace <;> cases hplace
        cases hstep with
        | dequeue | cancel => exact ⟨by simp, fun _ => h.first (by simp [hp]), by simp⟩
      | cancelled =>
        cases hb
        obtain rfl : params = s.params := hparams
        rcases hp : s.place with _ | _ | _ | _ <;> rw [hp] at hplace <;> cases hplace
        cases hstep with
        | stop => exact ⟨by simp, fun _ => h.first (by simp [hp]), by simp⟩
      | remove => cases hb
      | pass n =>
        cases hb
        obtain rfl : params = s.params := hparams
        obtain rfl := Option.some.inj hplace
        cases hstep with
        | pass => exact h.step rfl rfl fun _ => rfl
      | execute =>
        cases hb
        obtain rfl : params = s.params := hparams
        obtain rfl := Option.some.inj hplace
        cases hstep with
        | execute => exact h.step rfl rfl fun _ => rfl
      | tick =>
        cases hb
        obtain rfl : params = s.params := hparams
        obtain rfl := Option.some.inj hplace
        cases hstep with
        | handle hwork =>
          exact h.step rfl rfl fun hp => absurd (hdown (by simp) hp) (hcounted.running hwork).1
      | rearm =>
        cases hb
        obtain rfl : params = s.params := hparams
        obtain rfl := Option.some.inj hplace
        cases hstep with
        | rearm | lapse => exact h.step rfl rfl fun _ => rfl

/-! ## The age -/

/-- While the file is in `/proc`, the monster is what the ticks have made of the one with the module
parameters. -/
theorem data_of_place (hs : (loadLts hz).Reachable s) (hplace : s.place ≠ .off) :
    s.core.data = monsterAt s.params.name s.params.hunger s.params.energy s.core.runs := by
  obtain ⟨hcounted, htogether⟩ := together_inductive.reachable hs
  rw [hcounted.data, htogether.first hplace]
  rfl

/-- **The age in seconds**: while the file is in `/proc`, the monster is what the ticks have made of
the one with the module parameters, and there have been no more ticks than seconds since the work
was scheduled. As long as the worker is never more than `g` jiffies late with a tick, there have
been all of them but one for a second and `g` jiffies each, and the monster is sleepy after 17
of those. -/
theorem monster_in_time :
    ((loadLts hz).Reachable s → s.place ≠ .off →
      s.core.data = monsterAt s.params.name s.params.hunger s.params.energy s.core.runs ∧
      s.core.since + s.core.runs * hz ≤ s.core.now) ∧
    (((loadLts hz).restrict (Punctual g)).Reachable s → s.core.owner = .up →
      s.core.now ≤ s.core.since + (s.core.runs + 1) * (hz + g) ∧
      (s.core.since + 17 * (hz + g) < s.core.now → s.core.data.mood = .sleepy)) := by
  have hdelay : (monsterWork hz).delay = hz := msecsToJiffies_second hz
  refine ⟨fun hs hplace => ⟨data_of_place hs hplace, ?_⟩, fun hs howner => ?_⟩
  · have helapsed := (together_inductive.reachable hs).1.elapsed
    rwa [hdelay] at helapsed
  · have hplace : s.place = .loaded := by
      by_contra hne
      rw [(together_inductive.reachable hs.of_restrict).2.owner.mpr hne] at howner
      cases howner
    have hontime := DelayedWork.timely_inductive.reachable (core_reachable hs) howner
    have hnow := hontime.now_le
    rw [hdelay] at hnow
    refine ⟨hnow, fun hlate => ?_⟩
    have hlt : 17 * (hz + g) < (s.core.runs + 1) * (hz + g) := by omega
    have hruns : 17 < s.core.runs + 1 := Nat.lt_of_mul_lt_mul_right hlt
    rw [data_of_place hs.of_restrict (by simp [hplace])]
    exact mood_monsterAt_sleepy _ _ _ (Nat.le_of_lt_succ hruns)

/-- The worker is one jiffy late with each tick: after 17 of them the monster is sleepy. -/
theorem monster_in_time_late :
    ∃ s, ((loadLts 100).restrict (Punctual 1)).Reachable s ∧ s.core.owner = .up ∧
      s.core.runs = 17 ∧ s.core.data = monsterAt poupoule 20 90 17 ∧
      s.core.data.mood = .sleepy := by
  have hrun : ∃ s, ((loadLts 100).restrict (Punctual 1)).Reachable s ∧
      (s.params, s.place, s.core.owner, s.core.since, s.core.now, s.core.runs) =
        (⟨poupoule, 20, 90⟩, .loaded, .up, 0, 1718, 17) :=
    Lts.exists_reachable_of_map ([.load ⟨poupoule, 20, 90⟩ true, .schedule] ++
      (List.replicate 17 [LoadAct.pass 101, .execute, .tick, .rearm]).flatten ++ [.pass 1]) _
      (by decide +kernel)
  obtain ⟨s, hs, hobs⟩ := hrun
  simp only [Prod.mk.injEq] at hobs
  obtain ⟨hparams, hplace, howner, hsince, hnow, hruns⟩ := hobs
  obtain ⟨hborn, hup⟩ := monster_in_time
  have hdata := (hborn hs.of_restrict (by simp [hplace])).1
  rw [hparams, hruns] at hdata
  exact ⟨s, hs, howner, hruns, hdata, (hup hs howner).2 (by rw [hsince, hnow]; decide)⟩

/-! ## The exit -/

theorem loadNext_of_core {q : Place} {b : DelayedWork.Act KernelMonster}
    {core : DelayedWork.State KernelMonster} (hplace : a.goes s.place = some q)
    (hb : a.core = some b) (hcore : (monsterWork hz).next s.core b = some core) :
    loadNext hz s a = some ⟨core, a.given s.params, q⟩ := by
  rw [loadNext, hplace, hb]
  change ((monsterWork hz).next s.core b).bind _ = _
  rw [hcore]
  rfl

section Exit

variable (hz)

/-- With nobody in the handler `cancel_delayed_work_sync` returns. -/
theorem exit_of_idle (hplace : s.place = .loaded) (howner : s.core.owner = .canceling)
    (hwork : s.core.work = .idle) :
    ∃ s', (loadLts hz).Run s [.cancelled, .remove] s' ∧ s'.place = .off := by
  have hcancelled : loadNext hz s .cancelled =
      some ⟨{ s.core with owner := .down }, s.params, .leaving⟩ :=
    loadNext_of_core (by rw [hplace]; rfl) rfl (DelayedWork.next_stop howner hwork)
  have hremove : loadNext hz ⟨{ s.core with owner := .down }, s.params, .leaving⟩ .remove =
      some ⟨{ s.core with owner := .down }, s.params, .off⟩ := rfl
  exact ⟨_, .snoc (.snoc .nil hcancelled) hremove, rfl⟩

/-- Somebody who is about to arm the work does not. -/
theorem exit_of_rearming {due : ℕ} (hplace : s.place = .loaded)
    (howner : s.core.owner = .canceling) (hwork : s.core.work = .rearming due) :
    ∃ s', (loadLts hz).Run s [.rearm, .cancelled, .remove] s' ∧ s'.place = .off := by
  have hrearm : loadNext hz s .rearm = some ⟨{ s.core with work := .idle }, s.params, s.place⟩ :=
    loadNext_of_core rfl rfl (DelayedWork.next_lapse howner hwork)
  obtain ⟨s', hrun, hoff⟩ := exit_of_idle hz
    (s := ⟨{ s.core with work := .idle }, s.params, s.place⟩) hplace howner rfl
  exact ⟨s', (Lts.Run.snoc .nil hrearm).trans hrun, hoff⟩

/-- Somebody who is about to tick gets there. -/
theorem exit_of_running {due : ℕ} (hplace : s.place = .loaded)
    (howner : s.core.owner = .canceling) (hwork : s.core.work = .running due) :
    ∃ s', (loadLts hz).Run s [.tick, .rearm, .cancelled, .remove] s' ∧ s'.place = .off := by
  have htick : loadNext hz s .tick = some ⟨{ s.core with
      work := .rearming due, data := monsterTick s.core.data, runs := s.core.runs + 1 },
      s.params, s.place⟩ :=
    loadNext_of_core rfl rfl (DelayedWork.next_handle hwork)
  obtain ⟨s', hrun, hoff⟩ := exit_of_rearming hz (s := ⟨{ s.core with
      work := .rearming due, data := monsterTick s.core.data, runs := s.core.runs + 1 },
      s.params, s.place⟩) hplace howner rfl
  exact ⟨s', (Lts.Run.snoc .nil htick).trans hrun, hoff⟩

end Exit

/-- Only a load begins anew. -/
def LoadAct.IsLoad : LoadAct → Prop
  | .load _ _ => True
  | _ => False

/-- Until the next load the ticks that have been called are all there are. -/
structure Ending (runs : ℕ) (s : Loading) : Prop where
  /-- nothing is going to be scheduled -/
  place : s.place ≠ .born
  /-- nor armed -/
  owner : s.core.owner ≠ .up
  /-- the ticks -/
  runs : s.core.runs + s.core.work.pending = runs

theorem Ending.step {runs : ℕ} (h : Ending runs s) (hcounted : (monsterWork hz).Counted s.core)
    (ha : ¬ a.IsLoad) (hs : loadNext hz s a = some s') : Ending runs s' := by
  obtain ⟨hplace, -, hcore⟩ := loadNext_cases hs
  have hborn : s'.place ≠ .born := by
    intro hborn
    rw [hborn] at hplace
    cases a with
    | load p ok => exact ha trivial
    | pass n | execute | tick | rearm => exact h.place (Option.some.inj hplace)
    | schedule | exit | cancelled | remove =>
      rcases hp : s.place with _ | _ | _ | _ <;> rw [hp] at hplace <;> cases hplace
  obtain ⟨-, hcore⟩ | ⟨b, hb, hcore⟩ := hcore
  · exact ⟨hborn, hcore ▸ h.owner, hcore ▸ h.runs⟩
  · have hanew : ¬ b.Anew := by
      cases a with
      | load p ok => exact absurd trivial ha
      | schedule =>
        cases hp : s.place with
        | born => exact absurd hp h.place
        | off | loaded | leaving =>
          rw [hp] at hplace
          cases hplace
      | remove => cases hb
      | exit | cancelled | pass n | execute | tick | rearm => cases hb; exact id
    obtain ⟨howner, hruns⟩ := DelayedWork.step_of_cancel hcounted hcore h.owner hanew
    exact ⟨hborn, howner, hruns.trans h.runs⟩

/-- **The exit**: when the module is not loaded, or loaded and its work not scheduled, no worker has
to do with it. Once `kernel_monster_exit` has been called, it returns, by what is left of a tick;
and whatever happens until the next load, there is at most one more tick. -/
theorem monster_exit (hs : (loadLts hz).Reachable s) :
    (s.place ≠ .loaded → s.core.work = .idle) ∧
    (s.core.owner = .canceling →
      (∃ as s', (loadLts hz).Run s as s' ∧ s'.place = .off ∧
        ∀ a ∈ as, a ∈ [.tick, .rearm, .cancelled, .remove]) ∧
      ∀ as s', (loadLts hz).Run s as s' → (∀ a ∈ as, ¬ a.IsLoad) →
        s'.core.owner ≠ .up ∧ s'.core.runs ≤ s.core.runs + 1) := by
  obtain ⟨hcounted, htogether⟩ := together_inductive.reachable hs
  have hloaded : s.core.owner ≠ .down → s.place = .loaded := by
    intro howner
    by_contra hne
    exact howner (htogether.owner.mpr hne)
  refine ⟨fun hplace => ?_, fun howner => ⟨?_, fun as s' hrun has => ?_⟩⟩
  · have hdown := htogether.owner.mpr hplace
    rcases hwork : s.core.work with _ | due | due | due
    · rfl
    · have hup := (hcounted.queued hwork).1
      rw [hdown] at hup
      cases hup
    · exact absurd hdown (hcounted.running hwork).1
    · exact absurd hdown (hcounted.rearming hwork)
  · have hplace := hloaded (by simp [howner])
    rcases hwork : s.core.work with _ | due | due | due
    · obtain ⟨s', hrun, hoff⟩ := exit_of_idle hz hplace howner hwork
      exact ⟨_, s', hrun, hoff, by simp⟩
    · have hup := (hcounted.queued hwork).1
      rw [howner] at hup
      cases hup
    · obtain ⟨s', hrun, hoff⟩ := exit_of_running hz hplace howner hwork
      exact ⟨_, s', hrun, hoff, by simp⟩
    · obtain ⟨s', hrun, hoff⟩ := exit_of_rearming hz hplace howner hwork
      exact ⟨_, s', hrun, hoff, by simp⟩
  · have hborn : s.place ≠ .born := by
      rw [hloaded (by simp [howner])]
      simp
    have hinv := (together_inductive.restrict fun _ a => ¬ a.IsLoad).run
      (J := Ending (s.core.runs + s.core.work.pending))
      (fun hI hJ hstep => hJ.step hI.1 hstep.1 hstep.2) ⟨hcounted, htogether⟩
      ⟨hborn, by simp [howner], rfl⟩ (hrun.to_restrict has)
    have hruns := hinv.2.runs
    have hpending : s.core.work.pending ≤ 1 := by
      cases s.core.work <;> simp [DelayedWork.Work.pending]
    exact ⟨hinv.2.owner, by omega⟩

/-- The module is unloaded while a worker is about to tick. -/
theorem monster_exit_ticking :
    ∃ s, (loadLts 100).Reachable s ∧ s.core.owner = .canceling ∧ s.core.work = .running 100 ∧
      (∃ as s', (loadLts 100).Run s as s' ∧ s'.place = .off ∧
        ∀ a ∈ as, a ∈ [.tick, .rearm, .cancelled, .remove]) ∧
      ∀ as s', (loadLts 100).Run s as s' → (∀ a ∈ as, ¬ a.IsLoad) →
        s'.core.owner ≠ .up ∧ s'.core.runs ≤ s.core.runs + 1 := by
  have hrun : ∃ s, ((loadLts 100).restrict fun _ _ => True).Reachable s ∧
      (s.core.owner, s.core.work) = (.canceling, .running 100) :=
    Lts.exists_reachable_of_map
      [.load ⟨poupoule, 20, 90⟩ true, .schedule, .pass 100, .execute, .exit] _ (by decide +kernel)
  obtain ⟨s, hs, hobs⟩ := hrun
  have howner : s.core.owner = .canceling := congrArg Prod.fst hobs
  exact ⟨s, hs.of_restrict, howner, congrArg Prod.snd hobs,
    (monster_exit hs.of_restrict).2 howner⟩

end PocketMonster

end KernelModules
