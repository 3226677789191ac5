import KernelModules.BuggyDevice

/-!
# Wake-ups of `buggy_device.c`

A reader looks at `data_size` once more when it is on the queue, and a write calls
`wake_up_interruptible` after it has stored its count. That neither of them takes the lock for it
does no harm: no wake-up is lost.

* `Pc.Asleep` — on the queue, past the last look at `data_size`;
* `stmt_wake` — what a statement does to that;
* `wake_due` — **while such a reader sleeps and there is a message, a write has still to wake it**,
  and then the reader gets to its copy.
-/

namespace KernelModules

namespace BuggyDevice

variable {Tid Fid : Type*} [DecidableEq Tid] [DecidableEq Fid]

/-- On the queue, past the last look at `data_size` -/
def Pc.Asleep : Pc Fid → Prop
  | .waitCommitted _ | .asleep _ => True
  | _ => False

omit [DecidableEq Fid] in
/-- Nobody sleeps through a wake-up. -/
theorem Pc.not_asleep_woken (p : Pc Fid) : ¬ p.woken.Asleep := by
  cases p <;> exact id

omit [DecidableEq Tid] [DecidableEq Fid] in
/-- **One statement**: `data_size` becomes positive only where a wake-up follows, and a reader
falls asleep only when it is not. -/
theorem stmt_wake {t : Tid} {d d' : Shared Tid} {p p' : Pc Fid} (h : stmt t d p = some (d', p')) :
    (∃ f count, p' = .wake f count) ∨
      (0 < d'.dataSize → 0 < d.dataSize ∧ (p'.Asleep → p.Asleep)) ∧
        ∀ f count, p ≠ .wake f count := by
  unfold stmt at h
  split at h
  case h_1 =>
    obtain ⟨-, h⟩ := Option.ite_none_right_eq_some.mp h
    cases h
    exact .inr ⟨fun hpos => ⟨hpos, id⟩, nofun⟩
  case h_6 f =>
    cases h
    refine .inr ⟨fun hpos => ⟨hpos, ?_⟩, nofun⟩
    rw [if_pos hpos]
    exact id
  case h_10 =>
    cases h
    exact .inr ⟨fun hpos => absurd hpos (by decide : ¬ (0 : Int32) < 0), nofun⟩
  case h_12 =>
    split at h <;> cases h <;> exact .inr ⟨fun hpos => ⟨hpos, id⟩, nofun⟩
  case h_13 f count =>
    cases h
    exact .inl ⟨f, count, rfl⟩
  case h_14 | h_15 | h_16 | h_17 => cases h
  all_goals
    cases h
    refine .inr ⟨fun hpos => ⟨hpos, ?_⟩, nofun⟩
    first
    | exact id
    | split <;> exact id

/-- While a reader sleeps and there is a message, a write is at `wake_up_interruptible`. -/
def WakeDue (s : State Tid Fid) : Prop :=
  0 < s.shared.dataSize → ∀ t, (s.pc t).Asleep → ∃ w f count, s.pc w = .wake f count

omit [DecidableEq Fid] in
/-- A task that moves on and neither falls asleep nor leaves out a wake-up. -/
theorem WakeDue.goto {s : State Tid Fid} (hs : WakeDue s) {t : Tid} {p : Pc Fid}
    (hp : p.Asleep → (s.pc t).Asleep) (ht : ∀ f count, s.pc t ≠ .wake f count)
    (hpos : 0 < s.shared.dataSize) {u : Tid} (hu : ((s.goto t p).pc u).Asleep) :
    ∃ w f count, (s.goto t p).pc w = .wake f count := by
  have hasleep : (s.pc u).Asleep := by
    by_cases hut : u = t
    · subst hut
      exact hp (by simpa using hu)
    · rwa [State.goto_pc_ne s hut] at hu
  obtain ⟨w, f, count, hw⟩ := hs hpos u hasleep
  refine ⟨w, f, count, ?_⟩
  have hwt : w ≠ t := by
    rintro rfl
    exact ht f count hw
  rw [State.goto_pc_ne s hwt, hw]

/-- Every step keeps that. -/
theorem wakeDue_inductive : (buggyLts Tid Fid).Inductive WakeDue where
  init := by
    rintro s rfl - t ht
    exact ht.elim
  step := by
    intro s s' a hs hstep
    cases step_of_next hstep with
    | openFile _ _ | release _ _ | setBlocking _ => exact hs
    | read hpc _ | write hpc _ =>
      exact fun hpos u hu => hs.goto nofun (by rw [hpc]; nofun) hpos hu
    | reset _ => exact fun hpos => absurd hpos (by decide : ¬ (0 : Int32) < 0)
    | readReturn hpc => exact fun hpos u hu => hs.goto nofun (by rw [hpc]; nofun) hpos hu
    | wake _ => exact fun _ u hu => absurd hu (Pc.not_asleep_woken _)
    | @stmt t p p' d hpc hstmt =>
      subst hpc
      obtain ⟨f, count, rfl⟩ | ⟨hkeep, hne⟩ := stmt_wake hstmt
      · exact fun _ _ _ => ⟨t, f, count, State.goto_pc_self ..⟩
      · exact fun hpos u hu => hs.goto (hkeep hpos).2 hne (hkeep hpos).1 hu
    | fault hpc => exact fun hpos u hu => hs.goto nofun (by rw [hpc]; nofun) hpos hu
    | signal hpc =>
      refine fun hpos u hu => hs.goto nofun (fun f count heq => ?_) hpos hu
      rw [heq] at hpc
      obtain hpc | hpc | hpc := hpc <;> cases hpc

omit [DecidableEq Tid] [DecidableEq Fid] in
theorem Pc.Asleep.eq {p : Pc Fid} (h : p.Asleep) : ∃ f, p = .waitCommitted f ∨ p = .asleep f := by
  cases p with
  | waitCommitted f => exact ⟨f, .inl rfl⟩
  | asleep f => exact ⟨f, .inr rfl⟩
  | _ => exact h.elim

/-- Who is awake and finds a message goes on to copy it. -/
theorem run_to_readSize {s : State Tid Fid} {t : Tid} {f : Fid} (ht : s.pc t = .waitPrepare f)
    (hpos : 0 < s.shared.dataSize) :
    ∃ s', (buggyLts Tid Fid).Run s [.step t, .step t] s' ∧ s'.pc t = .readSize f := by
  have h₁ : next s (.step t) = some { s.goto t (.waitQueued f) with log := s.log ++ [] } := by
    simp [next, ht, stmt, Pc.event, State.goto]
  have h₂ : next { s.goto t (.waitQueued f) with log := s.log ++ [] } (.step t) =
      some ((({ s with log := s.log ++ [] } : State Tid Fid).goto t (.waitQueued f)).goto t
        (.readSize f)) := by
    simp [next, stmt, Pc.event, State.goto, hpos]
  exact ⟨_, (Lts.Run.nil.snoc h₁).snoc h₂, State.goto_pc_self ..⟩

/-- **No wake-up is lost**, although neither writes nor the wake-up take the lock: while a reader
sleeps and `data_size` is positive, a write has stored its count and has still to call
`wake_up_interruptible`; the call puts the reader back to its loop, and by its own steps the
reader gets from there to its copy. -/
theorem wake_due {s : State Tid Fid} (hs : (buggyLts Tid Fid).Reachable s) {t : Tid}
    (ht : (s.pc t).Asleep) (hpos : 0 < s.shared.dataSize) :
    ∃ w f count f' s' s'', s.pc w = .wake f count ∧ next s (.step w) = some s' ∧
      s'.pc t = .waitPrepare f' ∧ (buggyLts Tid Fid).Run s' [.step t, .step t] s'' ∧
      s''.pc t = .readSize f' := by
  obtain ⟨w, f, count, hw⟩ := wakeDue_inductive.reachable hs hpos t ht
  obtain ⟨f', hsleep⟩ := ht.eq
  have hwt : t ≠ w := by
    rintro rfl
    obtain h | h := hsleep <;> cases hw.symm.trans h
  let s' : State Tid Fid := { s.leave w f with
    pc := fun u => ((s.leave w f).pc u).woken, log := s.log ++ [.written w count] }
  have hwake : next s (.step w) = some s' := by
    simp only [next, hw]
    rfl
  have hpc : s'.pc t = .waitPrepare f' := by
    have hkeep : (s.leave w f).pc t = s.pc t := State.goto_pc_ne s hwt _
    change ((s.leave w f).pc t).woken = _
    rw [hkeep]
    obtain h | h := hsleep <;> rw [h] <;> rfl
  obtain ⟨s'', hrun, hread⟩ := run_to_readSize hpc hpos
  exact ⟨w, f, count, f', s', s'', hw, hwake, hpc, hrun, hread⟩

/-- A reader goes to sleep, and a write of one byte stores its count. -/
def sleeper : List (Act ℕ ℕ) :=
  [.openFile 0 0, .openFile 1 1, .openFile 2 2, .release 2 2, .read 0 0] ++
    List.replicate 7 (.step 0) ++ .write 1 1 (.ofList [87]) 1 :: List.replicate 3 (.step 1)

/-- A run it is used in. -/
theorem wake_due_sleeper : ∃ s w f count f' s' s'', (buggyLts ℕ ℕ).Run start sleeper s ∧
    s.pc 0 = .asleep 0 ∧ s.pc w = .wake f count ∧ next s (.step w) = some s' ∧
    s'.pc 0 = .waitPrepare f' ∧ (buggyLts ℕ ℕ).Run s' [.step 0, .step 0] s'' ∧
    s''.pc 0 = .readSize f' := by
  obtain ⟨s, hrun, hs⟩ := Lts.exists_run_of_map sleeper
    (fun s : State ℕ ℕ => (s.pc 0, s.shared.dataSize))
    (rfl : (sleeper.foldlM next start).map (fun s => (s.pc 0, s.shared.dataSize)) =
      some (.asleep 0, 1))
  obtain ⟨hpc, hsize⟩ := Prod.mk.inj hs
  obtain ⟨w, f, count, f', s', s'', h⟩ := wake_due (hrun.reachable rfl) (t := 0)
    (by rw [hpc]; trivial) (by rw [hsize]; decide)
  exact ⟨s, w, f, count, f', s', s'', hrun, hpc, h⟩

end BuggyDevice

end KernelModules
