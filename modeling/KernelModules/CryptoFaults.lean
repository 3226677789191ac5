import KernelModules.CryptoScore

/-!
# Failed readings of `crypto_challenge.c`

`read_temp` returns 0 when the sensor fails. Nothing tells this 0 from a temperature, and the
temperatures of the first sample are what the later ones are compared with. Here each core has
one temperature throughout and only the sensors fail.

* `recorded`, `Readings` — which readings fail, and what is stored then;
* `RecordedInv` — the samples of such a run;
* `Measured.thermalCost_eq_zero` — when there is no thermal cost;
* `fault_free_iff` — when the failures do not matter, over every run.
-/

namespace KernelModules

namespace CryptoChallenge

/-! ## Readings that fail -/

/-- Which readings fail, by sample and core. -/
abbrev Faults := ℕ → Cpu → Bool

variable {tz : Cpu → Bool} {trueTemp : Cpu → Int32} {fails : Faults}

/-- What the sensor of a core returns for a sample. -/
def sensed (trueTemp : Cpu → Int32) (fails : Faults) (k : ℕ) (i : Cpu) : Option Int32 :=
  if fails k i then none else some (trueTemp i)

/-- What `sample_fn` stores for it. -/
def recorded (tz : Cpu → Bool) (trueTemp : Cpu → Int32) (fails : Faults) (k : ℕ) (i : Cpu) :
    Int32 :=
  readTemp (tz i) (sensed trueTemp fails k i)

/-- What the callback is about to read, if it calls a sensor. -/
def CallbackPc.sensed (trueTemp : Cpu → Int32) (fails : Faults) :
    CallbackPc → Option (Option Int32)
  | .temps k (i :: _) => some (CryptoChallenge.sensed trueTemp fails k i)
  | .idle | .test | .ops _ | .temps _ [] | .ret => none

/-- The readings are those of constant temperatures, and fail as given. -/
def Readings (trueTemp : Cpu → Int32) (fails : Faults) (s : State) : Act → Prop
  | .callback reading => s.callback.sensed trueTemp fails = none ∨
      s.callback.sensed trueTemp fails = some reading
  | _ => True

instance (s : State) (a : Act) : Decidable (Readings trueTemp fails s a) :=
  match a with
  | .callback _ => inferInstanceAs (Decidable (_ ∨ _))
  | .worker _ | .ctrl _ _ | .fire | .wake _ | .runCtrl | .askWorker _ | .askCtrl | .delTimer =>
    isTrue trivial

/-- A failure of a sensor that is there is stored as 0. -/
theorem recorded_of_fails {k : ℕ} {i : Cpu} (h : fails k i = true) :
    recorded tz trueTemp fails k i = 0 := by
  rw [recorded, sensed, if_pos h, readTemp]
  exact ite_self _

theorem recorded_of_absent {k : ℕ} {i : Cpu} (h : tz i = false) :
    recorded tz trueTemp fails k i = 0 := by
  rw [recorded, readTemp, h]
  rfl

theorem recorded_of_ok {k : ℕ} {i : Cpu} (htz : tz i = true) (h : fails k i = false) :
    recorded tz trueTemp fails k i = trueTemp i := by
  rw [recorded, sensed, h, readTemp, htz]
  rfl

/-- Constant temperatures within bounds. -/
def InBounds (trueTemp : Cpu → Int32) : Prop :=
  ∀ i, 0 < trueTemp i ∧ trueTemp i ≤ thermalLimitMillic

theorem InBounds.recorded_bounds (h : InBounds trueTemp) (k : ℕ) (i : Cpu) :
    0 ≤ recorded tz trueTemp fails k i ∧
      recorded tz trueTemp fails k i ≤ thermalLimitMillic := by
  cases htz : tz i with
  | false =>
    rw [recorded_of_absent htz]
    exact ⟨Int32.le_refl 0, by decide⟩
  | true =>
    cases hfails : fails k i with
    | true =>
      rw [recorded_of_fails hfails]
      exact ⟨Int32.le_refl 0, by decide⟩
    | false =>
      rw [recorded_of_ok htz hfails]
      exact ⟨Int32.le_of_lt (h i).1, (h i).2⟩

/-- One sample is warmer than another where the other's reading failed, and its own did not. -/
theorem InBounds.recorded_le_iff (h : InBounds trueTemp) {j k : ℕ} {i : Cpu} :
    recorded tz trueTemp fails k i ≤ recorded tz trueTemp fails j i ↔
      (tz i = true → fails j i = true → fails k i = true) := by
  have hwarm : ¬trueTemp i ≤ 0 := Int32.not_le.mpr (h i).1
  cases htz : tz i with
  | false => simp [recorded_of_absent htz]
  | true =>
    cases hj : fails j i <;> cases hk : fails k i
    · simp [recorded_of_ok htz hj, recorded_of_ok htz hk]
    · simp [recorded_of_ok htz hj, recorded_of_fails hk, Int32.le_of_lt (h i).1]
    · simp [recorded_of_fails hj, recorded_of_ok htz hk, hwarm]
    · simp [recorded_of_fails hj, recorded_of_fails hk]

/-! ## The samples of such a run -/

/-- Every temperature that `sample_fn` has written is the one recorded. -/
structure RecordedInv (tz : Cpu → Bool) (trueTemp : Cpu → Int32) (fails : Faults) (s : State) :
    Prop where
  /-- `tz` -/
  zones : s.ctx.tz = tz
  /-- `samples` -/
  temp : ∀ k < s.ctx.sampleCount, ∀ i,
    (s.callback.sample = some k → i ∉ s.callback.unread) →
      (s.ctx.samples k).temp i = recorded tz trueTemp fails k i

theorem RecordedInv.callbackNext {s s' : State} {reading : Option Int32}
    (h : RecordedInv tz trueTemp fails s)
    (hreading : Readings trueTemp fails s (.callback reading))
    (hs : callbackNext s reading = some s') : RecordedInv tz trueTemp fails s' := by
  rw [CryptoChallenge.callbackNext] at hs
  split at hs
  · cases hs
  · next hp =>
    split at hs <;> cases hs
    · exact ⟨h.zones, fun k hk i _ => h.temp k hk i (by rw [hp]; rintro ⟨⟩)⟩
    · refine ⟨h.zones, fun k hk i hread => ?_⟩
      rcases Nat.lt_succ_iff_lt_or_eq.mp hk with hlt | rfl
      · exact h.temp k hlt i (by rw [hp]; rintro ⟨⟩)
      · exact (hread rfl (List.mem_finRange i)).elim
  · next k hp =>
    cases hs
    refine ⟨h.zones, fun k' hk' i hread => ?_⟩
    rw [Ctx.setOps_temp]
    refine h.temp k' hk' i ?_
    rw [hp]
    exact hread
  · next k i left hp =>
    cases hs
    refine ⟨h.zones, fun k' hk' i' hread => ?_⟩
    rw [Ctx.setTemp_temp]
    split
    · next hsame =>
      obtain ⟨rfl, rfl⟩ := hsame
      rw [Readings, hp] at hreading
      rcases hreading with hnone | hsome
      · cases hnone
      · rw [← Option.some.inj hsome, h.zones]
        rfl
    · next hother =>
      refine h.temp k' hk' i' ?_
      rw [hp]
      rintro ⟨⟩ hmem
      rcases List.mem_cons.mp hmem with rfl | hmem
      · exact hother ⟨rfl, rfl⟩
      · exact hread rfl hmem
  · next k hp =>
    cases hs
    refine ⟨h.zones, fun k' hk' i _ => h.temp k' hk' i ?_⟩
    rw [hp]
    rintro ⟨⟩ hmem
    cases hmem
  · next hp =>
    cases hs
    exact ⟨h.zones, fun k hk i _ => h.temp k hk i (by rw [hp]; rintro ⟨⟩)⟩

theorem RecordedInv.untouched {s s' : State} (h : RecordedInv tz trueTemp fails s)
    (hs : Untouched s s') (hzones : s'.ctx.tz = s.ctx.tz) :
    RecordedInv tz trueTemp fails s' := by
  refine ⟨hzones.trans h.zones, ?_⟩
  rw [hs.count, hs.samples, hs.callback]
  exact h.temp

theorem RecordedInv.step {s s' : State} {a : Act} (h : RecordedInv tz trueTemp fails s)
    (hsample : SampleInv s) (ha : Readings trueTemp fails s a) (hs : next s a = some s') :
    RecordedInv tz trueTemp fails s' := by
  cases step_of_next hs with
  | worker hw => cases hw <;> exact h.untouched ⟨rfl, rfl, rfl, rfl⟩ rfl
  | ctrl hc =>
    cases hc with
    | setCount hp =>
      have hearly := hsample.quiet.early (by rw [hp]; rfl)
      exact h.untouched ⟨hearly.2.2.symm, rfl, rfl, rfl⟩ rfl
    | _ => exact h.untouched ⟨rfl, rfl, rfl, rfl⟩ rfl
  | fire hf =>
    rw [next] at hs
    split at hs <;> cases hs
    next hp => exact ⟨h.zones, fun k hk i _ => h.temp k hk i (by rw [hp.2]; rintro ⟨⟩)⟩
  | callback _ => exact h.callbackNext ha hs
  | wake _ | runCtrl _ _ | askWorker | askCtrl | delTimer _ _ =>
    exact h.untouched ⟨rfl, rfl, rfl, rfl⟩ rfl

theorem recordedInv_inductive (tz : Cpu → Bool) (trueTemp : Cpu → Int32) (fails : Faults) :
    ((lts tz).restrict (Readings trueTemp fails)).Inductive fun s =>
      SampleInv s ∧ RecordedInv tz trueTemp fails s :=
  ((sampleInv_inductive tz).restrict _).and
    (fun hi => by
      cases hi
      exact ⟨rfl, fun k hk => absurd hk (Nat.not_lt_zero k)⟩)
    fun hsample h hs => h.step hsample hs.1 hs.2

/-! ## The thermal cost -/

theorem penaltyNat_eq_zero {initTemp t : Int32} : penaltyNat initTemp t = 0 ↔ t ≤ initTemp := by
  rw [penaltyNat, Nat.pow_eq_zero, Int32.le_iff_toInt_le]
  omega

/-- There is no cost if no sample is warmer than the first one. -/
theorem costNat_eq_zero {c : Ctx} : costNat c = 0 ↔
    ∀ k, 1 ≤ k → k < c.sampleCount → ∀ core,
      (c.samples k).temp core ≤ (c.samples 0).temp core := by
  simp only [costNat, sampleNat, List.sum_eq_zero_iff_forall_eq_nat, List.forall_mem_map,
    penaltyNat_eq_zero, List.mem_range'_1, List.mem_finRange, true_imp_iff]
  refine ⟨fun h k hpos hk => h k ⟨hpos, by omega⟩, fun h k hk => h k hk.1 (by omega)⟩

theorem Measured.thermalCost_eq_zero {c : Ctx} (h : Measured c) : thermalCost c = 0 ↔
    ∀ k, 1 ≤ k → k < c.sampleCount → ∀ core,
      (c.samples k).temp core ≤ (c.samples 0).temp core := by
  rw [← costNat_eq_zero, ← h.toNat_thermalCost]
  exact UInt64.toNat_inj.symm

/-! ## Over all runs -/

/-- The samples when `compute_score` is executed. -/
structure Taken (tz : Cpu → Bool) (trueTemp : Cpu → Int32) (fails : Faults) (c : Ctx) : Prop where
  /-- not too many -/
  count : c.sampleCount ≤ maxSamples
  /-- as recorded -/
  temp : ∀ k < c.sampleCount, ∀ i, (c.samples k).temp i = recorded tz trueTemp fails k i
  /-- none is too hot -/
  valid : c.invalid = false

theorem taken_of_reachable (hT : InBounds trueTemp) {s : State}
    (hs : ((lts tz).restrict (Readings trueTemp fails)).Reachable s) (hp : s.ctrl = .score) :
    Taken tz trueTemp fails s.ctx := by
  obtain ⟨hsample, hrecorded⟩ := (recordedInv_inductive tz trueTemp fails).reachable hs
  have hidle := ((inv_inductive tz).reachable hs.of_restrict).idle_of_score hp
  have htemp : ∀ k < s.ctx.sampleCount, ∀ i,
      (s.ctx.samples k).temp i = recorded tz trueTemp fails k i := by
    intro k hk i
    refine hrecorded.temp k hk i ?_
    rw [hidle]
    rintro ⟨⟩
  refine ⟨hsample.store.count, htemp, Bool.eq_false_of_not_eq_true fun hinvalid => ?_⟩
  obtain ⟨k, hk, i, hot⟩ := hsample.store.hot.mp hinvalid
  rw [htemp k hk i] at hot
  exact Int32.not_le.mpr hot (hT.recorded_bounds k i).2

theorem Taken.measured {c : Ctx} (h : Taken tz trueTemp fails c) (hT : InBounds trueTemp)
    (hpos : 1 ≤ c.sampleCount) : Measured c := by
  refine ⟨hpos, h.count, fun k hk core => ?_⟩
  rw [h.temp k hk core]
  obtain ⟨hlow, hhigh⟩ : 0 ≤ recorded tz trueTemp fails k core ∧
      recorded tz trueTemp fails k core ≤ thermalLimitMillic := hT.recorded_bounds k core
  have hlow := Int32.le_iff_toInt_le.mp hlow
  rw [show (0 : Int32).toInt = 0 from rfl] at hlow
  exact ⟨by omega, Int32.le_iff_toInt_le.mp hhigh⟩

/-- When a sensor fails in the first sample it does so in all. -/
def Lasting (tz : Cpu → Bool) (fails : Faults) (n : ℕ) : Prop :=
  ∀ i, tz i = true → fails 0 i = true → ∀ k < n, fails k i = true

theorem Taken.thermalCost_eq_zero {c : Ctx} (h : Taken tz trueTemp fails c)
    (hT : InBounds trueTemp) (hpos : 1 ≤ c.sampleCount) :
    thermalCost c = 0 ↔ Lasting tz fails c.sampleCount := by
  rw [(h.measured hT hpos).thermalCost_eq_zero]
  have hiff : ∀ k, k < c.sampleCount → ∀ i,
      ((c.samples k).temp i ≤ (c.samples 0).temp i ↔
        (tz i = true → fails 0 i = true → fails k i = true)) := by
    intro k hk i
    rw [h.temp k hk i, h.temp 0 hpos i]
    exact hT.recorded_le_iff
  refine ⟨fun hcool i htz hfirst k hk => ?_, fun hlasting k hpos hk i => ?_⟩
  · cases k with
    | zero => exact hfirst
    | succ k => exact (hiff _ hk i).mp (hcool _ (Nat.succ_pos k) hk i) htz hfirst
  · exact (hiff k hk i).mpr fun htz hfirst => hlasting i htz hfirst k hk

/-- The same number of samples, with the same operations. -/
def SameOps (c c' : Ctx) : Prop :=
  c'.sampleCount = c.sampleCount ∧ ∀ k < c.sampleCount, (c'.samples k).ops = (c.samples k).ops

/-- The score depends on the operations and the thermal cost only. -/
theorem SameOps.computeScore {c c' : Ctx} (h : SameOps c c') (hpos : 1 ≤ c.sampleCount)
    (hvalid : c'.invalid = c.invalid) (hcost : thermalCost c' = thermalCost c)
    (junk junk' : UInt64) : computeScore junk' c' = computeScore junk c := by
  obtain ⟨hcount, hops⟩ := h
  have hne : c.sampleCount ≠ 0 := Nat.ne_of_gt hpos
  simp only [CryptoChallenge.computeScore, hvalid, hcost, hcount, if_neg hne,
    hops 0 hpos, hops (c.sampleCount - 1) (by omega)]

/-- **When failed readings do not matter.** The temperatures are constant and not too high, and
at least one sample is taken. There is no thermal cost if and only if each sensor that fails in
the first sample fails in all; and then the score is that of any run with the same operations
where no sensor fails. -/
theorem fault_free_iff (hT : InBounds trueTemp) {s : State}
    (hs : ((lts tz).restrict (Readings trueTemp fails)).Reachable s) (hp : s.ctrl = .score)
    (hpos : 1 ≤ s.ctx.sampleCount) :
    (thermalCost s.ctx = 0 ↔ Lasting tz fails s.ctx.sampleCount) ∧
    (Lasting tz fails s.ctx.sampleCount → ∀ s₀ : State,
      ((lts tz).restrict (Readings trueTemp fun _ _ => false)).Reachable s₀ → s₀.ctrl = .score →
      SameOps s₀.ctx s.ctx → ∀ junk,
        (s.score junk).ctx.finalScore = (s₀.score junk).ctx.finalScore) := by
  have htaken := taken_of_reachable hT hs hp
  have hiff := htaken.thermalCost_eq_zero hT hpos
  refine ⟨hiff, fun hlasting s₀ hs₀ hp₀ hsame junk => ?_⟩
  have hpos₀ : 1 ≤ s₀.ctx.sampleCount := hsame.1 ▸ hpos
  have htaken₀ := taken_of_reachable hT hs₀ hp₀
  have hzero₀ := (htaken₀.thermalCost_eq_zero hT hpos₀).mpr fun _ _ hfalse => (by cases hfalse)
  refine hsame.computeScore hpos₀ ?_ ?_ junk junk
  · rw [htaken.valid, htaken₀.valid]
  · rw [hzero₀, hiff.mpr hlasting]

/-- The first sensor fails in the first sample. -/
def firstFails : Faults := fun k i => k == 0 && i == core0

/-- It fails in all of them. -/
def alwaysFails : Faults := fun _ i => i == core0

/-- Two samples at forty degrees; `first` and `second` is what the first sensor returns. -/
def coldStart (first second : Option Int32) : List Act :=
  twoSamples (first :: List.replicate 3 (some 40000)) (second :: List.replicate 3 (some 40000))

/-- What is seen of such a run. -/
def outcome (s : State) : CtrlPc × ℕ × UInt64 × UInt64 × UInt64 × UInt64 :=
  (s.ctrl, s.ctx.sampleCount, (s.ctx.samples 0).ops, (s.ctx.samples 1).ops, thermalCost s.ctx,
    (s.score 0).ctx.finalScore)

/-- The score is 6 where it would be 100000. -/
theorem faults_distort : ∃ s s₀ : State,
    ((lts fun _ => true).restrict (Readings (fun _ => 40000) firstFails)).Reachable s ∧
    ((lts fun _ => true).restrict (Readings (fun _ => 40000) fun _ _ => false)).Reachable s₀ ∧
      s.ctrl = .score ∧ s₀.ctrl = .score ∧ SameOps s₀.ctx s.ctx ∧
      thermalCost s.ctx = 1600000000 ∧ (s.score 0).ctx.finalScore = 6 ∧
      (s₀.score 0).ctx.finalScore = 100000 := by
  obtain ⟨s, hs, hout⟩ : ∃ s : State,
      ((lts fun _ => true).restrict (Readings (fun _ => 40000) firstFails)).Reachable s ∧
        outcome s = (.score, 2, 0, 60, 1600000000, 6) :=
    Lts.exists_reachable_of_map (coldStart none (some 40000)) outcome (by decide +kernel)
  obtain ⟨s₀, hs₀, hout₀⟩ : ∃ s : State,
      ((lts fun _ => true).restrict (Readings (fun _ => 40000) fun _ _ => false)).Reachable s ∧
        outcome s = (.score, 2, 0, 60, 0, 100000) :=
    Lts.exists_reachable_of_map (coldStart (some 40000) (some 40000)) outcome (by decide +kernel)
  simp only [outcome, Prod.mk.injEq] at hout hout₀
  obtain ⟨hp, hcount, hfirst, hlast, hcost, hscore⟩ := hout
  obtain ⟨hp₀, hcount₀, hfirst₀, hlast₀, -, hscore₀⟩ := hout₀
  refine ⟨s, s₀, hs, hs₀, hp, hp₀, ⟨hcount.trans hcount₀.symm, fun k hk => ?_⟩, hcost, hscore,
    hscore₀⟩
  rw [hcount₀] at hk
  rcases Nat.le_one_iff_eq_zero_or_eq_one.mp (Nat.le_of_lt_succ hk) with rfl | rfl
  · rw [hfirst, hfirst₀]
  · rw [hlast, hlast₀]

/-- A sensor that always fails costs nothing. -/
theorem fault_free_iff_coldStart : ∃ s : State,
    ((lts fun _ => true).restrict (Readings (fun _ => 40000) alwaysFails)).Reachable s ∧
      (thermalCost s.ctx = 0 ↔ Lasting (fun _ => true) alwaysFails s.ctx.sampleCount) ∧
      (s.score 0).ctx.finalScore = 100000 := by
  obtain ⟨s, hs, hout⟩ : ∃ s : State,
      ((lts fun _ => true).restrict (Readings (fun _ => 40000) alwaysFails)).Reachable s ∧
        outcome s = (.score, 2, 0, 60, 0, 100000) :=
    Lts.exists_reachable_of_map (coldStart none none) outcome (by decide +kernel)
  simp only [outcome, Prod.mk.injEq] at hout
  obtain ⟨hp, hcount, -, -, -, hscore⟩ := hout
  exact ⟨s, hs, (fault_free_iff (fun _ => by decide) hs hp (by omega)).1, hscore⟩

end CryptoChallenge

end KernelModules
