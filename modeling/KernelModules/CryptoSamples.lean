import KernelModules.CryptoLedger
import Mathlib.Order.Monotone.Basic

/-!
# The samples of `crypto_challenge.c`

`sample_fn` counts a sample before it writes it and arms its timer again only at its end, while
the workers go on counting. So the samples are looked at with the place of the callback: the
last one may be half written.

* `StoreInv` — the samples, their number and `invalid`, by the place of the callback;
* `OpsInv` — the operations of the samples do not go down, as long as `ops` has not wrapped;
* `QuietInv`, `Finished` — the timer before it is armed, and after `samples` is full;
* `sampling_consistent` — all of it, over every run.
-/

namespace KernelModules

namespace CryptoChallenge

variable {tz : Cpu → Bool}

/-! ## Where the callback is -/

/-- The sample that is being written. -/
def CallbackPc.sample : CallbackPc → Option ℕ
  | .ops k | .temps k _ => some k
  | .idle | .test | .ret => none

/-- Its temperatures that are still to be read. -/
def CallbackPc.unread : CallbackPc → List Cpu
  | .ops _ => List.finRange maxCores
  | .temps _ left => left
  | .idle | .test | .ret => []

/-- The callback has not got to `mod_timer` or a `return` yet. -/
def CallbackPc.before : CallbackPc → Bool
  | .test | .ops _ | .temps _ _ => true
  | .idle | .ret => false

/-- How many samples have got their operations. -/
def State.withOps (s : State) : ℕ :=
  match s.callback with
  | .ops k => k
  | .idle | .test | .temps _ _ | .ret => s.ctx.sampleCount

/-- How many samples are stored, with their temperatures. -/
def State.stored (s : State) : ℕ :=
  match s.callback with
  | .ops k | .temps k (_ :: _) => k
  | .idle | .test | .temps _ [] | .ret => s.ctx.sampleCount

/-- How often the workers have counted an operation. -/
def State.total (s : State) : ℕ := ∑ i, s.incs i

/-- Some sample is too hot. -/
def Ctx.Hot (c : Ctx) : Prop :=
  ∃ k < c.sampleCount, ∃ i, thermalLimitMillic < (c.samples k).temp i

/-! ## The timer around the run -/

/-- The timer before it is armed, and while its callback runs. -/
structure QuietInv (s : State) : Prop where
  /-- before `mod_timer` in `start_sampling` -/
  early : s.ctrl.armed = false →
    s.pending = false ∧ s.callback = .idle ∧ s.ctx.sampleCount = 0
  /-- before `mod_timer` in `sample_fn` -/
  before : s.callback.before = true → s.pending = false

theorem QuietInv.armed {s : State} (h : QuietInv s) (hbusy : s.callback ≠ .idle) :
    s.ctrl.armed = true := by
  cases harmed : s.ctrl.armed
  · exact (hbusy (h.early harmed).2.1).elim
  · rfl

theorem QuietInv.ctrlStep {s s' : State} (h : QuietInv s) (hs : CtrlStep s s') :
    QuietInv s' := by
  have hbefore : s.ctrl.armed = false → s.callback.before = true → False := by
    intro hunarmed hbefore
    rw [(h.early hunarmed).2.1] at hbefore
    cases hbefore
  cases hs with
  | begin hp _ =>
    exact ⟨fun _ => h.early (by rw [hp]; rfl), h.before⟩
  | setCount hp =>
    have hearly := h.early (by rw [hp]; rfl)
    exact ⟨fun _ => ⟨hearly.1, hearly.2.1, rfl⟩, h.before⟩
  | setupTimer hp =>
    exact ⟨fun _ => ⟨rfl, (h.early (by rw [hp]; rfl)).2⟩, fun _ => rfl⟩
  | armTimer hp =>
    exact ⟨fun hunarmed => (by cases hunarmed), fun hb => (hbefore (by rw [hp]; rfl) hb).elim⟩
  | delTimer _ _ => exact ⟨fun hunarmed => (by cases hunarmed), fun _ => rfl⟩
  | _ => exact ⟨fun hunarmed => (by cases hunarmed), h.before⟩

theorem QuietInv.timerStep {s s' : State} (h : QuietInv s) (hs : TimerStep s s') :
    QuietInv s' := by
  have harmed : s.ctrl.armed = true := by
    cases hs with
    | fire hp _ =>
      cases harmed : s.ctrl.armed
      · cases (h.early harmed).1.symm.trans hp
      · rfl
    | full hp | take hp _ | ops hp | temp hp | rearm hp | ret hp =>
      exact h.armed (by rw [hp]; simp)
  refine ⟨fun hunarmed => ?_, fun hbefore => ?_⟩
  · rw [hs.flags.1, harmed] at hunarmed
    cases hunarmed
  · cases hs with
    | fire _ _ => rfl
    | take hp _ | ops hp | temp hp => exact h.before (by rw [hp]; rfl)
    | full _ | rearm _ | ret _ => cases hbefore

theorem QuietInv.step {s s' : State} {a : Act} (h : QuietInv s) (hs : Step s a s') :
    QuietInv s' := by
  cases hs with
  | worker hs => cases hs <;> exact ⟨h.early, h.before⟩
  | ctrl hs => exact h.ctrlStep hs
  | fire hs | callback hs => exact h.timerStep hs
  | wake _ | askWorker | askCtrl => exact ⟨h.early, h.before⟩
  | runCtrl hp _ => exact ⟨fun _ => h.early (by rw [hp]; rfl), h.before⟩
  | delTimer _ _ => exact ⟨fun hunarmed => ⟨rfl, (h.early hunarmed).2⟩, fun _ => rfl⟩

/-- `sample_fn` has returned, or is about to, and has not armed the timer. -/
structure Finished (s : State) : Prop where
  /-- `start_sampling` does not arm it any more -/
  armed : s.ctrl.armed = true
  /-- nobody has armed it -/
  pending : s.pending = false
  /-- the callback does not arm it -/
  callback : s.callback = .test ∧ maxSamples ≤ s.ctx.sampleCount ∨ s.callback = .ret ∨
    s.callback = .idle

theorem Finished.timerStep {s s' : State} (h : Finished s) (hs : TimerStep s s') :
    Finished s' := by
  have hcallback := h.callback
  cases hs with
  | fire hp _ => cases h.pending.symm.trans hp
  | full _ => exact ⟨h.armed, h.pending, .inr (.inl rfl)⟩
  | take hp hcount =>
    simp only [hp, true_and, reduceCtorEq, or_false] at hcallback
    exact absurd hcount (Nat.not_lt.mpr hcallback)
  | ops hp | temp hp | rearm hp => simp [hp] at hcallback
  | ret _ => exact ⟨h.armed, h.pending, .inr (.inr rfl)⟩

theorem Finished.step {s s' : State} {a : Act} (h : Finished s) (hs : Step s a s') :
    Finished s' := by
  cases hs with
  | worker hs => cases hs <;> exact ⟨h.armed, h.pending, h.callback⟩
  | ctrl hs =>
    have harmed := h.armed
    cases hs with
    | begin hp _ | setCount hp | setupTimer hp | armTimer hp =>
      rw [hp] at harmed
      cases harmed
    | delTimer _ _ => exact ⟨rfl, rfl, h.callback⟩
    | _ => exact ⟨rfl, h.pending, h.callback⟩
  | fire hs | callback hs => exact h.timerStep hs
  | wake _ | askWorker | askCtrl => exact ⟨h.armed, h.pending, h.callback⟩
  | runCtrl hp _ =>
    have harmed := h.armed
    rw [hp] at harmed
    cases harmed
  | delTimer _ _ => exact ⟨h.armed, rfl, h.callback⟩

/-! ## One sample is written -/

section SetSample

variable (c : Ctx) (k : ℕ)

theorem Ctx.setSample_of_ne (f : Sample → Sample) {j : ℕ} (h : j ≠ k) :
    (c.setSample k f).samples j = c.samples j := by
  simp [Ctx.setSample, h]

/-- Writing the operations leaves the temperatures. -/
theorem Ctx.setOps_temp (n : UInt64) (j : ℕ) :
    ((c.setSample k fun smp => { smp with ops := n }).samples j).temp = (c.samples j).temp := by
  by_cases hj : j = k
  · simp [Ctx.setSample, hj]
  · rw [c.setSample_of_ne k _ hj]

/-- Writing a temperature leaves the others. -/
theorem Ctx.setTemp_temp (i : Cpu) (t : Int32) (j : ℕ) (i' : Cpu) :
    ((c.setTemp k i t).samples j).temp i' =
      if j = k ∧ i' = i then t else (c.samples j).temp i' := by
  by_cases hj : j = k
  · by_cases hi : i' = i <;> simp [Ctx.setTemp, Ctx.setSample, hj, hi]
  · simp [Ctx.setTemp, Ctx.setSample, hj]

theorem Ctx.setTemp_of_ne (i : Cpu) (t : Int32) {j : ℕ} (h : j ≠ k) :
    (c.setTemp k i t).samples j = c.samples j :=
  c.setSample_of_ne k (fun smp => { smp with temp := Function.update smp.temp i t }) h

/-- Writing a temperature leaves the operations. -/
theorem Ctx.setTemp_ops (i : Cpu) (t : Int32) (j : ℕ) :
    ((c.setTemp k i t).samples j).ops = (c.samples j).ops := by
  by_cases hj : j = k <;> simp [Ctx.setTemp, Ctx.setSample, hj]

end SetSample

/-! ## Only the timer writes samples -/

/-- The samples and the callback stay as they are. -/
structure Untouched (s s' : State) : Prop where
  /-- `sample_count` -/
  count : s'.ctx.sampleCount = s.ctx.sampleCount
  /-- `samples` -/
  samples : s'.ctx.samples = s.ctx.samples
  /-- `invalid` -/
  invalid : s'.ctx.invalid = s.ctx.invalid
  /-- the callback -/
  callback : s'.callback = s.callback

theorem Untouched.withOps {s s' : State} (h : Untouched s s') : s'.withOps = s.withOps := by
  rw [State.withOps, State.withOps, h.callback, h.count]

theorem Untouched.stored {s s' : State} (h : Untouched s s') : s'.stored = s.stored := by
  rw [State.stored, State.stored, h.callback, h.count]

/-- A step that is not the timer's leaves the samples alone: `start_sampling` takes back the
number of samples when there are none. -/
theorem Step.untouched {s s' : State} {a : Act} (h : QuietInv s) (hs : Step s a s') :
    TimerStep s s' ∨ Untouched s s' := by
  cases hs with
  | worker hs => cases hs <;> exact .inr ⟨rfl, rfl, rfl, rfl⟩
  | ctrl hs =>
    cases hs with
    | setCount hp =>
      have hearly := h.early (by rw [hp]; rfl)
      exact .inr ⟨hearly.2.2.symm, rfl, rfl, rfl⟩
    | _ => exact .inr ⟨rfl, rfl, rfl, rfl⟩
  | fire hs | callback hs => exact .inl hs
  | wake _ | runCtrl _ _ | askWorker | askCtrl | delTimer _ _ => exact .inr ⟨rfl, rfl, rfl, rfl⟩

/-! ## The samples, their number and `invalid` -/

/-- The samples are in bounds, those not taken yet are blank, and `invalid` is right. -/
structure StoreInv (s : State) : Prop where
  /-- `sample_count` -/
  count : s.ctx.sampleCount ≤ maxSamples
  /-- the sample that is being written is the last one -/
  sample : ∀ k, s.callback.sample = some k → s.ctx.sampleCount = k + 1
  /-- there is nothing in those after it -/
  fresh : ∀ k, s.ctx.sampleCount ≤ k → ∀ i, (s.ctx.samples k).temp i = 0
  /-- nor where it is not written yet -/
  unread : ∀ k, s.callback.sample = some k → ∀ i ∈ s.callback.unread,
    (s.ctx.samples k).temp i = 0
  /-- each core is read once -/
  nodup : s.callback.unread.Nodup
  /-- `invalid` -/
  hot : s.ctx.invalid = true ↔ s.ctx.Hot

theorem StoreInv.untouched {s s' : State} (h : StoreInv s) (hs : Untouched s s') :
    StoreInv s' := by
  refine ⟨?_, ?_, ?_, ?_, ?_, ?_⟩
  · rw [hs.count]
    exact h.count
  · rw [hs.count, hs.callback]
    exact h.sample
  · rw [hs.count, hs.samples]
    exact h.fresh
  · rw [hs.callback, hs.samples]
    exact h.unread
  · rw [hs.callback]
    exact h.nodup
  · rw [Ctx.Hot, hs.count, hs.samples, hs.invalid]
    exact h.hot

/-- A sample that is only begun is not hot. -/
theorem hot_succ {c : Ctx} (hfresh : ∀ i, (c.samples c.sampleCount).temp i = 0) :
    { c with sampleCount := c.sampleCount + 1 }.Hot ↔ c.Hot := by
  refine ⟨?_, ?_⟩
  · rintro ⟨k, hk, i, hot⟩
    refine ⟨k, Nat.lt_of_le_of_ne (Nat.le_of_lt_succ hk) fun hlast => ?_, i, hot⟩
    rw [hlast, hfresh] at hot
    exact absurd hot (by decide)
  · rintro ⟨k, hk, i, hot⟩
    exact ⟨k, Nat.lt_succ_of_lt hk, i, hot⟩

/-- A temperature that is written where there was none makes a sample hot, or does not. -/
theorem hot_setTemp {c : Ctx} {k : ℕ} {i : Cpu} {t : Int32} (hk : k < c.sampleCount)
    (hblank : (c.samples k).temp i = 0) :
    (c.setTemp k i t).Hot ↔ c.Hot ∨ thermalLimitMillic < t := by
  refine ⟨?_, ?_⟩
  · rintro ⟨k', hk', i', hot⟩
    rw [Ctx.setTemp_temp] at hot
    split at hot
    · exact .inr hot
    · exact .inl ⟨k', hk', i', hot⟩
  · rintro (⟨k', hk', i', hot⟩ | hot)
    · refine ⟨k', hk', i', ?_⟩
      rw [Ctx.setTemp_temp, if_neg]
      · exact hot
      · rintro ⟨rfl, rfl⟩
        rw [hblank] at hot
        exact absurd hot (by decide)
    · refine ⟨k, hk, i, ?_⟩
      rw [Ctx.setTemp_temp, if_pos ⟨rfl, rfl⟩]
      exact hot

theorem StoreInv.timerStep {s s' : State} (h : StoreInv s) (hs : TimerStep s s') :
    StoreInv s' := by
  cases hs with
  | fire _ _ | full _ | rearm _ | ret _ =>
    exact ⟨h.count, fun k hk => (by cases hk), h.fresh, fun k hk => (by cases hk),
      List.nodup_nil, h.hot⟩
  | take hp hcount =>
    refine ⟨hcount, ?_, fun k hk => h.fresh k (Nat.le_of_succ_le hk), ?_,
      List.nodup_finRange _, h.hot.trans (hot_succ (h.fresh _ (Nat.le_refl _))).symm⟩
    · rintro k ⟨⟩
      rfl
    · rintro k ⟨⟩ i -
      exact h.fresh _ (Nat.le_refl _) i
  | @ops k hp =>
    refine ⟨h.count, ?_, fun k' hk' i => ?_, ?_, List.nodup_finRange _, ?_⟩
    · rintro k' ⟨⟩
      exact h.sample k (by rw [hp]; rfl)
    · rw [Ctx.setOps_temp]
      exact h.fresh k' hk' i
    · rintro k' ⟨⟩ i -
      rw [Ctx.setOps_temp]
      exact h.unread k (by rw [hp]; rfl) i (by rw [hp]; exact List.mem_finRange i)
    · simp only [Ctx.Hot, Ctx.setOps_temp]
      exact h.hot
  | @temp k i left t hp =>
    have hcount : s.ctx.sampleCount = k + 1 := h.sample k (by rw [hp]; rfl)
    have hnodup := h.nodup
    rw [hp] at hnodup
    obtain ⟨hi, hleft⟩ := List.nodup_cons.mp hnodup
    refine ⟨h.count, ?_, fun k' hk' i' => ?_, ?_, hleft, ?_⟩
    · rintro k' ⟨⟩
      exact hcount
    · rw [Ctx.setTemp_temp, if_neg fun hsame => ?_]
      · exact h.fresh k' hk' i'
      · have hlt : s.ctx.sampleCount ≤ k' := hk'
        omega
    · rintro k' ⟨⟩ i' hi'
      rw [Ctx.setTemp_temp, if_neg fun hsame : k = k ∧ i' = i => hi (hsame.2 ▸ hi')]
      exact h.unread k (by rw [hp]; rfl) i' (by rw [hp]; exact List.mem_cons_of_mem i hi')
    · have hblank := h.unread k (by rw [hp]; rfl) i (by rw [hp]; exact List.mem_cons_self)
      rw [hot_setTemp (by omega) hblank, ← h.hot]
      simp [Ctx.setTemp]

theorem StoreInv.step {s s' : State} {a : Act} (hquiet : QuietInv s) (h : StoreInv s)
    (hs : Step s a s') : StoreInv s' := by
  rcases hs.untouched hquiet with hs | hs
  · exact h.timerStep hs
  · exact h.untouched hs

/-! ## The operations -/

/-- The operations of the first `n` samples do not go down. -/
def Ctx.Sorted (c : Ctx) (n : ℕ) : Prop :=
  ∀ j k, j ≤ k → k < n → (c.samples j).ops ≤ (c.samples k).ops

/-- The sample that comes next gets operations that are no less than the ones before. -/
theorem Ctx.Sorted.setOps {c : Ctx} {n : ℕ} (h : c.Sorted n) {m : UInt64}
    (hle : ∀ k < n, (c.samples k).ops ≤ m) :
    (c.setSample n fun smp => { smp with ops := m }).Sorted (n + 1) := by
  intro j k hjk hk
  rcases Nat.lt_succ_iff_lt_or_eq.mp hk with hk | rfl
  · rw [c.setSample_of_ne n _ (by omega), c.setSample_of_ne n _ (by omega)]
    exact h j k hjk hk
  · by_cases hj : j = k
    · rw [hj]
      exact UInt64.le_refl _
    · rw [c.setSample_of_ne k _ hj]
      simpa [Ctx.setSample] using hle j (by omega)

/-- `ops` is what the workers have counted, and no sample has more, as long as it has not
wrapped. -/
structure OpsInv (s : State) : Prop where
  /-- `ops` -/
  ops : s.ctx.ops = UInt64.ofNat s.total
  /-- the samples -/
  sorted : s.total < 2 ^ 63 →
    s.ctx.Sorted s.withOps ∧ ∀ k < s.withOps, (s.ctx.samples k).ops ≤ s.ctx.ops

/-- What the workers count, a step counts once or not at all. -/
theorem Step.total {s s' : State} {a : Act} (hs : Step s a s') :
    s'.total = s.total ∧ s'.ctx.ops = s.ctx.ops ∨
      s'.total = s.total + 1 ∧ s'.ctx.ops = s.ctx.ops + 1 := by
  cases hs with
  | worker hs =>
    cases hs with
    | inc _ => exact .inr ⟨sum_update_succ s.incs _, rfl⟩
    | _ => exact .inl ⟨rfl, rfl⟩
  | ctrl hs =>
    obtain ⟨-, hincs, hops⟩ := hs.worker
    exact .inl ⟨by rw [State.total, State.total, hincs], hops⟩
  | fire hs | callback hs =>
    obtain ⟨-, hincs, hops⟩ := hs.worker
    exact .inl ⟨by rw [State.total, State.total, hincs], hops⟩
  | wake _ | runCtrl _ _ | askWorker | askCtrl | delTimer _ _ => exact .inl ⟨rfl, rfl⟩

theorem Step.total_le {s s' : State} {a : Act} (hs : Step s a s') : s.total ≤ s'.total := by
  rcases hs.total with ⟨htotal, -⟩ | ⟨htotal, -⟩ <;> omega

theorem toNat_ofNat_of_few {n : ℕ} (h : n < 2 ^ 63) : (UInt64.ofNat n).toNat = n :=
  UInt64.toNat_ofNat_of_lt' (by simp [UInt64.size]; omega)

/-- `ops` does not go down as long as it has not wrapped. -/
theorem OpsInv.ops_le {s s' : State} {a : Act} (h : OpsInv s) (hs : Step s a s')
    (hfew : s'.total < 2 ^ 63) : s.ctx.ops ≤ s'.ctx.ops := by
  rcases hs.total with ⟨-, hops⟩ | ⟨htotal, hops⟩
  · rw [hops]
    exact UInt64.le_refl _
  · rw [hops, h.ops, UInt64.le_iff_toNat_le,
      show (1 : UInt64) = UInt64.ofNat 1 from rfl, ← UInt64.ofNat_add,
      toNat_ofNat_of_few (by omega), toNat_ofNat_of_few (by omega)]
    exact Nat.le_succ _

theorem TimerStep.sorted {s s' : State} (hstore : StoreInv s) (hs : TimerStep s s')
    (h : s.ctx.Sorted s.withOps ∧ ∀ k < s.withOps, (s.ctx.samples k).ops ≤ s.ctx.ops) :
    s'.ctx.Sorted s'.withOps ∧ ∀ k < s'.withOps, (s'.ctx.samples k).ops ≤ s'.ctx.ops := by
  cases hs with
  | fire _ hp | full hp | take hp _ | rearm hp | ret hp =>
    rw [State.withOps, hp] at h
    exact h
  | @ops k hp =>
    rw [State.withOps, hp] at h
    have hcount : s.ctx.sampleCount = k + 1 := hstore.sample k (by rw [hp]; rfl)
    have hsorted := h.1.setOps h.2
    have hle : ∀ j < k + 1,
        ((s.ctx.setSample k fun smp => { smp with ops := s.ctx.ops }).samples j).ops ≤
          s.ctx.ops := by
      intro j hj
      simpa [Ctx.setSample] using hsorted j k (Nat.le_of_lt_succ hj) (Nat.lt_succ_self k)
    rw [← hcount] at hsorted hle
    exact ⟨hsorted, hle⟩
  | @temp k i left t hp =>
    rw [State.withOps, hp] at h
    simp only [Ctx.Sorted, Ctx.setTemp_ops]
    exact h

theorem OpsInv.step {s s' : State} {a : Act} (hquiet : QuietInv s) (hstore : StoreInv s)
    (h : OpsInv s) (hs : Step s a s') : OpsInv s' where
  ops := by
    rcases hs.total with ⟨htotal, hops⟩ | ⟨htotal, hops⟩
    · rw [hops, htotal, h.ops]
    · rw [hops, htotal, h.ops, UInt64.ofNat_add]
      rfl
  sorted hfew := by
    have hsorted := h.sorted (Nat.lt_of_le_of_lt hs.total_le hfew)
    rcases hs.untouched hquiet with htimer | hsame
    · exact htimer.sorted hstore hsorted
    · rw [hsame.withOps, Ctx.Sorted, hsame.samples]
      refine ⟨hsorted.1, fun k hk => ?_⟩
      exact UInt64.le_trans (hsorted.2 k hk) (h.ops_le hs hfew)

/-! ## What is stored stays -/

/-- The timer does not write to a stored sample again. -/
theorem StoreInv.kept_timerStep {s s' : State} (h : StoreInv s) (hs : TimerStep s s') :
    s.stored ≤ s'.stored ∧ ∀ k < s.stored, s'.ctx.samples k = s.ctx.samples k := by
  cases hs with
  | fire _ hp | full hp | take hp _ | rearm hp | ret hp =>
    rw [State.stored, hp]
    exact ⟨Nat.le_refl _, fun _ _ => rfl⟩
  | @ops k hp =>
    have hstored : s.stored = k := by rw [State.stored, hp]
    rw [hstored]
    refine ⟨Nat.le_refl _, fun j hj => ?_⟩
    exact s.ctx.setSample_of_ne k (fun smp => { smp with ops := s.ctx.ops }) (Nat.ne_of_lt hj)
  | @temp k i left t hp =>
    have hcount : s.ctx.sampleCount = k + 1 := h.sample k (by rw [hp]; rfl)
    have hstored : s.stored = k := by rw [State.stored, hp]
    rw [hstored]
    refine ⟨?_, fun j hj => s.ctx.setTemp_of_ne k i t (Nat.ne_of_lt hj)⟩
    cases left with
    | nil =>
      calc k ≤ k + 1 := Nat.le_succ k
        _ = s.ctx.sampleCount := hcount.symm
    | cons i' left => exact Nat.le_refl k

/-- All the invariants. -/
structure SampleInv (s : State) : Prop where
  /-- the timer -/
  quiet : QuietInv s
  /-- the samples -/
  store : StoreInv s
  /-- the operations -/
  ops : OpsInv s

theorem sampleInv_inductive (tz : Cpu → Bool) : (lts tz).Inductive SampleInv where
  init hi := by
    cases hi
    refine ⟨⟨fun _ => ⟨rfl, rfl, rfl⟩, fun _ => rfl⟩,
      ⟨Nat.zero_le _, fun k hk => (by cases hk), fun _ _ _ => rfl, fun k hk => (by cases hk),
        List.nodup_nil, ?_⟩, ⟨?_, fun _ => ?_⟩⟩
    · constructor
      · intro hinvalid
        cases hinvalid
      · rintro ⟨k, hk, -⟩
        cases hk
    · simp [State.total, start, Ctx.init]
    · refine ⟨fun j k _ hk => ?_, fun k hk => ?_⟩ <;> cases hk
  step h hs := by
    have hs := step_of_next hs
    exact ⟨h.quiet.step hs, h.store.step h.quiet hs, h.ops.step h.quiet h.store hs⟩

theorem SampleInv.kept_step {s s' : State} {a : Act} (h : SampleInv s) (hs : Step s a s') :
    s.stored ≤ s'.stored ∧ ∀ k < s.stored, s'.ctx.samples k = s.ctx.samples k := by
  rcases hs.untouched h.quiet with htimer | hsame
  · exact h.store.kept_timerStep htimer
  · rw [hsame.stored, hsame.samples]
    exact ⟨Nat.le_refl _, fun _ _ => rfl⟩

/-- Over a run what is stored stays. -/
theorem SampleInv.run_kept {s s' : State} {as : List Act} (h : SampleInv s)
    (hr : (lts tz).Run s as s') :
    s.stored ≤ s'.stored ∧ ∀ k < s.stored, s'.ctx.samples k = s.ctx.samples k := by
  refine ((sampleInv_inductive tz).run (J := fun s' =>
    s.stored ≤ s'.stored ∧ ∀ k < s.stored, s'.ctx.samples k = s.ctx.samples k)
    (fun hi hj hs => ?_) h ⟨Nat.le_refl _, fun _ _ => rfl⟩ hr).2
  obtain ⟨hle, hkept⟩ := hi.kept_step (step_of_next hs)
  refine ⟨Nat.le_trans hj.1 hle, fun k hk => ?_⟩
  rw [hkept k (Nat.lt_of_lt_of_le hk hj.1), hj.2 k hk]

/-- Once `sample_fn` has found `samples` full, the timer is never pending. -/
theorem SampleInv.run_finished {s s' : State} {as : List Act} (h : SampleInv s)
    (hfinished : Finished s) (hr : (lts tz).Run s as s') : Finished s' :=
  ((sampleInv_inductive tz).run (J := Finished)
    (fun _ hj hs => hj.step (step_of_next hs)) h hfinished hr).2

theorem SampleInv.finished {s : State} (h : SampleInv s) (hp : s.callback = .test)
    (hfull : maxSamples ≤ s.ctx.sampleCount) : Finished s where
  armed := h.quiet.armed (by rw [hp]; simp)
  pending := h.quiet.before (by rw [hp]; rfl)
  callback := .inl ⟨hp, hfull⟩

/-! ## The store of samples -/

/-- The store of samples is consistent. The last sample counts once it has got its operations;
`compute_score` subtracts those of the first sample from those of the last. -/
structure Consistent (s : State) : Prop where
  /-- `sample_count` -/
  count : s.ctx.sampleCount ≤ maxSamples
  /-- no write is out of bounds -/
  bounds : ∀ k, s.callback.sample = some k → k < maxSamples
  /-- the operations do not go down -/
  sorted : ∀ j k, j ≤ k → k < s.ctx.sampleCount → s.callback ≠ .ops k →
    (s.ctx.samples j).ops ≤ (s.ctx.samples k).ops
  /-- the subtraction in `compute_score` does not wrap -/
  noWrap : s.ctrl = .score → 1 ≤ s.ctx.sampleCount →
    (s.ctx.samples (s.ctx.sampleCount - 1)).ops.toNat = (s.ctx.samples 0).ops.toNat +
      ((s.ctx.samples (s.ctx.sampleCount - 1)).ops - (s.ctx.samples 0).ops).toNat
  /-- `invalid` -/
  invalid : s.ctx.invalid = true ↔
    ∃ k < s.ctx.sampleCount, ∃ i, thermalLimitMillic < (s.ctx.samples k).temp i

/-- `stop_sampling` has waited for the callback. -/
theorem Inv.idle_of_score {s : State} (h : Inv s) (hp : s.ctrl = .score) :
    s.callback = .idle := by
  have hctrl := h.ctrl
  rw [hp] at hctrl
  exact (h.timer hctrl.2.2.1).2

theorem SampleInv.consistent {s : State} (h : SampleInv s) (hinv : Inv s)
    (hfew : s.total < 2 ^ 63) : Consistent s := by
  have hsorted : ∀ j k, j ≤ k → k < s.ctx.sampleCount → s.callback ≠ .ops k →
      (s.ctx.samples j).ops ≤ (s.ctx.samples k).ops := by
    intro j k hjk hk hp
    refine (h.ops.sorted hfew).1 j k hjk ?_
    rw [State.withOps]
    split
    · next k' hp' =>
      have hcount := h.store.sample k' (by rw [hp']; rfl)
      have hne : k ≠ k' := fun hkk => hp (hkk ▸ hp')
      omega
    all_goals exact hk
  refine ⟨h.store.count, fun k hk => ?_, hsorted, fun hp hcount => ?_, h.store.hot⟩
  · have hcount := h.store.count
    rw [h.store.sample k hk] at hcount
    exact hcount
  · have hidle := hinv.idle_of_score hp
    have hle := hsorted 0 (s.ctx.sampleCount - 1) (Nat.zero_le _) (by omega)
      (by rw [hidle]; simp)
    rw [UInt64.toNat_sub_of_le _ _ hle]
    exact (Nat.add_sub_cancel' (UInt64.le_iff_toNat_le.mp hle)).symm

/-- **The store of samples** is consistent in every state, whatever the sensors read, as long as
`ops` has not wrapped; what is stored stays as it is; and once `sample_fn` has found `samples`
full, which is the only way for it to store nothing, the timer is not pending any more. -/
theorem sampling_consistent {s s' : State} {as : List Act} (hs : (lts tz).Reachable s)
    (hr : (lts tz).Run s as s') (hfew : s'.total < 2 ^ 63) :
    Consistent s' ∧
    (∀ k < s.stored, s'.ctx.samples k = s.ctx.samples k) ∧
    (s.callback = .test → maxSamples ≤ s.ctx.sampleCount → s'.pending = false) := by
  have h : SampleInv s := (sampleInv_inductive tz).reachable hs
  have h' : SampleInv s' := (sampleInv_inductive tz).reachable (hr.reachable_of hs)
  have hinv' : Inv s' := (inv_inductive tz).reachable (hr.reachable_of hs)
  exact ⟨h'.consistent hinv' hfew, (h.run_kept hr).2,
    fun hp hfull => (h.run_finished (h.finished hp hfull) hr).pending⟩

/-- A worker counts an operation before the first sample and one after it, the second sample is
too hot, and then the deadline passes. -/
def hotRun : List Act :=
  List.replicate 4 (.worker core0) ++ [.fire, .callback none, .callback none] ++
    [.callback (some 70000)] ++ List.replicate 5 (.callback none) ++ [.ctrl false 0] ++
    List.replicate 6 (.ctrl true 0)

/-- Up to the first sample. -/
def firstSample : List Act :=
  [.wake core0, .runCtrl] ++ List.replicate 9 (.ctrl false 0) ++
    List.replicate 4 (.worker core0) ++ [.fire] ++ List.replicate 8 (.callback none)

/-- The first sample has one operation, the second one two, and it is too hot. -/
theorem sampling_consistent_hotRun : ∃ s s' : State,
    (lts fun _ => true).Reachable s ∧ s.stored = 1 ∧ s'.ctx.sampleCount = 2 ∧
      s'.ctrl = .score ∧ (s'.ctx.samples 0).ops = 1 ∧ (s'.ctx.samples 1).ops = 2 ∧
      s'.ctx.samples 0 = s.ctx.samples 0 ∧ s'.ctx.invalid = true ∧ Consistent s' := by
  have hs := Lts.reachable_of_foldlM (.init rfl)
    (rfl : firstSample.foldlM next (start fun _ => true) = some _)
  obtain ⟨hconsistent, hkept, -⟩ :=
    sampling_consistent hs (Lts.run_of_foldlM .nil (rfl : hotRun.foldlM next _ = some _))
      (by decide)
  exact ⟨_, _, hs, rfl, rfl, rfl, rfl, rfl, hkept 0 (by decide), rfl, hconsistent⟩

end CryptoChallenge

end KernelModules
