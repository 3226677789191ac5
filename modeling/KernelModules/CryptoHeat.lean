import KernelModules.Compared
import KernelModules.CryptoScore
import Mathlib.Data.Fintype.Defs

/-!
# Work and heat in the score of `crypto_challenge.c`

Two runs with the same number of samples and the same first temperatures. The second one is
nowhere cooler and has done no more: then it does not get the better score.

* `Worse` — how the samples of the two runs compare;
* `relates_cost`, `relates_score` — `compute_score` on both, as long as nothing overflows;
* `score_monotone` — over all runs, also where the second one is too hot.
-/

namespace KernelModules

namespace CryptoChallenge

open Checked

/-- The operations done from the first sample to the last. -/
def Ctx.growth (c : Ctx) : ℤ :=
  (c.samples (c.sampleCount - 1)).ops.toNat - (c.samples 0).ops.toNat

/-- As many samples and the same start, but later nowhere cooler, and not more work. -/
structure Worse (c c' : Ctx) : Prop where
  /-- `sample_count` -/
  count : c'.sampleCount = c.sampleCount
  /-- the first sample -/
  start : ∀ core, (c'.samples 0).temp core = (c.samples 0).temp core
  /-- the later ones -/
  heat : ∀ k, 1 ≤ k → k < c.sampleCount → ∀ core,
    (c.samples k).temp core ≤ (c'.samples k).temp core
  /-- `ops` -/
  work : c'.growth ≤ c.growth

/-! ## `compute_score` on both -/

/-- What is not counted below 0 is in the order of the differences. -/
theorem clamp_le {delta delta' : Int32} (h : delta ≤ delta') :
    (if delta < 0 then 0 else delta).toInt64.toUInt64 ≤
      (if delta' < 0 then 0 else delta').toInt64.toUInt64 := by
  rw [UInt64.le_iff_toNat_le, toNat_clamp, toNat_clamp]
  exact Int.toNat_le_toNat (Int32.le_iff_toInt_le.mp h)

theorem relates_penalty (initTemp : Int32) {t t' : Int32} (h : t ≤ t') :
    Relates (· ≤ ·) (checkedPenalty initTemp t) (checkedPenalty initTemp t') :=
  (relates_sub32 initTemp h).bind fun _ _ hle => relates_mul64 (clamp_le hle) (clamp_le hle)

theorem sampleAt_eq_some {c : Ctx} {i : ℤ} {smp : Sample} (h : c.sampleAt i = some smp) :
    smp = c.samples i.toNat := by
  obtain ⟨-, h⟩ := Option.ite_none_right_eq_some.mp h
  exact (Option.some.inj h).symm

theorem Worse.relates_cost {c c' : Ctx} (h : Worse c c') :
    Relates (· ≤ ·) (checkedCost c) (checkedCost c') := by
  rw [checkedCost, checkedCost, h.count]
  refine Relates.foldlM (fun cost cost' hcost i hi => ?_) (UInt64.le_refl 0)
  have hi : 1 ≤ i ∧ i < c.sampleCount := by
    have hi := List.mem_range'_1.mp hi
    omega
  have hsamples : Relates (fun smp smp' : Sample => ∀ core, smp.temp core ≤ smp'.temp core)
      (c.sampleAt i) (c'.sampleAt i) := by
    intro smp smp' hsmp hsmp' core
    rw [sampleAt_eq_some hsmp, sampleAt_eq_some hsmp', Int.toNat_natCast]
    exact h.heat i hi.1 hi.2 core
  refine hsamples.bind fun smp smp' hle => Relates.foldlM (fun cost cost' hcost core _ => ?_) hcost
  rw [h.start core]
  exact (relates_penalty _ (hle core)).bind fun _ _ => relates_add64 hcost

/-- As long as neither run is too hot. -/
theorem Worse.relates_score {c c' : Ctx} (h : Worse c c') (hvalid : c.invalid = false)
    (hvalid' : c'.invalid = false) (hpos : 1 ≤ c.sampleCount) :
    Relates (· ≤ ·) (checkedScore c') (checkedScore c) := by
  have hlast : ((c.sampleCount : ℤ) - 1).toNat = c.sampleCount - 1 := by omega
  have hsamples : Relates
      (fun smp' smp : Sample => (smp'.ops.toNat : ℤ) - (c'.samples 0).ops.toNat ≤
        (smp.ops.toNat : ℤ) - (c.samples 0).ops.toNat)
      (c'.sampleAt (c'.sampleCount - 1)) (c.sampleAt (c.sampleCount - 1)) := by
    intro smp' smp hsmp' hsmp
    have hwork := h.work
    rw [Ctx.growth, Ctx.growth, h.count] at hwork
    rw [sampleAt_eq_some hsmp', sampleAt_eq_some hsmp, h.count, hlast]
    exact hwork
  rw [checkedScore, checkedScore, hvalid, hvalid']
  refine hsamples.bind fun _ _ hle => ?_
  refine (relates_sub64 hle).bind fun _ _ hops => ?_
  rw [if_neg Bool.false_ne_true, if_neg Bool.false_ne_true]
  refine h.relates_cost.swap.bind fun _ _ hcost => ?_
  refine (relates_div64 hops (UInt64.le_refl _)).bind fun _ _ hthroughput => ?_
  refine (relates_div64 hcost (UInt64.le_refl _)).swap.bind fun _ _ hscaled => ?_
  refine (relates_add64 hscaled (UInt64.le_refl 1)).swap.bind fun _ _ hdenom => ?_
  refine (relates_mul64 hthroughput (UInt64.le_refl _)).bind fun _ _ hnum => ?_
  exact relates_div64 hnum hdenom

theorem computeScore_of_invalid {c : Ctx} (h : c.invalid = true) (junk : UInt64) :
    computeScore junk c = 0 := by
  rw [computeScore, h]
  rfl

/-- Where some sample of the first run is too hot, so is the same sample of the second. -/
theorem Worse.hot {c c' : Ctx} (h : Worse c c') (hot : c.Hot) : c'.Hot := by
  obtain ⟨k, hk, core, hot⟩ := hot
  refine ⟨k, by rw [h.count]; exact hk, core, ?_⟩
  cases k with
  | zero =>
    rw [h.start]
    exact hot
  | succ k => exact Int32.lt_of_lt_of_le hot (h.heat _ (Nat.succ_pos k) hk core)

/-! ## Over all runs -/

theorem hot_of_reachable {tz : Cpu → Bool} {s : State} (hs : (lts tz).Reachable s) :
    s.ctx.invalid = true ↔ s.ctx.Hot :=
  ((sampleInv_inductive tz).reachable hs).store.hot

/-- **More heat and less work never pay.** Take two runs, the second one nowhere cooler and
with no more work than the first, and let `compute_score` be executed on what `sample_fn` has
recorded in them, without overflow. Then the second score is not the better one, also when the
heat makes it invalid. -/
theorem score_monotone {tz tz' : Cpu → Bool} {s s' : State} (hs : (lts tz).Reachable s)
    (hs' : (lts tz').Reachable s') (hpos : 1 ≤ s.ctx.sampleCount) (hworse : Worse s.ctx s'.ctx)
    (hrange : (checkedScore s.ctx).isSome) (hrange' : (checkedScore s'.ctx).isSome)
    (junk junk' : UInt64) :
    (s'.score junk').ctx.finalScore ≤ (s.score junk).ctx.finalScore := by
  obtain ⟨v, hv⟩ := Option.isSome_iff_exists.mp hrange
  obtain ⟨v', hv'⟩ := Option.isSome_iff_exists.mp hrange'
  change computeScore junk' s'.ctx ≤ computeScore junk s.ctx
  cases hvalid' : s'.ctx.invalid with
  | true =>
    rw [computeScore_of_invalid hvalid']
    exact UInt64.zero_le
  | false =>
    have hvalid : s.ctx.invalid = false := by
      cases hvalid : s.ctx.invalid with
      | false => rfl
      | true =>
        have hot := hworse.hot ((hot_of_reachable hs).mp hvalid)
        cases hvalid'.symm.trans ((hot_of_reachable hs').mpr hot)
    rw [← agrees_score junk s.ctx v hv, ← agrees_score junk' s'.ctx v' hv']
    exact hworse.relates_score hvalid hvalid' hpos v' v hv' hv

/-- Two samples in which each core reads the same. -/
def evenSamples (t₀ t₁ : Int32) : List Act :=
  twoSamples (List.replicate 4 (some t₀)) (List.replicate 4 (some t₁))

/-- What `compute_score` gets from two samples, and what it makes of it. -/
def observe (s : State) : ℕ × ℤ × (Cpu → Int32) × (Cpu → Int32) × Option UInt64 :=
  (s.ctx.sampleCount, s.ctx.growth, (s.ctx.samples 0).temp, (s.ctx.samples 1).temp,
    checkedScore s.ctx)

set_option synthInstance.maxSize 512 in
/-- Ten degrees more, and twenty. -/
theorem score_monotone_evenSamples : ∃ s s' : State,
    (lts fun _ => true).Run (start fun _ => true) (evenSamples 40000 50000) s ∧
    (lts fun _ => true).Run (start fun _ => true) (evenSamples 40000 60000) s' ∧
      (s'.score 0).ctx.finalScore ≤ (s.score 0).ctx.finalScore ∧
      (s.score 0).ctx.finalScore = 24 ∧ (s'.score 0).ctx.finalScore = 6 := by
  obtain ⟨s, hr, hs⟩ : ∃ s : State,
      (lts fun _ => true).Run (start fun _ => true) (evenSamples 40000 50000) s ∧
        observe s = (2, 60, fun _ => 40000, fun _ => 50000, some 24) :=
    Lts.exists_run_of_map _ observe (by decide +kernel)
  obtain ⟨s', hr', hs'⟩ : ∃ s : State,
      (lts fun _ => true).Run (start fun _ => true) (evenSamples 40000 60000) s ∧
        observe s = (2, 60, fun _ => 40000, fun _ => 60000, some 6) :=
    Lts.exists_run_of_map _ observe (by decide +kernel)
  simp only [observe, Prod.mk.injEq] at hs hs'
  obtain ⟨hcount, hgrowth, hfirst, hsecond, hscore⟩ := hs
  obtain ⟨hcount', hgrowth', hfirst', hsecond', hscore'⟩ := hs'
  have hworse : Worse s.ctx s'.ctx := by
    refine ⟨by rw [hcount, hcount'], fun core => by rw [hfirst, hfirst'], ?_,
      by rw [hgrowth, hgrowth']⟩
    intro k hpos hk core
    obtain rfl : k = 1 := by omega
    rw [hsecond, hsecond']
    exact (by decide : (50000 : Int32) ≤ 60000)
  have hle := score_monotone (hr.reachable_of (.init rfl)) (hr'.reachable_of (.init rfl))
    (by omega) hworse (by rw [hscore]; rfl) (by rw [hscore']; rfl) 0 0
  exact ⟨s, s', hr, hr', hle, (agrees_score 0 s.ctx 24 hscore).symm,
    (agrees_score 0 s'.ctx 6 hscore').symm⟩

end CryptoChallenge

end KernelModules
