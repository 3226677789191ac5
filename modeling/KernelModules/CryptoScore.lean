import KernelModules.Checked
import KernelModules.CryptoSamples
import Mathlib.Algebra.Order.BigOperators.Group.Finset
import Mathlib.Algebra.Order.BigOperators.Group.List

/-!
# The score of `crypto_challenge.c`

`compute_score` mixes `int` and `u64` in a loop over all samples and cores. Here it is written
once more with every operation and every index checked, and compared with the same expression
over the integers.

* `checkedScore` — `compute_score`, checked;
* `Scorable` — what `sample_fn` and the sensors guarantee;
* `exactScore` — the score in unbounded integers;
* `compute_score_exact` — no check fails, and the two are the same;
* `final_score_exact` — the score that a run ends with.
-/

namespace KernelModules

namespace CryptoChallenge

open Checked

/-! ## `compute_score`, checked -/

/-- `ctx.samples[i]`, if there is one. -/
def Ctx.sampleAt (c : Ctx) (i : ℤ) : Option Sample :=
  if 0 ≤ i ∧ i < maxSamples then some (c.samples i.toNat) else none

/-- What one core adds to `thermal_cost` in one sample. -/
def checkedPenalty (initTemp t : Int32) : Option UInt64 := do
  let delta ← sub32 t initTemp
  let delta := if delta < 0 then 0 else delta
  mul64 delta.toInt64.toUInt64 delta.toInt64.toUInt64

/-- `thermal_cost` -/
def checkedCost (c : Ctx) : Option UInt64 :=
  (List.range' 1 (c.sampleCount - 1)).foldlM (fun cost (i : ℕ) => do
    let smp ← c.sampleAt i
    (List.finRange maxCores).foldlM (fun cost core => do
      let penalty ← checkedPenalty ((c.samples 0).temp core) (smp.temp core)
      add64 cost penalty) cost) 0

/-- `compute_score`: the new `final_score`. -/
def checkedScore (c : Ctx) : Option UInt64 := do
  let last ← c.sampleAt (c.sampleCount - 1)
  let ops ← sub64 last.ops (c.samples 0).ops
  if c.invalid then some 0
  else do
    let cost ← checkedCost c
    let throughput ← div64 ops (UInt64.ofNat benchDurationSec)
    let scaled ← div64 cost 100000
    let denom ← add64 scaled 1
    let num ← mul64 throughput 100000
    div64 num denom

/-! ## The checked score is the score -/

theorem agrees_sampleAt (c : Ctx) (i : ℤ) : Agrees (c.sampleAt i) (c.samples i.toNat) := .ite _

theorem agrees_penalty (initTemp t : Int32) :
    Agrees (checkedPenalty initTemp t) (thermalPenalty initTemp t) :=
  (agrees_sub32 t initTemp).bind (agrees_mul64 _ _)

theorem agrees_cost (c : Ctx) : Agrees (checkedCost c) (thermalCost c) := by
  rw [checkedCost, thermalCost]
  refine Agrees.foldlM (fun cost i => ?_) _ _
  refine (agrees_sampleAt c i).bind (Agrees.foldlM (fun cost core => ?_) _ _)
  exact (agrees_penalty _ _).bind (agrees_add64 _ _)

/-- What `checkedScore` returns is what `computeScore` returns. -/
theorem agrees_score (junk : UInt64) (c : Ctx) : Agrees (checkedScore c) (computeScore junk c) := by
  by_cases hcount : c.sampleCount = 0
  · have hnone : c.sampleAt (c.sampleCount - 1) = none := by
      rw [Ctx.sampleAt, if_neg (by omega)]
    rw [checkedScore, hnone]
    exact .none _
  · have hlast : ((c.sampleCount : ℤ) - 1).toNat = c.sampleCount - 1 := by omega
    refine (agrees_sampleAt c _).bind ((agrees_sub64 _ _).bind ?_)
    rw [computeScore, if_neg hcount, hlast]
    cases c.invalid
    · exact (agrees_cost c).bind ((agrees_div64 _ _).bind ((agrees_div64 _ _).bind
        ((agrees_add64 _ _).bind ((agrees_mul64 _ _).bind (agrees_div64 _ _)))))
    · exact .some _

/-! ## The score in unbounded integers -/

/-- The sum over all samples after the first and all cores. -/
def exactCost (c : Ctx) : ℤ :=
  ∑ i ∈ Finset.Ico 1 c.sampleCount, ∑ core,
    max 0 (((c.samples i).temp core).toInt - ((c.samples 0).temp core).toInt) ^ 2

/-- The score. -/
def exactScore (c : Ctx) : ℤ :=
  if c.invalid then 0
  else
    let ops : ℤ := (c.samples (c.sampleCount - 1)).ops.toNat - (c.samples 0).ops.toNat
    ops / 60 * 100000 / (exactCost c / 100000 + 1)

/-- The samples are as `sample_fn` takes them, the temperatures are possible, and not too many
operations are counted. -/
structure Scorable (c : Ctx) : Prop where
  /-- there is a sample -/
  pos : 1 ≤ c.sampleCount
  /-- there are not too many -/
  le : c.sampleCount ≤ maxSamples
  /-- the operations do not go down -/
  sorted : c.Sorted c.sampleCount
  /-- nor up too far -/
  growth : (c.samples (c.sampleCount - 1)).ops.toNat - (c.samples 0).ops.toNat ≤ 2 ^ 53
  /-- no temperature is too low -/
  lowest : ∀ k < c.sampleCount, ∀ core, -274000 ≤ ((c.samples k).temp core).toInt
  /-- nor too high, unless the score is 0 -/
  cool : c.invalid = false →
    ∀ k < c.sampleCount, ∀ core, (c.samples k).temp core ≤ thermalLimitMillic

/-! ## Nothing overflows -/

/-- The penalty in `ℕ`. -/
def penaltyNat (initTemp t : Int32) : ℕ := (t.toInt - initTemp.toInt).toNat ^ 2

/-- A temperature that is possible and not too high. -/
def Mild (t : Int32) : Prop := -274000 ≤ t.toInt ∧ t.toInt ≤ 65000

theorem penaltyNat_le {initTemp t : Int32} (hinit : Mild initTemp) (ht : Mild t) :
    penaltyNat initTemp t ≤ 339000 ^ 2 := by
  obtain ⟨hlow, -⟩ := hinit
  obtain ⟨-, hhigh⟩ := ht
  exact Nat.pow_le_pow_left (by omega) 2

/-- A difference that is not counted below 0, as `u64`. -/
theorem toNat_clamp (delta : Int32) :
    (if delta < 0 then 0 else delta).toInt64.toUInt64.toNat = delta.toInt.toNat := by
  by_cases hneg : delta < 0
  · have hlt : delta.toInt < 0 := Int32.lt_iff_toInt_lt.mp hneg
    rw [if_pos hneg, Int.toNat_of_nonpos (Int.le_of_lt hlt)]
    rfl
  · have hle : 0 ≤ delta.toInt := Int.not_lt.mp fun hlt => hneg (Int32.lt_iff_toInt_lt.mpr hlt)
    have hle64 : 0 ≤ delta.toInt64 := by
      rw [Int64.le_iff_toInt_le, Int32.toInt_toInt64]
      exact hle
    rw [if_neg hneg, Int64.toNat_toUInt64_of_le hle64, Int64.toNatClampNeg, Int32.toInt_toInt64]

theorem yields_penalty {initTemp t : Int32} (hinit : Mild initTemp) (ht : Mild t) :
    Yields UInt64.toNat (checkedPenalty initTemp t) (penaltyNat initTemp t) := by
  obtain ⟨hlow, hhigh⟩ := hinit
  obtain ⟨hlow', hhigh'⟩ := ht
  refine (yields_sub32 (by omega) (by omega)).bind fun delta hdelta => ?_
  have hclamp := toNat_clamp delta
  rw [hdelta] at hclamp
  have hle : (t.toInt - initTemp.toInt).toNat * (t.toInt - initTemp.toInt).toNat ≤
      339000 * 339000 := Nat.mul_le_mul (by omega) (by omega)
  rw [← hclamp] at hle
  rw [penaltyNat, Nat.pow_two, ← hclamp]
  exact yields_mul64 (by omega)

/-- What one sample adds to `thermal_cost`. -/
def sampleNat (c : Ctx) (i : ℕ) : ℕ :=
  ((List.finRange maxCores).map fun core =>
    penaltyNat ((c.samples 0).temp core) ((c.samples i).temp core)).sum

/-- `thermal_cost` -/
def costNat (c : Ctx) : ℕ := ((List.range' 1 (c.sampleCount - 1)).map (sampleNat c)).sum

/-- Not too many samples, with mild temperatures. -/
structure Measured (c : Ctx) : Prop where
  /-- there is a sample -/
  pos : 1 ≤ c.sampleCount
  /-- there are not too many -/
  le : c.sampleCount ≤ maxSamples
  /-- their temperatures -/
  mild : ∀ k < c.sampleCount, ∀ core, Mild ((c.samples k).temp core)

theorem Scorable.measured {c : Ctx} (h : Scorable c) (hvalid : c.invalid = false) :
    Measured c where
  pos := h.pos
  le := h.le
  mild k hk core := ⟨h.lowest k hk core, Int32.le_iff_toInt_le.mp (h.cool hvalid k hk core)⟩

theorem Measured.sampleNat_le {c : Ctx} (h : Measured c) {i : ℕ} (hi : i < c.sampleCount) :
    sampleNat c i ≤ maxCores * 339000 ^ 2 := by
  have hle := List.sum_le_card_nsmul ((List.finRange maxCores).map fun core =>
    penaltyNat ((c.samples 0).temp core) ((c.samples i).temp core)) (339000 ^ 2) ?_
  · rw [List.length_map, List.length_finRange] at hle
    exact hle
  · intro n hn
    obtain ⟨core, -, rfl⟩ := List.mem_map.mp hn
    exact penaltyNat_le (h.mild 0 h.pos core) (h.mild i hi core)

theorem Measured.costNat_le {c : Ctx} (h : Measured c) :
    costNat c ≤ maxSamples * (maxCores * 339000 ^ 2) := by
  have hle := List.sum_le_card_nsmul ((List.range' 1 (c.sampleCount - 1)).map (sampleNat c))
    (maxCores * 339000 ^ 2) ?_
  · refine Nat.le_trans hle (Nat.mul_le_mul_right _ ?_)
    rw [List.length_map, List.length_range']
    exact Nat.le_trans (Nat.sub_le _ _) h.le
  · intro n hn
    obtain ⟨i, hi, rfl⟩ := List.mem_map.mp hn
    obtain ⟨-, hi⟩ := List.mem_range'_1.mp hi
    have hpos := h.pos
    exact h.sampleNat_le (by omega)

/-- The sum over all samples fits. -/
theorem Measured.costNat_lt {c : Ctx} (h : Measured c) : costNat c < 2 ^ 64 - 1 :=
  Nat.lt_of_le_of_lt h.costNat_le (by decide)

theorem sampleAt_of_lt {c : Ctx} {k : ℕ} (hk : k < maxSamples) :
    c.sampleAt k = some (c.samples k) := by
  rw [Ctx.sampleAt, if_pos ⟨Int.natCast_nonneg k, Int.ofNat_lt.mpr hk⟩, Int.toNat_natCast]

/-- The inner loop. -/
theorem Measured.yields_sample {c : Ctx} (h : Measured c) {i : ℕ} (hi : i < c.sampleCount)
    {cost : UInt64} (hsum : cost.toNat + sampleNat c i ≤ 2 ^ 64 - 1) :
    Yields UInt64.toNat ((List.finRange maxCores).foldlM (fun cost core => do
      let penalty ← checkedPenalty ((c.samples 0).temp core) ((c.samples i).temp core)
      add64 cost penalty) cost) (cost.toNat + sampleNat c i) := by
  refine Yields.foldlM (fun cost core _ hle => ?_) hsum
  refine (yields_penalty (h.mild 0 h.pos core) (h.mild i hi core)).bind fun penalty hpenalty => ?_
  rw [← hpenalty] at hle ⊢
  exact yields_add64 (by omega)

/-- Both loops. -/
theorem Measured.yields_cost {c : Ctx} (h : Measured c) :
    Yields UInt64.toNat (checkedCost c) (costNat c) := by
  have hsum : (0 : UInt64).toNat + ((List.range' 1 (c.sampleCount - 1)).map (sampleNat c)).sum =
      costNat c := Nat.zero_add _
  have hlt := h.costNat_lt
  rw [checkedCost, ← hsum]
  refine Yields.foldlM (fun cost i hi hle => ?_) (Nat.le_of_eq hsum)
  have hi : i < c.sampleCount := by
    have hpos := h.pos
    have hi := (List.mem_range'_1.mp hi).2
    omega
  rw [sampleAt_of_lt (Nat.lt_of_lt_of_le hi h.le)]
  exact h.yields_sample hi (by omega)

/-- `thermal_cost` does not wrap. -/
theorem Measured.toNat_thermalCost {c : Ctx} (h : Measured c) :
    (thermalCost c).toNat = costNat c := by
  obtain ⟨v, hv, hcost⟩ := h.yields_cost
  rw [← agrees_cost c v hv, hcost]

/-- The score in `ℕ`. -/
def scoreNat (c : Ctx) : ℕ :=
  if c.invalid then 0
  else
    ((c.samples (c.sampleCount - 1)).ops.toNat - (c.samples 0).ops.toNat) / 60 * 100000 /
      (costNat c / 100000 + 1)

theorem Scorable.ops_le {c : Ctx} (h : Scorable c) :
    (c.samples 0).ops.toNat ≤ (c.samples (c.sampleCount - 1)).ops.toNat := by
  have hpos := h.pos
  exact UInt64.le_iff_toNat_le.mp (h.sorted 0 _ (Nat.zero_le _) (by omega))

/-- The divisions, with operations and costs that are not too large. -/
theorem yields_quotient {ops cost : UInt64} (hops : ops.toNat ≤ 2 ^ 53)
    (hcost : cost.toNat < 2 ^ 64 - 1) :
    Yields UInt64.toNat (do
      let throughput ← div64 ops (UInt64.ofNat benchDurationSec)
      let scaled ← div64 cost 100000
      let denom ← add64 scaled 1
      let num ← mul64 throughput 100000
      div64 num denom)
      (ops.toNat / 60 * 100000 / (cost.toNat / 100000 + 1)) := by
  have hduration : (UInt64.ofNat benchDurationSec).toNat = 60 := rfl
  have hscale : (100000 : UInt64).toNat = 100000 := rfl
  have hone : (1 : UInt64).toNat = 1 := rfl
  refine (yields_div64 (by decide)).bind fun throughput hthroughput => ?_
  refine (yields_div64 (by decide)).bind fun scaled hscaled => ?_
  rw [hduration] at hthroughput
  rw [hscale] at hscaled
  refine (yields_add64 (by rw [hone]; omega)).bind fun denom hdenom => ?_
  refine (yields_mul64 (by rw [hscale]; omega)).bind fun num hnum => ?_
  rw [hone] at hdenom
  rw [hscale] at hnum
  rw [← hthroughput, ← hscaled, ← hdenom, ← hnum]
  exact yields_div64 (by omega)

/-- No check fails. -/
theorem Scorable.yields_score {c : Ctx} (h : Scorable c) :
    Yields UInt64.toNat (checkedScore c) (scoreNat c) := by
  have hpos := h.pos
  have hlast : c.sampleAt (c.sampleCount - 1) = some (c.samples (c.sampleCount - 1)) := by
    rw [← sampleAt_of_lt (Nat.lt_of_lt_of_le (Nat.sub_one_lt_of_lt hpos) h.le)]
    congr 1
    omega
  rw [checkedScore, hlast]
  refine (yields_sub64 h.ops_le).bind fun ops hops => ?_
  rw [scoreNat, ← hops]
  cases hvalid : c.invalid
  · have hgrowth := h.growth
    have hmeasured := h.measured hvalid
    have hlt := hmeasured.costNat_lt
    rw [← hops] at hgrowth
    rw [if_neg Bool.false_ne_true, if_neg Bool.false_ne_true]
    refine hmeasured.yields_cost.bind fun cost hcost => ?_
    rw [← hcost] at hlt ⊢
    exact yields_quotient hgrowth hlt
  · exact .some rfl

/-! ## The score is exact -/

theorem penaltyNat_cast (initTemp t : Int32) :
    (penaltyNat initTemp t : ℤ) = max 0 (t.toInt - initTemp.toInt) ^ 2 := by
  rw [penaltyNat, Nat.cast_pow, Int.toNat_eq_max, max_comm]

theorem costNat_cast (c : Ctx) : (costNat c : ℤ) = exactCost c := by
  have hsum : costNat c = ∑ i ∈ Finset.Ico 1 c.sampleCount, sampleNat c i := by
    rw [Nat.Ico_eq_range']
    rfl
  rw [hsum, exactCost, Nat.cast_sum]
  refine Finset.sum_congr rfl fun i _ => ?_
  rw [sampleNat, ← Fin.sum_univ_def, Nat.cast_sum]
  exact Finset.sum_congr rfl fun core _ => penaltyNat_cast _ _

theorem Scorable.scoreNat_cast {c : Ctx} (h : Scorable c) : (scoreNat c : ℤ) = exactScore c := by
  rw [scoreNat, exactScore]
  cases c.invalid
  · have hops := h.ops_le
    simp only [Bool.false_eq_true, if_false]
    rw [← costNat_cast]
    push_cast [Nat.cast_sub hops]
    rfl
  · rfl

/-- **`compute_score` is exact.** On samples as `sample_fn` takes them no check fails, and the
score is the one in unbounded integers. -/
theorem compute_score_exact {c : Ctx} (h : Scorable c) (junk : UInt64) :
    ∃ v, checkedScore c = some v ∧ computeScore junk c = v ∧ (v.toNat : ℤ) = exactScore c := by
  obtain ⟨v, hv, hscore⟩ := h.yields_score
  exact ⟨v, hv, (agrees_score junk c v hv).symm, by rw [hscore, h.scoreNat_cast]⟩

/-- Two samples, the second one ten degrees warmer on each core. -/
def warmer : Ctx where
  tz _ := true
  samples k := if k = 0 then ⟨1000, fun _ => 40000⟩ else ⟨700000, fun _ => 50000⟩
  sampleCount := 2
  ops := 700000
  run := false
  stop := true
  finalScore := 0
  invalid := false

theorem scorable_warmer : Scorable warmer where
  pos := by decide
  le := by decide
  sorted := by
    intro j k hjk _
    by_cases hk : k = 0
    · obtain rfl : j = k := by omega
      exact UInt64.le_refl _
    · by_cases hj : j = 0
      · simp only [warmer, hj, hk, if_pos, if_false]
        decide
      · simp only [warmer, hj, hk, if_false]
        decide
  growth := by decide
  lowest k _ core := by
    by_cases hk : k = 0 <;> simp only [warmer, hk, if_true, if_false] <;> decide
  cool _ k _ core := by
    by_cases hk : k = 0 <;> simp only [warmer, hk, if_true, if_false] <;> decide

/-- The score of 699000 operations. -/
theorem compute_score_exact_warmer : ∃ v, checkedScore warmer = some v ∧
    computeScore 0 warmer = v ∧ (v.toNat : ℤ) = exactScore warmer ∧
    exactScore warmer = 291177 := by
  obtain ⟨v, hv, hscore, hexact⟩ := compute_score_exact scorable_warmer 0
  exact ⟨v, hv, hscore, hexact, by decide +kernel⟩

/-! ## The samples of a run -/

/-- No sensor reads less than the lowest temperature. -/
def Act.Possible : Act → Prop
  | .callback (some t) => -274000 ≤ t.toInt
  | _ => True

instance : DecidablePred Act.Possible
  | .callback (some t) => inferInstanceAs (Decidable (-274000 ≤ t.toInt))
  | .callback none | .worker _ | .ctrl _ _ | .fire | .wake _ | .runCtrl | .askWorker _ | .askCtrl
  | .delTimer => .isTrue trivial

/-- No sample has less. -/
def Ctx.Lowest (c : Ctx) : Prop := ∀ k i, -274000 ≤ ((c.samples k).temp i).toInt

theorem Act.Possible.readTemp {reading : Option Int32} (h : (Act.callback reading).Possible)
    (tz : Bool) : -274000 ≤ (CryptoChallenge.readTemp tz reading).toInt := by
  cases tz
  · exact (by decide : -274000 ≤ (0 : Int32).toInt)
  · cases reading with
    | none => exact (by decide : -274000 ≤ (0 : Int32).toInt)
    | some t => exact h

theorem Ctx.Lowest.callbackNext {s s' : State} {reading : Option Int32} (h : s.ctx.Lowest)
    (hreading : (Act.callback reading).Possible) (hs : callbackNext s reading = some s') :
    s'.ctx.Lowest := by
  rw [CryptoChallenge.callbackNext] at hs
  split at hs
  · cases hs
  · split at hs <;> cases hs <;> exact h
  · cases hs
    intro k i
    rw [Ctx.setOps_temp]
    exact h k i
  · cases hs
    intro k i
    rw [Ctx.setTemp_temp]
    split
    · exact hreading.readTemp _
    · exact h k i
  · cases hs
    exact h
  · cases hs
    exact h

theorem Ctx.Lowest.step {s s' : State} {a : Act} (h : s.ctx.Lowest) (ha : a.Possible)
    (hs : next s a = some s') : s'.ctx.Lowest := by
  cases step_of_next hs with
  | worker hw => cases hw <;> exact h
  | ctrl hc => cases hc <;> exact h
  | fire _ =>
    rw [next] at hs
    split at hs <;> cases hs
    exact h
  | callback _ => exact h.callbackNext ha hs
  | wake _ | runCtrl _ _ | askWorker | askCtrl | delTimer _ _ => exact h

theorem lowest_inductive (tz : Cpu → Bool) :
    ((lts tz).restrict fun _ a => a.Possible).Inductive fun s => s.ctx.Lowest where
  init hi := by
    cases hi
    intro k i
    exact (by decide : -274000 ≤ (0 : Int32).toInt)
  step h hs := h.step hs.1 hs.2

/-- No sample has more operations than were counted. -/
theorem SampleInv.ops_le {s : State} (h : SampleInv s) (hfew : s.total < 2 ^ 63) {k : ℕ}
    (hk : k < s.withOps) : (s.ctx.samples k).ops.toNat ≤ s.total := by
  have hle := UInt64.le_iff_toNat_le.mp ((h.ops.sorted hfew).2 k hk)
  rwa [h.ops.ops, toNat_ofNat_of_few hfew] at hle

/-- **The samples `compute_score` gets** are those it is exact on, in every run in which a
sample is taken, no sensor reads too little and not too many operations are counted. -/
theorem scorable_of_run {tz : Cpu → Bool} {s : State}
    (hs : ((lts tz).restrict fun _ a => a.Possible).Reachable s) (hp : s.ctrl = .score)
    (hpos : 1 ≤ s.ctx.sampleCount) (hfew : s.total ≤ 2 ^ 53) : Scorable s.ctx := by
  have hsample : SampleInv s := (sampleInv_inductive tz).reachable hs.of_restrict
  have hinv : Inv s := (inv_inductive tz).reachable hs.of_restrict
  have hidle := hinv.idle_of_score hp
  have hconsistent := hsample.consistent hinv (by omega)
  have hwith : s.withOps = s.ctx.sampleCount := by rw [State.withOps, hidle]
  have hlast := hsample.ops_le (by omega) (k := s.ctx.sampleCount - 1) (by omega)
  refine ⟨hpos, hconsistent.count, fun j k hjk hk => ?_, by omega, fun k _ core => ?_,
    fun hvalid k hk core => ?_⟩
  · exact hconsistent.sorted j k hjk hk (by rw [hidle]; simp)
  · exact (lowest_inductive tz).reachable hs k core
  · refine Int32.not_lt.mp fun hot => ?_
    have hinvalid := hconsistent.invalid.mpr ⟨k, hk, core, hot⟩
    cases hvalid.symm.trans hinvalid

/-- The callback takes a sample, with one reading for each core. -/
def takeSample (readings : List (Option Int32)) : List Act :=
  .fire :: .callback none :: .callback none :: readings.map .callback ++
    [.callback none, .callback none]

/-- A worker counts sixty operations between two samples, and then the deadline passes. -/
def twoSamples (first second : List (Option Int32)) : List Act :=
  .wake core0 :: .runCtrl :: List.replicate 9 (.ctrl false 0) ++ takeSample first ++
    List.replicate (4 * 60) (.worker core0) ++ takeSample second ++
    .ctrl false 0 :: List.replicate 6 (.ctrl true 0)

/-! ## The score of a run -/

/-- The score is the one in unbounded integers. -/
def State.Exact (s : State) : Prop :=
  s.scored = 1 → 1 ≤ s.ctx.sampleCount → s.total ≤ 2 ^ 53 →
    (s.ctx.finalScore.toNat : ℤ) = exactScore s.ctx

/-- It depends on the samples only. -/
theorem exactScore_congr {c c' : Ctx} (hcount : c'.sampleCount = c.sampleCount)
    (hsamples : c'.samples = c.samples) (hinvalid : c'.invalid = c.invalid) :
    exactScore c' = exactScore c := by
  simp only [exactScore, exactCost, hcount, hsamples, hinvalid]

/-- What `compute_score` returns. -/
theorem Scorable.toNat_computeScore {c : Ctx} (h : Scorable c) (junk : UInt64) :
    ((computeScore junk c).toNat : ℤ) = exactScore c := by
  obtain ⟨v, hv, hscore⟩ := h.yields_score
  rw [← agrees_score junk c v hv, hscore]
  exact h.scoreNat_cast

/-- Only the call of `compute_score` is counted. -/
theorem Step.scored {s s' : State} {a : Act} (hs : Step s a s') :
    s'.scored = s.scored ∨ s.ctrl = .score ∧ ∃ junk, s' = (s.score junk).ctrlTo .top := by
  cases hs with
  | worker hs => cases hs <;> exact .inl rfl
  | ctrl hs =>
    cases hs with
    | score hp => exact .inr ⟨hp, _, rfl⟩
    | _ => exact .inl rfl
  | fire hs | callback hs => cases hs <;> exact .inl rfl
  | wake _ | runCtrl _ _ | askWorker | askCtrl | delTimer _ _ => exact .inl rfl

/-- Where the score has been computed, the timer is dead. -/
theorem Inv.halted_of_scored {s : State} (h : Inv s) (hscored : s.scored = 1) :
    s.halted = true := by
  have hctrl := h.ctrl
  cases hp : s.ctrl <;> rw [hp] at hctrl
  case absent => cases hctrl.2.symm.trans hscored
  case top | testStop =>
    rcases hctrl with hgoing | hover
    · cases hgoing.2.1.symm.trans hscored
    · exact hover.2.2.1
  case exited =>
    rcases hctrl with hgoing | hover
    · cases hgoing.2.symm.trans hscored
    · exact hover.2.2.1
  all_goals cases hctrl.2.1.symm.trans hscored

theorem State.Exact.step {tz : Cpu → Bool} {s s' : State} {a : Act}
    (hs : ((lts tz).restrict fun _ a => a.Possible).Reachable s) (h : s.Exact)
    (hstep : Step s a s') : s'.Exact := by
  intro hscored hpos hfew
  have hinv : Inv s := (inv_inductive tz).reachable hs.of_restrict
  have hle := hstep.total_le
  rcases hstep.scored with hsame | ⟨hp, junk, rfl⟩
  · -- nothing that the score depends on changes any more
    rw [hsame] at hscored
    obtain ⟨-, hscore⟩ := hinv.score_step hscored hstep
    obtain ⟨-, hcount, hsamples, hinvalid⟩ :=
      hinv.samples_step (hinv.halted_of_scored hscored) hstep
    rw [hcount] at hpos
    rw [hscore, exactScore_congr hcount hsamples hinvalid]
    exact h hscored hpos (hle.trans hfew)
  · exact (scorable_of_run hs hp hpos (hle.trans hfew)).toNat_computeScore junk

theorem exact_inductive (tz : Cpu → Bool) :
    ((lts tz).restrict fun _ a => a.Possible).Inductive fun s =>
      ((lts tz).restrict fun _ a => a.Possible).Reachable s ∧ s.Exact :=
  Lts.reachable_inductive.and
    (fun hi hscored => by
      cases hi
      cases hscored)
    (fun hs h hstep => h.step hs (step_of_next hstep.2))

/-- **The final score** is the one in unbounded integers of the samples taken, in every run in
which a sample is taken, no sensor reads too little and not too many operations are counted,
from the call of `compute_score` on. -/
theorem final_score_exact {tz : Cpu → Bool} {s : State}
    (hs : ((lts tz).restrict fun _ a => a.Possible).Reachable s) (hscored : s.scored = 1)
    (hpos : 1 ≤ s.ctx.sampleCount) (hfew : s.total ≤ 2 ^ 53) :
    (s.ctx.finalScore.toNat : ℤ) = exactScore s.ctx :=
  ((exact_inductive tz).reachable hs).2 hscored hpos hfew

/-- What a run with a score ends with. -/
def ending (s : State) : ℕ × ℕ × ℕ × UInt64 :=
  (s.scored, s.ctx.sampleCount, s.total, s.ctx.finalScore)

/-- Two samples with possible temperatures, the second one ten degrees warmer, and the score. -/
theorem final_score_exact_warmer : ∃ s : State,
    ((lts fun _ => true).restrict fun _ a => a.Possible).Reachable s ∧ s.scored = 1 ∧
      1 ≤ s.ctx.sampleCount ∧ s.total ≤ 2 ^ 53 ∧
      exactScore s.ctx = s.ctx.finalScore.toNat ∧ s.ctx.finalScore = 24 := by
  obtain ⟨s, hs, h⟩ : ∃ s : State,
      ((lts fun _ => true).restrict fun _ a => a.Possible).Reachable s ∧
        ending s = (1, 2, 60, 24) :=
    Lts.exists_reachable_of_map
      (twoSamples (List.replicate 4 (some 40000)) (List.replicate 4 (some 50000)) ++
        [.ctrl true 0]) ending (by decide +kernel)
  simp only [ending, Prod.mk.injEq] at h
  obtain ⟨hscored, hcount, htotal, hscore⟩ := h
  have hpos : 1 ≤ s.ctx.sampleCount := by omega
  have hfew : s.total ≤ 2 ^ 53 := by omega
  exact ⟨s, hs, hscored, hpos, hfew, (final_score_exact hs hscored hpos hfew).symm, hscore⟩

end CryptoChallenge

end KernelModules
