import KernelModules.Checked
import Mathlib.Order.Basic
import Mathlib.Order.Monotone.Basic

/-!
# The pocket monster: a closed form for every tick

`Pocket_monster/pocket_monster.c` keeps a monster that a delayed work ages once a second: it gets
hungrier by ten, loses five of its energy, and both counters are clamped to `[0, 100]` before its
mood follows from them. The two counters start wherever the module parameters say, after clamping
those too.

* `monsterTick`, `kernelMonsterInit` — the two functions that write the monster;
* `checkedTicks` — the same ticks, given up at the first addition or subtraction that overflows;
* `moodAt`, `hungerAt`, `energyAt` — what the counters are for, on integers;
* `Aged` — the closed form, kept by each tick;
* `monster_closed_form` — **the closed form** after any number of ticks.
-/

namespace KernelModules

namespace PocketMonster

open Checked

/-! ## The monster -/

/-- What `monster.mood` holds, from the best mood to the worst one -/
inductive Mood
  /-- `"happy"` -/
  | happy
  /-- `"hungry"` -/
  | hungry
  /-- `"angry"` -/
  | angry
  /-- `"sleepy"` -/
  | sleepy
  deriving DecidableEq, Repr

namespace Mood

/-- The text that `update_mood` copies into `monster.mood` -/
def text : Mood → String
  | happy => "happy"
  | hungry => "hungry"
  | angry => "angry"
  | sleepy => "sleepy"

/-- How far a mood is from the best one -/
def rank : Mood → ℕ
  | happy => 0
  | hungry => 1
  | angry => 2
  | sleepy => 3

/-- Moods in the order happy, hungry, angry, sleepy. -/
instance : Preorder Mood := Preorder.lift rank

theorem le_iff_rank_le {x y : Mood} : x ≤ y ↔ x.rank ≤ y.rank := Iff.rfl

end Mood

/-- `struct kernel_monster` -/
@[ext]
structure KernelMonster where
  /-- `name`, without its terminating zero -/
  name : List UInt8
  /-- `hunger` -/
  hunger : Int32
  /-- `energy` -/
  energy : Int32
  /-- `age` -/
  age : Int32
  /-- `mood` -/
  mood : Mood
  deriving DecidableEq, Repr

/-- `clamp_value(value, min, max)` -/
def clampValue (value lo hi : Int32) : Int32 :=
  if value < lo then lo
  else if hi < value then hi
  else value

/-- The cascade of `update_mood` -/
def moodOf (hunger energy : Int32) : Mood :=
  if energy < 20 then .sleepy
  else if 80 < hunger then .angry
  else if 50 < hunger then .hungry
  else .happy

/-- `update_mood(p)` -/
def updateMood (p : KernelMonster) : KernelMonster := { p with mood := moodOf p.hunger p.energy }

/-- `monster_tick(p)`, statement by statement -/
def monsterTick (p : KernelMonster) : KernelMonster :=
  let p := { p with age := p.age + 1 }
  let p := { p with hunger := p.hunger + 10 }
  let p := { p with energy := p.energy - 5 }
  let p := { p with hunger := clampValue p.hunger 0 100 }
  let p := { p with energy := clampValue p.energy 0 100 }
  updateMood p

/-- `"Poupoule"`, the default of the module parameter `name` -/
def poupoule : List UInt8 := [80, 111, 117, 112, 111, 117, 108, 101]

/-- The monster that `kernel_monster_init` leaves, for the module parameters `name`, `hunger` and
`energy` -/
def kernelMonsterInit (name : List UInt8) (hunger energy : Int32) : KernelMonster :=
  let hunger := clampValue hunger 0 100
  let energy := clampValue energy 0 100
  updateMood { name, hunger, energy, age := 0, mood := .happy }

/-- `monster_tick` with every addition and subtraction checked -/
def checkedTick (p : KernelMonster) : Option KernelMonster := do
  let age ← add32 p.age 1
  let hunger ← add32 p.hunger 10
  let energy ← sub32 p.energy 5
  let hunger := clampValue hunger 0 100
  let energy := clampValue energy 0 100
  some (updateMood { p with age, hunger, energy })

/-- `n` ticks, given up at the first addition or subtraction that overflows -/
def checkedTicks : ℕ → KernelMonster → Option KernelMonster
  | 0, p => some p
  | n + 1, p => checkedTicks n p >>= checkedTick

/-! ## On integers -/

/-- A module parameter clamped to `[0, 100]` -/
def clamped (x : Int32) : ℤ := max 0 (min 100 x.toInt)

/-- Hunger `n` ticks after it was `h` -/
def hungerAt (h : ℤ) (n : ℕ) : ℤ := min 100 (h + 10 * n)

/-- Energy `n` ticks after it was `e` -/
def energyAt (e : ℤ) (n : ℕ) : ℤ := max 0 (e - 5 * n)

/-- The mood for a hunger and an energy -/
def moodAt (hunger energy : ℤ) : Mood :=
  if energy < 20 then .sleepy
  else if 80 < hunger then .angry
  else if 50 < hunger then .hungry
  else .happy

theorem clamped_bounds (x : Int32) : 0 ≤ clamped x ∧ clamped x ≤ 100 := by
  unfold clamped
  omega

/-- Hungrier and more tired is never a better mood. -/
theorem moodAt_mono {h h' e e' : ℤ} (hh : h ≤ h') (he : e' ≤ e) :
    moodAt h e ≤ moodAt h' e' := by
  rw [Mood.le_iff_rank_le]
  unfold moodAt
  grind [Mood.rank]

theorem hungerAt_mono (h : ℤ) {m n : ℕ} (hmn : m ≤ n) : hungerAt h m ≤ hungerAt h n := by
  unfold hungerAt
  omega

theorem energyAt_anti (e : ℤ) {m n : ℕ} (hmn : m ≤ n) : energyAt e n ≤ energyAt e m := by
  unfold energyAt
  omega

theorem clampValue_toInt (value : Int32) :
    (clampValue value 0 100).toInt = max 0 (min 100 value.toInt) := by
  have h0 : (0 : Int32).toInt = 0 := rfl
  have h100 : (100 : Int32).toInt = 100 := rfl
  unfold clampValue
  split
  case isTrue hlt =>
    rw [Int32.lt_iff_toInt_lt, h0] at hlt
    rw [h0]
    omega
  case isFalse hge =>
    rw [Int32.lt_iff_toInt_lt, h0] at hge
    split
    case isTrue hgt =>
      rw [Int32.lt_iff_toInt_lt, h100] at hgt
      rw [h100]
      omega
    case isFalse hle =>
      rw [Int32.lt_iff_toInt_lt, h100] at hle
      omega

theorem moodOf_eq_moodAt (hunger energy : Int32) :
    moodOf hunger energy = moodAt hunger.toInt energy.toInt := by
  have h20 : (20 : Int32).toInt = 20 := rfl
  have h80 : (80 : Int32).toInt = 80 := rfl
  have h50 : (50 : Int32).toInt = 50 := rfl
  simp only [moodOf, moodAt, Int32.lt_iff_toInt_lt, h20, h80, h50]

/-! ## One tick -/

/-- The closed form `n` ticks after hunger was `h` and energy `e` -/
structure Aged (h e : ℤ) (n : ℕ) (p : KernelMonster) : Prop where
  /-- the age, as long as it fits an `int` -/
  age : n < 2 ^ 31 → p.age.toInt = n
  /-- hunger, saturated at 100 -/
  hunger : p.hunger.toInt = hungerAt h n
  /-- energy, saturated at 0 -/
  energy : p.energy.toInt = energyAt e n
  /-- the mood follows the two counters -/
  mood : p.mood = moodAt p.hunger.toInt p.energy.toInt

namespace Aged

variable {h e : ℤ} {n : ℕ} {p : KernelMonster}

theorem born (name : List UInt8) (hunger energy : Int32) :
    Aged (clamped hunger) (clamped energy) 0 (kernelMonsterInit name hunger energy) where
  age _ := rfl
  hunger := by
    have hb := clamped_bounds hunger
    have hc : (kernelMonsterInit name hunger energy).hunger.toInt = clamped hunger :=
      clampValue_toInt hunger
    rw [hc, hungerAt]
    omega
  energy := by
    have hb := clamped_bounds energy
    have hc : (kernelMonsterInit name hunger energy).energy.toInt = clamped energy :=
      clampValue_toInt energy
    rw [hc, energyAt]
    omega
  mood := moodOf_eq_moodAt _ _

/-- Where hunger lies between 0 and 100, adding ten to it is exact. -/
theorem add_hunger (hp : Aged h e n p) (hh : 0 ≤ h) :
    add32 p.hunger 10 = some (p.hunger + 10) ∧
      (p.hunger + 10).toInt = p.hunger.toInt + 10 := by
  have hrange : 0 ≤ p.hunger.toInt ∧ p.hunger.toInt ≤ 100 := by
    rw [hp.hunger, hungerAt]
    omega
  have h10 : (10 : Int32).toInt = 10 := rfl
  exact (agrees_add32 p.hunger 10).exact (yields_add32 (by omega) (by omega))

/-- Where energy lies between 0 and 100, taking five from it is exact. -/
theorem sub_energy (hp : Aged h e n p) (he : e ≤ 100) :
    sub32 p.energy 5 = some (p.energy - 5) ∧
      (p.energy - 5).toInt = p.energy.toInt - 5 := by
  have hrange : 0 ≤ p.energy.toInt ∧ p.energy.toInt ≤ 100 := by
    rw [hp.energy, energyAt]
    omega
  have h5 : (5 : Int32).toInt = 5 := rfl
  exact (agrees_sub32 p.energy 5).exact (yields_sub32 (by omega) (by omega))

/-- One more year is exact until the last `int`. -/
theorem add_age (hp : Aged h e n p) (hn : n + 1 < 2 ^ 31) :
    add32 p.age 1 = some (p.age + 1) ∧ (p.age + 1).toInt = p.age.toInt + 1 := by
  have hage := hp.age (Nat.lt_of_succ_lt hn)
  have h1 : (1 : Int32).toInt = 1 := rfl
  exact (agrees_add32 p.age 1).exact (yields_add32 (by omega) (by omega))

/-- **A tick keeps the closed form.** -/
theorem tick (hp : Aged h e n p) (hh : 0 ≤ h) (he : e ≤ 100) :
    Aged h e (n + 1) (monsterTick p) where
  age hn := by
    have hage := hp.age (Nat.lt_of_succ_lt hn)
    have hadd : (monsterTick p).age.toInt = p.age.toInt + 1 := (hp.add_age hn).2
    rw [hadd, hage, Nat.cast_succ]
  hunger := by
    have hclamp : (monsterTick p).hunger.toInt = max 0 (min 100 (p.hunger + 10).toInt) :=
      clampValue_toInt _
    rw [hclamp, (hp.add_hunger hh).2, hp.hunger, hungerAt, hungerAt]
    omega
  energy := by
    have hclamp : (monsterTick p).energy.toInt = max 0 (min 100 (p.energy - 5).toInt) :=
      clampValue_toInt _
    rw [hclamp, (hp.sub_energy he).2, hp.energy, energyAt, energyAt]
    omega
  mood := moodOf_eq_moodAt _ _

/-- A tick of a monster that is not too old overflows nowhere. -/
theorem checkedTick_eq (hp : Aged h e n p) (hh : 0 ≤ h) (he : e ≤ 100) (hn : n + 1 < 2 ^ 31) :
    checkedTick p = some (monsterTick p) := by
  rw [checkedTick, (hp.add_age hn).1, (hp.add_hunger hh).1, (hp.sub_energy he).1]
  rfl

end Aged

/-! ## Any number of ticks -/

section Ticks

variable (name : List UInt8) (hunger energy : Int32)

/-- The monster `n` ticks after `kernel_monster_init` -/
def monsterAt (n : ℕ) : KernelMonster := monsterTick^[n] (kernelMonsterInit name hunger energy)

theorem monsterAt_succ (n : ℕ) :
    monsterAt name hunger energy (n + 1) = monsterTick (monsterAt name hunger energy n) :=
  Function.iterate_succ_apply' ..

/-- **The closed form holds after any number of ticks.** -/
theorem aged_monsterAt (n : ℕ) :
    Aged (clamped hunger) (clamped energy) n (monsterAt name hunger energy n) := by
  induction n with
  | zero => exact .born name hunger energy
  | succ n ih =>
    rw [monsterAt_succ]
    exact ih.tick (clamped_bounds hunger).1 (clamped_bounds energy).2

/-- No tick of an age that fits an `int` overflows. -/
theorem checkedTicks_eq {n : ℕ} (hn : n < 2 ^ 31) :
    checkedTicks n (kernelMonsterInit name hunger energy) =
      some (monsterAt name hunger energy n) := by
  induction n with
  | zero => rfl
  | succ n ih =>
    rw [checkedTicks, ih (Nat.lt_of_succ_lt hn), monsterAt_succ]
    exact (aged_monsterAt name hunger energy n).checkedTick_eq (clamped_bounds hunger).1
      (clamped_bounds energy).2 hn

theorem mood_monsterAt (n : ℕ) :
    (monsterAt name hunger energy n).mood =
      moodAt (hungerAt (clamped hunger) n) (energyAt (clamped energy) n) := by
  have haged := aged_monsterAt name hunger energy n
  rw [haged.mood, haged.hunger, haged.energy]

theorem mood_monsterAt_mono : Monotone fun n => (monsterAt name hunger energy n).mood := by
  intro m n hmn
  simp only [mood_monsterAt]
  exact moodAt_mono (hungerAt_mono _ hmn) (energyAt_anti _ hmn)

theorem mood_monsterAt_sleepy {n : ℕ} (hn : 17 ≤ n) :
    (monsterAt name hunger energy n).mood = .sleepy := by
  have he : clamped energy ≤ 100 := (clamped_bounds energy).2
  rw [mood_monsterAt, moodAt, if_pos]
  rw [energyAt]
  omega

end Ticks

/-- **The kernel monster follows its closed form**: for all parameters and every number of ticks
that fits an `int`, nothing overflows, and the age, the two counters and the mood are what the
closed form says; the mood never gets better, and is sleepy for ever from tick 17 on. -/
theorem monster_closed_form (name : List UInt8) (hunger energy : Int32) (n : ℕ) (hn : n < 2 ^ 31) :
    checkedTicks n (kernelMonsterInit name hunger energy) =
        some (monsterAt name hunger energy n) ∧
      (monsterAt name hunger energy n).age.toInt = n ∧
      (monsterAt name hunger energy n).hunger.toInt = min 100 (clamped hunger + 10 * n) ∧
      (monsterAt name hunger energy n).energy.toInt = max 0 (clamped energy - 5 * n) ∧
      (monsterAt name hunger energy n).mood =
        moodAt (monsterAt name hunger energy n).hunger.toInt
          (monsterAt name hunger energy n).energy.toInt ∧
      (∀ m ≤ n, (monsterAt name hunger energy m).mood ≤ (monsterAt name hunger energy n).mood) ∧
      (17 ≤ n → (monsterAt name hunger energy n).mood = .sleepy) := by
  have haged := aged_monsterAt name hunger energy n
  exact ⟨checkedTicks_eq name hunger energy hn, haged.age hn, haged.hunger, haged.energy,
    haged.mood, fun m hm => mood_monsterAt_mono name hunger energy hm,
    mood_monsterAt_sleepy name hunger energy⟩

/-- The monster of the default parameters, 17 ticks after it was born. -/
theorem monster_closed_form_default :
    (monsterAt poupoule 20 90 17).age.toInt = 17 ∧
      (monsterAt poupoule 20 90 17).mood = .sleepy := by
  obtain ⟨-, hage, -, -, -, -, hsleepy⟩ := monster_closed_form poupoule 20 90 17 (by decide)
  exact ⟨hage, hsleepy le_rfl⟩

end PocketMonster

end KernelModules
