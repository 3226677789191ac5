import KernelModules.PocketMonster
import KernelModules.Transition

/-!
# Reading the pocket monster while it ages

`monster_proc_show` looks at the monster five times without a lock, and `monster_tick` may take
any number of its steps in between. What a reader has seen is then put together from several
states, some of which are no state between two ticks at all.

* `midTick` — the monster between two statements of a tick;
* `Reader`, `monsterLts` — the readers, one `seq_printf` at a time, and the tick;
* `InTime` — a reader looks at a field while it holds what it held after the tick that made the
  age shown;
* `Real` — what was shown is the monster after some completed tick;
* `shown_real_iff` — **a call shows a real monster** exactly if all its looks were in time.
-/

namespace KernelModules

namespace PocketMonster

/-! ## A tick, statement by statement -/

/-- How far `monster_tick` has got -/
inductive TickPc
  /-- between two ticks -/
  | idle
  /-- after `p->age += 1` -/
  | aged
  /-- after `p->hunger += 10` -/
  | fed
  /-- after `p->energy -= 5` -/
  | tired
  /-- after hunger has been clamped -/
  | hungerClamped
  /-- after energy has been clamped -/
  | energyClamped
  deriving DecidableEq

/-- The monster, after a whole number of ticks `p`, at some point of the next one -/
def midTick : TickPc → KernelMonster → KernelMonster
  | .idle, p => p
  | .aged, p => { p with age := p.age + 1 }
  | .fed, p => { p with age := p.age + 1, hunger := p.hunger + 10 }
  | .tired, p => { p with age := p.age + 1, hunger := p.hunger + 10, energy := p.energy - 5 }
  | .hungerClamped, p => { p with
      age := p.age + 1, hunger := clampValue (p.hunger + 10) 0 100, energy := p.energy - 5 }
  | .energyClamped, p => { p with
      age := p.age + 1
      hunger := clampValue (p.hunger + 10) 0 100
      energy := clampValue (p.energy - 5) 0 100 }

/-- How far a call of `monster_proc_show` has got -/
inductive ShowPc
  /-- no call -/
  | idle
  /-- the name has been printed -/
  | named
  /-- and the age -/
  | sawAge
  /-- and hunger -/
  | sawHunger
  /-- and energy -/
  | sawEnergy
  deriving DecidableEq

/-- A call of `monster_proc_show`. Nothing reads the last two fields. -/
structure Reader where
  /-- how far it has got -/
  pc : ShowPc
  /-- what it has printed so far -/
  seen : KernelMonster
  /-- the tick that made the age printed -/
  tick : ℕ
  /-- all its looks since were in time -/
  inTime : Bool

/-- The output of one call, with what is known of it. -/
structure Shown where
  /-- the five fields printed -/
  seen : KernelMonster
  /-- the tick that made the age printed -/
  tick : ℕ
  /-- all looks were in time -/
  inTime : Bool
  /-- the ticks completed by then -/
  completed : ℕ
  deriving DecidableEq

/-- The monster, its tick and its readers. -/
structure State where
  /-- `monster` -/
  monster : KernelMonster
  /-- where `monster_tick` is -/
  pc : TickPc
  /-- the ticks completed so far -/
  ticks : ℕ
  /-- the calls of `monster_proc_show` -/
  readers : ℕ → Reader
  /-- the output of the calls that have returned -/
  shown : List Shown

/-- Reader `r` has moved. -/
def State.setReader (s : State) (r : ℕ) (x : Reader) : State :=
  { s with readers := Function.update s.readers r x }

/-- What happens next. -/
inductive Act
  /-- the next statement of `monster_tick` -/
  | tick
  /-- the next `seq_printf` of a reader -/
  | look (r : ℕ)

/-- The next statement of `monster_tick` -/
def tickStep (s : State) : State :=
  let p := s.monster
  match s.pc with
  | .idle => { s with monster := { p with age := p.age + 1 }, pc := .aged }
  | .aged => { s with monster := { p with hunger := p.hunger + 10 }, pc := .fed }
  | .fed => { s with monster := { p with energy := p.energy - 5 }, pc := .tired }
  | .tired => { s with
      monster := { p with hunger := clampValue p.hunger 0 100 }, pc := .hungerClamped }
  | .hungerClamped => { s with
      monster := { p with energy := clampValue p.energy 0 100 }, pc := .energyClamped }
  | .energyClamped => { s with monster := updateMood p, pc := .idle, ticks := s.ticks + 1 }

/-- What holds of every reader, and of the one that has moved. -/
theorem State.forall_setReader {P : Reader → Prop} {s : State} {r : ℕ} {x : Reader}
    (h : ∀ r, P (s.readers r)) (hx : P x) (r' : ℕ) : P ((s.setReader r x).readers r') := by
  change P (Function.update s.readers r x r')
  by_cases hr : r' = r
  · rw [hr, Function.update_self]
    exact hx
  · rw [Function.update_of_ne hr]
    exact h r'

/-! ## When a look is in time -/

/-- The tick that made the age the monster has -/
def State.ageTick (s : State) : ℕ := if s.pc = .idle then s.ticks else s.ticks + 1

/-- The tick whose result `hunger` holds: none while it is over 100. -/
def State.hungerTick (s : State) : Option ℕ :=
  match s.pc with
  | .idle | .aged => some s.ticks
  | .fed | .tired => if s.monster.hunger.toInt ≤ 100 then some (s.ticks + 1) else none
  | .hungerClamped | .energyClamped => some (s.ticks + 1)

/-- The tick whose result `energy` holds: none while it is under 0. -/
def State.energyTick (s : State) : Option ℕ :=
  match s.pc with
  | .idle | .aged | .fed => some s.ticks
  | .tired | .hungerClamped => if 0 ≤ s.monster.energy.toInt then some (s.ticks + 1) else none
  | .energyClamped => some (s.ticks + 1)

/-- Hunger, `h` at first, is the same after both ticks: they are one, or it is saturated. -/
def SameHunger (h : ℤ) (k n : ℕ) : Prop := k = n ∨ 100 ≤ h + 10 * k ∧ 100 ≤ h + 10 * n

/-- Energy, `e` at first, is the same after both ticks: they are one, or it is used up. -/
def SameEnergy (e : ℤ) (k n : ℕ) : Prop := k = n ∨ e ≤ 5 * k ∧ e ≤ 5 * n

/-- The mood is the same after both ticks. -/
def SameMood (h e : ℤ) (k n : ℕ) : Prop :=
  moodAt (hungerAt h k) (energyAt e k) = moodAt (hungerAt h n) (energyAt e n)

section Decidability

variable (h e : ℤ) (k n : ℕ)

instance : Decidable (SameHunger h k n) :=
  inferInstanceAs (Decidable (k = n ∨ 100 ≤ h + 10 * k ∧ 100 ≤ h + 10 * n))

instance : Decidable (SameEnergy e k n) :=
  inferInstanceAs (Decidable (k = n ∨ e ≤ 5 * k ∧ e ≤ 5 * n))

instance : Decidable (SameMood h e k n) :=
  inferInstanceAs (Decidable (moodAt (hungerAt h k) (energyAt e k) =
    moodAt (hungerAt h n) (energyAt e n)))

end Decidability

section System

variable (name : List UInt8) (hunger energy : Int32)

/-- A look is in time: after the age, the field looked at holds what it held after the tick that
made the age; and that tick has ended before the last look. -/
def InTime (s : State) : Act → Prop
  | .tick => True
  | .look r =>
    let n := (s.readers r).tick
    match (s.readers r).pc with
    | .idle | .named => True
    | .sawAge => ∃ k ∈ s.hungerTick, SameHunger (clamped hunger) k n
    | .sawHunger => ∃ k ∈ s.energyTick, SameEnergy (clamped energy) k n
    | .sawEnergy => n ≤ s.ticks ∧ SameMood (clamped hunger) (clamped energy) s.ticks n

instance (s : State) (a : Act) : Decidable (InTime hunger energy s a) := by
  cases a with
  | tick => exact isTrue trivial
  | look r =>
    unfold InTime
    dsimp only
    split <;> infer_instance

/-- The next `seq_printf` of reader `r` -/
def lookStep (s : State) (r : ℕ) : State :=
  let x := s.readers r
  let p := s.monster
  let inTime := x.inTime && decide (InTime hunger energy s (.look r))
  match x.pc with
  | .idle => s.setReader r { x with pc := .named, seen.name := p.name }
  | .named => s.setReader r
      { x with pc := .sawAge, seen.age := p.age, tick := s.ageTick, inTime := true }
  | .sawAge => s.setReader r { x with pc := .sawHunger, seen.hunger := p.hunger, inTime }
  | .sawHunger => s.setReader r { x with pc := .sawEnergy, seen.energy := p.energy, inTime }
  | .sawEnergy => { s.setReader r { x with pc := .idle } with
      shown := s.shown ++ [⟨{ x.seen with mood := p.mood }, x.tick, inTime, s.ticks⟩] }

/-- One step of anyone. -/
def next (s : State) : Act → Option State
  | .tick => some (tickStep s)
  | .look r => some (lookStep hunger energy s r)

/-- The steps of `next` -/
theorem next_cases {hunger energy : Int32} {s s' : State} {a : Act}
    (h : next hunger energy s a = some s') :
    a = .tick ∧ s' = tickStep s ∨ ∃ r, a = .look r ∧ s' = lookStep hunger energy s r := by
  cases a with
  | tick => exact .inl ⟨rfl, (Option.some.inj h).symm⟩
  | look r => exact .inr ⟨r, rfl, (Option.some.inj h).symm⟩

/-- The monster has just been born, and nobody has looked at it. -/
def start : State where
  monster := kernelMonsterInit name hunger energy
  pc := .idle
  ticks := 0
  readers _ := ⟨.idle, kernelMonsterInit [] 0 0, 0, true⟩
  shown := []

/-- Any number of ticks and of readers. -/
def monsterLts : Lts State Act := Lts.ofNext (start name hunger energy) (next hunger energy)

/-- What was shown is the monster after some tick completed by then, or the one that was born. -/
def Real (x : Shown) : Prop := ∃ k ≤ x.completed, x.seen = monsterAt name hunger energy k

end System

/-! ## What the fields hold -/

section Fields

variable {name : List UInt8} {hunger energy : Int32}

theorem name_monsterAt (n : ℕ) : (monsterAt name hunger energy n).name = name := by
  induction n with
  | zero => rfl
  | succ n ih =>
    rw [monsterAt_succ]
    exact ih

theorem hunger_eq_iff (k n : ℕ) :
    (monsterAt name hunger energy k).hunger = (monsterAt name hunger energy n).hunger ↔
      SameHunger (clamped hunger) k n := by
  rw [← Int32.toInt_inj, (aged_monsterAt name hunger energy k).hunger,
    (aged_monsterAt name hunger energy n).hunger, SameHunger, hungerAt, hungerAt]
  omega

theorem energy_eq_iff (k n : ℕ) :
    (monsterAt name hunger energy k).energy = (monsterAt name hunger energy n).energy ↔
      SameEnergy (clamped energy) k n := by
  rw [← Int32.toInt_inj, (aged_monsterAt name hunger energy k).energy,
    (aged_monsterAt name hunger energy n).energy, SameEnergy, energyAt, energyAt]
  omega

theorem mood_eq_iff (k n : ℕ) :
    (monsterAt name hunger energy k).mood = (monsterAt name hunger energy n).mood ↔
      SameMood (clamped hunger) (clamped energy) k n := by
  rw [mood_monsterAt, mood_monsterAt, SameMood]

/-- The age tells the tick, as long as it fits an `int`. -/
theorem age_inj {k n : ℕ} (hk : k < 2 ^ 31) (hn : n < 2 ^ 31)
    (h : (monsterAt name hunger energy k).age = (monsterAt name hunger energy n).age) :
    k = n := by
  have hage := congrArg Int32.toInt h
  rw [(aged_monsterAt name hunger energy k).age hk,
    (aged_monsterAt name hunger energy n).age hn] at hage
  exact Nat.cast_inj.mp hage

theorem hunger_le (n : ℕ) : (monsterAt name hunger energy n).hunger.toInt ≤ 100 := by
  rw [(aged_monsterAt name hunger energy n).hunger, hungerAt]
  omega

theorem energy_nonneg (n : ℕ) : 0 ≤ (monsterAt name hunger energy n).energy.toInt := by
  rw [(aged_monsterAt name hunger energy n).energy, energyAt]
  omega

/-- Before it is clamped, hunger up to 100 is what clamping leaves. -/
theorem hunger_succ_of_le {n : ℕ}
    (h : ((monsterAt name hunger energy n).hunger + 10).toInt ≤ 100) :
    (monsterAt name hunger energy n).hunger + 10 =
      (monsterAt name hunger energy (n + 1)).hunger := by
  have hbounds := clamped_bounds hunger
  have haged := aged_monsterAt name hunger energy n
  have hadd := (haged.add_hunger hbounds.1).2
  rw [← Int32.toInt_inj, (aged_monsterAt name hunger energy (n + 1)).hunger]
  rw [hadd, haged.hunger] at h ⊢
  simp only [hungerAt] at h ⊢
  omega

/-- Before it is clamped, energy down to 0 is what clamping leaves. -/
theorem energy_succ_of_nonneg {n : ℕ}
    (h : 0 ≤ ((monsterAt name hunger energy n).energy - 5).toInt) :
    (monsterAt name hunger energy n).energy - 5 =
      (monsterAt name hunger energy (n + 1)).energy := by
  have hbounds := clamped_bounds energy
  have haged := aged_monsterAt name hunger energy n
  have hsub := (haged.sub_energy hbounds.2).2
  rw [← Int32.toInt_inj, (aged_monsterAt name hunger energy (n + 1)).energy]
  rw [hsub, haged.energy] at h ⊢
  simp only [energyAt] at h ⊢
  omega

end Fields

/-- A field that holds the result of some tick, or of none, holds that of tick `n` exactly if its
tick leaves the same there. -/
theorem exists_mem_iff_eq {α : Type*} {tick : Option ℕ} {now : α} {after : ℕ → α} {n : ℕ}
    {same : ℕ → Prop}
    (hnow : (∃ k, tick = some k ∧ now = after k) ∨ tick = none ∧ ∀ m, now ≠ after m)
    (hsame : ∀ k, after k = after n ↔ same k) : (∃ k ∈ tick, same k) ↔ now = after n := by
  obtain ⟨k, rfl, rfl⟩ | ⟨rfl, hnone⟩ := hnow
  · simp [hsame]
  · simp [hnone n]

/-! ## The monster in every state -/

section Runs

variable (name : List UInt8) (hunger energy : Int32)

/-- The monster is where its tick has got to. -/
def OnTick (s : State) : Prop := s.monster = midTick s.pc (monsterAt name hunger energy s.ticks)

variable {name hunger energy} {s : State}

theorem OnTick.tickStep (h : OnTick name hunger energy s) :
    OnTick name hunger energy (tickStep s) := by
  unfold OnTick PocketMonster.tickStep at *
  cases hpc : s.pc <;> rw [hpc] at h <;> dsimp only <;> rw [h]
  case energyClamped =>
    rw [monsterAt_succ]
    rfl
  all_goals rfl

/-- A reader writes nothing but its own output. -/
theorem lookStep_frame (hunger energy : Int32) (s : State) (r : ℕ) :
    (lookStep hunger energy s r).monster = s.monster ∧
      (lookStep hunger energy s r).pc = s.pc ∧
      (lookStep hunger energy s r).ticks = s.ticks := by
  unfold lookStep
  dsimp only
  split <;> exact ⟨rfl, rfl, rfl⟩

theorem OnTick.lookStep (h : OnTick name hunger energy s) (r : ℕ) :
    OnTick name hunger energy (lookStep hunger energy s r) := by
  obtain ⟨hmonster, hpc, hticks⟩ := lookStep_frame hunger energy s r
  rw [OnTick, hmonster, hpc, hticks]
  exact h

theorem onTick_inductive :
    (monsterLts name hunger energy).Inductive (OnTick name hunger energy) where
  init := by
    rintro s rfl
    rfl
  step := by
    intro s s' a h hs
    obtain ⟨-, rfl⟩ | ⟨r, -, rfl⟩ := next_cases hs
    · exact h.tickStep
    · exact h.lookStep r

namespace OnTick

theorem name_eq (h : OnTick name hunger energy s) : s.monster.name = name := by
  rw [h]
  cases s.pc <;> exact name_monsterAt s.ticks

theorem age_eq (h : OnTick name hunger energy s) :
    s.monster.age = (monsterAt name hunger energy s.ageTick).age := by
  rw [h, State.ageTick]
  cases s.pc
  case idle => rfl
  all_goals
    rw [if_neg (by decide), monsterAt_succ]
    rfl

theorem ageTick_le : s.ageTick ≤ s.ticks + 1 := by
  rw [State.ageTick]
  split <;> omega

/-- Hunger is that of its tick, or over 100, as after no tick. -/
theorem hunger_eq (h : OnTick name hunger energy s) :
    (∃ k, s.hungerTick = some k ∧ s.monster.hunger = (monsterAt name hunger energy k).hunger) ∨
      s.hungerTick = none ∧ ∀ n, s.monster.hunger ≠ (monsterAt name hunger energy n).hunger := by
  rw [OnTick] at h
  unfold State.hungerTick
  cases hpc : s.pc <;> rw [hpc] at h <;> dsimp only
  case idle | aged => exact .inl ⟨s.ticks, rfl, by rw [h]; rfl⟩
  case hungerClamped | energyClamped =>
    refine .inl ⟨s.ticks + 1, rfl, ?_⟩
    rw [h, monsterAt_succ]
    rfl
  case fed | tired =>
    have hnow : s.monster.hunger = (monsterAt name hunger energy s.ticks).hunger + 10 := by
      rw [h]
      rfl
    rw [hnow]
    split
    case isTrue hle => exact .inl ⟨s.ticks + 1, rfl, hunger_succ_of_le hle⟩
    case isFalse hgt => exact .inr ⟨rfl, fun n heq => hgt (heq ▸ hunger_le n)⟩

/-- Energy is that of its tick, or under 0, as after no tick. -/
theorem energy_eq (h : OnTick name hunger energy s) :
    (∃ k, s.energyTick = some k ∧ s.monster.energy = (monsterAt name hunger energy k).energy) ∨
      s.energyTick = none ∧ ∀ n, s.monster.energy ≠ (monsterAt name hunger energy n).energy := by
  rw [OnTick] at h
  unfold State.energyTick
  cases hpc : s.pc <;> rw [hpc] at h <;> dsimp only
  case idle | aged | fed => exact .inl ⟨s.ticks, rfl, by rw [h]; rfl⟩
  case energyClamped =>
    refine .inl ⟨s.ticks + 1, rfl, ?_⟩
    rw [h, monsterAt_succ]
    rfl
  case tired | hungerClamped =>
    have hnow : s.monster.energy = (monsterAt name hunger energy s.ticks).energy - 5 := by
      rw [h]
      rfl
    rw [hnow]
    split
    case isTrue hle => exact .inl ⟨s.ticks + 1, rfl, energy_succ_of_nonneg hle⟩
    case isFalse hlt => exact .inr ⟨rfl, fun n heq => hlt (heq ▸ energy_nonneg n)⟩

theorem mood_eq (h : OnTick name hunger energy s) :
    s.monster.mood = (monsterAt name hunger energy s.ticks).mood := by
  rw [h]
  cases s.pc <;> rfl

/-- **Hunger is looked at in time** exactly if it is what it was after tick `n`. -/
theorem hunger_iff (h : OnTick name hunger energy s) (n : ℕ) :
    (∃ k ∈ s.hungerTick, SameHunger (clamped hunger) k n) ↔
      s.monster.hunger = (monsterAt name hunger energy n).hunger :=
  exists_mem_iff_eq h.hunger_eq fun k => hunger_eq_iff k n

/-- **Energy is looked at in time** exactly if it is what it was after tick `n`. -/
theorem energy_iff (h : OnTick name hunger energy s) (n : ℕ) :
    (∃ k ∈ s.energyTick, SameEnergy (clamped energy) k n) ↔
      s.monster.energy = (monsterAt name hunger energy n).energy :=
  exists_mem_iff_eq h.energy_eq fun k => energy_eq_iff k n

/-- **The mood is looked at in time** exactly if it is what it was after tick `n`. -/
theorem mood_iff (h : OnTick name hunger energy s) (n : ℕ) :
    SameMood (clamped hunger) (clamped energy) s.ticks n ↔
      s.monster.mood = (monsterAt name hunger energy n).mood := by
  rw [h.mood_eq, mood_eq_iff]

end OnTick

/-! ## What a reader has seen -/

section Readers

variable (name hunger energy)

/-- The name and the age a reader has printed -/
structure SawAge (ticks : ℕ) (seen : KernelMonster) (tick : ℕ) : Prop where
  /-- the age, after the tick that is kept with it -/
  age : seen.age = (monsterAt name hunger energy tick).age
  /-- that tick has begun -/
  begun : tick ≤ ticks + 1
  /-- the name -/
  name : seen.name = name

/-- What a reader has printed, and when its looks were in time -/
def Looked (ticks : ℕ) (x : Reader) : Prop :=
  let then' := monsterAt name hunger energy x.tick
  match x.pc with
  | .idle => True
  | .named => x.seen.name = name
  | .sawAge => SawAge name hunger energy ticks x.seen x.tick ∧ x.inTime = true
  | .sawHunger => SawAge name hunger energy ticks x.seen x.tick ∧
      (x.inTime = true ↔ x.seen.hunger = then'.hunger)
  | .sawEnergy => SawAge name hunger energy ticks x.seen x.tick ∧
      (x.inTime = true ↔ x.seen.hunger = then'.hunger ∧ x.seen.energy = then'.energy)

/-- What a call has printed, and when its looks were in time -/
structure Printed (x : Shown) : Prop where
  /-- the name and the age -/
  sawAge : SawAge name hunger energy x.completed x.seen x.tick
  /-- in time, it is the monster after the tick that made the age, and that tick has ended -/
  inTime : x.inTime = true ↔ x.tick ≤ x.completed ∧ x.seen = monsterAt name hunger energy x.tick

/-- Every reader has looked at the monster of this run. -/
structure Readers (s : State) : Prop where
  /-- the calls that go on -/
  looked : ∀ r, Looked name hunger energy s.ticks (s.readers r)
  /-- the calls that have returned -/
  printed : ∀ x ∈ s.shown, Printed name hunger energy x

variable {name hunger energy}

theorem SawAge.mono {m n : ℕ} (hmn : m ≤ n) {seen : KernelMonster} {tick : ℕ}
    (h : SawAge name hunger energy m seen tick) : SawAge name hunger energy n seen tick :=
  ⟨h.age, h.begun.trans (Nat.succ_le_succ hmn), h.name⟩

/-- Time goes on. -/
theorem Looked.mono {m n : ℕ} (hmn : m ≤ n) {x : Reader} (h : Looked name hunger energy m x) :
    Looked name hunger energy n x := by
  unfold Looked at h ⊢
  cases hpc : x.pc <;> simp only [hpc] at h ⊢
  case named => exact h
  all_goals exact ⟨h.1.mono hmn, h.2⟩

theorem Readers.tickStep (h : Readers name hunger energy s) :
    Readers name hunger energy (tickStep s) := by
  unfold PocketMonster.tickStep
  cases s.pc
  case energyClamped => exact ⟨fun r => (h.looked r).mono (Nat.le_succ _), h.printed⟩
  all_goals exact ⟨h.looked, h.printed⟩

/-- One more look, on a monster that is where its tick has got to -/
theorem Readers.lookStep (ht : OnTick name hunger energy s) (h : Readers name hunger energy s)
    (r : ℕ) : Readers name hunger energy (lookStep hunger energy s r) := by
  have hr := h.looked r
  unfold Looked at hr
  unfold PocketMonster.lookStep
  cases hpc : (s.readers r).pc <;> simp only [hpc] at hr ⊢
  case idle => exact ⟨State.forall_setReader h.looked ht.name_eq, h.printed⟩
  case named =>
    refine ⟨State.forall_setReader h.looked ⟨⟨ht.age_eq, OnTick.ageTick_le, hr⟩, rfl⟩, h.printed⟩
  case sawAge =>
    obtain ⟨hsaw, htime⟩ := hr
    refine ⟨State.forall_setReader h.looked ⟨⟨hsaw.age, hsaw.begun, hsaw.name⟩, ?_⟩, h.printed⟩
    simp only [htime, Bool.true_and, decide_eq_true_eq, InTime, hpc]
    exact ht.hunger_iff _
  case sawHunger =>
    obtain ⟨hsaw, htime⟩ := hr
    refine ⟨State.forall_setReader h.looked ⟨⟨hsaw.age, hsaw.begun, hsaw.name⟩, ?_⟩, h.printed⟩
    simp only [Bool.and_eq_true, decide_eq_true_eq, InTime, hpc]
    exact and_congr htime (ht.energy_iff _)
  case sawEnergy =>
    obtain ⟨hsaw, htime⟩ := hr
    refine ⟨State.forall_setReader h.looked (by simp only [Looked]),
      forall_mem_concat.mpr ⟨h.printed, ⟨hsaw.age, hsaw.begun, hsaw.name⟩, ?_⟩⟩
    simp only [Bool.and_eq_true, decide_eq_true_eq, InTime, hpc, htime, ht.mood_iff,
      KernelMonster.ext_iff, hsaw.name, hsaw.age, name_monsterAt, true_and]
    constructor
    · rintro ⟨⟨hhunger, henergy⟩, hle, hmood⟩
      exact ⟨hle, hhunger, henergy, hmood⟩
    · rintro ⟨hle, hhunger, henergy, hmood⟩
      exact ⟨⟨hhunger, henergy⟩, hle, hmood⟩

theorem readers_inductive :
    (monsterLts name hunger energy).Inductive fun s =>
      OnTick name hunger energy s ∧ Readers name hunger energy s := by
  refine onTick_inductive.and ?_ ?_
  · rintro s rfl
    exact ⟨fun _ => trivial, fun x hx => absurd hx List.not_mem_nil⟩
  · intro s s' a ht h hs
    obtain ⟨-, rfl⟩ | ⟨r, -, rfl⟩ := next_cases hs
    · exact h.tickStep
    · exact h.lookStep ht r

/-- What was printed in time is a real monster; and a real one was printed in time, as long as
ages fit an `int`. -/
theorem Printed.real_iff {x : Shown} (h : Printed name hunger energy x) :
    (x.inTime = true → Real name hunger energy x) ∧
      (x.completed + 1 < 2 ^ 31 → Real name hunger energy x → x.inTime = true) := by
  constructor
  · intro htime
    obtain ⟨hle, hseen⟩ := h.inTime.mp htime
    exact ⟨x.tick, hle, hseen⟩
  · rintro hfits ⟨k, hk, hseen⟩
    have hbegun := h.sawAge.begun
    have hage := h.sawAge.age
    rw [hseen] at hage
    obtain rfl := age_inj (by omega) (by omega) hage
    exact h.inTime.mpr ⟨hk, hseen⟩

/-- A real monster has its counters in range, and the mood that goes with them. -/
theorem Real.consistent {x : Shown} (h : Real name hunger energy x) :
    (0 ≤ x.seen.hunger.toInt ∧ x.seen.hunger.toInt ≤ 100) ∧
      (0 ≤ x.seen.energy.toInt ∧ x.seen.energy.toInt ≤ 100) ∧
      x.seen.mood = moodOf x.seen.hunger x.seen.energy := by
  obtain ⟨k, -, hseen⟩ := h
  have haged := aged_monsterAt name hunger energy k
  have hh := clamped_bounds hunger
  have he := clamped_bounds energy
  rw [hseen, moodOf_eq_moodAt, haged.mood, haged.hunger, haged.energy, hungerAt, energyAt]
  refine ⟨?_, ?_, rfl⟩ <;> omega

end Readers

/-! ## Runs all of whose looks are in time -/

/-- All looks so far were in time. -/
structure AllInTime (s : State) : Prop where
  /-- those of the calls that go on -/
  readers : ∀ r, (s.readers r).inTime = true
  /-- those of the calls that have returned -/
  shown : ∀ x ∈ s.shown, x.inTime = true

theorem AllInTime.lookStep {r : ℕ} (h : AllInTime s) (hlook : InTime hunger energy s (.look r)) :
    AllInTime (lookStep hunger energy s r) := by
  have hnow : ((s.readers r).inTime && decide (InTime hunger energy s (.look r))) = true := by
    rw [h.readers r, decide_eq_true hlook, Bool.true_and]
  have hset : ∀ {x : Reader}, x.inTime = true →
      ∀ r', ((s.setReader r x).readers r').inTime = true :=
    State.forall_setReader (P := fun x => x.inTime = true) h.readers
  unfold PocketMonster.lookStep
  cases hpc : (s.readers r).pc <;> simp only [hpc]
  case idle => exact ⟨hset (h.readers r), h.shown⟩
  case named => exact ⟨hset rfl, h.shown⟩
  case sawAge | sawHunger => exact ⟨hset hnow, h.shown⟩
  case sawEnergy =>
    exact ⟨hset (h.readers r), forall_mem_concat.mpr ⟨h.shown, hnow⟩⟩

theorem allInTime_inductive :
    ((monsterLts name hunger energy).restrict (InTime hunger energy)).Inductive AllInTime where
  init := by
    rintro s rfl
    exact ⟨fun _ => rfl, fun x hx => absurd hx List.not_mem_nil⟩
  step := by
    rintro s s' a h ⟨hlook, hs⟩
    obtain ⟨-, rfl⟩ | ⟨r, rfl, rfl⟩ := next_cases hs
    · unfold tickStep
      cases s.pc <;> exact ⟨h.readers, h.shown⟩
    · exact h.lookStep hlook

end Runs

/-! ## What the calls show -/

/-- **A call shows a monster that really was** as long as every look is in time: in every run in
which all are, so are all calls, and their counters are in range and go with their mood. In any
other run, a call all of whose looks were in time shows a real monster, and one with a look that
was not does not, as long as ages fit an `int`. -/
theorem shown_real_iff (name : List UInt8) (hunger energy : Int32) :
    (∀ s, ((monsterLts name hunger energy).restrict (InTime hunger energy)).Reachable s →
      ∀ x ∈ s.shown, Real name hunger energy x ∧
        (0 ≤ x.seen.hunger.toInt ∧ x.seen.hunger.toInt ≤ 100) ∧
        (0 ≤ x.seen.energy.toInt ∧ x.seen.energy.toInt ≤ 100) ∧
        x.seen.mood = moodOf x.seen.hunger x.seen.energy) ∧
      ∀ s, (monsterLts name hunger energy).Reachable s → ∀ x ∈ s.shown,
        (x.inTime = true → Real name hunger energy x) ∧
          (x.completed + 1 < 2 ^ 31 → Real name hunger energy x → x.inTime = true) := by
  constructor
  · intro s hs x hx
    have hreaders := (readers_inductive.reachable hs.of_restrict).2
    have htime := (allInTime_inductive.reachable hs).shown x hx
    have hreal := (hreaders.printed x hx).real_iff.1 htime
    exact ⟨hreal, hreal.consistent⟩
  · intro s hs x hx
    have hreaders := (readers_inductive.reachable hs).2
    exact (hreaders.printed x hx).real_iff

/-- Hunger is looked at between being raised and being clamped. -/
def overfed : List Act := [.look 0, .tick, .look 0, .tick, .look 0, .look 0, .look 0]

/-- **A call shows a monster that never was**: 110 is no hunger that any tick leaves. -/
theorem shown_not_real :
    ∃ s, (monsterLts poupoule 100 90).Reachable s ∧
      ∃ x ∈ s.shown, x.seen.hunger.toInt = 110 ∧ ¬ Real poupoule 100 90 x := by
  have hmap : (overfed.foldlM (next 100 90) (start poupoule 100 90)).map State.shown =
      some [⟨⟨poupoule, 110, 90, 1, .angry⟩, 1, false, 0⟩] := by decide +kernel
  obtain ⟨s, hrun, hshown⟩ := Option.map_eq_some_iff.mp hmap
  refine ⟨s, Lts.reachable_of_foldlM (.init rfl) hrun,
    ⟨⟨poupoule, 110, 90, 1, .angry⟩, 1, false, 0⟩, ?_, by decide, ?_⟩
  · rw [hshown]
    exact List.mem_singleton_self _
  · intro hreal
    exact absurd hreal.consistent.1.2 (by decide)

end PocketMonster

end KernelModules
