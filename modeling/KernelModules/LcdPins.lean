import KernelModules.CharDevice
import KernelModules.Gpio

/-!
# The pins of `LKM_lcd.c`

`ModuleInit` requests its pins in one loop and sets them to output in another. Either loop, when it
fails, jumps into one loop that goes back over the pins and frees them. After the second it is to
start at the last pin; after the first, at the pin *before* the one that could not be requested, and
it starts at that one.

* `requestLoop`, `directionLoop`, `gpioRequestError` — the three loops;
* `moduleInit`, `moduleExit` — what the module does to its pins, for any list of pins;
* `FreesItsOwn` — it frees what it has requested, each pin once, and leaves the owners as they were;
* `freesItsOwn_iff` — it does so **exactly when no request fails**, whichever pin cannot be set to
  output.
-/

namespace KernelModules

namespace LcdPins

open Gpio

variable {ω : Type*}

/-! ## The loops -/

/-- The first loop, from index `i` on: the index at which `gpio_request` fails, if it does. -/
def requestLoop (me : ω) : ℕ → List ℕ → Table ω → Table ω × Option ℕ
  | _, [], t => (t, none)
  | i, p :: ps, t =>
    match t.request me p with
    | (t, true) => requestLoop me (i + 1) ps t
    | (t, false) => (t, some i)

/-- The second loop: whether `gpio_direction_output` fails on some pin -/
def directionLoop (directionFails : ℕ → Bool) : List ℕ → Table ω → Table ω × Bool
  | [], t => (t, false)
  | p :: ps, t =>
    if directionFails p then (t, true) else directionLoop directionFails ps (t.does .output p)

/-- The loop at `GPIORequestError`: pins `i`, `i - 1`, .., 0 are freed. -/
def gpioRequestError (pins : List ℕ) : ℕ → Table ω → Table ω
  | 0, t => t.free (pins.getD 0 0)
  | i + 1, t => gpioRequestError pins i (t.free (pins.getD (i + 1) 0))

/-- `GPIODirectionError`: the same from the last pin on -/
def gpioDirectionError (pins : List ℕ) (t : Table ω) : Table ω :=
  gpioRequestError pins (pins.length - 1) t

/-- `ModuleInit` once its device is up, as far as pins are requested, set to output, exported or
freed: the table, and the value returned -/
def moduleInit (me : ω) (pins : List ℕ) (directionFails : ℕ → Bool) (t : Table ω) : Table ω × ℤ :=
  match requestLoop me 0 pins t with
  | (t, some i) => (gpioRequestError pins i t, -1)
  | (t, none) =>
    match directionLoop directionFails pins t with
    | (t, true) => (gpioDirectionError pins t, -1)
    | (t, false) => (t.doesAll .exported pins, 0)

/-- The loop of `ModuleExit` -/
def moduleExit (pins : List ℕ) (t : Table ω) : Table ω :=
  pins.foldl (fun t p => ((t.does .set p).does .unexported p).free p) t

/-- The module frees the pins it has requested, each once: those it has got until it fails, or all
of them when it is unloaded. A failure leaves the owners as they were. -/
structure FreesItsOwn (me : ω) (pins : List ℕ) (directionFails : ℕ → Bool)
    (owner : ℕ → Option ω) : Prop where
  /-- it cannot be loaded -/
  failed : (moduleInit me pins directionFails ⟨owner, []⟩).2 ≠ 0 →
    (∀ p, (pinsOf .freed (moduleInit me pins directionFails ⟨owner, []⟩).1.log).count p =
      if p ∈ pinsOf .requested (moduleInit me pins directionFails ⟨owner, []⟩).1.log then 1
      else 0) ∧
    (moduleInit me pins directionFails ⟨owner, []⟩).1.owner = owner
  /-- it is loaded, and unloaded -/
  loaded : (moduleInit me pins directionFails ⟨owner, []⟩).2 = 0 →
    ∀ p ∈ pins, (moduleInit me pins directionFails ⟨owner, []⟩).1.owner p = some me ∧
      (pinsOf .freed
        (moduleExit pins (moduleInit me pins directionFails ⟨owner, []⟩).1).log).count p = 1

/-! ## What the loops do -/

/-- **The first loop** gets all the pins, or those in front of one that is not available. -/
theorem requestLoop_cases (me : ω) (i : ℕ) (pins : List ℕ) (t : Table ω) :
    t.Available pins ∧ requestLoop me i pins t = (t.own me pins, none) ∨
      ∃ pre p post, pins = pre ++ p :: post ∧ t.Available pre ∧ ¬ t.Available (pre ++ [p]) ∧
        requestLoop me i pins t = (t.own me pre, some (i + pre.length)) := by
  induction pins generalizing i t with
  | nil =>
    refine .inl ⟨⟨fun p hp => absurd hp List.not_mem_nil, List.nodup_nil⟩, ?_⟩
    rw [requestLoop, Table.own_nil]
  | cons p ps ih =>
    cases howner : t.owner p with
    | some w =>
      refine .inr ⟨[], p, ps, rfl, ⟨fun q hq => absurd hq List.not_mem_nil, List.nodup_nil⟩,
        fun h => ?_, ?_⟩
      · rw [h.1 p (List.mem_singleton_self p)] at howner
        cases howner
      · rw [requestLoop, Table.request_owned howner, Table.own_nil]
        rfl
    | none =>
      rw [requestLoop, Table.request_unowned howner]
      rcases ih (i + 1) ((t.does .requested p).setOwner p (some me)) with
        ⟨havail, hloop⟩ | ⟨pre, q, post, hsplit, havail, hnot, hloop⟩
      · refine .inl ⟨(Table.available_cons howner ps).mpr havail, ?_⟩
        rw [← Table.own_cons howner]
        exact hloop
      · refine .inr ⟨p :: pre, q, post, by rw [hsplit, List.cons_append],
          (Table.available_cons howner pre).mpr havail, fun h => hnot ?_, ?_⟩
        · exact (Table.available_cons howner (pre ++ [q])).mp h
        · rw [← Table.own_cons howner, List.length_cons, Nat.add_comm pre.length, ← Nat.add_assoc]
          exact hloop

/-- **The second loop** sets some pins to output, and fails only if there are any. -/
theorem directionLoop_cases (directionFails : ℕ → Bool) (pins : List ℕ) (t : Table ω) :
    ∃ ps, directionLoop directionFails pins t =
      (t.doesAll .output ps, pins.any directionFails) := by
  induction pins generalizing t with
  | nil => exact ⟨[], rfl⟩
  | cons p pins ih =>
    rw [directionLoop, List.any_cons]
    cases directionFails p
    · obtain ⟨ps, hps⟩ := ih (t.does .output p)
      exact ⟨p :: ps, hps⟩
    · exact ⟨[], rfl⟩

/-- **The clean-up loop** frees the pins up to `i`, the last of them first. -/
theorem gpioRequestError_eq {pins : List ℕ} {i : ℕ} (hi : i < pins.length) (t : Table ω) :
    gpioRequestError pins i t = t.freeAll (pins.take (i + 1)).reverse := by
  induction i generalizing t with
  | zero =>
    obtain ⟨p, ps, rfl⟩ := List.exists_cons_of_length_pos hi
    rfl
  | succ i ih =>
    have hget : pins.getD (i + 1) 0 = pins[i + 1] := by simp [hi]
    rw [gpioRequestError, ih (Nat.lt_of_succ_lt hi), hget, List.take_succ_eq_append_getElem hi,
      List.reverse_append]
    rfl

theorem pinsOf_freed_moduleExit (pins : List ℕ) (t : Table ω) :
    pinsOf .freed (moduleExit pins t).log = pinsOf .freed t.log ++ pins := by
  induction pins generalizing t with
  | nil => exact (List.append_nil _).symm
  | cons p pins ih =>
    refine (ih _).trans ?_
    simp [pinsOf]

/-! ## How loading ends -/

section Init

variable {pins : List ℕ} {t : Table ω} (me : ω) {directionFails : ℕ → Bool}

/-- With a pin that is not available, the pins up to it are freed, and it is freed with them. -/
theorem moduleInit_of_not_available (directionFails : ℕ → Bool) (h : ¬ t.Available pins) :
    ∃ pre p, t.Available pre ∧
      moduleInit me pins directionFails t = ((t.own me pre).freeAll (p :: pre.reverse), -1) := by
  rcases requestLoop_cases me 0 pins t with ⟨havail, -⟩ | ⟨pre, p, post, rfl, hpre, -, hloop⟩
  · exact absurd havail h
  · have htake : (pre ++ p :: post).take (pre.length + 1) = pre ++ [p] := by
      rw [List.append_cons, List.take_left' (by simp)]
    refine ⟨pre, p, hpre, ?_⟩
    rw [moduleInit, hloop, Nat.zero_add]
    dsimp only
    rw [gpioRequestError_eq (by simp), htake, List.reverse_append]
    rfl

theorem requestLoop_of_available (h : t.Available pins) :
    requestLoop me 0 pins t = (t.own me pins, none) := by
  obtain ⟨-, hloop⟩ | ⟨pre, p, post, rfl, -, hnot, -⟩ := requestLoop_cases me 0 pins t
  · exact hloop
  · rw [List.append_cons] at h
    exact absurd h.of_append hnot

/-- With available pins that can all be set to output, the module owns them. -/
theorem moduleInit_of_available (h : t.Available pins) (hset : pins.any directionFails = false) :
    ∃ ps, moduleInit me pins directionFails t =
      (((t.own me pins).doesAll .output ps).doesAll .exported pins, 0) := by
  have hloop := requestLoop_of_available me h
  obtain ⟨ps, hdirection⟩ := directionLoop_cases directionFails pins (t.own me pins)
  rw [hset] at hdirection
  exact ⟨ps, by rw [moduleInit, hloop]; dsimp only; rw [hdirection]⟩

/-- With one that cannot, it frees them all. -/
theorem moduleInit_of_direction (h : t.Available pins) (hset : pins.any directionFails = true) :
    ∃ ps, moduleInit me pins directionFails t =
      (((t.own me pins).doesAll .output ps).freeAll pins.reverse, -1) := by
  have hloop := requestLoop_of_available me h
  obtain ⟨ps, hdirection⟩ := directionLoop_cases directionFails pins (t.own me pins)
  have hpos : 0 < pins.length := by
    obtain ⟨p, hp, -⟩ := List.any_eq_true.mp hset
    exact List.length_pos_of_mem hp
  rw [hset] at hdirection
  refine ⟨ps, ?_⟩
  rw [moduleInit, hloop]
  dsimp only
  rw [hdirection]
  dsimp only
  rw [gpioDirectionError, gpioRequestError_eq (by omega), Nat.sub_add_cancel hpos,
    List.take_length]

end Init

/-! ## Whose pins are freed -/

section Frees

variable {me : ω} {pins : List ℕ} {directionFails : ℕ → Bool} {owner : ℕ → Option ω}

/-- **A pin that cannot be requested** is freed with those that could. -/
theorem not_freesItsOwn (h : ¬ (⟨owner, []⟩ : Table ω).Available pins) :
    ¬ FreesItsOwn me pins directionFails owner := by
  intro hfrees
  obtain ⟨pre, p, -, hinit⟩ := moduleInit_of_not_available me directionFails h
  have hcode : (moduleInit me pins directionFails ⟨owner, []⟩).2 ≠ 0 := by
    rw [hinit]
    exact Int.neg_ne_zero.mpr one_ne_zero
  have hp := (hfrees.failed hcode).1 p
  -- it has been freed once more often than it has been requested
  simp only [hinit, Table.pinsOf_freeAll, Table.pinsOf_own, pinsOf_nil, reduceCtorEq, if_true,
    if_false, List.nil_append, List.append_nil, List.count_cons_self, List.count_reverse] at hp
  by_cases hmem : p ∈ pre
  · rw [if_pos hmem] at hp
    have hpos := List.count_pos_iff.mpr hmem
    omega
  · rw [if_neg hmem] at hp
    omega

/-- **A pin that cannot be set to output** is handled right, and so is no such pin. -/
theorem freesItsOwn_of_available (h : (⟨owner, []⟩ : Table ω).Available pins) :
    FreesItsOwn me pins directionFails owner := by
  cases hset : pins.any directionFails
  case false =>
    obtain ⟨ps, hinit⟩ := moduleInit_of_available me h hset
    refine ⟨fun hcode => absurd (by rw [hinit]) hcode, fun _ p hp => ⟨?_, ?_⟩⟩
    · rw [hinit, Table.doesAll_owner, Table.doesAll_owner]
      exact if_pos hp
    · rw [hinit, pinsOf_freed_moduleExit]
      simp [List.count_eq_one_of_mem h.2 hp]
  case true =>
    obtain ⟨ps, hinit⟩ := moduleInit_of_direction me h hset
    refine ⟨fun _ => ⟨fun p => ?_, ?_⟩, fun hcode => ?_⟩
    · rw [hinit]
      simp [List.Nodup.count h.2]
    · funext q
      rw [hinit, Table.freeAll_owner, Table.doesAll_owner, Table.own]
      by_cases hq : q ∈ pins
      · rw [if_pos (List.mem_reverse.mpr hq)]
        exact (h.1 q hq).symm
      · rw [if_neg fun hmem => hq (List.mem_reverse.mp hmem)]
        exact if_neg hq
    · rw [hinit] at hcode
      exact absurd hcode (Int.neg_ne_zero.mpr one_ne_zero)

end Frees

/-- **The module frees only the pins it owns** exactly when none of its requests fails: when nobody
owns a pin of the list before it is loaded, and no pin is there twice. Where a request fails, the
clean-up starts at the pin that was not got. -/
theorem freesItsOwn_iff (me : ω) (pins : List ℕ) (directionFails : ℕ → Bool)
    (owner : ℕ → Option ω) :
    FreesItsOwn me pins directionFails owner ↔ (∀ p ∈ pins, owner p = none) ∧ pins.Nodup := by
  constructor
  · intro h
    by_contra hnot
    exact not_freesItsOwn hnot h
  · exact freesItsOwn_of_available

/-- **Another driver's pin is freed**: pin 27 belongs to driver 1 when driver 0 is loaded. -/
theorem lcd_frees_others_pin :
    ∃ t : Table ℕ, moduleInit 0 CharDevice.Module.lkmLcd.pins (fun _ => false)
        ⟨fun p => if p = 27 then some 1 else none, []⟩ = (t, -1) ∧
      t.log = [⟨.freed, 27, some 1⟩] ∧ t.owner 27 = none := by
  exact ⟨_, rfl, by decide, by decide⟩

/-! ## With the rest of the module -/

end LcdPins

end KernelModules
