import KernelModules.Gpio
import KernelModules.Transition
import Mathlib.Data.Int.Notation

/-!
# `LKM_gpio_irq.c` among other drivers

The module drives a LED and looks at a button. When the LED cannot be requested, `ModuleInit` says
so and goes on: it drives a pin that belongs to somebody else, and the first error label frees it.

* `moduleInit`, `moduleExit`, `gpioIrqHandler` — the module;
* `gpioIrqLts` — it is loaded and unloaded while other drivers request and free pins of their own;
* `Safe` — the module leaves pins of others alone, owns both of its pins while it is loaded, and
  none while it is not;
* `LedFree` — no other driver owns the LED when the module is loaded;
* `safe_iff` — a run is **safe exactly if the LED is free at each load**.
-/

namespace KernelModules

namespace GpioIrq

open Gpio

/-- `GPIO_BUTTON` -/
def gpioButton : ℕ := 115
/-- `GPIO_LED` -/
def gpioLed : ℕ := 49

/-- Which calls of one load fail; `gpio_request` fails on pins that are owned. -/
structure Faults where
  /-- `gpio_direction_output` -/
  output : Bool
  /-- `gpio_direction_input` -/
  input : Bool
  /-- `request_irq` -/
  irq : Bool

/-- The pins and the module. -/
structure State (ω : Type*) where
  /-- the pins, and what the module has done to them -/
  table : Table ω
  /-- the module is loaded -/
  loaded : Bool
  /-- its interrupt is requested -/
  irq : Bool
  /-- `ledStatus` -/
  ledStatus : Bool

/-- What happens next. -/
inductive Act (ω : Type*) where
  /-- another driver requests a pin -/
  | request (w : ω) (pin : ℕ)
  /-- another driver frees a pin of its own -/
  | free (w : ω) (pin : ℕ)
  /-- `ModuleInit` -/
  | load (f : Faults)
  /-- `ModuleExit` -/
  | unload
  /-- `gpio_irq_handler` -/
  | interrupt

section Module

variable {ω : Type*}

/-! ## The module -/

/-- `GPIOLEDError` -/
def gpioLedError (t : Table ω) : Table ω := t.free gpioLed

/-- `GPIOButtonError` -/
def gpioButtonError (t : Table ω) : Table ω := gpioLedError (t.free gpioButton)

/-- `ModuleInit`: the pins, and the value returned -/
def moduleInit (me : ω) (f : Faults) (t : Table ω) : Table ω × ℤ :=
  -- whether the LED has been requested is not looked at
  let t := (t.request me gpioLed).1
  if f.output then (gpioLedError t, -1)
  else
    let t := t.does .output gpioLed
    match t.request me gpioButton with
    | (t, false) => (gpioLedError t, -1)
    | (t, true) =>
      if f.input then (gpioButtonError t, -1)
      else
        let t := t.does .input gpioButton
        let t := t.does .debounced gpioButton
        let t := t.does .exported gpioLed
        let t := t.does .exported gpioButton
        if f.irq then (gpioButtonError t, -1) else (t, 0)

/-- `ModuleExit`, behind `free_irq` -/
def moduleExit (t : Table ω) : Table ω :=
  let t := t.does .set gpioLed
  let t := t.does .unexported gpioLed
  let t := t.does .unexported gpioButton
  let t := t.free gpioLed
  t.free gpioButton

/-- `gpio_irq_handler` -/
def gpioIrqHandler (s : State ω) : State ω :=
  { s with table := s.table.does .set gpioLed, ledStatus := !s.ledStatus }

variable [DecidableEq ω]

/-- One step of anyone. Other drivers request what nobody owns, and free what they own; an
interrupt comes while it is requested. -/
def next (me : ω) (s : State ω) : Act ω → Option (State ω)
  | .request w pin =>
    if w ≠ me ∧ s.table.owner pin = none then
      some { s with table := s.table.setOwner pin (some w) }
    else none
  | .free w pin =>
    if w ≠ me ∧ s.table.owner pin = some w then
      some { s with table := s.table.setOwner pin none }
    else none
  | .load f =>
    if s.loaded then none
    else
      let (t, code) := moduleInit me f s.table
      some { table := t, loaded := code = 0, irq := code = 0, ledStatus := false }
  | .unload =>
    if s.loaded then some { s with table := moduleExit s.table, loaded := false, irq := false }
    else none
  | .interrupt => if s.irq then some (gpioIrqHandler s) else none

/-- No pin is owned yet. -/
def start : State ω := ⟨⟨fun _ => none, []⟩, false, false, false⟩

/-- The module among other drivers. -/
def gpioIrqLts (me : ω) : Lts (State ω) (Act ω) := Lts.ofNext start (next me)

end Module

variable {ω : Type*}

/-- What the module owes to other drivers and to itself. -/
structure Safe (me : ω) (s : State ω) : Prop where
  /-- it has done nothing to a pin that another driver owned -/
  respects : Respects me s.table.log
  /-- while it is loaded, it owns both pins, and its interrupt is requested -/
  loaded : s.loaded = true →
    s.table.owner gpioLed = some me ∧ s.table.owner gpioButton = some me ∧ s.irq = true
  /-- while it is not, it owns neither, and no interrupt is requested -/
  unloaded : s.loaded = false →
    s.table.owner gpioLed ≠ some me ∧ s.table.owner gpioButton ≠ some me ∧ s.irq = false

/-- No other driver owns the LED when the module is loaded. -/
def LedFree (me : ω) (s : State ω) : Act ω → Prop
  | .load _ => ∀ w, s.table.owner gpioLed = some w → w = me
  | _ => True

/-! ## Loading -/

theorem gpioButton_ne_gpioLed : gpioButton ≠ gpioLed := by decide

/-- **Loading with a free LED**: the module gets both pins, or leaves the owners as they were, and
respects others. -/
theorem moduleInit_of_free {me : ω} (f : Faults) {t : Table ω} (hled : t.owner gpioLed = none)
    (hrespects : Respects me t.log) :
    Respects me (moduleInit me f t).1.log ∧
      ((moduleInit me f t).2 = -1 ∧ (moduleInit me f t).1.owner = t.owner ∨
        (moduleInit me f t).2 = 0 ∧ (moduleInit me f t).1.owner gpioLed = some me ∧
          (moduleInit me f t).1.owner gpioButton = some me) := by
  have hne := gpioButton_ne_gpioLed
  have hback : Function.update t.owner gpioLed none = t.owner :=
    Function.update_eq_self_iff.mpr hled.symm
  simp only [moduleInit, Table.request_unowned hled]
  cases f.output
  case true => simp [gpioLedError, hback, hrespects, hled]
  case false =>
    cases hbutton : t.owner gpioButton with
    | some w =>
      rw [Table.request_owned (by simpa [hne] using hbutton)]
      simp [gpioLedError, hback, hrespects, hled]
    | none =>
      rw [Table.request_unowned (by simpa [hne] using hbutton)]
      have hback' : Function.update (Function.update t.owner gpioLed (some me)) gpioButton none =
          Function.update t.owner gpioLed (some me) :=
        Function.update_eq_self_iff.mpr (by simp [hne, hbutton])
      cases f.input <;> cases f.irq <;>
        simp [gpioLedError, gpioButtonError, hback, hback', hrespects, hled, hbutton, hne, hne.symm]

/-- **Loading with the LED of another driver** does something to it. -/
theorem not_respects_moduleInit {me w : ω} (f : Faults) {t : Table ω}
    (hled : t.owner gpioLed = some w) (hw : w ≠ me) :
    ¬ Respects me (moduleInit me f t).1.log := by
  have hdone : (⟨.freed, gpioLed, some w⟩ : Done ω) ∈ (moduleInit me f t).1.log ∨
      (⟨.output, gpioLed, some w⟩ : Done ω) ∈ (moduleInit me f t).1.log := by
    simp only [moduleInit, Table.request_owned hled]
    cases f.output
    case true => simp [gpioLedError, hled]
    case false =>
      refine .inr ?_
      cases hbutton : t.owner gpioButton with
      | some v =>
        rw [Table.request_owned (by simpa using hbutton)]
        simp [gpioLedError, hled]
      | none =>
        rw [Table.request_unowned (by simpa using hbutton)]
        cases f.input <;> cases f.irq <;> simp [gpioLedError, gpioButtonError, hled]
  intro hrespects
  rcases hdone with hdone | hdone
  · exact hw (hrespects _ hdone w rfl)
  · exact hw (hrespects _ hdone w rfl)

/-- Loading goes on with the log. -/
theorem isPrefix_moduleInit (me : ω) (f : Faults) (t : Table ω) :
    t.log <+: (moduleInit me f t).1.log := by
  have hled := t.isPrefix_request me gpioLed
  have hbuttonError : ∀ u : Table ω, u.log <+: (gpioButtonError u).log := fun u =>
    (u.isPrefix_free gpioButton).trans (Table.isPrefix_free ..)
  unfold moduleInit
  cases f.output
  case true => exact hled.trans (Table.isPrefix_free ..)
  case false =>
    have houtput := hled.trans (Table.isPrefix_does _ .output gpioLed)
    have hbutton := houtput.trans (Table.isPrefix_request _ me gpioButton)
    dsimp only
    rcases hrequest : ((t.request me gpioLed).1.does .output gpioLed).request me gpioButton with
      ⟨u, _ | _⟩
    · rw [hrequest] at hbutton
      exact hbutton.trans (Table.isPrefix_free ..)
    · rw [hrequest] at hbutton
      have hexported := (((hbutton.trans (Table.isPrefix_does u .input gpioButton)).trans
        (Table.isPrefix_does _ .debounced gpioButton)).trans
        (Table.isPrefix_does _ .exported gpioLed)).trans
        (Table.isPrefix_does _ .exported gpioButton)
      cases f.input
      case true => exact hbutton.trans (hbuttonError u)
      case false =>
        cases f.irq
        · exact hexported
        · exact hexported.trans (hbuttonError _)

/-! ## One step -/

section Steps

variable {me : ω} {s s' : State ω}

/-- **Others** do what they do to pins that the module does not own. -/
theorem Safe.setOwner {pin : ℕ} {v : Option ω} (h : Safe me s) (hv : v ≠ some me)
    (hpin : s.table.owner pin ≠ some me) :
    Safe me { s with table := s.table.setOwner pin v } := by
  have hkeep : ∀ q, Function.update s.table.owner pin v q = some me ↔
      s.table.owner q = some me := by
    intro q
    by_cases hq : q = pin
    · rw [hq, Function.update_self]
      exact iff_of_false hv hpin
    · rw [Function.update_of_ne hq]
  refine ⟨h.respects, fun hloaded => ?_, fun hloaded => ?_⟩
  · simpa only [Table.setOwner_owner, hkeep] using h.loaded hloaded
  · simpa only [Table.setOwner_owner, hkeep, ne_eq] using h.unloaded hloaded

/-- **Loading** with a free LED -/
theorem Safe.load {f : Faults} (h : Safe me s) (hloaded : s.loaded = false)
    (hfree : LedFree me s (.load f)) :
    Safe me ⟨(moduleInit me f s.table).1, (moduleInit me f s.table).2 = 0,
      (moduleInit me f s.table).2 = 0, false⟩ := by
  obtain ⟨hled, hbutton, -⟩ := h.unloaded hloaded
  have hnone : s.table.owner gpioLed = none := by
    cases howner : s.table.owner gpioLed with
    | none => rfl
    | some w =>
      obtain rfl := hfree w howner
      exact absurd howner hled
  obtain ⟨hrespects, ⟨hcode, howner⟩ | ⟨hcode, hgotLed, hgotButton⟩⟩ :=
    moduleInit_of_free f hnone h.respects
  · refine ⟨hrespects, fun hzero => ?_, fun _ => ?_⟩
    · rw [hcode] at hzero
      cases hzero
    · rw [hcode, howner]
      exact ⟨hled, hbutton, rfl⟩
  · refine ⟨hrespects, fun _ => ⟨hgotLed, hgotButton, decide_eq_true hcode⟩, fun hne => ?_⟩
    rw [hcode] at hne
    cases hne

/-- **Unloading** frees both pins. -/
theorem Safe.unload (h : Safe me s) (hloaded : s.loaded = true) :
    Safe me { s with table := moduleExit s.table, loaded := false, irq := false } := by
  have hne := gpioButton_ne_gpioLed
  obtain ⟨hled, hbutton, -⟩ := h.loaded hloaded
  refine ⟨?_, fun hload => (by cases hload), fun _ => ⟨?_, ?_, rfl⟩⟩
  · simp [moduleExit, h.respects, hled, hbutton, hne]
  · simp [moduleExit, hne.symm]
  · simp [moduleExit]

variable [DecidableEq ω]

/-- Every step goes on with the log. -/
theorem isPrefix_next {a : Act ω} (h : next me s a = some s') : s.table.log <+: s'.table.log := by
  cases a with
  | request w pin | free w pin =>
    obtain ⟨-, h⟩ := Option.ite_none_right_eq_some.mp h
    obtain rfl := Option.some.inj h
    exact List.prefix_rfl
  | load f =>
    obtain ⟨-, h⟩ := Option.ite_none_left_eq_some.mp h
    obtain rfl := Option.some.inj h
    exact isPrefix_moduleInit me f s.table
  | unload =>
    obtain ⟨-, h⟩ := Option.ite_none_right_eq_some.mp h
    obtain rfl := Option.some.inj h
    exact ((((s.table.isPrefix_does .set gpioLed).trans
      (Table.isPrefix_does _ .unexported gpioLed)).trans
      (Table.isPrefix_does _ .unexported gpioButton)).trans (Table.isPrefix_free _ gpioLed)).trans
      (Table.isPrefix_free _ gpioButton)
  | interrupt =>
    obtain ⟨-, h⟩ := Option.ite_none_right_eq_some.mp h
    obtain rfl := Option.some.inj h
    exact s.table.isPrefix_does .set gpioLed

theorem Safe.step {a : Act ω} (h : Safe me s) (hfree : LedFree me s a)
    (hs : next me s a = some s') : Safe me s' := by
  cases a with
  | request w pin =>
    obtain ⟨⟨hw, hpin⟩, hs⟩ := Option.ite_none_right_eq_some.mp hs
    obtain rfl := Option.some.inj hs
    refine h.setOwner (fun heq => hw (Option.some.inj heq)) ?_
    rw [hpin]
    exact (Option.some_ne_none me).symm
  | free w pin =>
    obtain ⟨⟨hw, hpin⟩, hs⟩ := Option.ite_none_right_eq_some.mp hs
    obtain rfl := Option.some.inj hs
    refine h.setOwner (Option.some_ne_none me).symm ?_
    rw [hpin]
    exact fun heq => hw (Option.some.inj heq)
  | load f =>
    obtain ⟨hloaded, hs⟩ := Option.ite_none_left_eq_some.mp hs
    obtain rfl := Option.some.inj hs
    exact h.load (Bool.not_eq_true _ ▸ hloaded) hfree
  | unload =>
    obtain ⟨hloaded, hs⟩ := Option.ite_none_right_eq_some.mp hs
    obtain rfl := Option.some.inj hs
    exact h.unload hloaded
  | interrupt =>
    obtain ⟨hirq, hs⟩ := Option.ite_none_right_eq_some.mp hs
    obtain rfl := Option.some.inj hs
    cases hloaded : s.loaded with
    | true =>
      have hled := (h.loaded hloaded).1
      refine ⟨?_, h.loaded, h.unloaded⟩
      simp [gpioIrqHandler, h.respects, hled]
    | false =>
      rw [(h.unloaded hloaded).2.2] at hirq
      cases hirq

/-- A step that respects others finds the LED free. -/
theorem ledFree_of_respects {a : Act ω} (hs : next me s a = some s')
    (hrespects : Respects me s'.table.log) : LedFree me s a := by
  cases a with
  | request _ _ | free _ _ | unload | interrupt => trivial
  | load f =>
    obtain ⟨-, hs⟩ := Option.ite_none_left_eq_some.mp hs
    obtain rfl := Option.some.inj hs
    intro w howner
    by_contra hw
    exact not_respects_moduleInit f howner hw hrespects

end Steps

/-! ## Runs -/

section Runs

variable [DecidableEq ω] {me : ω}

theorem safe_inductive : ((gpioIrqLts me).restrict (LedFree me)).Inductive (Safe me) where
  init := by
    rintro s rfl
    refine ⟨respects_nil, fun hloaded => (by cases hloaded), fun _ => ⟨?_, ?_, rfl⟩⟩
    · exact (Option.some_ne_none me).symm
    · exact (Option.some_ne_none me).symm
  step h hs := h.step hs.1 hs.2

/-- **A run is safe** exactly if no other driver owns the LED when the module is loaded. Otherwise
it drives that driver's pin, or frees it. -/
theorem safe_iff {as : List (Act ω)} {s : State ω} (hr : (gpioIrqLts me).Run start as s) :
    Safe me s ↔ ((gpioIrqLts me).restrict (LedFree me)).Run start as s := by
  constructor
  · intro hsafe
    have hrespects := hsafe.respects
    clear hsafe
    induction hr with
    | nil => exact .nil
    | snoc _ hs ih =>
      have hbefore := hrespects.of_isPrefix (isPrefix_next hs)
      exact (ih hbefore).snoc ⟨ledFree_of_respects hs hrespects, hs⟩
  · intro hrun
    exact safe_inductive.reachable (hrun.reachable rfl)

end Runs

/-- Another driver takes some pin, and the module is loaded. -/
def loading (pin : ℕ) : List (Act ℕ) := [.request 1 pin, .load ⟨false, false, false⟩]

/-- The other driver has its pin. -/
def requested (pin : ℕ) : State ℕ :=
  ⟨Table.setOwner ⟨fun _ => none, []⟩ pin (some 1), false, false, false⟩

/-- With some other pin the module gets both of its own. -/
theorem safe_iff_loading :
    ∃ s, (gpioIrqLts 0).Run start (loading 7) s ∧ Safe 0 s ∧ s.loaded = true := by
  have h₁ : next 0 start (.request 1 7) = some (requested 7) := rfl
  have h₂ : next 0 (requested 7) (.load ⟨false, false, false⟩) = some _ := rfl
  have hr := (Lts.Run.nil (L := gpioIrqLts 0)).snoc h₁ |>.snoc h₂
  refine ⟨_, hr, (safe_iff hr).mpr ?_, rfl⟩
  have hfree : LedFree 0 (requested 7) (.load ⟨false, false, false⟩) := fun w hw => by cases hw
  exact Lts.Run.snoc (Lts.Run.snoc .nil ⟨trivial, h₁⟩) ⟨hfree, h₂⟩

/-- **The LED of another driver** is driven by the module, which says that it has been loaded, and
is taken from that driver when the module is unloaded. -/
theorem frees_others_led :
    ∃ s s', (gpioIrqLts 0).Run start (loading gpioLed) s ∧ s.loaded = true ∧
      s.table.owner gpioLed = some 1 ∧
      (gpioIrqLts 0).Run start (loading gpioLed ++ [.unload]) s' ∧
      (⟨.freed, gpioLed, some 1⟩ : Done ℕ) ∈ s'.table.log ∧ ¬ Safe 0 s ∧ ¬ Safe 0 s' := by
  have h₁ : next 0 start (.request 1 gpioLed) = some (requested gpioLed) := rfl
  have h₂ : next 0 (requested gpioLed) (.load ⟨false, false, false⟩) = some _ := rfl
  have hr := (Lts.Run.nil (L := gpioIrqLts 0)).snoc h₁ |>.snoc h₂
  refine ⟨_, _, hr, rfl, rfl, hr.snoc rfl, by decide, fun hsafe => ?_, fun hsafe => ?_⟩
  · exact absurd (hsafe.loaded rfl).1 (by decide)
  · exact absurd (hsafe.respects ⟨.freed, gpioLed, some 1⟩ (by decide) 1 rfl) (by decide)

end GpioIrq

end KernelModules
