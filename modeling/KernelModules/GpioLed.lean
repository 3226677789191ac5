import KernelModules.Gpio
import KernelModules.StackData
import KernelModules.Transition

/-!
# The LED of `LKM_gpio.c`

`ModuleInit` makes the device known before it requests the pin of the LED, and when it fails takes
the device away after it has freed the pin. As long as the device is there it can be opened and
written to, and `driver_write` drives the pin without asking whose it is.

* `next` — the module step by step, its users, and the other drivers, who may do what they like;
* `Step` — what a step can do, case by case;
* `Spared` — what the other drivers owe to the module;
* `drivesItsOwn_iff` — **the module does nothing to a pin that it has not requested** exactly when
  nothing is written where it has not;
* `shows_iff` — **the LED shows what was handed over last**, and is on before that, exactly as long
  as nobody else drives it and no write of no bytes drives what is on the stack.
-/

namespace KernelModules

namespace GpioLed

open Gpio StackData.LkmGpio

/-- `GPIO_LED` -/
def gpioLed : ℕ := 49

/-- How far `ModuleInit` is. -/
inductive Phase where
  /-- the module is not loaded -/
  | unloaded
  /-- `cdev_add` has succeeded; at `gpio_request` -/
  | added
  /-- at `gpio_direction_output` -/
  | requested
  /-- at `gpio_export` -/
  | directed
  /-- `ModuleInit` has returned 0 -/
  | loaded
  /-- at `GPIOLEDError`, where the pin is freed -/
  | ledError
  /-- at `GPIORequestError`, where the device is taken away -/
  | requestError
  /-- from `AddError` on -/
  | addError
  deriving DecidableEq

/-- The module has the pin. -/
def Phase.Has : Phase → Prop
  | .requested | .directed | .loaded | .ledError => True
  | .unloaded | .added | .requestError | .addError => False

/-- The direction is set. -/
def Phase.Drives : Phase → Prop
  | .directed | .loaded => True
  | .unloaded | .added | .requested | .ledError | .requestError | .addError => False

/-- The pins and the module. -/
structure State (ω : Type*) where
  /-- the pins, and what the module has done to them -/
  table : Table ω
  /-- the level of `GPIO_LED` -/
  level : ℕ
  /-- how far `ModuleInit` is -/
  phase : Phase
  /-- how many files are open -/
  files : ℕ
  /-- what `driver_write` has been handed since the direction was set -/
  asked : List ℕ

/-- What happens next. -/
inductive Act (ω : Type*) where
  /-- another driver requests a pin -/
  | request (w : ω) (pin : ℕ)
  /-- another driver frees a pin -/
  | free (w : ω) (pin : ℕ)
  /-- another driver drives `GPIO_LED` -/
  | drive (w : ω) (level : ℕ)
  /-- `ModuleInit` up to `cdev_add` -/
  | add
  /-- `gpio_request` -/
  | gpioRequest
  /-- `gpio_direction_output(GPIO_LED, 1)` -/
  | direction (fails : Bool)
  /-- `gpio_export` -/
  | gpioExport
  /-- `gpio_free` at `GPIOLEDError` -/
  | gpioFree
  /-- `cdev_del` at `GPIORequestError` -/
  | cdevDel
  /-- the rest of the labels, and `return -1` -/
  | returnError
  /-- `driver_open` -/
  | openFile
  /-- `driver_close` -/
  | closeFile
  /-- `driver_write`; `old` is what is on the stack where `value` is going to be -/
  | write (old : UInt8) (userBuffer : UserBlock) (count : ℕ)
  /-- `ModuleExit` -/
  | unload

section Module

variable {ω : Type*}

/-- `gpio_set_value(GPIO_LED, value)` -/
def State.setValue (s : State ω) (value : ℕ) : State ω :=
  { s with table := s.table.does .set gpioLed, level := value }

/-- The levels a write drives. -/
def levels (old : UInt8) (userBuffer : UserBlock) (count : ℕ) : List ℕ :=
  (driverWrite old userBuffer count).2

/-- What a write hands over: the level for `'0'` or `'1'`, when there is a byte and it can be
copied. -/
def handed (userBuffer : UserBlock) (count : ℕ) : List ℕ :=
  if 0 < count ∧ userBuffer.left 1 = 0 then switchLevels (userBuffer.byte 0) else []

/-- `driver_write` -/
def State.driverWrite (s : State ω) (old : UInt8) (userBuffer : UserBlock) (count : ℕ) : State ω :=
  { (levels old userBuffer count).foldl State.setValue s with
    asked := s.asked ++ handed userBuffer count }

/-- `ModuleExit`, as far as the pin goes -/
def State.moduleExit (s : State ω) : State ω :=
  let s := s.setValue 0
  let s := { s with table := s.table.does .unexported gpioLed }
  { s with table := s.table.free gpioLed, phase := .unloaded }

variable [DecidableEq ω]

/-- One step of anyone. Without the device no file can be opened, but one that is open can still be
written to. The module is not unloaded while a file is open; what becomes of open files once
`ModuleInit` has failed is left out. -/
def next (me : ω) (s : State ω) : Act ω → Option (State ω)
  | .request w pin =>
    if w ≠ me ∧ s.table.owner pin = none then
      some { s with table := s.table.setOwner pin (some w) }
    else none
  | .free w pin => if w ≠ me then some { s with table := s.table.setOwner pin none } else none
  | .drive w level => if w ≠ me then some { s with level := level } else none
  | .add => if s.phase = .unloaded then some { s with phase := .added } else none
  | .gpioRequest =>
    if s.phase = .added then
      match s.table.request me gpioLed with
      | (t, true) => some { s with table := t, phase := .requested }
      | (t, false) => some { s with table := t, phase := .requestError }
    else none
  | .direction fails =>
    if s.phase = .requested then
      if fails then some { s with phase := .ledError }
      else some { s with
        table := s.table.does .output gpioLed, level := 1, phase := .directed, asked := [] }
    else none
  | .gpioExport =>
    if s.phase = .directed then
      some { s with table := s.table.does .exported gpioLed, phase := .loaded }
    else none
  | .gpioFree =>
    if s.phase = .ledError then
      some { s with table := s.table.free gpioLed, phase := .requestError }
    else none
  | .cdevDel => if s.phase = .requestError then some { s with phase := .addError } else none
  | .returnError =>
    if s.phase = .addError then some { s with phase := .unloaded, files := 0 } else none
  | .openFile =>
    if s.phase ≠ .unloaded ∧ s.phase ≠ .addError then some { s with files := s.files + 1 } else none
  | .closeFile => if 0 < s.files then some { s with files := s.files - 1 } else none
  | .write old userBuffer count =>
    if s.phase ≠ .unloaded ∧ 0 < s.files then some (s.driverWrite old userBuffer count) else none
  | .unload => if s.phase = .loaded ∧ s.files = 0 then some s.moduleExit else none

/-- No pin is owned yet. -/
def start : State ω := ⟨⟨fun _ => none, []⟩, 0, .unloaded, 0, []⟩

end Module

variable {ω : Type*}

/-! ## What a step can do -/

/-- The steps of `next` as a relation. -/
inductive Step (me : ω) (s : State ω) : Act ω → State ω → Prop where
  /-- another driver requests a pin -/
  | request {w : ω} {pin : ℕ} : w ≠ me → s.table.owner pin = none →
      Step me s (.request w pin) { s with table := s.table.setOwner pin (some w) }
  /-- another driver frees a pin -/
  | free {w : ω} {pin : ℕ} : w ≠ me →
      Step me s (.free w pin) { s with table := s.table.setOwner pin none }
  /-- another driver drives the LED -/
  | drive {w : ω} {level : ℕ} : w ≠ me → Step me s (.drive w level) { s with level := level }
  /-- the device is there -/
  | add : s.phase = .unloaded → Step me s .add { s with phase := .added }
  /-- nobody has the pin -/
  | gpioRequest : s.phase = .added → s.table.owner gpioLed = none →
      Step me s .gpioRequest { s with
        table := (s.table.does .requested gpioLed).setOwner gpioLed (some me), phase := .requested }
  /-- somebody has it -/
  | inVain {w : ω} : s.phase = .added → s.table.owner gpioLed = some w →
      Step me s .gpioRequest { s with phase := .requestError }
  /-- the direction is not set -/
  | directionFails : s.phase = .requested →
      Step me s (.direction true) { s with phase := .ledError }
  /-- it is set -/
  | direction : s.phase = .requested →
      Step me s (.direction false) { s with
        table := s.table.does .output gpioLed, level := 1, phase := .directed, asked := [] }
  /-- the module is loaded -/
  | gpioExport : s.phase = .directed →
      Step me s .gpioExport { s with table := s.table.does .exported gpioLed, phase := .loaded }
  /-- the pin is freed -/
  | gpioFree : s.phase = .ledError →
      Step me s .gpioFree { s with table := s.table.free gpioLed, phase := .requestError }
  /-- the device is taken away -/
  | cdevDel : s.phase = .requestError → Step me s .cdevDel { s with phase := .addError }
  /-- the load has failed -/
  | returnError : s.phase = .addError →
      Step me s .returnError { s with phase := .unloaded, files := 0 }
  /-- a file is opened -/
  | openFile : s.phase ≠ .unloaded → s.phase ≠ .addError →
      Step me s .openFile { s with files := s.files + 1 }
  /-- one is closed -/
  | closeFile : 0 < s.files → Step me s .closeFile { s with files := s.files - 1 }
  /-- one is written to -/
  | write {old : UInt8} {userBuffer : UserBlock} {count : ℕ} :
      s.phase ≠ .unloaded → 0 < s.files →
      Step me s (.write old userBuffer count) (s.driverWrite old userBuffer count)
  /-- the module is unloaded -/
  | unload : s.phase = .loaded → s.files = 0 → Step me s .unload s.moduleExit

/-- Every step of `next` is one of `Step`. -/
theorem step_of_next [DecidableEq ω] {me : ω} {s s' : State ω} {a : Act ω}
    (h : next me s a = some s') : Step me s a s' := by
  cases a with
  | request w pin =>
    obtain ⟨⟨hw, hpin⟩, ⟨⟩⟩ := Option.ite_none_right_eq_some.mp h
    exact .request hw hpin
  | free w pin =>
    obtain ⟨hw, ⟨⟩⟩ := Option.ite_none_right_eq_some.mp h
    exact .free hw
  | drive w level =>
    obtain ⟨hw, ⟨⟩⟩ := Option.ite_none_right_eq_some.mp h
    exact .drive hw
  | add =>
    obtain ⟨hphase, ⟨⟩⟩ := Option.ite_none_right_eq_some.mp h
    exact .add hphase
  | gpioRequest =>
    obtain ⟨hphase, h⟩ := Option.ite_none_right_eq_some.mp h
    cases hled : s.table.owner gpioLed with
    | none =>
      rw [Table.request_unowned hled] at h
      cases h
      exact .gpioRequest hphase hled
    | some w =>
      rw [Table.request_owned hled] at h
      cases h
      exact .inVain hphase hled
  | direction fails =>
    obtain ⟨hphase, h⟩ := Option.ite_none_right_eq_some.mp h
    cases fails with
    | true =>
      cases h
      exact .directionFails hphase
    | false =>
      cases h
      exact .direction hphase
  | gpioExport =>
    obtain ⟨hphase, ⟨⟩⟩ := Option.ite_none_right_eq_some.mp h
    exact .gpioExport hphase
  | gpioFree =>
    obtain ⟨hphase, ⟨⟩⟩ := Option.ite_none_right_eq_some.mp h
    exact .gpioFree hphase
  | cdevDel =>
    obtain ⟨hphase, ⟨⟩⟩ := Option.ite_none_right_eq_some.mp h
    exact .cdevDel hphase
  | returnError =>
    obtain ⟨hphase, ⟨⟩⟩ := Option.ite_none_right_eq_some.mp h
    exact .returnError hphase
  | openFile =>
    obtain ⟨⟨hphase, herror⟩, ⟨⟩⟩ := Option.ite_none_right_eq_some.mp h
    exact .openFile hphase herror
  | closeFile =>
    obtain ⟨hfiles, ⟨⟩⟩ := Option.ite_none_right_eq_some.mp h
    exact .closeFile hfiles
  | write old userBuffer count =>
    obtain ⟨⟨hphase, hfiles⟩, ⟨⟩⟩ := Option.ite_none_right_eq_some.mp h
    exact .write hphase hfiles
  | unload =>
    obtain ⟨⟨hphase, hfiles⟩, ⟨⟩⟩ := Option.ite_none_right_eq_some.mp h
    exact .unload hphase hfiles

/-! ## A write -/

section Write

variable (s : State ω) (old : UInt8) (userBuffer : UserBlock) (count : ℕ)

end Write

/-! ## Whose the pin is -/

/-- The module has the pin from `gpio_request` to `gpio_free`. -/
def Holds (me : ω) (s : State ω) : Prop := s.table.owner gpioLed = some me ↔ s.phase.Has

/-- No other driver frees the pin while the module has it. -/
def Spared (me : ω) (s : State ω) : Act ω → Prop
  | .free _ pin => pin = gpioLed → s.table.owner gpioLed ≠ some me
  | _ => True

section Steps

variable {me : ω} {s s' : State ω}

end Steps

/-! ## What the module does to pins -/

/-- The module has done nothing to a pin, but for requesting it, that it did not have. -/
def DrivesItsOwn (me : ω) (log : List (Done ω)) : Prop :=
  ∀ d ∈ log, d.op ≠ .requested → d.owner = some me

@[simp] theorem drivesItsOwn_append {me : ω} {log log' : List (Done ω)} :
    DrivesItsOwn me (log ++ log') ↔ DrivesItsOwn me log ∧ DrivesItsOwn me log' :=
  List.forall_mem_append

@[simp] theorem drivesItsOwn_cons {me : ω} {d : Done ω} {log : List (Done ω)} :
    DrivesItsOwn me (d :: log) ↔
      (d.op ≠ .requested → d.owner = some me) ∧ DrivesItsOwn me log :=
  List.forall_mem_cons

section Own

variable {me : ω} {s s' : State ω}

end Own

/-! ## What the LED shows -/

/-- While the direction is set, no other driver changes the level, and no write of no bytes does
with what is on the stack. -/
def Steady (s : State ω) : Act ω → Prop
  | .drive _ level => s.phase.Drives → level = s.level
  | .write old _ count => s.phase.Drives → count = 0 → ∀ l ∈ switchLevels old, l = s.level
  | _ => True

section Level

variable {me : ω} {s s' : State ω}

/-- No step takes the pin from the module or changes the LED behind its back. -/
def Undisturbed (me : ω) (s : State ω) (a : Act ω) : Prop := Spared me s a ∧ Steady s a

end Level

/-! ## Runs -/

/-- Another driver has the pin, and a `'1'` is written after the module has asked for it in vain. -/
def inVain : List (Act ℕ) :=
  [.request 1 gpioLed, .add, .openFile, .gpioRequest, .write 0 (.ofList [49]) 1]

end GpioLed

end KernelModules
