import Mathlib.Data.List.Nodup
import Mathlib.Logic.Function.Basic

/-!
# Pins and their owners

The table in which `gpiolib` keeps who has requested a pin. A pin is requested by one driver at a
time; but `gpio_free`, and whatever else is done to a pin, does not ask who has requested it.

* `Table` — the owners, and what the module under study has done to its pins or to others';
* `Table.request`, `Table.free`, `Table.does` — the calls;
* `Respects` — nothing was done to a pin that somebody else owned;
* `Table.own`, `Table.freeAll` — a list of pins requested, or freed, one after the other.
-/

namespace KernelModules

namespace Gpio

/-- What is done to a pin. -/
inductive Op
  /-- `gpio_request`, when it succeeds -/
  | requested
  /-- `gpio_free` -/
  | freed
  /-- `gpio_direction_output`, when it succeeds -/
  | output
  /-- `gpio_direction_input`, when it succeeds -/
  | input
  /-- `gpio_set_debounce` -/
  | debounced
  /-- `gpio_set_value` -/
  | set
  /-- `gpio_export` -/
  | exported
  /-- `gpio_unexport` -/
  | unexported
  deriving DecidableEq

/-- What was done to a pin, and who owned it until then. -/
structure Done (ω : Type*) where
  /-- what was done -/
  op : Op
  /-- the pin -/
  pin : ℕ
  /-- the owner before it was done -/
  owner : Option ω
  deriving DecidableEq

/-- Who has requested each pin, and what the module has done. -/
structure Table (ω : Type*) where
  /-- the owner of each pin -/
  owner : ℕ → Option ω
  /-- what the module has done, in order -/
  log : List (Done ω)

variable {ω : Type*}

/-- Something is done to a pin, whoever owns it. -/
def Table.does (t : Table ω) (op : Op) (pin : ℕ) : Table ω :=
  { t with log := t.log ++ [⟨op, pin, t.owner pin⟩] }

/-- The pin has a new owner, or none. -/
def Table.setOwner (t : Table ω) (pin : ℕ) (w : Option ω) : Table ω :=
  { t with owner := Function.update t.owner pin w }

/-- `gpio_request(pin)` by `me`: whether it succeeds -/
def Table.request (t : Table ω) (me : ω) (pin : ℕ) : Table ω × Bool :=
  match t.owner pin with
  | none => ((t.does .requested pin).setOwner pin (some me), true)
  | some _ => (t, false)

/-- `gpio_free(pin)` -/
def Table.free (t : Table ω) (pin : ℕ) : Table ω := (t.does .freed pin).setOwner pin none

/-- The pins to which something was done, in order. -/
def pinsOf (op : Op) (log : List (Done ω)) : List ℕ :=
  (log.filter fun d => d.op = op).map Done.pin

/-- Nothing was done to a pin that another driver owned. -/
def Respects (me : ω) (log : List (Done ω)) : Prop :=
  ∀ d ∈ log, ∀ w, d.owner = some w → w = me

/-! ## One call -/

@[simp] theorem Table.does_owner (t : Table ω) (op : Op) (pin : ℕ) :
    (t.does op pin).owner = t.owner := rfl

@[simp] theorem Table.does_log (t : Table ω) (op : Op) (pin : ℕ) :
    (t.does op pin).log = t.log ++ [⟨op, pin, t.owner pin⟩] := rfl

@[simp] theorem Table.setOwner_owner (t : Table ω) (pin : ℕ) (w : Option ω) :
    (t.setOwner pin w).owner = Function.update t.owner pin w := rfl

@[simp] theorem Table.setOwner_log (t : Table ω) (pin : ℕ) (w : Option ω) :
    (t.setOwner pin w).log = t.log := rfl

@[simp] theorem Table.free_owner (t : Table ω) (pin : ℕ) :
    (t.free pin).owner = Function.update t.owner pin none := rfl

@[simp] theorem Table.free_log (t : Table ω) (pin : ℕ) :
    (t.free pin).log = t.log ++ [⟨.freed, pin, t.owner pin⟩] := rfl

/-- A pin that nobody owns is handed out. -/
theorem Table.request_unowned {t : Table ω} {me : ω} {pin : ℕ} (h : t.owner pin = none) :
    t.request me pin = ((t.does .requested pin).setOwner pin (some me), true) := by
  rw [request, h]

/-- One that somebody owns is not. -/
theorem Table.request_owned {t : Table ω} {me w : ω} {pin : ℕ} (h : t.owner pin = some w) :
    t.request me pin = (t, false) := by
  rw [request, h]

/-! The log only grows. -/

theorem Table.isPrefix_does (t : Table ω) (op : Op) (pin : ℕ) : t.log <+: (t.does op pin).log :=
  List.prefix_append ..

theorem Table.isPrefix_free (t : Table ω) (pin : ℕ) : t.log <+: (t.free pin).log :=
  List.prefix_append ..

theorem Table.isPrefix_request (t : Table ω) (me : ω) (pin : ℕ) :
    t.log <+: (t.request me pin).1.log := by
  cases howner : t.owner pin with
  | none =>
    rw [request_unowned howner]
    exact t.isPrefix_does .requested pin
  | some w =>
    have hsame : (t.request me pin).1 = t := congrArg Prod.fst (request_owned howner)
    exact ⟨[], by rw [hsame, List.append_nil]⟩

@[simp] theorem pinsOf_nil (op : Op) : pinsOf op ([] : List (Done ω)) = [] := rfl

theorem pinsOf_append (op : Op) (log log' : List (Done ω)) :
    pinsOf op (log ++ log') = pinsOf op log ++ pinsOf op log' := by
  rw [pinsOf, List.filter_append, List.map_append]
  rfl

theorem pinsOf_singleton (op : Op) (d : Done ω) :
    pinsOf op [d] = if d.op = op then [d.pin] else [] := by
  by_cases h : d.op = op <;> simp [pinsOf, h]

@[simp] theorem respects_nil {me : ω} : Respects me [] := fun _ hd => absurd hd List.not_mem_nil

@[simp] theorem respects_append {me : ω} {log log' : List (Done ω)} :
    Respects me (log ++ log') ↔ Respects me log ∧ Respects me log' :=
  List.forall_mem_append

@[simp] theorem respects_cons {me : ω} {d : Done ω} {log : List (Done ω)} :
    Respects me (d :: log) ↔ (∀ w, d.owner = some w → w = me) ∧ Respects me log :=
  List.forall_mem_cons

/-- What has been respected by some time has been before. -/
theorem Respects.of_isPrefix {me : ω} {log log' : List (Done ω)} (h : log <+: log')
    (hlog' : Respects me log') : Respects me log :=
  fun d hd => hlog' d (h.subset hd)

/-! ## A list of pins -/

/-- None of the pins has an owner, and none is there twice. -/
def Table.Available (t : Table ω) (ps : List ℕ) : Prop := (∀ p ∈ ps, t.owner p = none) ∧ ps.Nodup

/-- The pins have been requested one after the other. -/
def Table.own (t : Table ω) (me : ω) (ps : List ℕ) : Table ω where
  owner p := if p ∈ ps then some me else t.owner p
  log := t.log ++ ps.map fun p => ⟨.requested, p, none⟩

/-- The same is done to one pin after the other. -/
def Table.doesAll (t : Table ω) (op : Op) (ps : List ℕ) : Table ω := ps.foldl (·.does op ·) t

/-- One pin after the other is freed. -/
def Table.freeAll (t : Table ω) (ps : List ℕ) : Table ω := ps.foldl Table.free t

@[simp] theorem Table.own_nil (t : Table ω) (me : ω) : t.own me [] = t := by
  simp [own]

/-- Requesting an available pin, and then the others. -/
theorem Table.own_cons {t : Table ω} {me : ω} {p : ℕ} (hp : t.owner p = none) (ps : List ℕ) :
    ((t.does .requested p).setOwner p (some me)).own me ps = t.own me (p :: ps) := by
  rw [own, own]
  congr 1
  · funext q
    by_cases hq : q = p
    · simp [hq]
    · simp [hq]
  · simp [hp]

/-- What is available behind an available pin. -/
theorem Table.available_cons {t : Table ω} {me : ω} {p : ℕ} (hp : t.owner p = none)
    (ps : List ℕ) :
    t.Available (p :: ps) ↔ ((t.does .requested p).setOwner p (some me)).Available ps := by
  have hstep : ∀ q, Function.update t.owner p (some me) q = none ↔ q ≠ p ∧ t.owner q = none := by
    intro q
    by_cases hq : q = p
    · simp [hq]
    · simp [hq]
  simp only [Available, setOwner_owner, does_owner, hstep, List.forall_mem_cons, List.nodup_cons,
    hp, true_and]
  constructor
  · rintro ⟨hps, hnotMem, hnodup⟩
    refine ⟨fun q hq => ⟨fun heq => hnotMem (heq ▸ hq), hps q hq⟩, hnodup⟩
  · rintro ⟨hps, hnodup⟩
    exact ⟨fun q hq => (hps q hq).2, fun hmem => (hps p hmem).1 rfl, hnodup⟩

theorem Table.Available.of_append {t : Table ω} {ps qs : List ℕ} (h : t.Available (ps ++ qs)) :
    t.Available ps :=
  ⟨fun p hp => h.1 p (List.mem_append_left _ hp), h.2.of_append_left⟩

@[simp] theorem Table.doesAll_owner (t : Table ω) (op : Op) (ps : List ℕ) :
    (t.doesAll op ps).owner = t.owner := by
  induction ps generalizing t with
  | nil => rfl
  | cons p ps ih => exact ih (t.does op p)

/-- Freed pins have no owner, and the others keep theirs. -/
theorem Table.freeAll_owner (t : Table ω) (ps : List ℕ) (q : ℕ) :
    (t.freeAll ps).owner q = if q ∈ ps then none else t.owner q := by
  induction ps generalizing t with
  | nil => rfl
  | cons p ps ih =>
    refine (ih (t.free p)).trans ?_
    by_cases hq : q = p
    · simp [hq]
    · simp [hq]

/-! What has been done to which pins -/

@[simp] theorem Table.pinsOf_own (t : Table ω) (me : ω) (op : Op) (ps : List ℕ) :
    pinsOf op (t.own me ps).log = pinsOf op t.log ++ if op = .requested then ps else [] := by
  rw [own, pinsOf_append]
  by_cases hop : op = .requested
  · simp [pinsOf, List.filter_map, Function.comp_def, hop]
  · simp [pinsOf, List.filter_map, Function.comp_def, hop, Ne.symm hop]

@[simp] theorem Table.pinsOf_doesAll (t : Table ω) (op op' : Op) (ps : List ℕ) :
    pinsOf op (t.doesAll op' ps).log = pinsOf op t.log ++ if op = op' then ps else [] := by
  induction ps generalizing t with
  | nil => simp [doesAll]
  | cons p ps ih =>
    refine (ih (t.does op' p)).trans ?_
    rw [does_log, pinsOf_append, pinsOf_singleton]
    by_cases hop : op = op'
    · simp [hop]
    · simp [hop, Ne.symm hop]

@[simp] theorem Table.pinsOf_freeAll (t : Table ω) (op : Op) (ps : List ℕ) :
    pinsOf op (t.freeAll ps).log = pinsOf op t.log ++ if op = .freed then ps else [] := by
  induction ps generalizing t with
  | nil => simp [freeAll]
  | cons p ps ih =>
    refine (ih (t.free p)).trans ?_
    rw [free_log, pinsOf_append, pinsOf_singleton]
    by_cases hop : op = .freed
    · simp [hop]
    · simp [hop, Ne.symm hop]

end Gpio

end KernelModules
