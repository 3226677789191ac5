import KernelModules.Ledger
import KernelModules.UserMemory
import Mathlib.Data.Set.Basic

/-!
# Input handles

What a keyboard handler asks of the kernel for one connection: an object, the registration
of the handle inside it, and the opening of the device. Each is acquired and released, and
for each object the kernel keeps the list of what has been done with it.

* `Handle`, `containerOf` — the handle is a field of the object;
* `Kernel` — the objects so far, with their ledgers, and the calls a handler makes;
* `live`, `registered`, `opened` — the objects that have not been freed, and those whose
  handle is registered and open;
* `standing`, `Gone` — what has been done with the object of a connection that stands, and
  of one that has been taken down.
-/

namespace KernelModules

namespace InputHandles

open Ledger

/-- What a connection consists of. -/
inductive Part where
  /-- the `struct kbdmon` -/
  | object
  /-- the registration of its handle -/
  | registration
  /-- the opening of the device through the handle -/
  | opening
  deriving DecidableEq

/-- The field `handle` of an object. -/
structure Handle where
  /-- the object it is in -/
  kbd : ℕ
  deriving DecidableEq

/-- `&kbd->handle` -/
def handleOf (kbd : ℕ) : Handle := ⟨kbd⟩

/-- `container_of(handle, struct kbdmon, handle)` -/
def containerOf (h : Handle) : ℕ := h.kbd

/-- How the kernel answers the three calls of a connection. -/
structure Answers where
  /-- `kzalloc` finds memory -/
  alloc : Bool
  /-- what `input_register_handle` returns -/
  register : ℤ
  /-- what `input_open_device` returns -/
  opening : ℤ
  deriving DecidableEq

/-- The objects allocated so far are the numbers below `fresh`. -/
structure Kernel where
  /-- the next object -/
  fresh : ℕ
  /-- what has been done with each object -/
  ledger : ℕ → List (Deed Part)

/-- Nothing has been allocated. -/
def Kernel.start : Kernel := ⟨0, fun _ => []⟩

namespace Kernel

variable (w : Kernel)

/-- The ledger of one object goes on. -/
def append (kbd : ℕ) (ds : List (Deed Part)) : Kernel :=
  { w with ledger := Function.update w.ledger kbd (w.ledger kbd ++ ds) }

/-- One more object. -/
def bump : Kernel := { w with fresh := w.fresh + 1 }

/-- `kzalloc` -/
def kzalloc (answer : Bool) : Kernel × Option ℕ :=
  if answer then ((w.append w.fresh [.acquire .object]).bump, some w.fresh) else (w, none)

/-- The fields of the object are used. -/
def useObject (kbd : ℕ) : Kernel := w.append kbd [.use .object]

/-- `input_register_handle` -/
def registerHandle (h : Handle) (answer : ℤ) : Kernel × ℤ :=
  (if answer = 0 then w.append h.kbd [.acquire .registration] else w, answer)

/-- `input_open_device` -/
def openDevice (h : Handle) (answer : ℤ) : Kernel × ℤ :=
  (if answer = 0 then w.append h.kbd [.acquire .opening] else w, answer)

/-- `input_close_device` -/
def closeDevice (h : Handle) : Kernel := w.append h.kbd [.release .opening]

/-- `input_unregister_handle` -/
def unregisterHandle (h : Handle) : Kernel := w.append h.kbd [.release .registration]

/-- `kfree` -/
def kfree (kbd : ℕ) : Kernel := w.append kbd [.release .object]

/-- The objects that have not been freed. -/
def live : Set ℕ := {kbd | Owned (w.ledger kbd) .object}

/-- The objects whose handle is registered. -/
def registered : Set ℕ := {kbd | Owned (w.ledger kbd) .registration}

/-- The objects whose handle is open. -/
def opened : Set ℕ := {kbd | Owned (w.ledger kbd) .opening}

/-! ## Ledgers that go on -/

@[simp] theorem append_fresh (kbd : ℕ) (ds : List (Deed Part)) :
    (w.append kbd ds).fresh = w.fresh := rfl

@[simp] theorem bump_append (kbd : ℕ) (ds : List (Deed Part)) :
    w.bump.append kbd ds = (w.append kbd ds).bump := rfl

@[simp] theorem append_append (kbd : ℕ) (ds es : List (Deed Part)) :
    (w.append kbd ds).append kbd es = w.append kbd (ds ++ es) := by
  simp only [append, Function.update_self, Function.update_idem, List.append_assoc]

@[simp] theorem append_ledger_self (kbd : ℕ) (ds : List (Deed Part)) :
    (w.append kbd ds).ledger kbd = w.ledger kbd ++ ds := Function.update_self ..

theorem append_ledger_of_ne {kbd k : ℕ} (h : k ≠ kbd) (ds : List (Deed Part)) :
    (w.append kbd ds).ledger k = w.ledger k := Function.update_of_ne h ..

end Kernel

/-- `kbdmon_disconnect`, the same in every handler. -/
def kbdmonDisconnect (h : Handle) (w : Kernel) : Kernel :=
  let kbd := containerOf h
  let w := w.closeDevice h
  let w := w.unregisterHandle h
  w.kfree kbd

/-- What a disconnect does with the object. -/
def disconnectDeeds : List (Deed Part) :=
  [.release .opening, .release .registration, .release .object]

theorem kbdmonDisconnect_eq (h : Handle) (w : Kernel) :
    kbdmonDisconnect h w = w.append h.kbd disconnectDeeds := by
  simp [kbdmonDisconnect, Kernel.closeDevice, Kernel.unregisterHandle, Kernel.kfree, containerOf,
    disconnectDeeds]

/-! ## What has been done with each object -/

/-- The object of a connection that stands: its parts are all there, and nothing has been
released. -/
def standing : List (Deed Part) :=
  [.acquire .object, .use .object, .acquire .registration, .acquire .opening]

/-- The object is freed when neither its handle is registered nor its device open. -/
def FreedLast (ds : List (Deed Part)) : Prop :=
  ∀ i (hi : i < ds.length), ds[i] = .release .object →
    ¬ Owned (ds.take i) .registration ∧ ¬ Owned (ds.take i) .opening

instance (ds : List (Deed Part)) : Decidable (FreedLast ds) :=
  inferInstanceAs (Decidable (∀ i (hi : i < ds.length), ds[i] = .release .object →
    ¬ Owned (ds.take i) .registration ∧ ¬ Owned (ds.take i) .opening))

/-- The object of a connection that has been refused or taken down. -/
structure Gone (ds : List (Deed Part)) : Prop where
  /-- whatever has been used or released was there -/
  lawful : Lawful ds
  /-- nothing is left -/
  nothing : ∀ p, ¬ Owned ds p
  /-- the object went last -/
  freedLast : FreedLast ds
  /-- and once -/
  freed : ds.count (.release .object) = 1

theorem owned_standing (p : Part) : Owned standing p := by
  cases p <;> decide

/-- A disconnect takes down what stands. -/
theorem gone_disconnected : Gone (standing ++ disconnectDeeds) where
  lawful := by decide
  nothing p := by cases p <;> decide
  freedLast := by decide
  freed := by decide

end InputHandles

end KernelModules
