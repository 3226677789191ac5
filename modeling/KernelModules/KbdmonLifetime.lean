import KernelModules.Ledger
import Mathlib.Data.Int.Notation

/-!
# The life of `kbdmon_chrdev.c`

`kbdmon_init` registers a misc device without looking at the answer, and then the input handler; it
returns the error of the handler without taking the device away. `kbdmon_exit` takes both away. The
kernel calls the module through either: whoever opens the device, reads it and closes it, and the
keyboards.

* `kbdmonInit`, `kbdmonExit` — the two functions, as deeds in a ledger;
* `State`, `next` — loads, unloads, open files and keyboards, in any order;
* `chrdev_clean_iff` — **the kernel calls the module only while it is there**, and nothing of it is
  left over, exactly when the two answers of each load go together.
-/

namespace KernelModules

namespace KbdmonLifetime

open Ledger

/-- What there is of the module in the kernel. -/
inductive Resource where
  /-- its code and its data -/
  | image
  /-- the misc device -/
  | device
  /-- the input handler -/
  | handler
  deriving DecidableEq

/-- How the kernel answers the calls of one load. -/
structure Answers where
  /-- what `misc_register` returns -/
  misc : ℤ
  /-- what `input_register_handler` returns -/
  handler : ℤ

/-- `misc_register(&kbdmon_dev)` -/
def miscRegister (answer : ℤ) (log : List (Deed Resource)) : List (Deed Resource) × ℤ :=
  (if answer = 0 then log ++ [.acquire .device] else log, answer)

/-- `input_register_handler(&kbdmon_handler)` -/
def registerHandler (answer : ℤ) (log : List (Deed Resource)) : List (Deed Resource) × ℤ :=
  (if answer = 0 then log ++ [.acquire .handler] else log, answer)

/-- `kbdmon_init` -/
def kbdmonInit (answers : Answers) (log : List (Deed Resource)) : List (Deed Resource) × ℤ :=
  let (log, _) := miscRegister answers.misc log
  let (log, ret) := registerHandler answers.handler log
  if ret ≠ 0 then (log, ret) else (log, 0)

/-- `kbdmon_exit` -/
def kbdmonExit (log : List (Deed Resource)) : List (Deed Resource) :=
  let log := log ++ [.release .handler]
  log ++ [.release .device]

/-- The module, and the files that are open through its device. -/
structure State where
  /-- the module is loaded -/
  loaded : Bool
  /-- the open files -/
  files : ℕ
  /-- what has been done -/
  ledger : List (Deed Resource)

/-- What happens next. -/
inductive Act where
  /-- the module is loaded -/
  | load (answers : Answers)
  /-- it is unloaded -/
  | unload
  /-- somebody opens the device -/
  | openFile
  /-- somebody reads it -/
  | read
  /-- somebody closes it -/
  | close
  /-- a keyboard reports an event -/
  | event

/-- One event. When `kbdmon_init` fails the image of the module goes, and while a file is open the
module is not unloaded. A file is opened through the device, and an event comes through the
handler. -/
def next (s : State) : Act → Option State
  | .load answers =>
    if s.loaded then none
    else
      let (log, ret) := kbdmonInit answers (s.ledger ++ [.acquire .image])
      some (if ret ≠ 0 then { s with ledger := log ++ [.release .image] }
        else { s with loaded := true, ledger := log })
  | .unload =>
    if s.loaded ∧ s.files = 0 then
      some { s with loaded := false, ledger := kbdmonExit s.ledger ++ [.release .image] }
    else none
  | .openFile =>
    if Owned s.ledger .device then
      some { s with files := s.files + 1, ledger := s.ledger ++ [.use .image] }
    else none
  | .read => if s.files = 0 then none else some { s with ledger := s.ledger ++ [.use .image] }
  | .close =>
    if s.files = 0 then none
    else some { s with files := s.files - 1, ledger := s.ledger ++ [.use .image] }
  | .event =>
    if Owned s.ledger .handler then some { s with ledger := s.ledger ++ [.use .image] } else none

/-- Nothing has been loaded. -/
def start : State := ⟨false, 0, []⟩

/-- The lives of the module. -/
def lifeLts : Lts State Act := Lts.ofNext start next

/-- What is used is there, and while the module is loaded all of it is there once, and otherwise
none of it. -/
structure Clean (s : State) : Prop where
  /-- nothing is used or taken away that is not there -/
  lawful : Lawful s.ledger
  /-- what is there -/
  held : ∀ r, s.ledger.count (.acquire r) = s.ledger.count (.release r) + s.loaded.toNat

/-- The two answers of a load are both good or both bad. -/
def Agrees : Act → Prop
  | .load answers => answers.misc = 0 ↔ answers.handler = 0
  | _ => True

/-! ## One event -/

variable {s s' : State} {a : Act}

theorem Clean.owned_iff (h : Clean s) (r : Resource) : Owned s.ledger r ↔ s.loaded = true := by
  rw [Owned, h.held]
  cases s.loaded <;> simp

/-- Something of the module is used while it is loaded. -/
theorem Clean.use (h : Clean s) (hloaded : s.loaded = true) (files : ℕ) :
    Clean { s with files := files, ledger := s.ledger ++ [.use .image] } where
  lawful := lawful_concat.mpr ⟨h.lawful, (h.owned_iff .image).mpr hloaded⟩
  held r := by
    have hheld := h.held r
    simpa using hheld

/-- What a load does, by the answers. -/
theorem next_load (hloaded : s.loaded = false) (answers : Answers) :
    next s (.load answers) = some
      (let log := if answers.misc = 0 then s.ledger ++ [.acquire .image] ++ [.acquire .device]
        else s.ledger ++ [.acquire .image]
      if answers.handler = 0 then ⟨true, s.files, log ++ [.acquire .handler]⟩
      else ⟨false, s.files, log ++ [.release .image]⟩) := by
  by_cases hhandler : answers.handler = 0 <;>
    simp [next, hloaded, kbdmonInit, miscRegister, registerHandler, hhandler]

theorem unloaded_of_load {answers : Answers} (hs : next s (.load answers) = some s') :
    s.loaded = false ∧ s'.files = s.files := by
  have hloaded : s.loaded = false := by
    rw [Bool.eq_false_iff]
    intro hloaded
    rw [next, if_pos hloaded] at hs
    cases hs
  rw [next_load hloaded] at hs
  obtain rfl := Option.some.inj hs
  refine ⟨hloaded, ?_⟩
  by_cases hhandler : answers.handler = 0 <;> simp [hhandler]

/-- **A load** leaves things clean exactly when its two answers go together. -/
theorem Clean.load_iff (h : Clean s) {answers : Answers} (hs : next s (.load answers) = some s') :
    Clean s' ↔ Agrees (.load answers) := by
  obtain ⟨hloaded, -⟩ := unloaded_of_load hs
  have hheld : ∀ r, s.ledger.count (.acquire r) = s.ledger.count (.release r) := by
    intro r
    rw [h.held r, hloaded]
    rfl
  have himage : Lawful (s.ledger ++ [.acquire .image]) := lawful_concat.mpr ⟨h.lawful, trivial⟩
  rw [next_load hloaded] at hs
  obtain rfl := Option.some.inj hs
  by_cases hmisc : answers.misc = 0 <;> by_cases hhandler : answers.handler = 0
  · simp only [hmisc, hhandler, if_true]
    refine ⟨fun _ => by simp [Agrees, hmisc, hhandler], fun _ => ⟨?_, fun r => ?_⟩⟩
    · exact lawful_concat.mpr ⟨lawful_concat.mpr ⟨himage, trivial⟩, trivial⟩
    · cases r <;> simp [hheld]
  · -- the device stays when the image goes
    simp only [hmisc, hhandler, if_true, if_false]
    refine ⟨fun hclean => ?_, fun hagrees => absurd (hagrees.mp hmisc) hhandler⟩
    have hdevice := hclean.held .device
    simp [hheld] at hdevice
  · -- the module is loaded without its device
    simp only [hmisc, hhandler, if_true, if_false]
    refine ⟨fun hclean => ?_, fun hagrees => absurd (hagrees.mpr hhandler) hmisc⟩
    have hdevice := hclean.held .device
    simp [hheld] at hdevice
  · simp only [hmisc, hhandler, if_false]
    refine ⟨fun _ => by simp [Agrees, hmisc, hhandler], fun _ => ⟨?_, fun r => ?_⟩⟩
    · refine lawful_concat.mpr ⟨himage, ?_⟩
      simp [Deed.Allowed, Owned, hheld]
    · cases r <;> simp [hheld]

/-- An unload takes everything away. -/
theorem Clean.unload (h : Clean s) (hloaded : s.loaded = true) :
    Clean { s with loaded := false, ledger := kbdmonExit s.ledger ++ [.release .image] } where
  lawful := by
    have howned : ∀ r, Owned s.ledger r := fun r => (h.owned_iff r).mpr hloaded
    have hhandler : Lawful (s.ledger ++ [.release .handler]) :=
      lawful_concat.mpr ⟨h.lawful, howned .handler⟩
    have hdevice : Lawful (s.ledger ++ [.release .handler] ++ [.release .device]) := by
      refine lawful_concat.mpr ⟨hhandler, ?_⟩
      simpa [Deed.Allowed, Owned] using howned .device
    refine lawful_concat.mpr ⟨hdevice, ?_⟩
    simpa [Deed.Allowed, Owned, kbdmonExit] using howned .image
  held r := by
    have hheld := h.held r
    rw [hloaded] at hheld
    cases r <;> simpa [kbdmonExit] using hheld

/-- An open file keeps the module loaded. -/
def Pinned (s : State) : Prop := s.files ≠ 0 → s.loaded = true

/-- **One event** of a run in which the answers go together. -/
theorem Clean.step (h : Clean s ∧ Pinned s) (hagrees : Agrees a) (hs : next s a = some s') :
    Clean s' ∧ Pinned s' := by
  obtain ⟨hclean, hpinned⟩ := h
  cases a with
  | load answers =>
    refine ⟨(hclean.load_iff hs).mpr hagrees, fun hfiles => ?_⟩
    obtain ⟨hloaded, hsame⟩ := unloaded_of_load hs
    rw [hsame] at hfiles
    rw [hpinned hfiles] at hloaded
    cases hloaded
  | unload =>
    simp only [next] at hs
    split at hs
    · next hidle =>
      cases hs
      exact ⟨hclean.unload hidle.1, fun hfiles => absurd hidle.2 hfiles⟩
    · cases hs
  | openFile =>
    simp only [next] at hs
    split at hs
    · next howned =>
      cases hs
      have hloaded := (hclean.owned_iff _).mp howned
      exact ⟨hclean.use hloaded _, fun _ => hloaded⟩
    · cases hs
  | read =>
    simp only [next] at hs
    split at hs
    · cases hs
    · next hfiles =>
      cases hs
      exact ⟨hclean.use (hpinned hfiles) _, hpinned⟩
  | close =>
    simp only [next] at hs
    split at hs
    · cases hs
    · next hfiles =>
      cases hs
      exact ⟨hclean.use (hpinned hfiles) _, fun _ => hpinned hfiles⟩
  | event =>
    simp only [next] at hs
    split at hs
    · next howned =>
      cases hs
      have hloaded := (hclean.owned_iff _).mp howned
      exact ⟨hclean.use hloaded _, hpinned⟩
    · cases hs

theorem clean_inductive : (lifeLts.restrict fun _ a => Agrees a).Inductive fun s =>
    Clean s ∧ Pinned s where
  init := by
    rintro s rfl
    exact ⟨⟨lawful_nil, fun r => rfl⟩, fun hfiles => absurd rfl hfiles⟩
  step h hs := Clean.step h hs.1 hs.2

/-- **The kernel calls the module only while it is there**, with its device and its handler each
registered once, and nothing of it is left over otherwise, at any moment of a run of loads, unloads,
files and events, exactly when in each load `misc_register` and `input_register_handler` both
succeed or both fail. -/
theorem chrdev_clean_iff {as : List Act} {s : State} (hr : lifeLts.Run start as s) :
    (∀ bs cs t, as = bs ++ cs → lifeLts.Run start bs t → Clean t) ↔ ∀ a ∈ as, Agrees a := by
  constructor
  · intro hclean a ha
    cases a with
    | load answers =>
      obtain ⟨bs, cs, hsplit⟩ := List.append_of_mem ha
      obtain ⟨t, t', ht, hstep⟩ := hr.exists_step hsplit
      have hbefore : Clean t := hclean bs _ t hsplit ht
      have hafter : Clean t' :=
        hclean (bs ++ [.load answers]) cs t' (by rw [hsplit, List.append_cons]) (ht.snoc hstep)
      exact (hbefore.load_iff hstep).mp hafter
    | _ => trivial
  · intro hagrees bs cs t hsplit ht
    have hbs : ∀ a ∈ bs, Agrees a := by
      intro a ha
      refine hagrees a ?_
      rw [hsplit]
      exact List.mem_append_left _ ha
    exact (clean_inductive.reachable ((ht.to_restrict hbs).reachable rfl)).1

/-- The module is loaded, a file is opened, read and closed, and the module is unloaded; then it
cannot be loaded. -/
def twoLives : List Act :=
  [.load ⟨0, 0⟩, .openFile, .event, .read, .close, .unload, .load ⟨-12, -12⟩]

/-- It is clean at every moment. -/
theorem chrdev_clean_twice :
    ∃ s, lifeLts.Run start twoLives s ∧
      ∀ bs cs t, twoLives = bs ++ cs → lifeLts.Run start bs t → Clean t := by
  have hr : lifeLts.Run start twoLives _ :=
    Lts.run_of_foldlM .nil (rfl : twoLives.foldlM next start = some _)
  refine ⟨_, hr, (chrdev_clean_iff hr).mpr ?_⟩
  intro a ha
  simp only [twoLives, List.mem_cons, List.not_mem_nil, or_false] at ha
  obtain rfl | rfl | rfl | rfl | rfl | rfl | rfl := ha <;> simp [Agrees]

/-- The handler cannot be registered: the file stays, and whoever opens it calls a module that is
gone. -/
example : ([.load ⟨0, -12⟩, .openFile].foldlM next start).map
    (fun s => (s.loaded, decide (Lawful s.ledger))) = some (false, false) := by decide

end KbdmonLifetime

end KernelModules
