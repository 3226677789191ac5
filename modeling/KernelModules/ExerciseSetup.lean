import KernelModules.CharDeviceErrors

/-!
# Loading the drivers of the mutex exercise

`buggy_device.c`, `fixed_device.c` and `gold_device.c` set up a character device each. The last two
look at every answer of the kernel and undo what they have done when one of them is an error; the
first one looks at none. All of them return the region itself with `unregister_chrdev_region`.

* `goldInit`, `fixedInit`, `buggyInit`, `driverExit` — the functions, on the kernel's tables;
* `loadGood_stagedInit` — a load that undoes its steps leaves the tables as they were, whatever
  the kernel answers;
* `exercise_loads` — **loads and unloads in any order**: everything goes as it should exactly when
  no load of `buggy_device.c` meets an error, and then the tables are at all times what they were in
  the beginning and what the loaded drivers have put there.
-/

namespace KernelModules

namespace MutexExercise

open CharDevice Ledger

/-! ## The drivers -/

/-- The drivers of the exercise. -/
inductive Driver where
  /-- `buggy_device.c` -/
  | buggyDevice
  /-- `fixed_device.c` -/
  | fixedDevice
  /-- `gold_device.c` -/
  | goldDevice
  deriving DecidableEq

/-- `CLASS_NAME` -/
def Driver.className : Driver → String
  | .buggyDevice => "buggy_class"
  | .fixedDevice => "fixed_class"
  | .goldDevice => "gold_class"

/-- How the kernel answers the calls of one load. -/
structure Answers where
  /-- the major number `alloc_chrdev_region` picks, or why it fails -/
  region : Except Errno Major
  /-- why `cdev_add` fails, if it does -/
  cdevError : Option Errno
  /-- why `class_create` fails, if it does -/
  classError : Option Errno
  /-- why `device_create` fails, if it does -/
  deviceError : Option Errno

/-- `alloc_chrdev_region(&dev_num, 0, 1, ..)`: its return value, and what `dev_num` holds then. -/
def allocChrdevRegion (k : Kernel) (answer : Except Errno Major) : Setup × ℤ × ℕ :=
  match answer with
  | .error e => (⟨k, []⟩, -e.val, 0)
  | .ok major => (⟨major.registered k, []⟩, 0, mkdev major.val 0)

/-- The regions without the one that `unregister_chrdev_region(dev, 1)` removes, if it is there:
that of the major and the minor number, and of one number in all. -/
def withoutRegion (regions : List Region) (dev : ℕ) : List Region :=
  regions.filter fun r =>
    !decide (r.major.val = dev / 2 ^ 20 ∧ r.baseminor = dev % 2 ^ 20 ∧ r.minors = 1)

/-- `unregister_chrdev_region(dev, 1)` -/
def unregisterChrdevRegion (s : Setup) (dev : ℕ) : Setup :=
  { s with kernel := { s.kernel with regions := withoutRegion s.kernel.regions dev } }

/-- `IS_ERR` -/
def isErr {α : Type} : Ptr α → Bool
  | .err _ => true
  | .null | .obj _ => false

/-- `PTR_ERR`, of an error pointer -/
def ptrErr {α : Type} : Ptr α → ℤ
  | .err e => e
  | .null | .obj _ => 0

/-! The labels at the end of `gold_init`, each falling through to the next. -/

/-- `err_unregister` -/
def errUnregister (ret : ℤ) (s : Setup) (i : Instance) : Loaded :=
  ⟨ret, unregisterChrdevRegion s i.myDeviceNumber, i⟩

/-- `err_cdev` -/
def errCdev (ret : ℤ) (s : Setup) (i : Instance) : Loaded :=
  errUnregister ret (s.cdevDel i.myDeviceNumber) i

/-- `err_class` -/
def errClass (ret : ℤ) (s : Setup) (i : Instance) : Loaded :=
  errCdev ret (s.classDestroy i.myClass) i

/-- The steps of `gold_init`, with the name of its class. -/
def stagedInit (className : String) (a : Answers) (k : Kernel) : Loaded :=
  let (s, ret, dev) := allocChrdevRegion k a.region
  if ret ≠ 0 then ⟨ret, s, ⟨dev, .null⟩⟩
  else
    let (s, ret) := s.cdevAdd dev a.cdevError
    if ret ≠ 0 then errUnregister ret s ⟨dev, .null⟩
    else
      let (s, cls) := s.classCreate className a.classError
      if isErr cls then errCdev (ptrErr cls) s ⟨dev, cls⟩
      else
        let (s, file) := s.deviceCreate cls dev a.deviceError
        if isErr file then errClass (-enomem) s ⟨dev, cls⟩
        else ⟨0, s, ⟨dev, cls⟩⟩

/-- `gold_init` -/
def goldInit (a : Answers) (k : Kernel) : Loaded := stagedInit Driver.goldDevice.className a k

/-- `fixed_init`, which undoes its steps where it finds the error. -/
def fixedInit (a : Answers) (k : Kernel) : Loaded :=
  let (s, ret, dev) := allocChrdevRegion k a.region
  if ret < 0 then ⟨ret, s, ⟨dev, .null⟩⟩
  else
    let (s, ret) := s.cdevAdd dev a.cdevError
    if ret < 0 then ⟨ret, unregisterChrdevRegion s dev, ⟨dev, .null⟩⟩
    else
      let (s, cls) := s.classCreate Driver.fixedDevice.className a.classError
      if isErr cls then ⟨ptrErr cls, unregisterChrdevRegion (s.cdevDel dev) dev, ⟨dev, cls⟩⟩
      else
        let (s, file) := s.deviceCreate cls dev a.deviceError
        if isErr file then
          ⟨-enomem, unregisterChrdevRegion ((s.classDestroy cls).cdevDel dev) dev, ⟨dev, cls⟩⟩
        else ⟨0, s, ⟨dev, cls⟩⟩

/-- `buggy_init`, which looks at no answer. -/
def buggyInit (a : Answers) (k : Kernel) : Loaded :=
  let (s, _, dev) := allocChrdevRegion k a.region
  let (s, _) := s.cdevAdd dev a.cdevError
  let (s, cls) := s.classCreate Driver.buggyDevice.className a.classError
  let (s, _) := s.deviceCreate cls dev a.deviceError
  ⟨0, s, ⟨dev, cls⟩⟩

/-- The function a driver is loaded with. -/
def Driver.init : Driver → Answers → Kernel → Loaded
  | .buggyDevice => buggyInit
  | .fixedDevice => fixedInit
  | .goldDevice => goldInit

/-- `gold_exit`, `fixed_exit` and `buggy_exit`. -/
def driverExit (i : Instance) (k : Kernel) : Setup :=
  let s : Setup := ⟨k, []⟩
  let s := s.deviceDestroy i.myClass i.myDeviceNumber
  let s := s.classDestroy i.myClass
  let s := s.cdevDel i.myDeviceNumber
  unregisterChrdevRegion s i.myDeviceNumber

/-! ## Loading and unloading them -/

/-- The kernel's tables, and the static variables of the loaded drivers, the latest first. -/
structure Sys where
  /-- the tables -/
  kernel : Kernel
  /-- the drivers that are loaded -/
  loaded : List (Driver × Instance)

/-- A driver is loaded, or a loaded one unloaded. -/
inductive Act where
  /-- `insmod` -/
  | load (m : Driver) (a : Answers)
  /-- `rmmod` -/
  | unload (m : Driver)

/-- The region, if one is registered, gets a major number that is free. -/
def Answers.Free (a : Answers) (k : Kernel) : Prop :=
  ∀ major, a.region = .ok major → ∀ r ∈ k.regions, r.major ≠ major

instance (a : Answers) (k : Kernel) : Decidable (a.Free k) :=
  match h : a.region with
  | .error _ => isTrue fun major hm => by rw [h] at hm; cases hm
  | .ok major => decidable_of_iff (∀ r ∈ k.regions, r.major ≠ major)
      ⟨fun hall m hm => by rw [h] at hm; cases hm; exact hall, fun hall => hall major h⟩

/-- One step. -/
def next (s : Sys) : Act → Option Sys
  | .load m a =>
    if (∀ e ∈ s.loaded, e.1 ≠ m) ∧ a.Free s.kernel then
      let l := m.init a s.kernel
      some ⟨l.setup.kernel, if l.ret = 0 then (m, l.inst) :: s.loaded else s.loaded⟩
    else none
  | .unload m => match s.loaded.find? fun e => e.1 = m with
    | none => none
    | some e =>
      some ⟨(driverExit e.2 s.kernel).kernel, s.loaded.filter fun e => e.1 ≠ m⟩

/-- None of the drivers is loaded. -/
def unloaded (base : Kernel) : Sys := ⟨base, []⟩

/-- All sequences of loads and unloads. -/
abbrev exercise (base : Kernel) : Lts Sys Act := Lts.ofNext (unloaded base) next

/-- What a driver has put in the tables of objects, the latest first. -/
def own (m : Driver) (major : Major) : List Obj :=
  [.device m.className (mkdev major.val 0), .cls m.className, .cdev (mkdev major.val 0)]

/-- The static variables of a driver whose load met no error. -/
def instanceOf (m : Driver) (major : Major) : Instance := ⟨mkdev major.val 0, .obj m.className⟩

/-- The tables as they were, and what the loaded drivers have put there. -/
def tables (base : Kernel) (up : List (Driver × Major)) : Kernel :=
  ⟨up.map (fun e => e.2.region) ++ base.regions, up.flatMap (fun e => own e.1 e.2) ++ base.objects⟩

/-- What a load should do: put in the tables what belongs to the driver and nothing else, or
leave them as they are, and hand no error pointer to any call. -/
structure LoadGood (m : Driver) (a : Answers) (k : Kernel) (l : Loaded) : Prop where
  /-- a driver that is loaded has all it needs -/
  loaded : l.ret = 0 → ∃ major, a.region = .ok major ∧ l.inst = instanceOf m major ∧
    l.setup = ⟨tables k [(m, major)], (own m major).reverse.map .acquire⟩
  /-- one that is not leaves nothing behind -/
  undone : l.ret ≠ 0 → l.setup.kernel = k ∧ Lawful l.setup.log ∧ Settled l.setup.log ∧
    NoErrPtr l.setup.log

/-- What a step should do. An unload destroys what belongs to the driver, in reverse. -/
def Good (s : Sys) : Act → Prop
  | .load m a => LoadGood m a s.kernel (m.init a s.kernel)
  | .unload m => ∃ major, (m, instanceOf m major) ∈ s.loaded ∧
    (driverExit (instanceOf m major) s.kernel).log = (own m major).map .release

/-- No call fails, and the class is new. -/
def Answers.Unhindered (a : Answers) (m : Driver) (k : Kernel) : Prop :=
  (∃ major, a.region = .ok major) ∧ a.cdevError = none ∧
    (.cls m.className ∉ k.objects ∧ a.classError = none) ∧ a.deviceError = none

/-- Every load of `buggy_device.c` meets no error. -/
def BuggyUnhindered (s : Sys) : Act → Prop
  | .load .buggyDevice a => a.Unhindered .buggyDevice s.kernel
  | .load .fixedDevice _ | .load .goldDevice _ | .unload _ => True

/-! ## One load -/

variable {name : String} {m : Driver} {a : Answers} {k : Kernel} {major : Major}

/-- The number of a driver is that of its region. -/
theorem mkdev_div (major : Major) : mkdev major.val 0 / 2 ^ 20 = major.val := by
  rw [mkdev, Nat.add_zero, Nat.mul_div_cancel _ (by decide)]

theorem mkdev_mod (major : Major) : mkdev major.val 0 % 2 ^ 20 = 0 := by
  rw [mkdev, Nat.add_zero, Nat.mul_mod_left]

/-- Regions of other major numbers stay. -/
theorem withoutRegion_of_free {regions : List Region} (h : ∀ r ∈ regions, r.major ≠ major) :
    withoutRegion regions (mkdev major.val 0) = regions := by
  rw [withoutRegion, mkdev_div, mkdev_mod, List.filter_eq_self]
  intro r hr
  have hne : r.major.val ≠ major.val := by
    intro heq
    refine h r hr ?_
    cases hmajor : r.major
    cases major
    rw [hmajor] at heq
    dsimp only at heq
    subst heq
    rfl
  simp [hne]

/-- The region of the driver goes. -/
theorem withoutRegion_mid {later earlier : List Region}
    (h : ∀ r ∈ later ++ earlier, r.major ≠ major) :
    withoutRegion (later ++ major.region :: earlier) (mkdev major.val 0) = later ++ earlier := by
  have hown : ¬ (!decide (major.region.major.val = mkdev major.val 0 / 2 ^ 20 ∧
      major.region.baseminor = mkdev major.val 0 % 2 ^ 20 ∧ major.region.minors = 1)) = true := by
    rw [mkdev_div, mkdev_mod]
    simp [Major.region]
  refine Eq.trans ?_ (withoutRegion_of_free h)
  simp only [withoutRegion, List.filter_append, List.filter_cons, if_neg hown]

/-- What was put in the tables last is removed first. -/
theorem remove_head (r : List Region) (o : Obj) (os : List Obj) (log : List (Deed Obj)) :
    Setup.remove ⟨⟨r, o :: os⟩, log⟩ o = ⟨⟨r, os⟩, log ++ [.release o]⟩ := by
  rw [Setup.remove, if_pos (List.mem_cons_self ..), List.erase_cons_head]

/-- `class_create`, once the `cdev` is there. -/
theorem classCreate_cdev (r : List Region) (dev : ℕ) (log : List (Deed Obj))
    (fault : Option Errno) :
    let s : Setup := ⟨⟨r, .cdev dev :: k.objects⟩, log⟩
    (∃ e, s.classCreate name fault = (s, .err e) ∧ e ≠ 0) ∨
      (.cls name ∉ k.objects ∧ fault = none) ∧ s.classCreate name fault =
        (⟨⟨r, .cls name :: .cdev dev :: k.objects⟩, log ++ [.acquire (.cls name)]⟩, .obj name) := by
  intro s
  have hmem : .cls name ∈ s.kernel.objects ↔ .cls name ∈ k.objects := by simp [s]
  by_cases hclass : .cls name ∈ k.objects
  · exact .inl ⟨_, if_pos (hmem.mpr hclass), by decide⟩
  · cases fault with
    | some e =>
      have hpos := e.pos
      exact .inl ⟨-e.val, if_neg (mt hmem.mp hclass), by omega⟩
    | none => exact .inr ⟨⟨hclass, rfl⟩, if_neg (mt hmem.mp hclass)⟩

/-- The ways in which a load ends that looks at every answer: it undoes what it has done, or it
has met no error. -/
theorem stagedInit_cases (hfree : a.Free k) :
    (∃ ret i os, ret ≠ 0 ∧ os.Nodup ∧ stagedInit name a k = ⟨ret, ⟨k, undone os⟩, i⟩) ∨
    ∃ major, a.region = .ok major ∧ stagedInit name a k = ⟨0, ⟨⟨major.region :: k.regions,
        .device name (mkdev major.val 0) :: .cls name :: .cdev (mkdev major.val 0) :: k.objects⟩,
        [.acquire (.cdev (mkdev major.val 0)), .acquire (.cls name),
          .acquire (.device name (mkdev major.val 0))]⟩, ⟨mkdev major.val 0, .obj name⟩⟩ := by
  obtain ⟨region, cdevError, classError, deviceError⟩ := a
  cases region with
  | error e =>
    have hpos := e.pos
    have hret : -e.val ≠ 0 := by omega
    exact .inl ⟨-e.val, ⟨0, .null⟩, [], hret, List.nodup_nil, if_pos hret⟩
  | ok major =>
    have hregions : withoutRegion (major.region :: k.regions) (mkdev major.val 0) = k.regions :=
      @withoutRegion_mid _ [] _ (hfree major rfl)
    cases cdevError with
    | some e =>
      have hpos := e.pos
      have hret : -e.val ≠ 0 := by omega
      refine .inl ⟨-e.val, ⟨mkdev major.val 0, .null⟩, [], hret, List.nodup_nil, ?_⟩
      simp only [stagedInit, allocChrdevRegion, Setup.cdevAdd, Major.registered, errUnregister,
        unregisterChrdevRegion, hregions, hret, ne_eq, not_true_eq_false, not_false_eq_true,
        if_false, if_true]
      rfl
    | none =>
      rcases @classCreate_cdev name k (major.region :: k.regions)
        (mkdev major.val 0) [.acquire (.cdev (mkdev major.val 0))] classError with
        ⟨e, hcreate, he⟩ | ⟨-, hcreate⟩
      · refine .inl ⟨e, ⟨mkdev major.val 0, .err e⟩, [.cdev (mkdev major.val 0)], he,
          List.nodup_singleton _, ?_⟩
        simp only [stagedInit, allocChrdevRegion, Setup.cdevAdd, Setup.add, Major.registered,
          List.nil_append, hcreate, isErr, ptrErr, errCdev, Setup.cdevDel, remove_head,
          errUnregister, unregisterChrdevRegion, hregions, ne_eq, not_true_eq_false, if_false,
          if_true]
        rfl
      · cases deviceError with
        | some e =>
          refine .inl ⟨-enomem, ⟨mkdev major.val 0, .obj name⟩,
            [.cdev (mkdev major.val 0), .cls name], by decide, by simp, ?_⟩
          simp only [stagedInit, allocChrdevRegion, Setup.cdevAdd, Setup.add, Major.registered,
            List.nil_append, hcreate, isErr, Setup.deviceCreate, errClass, Setup.classDestroy,
            errCdev, Setup.cdevDel, remove_head, errUnregister, unregisterChrdevRegion, hregions,
            ne_eq, not_true_eq_false, Bool.false_eq_true, if_false, if_true]
          rfl
        | none =>
          refine .inr ⟨major, rfl, ?_⟩
          simp only [stagedInit, allocChrdevRegion, Setup.cdevAdd, Setup.add, Major.registered,
            List.nil_append, hcreate, isErr, Setup.deviceCreate, ne_eq, not_true_eq_false,
            Bool.false_eq_true, if_false]
          rfl

/-- **A load that looks at every answer** is as it should be, whatever the kernel answers. -/
theorem loadGood_stagedInit (hfree : a.Free k) :
    LoadGood m a k (stagedInit m.className a k) := by
  rcases @stagedInit_cases m.className _ _ hfree with
    ⟨ret, i, os, hret, hos, heq⟩ | ⟨major, hregion, heq⟩
  · rw [heq]
    exact ⟨fun h => absurd h hret,
      fun _ => ⟨rfl, lawful_undone hos, settled_undone hos, noErrPtr_undone⟩⟩
  · rw [heq]
    exact ⟨fun _ => ⟨major, hregion, rfl, rfl⟩, fun h => absurd rfl h⟩

/-- `fixed_init` takes the steps of `gold_init`: an answer that is not 0 is negative. -/
theorem fixedInit_eq (a : Answers) (k : Kernel) :
    fixedInit a k = stagedInit Driver.fixedDevice.className a k := by
  have hneg : ∀ e : Errno, -e.val < 0 ∧ -e.val ≠ 0 := fun e => by
    have hpos := e.pos
    omega
  obtain ⟨region, cdevError, classError, deviceError⟩ := a
  cases region with
  | error e => exact (if_pos (hneg e).1).trans (if_pos (hneg e).2).symm
  | ok major =>
    cases cdevError with
    | some e => exact (if_pos (hneg e).1).trans (if_pos (hneg e).2).symm
    | none => rfl

/-- `buggy_init` always returns 0, so it is as it should be only when there is no error to see. -/
theorem loadGood_buggyInit_iff :
    LoadGood .buggyDevice a k (buggyInit a k) ↔ a.Unhindered .buggyDevice k := by
  obtain ⟨region, cdevError, classError, deviceError⟩ := a
  have hname : Driver.className .buggyDevice = "buggy_class" := rfl
  constructor
  · intro h
    obtain ⟨major, hregion, hinst, hsetup⟩ := h.loaded rfl
    dsimp only at hregion
    subst hregion
    have hlog := congrArg Setup.log hsetup
    have hclass := congrArg Instance.myClass hinst
    refine ⟨⟨major, rfl⟩, ?_⟩
    by_cases hmem : .cls "buggy_class" ∈ k.objects <;> cases cdevError <;> cases classError <;>
      cases deviceError <;>
      simp [buggyInit, allocChrdevRegion, Setup.cdevAdd, Setup.add, Setup.classCreate,
        Setup.deviceCreate, Setup.misuse, Major.registered, instanceOf, own, hname, hmem]
        at hlog hclass ⊢
  · rintro ⟨⟨major, hregion⟩, hcdev, ⟨hmem, hclass⟩, hdevice⟩
    dsimp only at hregion hcdev hclass hdevice
    subst hregion hcdev hclass hdevice
    rw [hname] at hmem
    refine ⟨fun _ => ⟨major, rfl, ?_⟩, fun h => absurd rfl h⟩
    simp [buggyInit, allocChrdevRegion, Setup.cdevAdd, Setup.add, Setup.classCreate,
      Setup.deviceCreate, Major.registered, instanceOf, tables, own, hname, hmem]

/-- **One load**: `gold_init` and `fixed_init` cope with every answer, `buggy_init` with none
that is an error. -/
theorem loadGood_iff {s : Sys} (hfree : a.Free s.kernel) :
    Good s (.load m a) ↔ BuggyUnhindered s (.load m a) := by
  cases m with
  | buggyDevice => exact loadGood_buggyInit_iff
  | fixedDevice =>
    refine iff_of_true ?_ trivial
    change LoadGood .fixedDevice a s.kernel (fixedInit a s.kernel)
    rw [fixedInit_eq]
    exact loadGood_stagedInit hfree
  | goldDevice => exact iff_of_true (loadGood_stagedInit hfree) trivial

/-! ## One unload -/

/-- An object that is nowhere before it leaves the others where they are. -/
theorem remove_mid (r : List Region) {os : List Obj} {o : Obj} (ho : o ∉ os) (os' : List Obj)
    (log : List (Deed Obj)) :
    Setup.remove ⟨⟨r, os ++ o :: os'⟩, log⟩ o = ⟨⟨r, os ++ os'⟩, log ++ [.release o]⟩ := by
  have hmem : o ∈ os ++ o :: os' := List.mem_append_right _ (List.mem_cons_self ..)
  rw [Setup.remove, if_pos hmem]
  dsimp only
  rw [List.erase_append_right _ ho, List.erase_cons_head]

/-- Unloading a driver destroys what belongs to it, wherever it stands in the tables. -/
theorem driverExit_eq (r : List Region) {os : List Obj} (hos : ∀ o ∈ own m major, o ∉ os)
    (os' : List Obj) : driverExit (instanceOf m major) ⟨r, os ++ (own m major ++ os')⟩ =
      ⟨⟨withoutRegion r (mkdev major.val 0), os ++ os'⟩, (own m major).map .release⟩ := by
  simp only [own, List.forall_mem_cons] at hos
  obtain ⟨hdevice, hcls, hcdev, -⟩ := hos
  simp only [driverExit, instanceOf, own, Setup.deviceDestroy, Setup.classDestroy, Setup.cdevDel,
    List.cons_append, List.nil_append]
  rw [remove_mid _ hdevice, remove_mid _ hcls, remove_mid _ hcdev]
  rfl

/-- Two drivers with different numbers have nothing in common. -/
theorem own_disjoint {m' : Driver} {major' : Major} (hm : m ≠ m') (hmajor : major ≠ major') :
    ∀ o ∈ own m major, o ∉ own m' major' := by
  have hname : m.className ≠ m'.className := by
    cases m <;> cases m' <;> first
      | exact absurd rfl hm
      | decide
  have hdev : mkdev major.val 0 ≠ mkdev major'.val 0 := by
    intro heq
    refine hmajor ?_
    have hval : major.val = major'.val := by rw [← mkdev_div major, heq, mkdev_div]
    cases major
    cases major'
    dsimp only at hval
    subst hval
    rfl
  simp [own, hname, hdev]

/-! ## Any sequence of loads and unloads -/

/-- Which drivers are up, under which numbers, and what that means for the tables. -/
structure Up (base : Kernel) (s : Sys) (up : List (Driver × Major)) : Prop where
  /-- their static variables -/
  loaded : s.loaded = up.map fun e => (e.1, instanceOf e.1 e.2)
  /-- the tables -/
  kernel : s.kernel = tables base up
  /-- no driver is loaded twice -/
  drivers : (up.map Prod.fst).Nodup
  /-- no two have the same number -/
  majors : (up.map Prod.snd).Nodup
  /-- nor has anybody else -/
  free : ∀ e ∈ up, ∀ r ∈ base.regions, r.major ≠ e.2

variable {base : Kernel} {s s' : Sys} {up : List (Driver × Major)}

/-- A driver that is up, between those that were loaded later and those that were loaded before. -/
theorem Up.split (h : Up base s up) {i : Instance} (hi : (m, i) ∈ s.loaded) :
    ∃ later earlier major, up = later ++ (m, major) :: earlier ∧ i = instanceOf m major := by
  rw [h.loaded] at hi
  obtain ⟨⟨m, major⟩, hmem, heq⟩ := List.mem_map.mp hi
  cases heq
  obtain ⟨later, earlier, rfl⟩ := List.append_of_mem hmem
  exact ⟨later, earlier, major, rfl, rfl⟩

/-- Its objects are its own. -/
theorem Up.own_later {later earlier : List (Driver × Major)}
    (h : Up base s (later ++ (m, major) :: earlier)) :
    ∀ o ∈ own m major, o ∉ later.flatMap fun e => own e.1 e.2 := by
  intro o ho hmem
  obtain ⟨e, he, hoe⟩ := List.mem_flatMap.mp hmem
  have hdrivers := h.drivers
  have hmajors := h.majors
  rw [List.map_append, List.nodup_append] at hdrivers hmajors
  refine own_disjoint ?_ ?_ o ho hoe
  · exact (hdrivers.2.2 e.1 (List.mem_map_of_mem he) m (List.mem_cons_self ..)).symm
  · exact (hmajors.2.2 e.2 (List.mem_map_of_mem he) major (List.mem_cons_self ..)).symm

/-- What unloading it does. -/
theorem Up.exit {later earlier : List (Driver × Major)}
    (h : Up base s (later ++ (m, major) :: earlier)) :
    driverExit (instanceOf m major) s.kernel =
      ⟨tables base (later ++ earlier), (own m major).map .release⟩ := by
  have hothers : ∀ r ∈ (later ++ earlier).map (fun e => e.2.region) ++ base.regions,
      r.major ≠ major := by
    intro r hr
    rcases List.mem_append.mp hr with hr | hr
    · obtain ⟨e, he, rfl⟩ := List.mem_map.mp hr
      have hnodup := h.majors
      rw [List.map_append, List.map_cons, List.nodup_middle, List.nodup_cons,
        ← List.map_append] at hnodup
      rintro rfl
      exact hnodup.1 (List.mem_map.mpr ⟨e, he, rfl⟩)
    · exact h.free (m, major) (List.mem_append_right _ (List.mem_cons_self ..)) r hr
  have hkernel : s.kernel = ⟨later.map (fun e => e.2.region) ++ major.region ::
      (earlier.map (fun e => e.2.region) ++ base.regions),
      later.flatMap (fun e => own e.1 e.2) ++ (own m major ++
        (earlier.flatMap (fun e => own e.1 e.2) ++ base.objects))⟩ := by
    rw [h.kernel, tables, List.flatMap_append, List.flatMap_cons, List.append_assoc,
      List.append_assoc, List.map_append, List.map_cons, List.append_assoc, List.cons_append]
  rw [List.map_append, List.append_assoc] at hothers
  rw [hkernel, driverExit_eq _ h.own_later, withoutRegion_mid hothers, tables, List.map_append,
    List.flatMap_append, List.append_assoc, List.append_assoc]

/-- The two steps there are. -/
theorem next_cases {act : Act} (h : next s act = some s') :
    (∃ m a, act = .load m a ∧ (∀ e ∈ s.loaded, e.1 ≠ m) ∧ a.Free s.kernel ∧
      s' = ⟨(m.init a s.kernel).setup.kernel, if (m.init a s.kernel).ret = 0 then
        (m, (m.init a s.kernel).inst) :: s.loaded else s.loaded⟩) ∨
    ∃ m i, act = .unload m ∧ (m, i) ∈ s.loaded ∧
      s' = ⟨(driverExit i s.kernel).kernel, s.loaded.filter fun e => e.1 ≠ m⟩ := by
  cases act with
  | load m a =>
    simp only [next, Option.ite_none_right_eq_some, Option.some.injEq] at h
    obtain ⟨⟨hnew, hfree⟩, rfl⟩ := h
    exact .inl ⟨m, a, rfl, hnew, hfree, rfl⟩
  | unload m =>
    simp only [next] at h
    split at h
    · cases h
    · next e he =>
      cases h
      have hm : e.1 = m := by simpa using List.find?_some he
      subst hm
      exact .inr ⟨e.1, e.2, rfl, List.mem_of_find?_eq_some he, rfl⟩

/-- A load that is as it should be. -/
theorem Up.load (h : Up base s up) (hnew : ∀ e ∈ s.loaded, e.1 ≠ m) (hfree : a.Free s.kernel)
    {l : Loaded} (hgood : LoadGood m a s.kernel l) :
    ∃ up', Up base ⟨l.setup.kernel, if l.ret = 0 then (m, l.inst) :: s.loaded else s.loaded⟩
      up' := by
  by_cases hret : l.ret = 0
  · obtain ⟨major, hregion, hinst, hsetup⟩ := hgood.loaded hret
    have hregions := hfree major hregion
    rw [h.kernel] at hregions
    refine ⟨(m, major) :: up, ?_, ?_, ?_, ?_, ?_⟩
    · rw [if_pos hret, hinst, h.loaded]
      rfl
    · rw [hsetup, h.kernel]
      rfl
    · refine List.nodup_cons.mpr ⟨fun hmem => ?_, h.drivers⟩
      obtain ⟨e, he, heq⟩ := List.mem_map.mp hmem
      refine hnew (e.1, instanceOf e.1 e.2) ?_ heq
      rw [h.loaded]
      exact List.mem_map.mpr ⟨e, he, rfl⟩
    · refine List.nodup_cons.mpr ⟨fun hmem => ?_, h.majors⟩
      obtain ⟨e, he, heq⟩ := List.mem_map.mp hmem
      exact hregions e.2.region (List.mem_append_left _ (List.mem_map.mpr ⟨e, he, rfl⟩)) heq
    · intro e he r hr
      rcases List.mem_cons.mp he with rfl | he
      · exact hregions r (List.mem_append_right _ hr)
      · exact h.free e he r hr
  · obtain ⟨hkernel, -⟩ := hgood.undone hret
    refine ⟨up, ?_, ?_, h.drivers, h.majors, h.free⟩
    · rw [if_neg hret]
      exact h.loaded
    · exact hkernel.trans h.kernel

/-- An unload. -/
theorem Up.unload {later earlier : List (Driver × Major)}
    (h : Up base s (later ++ (m, major) :: earlier)) :
    Up base ⟨(driverExit (instanceOf m major) s.kernel).kernel,
      s.loaded.filter fun e => e.1 ≠ m⟩ (later ++ earlier) where
  loaded := by
    have hnodup := h.drivers
    rw [List.map_append, List.map_cons, List.nodup_middle, List.nodup_cons,
      ← List.map_append] at hnodup
    have hothers : ∀ e ∈ later ++ earlier, e.1 ≠ m := by
      rintro e he rfl
      exact hnodup.1 (List.mem_map.mpr ⟨e, he, rfl⟩)
    dsimp only
    rw [h.loaded, List.filter_map]
    congr 1
    rw [List.filter_append, List.filter_cons_of_neg (by simp), ← List.filter_append,
      List.filter_eq_self]
    intro e he
    simpa using hothers e he
  kernel := by rw [h.exit]
  drivers := by
    have hnodup := h.drivers
    rw [List.map_append, List.map_cons, List.nodup_middle, ← List.map_append] at hnodup
    exact hnodup.of_cons
  majors := by
    have hnodup := h.majors
    rw [List.map_append, List.map_cons, List.nodup_middle, ← List.map_append] at hnodup
    exact hnodup.of_cons
  free e he := h.free e (by
    rcases List.mem_append.mp he with he | he
    · exact List.mem_append_left _ he
    · exact List.mem_append_right _ (List.mem_cons_of_mem _ he))

/-- While the loads of `buggy_device.c` meet no error, the tables are as they should be. -/
theorem up_inductive (base : Kernel) :
    ((exercise base).restrict BuggyUnhindered).Inductive fun s => ∃ up, Up base s up where
  init := by
    rintro s rfl
    exact ⟨[], rfl, rfl, List.nodup_nil, List.nodup_nil, fun e he => absurd he List.not_mem_nil⟩
  step := by
    rintro s s' act ⟨up, h⟩ ⟨hbuggy, hs⟩
    rcases next_cases hs with ⟨m, a, rfl, hnew, hfree, rfl⟩ | ⟨m, i, rfl, hi, rfl⟩
    · exact h.load hnew hfree ((loadGood_iff hfree).mpr hbuggy)
    · obtain ⟨later, earlier, major, rfl, rfl⟩ := h.split hi
      exact ⟨_, h.unload⟩

/-- **Loads and unloads in any order.** Every step is as it should be exactly when no load of
`buggy_device.c` meets an error, whatever errors the loads of the other two meet. The tables are
then what they were in the beginning and what the drivers that are up have put there, and are as
they were once all are unloaded. -/
theorem exercise_loads (base : Kernel) (as : List Act) (s : Sys) :
    (((exercise base).restrict Good).Run (unloaded base) as s ↔
      ((exercise base).restrict BuggyUnhindered).Run (unloaded base) as s) ∧
    (((exercise base).restrict BuggyUnhindered).Run (unloaded base) as s →
      (∃ up, s.loaded = up.map (fun e => (e.1, instanceOf e.1 e.2)) ∧ s.kernel = tables base up) ∧
      (s.loaded = [] → s.kernel = base)) := by
  refine ⟨⟨Lts.Run.restrict_of rfl ?_, Lts.Run.restrict_of rfl ?_⟩, fun hrun => ?_⟩
  · intro s s' act _ hs hgood
    rcases next_cases hs with ⟨m, a, rfl, -, hfree, -⟩ | ⟨m, i, rfl, -⟩
    · exact (loadGood_iff hfree).mp hgood
    · trivial
  · intro s s' act hreach hs hbuggy
    rcases next_cases hs with ⟨m, a, rfl, -, hfree, -⟩ | ⟨m, i, rfl, hi, -⟩
    · exact (loadGood_iff hfree).mpr hbuggy
    · obtain ⟨up, h⟩ := (up_inductive base).reachable hreach
      obtain ⟨later, earlier, major, rfl, rfl⟩ := h.split hi
      exact ⟨major, hi, by rw [h.exit]⟩
  · obtain ⟨up, h⟩ := (up_inductive base).reachable (hrun.reachable rfl)
    refine ⟨⟨up, h.loaded, h.kernel⟩, fun hnone => ?_⟩
    have hup : up = [] := by
      have hloaded := h.loaded
      rw [hnone] at hloaded
      exact List.map_eq_nil_iff.mp hloaded.symm
    rw [h.kernel, hup]
    rfl

/-- A load that gets a number and meets at most an error of `device_create`. -/
def answersOf (major : Major) (deviceError : Option Errno) : Answers :=
  ⟨.ok major, none, none, deviceError⟩

/-- Two drivers are loaded, the third one fails, and the two are unloaded in the order of their
loading. -/
def inAndOut : List Act :=
  [.load .goldDevice (answersOf ⟨240, by decide⟩ none),
    .load .buggyDevice (answersOf ⟨241, by decide⟩ none),
    .load .fixedDevice (answersOf ⟨242, by decide⟩ (some ⟨12, by decide⟩)),
    .unload .goldDevice, .unload .buggyDevice]

/-- Every step is as it should be, and nothing is left in the tables. -/
theorem exercise_loads_inAndOut : ∃ s,
    ((exercise ⟨[], []⟩).restrict Good).Run (unloaded ⟨[], []⟩) inAndOut s ∧
      s.kernel = ⟨[], []⟩ := by
  have h₀ : ((exercise ⟨[], []⟩).restrict BuggyUnhindered).Run (unloaded ⟨[], []⟩) [] _ := .nil
  have h₁ := h₀.snoc (a := Act.load .goldDevice (answersOf ⟨240, by decide⟩ none)) ⟨trivial, rfl⟩
  have h₂ := h₁.snoc (a := Act.load .buggyDevice (answersOf ⟨241, by decide⟩ none))
    ⟨⟨⟨_, rfl⟩, rfl, ⟨by decide, rfl⟩, rfl⟩, rfl⟩
  have h₃ := h₂.snoc (a := Act.load .fixedDevice
    (answersOf ⟨242, by decide⟩ (some ⟨12, by decide⟩))) ⟨trivial, rfl⟩
  have h₄ := h₃.snoc (a := Act.unload .goldDevice) ⟨trivial, rfl⟩
  have hrun := h₄.snoc (a := Act.unload .buggyDevice) ⟨trivial, rfl⟩
  obtain ⟨hiff, htables⟩ := exercise_loads ⟨[], []⟩ inAndOut _
  exact ⟨_, hiff.mpr hrun, (htables hrun).2 rfl⟩

end MutexExercise

end KernelModules
