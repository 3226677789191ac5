import KernelModules.CharDeviceRegions

/-!
# Failed acquisitions in `ModuleInit`

`ModuleInit` compares the result of `class_create` and `device_create` with `NULL` and
that of `cdev_add` with `-1`, and the kernel reports failure in other ways: by an error
pointer, and by any negative error number. The drivers that share a class name make the
first kind of failure happen to each other.

A load does what it should exactly when its region fails, or when its class is new and
created and one of three things holds: `cdev_add` fails with `-1` itself, a pin fails
afterwards, or nothing fails at all (`drivers_set_up_iff`).
-/

namespace KernelModules

namespace CharDevice

open Ledger

/-! ## Loading and unloading several drivers -/

/-- The kernel's tables, and the static variables of the loaded drivers. -/
structure Sys where
  /-- the tables -/
  kernel : Kernel
  /-- the drivers that are loaded -/
  inst : Module → Option Instance

/-- A driver is loaded, or a loaded one unloaded. -/
inductive Act where
  /-- `ModuleInit` -/
  | load (m : Module) (f : Faults)
  /-- `ModuleExit` -/
  | unload (m : Module)

/-- The region, if one is registered, gets a major number that is free. -/
def Faults.Free (f : Faults) (k : Kernel) : Prop :=
  ∀ major, f.region = some major → ∀ r ∈ k.regions, r.major ≠ major

instance (f : Faults) (k : Kernel) : Decidable (f.Free k) :=
  match h : f.region with
  | none => isTrue fun major hm => by rw [h] at hm; cases hm
  | some major => decidable_of_iff (∀ r ∈ k.regions, r.major ≠ major)
      ⟨fun hall m hm => by rw [h] at hm; cases hm; exact hall, fun hall => hall major h⟩

/-- One step. A driver is loaded only when it is not, and unloaded only when it is. -/
def next (s : Sys) : Act → Option Sys
  | .load m f => match s.inst m with
    | some _ => none
    | none =>
      if f.Free s.kernel then
        let l := moduleInit m f s.kernel
        some ⟨l.setup.kernel, if l.ret = 0 then Function.update s.inst m (some l.inst) else s.inst⟩
      else none
  | .unload m => match s.inst m with
    | none => none
    | some i => some ⟨(moduleExit i s.kernel).kernel, Function.update s.inst m none⟩

/-- No driver is loaded, and nothing is in the tables but some regions. -/
def unloaded (regions : List Region) : Sys := ⟨⟨regions, []⟩, fun _ => none⟩

/-- All sequences of loads and unloads. -/
abbrev drivers (regions : List Region) : Lts Sys Act := Lts.ofNext (unloaded regions) next

/-- No error pointer was handed to any call. -/
def NoErrPtr (log : List (Deed Obj)) : Prop := .use .errPtr ∉ log

/-- What `ModuleInit` should do: return 0 only with its class, device and `cdev` created,
hand no error pointer to any call, and on failure destroy exactly what it created. -/
structure LoadGood (m : Module) (l : Loaded) : Prop where
  /-- a driver that is loaded has its objects -/
  created : l.ret = 0 → Owned l.setup.log (.cls m.driverClass) ∧
    Owned l.setup.log (.device m.driverClass l.inst.myDeviceNumber) ∧
    Owned l.setup.log (.cdev l.inst.myDeviceNumber)
  /-- no error pointer is used -/
  noErrPtr : NoErrPtr l.setup.log
  /-- a driver that is not loaded leaves nothing behind, and destroys nothing else -/
  undone : l.ret ≠ 0 → Lawful l.setup.log ∧ Settled l.setup.log

/-- What a step should do. -/
def Good (s : Sys) : Act → Prop
  | .load m f => LoadGood m (moduleInit m f s.kernel)
  | .unload m => ∀ i, s.inst m = some i → NoErrPtr (moduleExit i s.kernel).log

/-- The answers of the kernel that `ModuleInit` copes with: no region at all, or a new
class and then one of three things. -/
def CopesWith (m : Module) (f : Faults) (k : Kernel) : Prop :=
  f.region = none ∨
    .cls m.driverClass ∉ k.objects ∧ f.classError = none ∧
      (f.cdevError.map Errno.val = some 1 ∨ f.pinFails m = true ∨
        f.deviceError = none ∧ f.cdevError = none)

instance (m : Module) (f : Faults) (k : Kernel) : Decidable (CopesWith m f k) :=
  inferInstanceAs (Decidable (_ ∨ _))

/-- Every load is answered in such a way. -/
def SetUpOk (s : Sys) : Act → Prop
  | .load m f => CopesWith m f s.kernel
  | .unload _ => True

instance (s : Sys) (a : Act) : Decidable (SetUpOk s a) :=
  match a with
  | .load m f => inferInstanceAs (Decidable (CopesWith m f s.kernel))
  | .unload _ => isTrue trivial

/-! ## The objects of a load -/

theorem Setup.remove_absent {s : Setup} {o : Obj} (ho : o ∉ s.kernel.objects) :
    s.remove o = s := if_neg ho

/-- The objects created by a load that got its class, in order: the class, the device if
`d`, the `cdev` if `c`. -/
def created (name : String) (dev : ℕ) (d c : Bool) : List Obj :=
  .cls name :: ((if d then [.device name dev] else []) ++ if c then [.cdev dev] else [])

theorem created_nodup (name : String) (dev : ℕ) (d c : Bool) : (created name dev d c).Nodup := by
  cases d <;> cases c <;> simp [created]

/-- The tables and the ledger once those objects are there. -/
def set_up (k : Kernel) (name : String) (dev : ℕ) (d c : Bool) : Setup :=
  ⟨⟨k.regions, (created name dev d c).reverse ++ k.objects⟩,
    (created name dev d c).map .acquire⟩

/-- The labels undo what was created, in reverse, and destroy nothing else. -/
theorem log_gpioRequestError {k : Kernel} {name : String} {dev : ℕ}
    (hdevice : .device name dev ∉ k.objects) (hcdev : .cdev dev ∉ k.objects) (d c : Bool) :
    (gpioRequestError (set_up k name dev d c) ⟨dev, .obj name⟩).setup.log =
      undone (created name dev d c) := by
  cases d <;> cases c <;>
    simp [gpioRequestError, addError, fileError, classError, Setup.cdevDel, Setup.deviceDestroy,
      Setup.classDestroy, Setup.unregisterChrdev, Setup.remove, set_up, created, undone, hdevice,
      hcdev]

/-- Without a `cdev` to delete, the earlier label does the same. -/
theorem addError_eq {k : Kernel} {name : String} {dev : ℕ} (hcdev : .cdev dev ∉ k.objects)
    (d : Bool) (cls : Ptr String) :
    addError (set_up k name dev d false) ⟨dev, cls⟩ =
      gpioRequestError (set_up k name dev d false) ⟨dev, cls⟩ := by
  have habsent : Obj.cdev dev ∉ (set_up k name dev d false).kernel.objects := by
    cases d <;> simp [set_up, created, hcdev]
  rw [gpioRequestError, Setup.cdevDel, Setup.remove_absent habsent]

/-- The tables once the region is registered. -/
def Major.registered (major : Major) (k : Kernel) : Kernel :=
  { k with regions := major.region :: k.regions }

/-- What `ModuleInit` comes to once its class is created. -/
theorem moduleInit_of_class {m : Module} {f : Faults} {k : Kernel} {major : Major}
    (hregion : f.region = some major) (hclass : .cls m.driverClass ∉ k.objects)
    (hnoclass : f.classError = none) :
    let dev := mkdev major.val 0
    let i : Instance := ⟨dev, .obj m.driverClass⟩
    let s := set_up (major.registered k) m.driverClass dev f.deviceError.isNone f.cdevError.isNone
    moduleInit m f k =
      if f.cdevError.map Errno.val = some 1 then addError s i
      else if f.pinFails m then gpioRequestError s i
      else ⟨0, s, i⟩ := by
  obtain ⟨region, classFault, deviceFault, cdevFault, requestFails, directionFails⟩ := f
  dsimp only at hregion hnoclass
  subst hregion hnoclass
  have hcreate : (Setup.mk (major.registered k) []).classCreate m.driverClass none =
      ((Setup.mk (major.registered k) []).add (.cls m.driverClass), .obj m.driverClass) :=
    if_neg hclass
  have hminus : ∀ e : Errno, -e.val = -1 ↔ e.val = 1 := fun e => by omega
  intro dev i s
  rw [Major.registered] at hcreate
  simp only [moduleInit, hcreate, reduceCtorEq, if_false]
  rcases deviceFault with _ | e <;> rcases cdevFault with _ | e' <;>
    simp only [Setup.deviceCreate, Setup.cdevAdd, reduceCtorEq, if_false, hminus,
      Option.map_none, Option.map_some, Option.some.injEq]
  · rfl
  · rfl
  · rfl
  · rfl

/-! ## Which loads are good -/

/-- Without its class, the load hands an error pointer to `device_create`. -/
theorem not_noErrPtr_of_class {m : Module} {f : Faults} {k : Kernel} {major : Major}
    (hregion : f.region = some major)
    (hclass : .cls m.driverClass ∈ k.objects ∨ f.classError ≠ none) :
    ¬ NoErrPtr (moduleInit m f k).setup.log := by
  have hcreate : ∃ e, (Setup.mk (major.registered k) []).classCreate m.driverClass f.classError =
      (⟨major.registered k, []⟩, .err e) := by
    by_cases hmem : .cls m.driverClass ∈ k.objects
    · exact ⟨_, if_pos hmem⟩
    · obtain ⟨e, he⟩ := Option.ne_none_iff_exists'.mp (hclass.resolve_left hmem)
      refine ⟨-e.val, ?_⟩
      rw [he]
      exact if_neg hmem
  obtain ⟨e, hcreate⟩ := hcreate
  rw [Major.registered] at hcreate
  simp only [moduleInit, hregion, hcreate, reduceCtorEq, if_false, Setup.deviceCreate,
    Setup.misuse, NoErrPtr, not_not]
  split
  · -- the labels hand the error pointer in again
    exact List.mem_append_right _ (List.mem_singleton_self ..)
  · split
    · exact List.mem_append_right _ (List.mem_singleton_self ..)
    · rcases f.cdevError with _ | e'
      · exact List.mem_cons_self ..
      · exact List.mem_cons_self ..

theorem noErrPtr_undone {rs : List Obj} : NoErrPtr (undone rs) := by
  simp [NoErrPtr, undone]

/-- A load that undoes what it created is good. -/
theorem loadGood_gpioRequestError {m : Module} {k : Kernel} {dev : ℕ}
    (hdevice : .device m.driverClass dev ∉ k.objects) (hcdev : .cdev dev ∉ k.objects)
    (d c : Bool) :
    LoadGood m (gpioRequestError (set_up k m.driverClass dev d c) ⟨dev, .obj m.driverClass⟩) where
  created h := absurd h (by change ¬ (-1 : ℤ) = 0; decide)
  noErrPtr := by
    rw [log_gpioRequestError hdevice hcdev]
    exact noErrPtr_undone
  undone _ := by
    rw [log_gpioRequestError hdevice hcdev]
    exact ⟨lawful_undone (created_nodup ..), settled_undone (created_nodup ..)⟩

/-- A load that returns 0 is good when it created the device and the `cdev`. -/
theorem loadGood_set_up_iff {m : Module} {k : Kernel} {dev : ℕ} (d c : Bool) :
    LoadGood m ⟨0, set_up k m.driverClass dev d c, ⟨dev, .obj m.driverClass⟩⟩ ↔
      d = true ∧ c = true := by
  constructor
  · intro h
    obtain ⟨-, hdevice, hcdev⟩ := h.created rfl
    cases d <;> cases c <;> simp [set_up, created, Owned] at hdevice hcdev ⊢
  · rintro ⟨rfl, rfl⟩
    refine ⟨fun _ => ?_, ?_, fun h => absurd rfl h⟩
    · simp [set_up, created, Owned]
    · simp [set_up, created, NoErrPtr]

/-- **One load**: with its device number not in use, a load is good exactly when the
kernel's answers are ones `ModuleInit` copes with. -/
theorem loadGood_iff {m : Module} {f : Faults} {k : Kernel}
    (hfresh : ∀ major, f.region = some major →
      .device m.driverClass (mkdev major.val 0) ∉ k.objects ∧
        .cdev (mkdev major.val 0) ∉ k.objects) :
    LoadGood m (moduleInit m f k) ↔ CopesWith m f k := by
  rcases hregion : f.region with _ | major
  · have hl : moduleInit m f k = ⟨-1, ⟨k, []⟩, ⟨0, .null⟩⟩ := by
      simp only [moduleInit, hregion]
    rw [hl]
    have hret : (-1 : ℤ) ≠ 0 := by decide
    exact ⟨fun _ => .inl hregion, fun _ => ⟨fun h => absurd h hret, List.not_mem_nil,
      fun _ => ⟨lawful_nil, fun r h => absurd h List.not_mem_nil⟩⟩⟩
  obtain ⟨hdevice, hcdev⟩ :
      .device m.driverClass (mkdev major.val 0) ∉ (major.registered k).objects ∧
      .cdev (mkdev major.val 0) ∉ (major.registered k).objects := hfresh major hregion
  by_cases hclass : .cls m.driverClass ∈ k.objects ∨ f.classError ≠ none
  · refine ⟨fun h => absurd h.noErrPtr (not_noErrPtr_of_class hregion hclass), fun h => ?_⟩
    obtain ⟨hmem, hnone, -⟩ := h.resolve_left (by simp [hregion])
    exact absurd hclass (not_or.mpr ⟨hmem, not_not.mpr hnone⟩)
  rw [not_or, not_not] at hclass
  have hcopes : CopesWith m f k ↔ f.cdevError.map Errno.val = some 1 ∨ f.pinFails m = true ∨
      f.deviceError = none ∧ f.cdevError = none := by
    simp [CopesWith, hregion, hclass]
  rw [hcopes, moduleInit_of_class hregion hclass.1 hclass.2]
  split
  · next hperm =>
    have hnocdev : f.cdevError.isNone = false := by
      rcases hc : f.cdevError with _ | e
      · rw [hc] at hperm
        cases hperm
      · rfl
    rw [hnocdev, addError_eq hcdev]
    exact ⟨fun _ => .inl hperm, fun _ => loadGood_gpioRequestError hdevice hcdev _ _⟩
  · next hperm =>
    split
    · next hpin =>
      exact ⟨fun _ => .inr (.inl hpin), fun _ => loadGood_gpioRequestError hdevice hcdev _ _⟩
    · next hpin =>
      rw [loadGood_set_up_iff, Option.isNone_iff_eq_none, Option.isNone_iff_eq_none]
      exact ⟨fun h => .inr (.inr h), fun h => (h.resolve_left hperm).resolve_left hpin⟩

/-! ## Device numbers in use

A device or `cdev` is only ever created under the number of a region that was registered
for it, and regions stay registered; so the number of a new region is in nobody's use. -/

/-- Every object in the tables satisfies `P`. -/
def Setup.Within (P : Obj → Prop) (s : Setup) : Prop := ∀ o ∈ s.kernel.objects, P o

variable {P : Obj → Prop} {s : Setup}

theorem Setup.Within.add (h : s.Within P) {o : Obj} (ho : P o) : (s.add o).Within P := by
  intro x hx
  rcases List.mem_cons.mp hx with rfl | hx
  · exact ho
  · exact h x hx

theorem Setup.Within.remove (h : s.Within P) (o : Obj) : (s.remove o).Within P := by
  rw [Setup.remove]
  split
  · exact fun x hx => h x (List.mem_of_mem_erase hx)
  · exact h

theorem Setup.Within.classCreate (h : s.Within P) {name : String} (hP : P (.cls name))
    (fault : Option Errno) : (s.classCreate name fault).1.Within P := by
  simp only [Setup.classCreate]
  split
  · exact h
  · rcases fault with _ | e
    · exact h.add hP
    · exact h

theorem Setup.Within.deviceCreate (h : s.Within P) {dev : ℕ} (hP : ∀ name, P (.device name dev))
    (cls : Ptr String) (fault : Option Errno) : (s.deviceCreate cls dev fault).1.Within P := by
  rcases cls with _ | _ | name
  · exact h
  · exact h
  · rcases fault with _ | e
    · exact h.add (hP name)
    · exact h

theorem Setup.Within.cdevAdd (h : s.Within P) {dev : ℕ} (hP : P (.cdev dev))
    (fault : Option Errno) : (s.cdevAdd dev fault).1.Within P := by
  rcases fault with _ | e
  · exact h.add hP
  · exact h

theorem Setup.Within.deviceDestroy (h : s.Within P) (cls : Ptr String) (dev : ℕ) :
    (s.deviceDestroy cls dev).Within P := by
  rcases cls with _ | _ | name
  · exact h
  · exact h
  · exact h.remove _

theorem Setup.Within.classDestroy (h : s.Within P) (cls : Ptr String) :
    (s.classDestroy cls).Within P := by
  rcases cls with _ | _ | name
  · exact h
  · exact h
  · exact h.remove _

/-- `ModuleInit` creates nothing but its class, its device and its `cdev`. -/
theorem moduleInit_within {m : Module} {f : Faults} {k : Kernel} {major : Major}
    (hregion : f.region = some major) (h : ∀ o ∈ k.objects, P o) (hcls : P (.cls m.driverClass))
    (hdevice : ∀ name, P (.device name (mkdev major.val 0)))
    (hcdev : P (.cdev (mkdev major.val 0))) : (moduleInit m f k).setup.Within P := by
  have hclass := Setup.Within.classCreate (s := ⟨major.registered k, []⟩) h hcls f.classError
  rw [Major.registered] at hclass
  simp only [moduleInit, hregion]
  split
  · exact hclass
  · have hdev := hclass.deviceCreate hdevice
      ((Setup.mk (major.registered k) []).classCreate m.driverClass f.classError).2 f.deviceError
    rw [Major.registered] at hdev
    split
    · exact hdev.classDestroy _
    · have hadd := hdev.cdevAdd hcdev f.cdevError
      split
      · exact (hadd.deviceDestroy _ _).classDestroy _
      · split
        · exact ((hadd.remove _).deviceDestroy _ _).classDestroy _
        · exact hadd

/-- The number an object was created under. -/
def Obj.number : Obj → Option ℕ
  | .device _ dev | .cdev dev => some dev
  | .cls _ | .errPtr => none

/-- Every number in use is that of a registered region. -/
def Registered (k : Kernel) : Prop :=
  ∀ o ∈ k.objects, ∀ dev, o.number = some dev → ∃ r ∈ k.regions, dev = mkdev r.major.val 0

/-- `ModuleInit` keeps it so. -/
theorem Registered.moduleInit {k : Kernel} (h : Registered k) (m : Module) (f : Faults) :
    Registered (moduleInit m f k).setup.kernel := by
  rcases hregion : f.region with _ | major
  · simp only [CharDevice.moduleInit, hregion]
    exact h
  have hnew : ∀ dev, some (mkdev major.val 0) = some dev →
      ∃ r ∈ major.region :: k.regions, dev = mkdev r.major.val 0 :=
    fun dev hdev => ⟨major.region, List.mem_cons_self .., (Option.some.inj hdev).symm⟩
  rw [Registered, (moduleInit_regions hregion).1]
  refine moduleInit_within hregion (fun o ho dev hdev => ?_)
    (fun dev hdev => by simp [Obj.number] at hdev) (fun _ => hnew) hnew
  obtain ⟨r, hr, heq⟩ := h o ho dev hdev
  exact ⟨r, List.mem_cons_of_mem _ hr, heq⟩

/-- So does `ModuleExit`. -/
theorem Registered.moduleExit {k : Kernel} (h : Registered k) {i : Instance} {major : Major}
    (hi : i.myDeviceNumber = mkdev major.val 0) : Registered (moduleExit i k).kernel := by
  have hs : Setup.Within (fun o => ∀ dev, o.number = some dev →
      ∃ r ∈ k.regions, dev = mkdev r.major.val 0) ⟨k, []⟩ := h
  rw [Registered, moduleExit_regions i k major hi]
  exact ((hs.remove _).deviceDestroy _ _).classDestroy _

/-- The number of a free major is in nobody's use. -/
theorem Registered.fresh {k : Kernel} (h : Registered k) {f : Faults} (hfree : f.Free k)
    {major : Major} (hregion : f.region = some major) (name : String) :
    .device name (mkdev major.val 0) ∉ k.objects ∧ .cdev (mkdev major.val 0) ∉ k.objects := by
  have hunused : ∀ o ∈ k.objects, o.number ≠ some (mkdev major.val 0) := by
    intro o ho hnumber
    obtain ⟨r, hr, heq⟩ := h o ho _ hnumber
    refine hfree major hregion r hr ?_
    rcases hmajor : r.major with ⟨n, hn⟩
    rcases major with ⟨n', hn'⟩
    rw [hmajor, mkdev, mkdev] at heq
    congr 1
    dsimp only at heq
    omega
  exact ⟨fun ho => hunused _ ho rfl, fun ho => hunused _ ho rfl⟩

/-! ## Any sequence of loads and unloads -/

/-- What is always so: numbers in use are registered, and a loaded driver has the number
of a region. -/
structure SysInv (s : Sys) : Prop where
  /-- numbers in use are registered -/
  registered : Registered s.kernel
  /-- a loaded driver has the number of a region -/
  number : ∀ m i, s.inst m = some i → ∃ major : Major, i.myDeviceNumber = mkdev major.val 0

/-- The two steps there are. -/
theorem next_cases {s s' : Sys} {a : Act} (h : next s a = some s') :
    (∃ m f, a = .load m f ∧ s.inst m = none ∧ f.Free s.kernel ∧
      s'.kernel = (moduleInit m f s.kernel).setup.kernel ∧
      s'.inst = if (moduleInit m f s.kernel).ret = 0 then
        Function.update s.inst m (some (moduleInit m f s.kernel).inst) else s.inst) ∨
    ∃ m i, a = .unload m ∧ s.inst m = some i ∧ s'.kernel = (moduleExit i s.kernel).kernel ∧
      s'.inst = Function.update s.inst m none := by
  cases a with
  | load m f =>
    simp only [next] at h
    split at h
    · cases h
    · next hinst =>
      split at h
      · next hfree =>
        cases h
        exact .inl ⟨m, f, rfl, hinst, hfree, rfl, rfl⟩
      · cases h
  | unload m =>
    simp only [next] at h
    split at h
    · cases h
    · next i hinst =>
      cases h
      exact .inr ⟨m, i, rfl, hinst, rfl, rfl⟩

/-- A driver that returns 0 has a region. -/
theorem region_of_ret {m : Module} {f : Faults} {k : Kernel} (h : (moduleInit m f k).ret = 0) :
    ∃ major, f.region = some major := by
  rcases hregion : f.region with _ | major
  · simp only [moduleInit, hregion] at h
    cases h
  · exact ⟨major, rfl⟩

/-- What holds of a driver's static variables when it returns 0 holds of all that are
loaded. -/
theorem inst_of_update {inst inst' : Module → Option Instance} {m : Module} {l : Loaded}
    {Q : Instance → Prop} (hinst : inst' = if l.ret = 0 then
      Function.update inst m (some l.inst) else inst)
    (hold : ∀ m i, inst m = some i → Q i) (hnew : l.ret = 0 → Q l.inst) :
    ∀ m i, inst' m = some i → Q i := by
  intro m' i hi
  rw [hinst] at hi
  split at hi
  · next hret =>
    by_cases hm : m' = m
    · subst hm
      rw [Function.update_self] at hi
      obtain rfl := Option.some.inj hi
      exact hnew hret
    · rw [Function.update_of_ne hm] at hi
      exact hold m' i hi
  · exact hold m' i hi

/-- Unloading a driver loads no other. -/
theorem inst_of_erase {inst inst' : Module → Option Instance} {m : Module} {Q : Instance → Prop}
    (hinst : inst' = Function.update inst m none) (hold : ∀ m i, inst m = some i → Q i) :
    ∀ m i, inst' m = some i → Q i := by
  intro m' i hi
  rw [hinst] at hi
  by_cases hm : m' = m
  · subst hm
    rw [Function.update_self] at hi
    cases hi
  · rw [Function.update_of_ne hm] at hi
    exact hold m' i hi

theorem sysInv_inductive (regions : List Region) : (drivers regions).Inductive SysInv where
  init hi := by
    cases hi
    exact ⟨fun o ho => absurd ho List.not_mem_nil, fun m i h => nomatch h⟩
  step := by
    intro s s' a h hs
    rcases next_cases hs with ⟨m, f, -, -, -, hkernel, hinst⟩ | ⟨m, i, -, hi, hkernel, hinst⟩
    · refine ⟨hkernel ▸ h.registered.moduleInit m f, inst_of_update hinst h.number fun hret => ?_⟩
      obtain ⟨major, hregion⟩ := region_of_ret hret
      exact ⟨major, (moduleInit_regions hregion).2⟩
    · obtain ⟨major, hmajor⟩ := h.number m i hi
      exact ⟨hkernel ▸ h.registered.moduleExit hmajor, inst_of_erase hinst h.number⟩

/-- A load that the kernel lets through is good exactly when `ModuleInit` copes with the
kernel's answers. -/
theorem load_good_iff {s : Sys} (hs : SysInv s) {m : Module} {f : Faults}
    (hfree : f.Free s.kernel) : Good s (.load m f) ↔ SetUpOk s (.load m f) :=
  loadGood_iff fun _ hregion => hs.registered.fresh hfree hregion m.driverClass

/-- After a load that `ModuleInit` copes with, a driver that returns 0 holds its class. -/
theorem class_of_copes {m : Module} {f : Faults} {k : Kernel} (h : CopesWith m f k)
    (hret : (moduleInit m f k).ret = 0) :
    (moduleInit m f k).inst.myClass = .obj m.driverClass := by
  obtain ⟨major, hregion⟩ := region_of_ret hret
  obtain ⟨hclass, hnoclass, -⟩ := h.resolve_left (by simp [hregion])
  rw [moduleInit_of_class hregion hclass hnoclass]
  split
  · rfl
  · split <;> rfl

/-- So every loaded driver holds a class. -/
theorem class_inductive (regions : List Region) :
    ((drivers regions).restrict SetUpOk).Inductive fun s =>
      ∀ m i, s.inst m = some i → ∃ name, i.myClass = .obj name where
  init hi := by
    cases hi
    exact fun m i h => nomatch h
  step := by
    intro s s' a h ⟨hP, hs⟩
    rcases next_cases hs with ⟨m, f, rfl, -, -, -, hinst⟩ | ⟨m, i, -, -, -, hinst⟩
    · exact inst_of_update hinst h fun hret => ⟨_, class_of_copes hP hret⟩
    · exact inst_of_erase hinst h

/-- Removing an object hands in no error pointer. -/
theorem noErrPtr_remove {s : Setup} (h : NoErrPtr s.log) (o : Obj) : NoErrPtr (s.remove o).log := by
  rw [Setup.remove]
  split
  · intro hmem
    rcases List.mem_append.mp hmem with hmem | hmem
    · exact h hmem
    · cases List.mem_singleton.mp hmem
  · exact h

/-- Unloading a driver that holds a class is good. -/
theorem noErrPtr_moduleExit {i : Instance} {name : String} (hi : i.myClass = .obj name)
    (k : Kernel) : NoErrPtr (moduleExit i k).log := by
  simp only [moduleExit, hi]
  have hnil : NoErrPtr (Setup.mk k []).log := List.not_mem_nil
  exact noErrPtr_remove (noErrPtr_remove (noErrPtr_remove hnil _) _) _

/-- **Drivers that share a class name**: over any sequence of loads and unloads, every step
is as it should be exactly when `ModuleInit` copes with the kernel's answers in every load:
a class that is new, and after it no failure but `-1` from `cdev_add` or a pin. -/
theorem drivers_set_up_iff (regions : List Region) (as : List Act) (s : Sys) :
    ((drivers regions).restrict Good).Run (unloaded regions) as s ↔
      ((drivers regions).restrict SetUpOk).Run (unloaded regions) as s := by
  constructor
  · refine Lts.Run.restrict_of rfl fun {s s' a} hs hstep hgood => ?_
    have hinv : SysInv s := (sysInv_inductive regions).reachable hs.of_restrict
    rcases next_cases hstep with ⟨m, f, rfl, -, hfree, -⟩ | ⟨m, i, rfl, -⟩
    · exact (load_good_iff hinv hfree).mp hgood
    · trivial
  · refine Lts.Run.restrict_of rfl fun {s s' a} hs hstep hok => ?_
    have hinv : SysInv s := (sysInv_inductive regions).reachable hs.of_restrict
    rcases next_cases hstep with ⟨m, f, rfl, -, hfree, -⟩ | ⟨m, i, rfl, -⟩
    · exact (load_good_iff hinv hfree).mpr hok
    · intro i hi
      obtain ⟨name, hname⟩ := (class_inductive regions).reachable hs m i hi
      exact noErrPtr_moduleExit hname s.kernel

/-- With `read_write.c` loaded, `read_write_sleepy.c` gets no class, hands the error pointer
to `device_create`, and returns 0. -/
theorem second_load_uses_error_pointer :
    ∃ s s', (drivers []).Reachable s ∧
      next s (.load .readWriteSleepy (noFault ⟨241, by decide⟩)) = some s' ∧
      (moduleInit .readWriteSleepy (noFault ⟨241, by decide⟩) s.kernel).ret = 0 ∧
      ¬ Good s (.load .readWriteSleepy (noFault ⟨241, by decide⟩)) := by
  have hs := Lts.reachable_of_foldlM (.init rfl)
    (rfl : [Act.load .readWrite (noFault ⟨240, by decide⟩)].foldlM next (unloaded []) = some _)
  exact ⟨_, _, hs, rfl, by decide +kernel, fun hgood => hgood.noErrPtr (by decide +kernel)⟩

end CharDevice

end KernelModules
