import KernelModules.CharDevice

/-!
# Device regions over load/unload cycles

`ModuleExit` hands its whole device number to `unregister_chrdev`, which takes a major
number and looks for 256 minors. No region is registered under such a number, so nothing
is removed, and every cycle leaves its region and its major number behind
(`cycles_restore_regions_iff`).
-/

namespace KernelModules

namespace CharDevice

/-- No call fails, and the region gets the given major number. -/
def noFault (major : Major) : Faults :=
  ⟨some major, none, none, none, fun _ => false, fun _ => false⟩

/-- The module is loaded, and unloaded again if it got loaded. -/
def cycle (m : Module) (k : Kernel) (major : Major) : Kernel :=
  let l := moduleInit m (noFault major) k
  if l.ret = 0 then (moduleExit l.inst l.setup.kernel).kernel else l.setup.kernel

/-- One cycle after the other, with the major numbers the kernel picks. -/
def cycles (m : Module) (majors : List Major) (k : Kernel) : Kernel := majors.foldl (cycle m) k

/-! ## What the calls do to the regions -/

/-- A device number is no major number, so nothing is registered under it. -/
theorem unregisterChrdev_mkdev (regions : List Region) (major : Major) :
    unregisterChrdev regions (mkdev major.val 0) = regions := by
  rw [unregisterChrdev, List.filter_eq_self]
  intro r _
  have hr := r.major.mem.2
  have hdev : 2 ^ 12 < mkdev major.val 0 := by
    have := major.mem.1
    rw [mkdev]
    omega
  have hne : r.major.val ≠ mkdev major.val 0 := by omega
  simp [hne]

@[simp] theorem Setup.regions_remove (s : Setup) (o : Obj) :
    (s.remove o).kernel.regions = s.kernel.regions := by
  rw [Setup.remove]
  split <;> rfl

@[simp] theorem Setup.regions_classCreate (s : Setup) (name : String) (fault : Option Errno) :
    (s.classCreate name fault).1.kernel.regions = s.kernel.regions := by
  simp only [Setup.classCreate]
  split
  · rfl
  · split <;> rfl

@[simp] theorem Setup.regions_deviceCreate (s : Setup) (cls : Ptr String) (dev : ℕ)
    (fault : Option Errno) :
    (s.deviceCreate cls dev fault).1.kernel.regions = s.kernel.regions := by
  rcases cls with _ | _ | name
  · rfl
  · rfl
  · rcases fault with _ | e <;> rfl

@[simp] theorem Setup.regions_cdevAdd (s : Setup) (dev : ℕ) (fault : Option Errno) :
    (s.cdevAdd dev fault).1.kernel.regions = s.kernel.regions := by
  rcases fault with _ | e <;> rfl

@[simp] theorem Setup.regions_cdevDel (s : Setup) (dev : ℕ) :
    (s.cdevDel dev).kernel.regions = s.kernel.regions :=
  s.regions_remove (.cdev dev)

@[simp] theorem Setup.regions_deviceDestroy (s : Setup) (cls : Ptr String) (dev : ℕ) :
    (s.deviceDestroy cls dev).kernel.regions = s.kernel.regions := by
  rcases cls with _ | _ | name
  · rfl
  · rfl
  · exact s.regions_remove (.device name dev)

@[simp] theorem Setup.regions_classDestroy (s : Setup) (cls : Ptr String) :
    (s.classDestroy cls).kernel.regions = s.kernel.regions := by
  rcases cls with _ | _ | name
  · rfl
  · rfl
  · exact s.regions_remove (.cls name)

/-- However `ModuleInit` ends, its region is registered afterwards, and its device number
is the one of that region. -/
theorem moduleInit_regions {m : Module} {f : Faults} {k : Kernel} {major : Major}
    (hf : f.region = some major) :
    (moduleInit m f k).setup.kernel.regions = major.region :: k.regions ∧
      (moduleInit m f k).inst.myDeviceNumber = mkdev major.val 0 := by
  have hnone := unregisterChrdev_mkdev (major.region :: k.regions) major
  simp only [moduleInit, hf]
  split
  · exact ⟨by simpa [classError, Setup.unregisterChrdev] using hnone, rfl⟩
  · split
    · exact ⟨by simpa [fileError, classError, Setup.unregisterChrdev] using hnone, rfl⟩
    · split
      · exact ⟨by simpa [addError, fileError, classError, Setup.unregisterChrdev] using hnone, rfl⟩
      · split
        · exact ⟨by simpa [gpioRequestError, addError, fileError, classError,
            Setup.unregisterChrdev] using hnone, rfl⟩
        · exact ⟨by simp, rfl⟩

/-- `ModuleExit` removes no region. -/
theorem moduleExit_regions (i : Instance) (k : Kernel) (major : Major)
    (hi : i.myDeviceNumber = mkdev major.val 0) :
    (moduleExit i k).kernel.regions = k.regions := by
  have hnone := unregisterChrdev_mkdev k.regions major
  simpa [moduleExit, hi, Setup.unregisterChrdev] using hnone

/-! ## Cycles -/

/-- A cycle leaves its region behind. -/
theorem regions_cycle (m : Module) (k : Kernel) (major : Major) :
    (cycle m k major).regions = major.region :: k.regions := by
  obtain ⟨hregions, hdev⟩ := moduleInit_regions (m := m) (k := k) (f := noFault major) rfl
  rw [cycle]
  split
  · rw [moduleExit_regions _ _ major hdev, hregions]
  · exact hregions

/-- So every cycle uses up the major number it was given. -/
theorem regions_cycles (m : Module) (majors : List Major) (k : Kernel) :
    (cycles m majors k).regions = (majors.map Major.region).reverse ++ k.regions := by
  induction majors generalizing k with
  | nil => rfl
  | cons major majors ih =>
    rw [cycles, List.foldl_cons, ← cycles, ih, regions_cycle, List.map_cons, List.reverse_cons,
      List.append_assoc, List.singleton_append]

/-- **Cycles and the region table**: after any number of cycles of any of the drivers, from
any tables, the region table is what it was before exactly when there was no cycle. -/
theorem cycles_restore_regions_iff (m : Module) (majors : List Major) (k : Kernel) :
    (cycles m majors k).regions = k.regions ↔ majors.length = 0 := by
  rw [regions_cycles, List.append_left_eq_self, List.reverse_eq_nil_iff, List.map_eq_nil_iff,
    List.length_eq_zero_iff]

/-- One cycle of `read_write.c` in which every call succeeds leaves the region of its
device number registered. -/
theorem cycle_leaves_region :
    (moduleInit .readWrite (noFault ⟨240, by decide⟩) ⟨[], []⟩).ret = 0 ∧
      (cycles .readWrite [⟨240, by decide⟩] ⟨[], []⟩).regions = [⟨⟨240, by decide⟩, 0, 1⟩] := by
  decide +kernel

end CharDevice

end KernelModules
