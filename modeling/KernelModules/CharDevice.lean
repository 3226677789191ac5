import KernelModules.Ledger
import KernelModules.Transition
import KernelModules.UserMemory

/-!
# Setting up a character device

The kernel's tables of device regions, classes, devices and `cdev`s, the calls the
drivers make on them, and `ModuleInit` and `ModuleExit` of the drivers that follow the
same steps: `alloc_chrdev_region`, `class_create`, `device_create`, `cdev_add`, and the
labels that undo them.

Which call fails, and with which error, is up to the kernel (`Faults`). The calls of a
run are kept in a ledger: an object is acquired when it comes into the tables and
released when it leaves them, and every error pointer that is handed to one of the calls
is on record.
-/

namespace KernelModules

namespace CharDevice

open Ledger

/-! ## Device numbers -/

/-- `MKDEV(major, minor)` -/
def mkdev (major minor : ℕ) : ℕ := major * 2 ^ 20 + minor

/-- A major number the kernel can hand out. -/
structure Major where
  /-- the number -/
  val : ℕ
  /-- a major number takes 12 bits, and 0 is not one -/
  mem : 0 < val ∧ val < 2 ^ 12
  deriving DecidableEq

/-- A registered region of device numbers. -/
structure Region where
  /-- the major number -/
  major : Major
  /-- the first minor number -/
  baseminor : ℕ
  /-- the number of minor numbers -/
  minors : ℕ
  deriving DecidableEq

/-- The region `alloc_chrdev_region(.., 0, 1, ..)` registers under a major number. -/
def Major.region (m : Major) : Region := ⟨m, 0, 1⟩

/-! ## The kernel's tables -/

/-- An object a driver sets up, or what it holds instead of one. -/
inductive Obj where
  /-- the class of that name -/
  | cls (name : String)
  /-- the device of that number in the class of that name -/
  | device (name : String) (dev : ℕ)
  /-- the `cdev` added under that number -/
  | cdev (dev : ℕ)
  /-- an error pointer -/
  | errPtr
  deriving DecidableEq

/-- The tables. -/
structure Kernel where
  /-- the registered regions -/
  regions : List Region
  /-- the classes, devices and `cdev`s there are -/
  objects : List Obj

/-- The kernel, and what a driver has done to it so far. -/
structure Setup where
  /-- the tables -/
  kernel : Kernel
  /-- the objects acquired and released, and the error pointers handed in -/
  log : List (Deed Obj)

/-- A positive error number. -/
structure Errno where
  /-- the number -/
  val : ℤ
  /-- it is positive -/
  pos : 0 < val
  deriving DecidableEq

/-- An object comes into the tables. -/
def Setup.add (s : Setup) (o : Obj) : Setup :=
  ⟨{ s.kernel with objects := o :: s.kernel.objects }, s.log ++ [.acquire o]⟩

/-- An object leaves the tables, if it is there. -/
def Setup.remove (s : Setup) (o : Obj) : Setup :=
  if o ∈ s.kernel.objects then
    ⟨{ s.kernel with objects := s.kernel.objects.erase o }, s.log ++ [.release o]⟩
  else s

/-- An error pointer is handed in. -/
def Setup.misuse (s : Setup) : Setup := { s with log := s.log ++ [.use .errPtr] }

/-- `class_create`: it fails when there is a class of that name, or with the given error,
and then returns an error pointer. -/
def Setup.classCreate (s : Setup) (name : String) (fault : Option Errno) :
    Setup × Ptr String :=
  if .cls name ∈ s.kernel.objects then (s, .err (-eexist))
  else match fault with
    | some e => (s, .err (-e.val))
    | none => (s.add (.cls name), .obj name)

/-- `device_create`: given a class it fails with the given error, if any. -/
def Setup.deviceCreate (s : Setup) (cls : Ptr String) (dev : ℕ) (fault : Option Errno) :
    Setup × Ptr ℕ :=
  match cls with
  | .obj name => match fault with
    | some e => (s, .err (-e.val))
    | none => (s.add (.device name dev), .obj dev)
  | .err _ => (s.misuse, .err (-enodev))
  | .null => (s, .err (-enodev))

/-- `cdev_add` -/
def Setup.cdevAdd (s : Setup) (dev : ℕ) (fault : Option Errno) : Setup × ℤ :=
  match fault with
  | some e => (s, -e.val)
  | none => (s.add (.cdev dev), 0)

/-- `cdev_del` -/
def Setup.cdevDel (s : Setup) (dev : ℕ) : Setup := s.remove (.cdev dev)

/-- `device_destroy` -/
def Setup.deviceDestroy (s : Setup) (cls : Ptr String) (dev : ℕ) : Setup :=
  match cls with
  | .obj name => s.remove (.device name dev)
  | .err _ => s.misuse
  | .null => s

/-- `class_destroy` -/
def Setup.classDestroy (s : Setup) (cls : Ptr String) : Setup :=
  match cls with
  | .obj name => s.remove (.cls name)
  | .err _ => s.misuse
  | .null => s

/-- `unregister_chrdev(major, ..)`: the region of 256 minors under that major number is
removed, if there is one. -/
def unregisterChrdev (regions : List Region) (major : ℕ) : List Region :=
  regions.filter fun r => !decide (r.major.val = major ∧ r.baseminor = 0 ∧ r.minors = 256)

/-- `unregister_chrdev`, on the tables. -/
def Setup.unregisterChrdev (s : Setup) (major : ℕ) : Setup :=
  { s with kernel :=
      { s.kernel with regions := CharDevice.unregisterChrdev s.kernel.regions major } }

/-! ## The drivers -/

/-- The drivers that set up their device in these steps. -/
inductive Module where
  /-- `read_write.c` -/
  | readWrite
  /-- `chrdev_mouette.c` -/
  | chrdevMouette
  /-- `read_write_sleepy.c` -/
  | readWriteSleepy
  /-- `read_write_mutex.c` -/
  | readWriteMutex
  /-- `LKM_gpio.c` -/
  | lkmGpio
  /-- `LKM_lcd.c` -/
  | lkmLcd
  deriving DecidableEq

/-- `DRIVER_CLASS` -/
def Module.driverClass : Module → String
  | .chrdevMouette => "Classe_mouette"
  | .readWrite | .readWriteSleepy | .readWriteMutex | .lkmGpio | .lkmLcd => "MyModuleClass"

/-- The pins the driver requests and sets to output once its device is up. -/
def Module.pins : Module → List ℕ
  | .lkmGpio => [49]
  | .lkmLcd => [27, 65, 47, 46, 23, 26, 45, 44, 69, 68, 66]
  | .readWrite | .chrdevMouette | .readWriteSleepy | .readWriteMutex => []

/-- How the kernel answers the calls of one load. -/
structure Faults where
  /-- the major number `alloc_chrdev_region` picks, `none` if it fails -/
  region : Option Major
  /-- why `class_create` fails, if it does -/
  classError : Option Errno
  /-- why `device_create` fails, if it does -/
  deviceError : Option Errno
  /-- why `cdev_add` fails, if it does -/
  cdevError : Option Errno
  /-- the pins `gpio_request` fails on -/
  requestFails : ℕ → Bool
  /-- the pins `gpio_direction_output` fails on -/
  directionFails : ℕ → Bool

/-- Some pin cannot be requested, or cannot be set to output. -/
def Faults.pinFails (f : Faults) (m : Module) : Bool :=
  m.pins.any f.requestFails || m.pins.any f.directionFails

/-- What the static variables of a loaded driver hold. -/
structure Instance where
  /-- `my_device_number` -/
  myDeviceNumber : ℕ
  /-- `my_class` -/
  myClass : Ptr String

/-- How `ModuleInit` ends. -/
structure Loaded where
  /-- its return value -/
  ret : ℤ
  /-- the tables, and what it did to them -/
  setup : Setup
  /-- the static variables -/
  inst : Instance

/-! The labels at the end of `ModuleInit`, each falling through to the next. -/

/-- `ClassError` -/
def classError (s : Setup) (i : Instance) : Loaded :=
  ⟨-1, s.unregisterChrdev i.myDeviceNumber, i⟩

/-- `FileError` -/
def fileError (s : Setup) (i : Instance) : Loaded :=
  classError (s.classDestroy i.myClass) i

/-- `AddError` -/
def addError (s : Setup) (i : Instance) : Loaded :=
  fileError (s.deviceDestroy i.myClass i.myDeviceNumber) i

/-- `GPIORequestError`, without the pins. -/
def gpioRequestError (s : Setup) (i : Instance) : Loaded :=
  addError (s.cdevDel i.myDeviceNumber) i

/-- `ModuleInit` -/
def moduleInit (m : Module) (f : Faults) (k : Kernel) : Loaded :=
  match f.region with
  | none => ⟨-1, ⟨k, []⟩, ⟨0, .null⟩⟩
  | some major =>
    let s : Setup := ⟨{ k with regions := major.region :: k.regions }, []⟩
    let dev := mkdev major.val 0
    let (s, cls) := s.classCreate m.driverClass f.classError
    let i : Instance := ⟨dev, cls⟩
    if cls = .null then classError s i
    else
      let (s, file) := s.deviceCreate cls dev f.deviceError
      if file = .null then fileError s i
      else
        let (s, added) := s.cdevAdd dev f.cdevError
        if added = -1 then addError s i
        else if f.pinFails m then gpioRequestError s i
        else ⟨0, s, i⟩

/-- `ModuleExit`, without the pins. -/
def moduleExit (i : Instance) (k : Kernel) : Setup :=
  let s : Setup := ⟨k, []⟩
  let s := s.cdevDel i.myDeviceNumber
  let s := s.deviceDestroy i.myClass i.myDeviceNumber
  let s := s.classDestroy i.myClass
  s.unregisterChrdev i.myDeviceNumber

end CharDevice

end KernelModules
