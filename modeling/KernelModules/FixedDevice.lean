import KernelModules.UserMemory
import KernelModules.Monitor

/-!
# `fixed_device.c`

One buffer of 128 bytes that holds one message at a time: a write replaces it, a read
takes as much of it as it asks for and throws the rest away. The mode is a variable of
the device, so a `my_read` that finds blocking mode waits outside the lock, and one that
finds the other mode looks at `data_size` under the lock instead.

A copy that faults returns `-EFAULT`; the bytes a `copy_to_user` may have stored before
its fault are not part of the result.
-/

namespace KernelModules

namespace FixedDevice

/-- `BUF_SIZE` -/
def bufSize : ℕ := 128

/-- `MY_IOCTL_MAGIC`, the character `'k'` -/
def myIoctlMagic : ℕ := 107

/-- `IOCTL_RESET` -/
def ioctlReset : ℕ := io myIoctlMagic 0

/-- `IOCTL_SET_BLOCKING` -/
def ioctlSetBlocking : ℕ := iow myIoctlMagic 1 4

/-- The shared state of the driver, without the lock and the wait queue. -/
structure FixedDev where
  /-- the message, and whatever older messages left behind it -/
  buffer : Vector UInt8 bufSize
  /-- the length of the message, 0 when there is none -/
  dataSize : ℕ
  /-- `blocking_mode`: 0 for non-blocking -/
  blockingMode : ℤ

/-- The device when the module is loaded. -/
def fixedInit : FixedDev := ⟨Vector.replicate bufSize 0, 0, 1⟩

/-- The wait queue of the device. -/
inductive FixedQueue where
  /-- `read_queue` -/
  | readQueue
  deriving DecidableEq

instance : Fintype FixedQueue := ⟨{.readQueue}, fun q => by cases q; decide⟩

/-! ## Critical sections -/

/-- `my_read` from the moment the lock is held. Only a read that came the non-blocking
way looks at `data_size` again. -/
def myReadLocked (nonblocking : Bool) (userBuf : UserDst) (count : ℕ) (d : FixedDev) :
    Outcome FixedDev FixedQueue Ret :=
  if nonblocking && d.dataSize == 0 then ⟨d, .error eagain, none⟩
  else
    let toCopy := min count d.dataSize
    if userBuf.accepts toCopy then
      ⟨{ d with dataSize := 0 }, ⟨toCopy, d.buffer.toList.take toCopy⟩, none⟩
    else ⟨d, .error efault, none⟩

/-- `my_write` from the moment the lock is held. A copy that faults has overwritten the
buffer, but keeps the old `data_size` and wakes nobody. -/
def myWriteLocked (userBuf : UserBlock) (count : ℕ) (d : FixedDev) :
    Outcome FixedDev FixedQueue Ret :=
  let toCopy := min count bufSize
  let buffer := copyFromUser d.buffer userBuf toCopy
  if userBuf.left toCopy = 0 then
    ⟨{ d with buffer := buffer, dataSize := toCopy }, ⟨toCopy, []⟩, some .readQueue⟩
  else ⟨{ d with buffer := buffer }, .error efault, none⟩

/-- What `my_ioctl` returns before it takes the lock; `none` if it goes on to take it.
The argument is the `int` at the user's address, `none` where it cannot be fetched. -/
def myIoctlUnlocked (cmd : ℕ) (arg : Option ℤ) : Option Ret :=
  if cmd = ioctlReset then none
  else if cmd = ioctlSetBlocking then
    match arg with
    | none => some (.error efault)
    | some val => if val ≠ 0 ∧ val ≠ 1 then some (.error einval) else none
  else some (.error enotty)

/-- `my_ioctl` from the moment the lock is held; the mode was fetched before. -/
def myIoctlLocked (cmd : ℕ) (arg : Option ℤ) (d : FixedDev) :
    Outcome FixedDev FixedQueue Ret :=
  if cmd = ioctlReset then ⟨{ d with dataSize := 0 }, ⟨0, []⟩, none⟩
  else ⟨{ d with blockingMode := arg.getD d.blockingMode }, ⟨0, []⟩, none⟩

/-! ## The calls as a monitor -/

/-- A call on the device, with its arguments. -/
inductive FixedCall where
  /-- `my_read` -/
  | read (userBuf : UserDst) (count : ℕ)
  /-- `my_write` -/
  | write (userBuf : UserBlock) (count : ℕ)
  /-- `my_ioctl` -/
  | ioctl (cmd : ℕ) (arg : Option ℤ)

/-- The first thing a call does. `my_read` looks at the mode without the lock. -/
def fixedEntry : FixedCall → FixedDev → Entry FixedQueue Ret
  | .read _ _, d => if d.blockingMode = 0 then .lock else .wait .readQueue
  | .write _ _, _ => .lock
  | .ioctl cmd arg, _ =>
    match myIoctlUnlocked cmd arg with
    | some r => .finish r
    | none => .lock

/-- The condition of `wait_event_interruptible` in `my_read`. -/
def fixedCond : FixedQueue → FixedDev → Bool
  | .readQueue, d => decide (0 < d.dataSize)

/-- The critical section of each call. -/
def fixedBody : FixedCall → Option FixedQueue → FixedDev → Outcome FixedDev FixedQueue Ret
  | .read userBuf count, via, d => myReadLocked via.isNone userBuf count d
  | .write userBuf count, _, d => myWriteLocked userBuf count d
  | .ioctl cmd arg, _, d => myIoctlLocked cmd arg d

/-- The device and its calls. -/
def fixedMonitor : Monitor FixedDev FixedQueue FixedCall Ret where
  entry := fixedEntry
  cond := fixedCond
  body := fixedBody
  waitError _ := some (.error eintr)
  lockError _ := some (.error eintr)

end FixedDevice

end KernelModules
