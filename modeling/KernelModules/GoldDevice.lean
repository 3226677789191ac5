import KernelModules.UserMemory
import KernelModules.Monitor

/-!
# `gold_device.c`

The ring-buffer character device, function by function. The byte loops of
`gold_read` and `gold_write` are kept as loops: each iteration moves one byte
between the ring and user memory, and stops at the count, at an empty or full
ring, or at a faulting user access.

`goldMonitor` puts the functions together as blocking calls: the wait is outside
the lock, everything from `mutex_lock_interruptible` to `mutex_unlock` is one
critical section, and the wake-up comes after it — where there is one.
-/

namespace KernelModules

namespace GoldDevice

/-- `BUF_SIZE` -/
def bufSize : ℕ := 256

/-- `MY_IOCTL_MAGIC`, the character `'k'` -/
def myIoctlMagic : ℕ := 107

/-- `IOCTL_RESET` -/
def ioctlReset : ℕ := io myIoctlMagic 0

/-- `IOCTL_GET_BUFSIZE` -/
def ioctlGetBufsize : ℕ := ior myIoctlMagic 1 4

/-- `POLLIN` -/
def pollIn : ℕ := 0x0001
/-- `POLLOUT` -/
def pollOut : ℕ := 0x0004
/-- `POLLRDNORM` -/
def pollRdNorm : ℕ := 0x0040
/-- `POLLWRNORM` -/
def pollWrNorm : ℕ := 0x0100

/-- `struct gold_dev`, without the lock and the wait queues. -/
structure GoldDev where
  /-- the ring -/
  buffer : Vector UInt8 bufSize
  /-- the slot the next byte is written to -/
  head : ℕ
  /-- the slot of the oldest byte -/
  tail : ℕ
  /-- the number of bytes held -/
  size : ℕ
  deriving DecidableEq

/-- The device after `gold_init`: static storage is zeroed. -/
def goldInit : GoldDev := ⟨Vector.replicate bufSize 0, 0, 0, 0⟩

/-- `struct file_ctx` -/
structure FileCtx where
  /-- opened with `O_NONBLOCK` -/
  nonblocking : Bool
  deriving DecidableEq

/-- `buffer_empty` -/
def bufferEmpty (d : GoldDev) : Bool := d.size == 0

/-- `buffer_full` -/
def bufferFull (d : GoldDev) : Bool := d.size == bufSize

/-- The two wait queues of the device. -/
inductive GoldQueue where
  /-- `read_queue` -/
  | readQueue
  /-- `write_queue` -/
  | writeQueue
  deriving DecidableEq

instance : Fintype GoldQueue :=
  ⟨{.readQueue, .writeQueue}, fun q => by cases q <;> decide⟩

/-! ## The byte loops -/

/-- The byte at `tail`. -/
def GoldDev.front (d : GoldDev) : UInt8 := d.buffer.getD d.tail 0

/-- The ring after one byte has been taken: `tail` advances, `size` drops. -/
def GoldDev.drop (d : GoldDev) : GoldDev :=
  { d with tail := (d.tail + 1) % bufSize, size := d.size - 1 }

/-- The ring after one byte has been stored at `head`. -/
def GoldDev.put (d : GoldDev) (c : UInt8) : GoldDev :=
  { d with buffer := d.buffer.setIfInBounds d.head c, head := (d.head + 1) % bufSize,
           size := d.size + 1 }

/-- How a byte loop ends: the device, the bytes stored in user memory on the way,
and the number of bytes copied, or `none` after a fault. -/
structure LoopExit where
  /-- the device when the loop ends -/
  dev : GoldDev
  /-- the bytes handed to the user -/
  out : List UInt8
  /-- `copied`, unless a user access faulted -/
  copied : Option ℕ

/-- The loop of `gold_read`, with `todo = count - copied` iterations left. -/
def readLoop (buf : UserDst) : ℕ → ℕ → GoldDev → LoopExit
  | 0, copied, d => ⟨d, [], some copied⟩
  | todo + 1, copied, d =>
    if bufferEmpty d then ⟨d, [], some copied⟩
    else if buf copied then
      let rest := readLoop buf todo (copied + 1) d.drop
      ⟨rest.dev, d.front :: rest.out, rest.copied⟩
    else ⟨d, [], none⟩

/-- The loop of `gold_write`, with `todo = count - copied` iterations left. -/
def writeLoop (buf : UserSrc) : ℕ → ℕ → GoldDev → LoopExit
  | 0, copied, d => ⟨d, [], some copied⟩
  | todo + 1, copied, d =>
    if bufferFull d then ⟨d, [], some copied⟩
    else match buf copied with
      | none => ⟨d, [], none⟩
      | some c => writeLoop buf todo (copied + 1) (d.put c)

/-! ## Critical sections -/

/-- What follows a byte loop: unlock; then `-EFAULT` at once, or a wake-up and
the count. -/
def LoopExit.finish (e : LoopExit) (q : GoldQueue) : Outcome GoldDev GoldQueue Ret :=
  match e.copied with
  | none => ⟨e.dev, ⟨-efault, e.out⟩, none⟩
  | some n => ⟨e.dev, ⟨n, e.out⟩, some q⟩

/-- `gold_read` from the moment the lock is held. -/
def goldReadLocked (ctx : FileCtx) (buf : UserDst) (count : ℕ) (d : GoldDev) :
    Outcome GoldDev GoldQueue Ret :=
  if ctx.nonblocking && bufferEmpty d then ⟨d, .error eagain, none⟩
  else (readLoop buf count 0 d).finish .writeQueue

/-- `gold_write` from the moment the lock is held. -/
def goldWriteLocked (ctx : FileCtx) (buf : UserSrc) (count : ℕ) (d : GoldDev) :
    Outcome GoldDev GoldQueue Ret :=
  if ctx.nonblocking && bufferFull d then ⟨d, .error eagain, none⟩
  else (writeLoop buf count 0 d).finish .readQueue

/-- `IOCTL_RESET` from the moment the lock is held. -/
def goldReset (d : GoldDev) : Outcome GoldDev GoldQueue Ret :=
  ⟨{ d with head := 0, tail := 0, size := 0 }, ⟨0, []⟩, some .writeQueue⟩

/-- The commands of `gold_ioctl` that take no lock. -/
def goldIoctlUnlocked (cmd : ℕ) (arg : UserDst) : Ret :=
  if cmd = ioctlGetBufsize then
    if arg.accepts 4 then ⟨0, intBytes bufSize⟩ else .error efault
  else .error enotty

/-- `gold_poll`: the mask it computes under the lock. -/
def goldPoll (d : GoldDev) : ℕ :=
  (if bufferEmpty d then 0 else pollIn ||| pollRdNorm) |||
    (if bufferFull d then 0 else pollOut ||| pollWrNorm)

/-! ## Whole calls, one at a time -/

/-- Where a signal cuts a call short. -/
inductive Interruption where
  /-- nowhere -/
  | never
  /-- in `wait_event_interruptible` -/
  | wait
  /-- in `mutex_lock_interruptible` -/
  | lock
  deriving DecidableEq

/-- A call that may be interrupted before its critical section. Only a blocking
call waits. -/
def interruptible (ctx : FileCtx) (intr : Interruption) (d : GoldDev)
    (o : Outcome GoldDev GoldQueue Ret) : GoldDev × Ret :=
  match intr with
  | .never => (o.next, o.ret)
  | .wait => if ctx.nonblocking then (o.next, o.ret) else (d, .error eintr)
  | .lock => (d, .error eintr)

/-- `gold_read`, when its wait is over. -/
def goldRead (ctx : FileCtx) (intr : Interruption) (buf : UserDst) (count : ℕ)
    (d : GoldDev) : GoldDev × Ret :=
  interruptible ctx intr d (goldReadLocked ctx buf count d)

/-- `gold_write`, when its wait is over. -/
def goldWrite (ctx : FileCtx) (intr : Interruption) (buf : UserSrc) (count : ℕ)
    (d : GoldDev) : GoldDev × Ret :=
  interruptible ctx intr d (goldWriteLocked ctx buf count d)

/-! ## The calls as a monitor -/

/-- A call on the device, with its arguments. -/
inductive GoldCall where
  /-- `gold_read` -/
  | read (ctx : FileCtx) (buf : UserDst) (count : ℕ)
  /-- `gold_write` -/
  | write (ctx : FileCtx) (buf : UserSrc) (count : ℕ)
  /-- `gold_poll` -/
  | poll
  /-- `gold_ioctl` -/
  | ioctl (cmd : ℕ) (arg : UserDst)

/-- The first thing a call does. -/
def goldEntry : GoldCall → GoldDev → Entry GoldQueue Ret
  | .read ctx _ _, _ => if ctx.nonblocking then .lock else .wait .readQueue
  | .write ctx _ _, _ => if ctx.nonblocking then .lock else .wait .writeQueue
  | .poll, _ => .lock
  | .ioctl cmd arg, _ =>
    if cmd = ioctlReset then .lock else .finish (goldIoctlUnlocked cmd arg)

/-- The condition of each `wait_event_interruptible`. -/
def goldCond : GoldQueue → GoldDev → Bool
  | .readQueue, d => !bufferEmpty d
  | .writeQueue, d => !bufferFull d

/-- The critical section of each call. -/
def goldBody : GoldCall → GoldDev → Outcome GoldDev GoldQueue Ret
  | .read ctx buf count, d => goldReadLocked ctx buf count d
  | .write ctx buf count, d => goldWriteLocked ctx buf count d
  | .poll, d => ⟨d, ⟨goldPoll d, []⟩, none⟩
  | .ioctl cmd arg, d =>
    if cmd = ioctlReset then goldReset d else ⟨d, goldIoctlUnlocked cmd arg, none⟩

/-- The device and its calls. `gold_poll` takes the lock uninterruptibly. -/
def goldMonitor : Monitor GoldDev GoldQueue GoldCall Ret where
  entry := goldEntry
  cond := goldCond
  body c _ d := goldBody c d
  waitError _ := some (.error eintr)
  lockError
    | .poll => none
    | _ => some (.error eintr)

end GoldDevice

end KernelModules
