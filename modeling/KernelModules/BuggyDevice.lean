import KernelModules.Transition
import KernelModules.UserMemory
import Mathlib.Logic.Function.Basic

/-!
# `buggy_device.c`

The driver that the exercise is to repair. `my_open` tries to take the lock and does not look
whether it has got it, `my_release` unlocks it whoever has it, `my_read` keeps it while it sleeps,
and `my_write` and `my_ioctl` do without. So nothing here is a critical section: every statement
is a step of its own, and a copy is one step for each byte.

* `Shared` — the static variables and the lock;
* `stmt` — the next statement of a call, on the static variables;
* `next` — any number of tasks and open files, with a log of what happens to `data_size` and of
  what the calls return;
* `Step` — what a step can do, case by case.
-/

namespace KernelModules

namespace BuggyDevice

/-- `BUF_SIZE` -/
def bufSize : ℕ := 128

/-- `MAX_RW_COUNT`: a `write` of more hands the driver only as much. -/
def maxRwCount : ℕ := 0x7ffff000

/-! ## The device -/

/-- The static variables and the lock. -/
structure Shared (Tid : Type*) where
  /-- `buffer`; no copy gets behind its 128 bytes -/
  buffer : ℕ → UInt8
  /-- `data_size` -/
  dataSize : Int32
  /-- `blocking_mode` -/
  blockingMode : Int32
  /-- the owner of `lock`, if it is locked -/
  lock : Option Tid

/-- Where a task is. The calls on an open file keep it open. -/
inductive Pc (Fid : Type*) where
  /-- in user space -/
  | idle
  /-- in `my_read`, at `mutex_lock` -/
  | readLock (f : Fid)
  /-- at `data_size == 0` -/
  | readTest (f : Fid)
  /-- at `if (blocking_mode)` -/
  | readMode (f : Fid)
  /-- in `wait_event_interruptible`, at the condition, not on the queue -/
  | waitTest (f : Fid)
  /-- about to enter the queue -/
  | waitPrepare (f : Fid)
  /-- on the queue, at the condition -/
  | waitQueued (f : Fid)
  /-- on the queue, about to sleep -/
  | waitCommitted (f : Fid)
  /-- asleep on the queue -/
  | asleep (f : Fid)
  /-- at `copy_to_user`, about to look at `data_size` -/
  | readSize (f : Fid)
  /-- in `copy_to_user` of `n` bytes, some of which are out -/
  | copyOut (f : Fid) (n : ℕ) (out : List UInt8)
  /-- at `data_size = 0` -/
  | clear (f : Fid) (out : List UInt8)
  /-- at `mutex_unlock`; with nothing handed out the call fails then -/
  | unlock (f : Fid) (out : Option (List UInt8))
  /-- at `return` -/
  | readReturn (f : Fid) (out : Option (List UInt8))
  /-- in `my_write`, in `copy_from_user` of `count` bytes, `i` of which are in -/
  | copyIn (f : Fid) (buf : UserBlock) (count i : ℕ)
  /-- at `data_size = count` -/
  | setSize (f : Fid) (count : ℕ)
  /-- at `wake_up_interruptible` -/
  | wake (f : Fid) (count : ℕ)

/-- Between `mutex_lock` and `mutex_unlock` of `my_read` -/
def Pc.Inside {Fid : Type*} : Pc Fid → Prop
  | .readTest _ | .readMode _ | .waitTest _ | .waitPrepare _ | .waitQueued _ | .waitCommitted _
  | .asleep _ | .readSize _ | .copyOut .. | .clear .. | .unlock .. => True
  | .idle | .readLock _ | .readReturn .. | .copyIn .. | .setSize .. | .wake .. => False

/-- `wake_up_interruptible` makes the tasks of the queue runnable. -/
def Pc.woken {Fid : Type*} : Pc Fid → Pc Fid
  | .waitQueued f => .waitTest f
  | .waitCommitted f | .asleep f => .waitPrepare f
  | p => p

/-- How much of a copy of `n` bytes from or to `buffer` is done: the kernel, which knows how long
the array is, refuses one that is negative or longer. -/
def copyLen (n : ℤ) : ℕ := if n ≤ bufSize then n.toNat else 0

section Stmt

variable {Tid Fid : Type*} [DecidableEq Tid]

/-- The next statement of a call, where it is not the last one. `none` means that the task has to
wait. -/
def stmt (t : Tid) (d : Shared Tid) : Pc Fid → Option (Shared Tid × Pc Fid)
  | .readLock f => if d.lock = none then some ({ d with lock := some t }, .readTest f) else none
  | .readTest f => some (d, if d.dataSize = 0 then .readMode f else .readSize f)
  | .readMode f => some (d, if d.blockingMode = 0 then .unlock f none else .waitTest f)
  | .waitTest f => some (d, if 0 < d.dataSize then .readSize f else .waitPrepare f)
  | .waitPrepare f => some (d, .waitQueued f)
  | .waitQueued f => some (d, if 0 < d.dataSize then .readSize f else .waitCommitted f)
  | .waitCommitted f => some (d, .asleep f)
  | .readSize f => some (d, .copyOut f (copyLen d.dataSize.toInt) [])
  | .copyOut f n out =>
    some (d, if out.length < n then .copyOut f n (out ++ [d.buffer out.length]) else .clear f out)
  | .clear f out => some ({ d with dataSize := 0 }, .unlock f (some out))
  | .unlock f out => some ({ d with lock := none }, .readReturn f out)
  | .copyIn f buf count i =>
    if i < copyLen count then
      some ({ d with buffer := Function.update d.buffer i (buf.fill count i (d.buffer i)) },
        .copyIn f buf count (i + 1))
    else some (d, .setSize f count)
  | .setSize f count => some ({ d with dataSize := .ofNat count }, .wake f count)
  | .idle | .asleep _ | .readReturn .. | .wake .. => none

end Stmt

/-! ## Tasks and files -/

/-- What the log holds. -/
inductive Event (Tid : Type*) where
  /-- a `my_write` has stored its count in `data_size` -/
  | stored (t : Tid) (v : Int32)
  /-- a `my_read` has cleared `data_size` -/
  | cleared (t : Tid)
  /-- an `IOCTL_RESET` has -/
  | reset (t : Tid)
  /-- a `my_read` has returned -/
  | returned (t : Tid) (r : Ret)
  /-- a `my_write` has returned `count` -/
  | written (t : Tid) (count : ℕ)
  deriving DecidableEq

/-- What a statement puts into the log. -/
def Pc.event {Tid Fid : Type*} (t : Tid) : Pc Fid → Option (Event Tid)
  | .clear .. => some (.cleared t)
  | .setSize _ count => some (.stored t (.ofNat count))
  | _ => none

/-- The device, the open files and the tasks. No step reads the log. -/
structure State (Tid Fid : Type*) where
  /-- the static variables and the lock -/
  shared : Shared Tid
  /-- the open files, with the number of calls in progress on each -/
  files : Fid → Option ℕ
  /-- where each task is -/
  pc : Tid → Pc Fid
  /-- what has happened -/
  log : List (Event Tid)

/-- What happens next. -/
inductive Act (Tid Fid : Type*) where
  /-- `my_open` -/
  | openFile (t : Tid) (f : Fid)
  /-- `my_release`, once nobody refers to the file any more -/
  | release (t : Tid) (f : Fid)
  /-- a task calls `my_read`, which does not look at the count it is given -/
  | read (t : Tid) (f : Fid)
  /-- a task calls `my_write` -/
  | write (t : Tid) (f : Fid) (buf : UserBlock) (count : ℕ)
  /-- `IOCTL_RESET` -/
  | reset (t : Tid) (f : Fid)
  /-- `IOCTL_SET_BLOCKING`, with what it finds in user memory -/
  | setBlocking (t : Tid) (f : Fid) (val : Int32)
  /-- the next statement of the call in progress -/
  | step (t : Tid)
  /-- a `copy_to_user` faults -/
  | fault (t : Tid)
  /-- a signal ends a wait -/
  | signal (t : Tid)

section Tasks

variable {Tid Fid : Type*} [DecidableEq Tid] [DecidableEq Fid]

/-- One task moves on. -/
def State.goto (s : State Tid Fid) (t : Tid) (p : Pc Fid) : State Tid Fid :=
  { s with pc := Function.update s.pc t p }

/-- A call on an open file begins. -/
def State.enter (s : State Tid Fid) (t : Tid) (f : Fid) (p : Pc Fid) : Option (State Tid Fid) :=
  match s.pc t, s.files f with
  | .idle, some n => some { s.goto t p with files := Function.update s.files f (some (n + 1)) }
  | _, _ => none

/-- It returns. -/
def State.leave (s : State Tid Fid) (t : Tid) (f : Fid) : State Tid Fid :=
  { s.goto t .idle with files := Function.update s.files f ((s.files f).map (· - 1)) }

/-- What a `my_read` returns: `-EAGAIN`, or what `data_size` holds by then. -/
def readRet (d : Shared Tid) : Option (List UInt8) → Ret
  | none => .error eagain
  | some out => ⟨d.dataSize.toInt, out⟩

/-- One step. -/
def next (s : State Tid Fid) : Act Tid Fid → Option (State Tid Fid)
  | .openFile t f => match s.pc t, s.files f with
    | .idle, none =>
      -- `mutex_trylock`: nobody looks whether it has succeeded
      some { s with files := Function.update s.files f (some 0),
                    shared := { s.shared with lock := s.shared.lock.or (some t) } }
    | _, _ => none
  | .release t f => match s.pc t, s.files f with
    | .idle, some 0 =>
      -- `mutex_unlock`, whoever has locked it, and whether it is locked or not
      some { s with files := Function.update s.files f none,
                    shared := { s.shared with lock := none } }
    | _, _ => none
  | .read t f => s.enter t f (.readLock f)
  | .write t f buf count => if count ≤ maxRwCount then s.enter t f (.copyIn f buf count 0) else none
  | .reset t f => match s.pc t, s.files f with
    | .idle, some _ =>
      some { s with shared := { s.shared with dataSize := 0 }, log := s.log ++ [.reset t] }
    | _, _ => none
  | .setBlocking t f val => match s.pc t, s.files f with
    | .idle, some _ => some { s with shared := { s.shared with blockingMode := val } }
    | _, _ => none
  | .step t => match s.pc t with
    | .readReturn f out =>
      some { s.leave t f with log := s.log ++ [.returned t (readRet s.shared out)] }
    | .wake f count =>
      some { s.leave t f with pc := fun u => ((s.leave t f).pc u).woken,
                              log := s.log ++ [.written t count] }
    | p => (stmt t s.shared p).map fun (d, p') =>
      { s.goto t p' with shared := d, log := s.log ++ (p.event t).toList }
  | .fault t => match s.pc t with
    | .copyOut f _ out => some (s.goto t (.clear f out))
    | _ => none
  | .signal t => match s.pc t with
    | .waitQueued f | .waitCommitted f | .asleep f => some (s.goto t (.readSize f))
    | _ => none

/-- `buggy_init` has returned: `data_size` is 0 and `blocking_mode` is 1. Calls that come before it
has initialised the lock and the queue, which it does last, are left out. -/
def start : State Tid Fid :=
  ⟨⟨fun _ => 0, 0, 1, none⟩, fun _ => none, fun _ => .idle, []⟩

/-- The tasks, the files and the device. -/
def buggyLts (Tid Fid : Type*) [DecidableEq Tid] [DecidableEq Fid] :
    Lts (State Tid Fid) (Act Tid Fid) :=
  Lts.ofNext start next

/-! ## What a step can do -/

/-- The steps of `next` as a relation. -/
inductive Step (s : State Tid Fid) : Act Tid Fid → State Tid Fid → Prop where
  /-- a file is opened -/
  | openFile {t : Tid} {f : Fid} : s.pc t = .idle → s.files f = none →
      Step s (.openFile t f) { s with
        files := Function.update s.files f (some 0),
        shared := { s.shared with lock := s.shared.lock.or (some t) } }
  /-- it is closed -/
  | release {t : Tid} {f : Fid} : s.pc t = .idle → s.files f = some 0 →
      Step s (.release t f) { s with
        files := Function.update s.files f none,
        shared := { s.shared with lock := none } }
  /-- a read begins -/
  | read {t : Tid} {f : Fid} {n : ℕ} : s.pc t = .idle → s.files f = some n →
      Step s (.read t f) { s.goto t (.readLock f) with
        files := Function.update s.files f (some (n + 1)) }
  /-- a write begins -/
  | write {t : Tid} {f : Fid} {buf : UserBlock} {count n : ℕ} : s.pc t = .idle →
      s.files f = some n → count ≤ maxRwCount →
      Step s (.write t f buf count) { s.goto t (.copyIn f buf count 0) with
        files := Function.update s.files f (some (n + 1)) }
  /-- `data_size` is reset -/
  | reset {t : Tid} {f : Fid} : s.pc t = .idle →
      Step s (.reset t f) { s with shared := { s.shared with dataSize := 0 },
                                   log := s.log ++ [.reset t] }
  /-- the mode is set -/
  | setBlocking {t : Tid} {f : Fid} {val : Int32} : s.pc t = .idle →
      Step s (.setBlocking t f val) { s with shared := { s.shared with blockingMode := val } }
  /-- a read returns -/
  | readReturn {t : Tid} {f : Fid} {out : Option (List UInt8)} : s.pc t = .readReturn f out →
      Step s (.step t) { s.leave t f with log := s.log ++ [.returned t (readRet s.shared out)] }
  /-- a write wakes the sleepers and returns -/
  | wake {t : Tid} {f : Fid} {count : ℕ} : s.pc t = .wake f count →
      Step s (.step t) { s.leave t f with pc := fun u => ((s.leave t f).pc u).woken,
                                          log := s.log ++ [.written t count] }
  /-- any other statement -/
  | stmt {t : Tid} {p p' : Pc Fid} {d : Shared Tid} : s.pc t = p →
      stmt t s.shared p = some (d, p') →
      Step s (.step t) { s.goto t p' with shared := d, log := s.log ++ (p.event t).toList }
  /-- a copy to the user faults -/
  | fault {t : Tid} {f : Fid} {n : ℕ} {out : List UInt8} : s.pc t = .copyOut f n out →
      Step s (.fault t) (s.goto t (.clear f out))
  /-- a signal ends a wait, and nobody looks what has ended it -/
  | signal {t : Tid} {f : Fid} :
      s.pc t = .waitQueued f ∨ s.pc t = .waitCommitted f ∨ s.pc t = .asleep f →
      Step s (.signal t) (s.goto t (.readSize f))

/-- Every step of `next` is one of `Step`. -/
theorem step_of_next {s s' : State Tid Fid} {a : Act Tid Fid} (h : next s a = some s') :
    Step s a s' := by
  cases a with
  | openFile t f =>
    simp only [next] at h
    split at h
    · next hpc hfile => cases h; exact .openFile hpc hfile
    · cases h
  | release t f =>
    simp only [next] at h
    split at h
    · next hpc hfile => cases h; exact .release hpc hfile
    · cases h
  | read t f =>
    simp only [next, State.enter] at h
    split at h
    · next n hpc hfile => cases h; exact .read hpc hfile
    · cases h
  | write t f buf count =>
    obtain ⟨hcount, h⟩ := Option.ite_none_right_eq_some.mp h
    simp only [State.enter] at h
    split at h
    · next n hpc hfile => cases h; exact .write hpc hfile hcount
    · cases h
  | reset t f =>
    simp only [next] at h
    split at h
    · next hpc _ => cases h; exact .reset hpc
    · cases h
  | setBlocking t f val =>
    simp only [next] at h
    split at h
    · next hpc _ => cases h; exact .setBlocking hpc
    · cases h
  | step t =>
    simp only [next] at h
    split at h
    · next f out hpc => cases h; exact .readReturn hpc
    · next f count hpc => cases h; exact .wake hpc
    · obtain ⟨⟨d, p'⟩, hstmt, rfl⟩ := Option.map_eq_some_iff.mp h
      exact .stmt rfl hstmt
  | fault t =>
    simp only [next] at h
    split at h
    · next f n out hpc => cases h; exact .fault hpc
    · cases h
  | signal t =>
    simp only [next] at h
    split at h
    · next f hpc => cases h; exact .signal (.inl hpc)
    · next f hpc => cases h; exact .signal (.inr (.inl hpc))
    · next f hpc => cases h; exact .signal (.inr (.inr hpc))
    · cases h

omit [DecidableEq Fid] in
@[simp] theorem State.goto_pc_self (s : State Tid Fid) (t : Tid) (p : Pc Fid) :
    (s.goto t p).pc t = p :=
  Function.update_self ..

omit [DecidableEq Fid] in
theorem State.goto_pc_ne (s : State Tid Fid) {t u : Tid} (hut : u ≠ t) (p : Pc Fid) :
    (s.goto t p).pc u = s.pc u :=
  Function.update_of_ne hut ..

omit [DecidableEq Fid] in
/-- What holds of each task once one of them has moved on. -/
theorem forall_goto {P : Tid → Pc Fid → Prop} {s : State Tid Fid} {t : Tid} {p : Pc Fid}
    (h : ∀ u, u ≠ t → P u (s.pc u)) (hp : P t p) : ∀ u, P u ((s.goto t p).pc u) := by
  intro u
  by_cases hut : u = t
  · rw [hut, State.goto_pc_self]
    exact hp
  · rw [State.goto_pc_ne s hut]
    exact h u hut

end Tasks

end BuggyDevice

end KernelModules
