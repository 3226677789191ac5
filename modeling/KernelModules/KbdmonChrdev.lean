import KernelModules.UserMemory
import KernelModules.Monitor
import KernelModules.Circular
import Mathlib.Data.Fintype.Basic

/-!
# `kbdmon_chrdev.c`

The ring of key events between the input core and the readers of `/dev/kbdmon`. The two
cursors are all the state there is: `head == tail` means empty, so one slot stays free and
the ring holds at most 127 events; a push that would make the cursors meet moves `tail`
on and with it drops the oldest event.

`kbdmon_read` ignores what its wait returns and dequeues without looking at the cursors
again, and it copies the event to the user after it has removed it.
-/

namespace KernelModules

namespace KbdmonChrdev

/-- `BUF_SIZE` -/
def bufSize : ℕ := 128

theorem bufSize_pos : 0 < bufSize := by decide

/-- `struct key_event` -/
structure KeyEvent where
  /-- the key -/
  code : UInt16
  /-- released, pressed or repeated -/
  value : UInt8
  deriving DecidableEq

/-- `sizeof(struct key_event)`: three bytes and one of padding. -/
def sizeofKeyEvent : ℕ := 4

/-- A cursor of the ring, kept below `BUF_SIZE` by every `% BUF_SIZE`. -/
abbrev Cursor : Type := Fin bufSize

/-- `(i + 1) % BUF_SIZE` -/
def Cursor.next (i : Cursor) : Cursor := ⟨(i + 1) % bufSize, Nat.mod_lt _ bufSize_pos⟩

/-- `ring`, `head` and `tail`. -/
structure KbdRing where
  /-- the slots -/
  ring : Vector KeyEvent bufSize
  /-- the slot the next event is written to -/
  head : Cursor
  /-- the slot of the oldest event -/
  tail : Cursor

/-- Static storage is zeroed. -/
def kbdInit : KbdRing := ⟨Vector.replicate bufSize ⟨0, 0⟩, ⟨0, bufSize_pos⟩, ⟨0, bufSize_pos⟩⟩

/-- The condition the readers wait for. -/
def KbdRing.nonempty (d : KbdRing) : Bool := d.head != d.tail

/-- `ring[tail]` -/
def KbdRing.front (d : KbdRing) : KeyEvent := d.ring.get d.tail

/-- The ring once `tail` has moved on. -/
def KbdRing.advance (d : KbdRing) : KbdRing := { d with tail := d.tail.next }

/-- The ring once an event is stored at `head` and `head` has moved on. -/
def KbdRing.store (d : KbdRing) (ev : KeyEvent) : KbdRing :=
  { d with ring := d.ring.set d.head ev, head := d.head.next }

/-- `push_event` -/
def pushEvent (code : UInt16) (value : UInt8) (d : KbdRing) : KbdRing :=
  let d := d.store ⟨code, value⟩
  if d.head = d.tail then d.advance else d

/-- What `kbdmon_read` hands back: its return value, and the event it stored in the
caller's buffer, if it did. -/
structure KbdRet where
  /-- the value returned to the caller -/
  code : ℤ
  /-- the event stored in the caller's buffer -/
  event : Option KeyEvent
  deriving DecidableEq

/-- The wait queue of the device. -/
inductive KbdQueue where
  /-- `readq` -/
  | readq
  deriving DecidableEq

instance : Fintype KbdQueue := ⟨{.readq}, fun q => by cases q; decide⟩

/-- `kbdmon_read` from the dequeue on. The copy comes after the lock is released, from a
local variable. -/
def kbdmonDequeue (buf : UserDst) (d : KbdRing) : Outcome KbdRing KbdQueue KbdRet :=
  if buf.accepts sizeofKeyEvent then ⟨d.advance, ⟨sizeofKeyEvent, some d.front⟩, none⟩
  else ⟨d.advance, ⟨-efault, none⟩, none⟩

/-- `kbdmon_read`, when its wait is over. -/
def kbdmonRead (buf : UserDst) (len : ℕ) (d : KbdRing) : KbdRing × KbdRet :=
  if len < sizeofKeyEvent then (d, ⟨-einval, none⟩)
  else ((kbdmonDequeue buf d).next, (kbdmonDequeue buf d).ret)

/-! ## The calls as a monitor -/

/-- A call on the device, with its arguments. -/
inductive KbdCall where
  /-- `push_event` -/
  | push (code : UInt16) (value : UInt8)
  /-- `kbdmon_read` -/
  | read (buf : UserDst) (len : ℕ)

/-- The first thing a call does. -/
def kbdEntry : KbdCall → KbdRing → Entry KbdQueue KbdRet
  | .push _ _, _ => .lock
  | .read _ len, _ => if len < sizeofKeyEvent then .finish ⟨-einval, none⟩ else .wait .readq

/-- The critical section of each call. -/
def kbdBody : KbdCall → KbdRing → Outcome KbdRing KbdQueue KbdRet
  | .push code value, d => ⟨pushEvent code value d, ⟨0, none⟩, some .readq⟩
  | .read buf _, d => kbdmonDequeue buf d

/-- The device and its calls. The wait is interruptible but its result is ignored; the
spinlock cannot be interrupted. -/
def kbdMonitor : Monitor KbdRing KbdQueue KbdCall KbdRet where
  entry := kbdEntry
  cond _ d := d.nonempty
  body c _ d := kbdBody c d
  waitError _ := none
  lockError _ := none

/-! ## The queue in the ring -/

/-- The number of events between the cursors. -/
def KbdRing.held (d : KbdRing) : ℕ := (d.head + bufSize - d.tail) % bufSize

/-- The ring as a function from slots to events. -/
def KbdRing.cell (d : KbdRing) (i : ℕ) : KeyEvent := d.ring.getD i ⟨0, 0⟩

/-- The events held, oldest first: from `tail` up to `head`. -/
def contents (d : KbdRing) : List KeyEvent :=
  Circular.window d.cell bufSize d.tail d.held

@[simp] theorem length_contents (d : KbdRing) : (contents d).length = d.held :=
  Circular.length_window ..

theorem KbdRing.held_lt (d : KbdRing) : d.held < bufSize := Nat.mod_lt _ bufSize_pos

/-- `head` is as many slots after `tail` as there are events. -/
theorem KbdRing.head_eq (d : KbdRing) : (d.head : ℕ) = (d.tail + d.held) % bufSize := by
  have hhead := d.head.isLt
  have htail := d.tail.isLt
  simp only [KbdRing.held, bufSize] at *
  omega

theorem KbdRing.nonempty_iff {d : KbdRing} : d.nonempty = true ↔ d.held ≠ 0 := by
  have hhead := d.head.isLt
  have htail := d.tail.isLt
  rw [KbdRing.nonempty, bne_iff_ne, ne_eq, Fin.ext_iff]
  simp only [KbdRing.held, bufSize] at *
  omega

theorem KbdRing.front_eq_cell (d : KbdRing) : d.front = d.cell d.tail := by
  simp [KbdRing.front, KbdRing.cell, Vector.getD, Vector.get]

/-- Taking one of the events held. -/
theorem KbdRing.held_advance {d : KbdRing} (h : d.nonempty = true) :
    d.held = d.advance.held + 1 := by
  have hhead := d.head.isLt
  have htail := d.tail.isLt
  rw [nonempty_iff] at h
  simp only [KbdRing.held, KbdRing.advance, Cursor.next, bufSize] at *
  omega

/-- **Pop**: the event at `tail` is the oldest one. -/
theorem contents_advance {d : KbdRing} (h : d.nonempty = true) :
    contents d = d.front :: contents d.advance := by
  rw [contents, contents, KbdRing.held_advance h, KbdRing.front_eq_cell]
  exact Circular.window_cons d.tail.isLt ..

/-- Storing at `head` changes that cell only. -/
theorem KbdRing.cell_store (d : KbdRing) (ev : KeyEvent) :
    (d.store ev).cell = Function.update d.cell d.head ev := by
  funext i
  by_cases hi : i = d.head
  · subst hi
    rw [Function.update_self]
    simp [KbdRing.cell, KbdRing.store, Vector.getD]
  · rw [Function.update_of_ne hi]
    simp [KbdRing.cell, KbdRing.store, Vector.getD, Array.getElem?_set_ne, Ne.symm hi]

/-- The window from `tail` that includes the event just stored. -/
theorem window_store (d : KbdRing) (ev : KeyEvent) :
    Circular.window (d.store ev).cell bufSize d.tail (d.held + 1) = contents d ++ [ev] := by
  rw [KbdRing.cell_store, KbdRing.head_eq]
  exact Circular.window_push d.held_lt ..

/-- **Push**: the new event joins the back of the queue; if that fills the last slot, the
oldest event is dropped from the front. -/
theorem contents_pushEvent (code : UInt16) (value : UInt8) (d : KbdRing) :
    if d.head.next = d.tail then
      contents d ++ [⟨code, value⟩] = d.front :: contents (pushEvent code value d)
    else contents (pushEvent code value d) = contents d ++ [⟨code, value⟩] := by
  have hhead := d.head.isLt
  have htail := d.tail.isLt
  have hwindow := window_store d ⟨code, value⟩
  by_cases hfull : d.head.next = d.tail
  · have hpush : pushEvent code value d = (d.store ⟨code, value⟩).advance := if_pos hfull
    rw [if_pos hfull, hpush, ← hwindow]
    have hheld : (d.store ⟨code, value⟩).advance.held = d.held := by
      rw [Fin.ext_iff] at hfull
      simp only [KbdRing.held, KbdRing.advance, KbdRing.store, Cursor.next, bufSize] at *
      omega
    have hfront : (d.store ⟨code, value⟩).cell d.tail = d.front := by
      rw [KbdRing.cell_store, KbdRing.front_eq_cell, Function.update_of_ne]
      rw [Fin.ext_iff] at hfull
      simp only [Cursor.next, bufSize] at hfull hhead
      omega
    rw [Circular.window_cons htail, hfront, contents, hheld]
    rfl
  · have hpush : pushEvent code value d = d.store ⟨code, value⟩ := if_neg hfull
    rw [if_neg hfull, hpush, ← hwindow, contents]
    have hheld : (d.store ⟨code, value⟩).held = d.held + 1 := by
      rw [Fin.ext_iff] at hfull
      simp only [KbdRing.held, KbdRing.store, Cursor.next, bufSize] at *
      omega
    rw [hheld]
    rfl

end KbdmonChrdev

end KernelModules
