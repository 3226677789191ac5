import KernelModules.FixedMessages

/-!
# Failed calls on `fixed_dev`

A call that returns an error has not changed the device, with one exception: `my_write` copies
from the user straight into the buffer, so a copy that fails halfway has written over a message
that is still pending, while `data_size` says that it is all there.

* `pending`, `Same` — what a reader can tell of the device;
* `Harmless` — the copy of a write succeeds, or puts nothing new where the message is;
* `failed_call_iff` — the calls that change nothing when they fail.
-/

namespace KernelModules

namespace FixedDevice

/-- The message on the device: `buffer[0..data_size)`. -/
def pending (d : FixedDev) : List UInt8 := d.buffer.toList.take d.dataSize

/-- The device is as it was, as far as a reader or an `ioctl` can tell. -/
structure Same (d d' : FixedDev) : Prop where
  /-- `data_size` -/
  size : d'.dataSize = d.dataSize
  /-- `blocking_mode` -/
  mode : d'.blockingMode = d.blockingMode
  /-- the message -/
  message : pending d' = pending d

theorem Same.refl (d : FixedDev) : Same d d := ⟨rfl, rfl, rfl⟩

/-- A write whose copy succeeds, or fails with no byte of the message changed: what is copied is
what was there, and what is zeroed was zero. -/
def Harmless (d : FixedDev) : FixedCall → Prop
  | .write userBuf count =>
    userBuf.left (min count bufSize) = 0 ∨
      ∀ (i : ℕ) (hi : i < bufSize), i < d.dataSize → i < min count bufSize →
        (if i < min count bufSize - userBuf.left (min count bufSize) then userBuf.byte i else 0) =
          d.buffer[i]
  | .read _ _ | .ioctl _ _ => True

/-- An `ioctl` that takes the lock does not fail. -/
theorem myIoctlLocked_code (cmd : ℕ) (arg : Option ℤ) (d : FixedDev) :
    (myIoctlLocked cmd arg d).ret.code = 0 := by
  rw [myIoctlLocked]
  split <;> rfl

/-- A read that fails has not touched the device. -/
theorem myReadLocked_failed {nonblocking : Bool} {userBuf : UserDst} {count : ℕ} {d : FixedDev}
    (h : (myReadLocked nonblocking userBuf count d).ret.code < 0) :
    (myReadLocked nonblocking userBuf count d).next = d := by
  rcases myReadLocked_cases nonblocking userBuf count d with
    ⟨-, -, ho⟩ | ⟨-, -, ho⟩ | ⟨-, -, ho⟩
  · rw [ho]
  · rw [ho] at h
    exact absurd h (Int.not_lt.mpr (Int.natCast_nonneg _))
  · rw [ho]

/-- Two buffers hold the same message if and only if they agree byte by byte. -/
theorem take_eq_take_iff {b b' : Vector UInt8 bufSize} {n : ℕ} :
    b'.toList.take n = b.toList.take n ↔
      ∀ (i : ℕ) (hi : i < bufSize), i < n → b'[i] = b[i] := by
  refine ⟨fun h i hi hn => ?_, fun h => ?_⟩
  · have hget := congrArg (·[i]?) h
    simpa [List.getElem?_take, hn, hi] using hget
  · refine List.ext_getElem (by simp) fun i hi _ => ?_
    rw [List.length_take, Vector.length_toList] at hi
    simpa using h i (Nat.lt_of_lt_of_le hi (Nat.min_le_right _ _))
      (Nat.lt_of_lt_of_le hi (Nat.min_le_left _ _))

/-- A failed copy leaves the message if and only if each byte it puts there is the old one. -/
theorem pending_copyFromUser_iff (d : FixedDev) (userBuf : UserBlock) (n : ℕ) :
    pending { d with buffer := copyFromUser d.buffer userBuf n } = pending d ↔
      ∀ (i : ℕ) (hi : i < bufSize), i < d.dataSize → i < n →
        (if i < n - userBuf.left n then userBuf.byte i else 0) = d.buffer[i] := by
  rw [pending, pending, take_eq_take_iff]
  refine forall_congr' fun i => forall_congr' fun hi => forall_congr' fun _ => ?_
  rw [copyFromUser, Vector.getElem_mapIdx, UserBlock.fill]
  by_cases hn : i < n
  · simp [hn]
  · have hcopied : ¬i < n - userBuf.left n := by omega
    simp [hn, hcopied]

/-- A write that fails leaves the message if and only if it is harmless. -/
theorem myWriteLocked_failed {userBuf : UserBlock} {count : ℕ} {d : FixedDev}
    (h : (myWriteLocked userBuf count d).ret.code < 0) :
    Same d (myWriteLocked userBuf count d).next ↔ Harmless d (.write userBuf count) := by
  rcases myWriteLocked_cases userBuf count d with ⟨-, ho⟩ | ⟨hleft, ho⟩
  · rw [ho] at h
    exact absurd h (Int.not_lt.mpr (Int.natCast_nonneg _))
  · rw [ho, Harmless, or_iff_right hleft, ← pending_copyFromUser_iff]
    exact ⟨Same.message, fun hsame => ⟨rfl, rfl, hsame⟩⟩

/-- A harmless call that fails changes nothing. -/
theorem Harmless.same {d d' : FixedDev} {c : FixedCall} {r : Ret} (h : Harmless d c)
    (hend : fixedMonitor.Ends c d d' r) (hcode : r.code < 0) : Same d d' := by
  cases hend with
  | finish _ | waitError _ | lockError _ => exact .refl d
  | served via =>
    cases c with
    | read userBuf count =>
      change Same d (myReadLocked via.isNone userBuf count d).next
      rw [myReadLocked_failed hcode]
      exact .refl d
    | write userBuf count => exact (myWriteLocked_failed hcode).mpr h
    | ioctl cmd arg =>
      change (myIoctlLocked cmd arg d).ret.code < 0 at hcode
      rw [myIoctlLocked_code] at hcode
      exact absurd hcode (by decide)

/-- **A failed call changes nothing** unless it is a write whose copy fails and puts something
new where the message is. -/
theorem failed_call_iff (d : FixedDev) (c : FixedCall) :
    (∀ d' r, fixedMonitor.Ends c d d' r → r.code < 0 → Same d d') ↔ Harmless d c := by
  refine ⟨fun h => ?_, fun h d' r hend hcode => h.same hend hcode⟩
  cases c with
  | read _ _ | ioctl _ _ => trivial
  | write userBuf count =>
    rcases myWriteLocked_cases userBuf count d with ⟨hleft, -⟩ | ⟨-, ho⟩
    · exact .inl hleft
    · have hcode : (myWriteLocked userBuf count d).ret.code < 0 := by
        rw [ho]
        exact (by decide : (Ret.error efault).code < 0)
      exact (myWriteLocked_failed hcode).mp (h _ _ (.served none) hcode)

/-- The message `ab`, and a copy of `cd` that fails after its first byte. -/
theorem failed_write_changes_message :
    let d : FixedDev := (myWriteLocked (.ofList [97, 98]) 2 fixedInit).next
    let userBuf : UserBlock :=
      ⟨fun i => [99, 100].getD i 0, fun n => n - 1, fun n => Nat.sub_le n 1⟩
    ∃ d' r, fixedMonitor.Ends (.write userBuf 2) d d' r ∧ r.code = -14 ∧
      pending d = [97, 98] ∧ pending d' = [99, 0] :=
  ⟨_, _, .served none, by decide +kernel, by decide +kernel, by decide +kernel⟩

end FixedDevice

end KernelModules
