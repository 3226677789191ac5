import Mathlib.Data.Int.Notation
import Mathlib.Algebra.Order.Ring.Nat

/-!
# What the drivers use of the kernel

Error numbers and error pointers, `ioctl` numbers, and the primitives that cross into
user memory. A user buffer is what the kernel can find out about it: which offsets can be
accessed, and what is read there.

* `UserSrc`, `UserDst` — a buffer read byte by byte with `get_user`, or written
  byte by byte with `put_user`; any offset may fault;
* `UserBlock`, `UserSink` — a buffer read in one go with `copy_from_user`, which
  reports how many bytes it could not copy and zero-fills their place, or written
  in one go with `copy_to_user`, which reports them too;
* `reach` — how far a byte loop gets before its first fault.
-/

namespace KernelModules

/-! ## Error numbers -/

/-- `EINTR` -/
def eintr : ℤ := 4
/-- `EAGAIN` -/
def eagain : ℤ := 11
/-- `ENOMEM` -/
def enomem : ℤ := 12
/-- `EFAULT` -/
def efault : ℤ := 14
/-- `EEXIST` -/
def eexist : ℤ := 17
/-- `ENODEV` -/
def enodev : ℤ := 19
/-- `EINVAL` -/
def einval : ℤ := 22
/-- `ENOTTY` -/
def enotty : ℤ := 25

/-- What a kernel function that allocates hands back. -/
inductive Ptr (α : Type*) where
  /-- `NULL` -/
  | null
  /-- an error pointer, `ERR_PTR(-errno)` -/
  | err (errno : ℤ)
  /-- a pointer to the object -/
  | obj (a : α)
  deriving DecidableEq

/-- What a file operation hands back: its return value, and the bytes it stored in
the caller's buffer. -/
structure Ret where
  /-- the value returned to the caller -/
  code : ℤ
  /-- the bytes stored in the caller's buffer -/
  out : List UInt8
  deriving DecidableEq

/-- A failure: a negative return value and nothing stored. -/
def Ret.error (errno : ℤ) : Ret := ⟨-errno, []⟩

/-! ## Command numbers of `ioctl` -/

/-- `_IOC(dir, type, nr, size)` -/
def ioc (dir type nr size : ℕ) : ℕ := dir * 2 ^ 30 + size * 2 ^ 16 + type * 2 ^ 8 + nr

/-- `_IO(type, nr)` -/
def io (type nr : ℕ) : ℕ := ioc 0 type nr 0

/-- `_IOW(type, nr, T)`, with the size of `T` -/
def iow (type nr size : ℕ) : ℕ := ioc 1 type nr size

/-- `_IOR(type, nr, T)`, with the size of `T` -/
def ior (type nr size : ℕ) : ℕ := ioc 2 type nr size

/-- The bytes of a 32-bit `int`, least significant first. -/
def intBytes (n : ℕ) : List UInt8 :=
  (List.range 4).map fun i => UInt8.ofNat (n / 256 ^ i)

/-! ## Buffers accessed byte by byte -/

/-- A buffer `get_user` reads from: the byte at each offset, `none` where the
access faults. -/
abbrev UserSrc := ℕ → Option UInt8

/-- A buffer `put_user` and `copy_to_user` write to: the offsets that can be
written. -/
abbrev UserDst := ℕ → Bool

/-- The `n` bytes of a buffer from an offset on. (Meant for offsets that can be
read; a faulting one counts as zero.) -/
def UserSrc.bytes (buf : UserSrc) (start n : ℕ) : List UInt8 :=
  (List.range' start n).map fun i => (buf i).getD 0

@[simp] theorem UserSrc.length_bytes (buf : UserSrc) (start n : ℕ) :
    (buf.bytes start n).length = n := by
  simp [UserSrc.bytes]

theorem UserSrc.bytes_succ (buf : UserSrc) (start n : ℕ) :
    buf.bytes start (n + 1) = (buf start).getD 0 :: buf.bytes (start + 1) n := rfl

/-- How many of the `n` offsets from `start` on a byte loop gets through before
the first one that faults. -/
def reach (ok : ℕ → Bool) : ℕ → ℕ → ℕ
  | _, 0 => 0
  | start, n + 1 => if ok start then reach ok (start + 1) n + 1 else 0

theorem reach_le (ok : ℕ → Bool) : ∀ start n, reach ok start n ≤ n
  | _, 0 => le_refl 0
  | start, n + 1 => by
      rw [reach]
      split
      · exact Nat.succ_le_succ (reach_le ok (start + 1) n)
      · exact Nat.zero_le _

/-- The offsets a loop gets through do not fault. -/
theorem ok_of_lt_reach {ok : ℕ → Bool} :
    ∀ {n start i : ℕ}, i < reach ok start n → ok (start + i) = true := by
  intro n
  induction n with
  | zero =>
    intro start i hi
    cases hi
  | succ n ih =>
    intro start i hi
    rw [reach] at hi
    split at hi
    · next hok =>
      cases i with
      | zero => exact hok
      | succ i =>
        have := ih (Nat.lt_of_succ_lt_succ hi)
        rwa [Nat.add_right_comm] at this
    · cases hi

/-- A loop that stops short stops at a faulting offset. -/
theorem not_ok_reach {ok : ℕ → Bool} :
    ∀ {n start : ℕ}, reach ok start n < n → ok (start + reach ok start n) = false := by
  intro n
  induction n with
  | zero =>
    intro start hlt
    cases hlt
  | succ n ih =>
    intro start hlt
    rw [reach] at hlt ⊢
    split at hlt
    · next hok =>
      have hrest : ok (start + 1 + reach ok (start + 1) n) = false := ih (by omega)
      rw [if_pos hok, ← hrest]
      congr 1
      omega
    · next hok =>
      rw [if_neg hok]
      simpa using hok

/-- A loop gets all the way exactly when none of its offsets faults. -/
theorem reach_eq_iff {ok : ℕ → Bool} {n : ℕ} :
    reach ok 0 n = n ↔ ∀ i < n, ok i = true := by
  constructor
  · intro h i hi
    have hlt : i < reach ok 0 n := by omega
    have := ok_of_lt_reach hlt
    rwa [Nat.zero_add] at this
  · intro h
    by_contra hne
    have hlt : reach ok 0 n < n := lt_of_le_of_ne (reach_le ok 0 n) hne
    have hfault := not_ok_reach hlt
    rw [Nat.zero_add, h _ hlt] at hfault
    cases hfault

/-- A loop gets nowhere exactly when it has nothing to do or faults at once. -/
theorem reach_eq_zero_iff {ok : ℕ → Bool} {start n : ℕ} :
    reach ok start n = 0 ↔ n = 0 ∨ ok start = false := by
  cases n with
  | zero => simp [reach]
  | succ n => simp [reach]

/-! ## Buffers copied in one go -/

/-- A buffer `copy_from_user` reads from: its bytes, and how many of `n` requested
bytes the copy leaves out. -/
structure UserBlock where
  /-- the bytes of the buffer -/
  byte : ℕ → UInt8
  /-- the number of bytes `copy_from_user` could not copy, for each request -/
  left : ℕ → ℕ
  /-- no more than was asked for -/
  left_le : ∀ n, left n ≤ n

/-- What byte `i` of the destination holds after `copy_from_user(.., .., n)`: the
copied prefix, then zeroes up to `n`, then what was there before. -/
def UserBlock.fill (src : UserBlock) (n i : ℕ) (old : UInt8) : UInt8 :=
  if i < n - src.left n then src.byte i else if i < n then 0 else old

/-- The first `n` bytes of a buffer. -/
def UserBlock.first (src : UserBlock) (n : ℕ) : List UInt8 := (List.range n).map src.byte

@[simp] theorem UserBlock.length_first (src : UserBlock) (n : ℕ) : (src.first n).length = n := by
  simp [UserBlock.first]

theorem UserBlock.take_first (src : UserBlock) (k n : ℕ) :
    (src.first n).take k = src.first (min k n) := by
  rw [UserBlock.first, ← List.map_take, List.take_range]
  rfl

/-- An array after `copy_from_user(array, src, n)`. -/
def copyFromUser {cap : ℕ} (dst : Vector UInt8 cap) (src : UserBlock) (n : ℕ) :
    Vector UInt8 cap :=
  dst.mapIdx fun i old => src.fill n i old

/-- A copy puts in front as many bytes of the source as it copied. -/
theorem take_copied {cap : ℕ} (dst : Vector UInt8 cap) (src : UserBlock) {n : ℕ} (hn : n ≤ cap) :
    (copyFromUser dst src n).toList.take (n - src.left n) = src.first (n - src.left n) := by
  apply List.ext_getElem
  · simp
    omega
  · intro i hi₁ hi₂
    rw [UserBlock.length_first] at hi₂
    simp [copyFromUser, UserBlock.first, UserBlock.fill, hi₂]

/-- A copy that leaves nothing out puts all of them there. -/
theorem take_copyFromUser {cap : ℕ} (dst : Vector UInt8 cap) {src : UserBlock} {n : ℕ}
    (hn : n ≤ cap) (hleft : src.left n = 0) :
    (copyFromUser dst src n).toList.take n = src.first n := by
  have htake := take_copied dst src hn
  rwa [hleft, Nat.sub_zero] at htake

/-- A block of memory after `copy_from_user(block, src, n)`. -/
def copyToBlock (dst : List UInt8) (src : UserBlock) (n : ℕ) : List UInt8 :=
  dst.mapIdx fun i old => src.fill n i old

@[simp] theorem length_copyToBlock (dst : List UInt8) (src : UserBlock) (n : ℕ) :
    (copyToBlock dst src n).length = dst.length :=
  List.length_mapIdx

/-- A copy that leaves nothing out replaces the first bytes and keeps the others. -/
theorem copyToBlock_eq {dst : List UInt8} {src : UserBlock} {n : ℕ} (hn : n ≤ dst.length)
    (hleft : src.left n = 0) : copyToBlock dst src n = src.first n ++ dst.drop n := by
  apply List.ext_getElem
  · simp [hn]
  · intro i hi₁ hi₂
    by_cases hi : i < n
    · rw [List.getElem_append_left (by simpa using hi)]
      simp [copyToBlock, UserBlock.first, UserBlock.fill, hleft, hi]
    · rw [List.getElem_append_right (by simpa using hi)]
      have hshift : n + (i - n) = i := by omega
      simp [copyToBlock, UserBlock.fill, hleft, hi, hshift]

/-- A buffer holding a given message that can be copied without a fault. -/
def UserBlock.ofList (msg : List UInt8) : UserBlock :=
  ⟨fun i => msg.getD i 0, fun _ => 0, fun _ => Nat.zero_le _⟩

/-- The first bytes of such a buffer are the message. -/
theorem UserBlock.first_ofList {msg : List UInt8} {n : ℕ} (hn : n ≤ msg.length) :
    (UserBlock.ofList msg).first n = msg.take n := by
  apply List.ext_getElem
  · simp [hn]
  · intro i hi₁ hi₂
    rw [UserBlock.length_first] at hi₁
    have hi : i < msg.length := by omega
    simp [UserBlock.first, UserBlock.ofList, hi]

/-- A buffer `copy_to_user` writes to in one go, as far as the kernel is told: how many of
`n` bytes the copy leaves out. -/
structure UserSink where
  /-- the number of bytes `copy_to_user` could not copy, for each request -/
  left : ℕ → ℕ
  /-- no more than was asked for -/
  left_le : ∀ n, left n ≤ n

/-- `copy_to_user` of `n` bytes succeeds when every one of them can be written. -/
def UserDst.accepts (dst : UserDst) (n : ℕ) : Bool :=
  (List.range n).all dst

@[simp] theorem UserDst.accepts_zero (dst : UserDst) : dst.accepts 0 = true := rfl

end KernelModules
