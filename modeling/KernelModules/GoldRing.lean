import KernelModules.GoldDevice
import KernelModules.Circular

/-!
# The ring of `gold_dev`

The ring stores its state three times over — `head`, `tail` and `size` — and the
invariant `RingInv` says that the three agree. Under it the device holds a queue
of bytes, `contents`, read off from `tail` in ring order.

One iteration of a loop is one push (`contents_put`) or one pop
(`contents_drop`); `readLoop_spec` and `writeLoop_spec` follow a loop to its end,
by induction on the iterations left, wherever the ring wraps and wherever user
memory faults. The critical sections are then described by how many bytes they
move (`readMoves`, `writeMoves`), and later modules never look inside a loop.
-/

namespace KernelModules

namespace GoldDevice

/-- The ring as a function from slots to bytes. -/
def GoldDev.cell (d : GoldDev) (i : ℕ) : UInt8 := d.buffer.getD i 0

/-- The bytes held, oldest first: `size` cells from `tail` on. -/
def contents (d : GoldDev) : List UInt8 :=
  Circular.window d.cell bufSize d.tail d.size

/-- The three fields describe one ring. -/
structure RingInv (d : GoldDev) : Prop where
  /-- `head` is a slot -/
  head_lt : d.head < bufSize
  /-- `tail` is a slot -/
  tail_lt : d.tail < bufSize
  /-- no more bytes than slots -/
  size_le : d.size ≤ bufSize
  /-- `head` is `size` slots after `tail` -/
  head_eq : d.head = (d.tail + d.size) % bufSize

theorem ringInv_goldInit : RingInv goldInit :=
  ⟨by decide, by decide, by decide, by decide⟩

@[simp] theorem length_contents (d : GoldDev) : (contents d).length = d.size :=
  Circular.length_window ..

@[simp] theorem bufferEmpty_eq_true {d : GoldDev} : bufferEmpty d = true ↔ d.size = 0 := by
  simp [bufferEmpty]

@[simp] theorem bufferEmpty_eq_false {d : GoldDev} : bufferEmpty d = false ↔ d.size ≠ 0 := by
  simp [bufferEmpty]

@[simp] theorem bufferFull_eq_true {d : GoldDev} :
    bufferFull d = true ↔ d.size = bufSize := by
  simp [bufferFull]

@[simp] theorem bufferFull_eq_false {d : GoldDev} :
    bufferFull d = false ↔ d.size ≠ bufSize := by
  simp [bufferFull]

theorem bufSize_pos : 0 < bufSize := by decide

/-! ## One byte in, one byte out -/

@[simp] theorem GoldDev.put_size (d : GoldDev) (c : UInt8) : (d.put c).size = d.size + 1 := rfl

/-- Storing at `head` changes that cell only. -/
theorem cell_put {d : GoldDev} (h : d.head < bufSize) (c : UInt8) :
    (d.put c).cell = Function.update d.cell d.head c := by
  funext i
  by_cases hi : i = d.head
  · subst hi
    rw [Function.update_self]
    simp [GoldDev.cell, GoldDev.put, Vector.getD, h]
  · rw [Function.update_of_ne hi]
    simp [GoldDev.cell, GoldDev.put, Vector.getD, Ne.symm hi]

theorem RingInv.put {d : GoldDev} (h : RingInv d) (hfull : d.size < bufSize) (c : UInt8) :
    RingInv (d.put c) where
  head_lt := Nat.mod_lt _ bufSize_pos
  tail_lt := h.tail_lt
  size_le := hfull
  head_eq := by
    change (d.head + 1) % bufSize = (d.tail + (d.size + 1)) % bufSize
    rw [h.head_eq, Nat.mod_add_mod, Nat.add_assoc]

/-- **Push**: a byte stored at `head` joins the back of the queue. -/
theorem contents_put {d : GoldDev} (h : RingInv d) (hfull : d.size < bufSize) (c : UInt8) :
    contents (d.put c) = contents d ++ [c] := by
  change Circular.window (d.put c).cell bufSize d.tail (d.size + 1) = _
  rw [cell_put h.head_lt, h.head_eq]
  exact Circular.window_push hfull ..

theorem RingInv.drop {d : GoldDev} (h : RingInv d) (hne : d.size ≠ 0) : RingInv d.drop where
  head_lt := h.head_lt
  tail_lt := Nat.mod_lt _ bufSize_pos
  size_le := (Nat.sub_le ..).trans h.size_le
  head_eq := by
    change d.head = ((d.tail + 1) % bufSize + (d.size - 1)) % bufSize
    rw [h.head_eq, Nat.mod_add_mod]
    congr 1
    omega

/-- **Pop**: the byte at `tail` is the front of the queue. -/
theorem contents_drop {d : GoldDev} (h : RingInv d) (hne : d.size ≠ 0) :
    contents d = d.front :: contents d.drop := by
  obtain ⟨n, hn⟩ : ∃ n, d.size = n + 1 := ⟨d.size - 1, by omega⟩
  have hsize : d.drop.size = n := by
    change d.size - 1 = n
    omega
  rw [contents, contents, hn, hsize]
  exact Circular.window_cons h.tail_lt ..

/-! ## The loops -/

/-- The loop of `gold_read` hands out the front of the queue, byte by byte, as far
as the count, the queue and user memory allow. -/
theorem readLoop_spec (buf : UserDst) : ∀ (todo copied : ℕ) {d : GoldDev}, RingInv d →
    let k := reach buf copied (min todo d.size)
    let e := readLoop buf todo copied d
    RingInv e.dev ∧ contents d = e.out ++ contents e.dev ∧ e.out.length = k ∧
      e.copied = if k = min todo d.size then some (copied + k) else none := by
  intro todo
  induction todo with
  | zero =>
    intro copied d h
    refine ⟨h, rfl, ?_⟩
    rw [Nat.zero_min]
    exact ⟨rfl, rfl⟩
  | succ todo ih =>
    intro copied d h
    by_cases hempty : d.size = 0
    · -- nothing left to read
      rw [readLoop, if_pos (bufferEmpty_eq_true.mpr hempty), hempty, Nat.min_zero]
      exact ⟨h, rfl, rfl, rfl⟩
    · obtain ⟨n, hn⟩ : ∃ n, d.size = n + 1 := ⟨d.size - 1, by omega⟩
      have hmin : min (todo + 1) d.size = min todo d.drop.size + 1 := by
        change _ = min todo (d.size - 1) + 1
        omega
      rw [readLoop, if_neg (by simpa using hempty), hmin, reach]
      by_cases hok : buf copied = true
      · -- one byte moves, and the rest of the loop moves the rest
        obtain ⟨hinv, hcont, hlen, hcopied⟩ := ih (copied + 1) (h.drop hempty)
        rw [if_pos hok, if_pos hok]
        refine ⟨hinv, ?_, ?_, ?_⟩
        · rw [contents_drop h hempty, hcont]
          rfl
        · rw [List.length_cons, hlen]
        · simp only [hcopied, Nat.add_right_cancel_iff]
          congr 2
          omega
      · -- the access faults before anything moves
        rw [if_neg hok, if_neg hok]
        exact ⟨h, rfl, rfl, by rw [if_neg (by omega)]⟩

/-- The offsets of a source buffer that can be read. -/
def readable (buf : UserSrc) (i : ℕ) : Bool := (buf i).isSome

/-- The loop of `gold_write` appends the buffer to the queue, byte by byte, as far
as the count, the free space and user memory allow. -/
theorem writeLoop_spec (buf : UserSrc) : ∀ (todo copied : ℕ) {d : GoldDev}, RingInv d →
    let k := reach (readable buf) copied (min todo (bufSize - d.size))
    let e := writeLoop buf todo copied d
    RingInv e.dev ∧ contents e.dev = contents d ++ buf.bytes copied k ∧ e.out = [] ∧
      e.copied = if k = min todo (bufSize - d.size) then some (copied + k) else none := by
  intro todo
  induction todo with
  | zero =>
    intro copied d h
    rw [Nat.zero_min]
    exact ⟨h, (List.append_nil _).symm, rfl, rfl⟩
  | succ todo ih =>
    intro copied d h
    by_cases hfull : d.size = bufSize
    · -- no slot left
      rw [writeLoop, if_pos (bufferFull_eq_true.mpr hfull), hfull, Nat.sub_self, Nat.min_zero]
      exact ⟨h, (List.append_nil _).symm, rfl, rfl⟩
    · have hlt : d.size < bufSize := lt_of_le_of_ne h.size_le hfull
      have hmin : min (todo + 1) (bufSize - d.size) =
          min todo (bufSize - (d.size + 1)) + 1 := by omega
      rw [writeLoop, if_neg (by simpa using hfull), hmin, reach]
      rcases hbuf : buf copied with _ | c
      · -- the access faults before anything moves
        have hno : ¬ readable buf copied = true := by simp [readable, hbuf]
        rw [if_neg hno]
        exact ⟨h, (List.append_nil _).symm, rfl, by rw [if_neg (by omega)]⟩
      · -- one byte moves, and the rest of the loop moves the rest
        have hok : readable buf copied = true := by simp [readable, hbuf]
        obtain ⟨hinv, hcont, hout, hcopied⟩ :=
          ih (copied + 1) (h.put hlt c)
        simp only [GoldDev.put_size] at hcont hcopied
        rw [if_pos hok]
        refine ⟨hinv, ?_, hout, ?_⟩
        · rw [hcont, contents_put h hlt, UserSrc.bytes_succ, hbuf, List.append_assoc]
          rfl
        · simp only [hcopied, Nat.add_right_cancel_iff]
          congr 2
          omega

/-! ## The critical sections -/

/-- How many bytes a `gold_read` moves: as many as it asks for and the ring holds,
or up to the first that cannot be stored. -/
def readMoves (buf : UserDst) (count : ℕ) (d : GoldDev) : ℕ :=
  reach buf 0 (min count d.size)

/-- How many bytes a `gold_write` moves: as many as it offers and the ring has room
for, or up to the first that cannot be fetched. -/
def writeMoves (buf : UserSrc) (count : ℕ) (d : GoldDev) : ℕ :=
  reach (readable buf) 0 (min count (bufSize - d.size))

theorem readMoves_le (buf : UserDst) (count : ℕ) (d : GoldDev) :
    readMoves buf count d ≤ min count d.size := reach_le ..

theorem writeMoves_le (buf : UserSrc) (count : ℕ) (d : GoldDev) :
    writeMoves buf count d ≤ min count (bufSize - d.size) := reach_le ..

/-- What the critical section of `gold_read` does to the queue, and the three ways
it can end. -/
theorem goldReadLocked_spec {d : GoldDev} (h : RingInv d) (ctx : FileCtx) (buf : UserDst)
    (count : ℕ) :
    let k := readMoves buf count d
    let o := goldReadLocked ctx buf count d
    RingInv o.next ∧ contents o.next = (contents d).drop k ∧
      o.ret.out = (contents d).take k ∧
      (ctx.nonblocking = true ∧ d.size = 0 ∧ o.ret.code = -eagain ∧ o.wakes = none ∨
        k = min count d.size ∧ o.ret.code = k ∧ o.wakes = some .writeQueue ∨
        k < min count d.size ∧ o.ret.code = -efault ∧ o.wakes = none) := by
  intro k o
  by_cases hagain : (ctx.nonblocking && bufferEmpty d) = true
  · -- `-EAGAIN`: the ring is empty, so there was nothing to move
    have ho : o = ⟨d, .error eagain, none⟩ := if_pos hagain
    obtain ⟨hnb, hempty⟩ := Bool.and_eq_true_iff.mp hagain
    have hsize : d.size = 0 := bufferEmpty_eq_true.mp hempty
    have hk : k = 0 := by
      have := readMoves_le buf count d
      omega
    rw [ho, hk]
    exact ⟨h, rfl, rfl, .inl ⟨hnb, hsize, rfl, rfl⟩⟩
  · have ho : o = (readLoop buf count 0 d).finish .writeQueue := if_neg hagain
    obtain ⟨hinv, hcont, hlen, hcopied⟩ := readLoop_spec buf count 0 h
    have hlen' : (readLoop buf count 0 d).out.length = k := hlen
    have hend : (readLoop buf count 0 d).copied =
        if k = min count d.size then some (0 + k) else none := hcopied
    have hnext : o.next = (readLoop buf count 0 d).dev := by
      rw [ho, LoopExit.finish]
      split <;> rfl
    have hout : o.ret.out = (readLoop buf count 0 d).out := by
      rw [ho, LoopExit.finish]
      split <;> rfl
    rw [hnext, hout]
    refine ⟨hinv, ?_, ?_, .inr ?_⟩
    · rw [hcont, ← hlen', List.drop_left]
    · rw [hcont, ← hlen', List.take_left]
    · by_cases hall : k = min count d.size
      · rw [if_pos hall, Nat.zero_add] at hend
        rw [ho, LoopExit.finish, hend]
        exact .inl ⟨hall, rfl, rfl⟩
      · rw [if_neg hall] at hend
        rw [ho, LoopExit.finish, hend]
        have := readMoves_le buf count d
        exact .inr ⟨by omega, rfl, rfl⟩

/-- What the critical section of `gold_write` does to the queue, and the three ways
it can end. -/
theorem goldWriteLocked_spec {d : GoldDev} (h : RingInv d) (ctx : FileCtx) (buf : UserSrc)
    (count : ℕ) :
    let k := writeMoves buf count d
    let o := goldWriteLocked ctx buf count d
    RingInv o.next ∧ contents o.next = contents d ++ buf.bytes 0 k ∧ o.ret.out = [] ∧
      (ctx.nonblocking = true ∧ d.size = bufSize ∧ o.ret.code = -eagain ∧ o.wakes = none ∨
        k = min count (bufSize - d.size) ∧ o.ret.code = k ∧ o.wakes = some .readQueue ∨
        k < min count (bufSize - d.size) ∧ o.ret.code = -efault ∧ o.wakes = none) := by
  intro k o
  by_cases hagain : (ctx.nonblocking && bufferFull d) = true
  · -- `-EAGAIN`: the ring is full, so there was no room for anything
    have ho : o = ⟨d, .error eagain, none⟩ := if_pos hagain
    obtain ⟨hnb, hfull⟩ := Bool.and_eq_true_iff.mp hagain
    have hsize : d.size = bufSize := bufferFull_eq_true.mp hfull
    have hk : k = 0 := by
      have := writeMoves_le buf count d
      omega
    rw [ho, hk]
    exact ⟨h, (List.append_nil _).symm, rfl, .inl ⟨hnb, hsize, rfl, rfl⟩⟩
  · have ho : o = (writeLoop buf count 0 d).finish .readQueue := if_neg hagain
    obtain ⟨hinv, hcont, hout, hcopied⟩ := writeLoop_spec buf count 0 h
    have hend : (writeLoop buf count 0 d).copied =
        if k = min count (bufSize - d.size) then some (0 + k) else none := hcopied
    have hnext : o.next = (writeLoop buf count 0 d).dev := by
      rw [ho, LoopExit.finish]
      split <;> rfl
    have hout' : o.ret.out = (writeLoop buf count 0 d).out := by
      rw [ho, LoopExit.finish]
      split <;> rfl
    rw [hnext, hout']
    refine ⟨hinv, hcont, hout, .inr ?_⟩
    by_cases hall : k = min count (bufSize - d.size)
    · rw [if_pos hall, Nat.zero_add] at hend
      rw [ho, LoopExit.finish, hend]
      exact .inl ⟨hall, rfl, rfl⟩
    · rw [if_neg hall] at hend
      rw [ho, LoopExit.finish, hend]
      have := writeMoves_le buf count d
      exact .inr ⟨by omega, rfl, rfl⟩

/-- The queue after a `gold_read` is shorter by what it moved. -/
theorem size_goldReadLocked {d : GoldDev} (h : RingInv d) (ctx : FileCtx) (buf : UserDst)
    (count : ℕ) :
    (goldReadLocked ctx buf count d).next.size = d.size - readMoves buf count d := by
  obtain ⟨-, hcont, -⟩ := goldReadLocked_spec h ctx buf count
  simpa using congrArg List.length hcont

/-- The queue after a `gold_write` is longer by what it moved. -/
theorem size_goldWriteLocked {d : GoldDev} (h : RingInv d) (ctx : FileCtx) (buf : UserSrc)
    (count : ℕ) :
    (goldWriteLocked ctx buf count d).next.size = d.size + writeMoves buf count d := by
  obtain ⟨-, hcont, -⟩ := goldWriteLocked_spec h ctx buf count
  simpa using congrArg List.length hcont

theorem ringInv_goldReset (d : GoldDev) : RingInv (goldReset d).next :=
  ⟨bufSize_pos, bufSize_pos, Nat.zero_le _, rfl⟩

/-- Every critical section keeps the ring invariant. -/
theorem ringInv_goldBody {d : GoldDev} (h : RingInv d) (c : GoldCall) :
    RingInv (goldBody c d).next := by
  cases c with
  | read ctx buf count => exact (goldReadLocked_spec h ctx buf count).1
  | write ctx buf count => exact (goldWriteLocked_spec h ctx buf count).1
  | poll => exact h
  | ioctl cmd arg =>
    rw [goldBody]
    split
    · exact ringInv_goldReset d
    · exact h

/-- A state of any number of tasks on the device. -/
abbrev GoldState (Tid : Type) : Type := Monitor.State GoldDev GoldQueue GoldCall Ret Tid

/-- The ring is well-formed in every reachable state, whichever steps are left out. -/
theorem ringInv_reachable {Tid : Type} [DecidableEq Tid]
    {P : GoldState Tid → Monitor.Act GoldCall Tid → Prop} {s : GoldState Tid}
    (hs : ((goldMonitor.lts Tid goldInit).restrict P).Reachable s) : RingInv s.dev :=
  (Monitor.dev_inductive ringInv_goldInit fun c _ h => ringInv_goldBody h c).reachable hs

end GoldDevice

end KernelModules
