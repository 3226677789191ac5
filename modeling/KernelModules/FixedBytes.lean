import KernelModules.FixedMessages
import KernelModules.SmallSteps

/-!
# `fixed_dev`, one statement at a time

`my_read` and `my_write` copy their bytes under `lock` and assign to `data_size` in a statement of
its own, while the wait of `my_read` looks at `data_size`, and `my_read` at `blocking_mode`, without
the lock. A copy that faults leaves in the buffer what it has copied, and zeroes.

* `FixedPlace`, `fixedSteps` — the critical sections, byte by byte and statement by statement;
* `fixedSteps_implements` — a section that is left alone does what `fixedBody` does;
* `sizeAt`, `byteAt` — the message and its bytes, as the history of writes, reads and resets has
  them;
* `fixed_bytes` — **what a read returns**, to the byte and with all faults: each byte is the one
  that the last write which reached its place has left there.
-/

namespace KernelModules

namespace FixedDevice

open Monitor (Served)

/-! ## The sections -/

/-- How far a critical section has got. -/
inductive FixedPlace where
  /-- the lock is held, nothing is done yet -/
  | entered (c : FixedCall) (via : Option FixedQueue)
  /-- in `copy_to_user`, with the bytes it has stored -/
  | copyOut (userBuf : UserDst) (toCopy copied : ℕ) (out : List UInt8)
  /-- in `copy_from_user` -/
  | copyIn (userBuf : UserBlock) (toCopy copied : ℕ)
  /-- at `mutex_unlock`, with what is returned and who is woken -/
  | unlock (ret : Ret) (wake : Option FixedQueue)

/-- The statement at each place. -/
def fixedStmt : FixedPlace → FixedDev → Stmt FixedDev FixedPlace FixedQueue Ret
  | .entered (.read userBuf count) via, d =>
    if via.isNone && d.dataSize == 0 then .done ⟨d, .error eagain, none⟩
    else .more d (.copyOut userBuf (min count d.dataSize) 0 [])
  | .entered (.write userBuf count) _, d => .more d (.copyIn userBuf (min count bufSize) 0)
  | .entered (.ioctl cmd arg) _, d =>
    if cmd = ioctlReset then .more { d with dataSize := 0 } (.unlock ⟨0, []⟩ none)
    else .more { d with blockingMode := arg.getD d.blockingMode } (.unlock ⟨0, []⟩ none)
  | .copyOut userBuf toCopy copied out, d =>
    if copied < toCopy then
      if userBuf copied then
        .more d (.copyOut userBuf toCopy (copied + 1) (out ++ d.buffer.toList[copied]?.toList))
      else .done ⟨d, .error efault, none⟩
    -- `data_size = 0`
    else .more { d with dataSize := 0 } (.unlock ⟨toCopy, out⟩ none)
  | .copyIn userBuf toCopy copied, d =>
    if copied < toCopy then
      let buffer := d.buffer.mapIdx fun i old =>
        if i = copied then userBuf.fill toCopy i old else old
      .more { d with buffer := buffer } (.copyIn userBuf toCopy (copied + 1))
    else if userBuf.left toCopy = 0 then
      -- `data_size = to_copy`
      .more { d with dataSize := toCopy } (.unlock ⟨toCopy, []⟩ (some .readQueue))
    else .done ⟨d, .error efault, none⟩
  | .unlock ret wake, d => .done ⟨d, ret, wake⟩

/-- The critical sections in small steps. -/
def fixedSteps : SmallSteps FixedDev FixedQueue FixedCall Ret FixedPlace where
  first := .entered
  stmt := fixedStmt

/-! ## Left alone, they do what `fixedBody` does -/

/-- The rest of `copy_to_user`. -/
theorem leads_copyOut (userBuf : UserDst) (toCopy : ℕ) (d : FixedDev) (todo copied : ℕ)
    (hle : copied + todo = toCopy) (hok : ∀ i < copied, userBuf i = true) :
    fixedSteps.Leads (.copyOut userBuf toCopy copied (d.buffer.toList.take copied)) d
      (if userBuf.accepts toCopy then
        ⟨{ d with dataSize := 0 }, ⟨toCopy, d.buffer.toList.take toCopy⟩, none⟩
      else ⟨d, .error efault, none⟩) := by
  induction todo generalizing copied with
  | zero =>
    obtain rfl : copied = toCopy := hle
    have haccepts : userBuf.accepts copied = true := by
      rw [UserDst.accepts, List.all_eq_true]
      exact fun i hi => hok i (List.mem_range.mp hi)
    rw [if_pos haccepts]
    exact .more (if_neg (lt_irrefl copied)) (.done rfl)
  | succ todo ih =>
    have hlt : copied < toCopy := by omega
    cases hcopied : userBuf copied with
    | false =>
      have hrejects : ¬ userBuf.accepts toCopy = true := by
        rw [UserDst.accepts, List.all_eq_true]
        intro hall
        rw [hall copied (List.mem_range.mpr hlt)] at hcopied
        cases hcopied
      rw [if_neg hrejects]
      exact .done (by simp only [fixedSteps, fixedStmt, if_pos hlt, hcopied, Bool.false_eq_true,
        if_false])
    | true =>
      have hrest := ih (copied + 1) (by omega) fun i hi => by
        rcases Nat.lt_succ_iff_lt_or_eq.mp hi with hi | rfl
        · exact hok i hi
        · exact hcopied
      rw [List.take_add_one] at hrest
      exact .more (by simp only [fixedSteps, fixedStmt, if_pos hlt, hcopied, if_true]) hrest

/-- The rest of `copy_from_user`, with the first bytes in place. -/
theorem leads_copyIn (userBuf : UserBlock) (toCopy : ℕ) (d₀ : FixedDev) (todo copied : ℕ)
    (hle : copied + todo = toCopy) (d : FixedDev)
    (hd : d = { d₀ with buffer := d₀.buffer.mapIdx fun i old =>
      if i < copied then userBuf.fill toCopy i old else old }) :
    fixedSteps.Leads (.copyIn userBuf toCopy copied) d
      (if userBuf.left toCopy = 0 then
        ⟨{ d₀ with buffer := copyFromUser d₀.buffer userBuf toCopy, dataSize := toCopy },
          ⟨toCopy, []⟩, some .readQueue⟩
      else ⟨{ d₀ with buffer := copyFromUser d₀.buffer userBuf toCopy }, .error efault, none⟩) := by
  induction todo generalizing copied d with
  | zero =>
    obtain rfl : copied = toCopy := hle
    have hbuffer : d = { d₀ with buffer := copyFromUser d₀.buffer userBuf copied } := by
      rw [hd, copyFromUser]
      congr 1
      refine Vector.ext fun i hi => ?_
      simp only [Vector.getElem_mapIdx, UserBlock.fill]
      have hsub := Nat.sub_le copied (userBuf.left copied)
      split
      · rfl
      · next hge => rw [if_neg fun h => hge (h.trans_le hsub)]
    subst hbuffer
    split
    · next hleft =>
      exact .more ((if_neg (lt_irrefl copied)).trans (if_pos hleft)) (.done rfl)
    · next hleft => exact .done ((if_neg (lt_irrefl copied)).trans (if_neg hleft))
  | succ todo ih =>
    have hlt : copied < toCopy := by omega
    refine .more (if_pos hlt) (ih (copied + 1) (by omega) _ ?_)
    rw [hd]
    congr 1
    refine Vector.ext fun i hi => ?_
    simp only [Vector.getElem_mapIdx]
    rcases lt_trichotomy i copied with h | rfl | h
    · rw [if_neg h.ne, if_pos h, if_pos (h.trans (Nat.lt_succ_self copied))]
    · rw [if_pos rfl, if_neg (lt_irrefl i), if_pos (Nat.lt_succ_self i)]
    · rw [if_neg h.ne', if_neg h.not_gt, if_neg (Nat.not_lt.mpr h)]

/-- **A section that is left alone** does what `fixedBody` does in one step. -/
theorem fixedSteps_implements : fixedSteps.Implements fixedMonitor := by
  intro c via d
  change fixedSteps.Leads (.entered c via) d (fixedBody c via d)
  cases c with
  | read userBuf count =>
    rw [fixedBody, myReadLocked]
    by_cases hagain : (via.isNone && d.dataSize == 0) = true
    · rw [if_pos hagain]
      exact .done (if_pos hagain)
    · rw [if_neg hagain]
      refine .more (if_neg hagain) ?_
      exact leads_copyOut userBuf _ d _ 0 (Nat.zero_add _) fun i hi => absurd hi (Nat.not_lt_zero i)
  | write userBuf count =>
    rw [fixedBody, myWriteLocked]
    refine .more rfl (leads_copyIn userBuf _ d _ 0 (Nat.zero_add _) d ?_)
    have hsame : d.buffer.mapIdx (fun _ old => old) = d.buffer :=
      Vector.ext fun i hi => Vector.getElem_mapIdx ..
    simp only [Nat.not_lt_zero, if_false, hsame]
  | ioctl cmd arg =>
    rw [fixedBody, myIoctlLocked]
    split
    · next hcmd => exact .more (if_pos hcmd) (.done rfl)
    · next hcmd => exact .more (if_neg hcmd) (.done rfl)

/-! ## What others see in the middle of a section -/

/-- Up to the last statement a section leaves alone what is looked at without the lock. -/
def Unseen (d₀ : FixedDev) (k : FixedPlace) (d : FixedDev) : Prop :=
  match k with
  | .entered .. | .copyOut .. | .copyIn .. =>
    d.dataSize = d₀.dataSize ∧ d.blockingMode = d₀.blockingMode
  | .unlock .. => True

theorem Unseen.more {d₀ d d' : FixedDev} {k k' : FixedPlace} (h : Unseen d₀ k d)
    (hstmt : fixedStmt k d = .more d' k') : Unseen d₀ k' d' := by
  unfold fixedStmt at hstmt
  split at hstmt <;> (repeat' split at hstmt) <;> cases hstmt <;> first
    | exact trivial
    | exact h

/-- **An unlocked look** in the middle of a section sees what it would have seen in front of it
or behind it. -/
theorem unseen_or_next {d₀ d : FixedDev} {k : FixedPlace}
    {o : Outcome FixedDev FixedQueue Ret} (h : Unseen d₀ k d) (hleads : fixedSteps.Leads k d o) :
    (d.dataSize = d₀.dataSize ∧ d.blockingMode = d₀.blockingMode) ∨ d = o.next := by
  cases k
  case entered | copyOut | copyIn => exact .inl h
  case unlock ret wake =>
    cases hleads with
    | done hdone =>
      cases hdone
      exact .inr rfl
    | more hmore _ => cases hmore

/-! ## The message, as the history has it -/

/-- A write that reached byte `j` of the buffer, whether it faulted or not. -/
def reaches (j : ℕ) (e : FixedServed) : Bool :=
  match e.call with
  | .write _ count => decide (j < min count bufSize)
  | .read .. | .ioctl .. => false

/-- What it has left there: its own byte, or zero from its fault on. -/
def leaves (j : ℕ) (e : FixedServed) : UInt8 :=
  match e.call with
  | .write userBuf count => userBuf.fill (min count bufSize) j 0
  | .read .. | .ioctl .. => 0

/-- Byte `j` of the buffer. -/
def byteAt (log : List FixedServed) (j : ℕ) : UInt8 := (latest (reaches j) log).elim 0 (leaves j)

/-- A write or a read that did not fail, or a reset. -/
def sizes (e : FixedServed) : Bool :=
  match e.call with
  | .read .. | .write .. => decide (0 ≤ e.ret.code)
  | .ioctl cmd _ => decide (cmd = ioctlReset)

/-- The length of the message it has left. -/
def leavesSize (e : FixedServed) : ℕ :=
  match e.call with
  | .write _ count => min count bufSize
  | .read .. | .ioctl .. => 0

/-- The length of the message. -/
def sizeAt (log : List FixedServed) : ℕ := (latest sizes log).elim 0 leavesSize

/-- The first bytes of the message. -/
def messageAt (log : List FixedServed) (n : ℕ) : List UInt8 := (List.range n).map (byteAt log)

/-- What a read returns after a history. -/
def readAfter (log : List FixedServed) (nonblocking : Bool) (userBuf : UserDst) (count : ℕ) : Ret :=
  if nonblocking && sizeAt log == 0 then .error eagain
  else
    let toCopy := min count (sizeAt log)
    if userBuf.accepts toCopy then ⟨toCopy, messageAt log toCopy⟩ else .error efault

/-- The device is as the history has it. -/
structure Kept (d : FixedDev) (log : List FixedServed) : Prop where
  /-- the length of the message -/
  size : d.dataSize = sizeAt log
  /-- which fits -/
  size_le : d.dataSize ≤ bufSize
  /-- the bytes of the buffer -/
  byte : ∀ (j : ℕ) (hj : j < bufSize), d.buffer[j] = byteAt log j
  /-- what each read has returned -/
  reads : ∀ pre e post, log = pre ++ e :: post → ∀ userBuf count, e.call = .read userBuf count →
    e.ret = readAfter pre e.via.isNone userBuf count

variable {d : FixedDev} {log : List FixedServed}

/-- What a read hands out is what the history has. -/
theorem Kept.take (h : Kept d log) {n : ℕ} (hn : n ≤ bufSize) :
    d.buffer.toList.take n = messageAt log n := by
  apply List.ext_getElem
  · simp [messageAt, hn]
  · intro j hj _
    rw [List.length_take] at hj
    have hlt : j < bufSize := by omega
    rw [List.getElem_take, Vector.getElem_toList, h.byte j hlt]
    simp [messageAt]

/-- A section that neither writes nor changes the length of the message. -/
theorem Kept.idle (h : Kept d log) {d' : FixedDev} {e : FixedServed}
    (hwrite : ∀ j, reaches j e = false) (hbuffer : d'.buffer = d.buffer)
    (hsize : d'.dataSize = if sizes e then leavesSize e else d.dataSize)
    (hread : ∀ userBuf count, e.call = .read userBuf count →
      e.ret = readAfter log e.via.isNone userBuf count) (hle : d'.dataSize ≤ bufSize) :
    Kept d' (log ++ [e]) where
  size := by
    rw [sizeAt, latest_concat, hsize, h.size, sizeAt]
    split <;> rfl
  size_le := hle
  byte j hj := by
    simp only [byteAt, latest_concat, hwrite j, Bool.false_eq_true, if_false, hbuffer]
    exact h.byte j hj
  reads := forall_split_concat.mpr ⟨h.reads, hread⟩

/-- A read keeps the device as the history has it. -/
theorem Kept.read (h : Kept d log) (userBuf : UserDst) (count : ℕ) (via : Option FixedQueue) :
    Kept (myReadLocked via.isNone userBuf count d).next
      (log ++ [⟨.read userBuf count, via, (myReadLocked via.isNone userBuf count d).ret⟩]) := by
  have hn : min count (sizeAt log) ≤ bufSize :=
    (min_le_right ..).trans (h.size ▸ h.size_le)
  have hret : (myReadLocked via.isNone userBuf count d).ret =
      readAfter log via.isNone userBuf count := by
    simp only [myReadLocked, readAfter, h.size, h.take hn]
    split
    · rfl
    · split <;> rfl
  have hread : ∀ {r : Ret}, r = (myReadLocked via.isNone userBuf count d).ret →
      ∀ userBuf' count', FixedCall.read userBuf count = .read userBuf' count' →
        r = readAfter log via.isNone userBuf' count' := by
    rintro r rfl _ _ hcall
    cases hcall
    exact hret
  rcases myReadLocked_cases via.isNone userBuf count d with
    ⟨-, -, ho⟩ | ⟨-, -, ho⟩ | ⟨-, -, ho⟩
  · refine h.idle (fun _ => rfl) (by rw [ho]) ?_ (hread rfl) (by rw [ho]; exact h.size_le)
    rw [ho]
    rfl
  · refine h.idle (fun _ => rfl) (by rw [ho]) ?_ (hread rfl) (by rw [ho]; exact Nat.zero_le _)
    rw [ho]
    simp [sizes, leavesSize]
  · refine h.idle (fun _ => rfl) (by rw [ho]) ?_ (hread rfl) (by rw [ho]; exact h.size_le)
    rw [ho]
    rfl

/-- So does a write, whether it faults or not. -/
theorem Kept.write (h : Kept d log) (userBuf : UserBlock) (count : ℕ) (via : Option FixedQueue) :
    Kept (myWriteLocked userBuf count d).next
      (log ++ [⟨.write userBuf count, via, (myWriteLocked userBuf count d).ret⟩]) := by
  have hbytes : ∀ (r : Ret) (j : ℕ) (hj : j < bufSize),
      (copyFromUser d.buffer userBuf (min count bufSize))[j] =
        byteAt (log ++ [⟨.write userBuf count, via, r⟩]) j := by
    intro r j hj
    rw [copyFromUser, Vector.getElem_mapIdx, byteAt, latest_concat]
    by_cases hlt : j < min count bufSize
    · rw [if_pos (by exact decide_eq_true hlt)]
      simp only [Option.elim_some, leaves, UserBlock.fill, if_pos hlt]
    · rw [if_neg (by simpa [reaches] using hlt), ← byteAt, ← h.byte j hj, UserBlock.fill,
        if_neg (by omega), if_neg hlt]
  have hreads : ∀ r : Ret, ∀ pre e post,
      log ++ [(⟨.write userBuf count, via, r⟩ : FixedServed)] = pre ++ e :: post →
      ∀ userBuf count, e.call = .read userBuf count →
        e.ret = readAfter pre e.via.isNone userBuf count :=
    fun r => forall_split_concat.mpr ⟨h.reads, fun _ _ hcall => by cases hcall⟩
  rcases myWriteLocked_cases userBuf count d with ⟨-, ho⟩ | ⟨-, ho⟩
  · rw [ho]
    refine ⟨?_, min_le_right .., hbytes _, hreads _⟩
    rw [sizeAt, latest_concat, if_pos (by simp [sizes])]
    rfl
  · rw [ho]
    refine ⟨?_, h.size_le, hbytes _, hreads _⟩
    rw [sizeAt, latest_concat, if_neg (by simp [sizes, Ret.error, efault])]
    exact h.size

/-- So does an `ioctl`. -/
theorem Kept.ioctl (h : Kept d log) (cmd : ℕ) (arg : Option ℤ) (via : Option FixedQueue) :
    Kept (myIoctlLocked cmd arg d).next
      (log ++ [⟨.ioctl cmd arg, via, (myIoctlLocked cmd arg d).ret⟩]) := by
  by_cases hcmd : cmd = ioctlReset
  · rw [myIoctlLocked, if_pos hcmd]
    refine h.idle (fun _ => rfl) rfl ?_ (fun _ _ hcall => by cases hcall) (Nat.zero_le _)
    simp [sizes, leavesSize, hcmd]
  · rw [myIoctlLocked, if_neg hcmd]
    refine h.idle (fun _ => rfl) rfl ?_ (fun _ _ hcall => by cases hcall) h.size_le
    simp [sizes, hcmd]

/-- After any sections the device is as the history has it. -/
theorem kept_serveAll (ops : List (FixedCall × Option FixedQueue)) :
    Kept (fixedMonitor.serveAll fixedInit ops).1 (fixedMonitor.serveAll fixedInit ops).2 := by
  refine Monitor.serveAll_inductive (J := Kept) ?_ ?_ ops
  · refine ⟨rfl, Nat.zero_le _, fun j hj => ?_, fun pre e post heq => ?_⟩
    · exact Vector.getElem_replicate hj
    · cases pre <;> cases heq
  · intro d log c via h
    cases c with
    | read userBuf count => exact h.read userBuf count via
    | write userBuf count => exact h.write userBuf count via
    | ioctl cmd arg => exact h.ioctl cmd arg via

/-! ## The device -/

/-- Any number of tasks on the device, with sections in small steps. -/
abbrev FixedFine (Tid : Type) : Type :=
  SmallSteps.State FixedDev FixedQueue FixedCall Ret FixedPlace Tid

/-- **What a read of `fixed_dev` returns**, to the byte, in every run and wherever a copy faults:
`-EAGAIN` in non-blocking mode when the last write, read or reset that did not fail has left
nothing, `-EFAULT` when its own copy faults, and otherwise as much as was asked for of the message
whose length that call has left, each byte the one that the last write which reached its place has
put there, or zero where that write faulted before it. With a step for each byte and the other tasks in between, a section that is under way can
get to its end by itself, and does there what it would do in one step; who looks at the mode or at
`data_size` without the lock sees what it would have seen in front of the section or behind it. -/
theorem fixed_bytes {Tid : Type} [DecidableEq Tid] {s : FixedFine Tid}
    (hs : (fixedSteps.lts fixedMonitor Tid fixedInit).Reachable s) :
    (∀ pre e post, s.outer.log = pre ++ e :: post → ∀ userBuf count, e.call = .read userBuf count →
      e.ret = readAfter pre e.via.isNone userBuf count) ∧
    ∃ d, (s.inside = none → s.outer.dev = d) ∧ ∀ i, s.inside = some i →
      (∃ n, (fixedSteps.lts fixedMonitor Tid fixedInit).Run s (List.replicate n .work)
        ⟨s.outer.serve i.tid i.call i.via (fixedBody i.call i.via d), none⟩) ∧
      ((s.outer.dev.dataSize = d.dataSize ∧ s.outer.dev.blockingMode = d.blockingMode) ∨
        s.outer.dev = (fixedBody i.call i.via d).next) := by
  obtain ⟨d, hatomic⟩ := (SmallSteps.atomic_inductive (J := fun _ _ d₀ k d => Unseen d₀ k d)
    fixedSteps_implements (fun _ _ _ => ⟨rfl, rfl⟩) Unseen.more).reachable hs
  have hkept := kept_serveAll (s.outer.log.map Served.op)
  rw [hatomic.serial] at hkept
  refine ⟨hkept.reads, d, hatomic.free, fun i hi => ?_⟩
  obtain ⟨hleads, hunseen⟩ := hatomic.busy i hi
  exact ⟨SmallSteps.exists_finish hleads hi rfl rfl, unseen_or_next hunseen hleads⟩

/-- A write of four bytes; one that faults after its first byte; and a read, which has stored one
byte when it is stopped. -/
def mixed : List (SmallSteps.Act FixedCall Monitor.Duo) :=
  let faulty : UserBlock := ⟨fun _ => 9, fun n => n - 1, fun n => Nat.sub_le n 1⟩
  let call (c : FixedCall) (n : ℕ) : List (SmallSteps.Act FixedCall Monitor.Duo) :=
    [.task (.call .one c), .task (.enter .one), .task (.lock .one)] ++ List.replicate n .work
  call (.write (.ofList [1, 2, 3, 4]) 4) 7 ++ [.task (.leave .one)] ++ call (.write faulty 2) 4 ++
    [.task (.leave .one), .task (.call .one (.ioctl ioctlSetBlocking (some 0))),
      .task (.enter .one), .task (.lock .one), .work, .work, .task (.leave .one)] ++
    call (.read (fun _ => true) 3) 6

/-- The call is a read. -/
def isRead : FixedCall → Bool
  | .read .. => true
  | .write .. | .ioctl .. => false

/-- The read returns the byte of the second write, the zero behind it, and a byte of the first. -/
theorem fixed_bytes_mixed : ∃ s : FixedFine Monitor.Duo,
    (fixedSteps.lts fixedMonitor Monitor.Duo fixedInit).Reachable s ∧
      ∃ pre e userBuf count, s.outer.log = pre ++ [e] ∧ e.call = .read userBuf count ∧
        e.ret = ⟨3, [9, 0, 3]⟩ ∧ e.ret = readAfter pre e.via.isNone userBuf count := by
  have hmap : (mixed.foldlM (fixedSteps.next fixedMonitor)
      (⟨Monitor.start fixedInit, none⟩ : FixedFine Monitor.Duo)).map
      (fun s => s.outer.log.getLast?.map fun e => (e.ret, isRead e.call)) =
        some (some (⟨3, [9, 0, 3]⟩, true)) := by decide +kernel
  obtain ⟨s, hrun, hseen⟩ := Lts.exists_run_of_map _ _ hmap
  obtain ⟨e, hlast, he⟩ := Option.map_eq_some_iff.mp hseen
  obtain ⟨hret, hread⟩ := Prod.mk.inj he
  obtain ⟨pre, hlog⟩ := List.getLast?_eq_some_iff.mp hlast
  have hs := hrun.reachable rfl
  obtain ⟨userBuf, count, hcall⟩ : ∃ userBuf count, e.call = .read userBuf count := by
    cases hcall : e.call with
    | read userBuf count => exact ⟨userBuf, count, rfl⟩
    | write | ioctl => rw [hcall] at hread; cases hread
  exact ⟨s, hs, pre, e, userBuf, count, hlog, hcall, hret,
    (fixed_bytes hs).1 pre e [] hlog userBuf count hcall⟩

end FixedDevice

end KernelModules
