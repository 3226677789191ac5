import KernelModules.GoldFifo

/-!
# Waiting on `gold_dev`

A blocking call waits outside the lock and takes the lock afterwards without looking
again, and a call wakes a queue after it has released the lock, if at all. Two things
can go wrong, and each goes wrong in one way only:

* a wake-up is lost when a call that faults midway ends an empty or a full ring: it
  leaves through the `-EFAULT` path, which wakes nobody (`SilentlyOpens`);
* a blocking call returns 0 when a section empties or fills the ring while the task is
  between its wait and its lock (`Spoils`).

For each, every run without such a step is fine (`gold_no_lost_wakeup`,
`gold_blocking_moves_bytes`), and any such step taken at the wrong moment breaks it.
-/

namespace KernelModules

namespace GoldDevice

/-! ## Wake-ups -/

/-- The section makes the condition of a queue true on its way to a fault: a write that
puts a first byte into an empty ring, or a read that takes a first byte out of a full
one, and then faults at a later byte. -/
def SilentlyOpens (d : GoldDev) : GoldCall → GoldQueue → Prop
  | .write _ buf count, .readQueue =>
    d.size = 0 ∧ FaultsMidway (readable buf) (min count bufSize)
  | .read _ buf count, .writeQueue => d.size = bufSize ∧ FaultsMidway buf (min count bufSize)
  | _, _ => False

instance (ok : ℕ → Bool) (n : ℕ) : Decidable (FaultsMidway ok n) :=
  inferInstanceAs (Decidable (_ ∧ _))

instance (d : GoldDev) (c : GoldCall) (q : GoldQueue) : Decidable (SilentlyOpens d c q) :=
  match c, q with
  | .write .., .readQueue => inferInstanceAs (Decidable (_ ∧ _))
  | .read .., .writeQueue => inferInstanceAs (Decidable (_ ∧ _))
  | .read .., .readQueue | .write .., .writeQueue | .poll, _ | .ioctl .., _ => isFalse id

/-- The section makes no condition true on its way to a fault. -/
def NoSilentChange (c : GoldCall) (d : GoldDev) : Prop :=
  ¬ SilentlyOpens d c .readQueue ∧ ¬ SilentlyOpens d c .writeQueue

instance (c : GoldCall) (d : GoldDev) : Decidable (NoSilentChange c d) :=
  inferInstanceAs (Decidable (_ ∧ _))

theorem NoSilentChange.not_opens {c : GoldCall} {d : GoldDev} (h : NoSilentChange c d)
    (q : GoldQueue) : ¬ SilentlyOpens d c q := by
  cases q with
  | readQueue => exact h.1
  | writeQueue => exact h.2

/-- A reader's condition in terms of the queue. -/
theorem goldCond_readQueue {d : GoldDev} : goldCond .readQueue d = true ↔ d.size ≠ 0 := by
  simp [goldCond]

/-- A writer's condition in terms of the queue. -/
theorem goldCond_writeQueue {d : GoldDev} :
    goldCond .writeQueue d = true ↔ d.size ≠ bufSize := by
  simp [goldCond]

/-- A read of a full ring opens it for writers without waking them exactly when it takes
a first byte and faults at a later one. -/
theorem read_silent_iff {d : GoldDev} (h : RingInv d) (ctx : FileCtx) (buf : UserDst)
    (count : ℕ) :
    let o := goldReadLocked ctx buf count d
    d.size = bufSize ∧ FaultsMidway buf (min count bufSize) ↔
      d.size = bufSize ∧ o.next.size ≠ bufSize ∧ o.wakes ≠ some .writeQueue := by
  intro o
  apply and_congr_right
  intro hfull
  have hsize : o.next.size = d.size - readMoves buf count d := size_goldReadLocked h ctx buf count
  have hle := readMoves_le buf count d
  have hpos := bufSize_pos
  obtain ⟨-, -, -, hcase⟩ := goldReadLocked_spec h ctx buf count
  have hmid : FaultsMidway buf (min count bufSize) ↔
      0 < readMoves buf count d ∧ readMoves buf count d < min count d.size := by
    rw [readMoves, hfull]
    exact faultsMidway_iff
  rw [hmid]
  rcases hcase with ⟨-, hempty, -⟩ | ⟨hall, -, hwakes⟩ | ⟨hlt, -, hwakes⟩
  · omega
  · -- the read was served to the end, and wakes the writers
    have hw : o.wakes = some .writeQueue := hwakes
    simp [hw, hall]
  · have hw : o.wakes = none := hwakes
    simp only [hw, ne_eq, reduceCtorEq, not_false_eq_true, and_true, hlt]
    omega

/-- A write to an empty ring opens it for readers without waking them exactly when it
puts in a first byte and faults at a later one. -/
theorem write_silent_iff {d : GoldDev} (h : RingInv d) (ctx : FileCtx) (buf : UserSrc)
    (count : ℕ) :
    let o := goldWriteLocked ctx buf count d
    d.size = 0 ∧ FaultsMidway (readable buf) (min count bufSize) ↔
      d.size = 0 ∧ o.next.size ≠ 0 ∧ o.wakes ≠ some .readQueue := by
  intro o
  apply and_congr_right
  intro hempty
  have hsize : o.next.size = d.size + writeMoves buf count d := size_goldWriteLocked h ctx buf count
  have hle := writeMoves_le buf count d
  have hpos := bufSize_pos
  obtain ⟨-, -, -, hcase⟩ := goldWriteLocked_spec h ctx buf count
  have hmid : FaultsMidway (readable buf) (min count bufSize) ↔
      0 < writeMoves buf count d ∧ writeMoves buf count d < min count (bufSize - d.size) := by
    rw [writeMoves, hempty]
    exact faultsMidway_iff
  rw [hmid]
  rcases hcase with ⟨-, hfull, -⟩ | ⟨hall, -, hwakes⟩ | ⟨hlt, -, hwakes⟩
  · omega
  · -- the write was served to the end, and wakes the readers
    have hw : o.wakes = some .readQueue := hwakes
    simp [hw, hall]
  · have hw : o.wakes = none := hwakes
    simp only [hw, ne_eq, reduceCtorEq, not_false_eq_true, and_true, hlt]
    omega

/-- `SilentlyOpens` is what its name says: the section makes the condition true and does
not go on to wake the queue. -/
theorem silentlyOpens_iff {d : GoldDev} (h : RingInv d) {c : GoldCall} {q : GoldQueue} :
    SilentlyOpens d c q ↔ ¬ goldCond q d = true ∧ goldCond q (goldBody c d).next = true ∧
      (goldBody c d).wakes ≠ some q := by
  cases c with
  | read ctx buf count =>
    cases q with
    | readQueue =>
      -- taking bytes out does not make an empty ring non-empty
      have hsize := size_goldReadLocked h ctx buf count
      rw [goldCond_readQueue, goldCond_readQueue, not_not]
      refine ⟨False.elim, fun ⟨hempty, hne, _⟩ => hne ?_⟩
      change (goldReadLocked ctx buf count d).next.size = 0
      omega
    | writeQueue =>
      rw [goldCond_writeQueue, goldCond_writeQueue, not_not]
      exact read_silent_iff h ctx buf count
  | write ctx buf count =>
    cases q with
    | readQueue =>
      rw [goldCond_readQueue, goldCond_readQueue, not_not]
      exact write_silent_iff h ctx buf count
    | writeQueue =>
      -- putting bytes in does not make a full ring non-full
      have hsize := size_goldWriteLocked h ctx buf count
      have hle := writeMoves_le buf count d
      rw [goldCond_writeQueue, goldCond_writeQueue, not_not]
      refine ⟨False.elim, fun ⟨hfull, hne, _⟩ => hne ?_⟩
      change (goldWriteLocked ctx buf count d).next.size = bufSize
      omega
  | poll => exact ⟨fun hs => hs.elim, fun hs => hs.1 hs.2.1⟩
  | ioctl cmd arg =>
    refine ⟨fun hs => hs.elim, fun ⟨hbefore, hafter, hwakes⟩ => ?_⟩
    by_cases hcmd : cmd = ioctlReset
    · rw [goldBody, if_pos hcmd] at hafter hwakes
      cases q with
      | readQueue => cases hafter
      | writeQueue => exact hwakes rfl
    · rw [goldBody, if_neg hcmd] at hafter
      exact hbefore hafter

/-- In every run without a silent change, a sleeper whose condition holds has a waker. -/
theorem wakeDue_reachable {Tid : Type} [DecidableEq Tid] {s : GoldState Tid}
    (hs : ((goldMonitor.lts Tid goldInit).restrict
      (Monitor.Allowed (fun _ => True) NoSilentChange)).Reachable s) :
    goldMonitor.WakeDue s := by
  refine Monitor.wakeDue_inductive.reachable (hs.restrict_of ?_)
  intro s a hs hP
  cases a with
  | lock t =>
    intro c via q hp hbefore hafter
    by_contra hwakes
    have hbefore' : ¬ goldCond q s.dev = true := by
      rw [Bool.not_eq_true]
      exact hbefore
    exact (hP.section hp).not_opens q
      ((silentlyOpens_iff (ringInv_reachable hs)).mpr ⟨hbefore', hafter, hwakes⟩)
  | _ => trivial

/-- **No lost wake-up**: in every run in which no section makes a condition true on its
way to a fault, whoever sleeps on a queue whose condition holds is about to be woken by
somebody else. If a section does so while a task sleeps on that queue and nobody is about
to wake it, the task sleeps on, its condition holds, and still nobody will wake it. -/
theorem gold_no_lost_wakeup {Tid : Type} [DecidableEq Tid] (s : GoldState Tid) :
    (((goldMonitor.lts Tid goldInit).restrict
        (Monitor.Allowed (fun _ => True) NoSilentChange)).Reachable s →
      ∀ t,
        (contents s.dev ≠ [] → (s.pc t).sleepsOn = some .readQueue →
          ∃ u, u ≠ t ∧ (s.pc u).toWake = some .readQueue) ∧
        ((contents s.dev).length < 256 → (s.pc t).sleepsOn = some .writeQueue →
          ∃ u, u ≠ t ∧ (s.pc u).toWake = some .writeQueue)) ∧
    ((goldMonitor.lts Tid goldInit).Reachable s →
      ∀ t c via u q, s.pc t = .locking c via → SilentlyOpens s.dev c q →
        (s.pc u).sleepsOn = some q → (∀ v, (s.pc v).toWake ≠ some q) →
        ∃ s', goldMonitor.next s (.lock t) = some s' ∧ goldCond q s'.dev = true ∧
          (s'.pc u).sleepsOn = some q ∧ ∀ v, (s'.pc v).toWake ≠ some q) := by
  constructor
  · intro hs t
    have hdue := wakeDue_reachable hs
    have hinv := ringInv_reachable hs
    refine ⟨fun hne ht => hdue.waker ht (goldCond_readQueue.mpr ?_),
      fun hlt ht => hdue.waker ht (goldCond_writeQueue.mpr ?_)⟩
    · intro hzero
      exact hne (List.length_eq_zero_iff.mp ((length_contents _).trans hzero))
    · rw [length_contents] at hlt
      change s.dev.size < bufSize at hlt
      omega
  · intro hs t c via u q hp hsilent hu hno
    have hinv := ringInv_reachable hs.restrict_true
    obtain ⟨-, hcond, hwakes⟩ := (silentlyOpens_iff hinv).mp hsilent
    refine ⟨_, Monitor.next_lock hp, hcond, ?_, fun v => ?_⟩
    · have hut : u ≠ t := by
        rintro rfl
        rw [hp] at hu
        cases hu
      rw [Monitor.State.serve_pc_ne s hut]
      exact hu
    · by_cases hvt : v = t
      · rw [hvt, Monitor.State.serve_pc_self]
        exact hwakes
      · rw [Monitor.State.serve_pc_ne s hvt]
        exact hno v

/-! ### A sleeping reader and a writer -/

/-- A blocking one-byte read. -/
def readByte : GoldCall := .read ⟨false⟩ (fun _ => true) 1

/-- A blocking one-byte write. -/
def writeByte : GoldCall := .write ⟨false⟩ (fun _ => some 87) 1

/-- A blocking two-byte write whose second byte faults. -/
def faultyWrite : GoldCall := .write ⟨false⟩ (fun i => if i = 0 then some 87 else none) 2

/-- The one task sleeps on the empty ring; the other is at the lock with its write. -/
def sleeperAndWriter (c : GoldCall) : List (Monitor.Act GoldCall Monitor.Duo) :=
  Monitor.Act.toSleep .one readByte ++ Monitor.Act.toLock .two c

/-- A reader sleeps on the empty ring: after a one-byte write the writer has still to
wake it, after a write that faults at its second byte nobody has. -/
theorem gold_no_lost_wakeup_writer :
    (∃ s, ((goldMonitor.lts Monitor.Duo goldInit).restrict
        (Monitor.Allowed (fun _ => True) NoSilentChange)).Reachable s ∧
      contents s.dev ≠ [] ∧ (s.pc .one).sleepsOn = some .readQueue ∧
      ∃ u, u ≠ .one ∧ (s.pc u).toWake = some .readQueue) ∧
    ∃ s s', (goldMonitor.lts Monitor.Duo goldInit).Reachable s ∧
      goldMonitor.next s (.lock .two) = some s' ∧ goldCond .readQueue s'.dev = true ∧
      (s'.pc .one).sleepsOn = some .readQueue ∧ ∀ v, (s'.pc v).toWake ≠ some .readQueue := by
  constructor
  · have hrun : ∃ s, ((goldMonitor.lts Monitor.Duo goldInit).restrict
          (Monitor.Allowed (fun _ => True) NoSilentChange)).Reachable s ∧
        (s.dev.size, (s.pc .one).sleepsOn) = (1, some .readQueue) :=
      Lts.exists_reachable_of_map (sleeperAndWriter writeByte ++ [.lock .two]) _
        (by decide +kernel)
    obtain ⟨s, hs, hobs⟩ := hrun
    have hsize : s.dev.size = 1 := congrArg Prod.fst hobs
    have hsleep : (s.pc .one).sleepsOn = some .readQueue := congrArg Prod.snd hobs
    have hne : contents s.dev ≠ [] := by
      rw [← List.length_pos_iff, length_contents, hsize]
      exact Nat.one_pos
    exact ⟨s, hs, hne, hsleep, ((gold_no_lost_wakeup s).1 hs .one).1 hne hsleep⟩
  · have hs := Lts.reachable_of_foldlM (.init rfl)
      (rfl : (sleeperAndWriter faultyWrite).foldlM goldMonitor.next
        (Monitor.start goldInit) = some _)
    obtain ⟨s', hnext, hlost⟩ := (gold_no_lost_wakeup _).2 hs .two faultyWrite
      (some .writeQueue) .one .readQueue rfl (by decide +kernel) rfl (by decide +kernel)
    exact ⟨_, s', hs, hnext, hlost⟩

/-- A reader sleeps on the empty ring, a writer stores one byte, faults at the second and
returns: the byte is there, the reader sleeps, and nobody will wake it. -/
theorem gold_fault_loses_wakeup :
    ∃ s, (goldMonitor.lts Monitor.Duo goldInit).Reachable s ∧ (contents s.dev).length = 1 ∧
      (s.pc .one).sleepsOn = some .readQueue ∧ ∀ u, (s.pc u).toWake ≠ some .readQueue := by
  have hrun : ∃ s, ((goldMonitor.lts Monitor.Duo goldInit).restrict fun _ _ => True).Reachable s ∧
      ((contents s.dev).length, (s.pc .one).sleepsOn,
        decide (∀ u, (s.pc u).toWake ≠ some .readQueue)) = (1, some .readQueue, true) :=
    Lts.exists_reachable_of_map (sleeperAndWriter faultyWrite ++ [.lock .two, .leave .two]) _
      (by decide +kernel)
  obtain ⟨s, hs, hobs⟩ := hrun
  simp only [Prod.mk.injEq, decide_eq_true_eq] at hobs
  exact ⟨s, hs.of_restrict, hobs⟩

/-! ## Blocking calls that return 0 -/

/-- The call waits on a queue for bytes to move: it asks for at least one. -/
def AsksOn : GoldCall → GoldQueue → Prop
  | .read _ _ count, .readQueue => 0 < count
  | .write _ _ count, .writeQueue => 0 < count
  | _, _ => False

instance (c : GoldCall) (q : GoldQueue) : Decidable (AsksOn c q) :=
  match c, q with
  | .read _ _ count, .readQueue => inferInstanceAs (Decidable (0 < count))
  | .write _ _ count, .writeQueue => inferInstanceAs (Decidable (0 < count))
  | .read .., .writeQueue | .write .., .readQueue | .poll, _ | .ioctl .., _ => isFalse id

/-- The section leaves the condition of a queue false: a read or a reset that empties
the ring, or a write that fills it. -/
def Spoils (d : GoldDev) : GoldCall → GoldQueue → Prop
  | .read _ buf count, .readQueue => d.size ≤ count ∧ ∀ i < d.size, buf i = true
  | .write _ buf count, .writeQueue =>
    bufSize - d.size ≤ count ∧ ∀ i < bufSize - d.size, readable buf i = true
  | .ioctl cmd _, .readQueue => cmd = ioctlReset
  | _, _ => False

instance (d : GoldDev) (c : GoldCall) (q : GoldQueue) : Decidable (Spoils d c q) :=
  match c, q with
  | .read .., .readQueue => inferInstanceAs (Decidable (_ ∧ _))
  | .write .., .writeQueue => inferInstanceAs (Decidable (_ ∧ _))
  | .ioctl cmd _, .readQueue => inferInstanceAs (Decidable (cmd = ioctlReset))
  | .read .., .writeQueue | .write .., .readQueue | .poll, _ | .ioctl _ _, .writeQueue =>
    isFalse id

/-- A section that spoils a condition leaves it false. -/
theorem cond_of_spoils {d : GoldDev} (h : RingInv d) {c : GoldCall} {q : GoldQueue}
    (hs : Spoils d c q) : goldCond q (goldBody c d).next = false := by
  rw [← Bool.not_eq_true]
  cases c with
  | read ctx buf count =>
    cases q with
    | readQueue =>
      obtain ⟨hcount, hok⟩ := hs
      have hall : readMoves buf count d = d.size := by
        rw [readMoves, min_eq_right hcount]
        exact reach_eq_iff.mpr hok
      have hsize := size_goldReadLocked h ctx buf count
      rw [goldCond_readQueue, not_not]
      change (goldReadLocked ctx buf count d).next.size = 0
      omega
    | writeQueue => exact hs.elim
  | write ctx buf count =>
    cases q with
    | readQueue => exact hs.elim
    | writeQueue =>
      obtain ⟨hcount, hok⟩ := hs
      have hall : writeMoves buf count d = bufSize - d.size := by
        rw [writeMoves, min_eq_right hcount]
        exact reach_eq_iff.mpr hok
      have hsize := size_goldWriteLocked h ctx buf count
      have hle := h.size_le
      rw [goldCond_writeQueue, not_not]
      change (goldWriteLocked ctx buf count d).next.size = bufSize
      omega
  | poll => exact hs.elim
  | ioctl cmd arg =>
    cases q with
    | readQueue =>
      obtain rfl : cmd = ioctlReset := hs
      rw [goldBody, if_pos rfl]
      exact Bool.false_ne_true
    | writeQueue => exact hs.elim

/-- Only such a section makes a condition false that was true. -/
theorem spoils_of_cond {d : GoldDev} (h : RingInv d) {c : GoldCall} {q : GoldQueue}
    (hbefore : goldCond q d = true) (hafter : goldCond q (goldBody c d).next = false) :
    Spoils d c q := by
  rw [← Bool.not_eq_true] at hafter
  cases c with
  | read ctx buf count =>
    have hsize := size_goldReadLocked h ctx buf count
    have hle := readMoves_le buf count d
    change ¬ goldCond q (goldReadLocked ctx buf count d).next = true at hafter
    cases q with
    | readQueue =>
      rw [goldCond_readQueue] at hbefore hafter
      have hcount : d.size ≤ count := by omega
      rw [readMoves, min_eq_right hcount] at hsize hle
      exact ⟨hcount, reach_eq_iff.mp (by omega)⟩
    | writeQueue =>
      have := h.size_le
      rw [goldCond_writeQueue] at hbefore hafter
      omega
  | write ctx buf count =>
    have hsize := size_goldWriteLocked h ctx buf count
    have hle := writeMoves_le buf count d
    change ¬ goldCond q (goldWriteLocked ctx buf count d).next = true at hafter
    cases q with
    | readQueue =>
      rw [goldCond_readQueue] at hbefore hafter
      omega
    | writeQueue =>
      rw [goldCond_writeQueue] at hbefore hafter
      have hcount : bufSize - d.size ≤ count := by omega
      rw [writeMoves, min_eq_right hcount] at hsize hle
      exact ⟨hcount, reach_eq_iff.mp (by omega)⟩
  | poll => exact absurd hbefore hafter
  | ioctl cmd arg =>
    by_cases hcmd : cmd = ioctlReset
    · cases q with
      | readQueue => exact hcmd
      | writeQueue =>
        rw [goldBody, if_pos hcmd] at hafter
        exact absurd rfl hafter
    · rw [goldBody, if_neg hcmd] at hafter
      exact absurd hbefore hafter

/-- No section empties the ring while another reader, or fills it while another writer,
is between its wait and its lock. -/
abbrev Considerate {Tid : Type} (s : GoldState Tid) : Monitor.Act GoldCall Tid → Prop :=
  goldMonitor.Considerate AsksOn Spoils s

/-- In every considerate run, whoever is past its wait still finds its condition true. -/
theorem fresh_reachable {Tid : Type} [DecidableEq Tid] {s : GoldState Tid}
    (hs : ((goldMonitor.lts Tid goldInit).restrict Considerate).Reachable s) :
    goldMonitor.Fresh AsksOn s :=
  Monitor.fresh_reachable (fun hs => spoils_of_cond (ringInv_reachable hs)) hs

/-- A blocking call that asks for at least one byte. -/
def BlockingCall : GoldCall → Prop
  | .read ctx _ count => ctx.nonblocking = false ∧ 0 < count
  | .write ctx _ count => ctx.nonblocking = false ∧ 0 < count
  | _ => False

instance : DecidablePred BlockingCall
  | .read .. | .write .. => inferInstanceAs (Decidable (_ ∧ _))
  | .poll | .ioctl .. => isFalse id

/-- What a blocking section returns: `-EFAULT`, or a count that is 0 exactly when its
condition does not hold. -/
theorem code_of_blocking {d : GoldDev} (h : RingInv d) {c : GoldCall} {q : GoldQueue}
    (hblock : BlockingCall c) (hasks : AsksOn c q) :
    let code := (goldBody c d).ret.code
    code = -efault ∧ goldCond q d = true ∨ 0 ≤ code ∧ (code = 0 ↔ ¬ goldCond q d = true) := by
  cases c with
  | read ctx buf count =>
    cases q with
    | readQueue =>
      change 0 < count at hasks
      rw [goldCond_readQueue]
      obtain ⟨-, -, -, hcase⟩ := goldReadLocked_spec h ctx buf count
      rcases hcase with ⟨hnb, -⟩ | ⟨hall, hcode, -⟩ | ⟨hlt, hcode, -⟩
      · rw [hblock.1] at hnb
        cases hnb
      · refine .inr ?_
        change 0 ≤ (goldReadLocked ctx buf count d).ret.code ∧
          ((goldReadLocked ctx buf count d).ret.code = 0 ↔ _)
        rw [hcode, hall]
        omega
      · exact .inl ⟨hcode, by omega⟩
    | writeQueue => exact hasks.elim
  | write ctx buf count =>
    cases q with
    | readQueue => exact hasks.elim
    | writeQueue =>
      change 0 < count at hasks
      rw [goldCond_writeQueue]
      have hle := h.size_le
      obtain ⟨-, -, -, hcase⟩ := goldWriteLocked_spec h ctx buf count
      rcases hcase with ⟨hnb, -⟩ | ⟨hall, hcode, -⟩ | ⟨hlt, hcode, -⟩
      · rw [hblock.1] at hnb
        cases hnb
      · refine .inr ?_
        change 0 ≤ (goldWriteLocked ctx buf count d).ret.code ∧
          ((goldWriteLocked ctx buf count d).ret.code = 0 ↔ _)
        rw [hcode, hall]
        omega
      · exact .inl ⟨hcode, by omega⟩
  | poll => exact hasks.elim
  | ioctl cmd arg => exact hasks.elim

/-- A section that runs with its condition true and does not fault moves a byte. -/
theorem code_pos_of_cond {d : GoldDev} (h : RingInv d) {c : GoldCall} {q : GoldQueue}
    (hblock : BlockingCall c) (hasks : AsksOn c q) (hcond : goldCond q d = true)
    (hfault : (goldBody c d).ret.code ≠ -efault) : 1 ≤ (goldBody c d).ret.code := by
  rcases code_of_blocking h hblock hasks with ⟨hcode, -⟩ | ⟨hnonneg, hzero⟩
  · exact absurd hcode hfault
  · have hne : (goldBody c d).ret.code ≠ 0 := fun hcode => hzero.mp hcode hcond
    omega

/-- A blocking section that runs with its condition false returns 0. -/
theorem code_zero_of_cond {d : GoldDev} (h : RingInv d) {c : GoldCall} {q : GoldQueue}
    (hblock : BlockingCall c) (hasks : AsksOn c q) (hcond : goldCond q d = false) :
    (goldBody c d).ret.code = 0 := by
  rcases code_of_blocking h hblock hasks with ⟨-, htrue⟩ | ⟨-, hzero⟩
  · exact absurd (htrue.symm.trans hcond) nofun
  · exact hzero.mpr (by rw [hcond]; exact nofun)

/-- A blocking call comes to its lock by the queue it asks on. -/
theorem asksOn_of_routed {c : GoldCall} {via : Option GoldQueue} (hblock : BlockingCall c)
    (hroute : goldMonitor.Routed c via) : ∃ q, via = some q ∧ AsksOn c q := by
  cases c with
  | read ctx buf count =>
    obtain ⟨hnb, hcount⟩ := hblock
    rcases via with _ | q <;> obtain ⟨d, he⟩ := hroute <;>
      simp only [goldMonitor, goldEntry, hnb, Bool.false_eq_true, if_false] at he <;> cases he
    exact ⟨.readQueue, rfl, hcount⟩
  | write ctx buf count =>
    obtain ⟨hnb, hcount⟩ := hblock
    rcases via with _ | q <;> obtain ⟨d, he⟩ := hroute <;>
      simp only [goldMonitor, goldEntry, hnb, Bool.false_eq_true, if_false] at he <;> cases he
    exact ⟨.writeQueue, rfl, hcount⟩
  | poll => exact hblock.elim
  | ioctl cmd arg => exact hblock.elim

/-- A call that comes by a queue it asks on is a blocking one. -/
theorem blocking_of_routed {c : GoldCall} {q : GoldQueue}
    (hroute : goldMonitor.Routed c (some q)) (hasks : AsksOn c q) : BlockingCall c := by
  obtain ⟨d, he⟩ := hroute
  cases c with
  | read ctx buf count =>
    cases q with
    | readQueue =>
      refine ⟨?_, hasks⟩
      by_contra hnb
      rw [Bool.not_eq_false] at hnb
      simp [goldMonitor, goldEntry, hnb] at he
    | writeQueue => exact hasks.elim
  | write ctx buf count =>
    cases q with
    | readQueue => exact hasks.elim
    | writeQueue =>
      refine ⟨?_, hasks⟩
      by_contra hnb
      rw [Bool.not_eq_false] at hnb
      simp [goldMonitor, goldEntry, hnb] at he
  | poll => exact hasks.elim
  | ioctl cmd arg => exact hasks.elim

/-- The history holds no blocking call that moved nothing without a fault. -/
def NoZero (log : List GoldServed) : Prop :=
  ∀ e ∈ log, BlockingCall e.call → e.ret.code ≠ -efault → 1 ≤ e.ret.code

instance : DecidablePred NoZero := fun log =>
  inferInstanceAs (Decidable (∀ e ∈ log, _))

/-- In every considerate run the history stays that way. -/
theorem noZero_reachable {Tid : Type} [DecidableEq Tid] {s : GoldState Tid}
    (hs : ((goldMonitor.lts Tid goldInit).restrict Considerate).Reachable s) :
    NoZero s.log := by
  refine Monitor.served_reachable (fun {s t c via} hs hp hblock hfault => ?_) hs
  obtain ⟨q, rfl, hasks⟩ := asksOn_of_routed hblock (Monitor.routed_reachable hs hp)
  have hpast : (s.pc t).PastWait AsksOn q := Monitor.Pc.pastWait_iff.mpr ⟨c, hp, hasks⟩
  have hcond := fresh_reachable hs t q hpast
  exact code_pos_of_cond (ringInv_reachable hs) hblock hasks hcond hfault

/-- **Blocking calls move bytes**: in every run in which no section empties the ring
while another reader, or fills it while another writer, is between its wait and its
lock, every blocking call that asks for a byte, is not interrupted and does not fault
returns at least 1. A section that does so leaves the other task free to take the lock
next and return 0. -/
theorem gold_blocking_moves_bytes {Tid : Type} [DecidableEq Tid] (s : GoldState Tid) :
    (((goldMonitor.lts Tid goldInit).restrict Considerate).Reachable s →
      ∀ e ∈ s.log, BlockingCall e.call → e.ret.code ≠ -efault → 1 ≤ e.ret.code) ∧
    ((goldMonitor.lts Tid goldInit).Reachable s →
      ∀ t c via u q, s.pc t = .locking c via → Spoils s.dev c q → u ≠ t →
        (s.pc u).PastWait AsksOn q →
        ∃ s₁ s₂ e, goldMonitor.next s (.lock t) = some s₁ ∧
          goldMonitor.next s₁ (.lock u) = some s₂ ∧ s₂.log = s₁.log ++ [e] ∧
          BlockingCall e.call ∧ e.ret.code = 0) := by
  refine ⟨fun hs => noZero_reachable hs, ?_⟩
  intro hs t c via u q hp hspoils hut hpast
  have hinv := ringInv_reachable hs.restrict_true
  obtain ⟨c', hu, hasks, hcond, hnext⟩ :=
    Monitor.stale_of_pastWait (m := goldMonitor) via hut hpast (cond_of_spoils hinv hspoils)
  have hblock := blocking_of_routed (Monitor.routed_reachable hs.restrict_true hu) hasks
  exact ⟨_, _, _, Monitor.next_lock hp, hnext, rfl, hblock,
    code_zero_of_cond (ringInv_goldBody hinv c) hblock hasks hcond⟩

/-! ### A writer and two readers -/

/-- One byte is written and read. -/
def readAlone : List (Monitor.Act GoldCall Monitor.Duo) :=
  Monitor.Act.through .one writeByte ++ Monitor.Act.through .two readByte

/-- One byte is written, and then two readers pass their wait before either takes the
lock. -/
def readersPastWait : List (Monitor.Act GoldCall Monitor.Duo) :=
  Monitor.Act.through .one writeByte ++
    (Monitor.Act.toLock .one readByte ++ Monitor.Act.toLock .two readByte)

/-- A lone reader returns 1; of two readers that pass their wait for one byte, the second
to take the lock returns 0. -/
theorem gold_blocking_moves_bytes_readers :
    (∃ s, ((goldMonitor.lts Monitor.Duo goldInit).restrict Considerate).Reachable s ∧
      s.log.length = 2 ∧
      ∀ e ∈ s.log, BlockingCall e.call → e.ret.code ≠ -efault → 1 ≤ e.ret.code) ∧
    ∃ s s₁ s₂ e, (goldMonitor.lts Monitor.Duo goldInit).Reachable s ∧
      goldMonitor.next s (.lock .one) = some s₁ ∧ goldMonitor.next s₁ (.lock .two) = some s₂ ∧
      s₂.log = s₁.log ++ [e] ∧ BlockingCall e.call ∧ e.ret.code = 0 := by
  constructor
  · have hrun : ∃ s, ((goldMonitor.lts Monitor.Duo goldInit).restrict Considerate).Reachable s ∧
        s.log.length = 2 :=
      Lts.exists_reachable_of_map readAlone _ (by decide +kernel)
    obtain ⟨s, hs, hlen⟩ := hrun
    exact ⟨s, hs, hlen, (gold_blocking_moves_bytes s).1 hs⟩
  · have hs := Lts.reachable_of_foldlM (.init rfl)
      (rfl : readersPastWait.foldlM goldMonitor.next (Monitor.start goldInit) = some _)
    obtain ⟨s₁, s₂, e, hrest⟩ := (gold_blocking_moves_bytes _).2 hs .one readByte
      (some .readQueue) .two .readQueue rfl (by decide +kernel) (by decide) (by decide +kernel)
    exact ⟨_, s₁, s₂, e, hs, hrest⟩

/-- One byte is written and two blocking one-byte readers pass their wait: the first
returns 1, the second neither faults nor returns a byte. -/
theorem gold_blocking_read_returns_zero :
    ∃ s, (goldMonitor.lts Monitor.Duo goldInit).Reachable s ∧
      s.log.map (fun e => e.ret.code) = [1, 1, 0] ∧
      ¬ ∀ e ∈ s.log, BlockingCall e.call → e.ret.code ≠ -efault → 1 ≤ e.ret.code := by
  have hrun : ∃ s, ((goldMonitor.lts Monitor.Duo goldInit).restrict fun _ _ => True).Reachable s ∧
      (s.log.map (fun e => e.ret.code), decide (NoZero s.log)) = ([1, 1, 0], false) :=
    Lts.exists_reachable_of_map (readersPastWait ++ [.lock .one, .lock .two]) _
      (by decide +kernel)
  obtain ⟨s, hs, hobs⟩ := hrun
  exact ⟨s, hs.of_restrict, congrArg Prod.fst hobs,
    of_decide_eq_false (congrArg Prod.snd hobs)⟩

end GoldDevice

end KernelModules
