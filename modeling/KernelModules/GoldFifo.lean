import KernelModules.GoldRing
import KernelModules.Fifo
import Mathlib.Data.List.Forall2

/-!
# `gold_dev` is a bounded FIFO

The device refines `Fifo UInt8 256`: the abstraction of a ring that satisfies
`RingInv` is the queue it holds, and every critical section is one step of the
queue (`goldBody_refines`), whatever the count, wherever user memory faults.
Serialised over a list of sections this gives the refinement of whole runs and,
through `Fifo.conservation`, that nothing is lost, invented or reordered.

The second half is about calls that fail. A call that faults has already moved
the bytes before the fault and does not move them back, so a failed call leaves
the queue alone exactly when its fault comes at the first byte or not at all.
-/

namespace KernelModules

namespace GoldDevice

/-! ## Refinement -/

/-- The queue a well-formed ring stands for. -/
def RingInv.toFifo {d : GoldDev} (h : RingInv d) : Fifo UInt8 bufSize :=
  ⟨contents d, by rw [length_contents]; exact h.size_le⟩

/-- What a critical section does to the queue. -/
def fifoEvent (d : GoldDev) : GoldCall → FifoEvent UInt8
  | .read _ buf count => .deliver ((contents d).take (readMoves buf count d))
  | .write _ buf count => .accept (buf.bytes 0 (writeMoves buf count d))
  | .poll => .deliver []
  | .ioctl cmd _ => if cmd = ioctlReset then .clear else .deliver []

/-- **Refinement, one section**: every critical section is a step of the abstract
queue. -/
theorem goldBody_refines {d : GoldDev} (h : RingInv d) (c : GoldCall) :
    Fifo.Step h.toFifo (fifoEvent d c) (ringInv_goldBody h c).toFifo := by
  cases c with
  | read ctx buf count =>
    obtain ⟨-, hcont, -⟩ := goldReadLocked_spec h ctx buf count
    refine .deliver _ ?_
    change contents d = _ ++ contents (goldReadLocked ctx buf count d).next
    rw [hcont, List.take_append_drop]
  | write ctx buf count =>
    obtain ⟨-, hcont, -⟩ := goldWriteLocked_spec h ctx buf count
    exact .accept _ hcont
  | poll => exact .deliver [] rfl
  | ioctl cmd arg =>
    by_cases hcmd : cmd = ioctlReset
    · have hempty : (ringInv_goldBody h (.ioctl cmd arg)).toFifo = .empty := by
        apply Fifo.ext
        change contents (goldBody (.ioctl cmd arg) d).next = []
        rw [goldBody, if_pos hcmd]
        rfl
      rw [hempty, fifoEvent, if_pos hcmd]
      exact .clear
    · rw [fifoEvent, if_neg hcmd]
      refine .deliver [] ?_
      change contents d = contents (goldBody (.ioctl cmd arg) d).next
      rw [goldBody, if_neg hcmd]

/-! ## The history of a run -/

/-- A served critical section of the device. -/
abbrev GoldServed : Type := Monitor.Served GoldQueue GoldCall Ret

/-- The bytes a served call returned to a reader. -/
def returned (e : GoldServed) : List UInt8 :=
  match e.call with
  | .read .. => e.ret.out
  | _ => []

/-- The bytes a served call reported as written. -/
def accepted (e : GoldServed) : List UInt8 :=
  match e.call with
  | .write _ buf _ => buf.bytes 0 e.ret.code.toNat
  | _ => []

/-- The served call is an `IOCTL_RESET`. -/
def IsReset (e : GoldServed) : Prop := ∃ arg, e.call = .ioctl ioctlReset arg

/-- An event of the queue tells what a served call did. The byte count of a write
that faulted is not in the history; any prefix of its buffer may have gone in. -/
def Explains (e : GoldServed) (ev : FifoEvent UInt8) : Prop :=
  match e.call with
  | .read .. => ev = .deliver e.ret.out
  | .write _ buf _ => ∃ k, ev = .accept (buf.bytes 0 k) ∧
      (e.ret.code ≠ -efault → k = e.ret.code.toNat)
  | .poll => ev = .deliver []
  | .ioctl cmd _ => ev = if cmd = ioctlReset then .clear else .deliver []

/-- The event of a section explains what the call returned. -/
theorem explains_fifoEvent {d : GoldDev} (h : RingInv d) (c : GoldCall)
    (via : Option GoldQueue) : Explains ⟨c, via, (goldBody c d).ret⟩ (fifoEvent d c) := by
  cases c with
  | read ctx buf count =>
    obtain ⟨-, -, hout, -⟩ := goldReadLocked_spec h ctx buf count
    change FifoEvent.deliver _ = .deliver (goldReadLocked ctx buf count d).ret.out
    rw [hout]
  | write ctx buf count =>
    obtain ⟨-, -, -, hcase⟩ := goldWriteLocked_spec h ctx buf count
    refine ⟨_, rfl, fun hne => ?_⟩
    have hmoves := writeMoves_le buf count d
    change (goldWriteLocked ctx buf count d).ret.code ≠ -efault at hne
    change _ = (goldWriteLocked ctx buf count d).ret.code.toNat
    rcases hcase with ⟨-, hfull, hcode, -⟩ | ⟨-, hcode, -⟩ | ⟨-, hcode, -⟩
    · -- `-EAGAIN`: no room, nothing written
      rw [hcode]
      have : ((-eagain : ℤ)).toNat = 0 := by decide
      omega
    · rw [hcode, Int.toNat_natCast]
    · exact absurd hcode hne
  | poll => rfl
  | ioctl cmd arg => rfl

/-- **Refinement, whole runs**: any list of critical sections is a run of the
abstract queue, event by event, and leaves a well-formed ring. -/
theorem serveAll_refines (ops : List (GoldCall × Option GoldQueue)) :
    ∃ h : RingInv (goldMonitor.serveAll goldInit ops).1, ∃ es,
      List.Forall₂ Explains (goldMonitor.serveAll goldInit ops).2 es ∧
      (Fifo.lts UInt8 bufSize).Run .empty es h.toFifo := by
  refine Monitor.serveAll_inductive (J := fun d log => ∃ h : RingInv d, ∃ es,
    List.Forall₂ Explains log es ∧ (Fifo.lts UInt8 bufSize).Run .empty es h.toFifo) ?_ ?_ ops
  · exact ⟨ringInv_goldInit, [], .nil, .nil⟩
  · rintro d log c via ⟨h, es, hlog, hrun⟩
    refine ⟨ringInv_goldBody h c, es ++ [fifoEvent d c], ?_, hrun.snoc (goldBody_refines h c)⟩
    exact List.rel_append hlog (.cons (explains_fifoEvent h c via) .nil)

/-- What the events of a history without faults and resets hand out and take in. -/
theorem flatMap_explained {log : List GoldServed} {es : List (FifoEvent UInt8)}
    (h : List.Forall₂ Explains log es)
    (hlog : ∀ e ∈ log, ¬ IsReset e ∧ e.ret.code ≠ -efault) :
    es.flatMap FifoEvent.delivered = log.flatMap returned ∧
      es.flatMap FifoEvent.accepted = log.flatMap accepted ∧ FifoEvent.clear ∉ es := by
  induction h with
  | nil => exact ⟨rfl, rfl, List.not_mem_nil⟩
  | @cons e ev log es he _ ih =>
    obtain ⟨hdel, hacc, hclear⟩ := ih fun e he => hlog e (List.mem_cons_of_mem _ he)
    obtain ⟨hreset, hfault⟩ := hlog e (List.mem_cons_self ..)
    obtain ⟨call, via, ret⟩ := e
    have hone : ev.delivered = returned ⟨call, via, ret⟩ ∧
        ev.accepted = accepted ⟨call, via, ret⟩ ∧ ev ≠ .clear := by
      cases call with
      | read ctx buf count =>
        obtain rfl : ev = .deliver ret.out := he
        exact ⟨rfl, rfl, by simp⟩
      | write ctx buf count =>
        obtain ⟨k, rfl, hk⟩ := he
        obtain rfl := hk hfault
        exact ⟨rfl, rfl, by simp⟩
      | poll =>
        obtain rfl : ev = .deliver [] := he
        exact ⟨rfl, rfl, by simp⟩
      | ioctl cmd arg =>
        have hcmd : cmd ≠ ioctlReset := by
          rintro rfl
          exact hreset ⟨arg, rfl⟩
        obtain rfl : ev = .deliver [] := Eq.trans he (if_neg hcmd)
        exact ⟨rfl, rfl, by simp⟩
    obtain ⟨h₁, h₂, h₃⟩ := hone
    simp only [List.flatMap_cons, h₁, h₂, hdel, hacc, true_and]
    intro hmem
    rcases List.mem_cons.mp hmem with rfl | hmem
    · exact h₃ rfl
    · exact hclear hmem

/-- **Conservation**: with no reset and no fault, the bytes returned by all reads
followed by the bytes still queued are the bytes all writes reported, in order. -/
theorem serveAll_conserves (ops : List (GoldCall × Option GoldQueue))
    (hlog : ∀ e ∈ (goldMonitor.serveAll goldInit ops).2,
      ¬ IsReset e ∧ e.ret.code ≠ -efault) :
    (goldMonitor.serveAll goldInit ops).2.flatMap returned ++
        contents (goldMonitor.serveAll goldInit ops).1 =
      (goldMonitor.serveAll goldInit ops).2.flatMap accepted := by
  obtain ⟨h, es, hes, hrun⟩ := serveAll_refines ops
  obtain ⟨hdel, hacc, hclear⟩ := flatMap_explained hes hlog
  have hcons := Fifo.conservation hrun hclear
  rw [hdel, hacc] at hcons
  exact hcons

/-! ## Poll -/

/-- `gold_poll` reports `POLLIN` exactly when there is a byte to read. -/
theorem goldPoll_in (d : GoldDev) : goldPoll d &&& pollIn ≠ 0 ↔ contents d ≠ [] := by
  have hempty : contents d = [] ↔ bufferEmpty d = true := by
    rw [← List.length_eq_zero_iff, length_contents, bufferEmpty_eq_true]
  rw [ne_eq (contents d), hempty, goldPoll]
  cases bufferEmpty d <;> cases bufferFull d <;> decide

/-- `gold_poll` reports `POLLOUT` exactly when there is room for a byte. -/
theorem goldPoll_out {d : GoldDev} (h : RingInv d) :
    goldPoll d &&& pollOut ≠ 0 ↔ (contents d).length < bufSize := by
  have hfull : (contents d).length < bufSize ↔ ¬ bufferFull d = true := by
    rw [length_contents, bufferFull_eq_true]
    have := h.size_le
    omega
  rw [hfull, goldPoll]
  cases bufferEmpty d <;> cases bufferFull d <;> decide

/-- What `gold_read` returns once it has the lock: `-EAGAIN`, how many bytes it has handed out, or
`-EFAULT`. -/
theorem goldReadLocked_code {d : GoldDev} (h : RingInv d) (ctx : FileCtx) (buf : UserDst)
    (count : ℕ) : (goldReadLocked ctx buf count d).ret.code =
      if ctx.nonblocking = true ∧ d.size = 0 then -eagain
      else if readMoves buf count d = min count d.size then (readMoves buf count d : ℤ)
      else -efault := by
  obtain ⟨-, -, -, hcase⟩ := goldReadLocked_spec h ctx buf count
  by_cases hagain : ctx.nonblocking = true ∧ d.size = 0
  · rw [if_pos hagain, goldReadLocked, hagain.1, bufferEmpty_eq_true.mpr hagain.2]
    rfl
  · rw [if_neg hagain]
    obtain ⟨hnb, hempty, -⟩ | ⟨hall, hcode, -⟩ | ⟨hlt, hcode, -⟩ := hcase
    · exact absurd ⟨hnb, hempty⟩ hagain
    · rw [if_pos hall, hcode]
    · rw [if_neg hlt.ne, hcode]

/-- What `gold_write` returns. -/
theorem goldWriteLocked_code {d : GoldDev} (h : RingInv d) (ctx : FileCtx) (buf : UserSrc)
    (count : ℕ) : (goldWriteLocked ctx buf count d).ret.code =
      if ctx.nonblocking = true ∧ d.size = bufSize then -eagain
      else if writeMoves buf count d = min count (bufSize - d.size) then
        (writeMoves buf count d : ℤ)
      else -efault := by
  obtain ⟨-, -, -, hcase⟩ := goldWriteLocked_spec h ctx buf count
  by_cases hagain : ctx.nonblocking = true ∧ d.size = bufSize
  · rw [if_pos hagain, goldWriteLocked, hagain.1, bufferFull_eq_true.mpr hagain.2]
    rfl
  · rw [if_neg hagain]
    obtain ⟨hnb, hfull, -⟩ | ⟨hall, hcode, -⟩ | ⟨hlt, hcode, -⟩ := hcase
    · exact absurd ⟨hnb, hfull⟩ hagain
    · rw [if_pos hall, hcode]
    · rw [if_neg hlt.ne, hcode]

/-- **`gold_dev` is a bounded FIFO byte queue.** However many tasks call at once,
the device is what a list of critical sections makes of it. After any such list
the ring invariant holds and the history is a run of the abstract queue; the next
write appends, the next read removes and hands out, both return how many bytes these
are unless they fail, a reset empties, and `gold_poll` tells what the queue would
allow. With no reset and no fault, what was read and what is still queued is what was
written. -/
theorem goldDev_refines_fifo :
    (∀ (Tid : Type) [DecidableEq Tid] (s : Monitor.State GoldDev GoldQueue GoldCall Ret Tid),
      (goldMonitor.lts Tid goldInit).Reachable s →
        ∃ ops, goldMonitor.serveAll goldInit ops = (s.dev, s.log)) ∧
    ∀ ops : List (GoldCall × Option GoldQueue),
      let d := (goldMonitor.serveAll goldInit ops).1
      let log := (goldMonitor.serveAll goldInit ops).2
      (d.head < 256 ∧ d.tail < 256 ∧ d.size ≤ 256 ∧ d.head = (d.tail + d.size) % 256) ∧
      (∃ es, ∃ q : Fifo UInt8 256, List.Forall₂ Explains log es ∧
        (Fifo.lts UInt8 256).Run .empty es q ∧ q.items = contents d) ∧
      (∀ ctx buf count,
        let k := reach (readable buf) 0 (min count (256 - (contents d).length))
        contents (goldBody (.write ctx buf count) d).next = contents d ++ buf.bytes 0 k ∧
          (goldBody (.write ctx buf count) d).ret.code =
            if ctx.nonblocking = true ∧ (contents d).length = 256 then -eagain
            else if k = min count (256 - (contents d).length) then (k : ℤ) else -efault) ∧
      (∀ ctx buf count,
        let k := reach buf 0 (min count (contents d).length)
        (goldBody (.read ctx buf count) d).ret.out = (contents d).take k ∧
          contents (goldBody (.read ctx buf count) d).next = (contents d).drop k ∧
          (goldBody (.read ctx buf count) d).ret.code =
            if ctx.nonblocking = true ∧ (contents d).length = 0 then -eagain
            else if k = min count (contents d).length then (k : ℤ) else -efault) ∧
      (∀ arg, contents (goldBody (.ioctl ioctlReset arg) d).next = []) ∧
      (goldPoll d &&& pollIn ≠ 0 ↔ contents d ≠ []) ∧
      (goldPoll d &&& pollOut ≠ 0 ↔ (contents d).length < 256) ∧
      ((∀ e ∈ log, ¬ IsReset e ∧ e.ret.code ≠ -efault) →
        log.flatMap returned ++ contents d = log.flatMap accepted) := by
  refine ⟨fun Tid _ s hs => ⟨_, Monitor.reachable_serveAll hs⟩, ?_⟩
  intro ops d log
  obtain ⟨h, es, hes, hrun⟩ := serveAll_refines ops
  refine ⟨⟨h.head_lt, h.tail_lt, h.size_le, h.head_eq⟩, ⟨es, h.toFifo, hes, hrun, rfl⟩,
    ?_, ?_, ?_, goldPoll_in d, goldPoll_out h, serveAll_conserves ops⟩
  · intro ctx buf count
    rw [length_contents]
    exact ⟨(goldWriteLocked_spec h ctx buf count).2.1, goldWriteLocked_code h ctx buf count⟩
  · intro ctx buf count
    rw [length_contents]
    obtain ⟨-, hcont, hout, -⟩ := goldReadLocked_spec h ctx buf count
    exact ⟨hout, hcont, goldReadLocked_code h ctx buf count⟩
  · intro arg
    rfl

/-! ## Failed calls -/

/-- A signal does not stop the call before its critical section. -/
def Reaches (ctx : FileCtx) (intr : Interruption) : Prop :=
  intr = .never ∨ intr = .wait ∧ ctx.nonblocking = true

/-- Of `n` offsets the first can be accessed and some later one cannot. -/
def FaultsMidway (ok : ℕ → Bool) (n : ℕ) : Prop :=
  ok 0 = true ∧ ∃ i < n, ok i = false

/-- A fault midway is a loop that starts and does not finish. -/
theorem faultsMidway_iff {ok : ℕ → Bool} {n : ℕ} :
    FaultsMidway ok n ↔ 0 < reach ok 0 n ∧ reach ok 0 n < n := by
  constructor
  · rintro ⟨hfirst, i, hi, hfault⟩
    have hne : reach ok 0 n ≠ n := by
      intro hall
      have := reach_eq_iff.mp hall i hi
      rw [hfault] at this
      cases this
    have hpos : reach ok 0 n ≠ 0 := by
      intro hzero
      rcases reach_eq_zero_iff.mp hzero with rfl | hno
      · cases hi
      · rw [hfirst] at hno
        cases hno
    have := reach_le ok 0 n
    omega
  · rintro ⟨hpos, hlt⟩
    have hfirst : ok 0 = true := by
      have := ok_of_lt_reach hpos
      rwa [Nat.add_zero] at this
    have hfault := not_ok_reach hlt
    rw [Nat.zero_add] at hfault
    exact ⟨hfirst, _, hlt, hfault⟩

/-- An interrupted call returns an error and touches nothing; any other runs its
critical section. -/
theorem interruptible_cases (ctx : FileCtx) (intr : Interruption) (d : GoldDev)
    (o : Outcome GoldDev GoldQueue Ret) :
    Reaches ctx intr ∧ interruptible ctx intr d o = (o.next, o.ret) ∨
      ¬ Reaches ctx intr ∧ interruptible ctx intr d o = (d, .error eintr) := by
  cases intr with
  | never => exact .inl ⟨.inl rfl, rfl⟩
  | wait =>
    by_cases hnb : ctx.nonblocking = true
    · exact .inl ⟨.inr ⟨rfl, hnb⟩, by simp [interruptible, hnb]⟩
    · exact .inr ⟨by simp [Reaches, hnb], by simp [interruptible, hnb]⟩
  | lock => exact .inr ⟨by simp [Reaches], rfl⟩

/-- A section that moves `k` of the `n` bytes it should move, and returns `-EFAULT` when
that is some but not all, changes the queue and fails in that case only. -/
theorem failure_iff {ctx : FileCtx} {intr : Interruption} {d : GoldDev}
    {o : Outcome GoldDev GoldQueue Ret} {k n : ℕ}
    (hcase : k = 0 ∨ k = n ∧ o.ret.code = k ∨ k < n ∧ o.ret.code = -efault)
    (hsame : contents o.next = contents d ↔ k = 0) :
    ((interruptible ctx intr d o).2.code < 0 →
        contents (interruptible ctx intr d o).1 = contents d) ↔
      ¬ (Reaches ctx intr ∧ 0 < k ∧ k < n) := by
  rcases interruptible_cases ctx intr d o with ⟨hreach, heq⟩ | ⟨hreach, heq⟩
  · rw [heq]
    change (o.ret.code < 0 → contents o.next = contents d) ↔ _
    rw [hsame]
    rcases hcase with hzero | ⟨hall, hcode⟩ | ⟨hlt, hcode⟩
    · simp [hzero]
    · -- everything moved, so the call did not fail
      rw [hcode]
      omega
    · have hneg : o.ret.code < 0 := by
        rw [hcode]
        decide
      simp only [hneg, hreach, hlt, true_and, and_true, forall_const]
      omega
  · rw [heq]
    exact ⟨fun _ hmid => hreach hmid.1, fun _ _ => rfl⟩

/-- A `gold_read` that fails leaves the queue alone unless it faults midway. -/
theorem goldRead_failure {d : GoldDev} (h : RingInv d) (ctx : FileCtx)
    (intr : Interruption) (buf : UserDst) (count : ℕ) :
    ((goldRead ctx intr buf count d).2.code < 0 →
        contents (goldRead ctx intr buf count d).1 = contents d) ↔
      ¬ (Reaches ctx intr ∧ FaultsMidway buf (min count d.size)) := by
  rw [faultsMidway_iff]
  obtain ⟨-, hcont, -, hcase⟩ := goldReadLocked_spec h ctx buf count
  have hle := readMoves_le buf count d
  refine failure_iff (k := readMoves buf count d) ?_ ?_
  · rcases hcase with ⟨-, hsize, -⟩ | ⟨hall, hcode, -⟩ | ⟨hlt, hcode, -⟩
    · exact .inl (by omega)
    · exact .inr (.inl ⟨hall, hcode⟩)
    · exact .inr (.inr ⟨hlt, hcode⟩)
  · rw [hcont]
    constructor
    · intro heq
      have hlen := congrArg List.length heq
      rw [List.length_drop, length_contents] at hlen
      omega
    · intro hzero
      rw [hzero, List.drop_zero]

/-- A `gold_write` that fails leaves the queue alone unless it faults midway. -/
theorem goldWrite_failure {d : GoldDev} (h : RingInv d) (ctx : FileCtx)
    (intr : Interruption) (buf : UserSrc) (count : ℕ) :
    ((goldWrite ctx intr buf count d).2.code < 0 →
        contents (goldWrite ctx intr buf count d).1 = contents d) ↔
      ¬ (Reaches ctx intr ∧ FaultsMidway (readable buf) (min count (bufSize - d.size))) := by
  rw [faultsMidway_iff]
  obtain ⟨-, hcont, -, hcase⟩ := goldWriteLocked_spec h ctx buf count
  have hle := writeMoves_le buf count d
  refine failure_iff (k := writeMoves buf count d) ?_ ?_
  · rcases hcase with ⟨-, hsize, -⟩ | ⟨hall, hcode, -⟩ | ⟨hlt, hcode, -⟩
    · exact .inl (by omega)
    · exact .inr (.inl ⟨hall, hcode⟩)
    · exact .inr (.inr ⟨hlt, hcode⟩)
  · rw [hcont]
    constructor
    · intro heq
      have hlen := congrArg List.length heq
      rw [List.length_append, UserSrc.length_bytes] at hlen
      omega
    · intro hzero
      rw [hzero]
      exact List.append_nil _

/-- **A failed call leaves the device as it was, unless it faults midway**: for a
well-formed ring and any call, "if it returns a negative value then the queue is
unchanged" holds exactly when the call does not get to move a first byte and then
fault at a later one of the bytes it should move. -/
theorem gold_failure_keeps_queue_iff {d : GoldDev} (h : RingInv d) (ctx : FileCtx)
    (intr : Interruption) (count : ℕ) :
    (∀ buf, ((goldRead ctx intr buf count d).2.code < 0 →
        contents (goldRead ctx intr buf count d).1 = contents d) ↔
      ¬ (Reaches ctx intr ∧ FaultsMidway buf (min count d.size))) ∧
    (∀ buf, ((goldWrite ctx intr buf count d).2.code < 0 →
        contents (goldWrite ctx intr buf count d).1 = contents d) ↔
      ¬ (Reaches ctx intr ∧ FaultsMidway (readable buf) (min count (256 - d.size)))) :=
  ⟨fun buf => goldRead_failure h ctx intr buf count,
    fun buf => goldWrite_failure h ctx intr buf count⟩

/-- The ring of the freshly loaded device, and a buffer whose second byte faults. -/
theorem gold_failure_keeps_queue_iff_init :
    ¬ ((goldWrite ⟨false⟩ .never (fun i => if i = 0 then some 87 else none) 2 goldInit).2.code
        < 0 →
      contents (goldWrite ⟨false⟩ .never (fun i => if i = 0 then some 87 else none) 2
        goldInit).1 = contents goldInit) := by
  rw [(gold_failure_keeps_queue_iff ringInv_goldInit ⟨false⟩ .never 2).2]
  exact fun hno => hno ⟨.inl rfl, rfl, 1, by decide, rfl⟩

/-- A two-byte write to the empty device whose second byte faults returns
`-EFAULT` and leaves its first byte queued. -/
theorem gold_write_fault_keeps_byte :
    let buf : UserSrc := fun i => if i = 0 then some 87 else none
    RingInv goldInit ∧ (goldWrite ⟨false⟩ .never buf 2 goldInit).2.code = -14 ∧
      contents (goldWrite ⟨false⟩ .never buf 2 goldInit).1 = [87] ∧
      contents goldInit = [] :=
  ⟨ringInv_goldInit, by decide +kernel, by decide +kernel, rfl⟩

end GoldDevice

end KernelModules
