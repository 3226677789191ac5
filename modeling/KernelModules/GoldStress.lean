import KernelModules.GoldFifo

/-!
# `stress_test.c` on `gold_dev`

The stress test writes whole messages — `'W'` first, no other `'W'` — and reads
`MAX_MSG` bytes at a time; it reports corruption when a non-empty read does not
start with `'W'`. The device knows nothing of messages. A read that finds more than
`MAX_MSG` bytes cuts the stream after `MAX_MSG` of them, and the next read starts
where it was cut.

So reads stay on message boundaries exactly as long as every cut falls on one:
`gold_reads_start_messages` keeps them there over every interleaving of readers and
writers, and shows that the read after any other cut is reported as corrupt.
-/

namespace KernelModules

namespace GoldDevice

/-- `MAX_MSG` -/
def maxMsg : ℕ := 64

/-- The character `'W'` -/
def charW : UInt8 := 87

/-- A buffer holding one message: up to `MAX_MSG` bytes, `'W'` first, no other. -/
def IsMessage (buf : UserSrc) (count : ℕ) : Prop :=
  1 ≤ count ∧ count ≤ maxMsg ∧ buf 0 = some charW ∧
    ∀ i < count, readable buf i = true ∧ (i ≠ 0 → buf i ≠ some charW)

/-- The calls of the stress test: whole messages in, `MAX_MSG` bytes out, no fault. -/
def StressCall : GoldCall → Prop
  | .read _ buf count => count = maxMsg ∧ ∀ i < maxMsg, buf i = true
  | .write _ buf count => IsMessage buf count
  | .poll => False
  | .ioctl _ _ => False

instance : DecidablePred StressCall
  | .read _ buf count => inferInstanceAs (Decidable (count = maxMsg ∧ ∀ i < maxMsg, buf i = true))
  | .write _ buf count => inferInstanceAs (Decidable (1 ≤ count ∧ count ≤ maxMsg ∧
      buf 0 = some charW ∧ ∀ i < count, readable buf i = true ∧ (i ≠ 0 → buf i ≠ some charW)))
  | .poll => isFalse id
  | .ioctl _ _ => isFalse id

/-- If the section is a read, it leaves nothing behind, or leaves the front of the
queue at the first byte of a message. -/
def CutsClean (c : GoldCall) (d : GoldDev) : Prop :=
  match c with
  | .read .. => (contents d)[maxMsg]? = none ∨ (contents d)[maxMsg]? = some charW
  | _ => True

instance (c : GoldCall) (d : GoldDev) : Decidable (CutsClean c d) :=
  match c with
  | .read .. => inferInstanceAs (Decidable (_ ∨ _))
  | .write .. | .poll | .ioctl .. => isTrue trivial

/-! ## One section of the stress test -/

/-- Nothing faults, so a read takes `MAX_MSG` bytes or all there are. -/
theorem readMoves_stress {buf : UserDst} {count : ℕ} {d : GoldDev} {ctx : FileCtx}
    (hc : StressCall (.read ctx buf count)) : readMoves buf count d = min maxMsg d.size := by
  obtain ⟨rfl, hok⟩ := hc
  rw [readMoves, reach_eq_iff]
  intro i hi
  exact hok i (by omega)

/-- Nothing faults, so a write is served in full or as far as there is room. -/
theorem writeMoves_stress {buf : UserSrc} {count : ℕ} {d : GoldDev} {ctx : FileCtx}
    (hc : StressCall (.write ctx buf count)) :
    writeMoves buf count d = min count (bufSize - d.size) := by
  rw [writeMoves, reach_eq_iff]
  intro i hi
  exact (hc.2.2.2 i (by omega)).1

/-- What a stress-test write reports is what went into the ring. -/
theorem accepted_stress {d : GoldDev} (h : RingInv d) {ctx : FileCtx} {buf : UserSrc}
    {count : ℕ} (via : Option GoldQueue) (hc : StressCall (.write ctx buf count)) :
    accepted ⟨.write ctx buf count, via, (goldBody (.write ctx buf count) d).ret⟩ =
      buf.bytes 0 (min count (bufSize - d.size)) := by
  obtain ⟨-, -, -, hcase⟩ := goldWriteLocked_spec h ctx buf count
  have hmoves := writeMoves_stress (d := d) hc
  change buf.bytes 0 (goldWriteLocked ctx buf count d).ret.code.toNat = _
  congr 1
  rcases hcase with ⟨-, hfull, hcode, -⟩ | ⟨-, hcode, -⟩ | ⟨hlt, -⟩
  · rw [hcode, hfull]
    have : ((-eagain : ℤ)).toNat = 0 := by decide
    omega
  · rw [hcode, Int.toNat_natCast, hmoves]
  · omega

/-- A prefix of a message is marked at its first byte only. -/
theorem markedHead_bytes {buf : UserSrc} {count k : ℕ} (hmsg : IsMessage buf count)
    (hk : k ≤ count) : MarkedHead charW (buf.bytes 0 k) := by
  intro i hi
  by_contra hne
  have hlt : i < k := by
    have := (List.getElem?_eq_some_iff.mp hi).1
    rwa [UserSrc.length_bytes] at this
  obtain ⟨hread, hmark⟩ := hmsg.2.2.2 i (by omega)
  obtain ⟨b, hb⟩ := Option.isSome_iff_exists.mp hread
  apply hmark hne
  rw [hb]
  simpa [UserSrc.bytes, hlt, hb] using hi

/-- A non-empty prefix of a message starts with its mark. -/
theorem head_bytes {buf : UserSrc} {count k : ℕ} (hmsg : IsMessage buf count) (hk : 0 < k) :
    (buf.bytes 0 k).head? = some charW := by
  obtain ⟨n, rfl⟩ : ∃ n, k = n + 1 := ⟨k - 1, by omega⟩
  rw [UserSrc.bytes_succ, hmsg.2.2.1]
  rfl

/-- A read that returns something starts at the front of the queue. -/
theorem head_read {d : GoldDev} (h : RingInv d) {ctx : FileCtx} {buf : UserDst} {count : ℕ}
    (hne : (goldBody (.read ctx buf count) d).ret.out ≠ []) :
    (goldBody (.read ctx buf count) d).ret.out.head? = (contents d).head? := by
  obtain ⟨-, -, hout, -⟩ := goldReadLocked_spec h ctx buf count
  change (goldReadLocked ctx buf count d).ret.out ≠ [] at hne
  change (goldReadLocked ctx buf count d).ret.out.head? = _
  rw [hout] at hne ⊢
  have hk : readMoves buf count d ≠ 0 := by
    intro hzero
    rw [hzero] at hne
    exact hne rfl
  rw [List.head?_take, if_neg hk]

/-! ## Over every interleaving -/

/-- The served call is a read that returned something. -/
def NonEmptyRead (e : GoldServed) : Prop := returned e ≠ []

/-- A read served after the history `pre` starts with `'W'`, and what it starts with is
the first byte of a message. -/
def StartsMessage (pre : List GoldServed) (e : GoldServed) : Prop :=
  (returned e).head? = some charW ∧
    BlockStart (pre.map accepted) (pre.flatMap returned).length

/-- What the stress test keeps: a conserving history of whole message prefixes, a
queue whose front, if any, starts a message, and reads that all started one. -/
structure Framed (d : GoldDev) (log : List GoldServed) : Prop where
  /-- the ring is well-formed -/
  ring : RingInv d
  /-- nothing was lost or invented -/
  conserved : log.flatMap returned ++ contents d = log.flatMap accepted
  /-- every write put in a prefix of one message -/
  marked : ∀ b ∈ log.map accepted, MarkedHead charW b
  /-- the front of the queue starts a message -/
  front : contents d = [] ∨ (contents d).head? = some charW
  /-- so did every non-empty read -/
  reads : ∀ pre e post, log = pre ++ e :: post → NonEmptyRead e → StartsMessage pre e

/-- The reads so far started messages; one more has to. -/
theorem Framed.reads_concat {d : GoldDev} {log : List GoldServed} (h : Framed d log)
    {e : GoldServed} (he : NonEmptyRead e → StartsMessage log e) :
    ∀ pre x post, log ++ [e] = pre ++ x :: post → NonEmptyRead x → StartsMessage pre x :=
  forall_split_concat.mpr ⟨h.reads, he⟩

/-- What is accepted last has to be marked. -/
theorem Framed.marked_concat {d : GoldDev} {log : List GoldServed} (h : Framed d log)
    {e : GoldServed} (he : MarkedHead charW (accepted e)) :
    ∀ b ∈ (log ++ [e]).map accepted, MarkedHead charW b := by
  intro b hb
  rw [List.map_append, List.mem_append] at hb
  rcases hb with hb | hb
  · exact h.marked b hb
  · rw [List.map_singleton, List.mem_singleton] at hb
    rw [hb]
    exact he

/-- A read that cuts clean leaves the start of a message at the front, or nothing. -/
theorem Framed.front_read {d : GoldDev} {log : List GoldServed} (h : Framed d log)
    {ctx : FileCtx} {buf : UserDst} {count : ℕ} (hc : StressCall (.read ctx buf count))
    (hcut : CutsClean (.read ctx buf count) d) :
    contents (goldBody (.read ctx buf count) d).next = [] ∨
      (contents (goldBody (.read ctx buf count) d).next).head? = some charW := by
  obtain ⟨-, hcont, -, -⟩ := goldReadLocked_spec h.ring ctx buf count
  change contents (goldReadLocked ctx buf count d).next = [] ∨
    (contents (goldReadLocked ctx buf count d).next).head? = some charW
  rw [hcont, readMoves_stress (d := d) hc, List.head?_drop]
  by_cases hall : d.size ≤ maxMsg
  · left
    rw [List.drop_eq_nil_iff, length_contents]
    omega
  · right
    have hmin : min maxMsg d.size = maxMsg := by omega
    rw [hmin]
    rcases hcut with hnone | hmark
    · rw [List.getElem?_eq_none_iff, length_contents] at hnone
      omega
    · exact hmark

/-- A read that returns something starts at the front, and the front starts a message. -/
theorem Framed.startsMessage {d : GoldDev} {log : List GoldServed} (h : Framed d log)
    {ctx : FileCtx} {buf : UserDst} {count : ℕ} {via : Option GoldQueue}
    (hne : (goldBody (.read ctx buf count) d).ret.out ≠ []) :
    StartsMessage log ⟨.read ctx buf count, via, (goldBody (.read ctx buf count) d).ret⟩ := by
  have hhead : (contents d).head? = some charW := by
    rcases h.front with hempty | hhead
    · have hnone := head_read h.ring hne
      rw [hempty] at hnone
      exact absurd (List.head?_eq_none_iff.mp hnone) hne
    · exact hhead
  refine ⟨(head_read h.ring hne).trans hhead, block_start_of_mark h.marked ?_⟩
  rw [← List.flatMap_def, ← h.conserved, List.getElem?_append_right (le_refl _),
    Nat.sub_self, ← List.head?_eq_getElem?]
  exact hhead

/-- A write leaves the start of a message at the front, or nothing. -/
theorem Framed.front_write {d : GoldDev} {log : List GoldServed} (h : Framed d log)
    {ctx : FileCtx} {buf : UserSrc} {count : ℕ} (hc : StressCall (.write ctx buf count)) :
    contents (goldBody (.write ctx buf count) d).next = [] ∨
      (contents (goldBody (.write ctx buf count) d).next).head? = some charW := by
  obtain ⟨-, hcont, -, -⟩ := goldWriteLocked_spec h.ring ctx buf count
  change contents (goldWriteLocked ctx buf count d).next = [] ∨
    (contents (goldWriteLocked ctx buf count d).next).head? = some charW
  rw [hcont, writeMoves_stress (d := d) hc]
  rcases h.front with hempty | hhead
  · -- into an empty queue: the front is the front of this message
    rw [hempty, List.nil_append]
    rcases Nat.eq_zero_or_pos (min count (bufSize - d.size)) with hzero | hpos
    · rw [hzero]
      exact .inl rfl
    · exact .inr (head_bytes hc hpos)
  · right
    rw [List.head?_append, hhead]
    rfl

/-- Each section keeps reads on message boundaries, if it cuts clean. -/
theorem Framed.step {d : GoldDev} {log : List GoldServed} {c : GoldCall}
    {via : Option GoldQueue} (h : Framed d log) (hc : StressCall c) (hcut : CutsClean c d) :
    Framed (goldBody c d).next (log ++ [⟨c, via, (goldBody c d).ret⟩]) := by
  cases c with
  | read ctx buf count =>
    obtain ⟨hinv, hcont, hout, -⟩ := goldReadLocked_spec h.ring ctx buf count
    refine ⟨hinv, ?_, h.marked_concat ?_, h.front_read hc hcut,
      h.reads_concat fun hne => h.startsMessage hne⟩
    · -- the bytes handed out and those left are the bytes that were there
      have hsplit : (goldReadLocked ctx buf count d).ret.out ++
          contents (goldReadLocked ctx buf count d).next = contents d := by
        rw [hout, hcont, List.take_append_drop]
      rw [List.flatMap_append, List.flatMap_append, ← h.conserved]
      simpa [returned, accepted, goldBody] using hsplit
    · intro i hi
      simp [accepted] at hi
  | write ctx buf count =>
    obtain ⟨hinv, hcont, hout, -⟩ := goldWriteLocked_spec h.ring ctx buf count
    have hmoves := writeMoves_stress (d := d) hc
    have hacc := accepted_stress h.ring via hc
    refine ⟨hinv, ?_, h.marked_concat ?_, h.front_write hc,
      h.reads_concat fun hne => absurd rfl hne⟩
    · have hback : contents (goldBody (.write ctx buf count) d).next =
          contents d ++ buf.bytes 0 (min count (bufSize - d.size)) := by
        rw [← hmoves]
        exact hcont
      rw [List.flatMap_append, List.flatMap_append, ← h.conserved, hback]
      simp [hacc, returned]
    · rw [hacc]
      exact markedHead_bytes hc (min_le_left ..)
  | poll => exact hc.elim
  | ioctl cmd arg => exact hc.elim

/-- Reads stay on message boundaries as long as every cut falls on one. -/
theorem framed_inductive {Tid : Type} [DecidableEq Tid] :
    ((goldMonitor.lts Tid goldInit).restrict (Monitor.Allowed StressCall CutsClean)).Inductive
      fun s => (∀ t, (s.pc t).Tracks goldMonitor StressCall) ∧ Framed s.dev s.log := by
  refine Monitor.allowed_inductive (J := Framed) ?_ fun hc _ hcut h => h.step hc hcut
  refine ⟨ringInv_goldInit, rfl, ?_, .inl rfl, ?_⟩
  · intro b hb
    cases hb
  · intro pre e post hsplit
    simp at hsplit

/-- A read that cuts a message leaves a front that no message starts with, and the
next stress-test read starts there. -/
theorem corrupt_of_cut {d : GoldDev} (h : RingInv d) {ctx ctx' : FileCtx}
    {buf buf' : UserDst} {count count' : ℕ} (hc : StressCall (.read ctx buf count))
    (hc' : StressCall (.read ctx' buf' count'))
    (hcut : ¬ CutsClean (.read ctx buf count) d) :
    ∃ b ≠ charW, (goldBody (.read ctx' buf' count')
      (goldBody (.read ctx buf count) d).next).ret.out.head? = some b := by
  obtain ⟨hnone, hmark⟩ := not_or.mp hcut
  obtain ⟨b, hb⟩ := Option.ne_none_iff_exists'.mp hnone
  refine ⟨b, fun heq => hmark (heq ▸ hb), ?_⟩
  obtain ⟨hinv, hcont, -⟩ := goldReadLocked_spec h ctx buf count
  have hmany : maxMsg < d.size := by
    have := (List.getElem?_eq_some_iff.mp hb).1
    rwa [length_contents] at this
  have hfront : (contents (goldReadLocked ctx buf count d).next).head? = some b := by
    have hmin : min maxMsg d.size = maxMsg := by omega
    rw [hcont, readMoves_stress hc, List.head?_drop, hmin]
    exact hb
  obtain ⟨-, -, hout', -⟩ := goldReadLocked_spec hinv ctx' buf' count'
  have hk : readMoves buf' count' (goldReadLocked ctx buf count d).next ≠ 0 := by
    have hsize := size_goldReadLocked h ctx buf count
    rw [readMoves_stress hc] at hsize
    have : 0 < maxMsg := by decide
    rw [readMoves_stress hc', hsize]
    omega
  change (goldReadLocked ctx' buf' count' (goldReadLocked ctx buf count d).next).ret.out.head? = _
  rw [hout', List.head?_take, if_neg hk]
  exact hfront

/-- **When the stress test sees no corruption**: over every interleaving of any
number of stress-test readers and writers in which each read finds at most `MAX_MSG`
bytes or a message's first byte right after them, every non-empty read starts with
`'W'`, at the first byte of a message. After a read that finds anything else the next
read starts with some other byte. -/
theorem gold_reads_start_messages {Tid : Type} [DecidableEq Tid] (s : GoldState Tid) :
    (((goldMonitor.lts Tid goldInit).restrict
        (Monitor.Allowed StressCall CutsClean)).Reachable s →
      ∀ pre e post, s.log = pre ++ e :: post → NonEmptyRead e → StartsMessage pre e) ∧
    ((goldMonitor.lts Tid goldInit).Reachable s →
      ∀ t u ctx ctx' buf buf' via via', u ≠ t →
        s.pc t = .locking (.read ctx buf maxMsg) via →
        s.pc u = .locking (.read ctx' buf' maxMsg) via' →
        StressCall (.read ctx buf maxMsg) → StressCall (.read ctx' buf' maxMsg) →
        ¬ CutsClean (.read ctx buf maxMsg) s.dev →
        ∃ s₁ s₂ e, goldMonitor.next s (.lock t) = some s₁ ∧
          goldMonitor.next s₁ (.lock u) = some s₂ ∧ s₂.log = s₁.log ++ [e] ∧
          ∃ b ≠ charW, (returned e).head? = some b) := by
  refine ⟨fun hs => (framed_inductive.reachable hs).2.reads, ?_⟩
  intro hs t u ctx ctx' buf buf' via via' hut ht hu hc hc' hcut
  have hu₁ : (s.serve t (.read ctx buf maxMsg) via
      (goldMonitor.body (.read ctx buf maxMsg) via s.dev)).pc u =
        .locking (.read ctx' buf' maxMsg) via' := by
    rw [Monitor.State.serve_pc_ne s hut]
    exact hu
  exact ⟨_, _, _, Monitor.next_lock ht, Monitor.next_lock hu₁, rfl,
    corrupt_of_cut (ringInv_reachable hs.restrict_true) hc hc' hcut⟩

/-! ### Two runs of a writer and a reader -/

/-- A 33-byte message, `'W'` and then `'0'`s, written by a blocking writer. -/
def stressWrite : GoldCall := .write ⟨false⟩ (fun i => some (if i = 0 then charW else 48)) 33

/-- A blocking stress-test read. -/
def stressRead : GoldCall := .read ⟨false⟩ (fun _ => true) maxMsg

/-- One message, then one read. -/
def cleanRun : List (Monitor.Act GoldCall Monitor.Duo) :=
  Monitor.Act.through .one stressWrite ++ Monitor.Act.through .two stressRead

/-- Two messages, then two reads: the first read cuts the second message. -/
def cuttingRun : List (Monitor.Act GoldCall Monitor.Duo) :=
  Monitor.Act.through .one stressWrite ++ Monitor.Act.through .one stressWrite ++
    (Monitor.Act.through .two stressRead ++ Monitor.Act.through .two stressRead)

/-- Two messages are written, and then two readers pass their wait. -/
def readersAtCut : List (Monitor.Act GoldCall Monitor.Duo) :=
  Monitor.Act.through .one stressWrite ++ Monitor.Act.through .one stressWrite ++
    (Monitor.Act.toLock .one stressRead ++ Monitor.Act.toLock .two stressRead)

/-- A message read whole, and two readers in front of two messages, 66 bytes, of which the
first takes 64. -/
theorem gold_reads_start_messages_clean :
    (∃ s : GoldState Monitor.Duo, ((goldMonitor.lts Monitor.Duo goldInit).restrict
        (Monitor.Allowed StressCall CutsClean)).Reachable s ∧
      s.log.map (fun e => (returned e).length) = [0, 33] ∧
      ∀ pre e post, s.log = pre ++ e :: post → NonEmptyRead e → StartsMessage pre e) ∧
    ∃ s s₁ s₂ : GoldState Monitor.Duo, ∃ e, (goldMonitor.lts Monitor.Duo goldInit).Reachable s ∧
      goldMonitor.next s (.lock .one) = some s₁ ∧ goldMonitor.next s₁ (.lock .two) = some s₂ ∧
      s₂.log = s₁.log ++ [e] ∧ ∃ b ≠ charW, (returned e).head? = some b := by
  constructor
  · have hrun : ∃ s : GoldState Monitor.Duo, ((goldMonitor.lts Monitor.Duo goldInit).restrict
          (Monitor.Allowed StressCall CutsClean)).Reachable s ∧
        s.log.map (fun e => (returned e).length) = [0, 33] :=
      Lts.exists_reachable_of_map cleanRun _ (by decide +kernel)
    obtain ⟨s, hs, hlog⟩ := hrun
    exact ⟨s, hs, hlog, (gold_reads_start_messages s).1 hs⟩
  · have hrun : ∃ s : GoldState Monitor.Duo, (goldMonitor.lts Monitor.Duo goldInit).Reachable s ∧
        s.pc .one = .locking stressRead (some .readQueue) ∧
        s.pc .two = .locking stressRead (some .readQueue) ∧ ¬ CutsClean stressRead s.dev :=
      ⟨_, Lts.reachable_of_foldlM (.init rfl)
        (rfl : readersAtCut.foldlM goldMonitor.next (Monitor.start goldInit) = some _),
        rfl, rfl, by decide +kernel⟩
    obtain ⟨s, hs, h0, h1, hcut⟩ := hrun
    obtain ⟨s₁, s₂, e, hrest⟩ := (gold_reads_start_messages s).2 hs .one .two _ _ _ _ _ _
      (by decide) h0 h1 (by decide) (by decide) hcut
    exact ⟨s, s₁, s₂, e, hs, hrest⟩

/-- Two 33-byte messages, then two 64-byte reads: the second read starts in the middle
of the second message, with `'0'`. -/
theorem gold_read_starts_midmessage :
    ∃ s, ((goldMonitor.lts Monitor.Duo goldInit).restrict
        (Monitor.Allowed StressCall fun _ _ => True)).Reachable s ∧
      s.log.map (fun e => (returned e).head?) = [none, none, some charW, some 48] :=
  Lts.exists_reachable_of_map cuttingRun _ (by decide +kernel)

end GoldDevice

end KernelModules
