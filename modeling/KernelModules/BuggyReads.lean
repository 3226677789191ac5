import KernelModules.BuggyDevice

/-!
# What reads of `buggy_device.c` return

A read clears `data_size` before it gives the lock back, and returns what it finds there after
that. Writes and resets do without the lock, so they may come in between.

* `sizeAt` — `data_size`, from the log;
* `LogStep` — what a step does to `data_size` and to the log;
* `returned_code` — **a read returns 0, or the count that a write has stored since the read has
  cleared `data_size`**, whatever the read has handed out;
* `returned_head` — **if all messages start with one byte, whatever a read hands out does**, however
  the copies are interleaved. So a reader that looks at the first byte only finds no torn message.
-/

namespace KernelModules

namespace BuggyDevice

/-! ## `data_size` from the log -/

/-- The task that an entry is about -/
def Event.tid {Tid : Type*} : Event Tid → Tid
  | .stored t _ | .cleared t | .reset t | .returned t _ | .written t _ => t

/-- What an entry does to `data_size` -/
def sizeAfter {Tid : Type*} (v : Int32) : Event Tid → Int32
  | .stored _ w => w
  | .cleared _ | .reset _ => 0
  | .returned .. | .written .. => v

/-- `data_size` after the entries of a log, if it was 0 before them -/
def sizeAt {Tid : Type*} (log : List (Event Tid)) : Int32 := log.foldl sizeAfter 0

section SizeAt

variable {Tid : Type*}

@[simp] theorem sizeAt_concat (log : List (Event Tid)) (e : Event Tid) :
    sizeAt (log ++ [e]) = sizeAfter (sizeAt log) e := by
  simp [sizeAt]

/-- Nothing that was stored before a clear is seen after it. -/
theorem sizeAt_cleared (l₁ l₂ : List (Event Tid)) (t : Tid) :
    sizeAt (l₁ ++ .cleared t :: l₂) = sizeAt l₂ := by
  simp [sizeAt, sizeAfter]

/-- A size that is not 0 is the last one stored. -/
theorem exists_stored_of_sizeAt {l : List (Event Tid)} (h : sizeAt l ≠ 0) :
    ∃ m₁ m₂ u, l = m₁ ++ .stored u (sizeAt l) :: m₂ ∧ ∀ e ∈ m₂, ∀ v, sizeAfter v e = v := by
  induction l using List.reverseRecOn with
  | nil => exact absurd rfl h
  | append_singleton l e ih =>
    rw [sizeAt_concat] at h ⊢
    by_cases hkeep : ∀ v, sizeAfter v e = v
    · rw [hkeep] at h ⊢
      obtain ⟨m₁, m₂, u, hl, hm₂⟩ := ih h
      refine ⟨m₁, m₂ ++ [e], u, ?_, forall_mem_concat.mpr ⟨hm₂, hkeep⟩⟩
      rw [← List.cons_append, ← List.append_assoc, ← hl]
    · cases e with
      | stored u w => exact ⟨l, [], u, rfl, nofun⟩
      | cleared _ | reset _ => exact absurd rfl h
      | returned _ _ | written _ _ => exact absurd (fun _ => rfl) hkeep

end SizeAt

variable {Tid Fid : Type*} [DecidableEq Tid] [DecidableEq Fid]

/-! ## What a step does to the log -/

/-- Between `data_size = 0` and `return` -/
def Pc.Cleared : Pc Fid → Prop
  | .unlock _ (some _) | .readReturn _ (some _) => True
  | _ => False

omit [DecidableEq Fid] in
theorem Pc.cleared_woken {p : Pc Fid} : p.woken.Cleared ↔ p.Cleared := by
  cases p <;> exact Iff.rfl

/-- What a step does to `data_size`, to the log and to who has cleared `data_size`. -/
inductive LogStep (s s' : State Tid Fid) : Prop where
  /-- nothing -/
  | quiet : s'.log = s.log → s'.shared.dataSize = s.shared.dataSize →
      (∀ u, (s'.pc u).Cleared → (s.pc u).Cleared) → LogStep s s'
  /-- a read clears `data_size` -/
  | clear {t : Tid} : s'.log = s.log ++ [.cleared t] → s'.shared.dataSize = 0 →
      (∀ u, (s'.pc u).Cleared → u = t ∨ (s.pc u).Cleared) → LogStep s s'
  /-- a read returns -/
  | returned {t : Tid} {r : Ret} : s'.log = s.log ++ [.returned t r] →
      s'.shared.dataSize = s.shared.dataSize →
      (∀ u, (s'.pc u).Cleared → u ≠ t ∧ (s.pc u).Cleared) →
      r = .error eagain ∨ (s.pc t).Cleared ∧ r.code = s.shared.dataSize.toInt → LogStep s s'
  /-- any other entry -/
  | other {e : Event Tid} : s'.log = s.log ++ [e] →
      s'.shared.dataSize = sizeAfter s.shared.dataSize e →
      (∀ u, (s'.pc u).Cleared → u ≠ e.tid ∧ (s.pc u).Cleared) →
      (∀ t r, e ≠ .returned t r) → LogStep s s'

omit [DecidableEq Fid] in
/-- A task that moves on to where nothing is cleared. -/
theorem cleared_goto {s : State Tid Fid} {t : Tid} {p : Pc Fid} (hp : ¬ p.Cleared) (u : Tid)
    (hu : ((s.goto t p).pc u).Cleared) : u ≠ t ∧ (s.pc u).Cleared := by
  by_cases hut : u = t
  · rw [hut, State.goto_pc_self] at hu
    exact absurd hu hp
  · rw [State.goto_pc_ne s hut] at hu
    exact ⟨hut, hu⟩

omit [DecidableEq Tid] [DecidableEq Fid] in
/-- What a statement does to `data_size`, and where it leads. -/
theorem stmt_size {t : Tid} {d d' : Shared Tid} {p p' : Pc Fid} (h : stmt t d p = some (d', p')) :
    (p.event t = none ∧ d'.dataSize = d.dataSize ∧ (p'.Cleared → p.Cleared)) ∨
      (p.event t = some (.cleared t) ∧ d'.dataSize = 0) ∨
      ∃ v, p.event t = some (.stored t v) ∧ d'.dataSize = v ∧ ¬ p'.Cleared := by
  unfold stmt at h
  split at h
  case h_1 =>
    obtain ⟨-, h⟩ := Option.ite_none_right_eq_some.mp h
    cases h
    exact .inl ⟨rfl, rfl, id⟩
  case h_10 =>
    cases h
    exact .inr (.inl ⟨rfl, rfl⟩)
  case h_11 f out =>
    cases h
    cases out with
    | none => exact .inl ⟨rfl, rfl, id⟩
    | some out => exact .inl ⟨rfl, rfl, id⟩
  case h_12 =>
    split at h <;> cases h <;> exact .inl ⟨rfl, rfl, id⟩
  case h_13 =>
    cases h
    exact .inr (.inr ⟨_, rfl, rfl, id⟩)
  case h_14 | h_15 | h_16 | h_17 => cases h
  all_goals
    cases h
    refine .inl ⟨rfl, rfl, ?_⟩
    first
    | exact id
    | split <;> exact id

/-- **One step**, as far as the log goes. -/
theorem logStep {s s' : State Tid Fid} {a : Act Tid Fid} (h : Step s a s') : LogStep s s' := by
  cases h with
  | openFile _ _ | release _ _ | setBlocking _ => exact .quiet rfl rfl fun _ hu => hu
  | read _ _ | write _ _ => exact .quiet rfl rfl fun u hu => (cleared_goto id u hu).2
  | fault _ | signal _ => exact .quiet rfl rfl fun u hu => (cleared_goto id u hu).2
  | @reset t f hpc =>
    refine .other rfl rfl (fun u hu => ⟨?_, hu⟩) nofun
    rintro rfl
    change (s.pc u).Cleared at hu
    rw [hpc] at hu
    exact hu
  | @readReturn t f out hpc =>
    refine .returned rfl rfl (cleared_goto id) ?_
    cases out with
    | none => exact .inl rfl
    | some out =>
      rw [hpc]
      exact .inr ⟨trivial, rfl⟩
  | wake _ =>
    exact .other rfl rfl (fun u hu => cleared_goto id u (Pc.cleared_woken.mp hu)) nofun
  | @stmt t p p' d hpc hstmt =>
    subst hpc
    obtain ⟨hevent, hsize, hkeep⟩ | ⟨hevent, hsize⟩ | ⟨v, hevent, hsize, hp'⟩ := stmt_size hstmt
    · refine .quiet (by simp [hevent]) hsize fun u hu => ?_
      by_cases hut : u = t
      · subst hut
        exact hkeep (by simpa using hu)
      · simpa [State.goto_pc_ne s hut] using hu
    · refine .clear (t := t) (by simp [hevent]) hsize fun u hu => ?_
      by_cases hut : u = t
      · exact .inl hut
      · exact .inr (by simpa [State.goto_pc_ne s hut] using hu)
    · exact .other (e := .stored t v) (by simp [hevent]) hsize (cleared_goto hp') nofun

/-! ## What a read returns -/

/-- The read of `t` has cleared `data_size` and has done nothing since. -/
def ClearedSince (log : List (Event Tid)) (t : Tid) : Prop :=
  ∃ l₁ l₂, log = l₁ ++ .cleared t :: l₂ ∧ ∀ e ∈ l₂, e.tid ≠ t

omit [DecidableEq Tid] in
/-- It has not when others have done something. -/
theorem ClearedSince.concat {log : List (Event Tid)} {t : Tid} (h : ClearedSince log t)
    {e : Event Tid} (he : e.tid ≠ t) : ClearedSince (log ++ [e]) t := by
  obtain ⟨l₁, l₂, rfl, hl₂⟩ := h
  exact ⟨l₁, l₂ ++ [e], by simp, forall_mem_concat.mpr ⟨hl₂, he⟩⟩

/-- A read that has returned: `-EAGAIN`, or what has become of `data_size` since the read has
cleared it. -/
def GoodReturn (pre : List (Event Tid)) (e : Event Tid) : Prop :=
  ∀ t r, e = .returned t r → r = .error eagain ∨
    ∃ l₁ l₂, pre = l₁ ++ .cleared t :: l₂ ∧ (∀ e ∈ l₂, e.tid ≠ t) ∧ r.code = (sizeAt l₂).toInt

/-- `data_size` is what the log says, and so are the reads. -/
structure Returns (s : State Tid Fid) : Prop where
  /-- `data_size` -/
  size : s.shared.dataSize = sizeAt s.log
  /-- the reads that have cleared it -/
  since : ∀ t, (s.pc t).Cleared → ClearedSince s.log t
  /-- the reads that have returned -/
  good : ∀ pre e post, s.log = pre ++ e :: post → GoodReturn pre e

omit [DecidableEq Tid] [DecidableEq Fid] in
theorem Returns.since_concat {s : State Tid Fid} (hs : Returns s) {e : Event Tid} {u : Tid}
    (hu : u ≠ e.tid ∧ (s.pc u).Cleared) : ClearedSince (s.log ++ [e]) u :=
  (hs.since u hu.2).concat hu.1.symm

/-- Every step keeps that. -/
theorem returns_inductive : (buggyLts Tid Fid).Inductive Returns where
  init := by
    rintro s rfl
    exact ⟨rfl, fun t ht => ht.elim, fun pre e post h => by simp [start] at h⟩
  step := by
    intro s s' a hs hstep
    cases logStep (step_of_next hstep) with
    | quiet hlog hsize hkeep =>
      refine ⟨?_, fun u hu => ?_, ?_⟩
      · rw [hsize, hlog, hs.size]
      · rw [hlog]
        exact hs.since u (hkeep u hu)
      · rw [hlog]
        exact hs.good
    | @clear t hlog hsize hkeep =>
      refine ⟨?_, fun u hu => ?_, ?_⟩
      · rw [hsize, hlog, sizeAt_concat]
        rfl
      · rw [hlog]
        by_cases hut : u = t
        · subst hut
          exact ⟨s.log, [], rfl, nofun⟩
        · exact hs.since_concat ⟨hut, (hkeep u hu).resolve_left hut⟩
      · rw [hlog]
        exact forall_split_concat.mpr ⟨hs.good, nofun⟩
    | @returned t r hlog hsize hkeep hr =>
      refine ⟨?_, fun u hu => ?_, ?_⟩
      · rw [hsize, hlog, sizeAt_concat]
        exact hs.size
      · rw [hlog]
        exact hs.since_concat (hkeep u hu)
      · rw [hlog]
        refine forall_split_concat.mpr ⟨hs.good, ?_⟩
        rintro t' r' heq
        cases heq
        obtain hr | ⟨hcleared, hcode⟩ := hr
        · exact .inl hr
        · obtain ⟨l₁, l₂, hl, hl₂⟩ := hs.since t hcleared
          refine .inr ⟨l₁, l₂, hl, hl₂, ?_⟩
          rw [hcode, hs.size, hl, sizeAt_cleared]
    | other hlog hsize hkeep he =>
      refine ⟨?_, fun u hu => ?_, ?_⟩
      · rw [hsize, hlog, sizeAt_concat, hs.size]
      · rw [hlog]
        exact hs.since_concat (hkeep u hu)
      · rw [hlog]
        exact forall_split_concat.mpr ⟨hs.good, fun t r h => absurd h (he t r)⟩

/-- **What a read returns**: `-EAGAIN`; or 0, however many bytes it has handed out; or else the
count of a write that has stored it after this read has cleared `data_size` and before it has
returned, and nothing else has touched `data_size` after that. -/
theorem returned_code {s : State Tid Fid} (hs : (buggyLts Tid Fid).Reachable s)
    {pre post : List (Event Tid)} {t : Tid} {r : Ret} (h : s.log = pre ++ .returned t r :: post) :
    r = .error eagain ∨ r.code = 0 ∨
      ∃ l₁ m₁ m₂ u v, pre = l₁ ++ .cleared t :: (m₁ ++ .stored u v :: m₂) ∧ u ≠ t ∧
        r.code = v.toInt ∧ ∀ e ∈ m₂, ∀ w, sizeAfter w e = w := by
  obtain hr | ⟨l₁, l₂, hpre, hl₂, hcode⟩ :=
    (returns_inductive.reachable hs).good pre _ post h t r rfl
  · exact .inl hr
  · refine .inr ?_
    by_cases hzero : sizeAt l₂ = 0
    · refine .inl ?_
      rw [hcode, hzero]
      rfl
    · obtain ⟨m₁, m₂, u, hsplit, hm₂⟩ := exists_stored_of_sizeAt hzero
      refine .inr ⟨l₁, m₁, m₂, u, sizeAt l₂, by rw [hpre, ← hsplit], ?_, hcode, hm₂⟩
      have hmem : Event.stored u (sizeAt l₂) ∈ m₁ ++ .stored u (sizeAt l₂) :: m₂ :=
        List.mem_append_right _ List.mem_cons_self
      rw [← hsplit] at hmem
      exact hl₂ _ hmem

/-! ## Messages that start alike -/

/-- A write is of a message that starts with the byte `c`, and that can be read. -/
def StartsWith (c : UInt8) : Act Tid Fid → Prop
  | .write _ _ buf count => 0 < count ∧ ∀ old, buf.fill count 0 old = c
  | _ => True

/-- With `data_size` 0 there is nothing to be copied. -/
theorem not_copyLen_zero : ¬ 0 < copyLen (0 : Int32).toInt := by
  decide

/-- The count of a write fits an `int`. -/
theorem toInt_ofNat_count {count : ℕ} (h : count ≤ maxRwCount) :
    (Int32.ofNat count).toInt = count := by
  have hlt : count < 2 ^ 31 := lt_of_le_of_lt h (by decide)
  rw [Int32.toInt_ofNat_of_lt hlt]

/-- What a read has handed out starts with the byte, if it is anything at all. -/
def HeadIs (c : UInt8) (out : List UInt8) : Prop := ∀ x, out.head? = some x → x = c

/-- What is known of a task; `m` says that the byte is in the buffer. A message that is too long
is not copied, but its length is no length of a copy either. -/
def Pc.Marked (c : UInt8) (m : Prop) : Pc Fid → Prop
  | .copyIn _ buf count i =>
    (count ≤ maxRwCount ∧ ∀ old, buf.fill count 0 old = c) ∧ (0 < i → m)
  | .setSize _ count => 0 < copyLen (Int32.ofNat count).toInt → m
  | .copyOut _ n out => (0 < n → m) ∧ HeadIs c out
  | .clear _ out | .unlock _ (some out) | .readReturn _ (some out) => HeadIs c out
  | _ => True

omit [DecidableEq Fid] in
theorem Pc.Marked.mono {c : UInt8} {m m' : Prop} (hm : m → m') {p : Pc Fid} (h : p.Marked c m) :
    p.Marked c m' := by
  cases p with
  | copyIn f buf count i => exact ⟨h.1, fun hi => hm (h.2 hi)⟩
  | setSize f count => exact fun hpos => hm (h hpos)
  | copyOut f n out => exact ⟨fun hn => hm (h.1 hn), h.2⟩
  | unlock f out | readReturn f out => cases out <;> exact h
  | _ => exact h

omit [DecidableEq Fid] in
theorem Pc.marked_woken {c : UInt8} {m : Prop} {p : Pc Fid} (h : p.Marked c m) :
    p.woken.Marked c m := by
  cases p with
  | waitQueued f | waitCommitted f | asleep f => trivial
  | unlock f out | readReturn f out => cases out <;> exact h
  | _ => exact h

/-- The first byte is in the buffer. -/
def Shared.Marked (c : UInt8) (d : Shared Tid) : Prop := d.buffer 0 = c

omit [DecidableEq Tid] [DecidableEq Fid] in
/-- One more byte is copied out. -/
theorem headIs_concat {c : UInt8} {d : Shared Tid} {n : ℕ} {out : List UInt8}
    (hn : 0 < n → d.Marked c) (hout : HeadIs c out) (hlt : out.length < n) :
    HeadIs c (out ++ [d.buffer out.length]) := by
  cases out with
  | nil =>
    intro x hx
    obtain rfl : d.buffer 0 = x := Option.some.inj hx
    exact hn hlt
  | cons y out => exact hout

omit [DecidableEq Tid] [DecidableEq Fid] in
/-- **One statement** keeps that, and the byte stays in the buffer once it is there. -/
theorem stmt_marked {c : UInt8} {t : Tid} {d d' : Shared Tid} {p p' : Pc Fid}
    (h : stmt t d p = some (d', p')) (hp : p.Marked c (d.Marked c))
    (hsize : 0 < copyLen d.dataSize.toInt → d.Marked c) :
    p'.Marked c (d'.Marked c) ∧ (0 < copyLen d'.dataSize.toInt → d'.Marked c) ∧
      (d.Marked c → d'.Marked c) := by
  unfold stmt at h
  split at h
  case h_1 =>
    obtain ⟨-, h⟩ := Option.ite_none_right_eq_some.mp h
    cases h
    exact ⟨trivial, hsize, id⟩
  case h_8 f =>
    cases h
    exact ⟨⟨hsize, nofun⟩, hsize, id⟩
  case h_9 f n out =>
    cases h
    refine ⟨?_, hsize, id⟩
    split
    · next hlt => exact ⟨hp.1, headIs_concat hp.1 hp.2 hlt⟩
    · exact hp.2
  case h_10 f out =>
    cases h
    exact ⟨hp, fun hpos => absurd hpos not_copyLen_zero, id⟩
  case h_11 f out =>
    cases h
    cases out with
    | none => exact ⟨trivial, hsize, id⟩
    | some out => exact ⟨hp, hsize, id⟩
  case h_12 f buf count i =>
    split at h
    · cases h
      -- byte 0 is the mark of this message, whatever is being copied elsewhere
      by_cases hi : i = 0
      · subst hi
        have hmark : Function.update d.buffer 0 (buf.fill count 0 (d.buffer 0)) 0 = c := by
          rw [Function.update_self, hp.1.2]
        exact ⟨⟨hp.1, fun _ => hmark⟩, fun _ => hmark, fun _ => hmark⟩
      · have hkeep : d.Marked c →
            Function.update d.buffer i (buf.fill count i (d.buffer i)) 0 = c := by
          rw [Function.update_of_ne (Ne.symm hi)]
          exact id
        exact ⟨⟨hp.1, fun _ => hkeep (hp.2 (by omega))⟩, fun hpos => hkeep (hsize hpos), hkeep⟩
    · next hlt =>
      cases h
      refine ⟨fun hpos => hp.2 ?_, hsize, id⟩
      rw [toInt_ofNat_count hp.1.1] at hpos
      omega
  case h_13 f count =>
    cases h
    exact ⟨trivial, hp, id⟩
  case h_14 | h_15 | h_16 | h_17 => cases h
  all_goals
    cases h
    refine ⟨?_, hsize, id⟩
    first
    | trivial
    | split <;> trivial

/-- Everything that is under way or has been handed out starts with the byte. -/
structure Marked (c : UInt8) (s : State Tid Fid) : Prop where
  /-- a message that is there -/
  size : 0 < copyLen s.shared.dataSize.toInt → s.shared.Marked c
  /-- the calls in progress -/
  pc : ∀ t, (s.pc t).Marked c (s.shared.Marked c)
  /-- the reads that have returned -/
  returned : ∀ t r, .returned t r ∈ s.log → HeadIs c r.out

omit [DecidableEq Fid] in
/-- A task moves on to where the byte is still there. -/
theorem Marked.goto {c : UInt8} {s : State Tid Fid} (hs : Marked c s) {t : Tid} {p : Pc Fid}
    (hp : p.Marked c (s.shared.Marked c)) (u : Tid) :
    ((s.goto t p).pc u).Marked c (s.shared.Marked c) :=
  forall_goto (fun u _ => hs.pc u) hp u

/-- Every step keeps that. -/
theorem marked_inductive (c : UInt8) :
    ((buggyLts Tid Fid).restrict fun _ => StartsWith c).Inductive (Marked c) where
  init := by
    rintro s rfl
    exact ⟨fun h => absurd h not_copyLen_zero, fun _ => trivial,
      fun t r h => absurd h List.not_mem_nil⟩
  step := by
    rintro s s' a hs ⟨hstart, hstep⟩
    cases step_of_next hstep with
    | openFile _ _ | release _ _ | setBlocking _ => exact ⟨hs.size, hs.pc, hs.returned⟩
    | read _ _ => exact ⟨hs.size, hs.goto trivial, hs.returned⟩
    | write _ _ hcount =>
      exact ⟨hs.size, hs.goto ⟨⟨hcount, hstart.2⟩, fun h => absurd h (lt_irrefl 0)⟩, hs.returned⟩
    | reset _ =>
      refine ⟨fun h => absurd h not_copyLen_zero, hs.pc, fun t r h => hs.returned t r ?_⟩
      simpa using h
    | @readReturn t f out hpc =>
      refine ⟨hs.size, hs.goto trivial, fun u r h => ?_⟩
      obtain h | h := List.mem_append.mp h
      · exact hs.returned u r h
      · cases List.mem_singleton.mp h
        have ht := hs.pc t
        rw [hpc] at ht
        cases out with
        | none => nofun
        | some out => exact ht
    | wake _ =>
      refine ⟨hs.size, fun u => Pc.marked_woken (hs.goto (p := .idle) trivial u), fun u r h => ?_⟩
      refine hs.returned u r ?_
      simpa using h
    | @stmt t p p' d hpc hstmt =>
      subst hpc
      obtain ⟨hp', hsize, hkeep⟩ := stmt_marked hstmt (hs.pc t) hs.size
      refine ⟨hsize, forall_goto (fun u _ => (hs.pc u).mono hkeep) hp', fun u r h => ?_⟩
      obtain h | h := List.mem_append.mp h
      · exact hs.returned u r h
      · cases hp : s.pc t <;> simp [hp, Pc.event] at h
    | @fault t f n out hpc =>
      have ht := hs.pc t
      rw [hpc] at ht
      exact ⟨hs.size, hs.goto ht.2, hs.returned⟩
    | signal _ => exact ⟨hs.size, hs.goto trivial, hs.returned⟩

/-- The first byte of the buffer in which `t` collects what it reads; none before anything has
been put there. -/
def readerByte (t : Tid) (log : List (Event Tid)) : Option UInt8 :=
  log.foldl (fun byte e => match e with
    | .returned u r => if u = t then r.out.head?.or byte else byte
    | _ => byte) none

omit [DecidableEq Fid] in
theorem readerByte_concat (t : Tid) (log : List (Event Tid)) (e : Event Tid) :
    readerByte t (log ++ [e]) = match e with
      | .returned u r => if u = t then r.out.head?.or (readerByte t log) else readerByte t log
      | _ => readerByte t log := by
  rw [readerByte, List.foldl_append]
  rfl

omit [DecidableEq Fid] in
/-- It comes from a read that has returned. -/
theorem exists_returned_of_readerByte {t : Tid} {log : List (Event Tid)} {x : UInt8}
    (h : readerByte t log = some x) : ∃ r, .returned t r ∈ log ∧ r.out.head? = some x := by
  induction log using List.reverseRecOn with
  | nil => cases h
  | append_singleton log e ih =>
    rw [readerByte_concat] at h
    have hold (h : readerByte t log = some x) :
        ∃ r, .returned t r ∈ log ++ [e] ∧ r.out.head? = some x := by
      obtain ⟨r, hmem, hx⟩ := ih h
      exact ⟨r, List.mem_append_left _ hmem, hx⟩
    cases e with
    | returned u r =>
      simp only at h
      split at h
      · next hut =>
        subst hut
        obtain h | ⟨-, h⟩ := Option.or_eq_some_iff.mp h
        · exact ⟨r, List.mem_append_right _ List.mem_cons_self, h⟩
        · exact hold h
      · exact hold h
    | stored _ _ | cleared _ | reset _ | written _ _ => exact hold h

/-- **No torn message is found by its first byte**: if all messages start with the same byte,
then so does whatever a read hands out, and the buffer of a reader never starts with another byte
once a read has put anything there, in every interleaving of the copies. -/
theorem returned_head {c : UInt8} {s : State Tid Fid}
    (hs : ((buggyLts Tid Fid).restrict fun _ => StartsWith c).Reachable s) (t : Tid) :
    (∀ r, .returned t r ∈ s.log → HeadIs c r.out) ∧
      ∀ log x, log <+: s.log → readerByte t log = some x → x = c := by
  have hmarked := (marked_inductive c).reachable hs
  refine ⟨hmarked.returned t, fun log x hlog hx => ?_⟩
  obtain ⟨r, hmem, hhead⟩ := exists_returned_of_readerByte hx
  exact hmarked.returned t r (hlog.subset hmem) x hhead

/-- A reader and a writer of two bytes; the lock has been given back by closing another file. -/
def overtaken : List (Act ℕ ℕ) :=
  let buf := UserBlock.ofList [87, 0]
  [.openFile 0 0, .openFile 1 1, .openFile 2 2, .release 2 2, .write 0 0 buf 2] ++
    List.replicate 5 (.step 0) ++ .read 1 1 :: List.replicate 7 (.step 1) ++
    .write 0 0 buf 2 :: List.replicate 4 (.step 0) ++ [.step 1, .step 1]

/-- A run it is used in: the read hands out two bytes and clears `data_size`, and the second
message comes before it returns. -/
theorem returned_code_overtaken : ∃ s l₁ m₁ m₂ u v, (buggyLts ℕ ℕ).Run start overtaken s ∧
    s.log = l₁ ++ .cleared 1 :: (m₁ ++ .stored u v :: m₂) ++ [.returned 1 ⟨2, [87, 0]⟩] ∧
    u ≠ 1 ∧ (2 : ℤ) = v.toInt := by
  obtain ⟨s, hrun, hlog⟩ := Lts.exists_run_of_map overtaken State.log
    (by decide +kernel : (overtaken.foldlM next start).map State.log =
      some ([.stored 0 2, .written 0 2, .cleared 1, .stored 0 2] ++ [.returned 1 ⟨2, [87, 0]⟩]))
  obtain h | h | ⟨l₁, m₁, m₂, u, v, hpre, hu, hcode, -⟩ := returned_code (hrun.reachable rfl) hlog
  · cases h
  · exact absurd h (by decide)
  · exact ⟨s, l₁, m₁, m₂, u, v, hrun, by rw [hlog, hpre], hu, hcode⟩

/-- Two writers whose copies are interleaved, and a reader. -/
def torn : List (Act ℕ ℕ) :=
  [.openFile 0 0, .openFile 1 1, .openFile 2 2, .openFile 3 3, .release 3 3,
    .write 0 0 (.ofList [87, 48, 48]) 3, .step 0, .step 0,
    .write 1 1 (.ofList [87, 49, 49]) 3, .step 1, .step 1, .step 1, .step 0] ++
    List.replicate 3 (.step 0) ++ List.replicate 3 (.step 1) ++
    .read 2 2 :: List.replicate 10 (.step 2)

/-- A run it is used in: the message read is neither of the two, and its first byte does not
say so. -/
theorem returned_head_torn : ∃ s, (buggyLts ℕ ℕ).Run start torn s ∧
    .returned 2 ⟨0, [87, 49, 48]⟩ ∈ s.log ∧
    ∀ log x, log <+: s.log → readerByte 2 log = some x → x = 87 := by
  obtain ⟨s, hrun, hlog⟩ := Lts.exists_run_of_map torn State.log
    (by decide +kernel : (torn.foldlM next start).map State.log =
      some [.stored 0 3, .written 0 3, .stored 1 3, .written 1 3, .cleared 2,
        .returned 2 ⟨0, [87, 49, 48]⟩])
  have hstarts : ∀ a ∈ torn, StartsWith 87 a := by
    simp [torn, StartsWith, UserBlock.fill, UserBlock.ofList]
  refine ⟨s, hrun, by rw [hlog]; simp, ?_⟩
  exact (returned_head ((hrun.to_restrict hstarts).reachable rfl) 2).2

end BuggyDevice

end KernelModules
