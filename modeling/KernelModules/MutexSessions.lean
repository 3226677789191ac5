import KernelModules.MutexDevice
import KernelModules.Monitor

/-!
# Sessions on `read_write_mutex.c`

What a session sees of the buffer when each open file is used and closed by its opener
only: the opener's calls follow one another, nobody else is let in, so a read returns what
the session's last write has stored.

* `SessionInv` — the open file is the only one whose calls are under way, and the buffer
  holds its last write, except between the two halves of a write;
* `sessions_read_their_writes` — the result.
-/

namespace KernelModules

namespace MutexDevice

variable {Pid : Type*}

/-! ## The log of a session -/

/-- The session an event belongs to. -/
def Event.file : Event Pid → ℕ
  | .wrote f _ _ => f
  | .read f _ _ _ => f
  | .unlocked f _ _ => f

/-- The write of session `f` that an event is, with the value it returned. -/
def Event.writeOf (f : ℕ) : Event Pid → Option (UserBlock × ℕ)
  | .wrote g userBuffer n => if g = f then some (userBuffer, n) else none
  | _ => none

/-- The last write of session `f`, with the value it returned. -/
def lastWrite (f : ℕ) (log : List (Event Pid)) : Option (UserBlock × ℕ) :=
  (log.filterMap (·.writeOf f)).getLast?

theorem lastWrite_concat (f : ℕ) (log : List (Event Pid)) (e : Event Pid) :
    lastWrite f (log ++ [e]) = (e.writeOf f).or (lastWrite f log) := by
  rcases he : e.writeOf f with _ | w
  · simp [lastWrite, List.filterMap_append, he]
  · simp [lastWrite, List.filterMap_append, he]

/-- A session that has not begun has written nothing. -/
theorem lastWrite_eq_none {f : ℕ} {log : List (Event Pid)} (h : ∀ e ∈ log, e.file < f) :
    lastWrite f log = none := by
  have hnil : log.filterMap (·.writeOf f) = [] := by
    rw [List.filterMap_eq_nil_iff]
    intro e he
    have hlt := h e he
    cases e with
    | wrote g userBuffer n =>
      rw [Event.file] at hlt
      exact if_neg (Nat.ne_of_lt hlt)
    | read _ _ _ _ | unlocked _ _ _ => rfl
  rw [lastWrite, hnil, List.getLast?_nil]

/-- A read that does not fault returns the first bytes of the last write before it. -/
def Event.ReadsLast (pre : List (Event Pid)) : Event Pid → Prop
  | .read f count notCopied r => notCopied = 0 → ∀ userBuffer n,
      lastWrite f pre = some (userBuffer, n) →
      r = ⟨(min count n : ℕ), userBuffer.first (min count n)⟩
  | _ => True

/-- So do all the reads of a log. -/
def ReadsLastWrite (log : List (Event Pid)) : Prop :=
  ∀ pre e post, log = pre ++ e :: post → e.ReadsLast pre

theorem ReadsLastWrite.concat {log : List (Event Pid)} {e : Event Pid} (h : ReadsLastWrite log)
    (he : e.ReadsLast log) : ReadsLastWrite (log ++ [e]) := forall_split_concat.mpr ⟨h, he⟩

/-! ## The buffer of a session -/

/-- The buffer holds a write: its pointer and, in front, the bytes of the caller. -/
def Dev.HoldsWrite (d : Dev) (w : Option (UserBlock × ℕ)) : Prop :=
  ∀ userBuffer n, w = some (userBuffer, n) →
    d.bufferPointer = n ∧ d.buffer.toList.take n = userBuffer.first n

/-- What the buffer holds while the opener is at `pc` and `w` is the session's last write. -/
def Dev.Current (d : Dev) (w : Option (UserBlock × ℕ)) : Pc → Prop
  | .writing _ userBuffer toCopy notCopied =>
    d.buffer.toList.take (toCopy - notCopied) = userBuffer.first (toCopy - notCopied)
  | .reading _ _ count toCopy => toCopy = min count d.bufferPointer ∧ d.HoldsWrite w
  | _ => d.HoldsWrite w

theorem writeSize_le (count : ℕ) : writeSize count ≤ 255 := min_le_right ..

/-- The first half of a write stores what it copies. -/
theorem Dev.current_writeCopy (d : Dev) (w : Option (UserBlock × ℕ)) (f : ℕ)
    (userBuffer : UserBlock) (count : ℕ) :
    (d.writeCopy userBuffer (writeSize count)).Current w
      (.writing f userBuffer (writeSize count) (userBuffer.left (writeSize count))) :=
  take_copied d.buffer userBuffer (writeSize_le count)

/-- The second half makes it the session's last write. -/
theorem Dev.holdsWrite_writePointer {d : Dev} {w : Option (UserBlock × ℕ)} {f : ℕ}
    {userBuffer : UserBlock} {toCopy notCopied : ℕ}
    (h : d.Current w (.writing f userBuffer toCopy notCopied)) :
    (d.writePointer toCopy notCopied).HoldsWrite (some (userBuffer, toCopy - notCopied)) := by
  rintro userBuffer n ⟨⟩
  exact ⟨rfl, h⟩

/-- A read that copies everything returns the front of the last write. -/
theorem Dev.readCopy_eq {d : Dev} {w : Option (UserBlock × ℕ)} {f : ℕ} {sink : UserSink}
    {count toCopy : ℕ} (h : d.Current w (.reading f sink count toCopy)) {userBuffer : UserBlock}
    {n : ℕ} (hw : w = some (userBuffer, n)) :
    d.readCopy toCopy 0 = ⟨(min count n : ℕ), userBuffer.first (min count n)⟩ := by
  obtain ⟨rfl, hholds⟩ := h
  obtain ⟨rfl, htake⟩ := hholds userBuffer n hw
  have hfront : d.buffer.toList.take (min count d.bufferPointer) =
      userBuffer.first (min count d.bufferPointer) := by
    calc d.buffer.toList.take (min count d.bufferPointer)
        = (d.buffer.toList.take d.bufferPointer).take (min count d.bufferPointer) := by
          rw [List.take_take, min_eq_left (min_le_right ..)]
      _ = userBuffer.first (min count d.bufferPointer) := by
          rw [htake, UserBlock.take_first, min_eq_left (min_le_right ..)]
  rw [Dev.readCopy, Nat.sub_zero, hfront]

/-! ## The invariant -/

/-- The session whose call is under way. -/
def Pc.uses : Pc → Option ℕ
  | .reading f _ _ _ => some f
  | .writing f _ _ _ => some f
  | _ => none

theorem Dev.current_of_uses_none {d : Dev} {w : Option (UserBlock × ℕ)} {pc : Pc}
    (h : pc.uses = none) : d.Current w pc ↔ d.HoldsWrite w := by
  cases pc <;> first | exact Iff.rfl | cases h

/-- The open files, each with its opener. -/
def State.sessions (s : State Pid) : List (ℕ × Pid) := s.files.map fun x => (x.id, x.opener)

/-- What holds of the sessions while files are used by their openers only. -/
structure SessionInv (s : State Pid) : Prop where
  /-- the open files have begun -/
  known : ∀ k ∈ s.sessions, k.1 < s.nextId
  /-- so have those of the past -/
  past : ∀ e ∈ s.log, e.file < s.nextId
  /-- a call under way is one of the opener of an open file -/
  busy : ∀ p f, (s.pc p).uses = some f → (f, p) ∈ s.sessions
  /-- the buffer belongs to the session that is open -/
  buffer : ∀ f p, (f, p) ∈ s.sessions → s.dev.Current (lastWrite f s.log) (s.pc p)
  /-- what reads have returned so far -/
  reads : ReadsLastWrite s.log

theorem Exclusive.sessions_unique {s : State Pid} (h : Exclusive s) {k k' : ℕ × Pid}
    (hk : k ∈ s.sessions) (hk' : k' ∈ s.sessions) : k = k' := by
  obtain ⟨x, hx, rfl⟩ := List.mem_map.mp hk
  obtain ⟨y, hy, rfl⟩ := List.mem_map.mp hk'
  rw [h.unique hx hy]

theorem State.share_sessions (s : State Pid) (more : OpenFile Pid → List Pid) :
    (s.share more).sessions = s.sessions := by
  simp [State.sessions, State.share]

/-- Dropping references keeps the session or ends it. -/
theorem Dropped.sessions {s s' : State Pid} {p : Pid} {rest : OpenFile Pid → List Pid}
    (hd : Dropped s p rest s') :
    s'.sessions = s.sessions ∧ s'.log = s.log ∨
      ∃ x, s.files = [x] ∧ rest x = [] ∧ s'.sessions = [] ∧
        s'.log = s.log ++ [.unlocked x.id (some x.opener) p] := by
  cases hd with
  | idle _ _ => exact .inl ⟨rfl, rfl⟩
  | kept hfiles _ => exact .inl ⟨by simp [State.sessions, hfiles], rfl⟩
  | @closed x hfiles hrest => exact .inr ⟨x, hfiles, hrest, rfl, rfl⟩

variable [DecidableEq Pid]

/-- Each open file is used and closed only by the task that opened it. -/
def ByOpener (s : State Pid) : Act Pid → Prop
  | .read p f _ _ | .write p f _ _ | .close p f => ∀ x ∈ s.files, x.id = f → x.opener = p
  | .exit p => ∀ x ∈ s.files, p ∈ x.holders → x.opener = p
  | _ => True

instance (s : State Pid) (a : Act Pid) : Decidable (ByOpener s a) :=
  match a with
  | .read p f _ _ | .write p f _ _ | .close p f =>
    inferInstanceAs (Decidable (∀ x ∈ s.files, x.id = f → x.opener = p))
  | .exit p => inferInstanceAs (Decidable (∀ x ∈ s.files, p ∈ x.holders → x.opener = p))
  | .openCall _ | .acquire _ | .interrupt _ | .readReturn _ | .writeReturn _ | .dup ..
  | .fork .. => isTrue trivial

omit [DecidableEq Pid] in
/-- A task that may use a file is its opener. -/
theorem State.Holds.opener {s : State Pid} {p : Pid} {f : ℕ} (h : s.Holds p f)
    (hP : ∀ x ∈ s.files, x.id = f → x.opener = p) : (f, p) ∈ s.sessions := by
  obtain ⟨x, hmem, hid, -⟩ := h
  exact List.mem_map.mpr ⟨x, hmem, by rw [hid, hP x hmem hid]⟩

/-- A task goes from one place where no call is under way to another. -/
theorem SessionInv.goto {s s' : State Pid} (h : SessionInv s) (p : Pid) (pc : Pc)
    (hold : (s.pc p).uses = none) (hnew : pc.uses = none) (hsessions : s'.sessions = s.sessions)
    (hdev : s'.dev = s.dev) (hid : s'.nextId = s.nextId) (hlog : s'.log = s.log)
    (hpc : s'.pc = Function.update s.pc p pc) : SessionInv s' := by
  have hfree : ∀ q, (s'.pc q).uses = (s.pc q).uses := by
    intro q
    rw [hpc]
    by_cases hq : q = p
    · rw [hq, Function.update_self, hnew, hold]
    · rw [Function.update_of_ne hq]
  refine ⟨?_, ?_, ?_, ?_, ?_⟩
  · rw [hsessions, hid]
    exact h.known
  · rw [hlog, hid]
    exact h.past
  · intro q f hq
    rw [hsessions]
    exact h.busy q f (hfree q ▸ hq)
  · intro f q hmem
    rw [hsessions] at hmem
    have hbuffer := h.buffer f q hmem
    rw [hdev, hlog]
    by_cases hq : q = p
    · rw [hq] at hbuffer ⊢
      rw [hpc, Function.update_self, Dev.current_of_uses_none hnew]
      rwa [Dev.current_of_uses_none hold] at hbuffer
    · rw [hpc, Function.update_of_ne hq]
      exact hbuffer
  · rw [hlog]
    exact h.reads

/-- The opener takes a step of a call on its file, the only one that is open. -/
theorem SessionInv.own {s s' : State Pid} (hx : Exclusive s) (h : SessionInv s) {f : ℕ} {p : Pid}
    (hkey : (f, p) ∈ s.sessions) (pc : Pc) (new : List (Event Pid))
    (hsessions : s'.sessions = s.sessions) (hid : s'.nextId = s.nextId)
    (hpc : s'.pc = Function.update s.pc p pc) (huses : ∀ g, pc.uses = some g → g = f)
    (hlog : s'.log = s.log ++ new) (hnew : ∀ e ∈ new, e.file = f)
    (hreads : ReadsLastWrite s'.log) (hcurrent : s'.dev.Current (lastWrite f s'.log) pc) :
    SessionInv s' := by
  refine ⟨?_, ?_, ?_, ?_, hreads⟩
  · rw [hsessions, hid]
    exact h.known
  · intro e he
    rw [hlog] at he
    rw [hid]
    rcases List.mem_append.mp he with he | he
    · exact h.past e he
    · rw [hnew e he]
      exact h.known _ hkey
  · intro q g hq
    rw [hsessions]
    rw [hpc] at hq
    by_cases hqp : q = p
    · rw [hqp, Function.update_self] at hq
      rw [hqp, huses g hq]
      exact hkey
    · rw [Function.update_of_ne hqp] at hq
      exact h.busy q g hq
  · intro g q hmem
    rw [hsessions] at hmem
    cases hx.sessions_unique hmem hkey
    rw [hpc, Function.update_self]
    exact hcurrent

/-- A new session has written nothing yet. -/
theorem SessionInv.opened {s : State Pid} (hx : Exclusive s) (h : SessionInv s) {p : Pid}
    (howner : s.owner = none) : SessionInv (s.opened p) := by
  have hnil : s.files = [] := by
    obtain ⟨hnil, -⟩ | ⟨-, ho, -⟩ := hx
    · exact hnil
    · rw [ho] at howner
      cases howner
  have hsessions : (s.opened p).sessions = [(s.nextId, p)] := by
    rw [State.sessions, State.opened, hnil]
    rfl
  refine ⟨?_, fun e he => Nat.lt_succ_of_lt (h.past e he), ?_, ?_, h.reads⟩
  · intro k hk
    rw [hsessions] at hk
    obtain rfl := List.mem_singleton.mp hk
    exact Nat.lt_succ_self _
  · intro q f hq
    by_cases hqp : q = p
    · rw [State.opened, hqp, State.goto_pc_self] at hq
      cases hq
    · rw [State.opened, State.goto_pc_ne _ hqp] at hq
      have hbusy := h.busy q f hq
      rw [State.sessions, hnil] at hbusy
      cases hbusy
  · intro f q hmem
    rw [hsessions] at hmem
    cases List.mem_singleton.mp hmem
    have hnone : lastWrite s.nextId s.log = none := lastWrite_eq_none h.past
    rw [State.opened, State.goto_pc_self]
    intro userBuffer n hw
    cases hnone.symm.trans hw

omit [DecidableEq Pid] in
/-- A session ends while its opener is in user space. -/
theorem SessionInv.dropped {s s' : State Pid} (h : SessionInv s) {p : Pid}
    {rest : OpenFile Pid → List Pid} (hp : s.pc p = .user)
    (hlast : ∀ x ∈ s.files, rest x = [] → x.opener = p) (hd : Dropped s p rest s') :
    SessionInv s' := by
  obtain ⟨hdev, hid, hpc⟩ := hd.frame
  rcases hd.sessions with ⟨hsessions, hlog⟩ | ⟨x, hfiles, hrest, hsessions, hlog⟩
  · refine ⟨?_, ?_, ?_, ?_, ?_⟩
    · rw [hsessions, hid]
      exact h.known
    · rw [hlog, hid]
      exact h.past
    · rw [hpc, hsessions]
      exact h.busy
    · rw [hpc, hsessions, hlog, hdev]
      exact h.buffer
    · rw [hlog]
      exact h.reads
  · have hmem : x ∈ s.files := hfiles ▸ List.mem_cons_self ..
    have hopener : x.opener = p := hlast x hmem hrest
    refine ⟨?_, ?_, ?_, ?_, ?_⟩
    · rw [hsessions]
      exact fun _ hk => absurd hk List.not_mem_nil
    · intro e he
      rw [hlog] at he
      rw [hid]
      rcases List.mem_append.mp he with he | he
      · exact h.past e he
      · obtain rfl := List.mem_singleton.mp he
        exact h.known _ (List.mem_map_of_mem hmem)
    · intro q f hq
      -- only the opener could be in a call, and it is closing
      rw [hpc] at hq
      have hbusy := h.busy q f hq
      rw [State.sessions, hfiles] at hbusy
      cases List.mem_singleton.mp hbusy
      rw [hopener, hp] at hq
      cases hq
    · rw [hsessions]
      exact fun _ _ hk => absurd hk List.not_mem_nil
    · rw [hlog]
      exact h.reads.concat trivial

/-- Every step of a task that keeps to its own files keeps the invariant. -/
theorem SessionInv.step {s s' : State Pid} {a : Act Pid} (hx : Exclusive s) (h : SessionInv s)
    (hP : ByOpener s a) (hs : Step s a s') : SessionInv s' := by
  cases hs with
  | openCall hp => exact h.goto _ _ (by rw [hp]; rfl) rfl rfl rfl rfl rfl rfl
  | interrupt hp => exact h.goto _ _ (by rw [hp]; rfl) rfl rfl rfl rfl rfl rfl
  | acquire _ howner => exact h.opened hx howner
  | @read p f userBuffer count hp hholds =>
    have hkey := hholds.opener hP
    have hbuffer := h.buffer f p hkey
    rw [hp] at hbuffer
    exact h.own hx hkey _ [] rfl rfl rfl (fun g hg => (Option.some.inj hg).symm)
      (List.append_nil _).symm (fun _ he => absurd he List.not_mem_nil) h.reads ⟨rfl, hbuffer⟩
  | @readReturn p f userBuffer count toCopy hp =>
    have hkey := h.busy p f (by rw [hp]; rfl)
    have hbuffer := h.buffer f p hkey
    rw [hp] at hbuffer
    refine h.own hx hkey .user _ rfl rfl rfl nofun rfl ?_ (h.reads.concat ?_) ?_
    · exact fun e he => List.mem_singleton.mp he ▸ rfl
    · intro hzero written n hw
      rw [hzero]
      exact Dev.readCopy_eq hbuffer hw
    · rw [lastWrite_concat]
      exact hbuffer.2
  | @write p f userBuffer count hp hholds =>
    have hkey := hholds.opener hP
    exact h.own hx hkey _ [] rfl rfl rfl (fun g hg => (Option.some.inj hg).symm)
      (List.append_nil _).symm (fun _ he => absurd he List.not_mem_nil) h.reads
      (s.dev.current_writeCopy _ f userBuffer count)
  | @writeReturn p f userBuffer toCopy notCopied hp =>
    have hkey := h.busy p f (by rw [hp]; rfl)
    have hbuffer := h.buffer f p hkey
    rw [hp] at hbuffer
    refine h.own hx hkey .user _ rfl rfl rfl nofun rfl ?_ (h.reads.concat trivial) ?_
    · exact fun e he => List.mem_singleton.mp he ▸ rfl
    · rw [lastWrite_concat, Event.writeOf, if_pos rfl]
      exact Dev.holdsWrite_writePointer hbuffer
  | @dup p f hp _ =>
    refine h.goto p .user (by rw [hp]; rfl) rfl (s.share_sessions _) rfl rfl rfl ?_
    rw [← hp, Function.update_eq_self]
    rfl
  | fork _ hc => exact h.goto _ _ (by rw [hc]; rfl) rfl (s.share_sessions _) rfl rfl rfl rfl
  | @close p f hp hholds =>
    refine h.dropped hp (fun x hmem _ => ?_) (hx.dropRefs _ _)
    obtain ⟨y, hy, hid, -⟩ := hholds
    rw [hx.unique hmem hy]
    exact hP y hy hid
  | @exit p hp =>
    have hd := hx.dropRefs p (·.afterExit p)
    have hdropped : SessionInv (s.dropRefs p (·.afterExit p)) := by
      refine h.dropped hp (fun x hmem hnil => hP x hmem ?_) hd
      -- a file that is closed had no other holder
      obtain ⟨q, hq⟩ := List.exists_mem_of_ne_nil _ (hx.holders_ne_nil hmem)
      exact (drops_afterExit p x).eq_of_nil hnil hq ▸ hq
    refine hdropped.goto p .exited ?_ rfl rfl rfl rfl rfl rfl
    rw [hd.frame.2.2, hp]
    rfl

/-- **The invariant of a session**, in every run in which files are used by their openers. -/
theorem sessionInv_inductive (alive : Pid → Bool) :
    ((lts alive).restrict ByOpener).Inductive fun s => Exclusive s ∧ SessionInv s := by
  refine Lts.Inductive.and ((exclusive_inductive alive).restrict _) ?_ ?_
  · intro s hi
    cases hi
    refine ⟨?_, ?_, fun p f hp => ?_, ?_, ?_⟩
    · exact fun _ hk => absurd hk List.not_mem_nil
    · exact fun _ he => absurd he List.not_mem_nil
    · simp only [start] at hp
      split at hp <;> cases hp
    · exact fun _ _ hk => absurd hk List.not_mem_nil
    · exact fun pre e post heq => nomatch (List.append_eq_nil_iff.mp heq.symm).2
  · intro s s' a hx h hs
    exact h.step hx hs.1 (step_of_next hs.2)

/-- **Sessions read their own writes**: while each open file is used and closed by its
opener only, at most one is open, the mutex is locked exactly while one is, and a read that
does not fault returns the first bytes of the session's last write, if there was one. -/
theorem sessions_read_their_writes {alive : Pid → Bool} {s : State Pid}
    (hs : ((lts alive).restrict ByOpener).Reachable s) :
    s.files.length ≤ 1 ∧ (s.owner.isSome ↔ s.files ≠ []) ∧
      ∀ pre post f count r, s.log = pre ++ .read f count 0 r :: post →
        ∀ userBuffer n, lastWrite f pre = some (userBuffer, n) →
          r = ⟨(min count n : ℕ), userBuffer.first (min count n)⟩ := by
  obtain ⟨hx, h⟩ := (sessionInv_inductive alive).reachable hs
  refine ⟨?_, ?_, fun pre post f count r hlog => h.reads pre _ post hlog rfl⟩
  · obtain ⟨hfiles, -⟩ | ⟨hfiles, -, -⟩ := hx <;> simp [hfiles]
  · obtain ⟨hfiles, howner⟩ | ⟨hfiles, howner, -⟩ := hx <;> simp [hfiles, howner]

/-- Three bytes written and two read back while another task waits in `open`. -/
def twoOfThree : List (Act Monitor.Duo) :=
  [.openCall .one, .acquire .one, .openCall .two,
    .write .one 0 (.ofList [104, 105, 33]) 3, .writeReturn .one,
    .read .one 0 ⟨fun _ => 0, fun _ => Nat.zero_le _⟩ 2, .interrupt .two, .readReturn .one]

theorem sessions_read_their_writes_two : ∃ (s : State Monitor.Duo) (r : Ret),
    ((lts fun _ => true).restrict ByOpener).Reachable s ∧
      s.log = [.wrote 0 (.ofList [104, 105, 33]) 3, .read 0 2 0 r] ∧ r = ⟨2, [104, 105]⟩ := by
  have hs := Lts.reachable_restrict_of_foldlM (P := ByOpener) (.init rfl)
    (rfl : twoOfThree.foldlM (Lts.guardNext next ByOpener) (start fun _ => true) = some _)
  exact ⟨_, _, hs, rfl, (sessions_read_their_writes hs).2.2
    [.wrote 0 (.ofList [104, 105, 33]) 3] [] 0 2 _ rfl (.ofList [104, 105, 33]) 3 rfl⟩

end MutexDevice

end KernelModules
