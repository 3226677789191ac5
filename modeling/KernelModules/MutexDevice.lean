import KernelModules.Transition
import KernelModules.UserMemory
import Mathlib.Logic.Function.Basic

/-!
# `read_write_mutex.c`

The character device that lets one session in at a time: `driver_open` takes
`my_dyn_mutex` and keeps it, `driver_close` gives it back, and `driver_read` and
`driver_write` use the buffer without a lock of their own.

Between the two stands the kernel's bookkeeping of open files, which the callbacks do not
see. An open file has one reference for each descriptor that stands for it; `dup` adds one,
`fork` adds one for each of the parent's, `close` and `exit` drop them, and `driver_close`
runs in the task that drops the last one.

* `Dev` — the buffer, with the halves of `driver_read` and `driver_write` between which
  other tasks run;
* `State`, `next` — any number of tasks that open, read, write, dup, fork, close and exit,
  with a log of what the calls returned and of who unlocked the mutex;
* `exclusive_inductive` — in every run at most one file is open, and the mutex is held by
  the task that opened it.
-/

namespace KernelModules

namespace MutexDevice

/-! ## The device -/

/-- The module's variables, the mutex apart. -/
structure Dev where
  /-- `buffer` -/
  buffer : Vector UInt8 255
  /-- `buffer_pointer` -/
  bufferPointer : ℕ

/-- The module's variables in static storage. -/
def Dev.static : Dev := ⟨Vector.replicate 255 0, 0⟩

/-- `driver_read` up to the copy: `to_copy`. -/
def Dev.readSize (d : Dev) (count : ℕ) : ℕ := min count d.bufferPointer

/-- `driver_read` from the copy on. -/
def Dev.readCopy (d : Dev) (toCopy notCopied : ℕ) : Ret :=
  let delta := toCopy - notCopied
  ⟨delta, d.buffer.toList.take delta⟩

/-- `driver_write` up to the copy: `to_copy`, bounded by `sizeof(buffer)`. -/
def writeSize (count : ℕ) : ℕ := min count 255

/-- The copy of `driver_write`. -/
def Dev.writeCopy (d : Dev) (userBuffer : UserBlock) (toCopy : ℕ) : Dev :=
  { d with buffer := copyFromUser d.buffer userBuffer toCopy }

/-- `driver_write` behind the copy. -/
def Dev.writePointer (d : Dev) (toCopy notCopied : ℕ) : Dev :=
  { d with bufferPointer := toCopy - notCopied }

/-! ## Open files and tasks -/

/-- An open file, from the return of `driver_open` until its last reference is dropped. -/
structure OpenFile (Pid : Type*) where
  /-- which session it is -/
  id : ℕ
  /-- the task that ran `driver_open` -/
  opener : Pid
  /-- one entry for each descriptor that refers to it -/
  holders : List Pid
  deriving DecidableEq

/-- Where a task is. -/
inductive Pc where
  /-- not forked yet -/
  | unborn
  /-- in user space -/
  | user
  /-- in `driver_open`, at the lock -/
  | opening
  /-- in `driver_read`, before the copy -/
  | reading (f : ℕ) (userBuffer : UserSink) (count toCopy : ℕ)
  /-- in `driver_write`, behind the copy -/
  | writing (f : ℕ) (userBuffer : UserBlock) (toCopy notCopied : ℕ)
  /-- gone -/
  | exited

/-- What the log holds. -/
inductive Event (Pid : Type*) where
  /-- a `driver_write` has returned `n` -/
  | wrote (f : ℕ) (userBuffer : UserBlock) (n : ℕ)
  /-- a `driver_read` has returned; `notCopied` is what its copy left out -/
  | read (f count notCopied : ℕ) (r : Ret)
  /-- `driver_close` has unlocked the mutex that `locker` had locked -/
  | unlocked (f : ℕ) (locker : Option Pid) (task : Pid)

/-- The module, the open files and the tasks. No step reads the log. -/
structure State (Pid : Type*) where
  /-- the module's variables -/
  dev : Dev
  /-- the task that locked `my_dyn_mutex`, if it is locked -/
  owner : Option Pid
  /-- the open files -/
  files : List (OpenFile Pid)
  /-- the sessions so far -/
  nextId : ℕ
  /-- where each task is -/
  pc : Pid → Pc
  /-- what has happened -/
  log : List (Event Pid)

/-- The step a task takes next. -/
inductive Act (Pid : Type*) where
  /-- it calls `open` -/
  | openCall (p : Pid)
  /-- it gets the lock, and its file is open -/
  | acquire (p : Pid)
  /-- a signal interrupts its lock -/
  | interrupt (p : Pid)
  /-- it calls `read` -/
  | read (p : Pid) (f : ℕ) (userBuffer : UserSink) (count : ℕ)
  /-- its read copies and returns -/
  | readReturn (p : Pid)
  /-- it calls `write`, which copies -/
  | write (p : Pid) (f : ℕ) (userBuffer : UserBlock) (count : ℕ)
  /-- its write sets the pointer and returns -/
  | writeReturn (p : Pid)
  /-- it duplicates a descriptor -/
  | dup (p : Pid) (f : ℕ)
  /-- it forks -/
  | fork (p c : Pid)
  /-- it closes a descriptor -/
  | close (p : Pid) (f : ℕ)
  /-- it exits, which closes all its descriptors -/
  | exit (p : Pid)

variable {Pid : Type*}

/-- Before the first open: some tasks are running, the others are not forked yet. -/
def start (alive : Pid → Bool) : State Pid :=
  ⟨.static, none, [], 0, fun p => if alive p then .user else .unborn, []⟩

/-- A task holds a descriptor of a file. -/
def State.Holds (s : State Pid) (p : Pid) (f : ℕ) : Prop :=
  ∃ x ∈ s.files, x.id = f ∧ p ∈ x.holders

variable [DecidableEq Pid]

instance (s : State Pid) (p : Pid) (f : ℕ) : Decidable (s.Holds p f) :=
  inferInstanceAs (Decidable (∃ x ∈ s.files, x.id = f ∧ p ∈ x.holders))

/-- One task moves. -/
def State.goto (s : State Pid) (p : Pid) (pc : Pc) : State Pid :=
  { s with pc := Function.update s.pc p pc }

/-- `driver_open` has the lock and returns 0; the task holds a descriptor. -/
def State.opened (s : State Pid) (p : Pid) : State Pid :=
  { s.goto p .user with
    owner := some p, files := s.files ++ [⟨s.nextId, p, [p]⟩], nextId := s.nextId + 1 }

/-- `driver_close`: `mutex_unlock`. -/
def State.driverClose (s : State Pid) (p : Pid) (x : OpenFile Pid) : State Pid :=
  { s with owner := none, log := s.log ++ [.unlocked x.id s.owner p] }

/-- New references to the open files. -/
def State.share (s : State Pid) (more : OpenFile Pid → List Pid) : State Pid :=
  { s with files := s.files.map fun x => { x with holders := x.holders ++ more x } }

/-- Task `p` drops references; `rest x` are those left to `x`. A file without any is closed. -/
def State.dropRefs (s : State Pid) (p : Pid) (rest : OpenFile Pid → List Pid) : State Pid :=
  let files := s.files.map fun x => { x with holders := rest x }
  (files.filter fun x => x.holders = []).foldl (fun s x => s.driverClose p x)
    { s with files := files.filter fun x => x.holders ≠ [] }

/-- What is left of the references to a file when `p` closes one descriptor of `f`. -/
def OpenFile.afterClose (p : Pid) (f : ℕ) (x : OpenFile Pid) : List Pid :=
  if x.id = f then x.holders.erase p else x.holders

/-- What is left of them when `p` exits. -/
def OpenFile.afterExit (p : Pid) (x : OpenFile Pid) : List Pid :=
  x.holders.filter (· ≠ p)

/-- One step. `none` means that the task is not where the step starts, or has no
descriptor of the file. -/
def next (s : State Pid) : Act Pid → Option (State Pid)
  | .openCall p => match s.pc p with
    | .user => some (s.goto p .opening)
    | _ => none
  | .acquire p => match s.pc p, s.owner with
    | .opening, none => some (s.opened p)
    | _, _ => none
  | .interrupt p => match s.pc p with
    | .opening => some (s.goto p .user)
    | _ => none
  | .read p f userBuffer count => match s.pc p with
    | .user =>
      if s.Holds p f then
        some (s.goto p (.reading f userBuffer count (s.dev.readSize count)))
      else none
    | _ => none
  | .readReturn p => match s.pc p with
    | .reading f userBuffer count toCopy =>
      let notCopied := userBuffer.left toCopy
      some { s.goto p .user with
        log := s.log ++ [.read f count notCopied (s.dev.readCopy toCopy notCopied)] }
    | _ => none
  | .write p f userBuffer count => match s.pc p with
    | .user =>
      if s.Holds p f then
        let toCopy := writeSize count
        some { s.goto p (.writing f userBuffer toCopy (userBuffer.left toCopy)) with
          dev := s.dev.writeCopy userBuffer toCopy }
      else none
    | _ => none
  | .writeReturn p => match s.pc p with
    | .writing f userBuffer toCopy notCopied =>
      some { s.goto p .user with
        dev := s.dev.writePointer toCopy notCopied
        log := s.log ++ [.wrote f userBuffer (toCopy - notCopied)] }
    | _ => none
  | .dup p f => match s.pc p with
    | .user =>
      if s.Holds p f then some (s.share fun x => if x.id = f then [p] else []) else none
    | _ => none
  | .fork p c => match s.pc p, s.pc c with
    | .user, .unborn =>
      some ((s.share fun x => List.replicate (x.holders.count p) c).goto c .user)
    | _, _ => none
  | .close p f => match s.pc p with
    | .user => if s.Holds p f then some (s.dropRefs p (·.afterClose p f)) else none
    | _ => none
  | .exit p => match s.pc p with
    | .user => some ((s.dropRefs p (·.afterExit p)).goto p .exited)
    | _ => none

/-- The tasks and the module as a transition system. -/
abbrev lts (alive : Pid → Bool) : Lts (State Pid) (Act Pid) :=
  Lts.ofNext (start alive) next

/-! ## What a step can do -/

/-- The steps of `next` as a relation. -/
inductive Step (s : State Pid) : Act Pid → State Pid → Prop where
  /-- a task calls `open` -/
  | openCall {p : Pid} : s.pc p = .user → Step s (.openCall p) (s.goto p .opening)
  /-- the mutex was free -/
  | acquire {p : Pid} : s.pc p = .opening → s.owner = none → Step s (.acquire p) (s.opened p)
  /-- `driver_open` returns an error -/
  | interrupt {p : Pid} : s.pc p = .opening → Step s (.interrupt p) (s.goto p .user)
  /-- `driver_read` looks at the pointer -/
  | read {p : Pid} {f : ℕ} {userBuffer : UserSink} {count : ℕ} : s.pc p = .user → s.Holds p f →
      Step s (.read p f userBuffer count)
        (s.goto p (.reading f userBuffer count (s.dev.readSize count)))
  /-- `driver_read` copies and returns -/
  | readReturn {p : Pid} {f : ℕ} {userBuffer : UserSink} {count toCopy : ℕ} :
      s.pc p = .reading f userBuffer count toCopy →
      Step s (.readReturn p) { s.goto p .user with
        log := s.log ++ [.read f count (userBuffer.left toCopy)
          (s.dev.readCopy toCopy (userBuffer.left toCopy))] }
  /-- `driver_write` copies -/
  | write {p : Pid} {f : ℕ} {userBuffer : UserBlock} {count : ℕ} : s.pc p = .user →
      s.Holds p f →
      Step s (.write p f userBuffer count)
        { s.goto p (.writing f userBuffer (writeSize count)
            (userBuffer.left (writeSize count))) with
          dev := s.dev.writeCopy userBuffer (writeSize count) }
  /-- `driver_write` sets the pointer and returns -/
  | writeReturn {p : Pid} {f : ℕ} {userBuffer : UserBlock} {toCopy notCopied : ℕ} :
      s.pc p = .writing f userBuffer toCopy notCopied →
      Step s (.writeReturn p) { s.goto p .user with
        dev := s.dev.writePointer toCopy notCopied
        log := s.log ++ [.wrote f userBuffer (toCopy - notCopied)] }
  /-- one more descriptor of the same task -/
  | dup {p : Pid} {f : ℕ} : s.pc p = .user → s.Holds p f →
      Step s (.dup p f) (s.share fun x => if x.id = f then [p] else [])
  /-- the child inherits the descriptors -/
  | fork {p c : Pid} : s.pc p = .user → s.pc c = .unborn →
      Step s (.fork p c)
        ((s.share fun x => List.replicate (x.holders.count p) c).goto c .user)
  /-- one descriptor less -/
  | close {p : Pid} {f : ℕ} : s.pc p = .user → s.Holds p f →
      Step s (.close p f) (s.dropRefs p (·.afterClose p f))
  /-- no descriptor of the task is left -/
  | exit {p : Pid} : s.pc p = .user →
      Step s (.exit p) ((s.dropRefs p (·.afterExit p)).goto p .exited)

/-- Every step of `next` is one of `Step`. -/
theorem step_of_next {s s' : State Pid} {a : Act Pid} (h : next s a = some s') : Step s a s' := by
  cases a <;> simp only [next] at h
  case openCall p | interrupt p =>
    split at h
    · next hp => cases h; constructor; exact hp
    · cases h
  case acquire p =>
    split at h
    · next hp ho => cases h; exact .acquire hp ho
    · cases h
  case read p f userBuffer count | write p f userBuffer count | dup p f | close p f =>
    split at h
    · next hp =>
      split at h
      · next hf => cases h; constructor <;> assumption
      · cases h
    · cases h
  case readReturn p =>
    split at h
    · next hp => cases h; exact .readReturn hp
    · cases h
  case writeReturn p =>
    split at h
    · next hp => cases h; exact .writeReturn hp
    · cases h
  case fork p c =>
    split at h
    · next hp hc => cases h; exact .fork hp hc
    · cases h
  case exit p =>
    split at h
    · next hp => cases h; exact .exit hp
    · cases h

@[simp] theorem State.goto_pc_self (s : State Pid) (p : Pid) (pc : Pc) :
    (s.goto p pc).pc p = pc :=
  Function.update_self ..

theorem State.goto_pc_ne (s : State Pid) {p q : Pid} (hq : q ≠ p) (pc : Pc) :
    (s.goto p pc).pc q = s.pc q :=
  Function.update_of_ne hq ..

/-! ## Dropping references -/

/-- Only references of `p` are dropped. -/
structure Drops (p : Pid) (x : OpenFile Pid) (rest : List Pid) : Prop where
  /-- the others keep theirs -/
  keeps : ∀ q ≠ p, q ∈ x.holders → q ∈ rest
  /-- nobody gets one -/
  subset : rest ⊆ x.holders

theorem drops_afterClose (p : Pid) (f : ℕ) (x : OpenFile Pid) : Drops p x (x.afterClose p f) := by
  rw [OpenFile.afterClose]
  split
  · exact ⟨fun q hq hmem => (List.mem_erase_of_ne hq).mpr hmem, List.erase_subset⟩
  · exact ⟨fun _ _ hmem => hmem, List.Subset.refl _⟩

theorem drops_afterExit (p : Pid) (x : OpenFile Pid) : Drops p x (x.afterExit p) := by
  constructor
  · intro q hq hmem
    exact List.mem_filter.mpr ⟨hmem, decide_eq_true hq⟩
  · exact fun q hmem => (List.mem_filter.mp hmem).1

omit [DecidableEq Pid] in
/-- Whoever else refers to a file keeps it open. -/
theorem Drops.eq_of_nil {p q : Pid} {x : OpenFile Pid} {rest : List Pid} (h : Drops p x rest)
    (hnil : rest = []) (hq : q ∈ x.holders) : q = p := by
  by_contra hne
  have hmem := h.keeps q hne hq
  rw [hnil] at hmem
  cases hmem

/-! ## One session at a time -/

/-- No file is open and the mutex is free, or one is and its opener holds the mutex. -/
inductive Exclusive (s : State Pid) : Prop where
  /-- nobody is in -/
  | idle : s.files = [] → s.owner = none → Exclusive s
  /-- one session -/
  | session {x : OpenFile Pid} : s.files = [x] → s.owner = some x.opener → x.holders ≠ [] →
      Exclusive s

omit [DecidableEq Pid] in
theorem Exclusive.unique {s : State Pid} (h : Exclusive s) {x y : OpenFile Pid}
    (hx : x ∈ s.files) (hy : y ∈ s.files) : x = y := by
  obtain ⟨hfiles, -⟩ | ⟨hfiles, -, -⟩ := h
  · rw [hfiles] at hx
    cases hx
  · rw [hfiles] at hx hy
    exact (List.mem_singleton.mp hx).trans (List.mem_singleton.mp hy).symm

omit [DecidableEq Pid] in
theorem Exclusive.holders_ne_nil {s : State Pid} (h : Exclusive s) {x : OpenFile Pid}
    (hx : x ∈ s.files) : x.holders ≠ [] := by
  obtain ⟨hfiles, -⟩ | ⟨hfiles, -, hne⟩ := h
  · rw [hfiles] at hx
    cases hx
  · rw [hfiles] at hx
    obtain rfl := List.mem_singleton.mp hx
    exact hne

/-- What dropping references does while at most one file is open. -/
inductive Dropped (s : State Pid) (p : Pid) (rest : OpenFile Pid → List Pid) :
    State Pid → Prop where
  /-- no file was open -/
  | idle : s.files = [] → s.owner = none → Dropped s p rest s
  /-- somebody still refers to the file -/
  | kept {x : OpenFile Pid} : s.files = [x] → rest x ≠ [] →
      Dropped s p rest { s with files := [{ x with holders := rest x }] }
  /-- nobody does: `driver_close` runs in the task that dropped the last reference -/
  | closed {x : OpenFile Pid} : s.files = [x] → rest x = [] →
      Dropped s p rest
        { s with files := [], owner := none, log := s.log ++ [.unlocked x.id (some x.opener) p] }

omit [DecidableEq Pid] in
theorem Exclusive.dropRefs {s : State Pid} (h : Exclusive s) (p : Pid)
    (rest : OpenFile Pid → List Pid) : Dropped s p rest (s.dropRefs p rest) := by
  obtain ⟨hfiles, howner⟩ | @⟨x, hfiles, howner, -⟩ := h
  · have hsame : s.dropRefs p rest = s := by
      obtain ⟨dev, owner, files, nextId, pc, log⟩ := s
      obtain rfl : files = [] := hfiles
      rfl
    rw [hsame]
    exact .idle hfiles howner
  · by_cases hrest : rest x = []
    · have hclosed := Dropped.closed (p := p) hfiles hrest
      simpa [State.dropRefs, State.driverClose, hfiles, hrest, howner] using hclosed
    · have hkept := Dropped.kept (p := p) hfiles hrest
      simpa [State.dropRefs, hfiles, hrest] using hkept

omit [DecidableEq Pid] in
/-- What dropping references leaves as it was. -/
theorem Dropped.frame {s s' : State Pid} {p : Pid} {rest : OpenFile Pid → List Pid}
    (hd : Dropped s p rest s') : s'.dev = s.dev ∧ s'.nextId = s.nextId ∧ s'.pc = s.pc := by
  cases hd <;> exact ⟨rfl, rfl, rfl⟩

omit [DecidableEq Pid] in
theorem Dropped.exclusive {s s' : State Pid} {p : Pid} {rest : OpenFile Pid → List Pid}
    (h : Exclusive s) (hd : Dropped s p rest s') : Exclusive s' := by
  cases hd with
  | idle hfiles howner => exact .idle hfiles howner
  | @kept x hfiles hrest =>
    obtain ⟨hnil, -⟩ | ⟨hx, howner, -⟩ := h
    · rw [hnil] at hfiles
      cases hfiles
    · rw [hfiles] at hx
      cases hx
      exact .session rfl howner hrest
  | closed _ _ => exact .idle rfl rfl

omit [DecidableEq Pid] in
/-- More references leave the session what it is. -/
theorem Exclusive.share {s : State Pid} (h : Exclusive s) (more : OpenFile Pid → List Pid) :
    Exclusive (s.share more) := by
  obtain ⟨hfiles, howner⟩ | @⟨x, hfiles, howner, hne⟩ := h
  · exact .idle (by rw [State.share, hfiles]; rfl) howner
  · refine .session (x := { x with holders := x.holders ++ more x })
      (by rw [State.share, hfiles]; rfl) howner ?_
    exact List.append_ne_nil_of_left_ne_nil hne _

omit [DecidableEq Pid] in
/-- Being exclusive is about the files and the mutex only. -/
theorem Exclusive.congr {s s' : State Pid} (h : Exclusive s) (hfiles : s'.files = s.files)
    (howner : s'.owner = s.owner) : Exclusive s' := by
  obtain ⟨hf, ho⟩ | ⟨hf, ho, hne⟩ := h
  · exact .idle (hfiles.trans hf) (howner.trans ho)
  · exact .session (hfiles.trans hf) (howner.trans ho) hne

theorem Exclusive.step {s s' : State Pid} {a : Act Pid} (h : Exclusive s) (hs : Step s a s') :
    Exclusive s' := by
  cases hs with
  | openCall _ | interrupt _ | read _ _ | readReturn _ | write _ _ | writeReturn _ =>
    exact h.congr rfl rfl
  | @acquire p _ howner =>
    obtain ⟨hfiles, -⟩ | ⟨-, ho, -⟩ := h
    · exact .session (by rw [State.opened, hfiles]; rfl) rfl (List.cons_ne_nil p [])
    · -- a session would hold the mutex
      rw [ho] at howner
      cases howner
  | dup _ _ => exact h.share _
  | fork _ _ => exact (h.share _).congr rfl rfl
  | close _ _ => exact (h.dropRefs _ _).exclusive h
  | exit _ => exact ((h.dropRefs _ _).exclusive h).congr rfl rfl

/-- **One session at a time**, in every run. -/
theorem exclusive_inductive (alive : Pid → Bool) :
    (lts alive).Inductive fun s => Exclusive s where
  init hi := by
    cases hi
    exact .idle rfl rfl
  step h hs := h.step (step_of_next hs)

end MutexDevice

end KernelModules
