import KernelModules.KbdmonEvents
import KernelModules.KbdmonQueue
import KernelModules.SmallWakeups

/-!
# The ring of `kbdmon_chrdev.c`, one statement at a time

`push_event` stores an event, moves `head` and then, if it has met `tail`, moves `tail`; all under
`ring_lock`. `wait_event_interruptible` compares the two without it. So a reader that looks between
the two assignments of a push onto 127 events finds `head == tail`, and takes a full ring for an
empty one.

* `KbdPlace`, `kbdSteps` — the critical sections, with one step for each statement;
* `kbdSteps_implements` — a section that is left alone does what `kbdBody` does;
* `kbdmon_steps_refine_queue` — **the ring is a queue of 127 events, statement by statement**, and
  looks empty without the lock where it is empty before or behind the section, or full;
* `kbdmon_wake_due` — **no wake-up is lost** for all that.
-/

namespace KernelModules

namespace KbdmonChrdev

/-! ## The sections -/

/-- How far a critical section has got. -/
inductive KbdPlace where
  /-- in `push_event`, at `ring[head].code = code` -/
  | pushCode (code : UInt16) (value : UInt8)
  /-- at `ring[head].value = value` -/
  | pushValue (code : UInt16) (value : UInt8)
  /-- at `head = (head + 1) % BUF_SIZE` -/
  | pushHead (code : UInt16) (value : UInt8)
  /-- at `if (head == tail)` -/
  | pushTest (code : UInt16) (value : UInt8)
  /-- at `tail = (tail + 1) % BUF_SIZE` -/
  | pushTail (code : UInt16) (value : UInt8)
  /-- in `kbdmon_read`, at `ev = ring[tail]` -/
  | readEvent (buf : UserDst)
  /-- at `tail = (tail + 1) % BUF_SIZE` -/
  | readTail (buf : UserDst) (ev : KeyEvent)

theorem KbdRing.head_lt (d : KbdRing) : d.head < bufSize := d.head.isLt

/-- The ring once `ring[head]` is `ev`. -/
def KbdRing.put (d : KbdRing) (ev : KeyEvent) : KbdRing :=
  { d with ring := d.ring.set d.head ev d.head_lt }

/-- The statement at each place. The copy to the user comes behind the lock, from `ev`. -/
def kbdStmt : KbdPlace → KbdRing → Stmt KbdRing KbdPlace KbdQueue KbdRet
  | .pushCode code value, d =>
    .more (d.put { d.ring.get d.head with code := code }) (.pushValue code value)
  | .pushValue code value, d =>
    .more (d.put { d.ring.get d.head with value := value }) (.pushHead code value)
  | .pushHead code value, d => .more { d with head := d.head.next } (.pushTest code value)
  | .pushTest code value, d =>
    if d.head = d.tail then .more d (.pushTail code value) else .done ⟨d, ⟨0, none⟩, some .readq⟩
  | .pushTail _ _, d => .done ⟨d.advance, ⟨0, none⟩, some .readq⟩
  | .readEvent buf, d => .more d (.readTail buf d.front)
  | .readTail buf ev, d =>
    .done ⟨d.advance, if buf.accepts sizeofKeyEvent then ⟨sizeofKeyEvent, some ev⟩
      else ⟨-efault, none⟩, none⟩

/-- The critical sections in small steps. -/
def kbdSteps : SmallSteps KbdRing KbdQueue KbdCall KbdRet KbdPlace where
  first
    | .push code value, _ => .pushCode code value
    | .read buf _, _ => .readEvent buf
  stmt := kbdStmt

/-! ## The ring at each place -/

/-- The ring at a place of a section that has started on `d`. -/
def ringAt (d : KbdRing) : KbdPlace → KbdRing
  | .pushCode _ _ | .readEvent _ | .readTail _ _ => d
  | .pushValue code _ => d.put { d.ring.get d.head with code := code }
  | .pushHead code value => d.put ⟨code, value⟩
  | .pushTest code value | .pushTail code value => d.store ⟨code, value⟩

/-- A place of the section of a call that has started on `d`. -/
def KbdPlace.Of (d : KbdRing) : KbdPlace → KbdCall → Prop
  | .pushCode code value, c | .pushValue code value, c | .pushHead code value, c
  | .pushTest code value, c => c = .push code value
  | .pushTail code value, c => c = .push code value ∧ d.head.next = d.tail
  | .readEvent buf, c => ∃ len, c = .read buf len
  | .readTail buf ev, c => (∃ len, c = .read buf len) ∧ ev = d.front

/-- What is known of a section that is under way. -/
structure Underway (c : KbdCall) (d : KbdRing) (k : KbdPlace) (d' : KbdRing) : Prop where
  /-- where it is -/
  place : k.Of d c
  /-- what it has done -/
  ring : d' = ringAt d k

theorem KbdRing.put_put (d : KbdRing) (ev ev' : KeyEvent) : (d.put ev).put ev' = d.put ev' := by
  simp [KbdRing.put]

theorem KbdRing.get_put (d : KbdRing) (ev : KeyEvent) :
    (d.put ev).ring.get (d.put ev).head = ev := by
  change (d.ring.set d.head ev)[(d.head : ℕ)] = ev
  exact Vector.getElem_set_self ..

theorem KbdRing.put_head (d : KbdRing) (ev : KeyEvent) :
    { d.put ev with head := (d.put ev).head.next } = d.store ev := rfl

theorem Underway.more {c : KbdCall} {d d' d'' : KbdRing} {k k' : KbdPlace}
    (h : Underway c d k d') (hstmt : kbdStmt k d' = .more d'' k') : Underway c d k' d'' := by
  obtain ⟨hplace, rfl⟩ := h
  cases k with
  | pushCode code value => cases hstmt; exact ⟨hplace, rfl⟩
  | pushValue code value =>
    cases hstmt
    refine ⟨hplace, ?_⟩
    simp only [ringAt, KbdRing.get_put, KbdRing.put_put]
  | pushHead code value => cases hstmt; exact ⟨hplace, rfl⟩
  | pushTest code value =>
    rw [kbdStmt] at hstmt
    split at hstmt
    · next hmeet => cases hstmt; exact ⟨⟨hplace, hmeet⟩, rfl⟩
    · cases hstmt
  | pushTail code value => cases hstmt
  | readEvent buf => cases hstmt; exact ⟨⟨hplace, rfl⟩, rfl⟩
  | readTail buf ev => cases hstmt

/-- **A section that is left alone** does what `kbdBody` does in one step. -/
theorem kbdSteps_implements : kbdSteps.Implements kbdMonitor := by
  intro c via d
  change kbdSteps.Leads _ d (kbdBody c d)
  cases c with
  | push code value =>
    refine .more rfl (.more rfl ?_)
    rw [KbdRing.get_put, KbdRing.put_put]
    refine .more rfl ?_
    rw [KbdRing.put_head]
    change kbdSteps.Leads (.pushTest code value) _ ⟨pushEvent code value d, _, _⟩
    by_cases hmeet : (d.store ⟨code, value⟩).head = (d.store ⟨code, value⟩).tail
    · rw [pushEvent, if_pos hmeet]
      exact .more (if_pos hmeet) (.done rfl)
    · rw [pushEvent, if_neg hmeet]
      exact .done (if_neg hmeet)
  | read buf len =>
    refine .more rfl (.done ?_)
    rw [kbdBody, kbdmonDequeue]
    change Stmt.done _ = _
    congr 1
    split <;> rfl

/-! ## The queue -/

/-- A read finds an event. -/
def Fed (c : KbdCall) (_ : Option KbdQueue) (d : KbdRing) : Prop :=
  ∀ buf len, c = .read buf len → d.nonempty = true

/-- What a section does to the queue. -/
def queueEvent (d : KbdRing) : KbdCall → Fifo.DropEvent KeyEvent
  | .push code value => .push ⟨code, value⟩
  | .read _ _ => .pop d.front

/-- What a step of the queue says about the call that was served. -/
def Explains (e : KbdServed) : Fifo.DropEvent KeyEvent → Prop
  | .push x => e.call = .push x.code x.value
  | .pop x => ∃ buf len, e.call = .read buf len ∧
      e.ret = if buf.accepts sizeofKeyEvent then ⟨sizeofKeyEvent, some x⟩ else ⟨-efault, none⟩

theorem explains_queueEvent (d : KbdRing) (c : KbdCall) (via : Option KbdQueue) :
    Explains ⟨c, via, (kbdBody c d).ret⟩ (queueEvent d c) := by
  cases c with
  | push code value => rfl
  | read buf len =>
    refine ⟨buf, len, rfl, ?_⟩
    rw [kbdBody, kbdmonDequeue]
    split <;> rfl

/-- The memory and the cursors of a ring. -/
def KbdRing.toInt (d : KbdRing) : IntRing := ⟨fun i => d.cell i.toNat, (d.head : ℕ), (d.tail : ℕ)⟩

theorem KbdRing.represents (d : KbdRing) : Represents d.toInt d := ⟨rfl, rfl, fun _ _ => rfl⟩

/-- A step of the ring in memory is one of the queue. -/
theorem queue_step {d d' : KbdRing} {r' : IntRing} {a : Fifo.DropEvent KeyEvent}
    (hstep : d.toInt.Step a r') (hr' : Represents r' d') :
    (Fifo.dropLts KeyEvent 127).step d.queue a d'.queue := by
  have hholds : Holds d.toInt d.queue := ⟨d, d.represents, rfl⟩
  obtain ⟨q', hq', e, he, hitems⟩ := hholds.step hstep
  have hqueue : q' = d'.queue := by
    obtain ⟨items, hbounded⟩ := q'
    obtain rfl : items = contents d' := hitems.trans (he.contents.symm.trans hr'.contents)
    rfl
  rw [← hqueue]
  exact hq'

/-- **Every section** that finds what it needs is a step of the queue. -/
theorem kbdBody_refines {d : KbdRing} {c : KbdCall} {via : Option KbdQueue} (h : Fed c via d) :
    (Fifo.dropLts KeyEvent 127).step d.queue (queueEvent d c) (kbdBody c d).next.queue := by
  cases c with
  | push code value => exact queue_step (.push code value) (d.represents.pushEvent code value)
  | read buf len =>
    have hnext : (kbdBody (.read buf len) d).next = d.advance := by
      rw [kbdBody, kbdmonDequeue]
      split <;> rfl
    have hne : d.toInt.head ≠ d.toInt.tail := by
      have hnonempty := h buf len rfl
      rw [KbdRing.nonempty, bne_iff_ne] at hnonempty
      exact fun heq => hnonempty (d.represents.head_eq_tail.mp heq)
    have hfront : d.toInt.dequeue.2 = d.front := d.front_eq_cell.symm
    have hstep := IntRing.Step.dequeue hne
    rw [hfront] at hstep
    rw [hnext]
    exact queue_step hstep d.represents.advance

/-! ## What others see in the middle of a section -/

theorem contents_ne_nil_iff {d : KbdRing} : contents d ≠ [] ↔ d.nonempty = true := by
  rw [KbdRing.nonempty_iff, ← length_contents, ne_eq, ne_eq, List.length_eq_zero_iff]

theorem nonempty_store {d : KbdRing} {ev : KeyEvent} :
    (d.store ev).nonempty = false ↔ (contents d).length = 127 := by
  rw [KbdRing.nonempty_eq_false, length_contents, ← KbdRing.full_iff]
  exact Iff.rfl

/-- The cursors at a place are those at the start, but for a push that has moved `head`. -/
theorem KbdPlace.Of.nonempty {d : KbdRing} {k : KbdPlace} {c : KbdCall} (h : k.Of d c) :
    (ringAt d k).nonempty = d.nonempty ∨
      ∃ code value, c = .push code value ∧ ringAt d k = d.store ⟨code, value⟩ := by
  cases k with
  | pushCode _ _ | pushValue _ _ | pushHead _ _ | readEvent _ | readTail _ _ => exact .inl rfl
  | pushTest code value => exact .inr ⟨code, value, h, rfl⟩
  | pushTail code value => exact .inr ⟨code, value, h.1, rfl⟩

/-- **An unlocked look** in the middle of a section finds an event only if there is one before it or
behind it, and none only if there is none before it or behind it, or 127 and one is being
pushed. -/
theorem look_underway {c : KbdCall} {d d' : KbdRing} {k : KbdPlace} (h : Underway c d k d') :
    (d'.nonempty = true → contents d ≠ [] ∨ contents (kbdBody c d).next ≠ []) ∧
      (d'.nonempty = false → contents d = [] ∨
        (contents d).length = 127 ∧ ∃ code value, c = .push code value) := by
  obtain ⟨hplace, rfl⟩ := h
  obtain hsame | ⟨code, value, rfl, hstore⟩ := hplace.nonempty
  · rw [hsame]
    refine ⟨fun htrue => .inl (contents_ne_nil_iff.mpr htrue), fun hfalse => .inl ?_⟩
    by_contra hne
    have htrue := contents_ne_nil_iff.mp hne
    rw [hfalse] at htrue
    cases htrue
  · rw [hstore]
    refine ⟨fun htrue => .inr ?_, fun hfalse => .inr ⟨nonempty_store.mp hfalse, code, value, rfl⟩⟩
    -- the cursors have not met, so this is all there is to do
    have hne : ¬ (d.store ⟨code, value⟩).head = (d.store ⟨code, value⟩).tail := by
      rw [← KbdRing.nonempty_eq_false, htrue]
      nofun
    have hnext : (kbdBody (.push code value) d).next = d.store ⟨code, value⟩ := if_neg hne
    rw [hnext, contents_ne_nil_iff]
    exact htrue

/-! ## The ring -/

/-- Any number of tasks on the ring, with sections in small steps. -/
abbrev KbdFine (Tid : Type) : Type :=
  SmallSteps.State KbdRing KbdQueue KbdCall KbdRet KbdPlace Tid

/-- The tasks, whose reads all find an event when they get the lock. -/
abbrev fedLts (Tid : Type) [DecidableEq Tid] : Lts (KbdFine Tid) (SmallSteps.Act KbdCall Tid) :=
  (kbdSteps.lts kbdMonitor Tid kbdInit).restrict (SmallSteps.Admits Fed)

/-- What the sections keep. -/
theorem fed_atomic {Tid : Type} [DecidableEq Tid] {s : KbdFine Tid}
    (hs : (fedLts Tid).Reachable s) :
    ∃ d, SmallSteps.Atomic kbdSteps kbdMonitor
      (fun c via d k d' => Underway c d k d' ∧ Fed c via d) kbdInit s d := by
  refine (SmallSteps.atomic_admitted kbdSteps_implements (fun c via d hfed => ⟨?_, hfed⟩)
    fun h hstmt => ⟨h.1.more hstmt, h.2⟩).reachable hs
  cases c with
  | push code value => exact ⟨rfl, rfl⟩
  | read buf len => exact ⟨⟨len, rfl⟩, rfl⟩

/-- The ring when the lock was last free. -/
def lastFree {Tid : Type} (s : KbdFine Tid) : KbdRing :=
  (kbdMonitor.serveAll kbdInit (s.outer.log.map Monitor.Served.op)).1

/-- **The ring is a queue of 127 events that drops its oldest one, statement by statement**, in
every run in which no read gets the lock while the ring is empty: the history is a run of the queue
that the ring held when the lock was last free; a section that is under way can get to its end by itself,
and does there what it would do in one step; and whoever compares `head` and `tail` without the
lock in the meantime finds them apart only if there is an event before the section or behind it,
and together only if there is none before it, or if there are 127 and one is being pushed. -/
theorem kbdmon_steps_refine_queue {Tid : Type} [DecidableEq Tid] {s : KbdFine Tid}
    (hs : (fedLts Tid).Reachable s) :
    let d := lastFree s
    (∃ es, List.Forall₂ Explains s.outer.log es ∧
      (Fifo.dropLts KeyEvent 127).Run .empty es d.queue) ∧
    (s.inside = none → s.outer.dev = d) ∧
    ∀ i, s.inside = some i →
      (∃ n, (kbdSteps.lts kbdMonitor Tid kbdInit).Run s (List.replicate n .work)
        ⟨s.outer.serve i.tid i.call i.via (kbdBody i.call d), none⟩) ∧
      (s.outer.dev.head ≠ s.outer.dev.tail →
        contents d ≠ [] ∨ contents (kbdBody i.call d).next ≠ []) ∧
      (s.outer.dev.head = s.outer.dev.tail → contents d = [] ∨
        (contents d).length = 127 ∧ ∃ code value, i.call = .push code value) := by
  obtain ⟨d, hatomic⟩ := fed_atomic hs
  have hd : lastFree s = d := congrArg Prod.fst hatomic.serial
  rw [hd]
  refine ⟨?_, hatomic.free, fun i hi => ?_⟩
  · refine hatomic.sections (I := fun d log => ∃ es, List.Forall₂ Explains log es ∧
      (Fifo.dropLts KeyEvent 127).Run .empty es d.queue) ⟨[], .nil, .nil⟩ ?_
    rintro d log c via k d' ⟨es, hlog, hrun⟩ ⟨-, hfed⟩
    exact ⟨es ++ [queueEvent d c], List.rel_append hlog (.cons (explains_queueEvent d c via) .nil),
      hrun.snoc (kbdBody_refines hfed)⟩
  · obtain ⟨hleads, hunderway, -⟩ := hatomic.busy i hi
    obtain ⟨hevent, hnone⟩ := look_underway hunderway
    refine ⟨SmallSteps.exists_finish hleads hi rfl rfl, fun hne => hevent ?_, fun heq => hnone ?_⟩
    · rw [KbdRing.nonempty, bne_iff_ne]
      exact hne
    · exact KbdRing.nonempty_eq_false.mpr heq

/-- Somebody pushes `n` events, and then nobody is doing anything. -/
theorem exists_pushed {Tid : Type} [DecidableEq Tid] (t : Tid) (n : ℕ) (hn : n ≤ 127) :
    ∃ outer, (fedLts Tid).Reachable ⟨outer, none⟩ ∧ (∀ u, outer.pc u = .idle) ∧
      outer.dev.held = n := by
  induction n with
  | zero =>
    have hheld : kbdInit.held = 0 := by decide
    exact ⟨Monitor.start kbdInit, .init rfl, fun _ => rfl, hheld⟩
  | succ n ih =>
    obtain ⟨outer, hs, hidle, hheld⟩ := ih (by omega)
    have hcall : ∃ as s', (fedLts Tid).Run ⟨outer, none⟩ as s' ∧ s'.inside = none ∧
        (∀ u, outer.pc u = .idle → s'.outer.pc u = .idle) ∧
        s'.outer.dev = pushEvent 30 1 outer.dev :=
      SmallSteps.exists_call kbdSteps_implements (c := press) (hidle t) rfl nofun
    obtain ⟨as, s', hrun, hfree, hidle', hdev⟩ := hcall
    refine ⟨s'.outer, ?_, fun u => hidle' u (hidle u), ?_⟩
    · rw [← hfree]
      exact hrun.reachable_of hs
    · rw [hdev]
      have hroom : ¬ outer.dev.head.next = outer.dev.tail := by
        rw [KbdRing.full_iff]
        omega
      have hpush := contents_pushEvent 30 1 outer.dev
      rw [if_neg hroom] at hpush
      have hlength := congrArg List.length hpush
      rwa [List.length_append, length_contents, length_contents, hheld] at hlength

/-- A push onto 127 events can be stopped where the cursors have met. -/
theorem exists_met {Tid : Type} [DecidableEq Tid] {outer : Monitor.State KbdRing KbdQueue KbdCall
    KbdRet Tid} (hs : (fedLts Tid).Reachable ⟨outer, none⟩) {t : Tid} (hidle : outer.pc t = .idle)
    (hheld : outer.dev.held = 127) :
    ∃ s : KbdFine Tid, (fedLts Tid).Reachable s ∧ s.inside = some ⟨t, press, none, .pushTest 30 1⟩ ∧
      s.outer.dev.head = s.outer.dev.tail ∧ (contents (lastFree s)).length = 127 ∧
      ∀ u, u ≠ t → s.outer.pc u = outer.pc u := by
  obtain ⟨-, hfree, -⟩ := kbdmon_steps_refine_queue hs
  have hwork : ∀ s : KbdFine Tid, SmallSteps.Admits Fed s .work :=
    fun _ => SmallSteps.admits_of_ne (by simp)
  have hlock : (fedLts Tid).Run ⟨outer, none⟩ _ _ :=
    SmallSteps.run_lock (c := press) hidle rfl nofun
  have hcode := hlock.snoc ⟨hwork _, SmallSteps.next_more rfl rfl⟩
  have hvalue := hcode.snoc ⟨hwork _, SmallSteps.next_more rfl rfl⟩
  have hhead := hvalue.snoc ⟨hwork _, SmallSteps.next_more rfl rfl⟩
  refine ⟨_, hhead.reachable_of hs, rfl, KbdRing.full_iff.mpr hheld, ?_, fun u hu => ?_⟩
  · change (contents (lastFree (⟨outer, none⟩ : KbdFine Tid))).length = 127
    rw [← hfree rfl, length_contents]
    exact hheld
  · exact (Monitor.State.goto_pc_ne _ hu _).trans (Monitor.State.goto_pc_ne _ hu _)

/-- The ring holds 127 events, and a push is stopped where the cursors have met: whoever looks now
finds none. -/
theorem kbdmon_steps_refine_queue_full : ∃ s : KbdFine Unit, (fedLts Unit).Reachable s ∧
    s.outer.dev.head = s.outer.dev.tail ∧ (contents (lastFree s)).length = 127 ∧
    ∃ es, List.Forall₂ Explains s.outer.log es ∧
      (Fifo.dropLts KeyEvent 127).Run .empty es (lastFree s).queue := by
  obtain ⟨outer, hpushed, hidle, hheld⟩ := exists_pushed () 127 le_rfl
  obtain ⟨s, hs, -, hmet, hlength, -⟩ := exists_met hpushed (hidle ()) hheld
  obtain ⟨hqueue, -⟩ := kbdmon_steps_refine_queue hs
  exact ⟨s, hs, hmet, hlength, hqueue⟩

/-! ## Wake-ups -/

theorem Cursor.ne_next (i : Cursor) : i ≠ i.next := by
  have hi := i.isLt
  rw [ne_eq, Fin.ext_iff]
  simp only [Cursor.next, bufSize] at *
  omega

/-- Statements of sections that find what they need announce what they do: only a push makes the
cursors differ. -/
theorem announces {c : KbdCall} {via : Option KbdQueue} {d d' : KbdRing} {k : KbdPlace}
    (h : Underway c d k d') (hfed : Fed c via d)
    (hleads : kbdSteps.Leads k d' (kbdMonitor.body c via d)) :
    kbdSteps.Announces kbdMonitor k d' := by
  rintro ⟨⟩ hbefore -
  change d'.nonempty = false at hbefore
  cases c with
  | push code value => exact ⟨_, hleads, rfl⟩
  | read buf len =>
    exfalso
    have hring : d' = d := by
      obtain ⟨hplace, rfl⟩ := h
      cases k with
      | readEvent _ | readTail _ _ => rfl
      | pushCode _ _ | pushValue _ _ | pushHead _ _ | pushTest _ _ => cases hplace
      | pushTail _ _ => cases hplace.1
    have hnonempty := hfed buf len rfl
    rw [← hring, hbefore] at hnonempty
    cases hnonempty

/-- **No wake-up of a reader is lost** in any run in which no read gets the lock while the ring is
empty, wherever a push is when the reader looks: while a reader sleeps and `head` and `tail`
differ, whoever is inside gets to the end of his section by his own steps, and somebody leaves and
wakes the reader. A read that gets the lock while the ring is empty makes the cursors differ; it
wakes nobody, and leaves whoever sleeps asleep. -/
theorem kbdmon_wake_due {Tid : Type} [DecidableEq Tid] (s : KbdFine Tid) :
    ((fedLts Tid).Reachable s → s.outer.dev.head ≠ s.outer.dev.tail →
      ∀ t, (s.outer.pc t).sleepsOn = some .readq →
        ∃ n s' u s'', (kbdSteps.lts kbdMonitor Tid kbdInit).Run s (List.replicate n .work) s' ∧
          kbdSteps.next kbdMonitor s' (.task (.leave u)) = some s'' ∧
          ∃ c, s''.outer.pc t = .preparing c .readq) ∧
    ∀ t buf len via, s.inside = none → s.outer.pc t = .locking (.read buf len) via →
      s.outer.dev.head = s.outer.dev.tail →
      ∃ s', (kbdSteps.lts kbdMonitor Tid kbdInit).Run s [.task (.lock t), .work, .work] s' ∧
        s'.inside = none ∧ s'.outer.dev.head ≠ s'.outer.dev.tail ∧
        (∀ u, (s.outer.pc u).sleepsOn = some .readq → (s'.outer.pc u).sleepsOn = some .readq) ∧
        ∀ u, (s'.outer.pc u).toWake = some .readq → (s.outer.pc u).toWake = some .readq := by
  constructor
  · intro hs hne t ht
    have hwakes : ((kbdSteps.lts kbdMonitor Tid kbdInit).restrict
        (kbdSteps.Wakes kbdMonitor)).Reachable s := by
      refine hs.restrict_of fun {s a} hs _ => ?_
      cases a with
      | task _ => trivial
      | work =>
        intro i hi
        obtain ⟨d, hatomic⟩ := fed_atomic hs
        obtain ⟨hleads, hunderway, hfed⟩ := hatomic.busy i hi
        exact announces hunderway hfed hleads
    exact SmallSteps.exists_wake hwakes ht (bne_iff_ne.mpr hne)
  · intro t buf len via hin hp heq
    have hlock : (kbdSteps.lts kbdMonitor Tid kbdInit).Run s [.task (.lock t)] _ :=
      Lts.Run.nil.snoc (SmallSteps.next_lock hin hp)
    have hevent := hlock.snoc (SmallSteps.next_more rfl rfl)
    refine ⟨_, hevent.snoc (SmallSteps.next_done rfl rfl), rfl, ?_, fun u hu => ?_, fun u hu => ?_⟩
    · change s.outer.dev.head ≠ s.outer.dev.tail.next
      rw [heq]
      exact s.outer.dev.tail.ne_next
    · have hut : u ≠ t := by
        rintro rfl
        rw [hp] at hu
        cases hu
      rw [Monitor.State.serve_pc_ne _ hut]
      exact hu
    · by_cases hut : u = t
      · subst hut
        rw [Monitor.State.serve_pc_self] at hu
        cases hu
      · rw [Monitor.State.serve_pc_ne _ hut] at hu
        exact hu

/-- There are 127 events when a reader looks, in the middle of a push: it goes to sleep, and the
push wakes it. -/
theorem kbdmon_wake_due_full : ∃ s₀ s : KbdFine Monitor.Duo, (contents (lastFree s₀)).length = 127 ∧
    (fedLts Monitor.Duo).Run s₀
      ((Monitor.Act.toSleep .two goodRead).map .task ++ [.work, .work]) s ∧
    ∃ n s' u s'', (kbdSteps.lts kbdMonitor Monitor.Duo kbdInit).Run s (List.replicate n .work) s' ∧
      kbdSteps.next kbdMonitor s' (.task (.leave u)) = some s'' ∧
      ∃ c, s''.outer.pc .two = .preparing c .readq := by
  obtain ⟨outer, hpushed, hidle, hheld⟩ := exists_pushed Monitor.Duo.one 127 le_rfl
  obtain ⟨s₀, hs₀, hin, hmet, hlength, hothers⟩ := exists_met hpushed (hidle .one) hheld
  have hreader : s₀.outer.pc .two = .idle := (hothers .two nofun).trans (hidle .two)
  have hothers' : ∀ i, s₀.inside = some i → i.tid ≠ .two := by
    intro i hi
    rw [hin] at hi
    cases hi
    nofun
  have hsleep : (fedLts Monitor.Duo).Run s₀ _ _ :=
    SmallSteps.run_sleep (c := goodRead) (q := .readq) hreader hothers' rfl
      (KbdRing.nonempty_eq_false.mpr hmet)
  have hwork : ∀ s : KbdFine Monitor.Duo, SmallSteps.Admits Fed s .work :=
    fun _ => SmallSteps.admits_of_ne (by simp)
  have htest := hsleep.snoc ⟨hwork _, SmallSteps.next_more hin (if_pos hmet)⟩
  have htail := htest.snoc ⟨hwork _, SmallSteps.next_done rfl rfl⟩
  refine ⟨s₀, _, hlength, htail, (kbdmon_wake_due _).1 (htail.reachable_of hs₀) ?_ .two rfl⟩
  change s₀.outer.dev.head ≠ s₀.outer.dev.tail.next
  rw [hmet]
  exact s₀.outer.dev.tail.ne_next

end KbdmonChrdev

end KernelModules
