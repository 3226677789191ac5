import KernelModules.KbdmonChrdev

/-!
# What becomes of a key event

Events leave the ring in the order they entered it, so a run of `kbdmon_chrdev` can be
traced by one list: what has left, oldest first, each event with its fate. Pushed events
are the ones that have left followed by the ones still held (`Traced.next_placed`), as
long as nothing is dequeued from an empty ring.

* `kbdmon_conserves_iff` — of the events that have left, all were delivered or dropped
  exactly when no read failed in its copy, which comes after the dequeue.
* `kbdmon_dequeues_nonempty` — concurrently, dequeues find an event as long as no read
  takes the last one while another reader is past its wait, and no signal ends a wait on
  an empty ring; then the run is a traced one, whatever the interleaving.
-/

namespace KernelModules

namespace KbdmonChrdev

/-! ## Traced runs -/

/-- How an event left the ring. -/
inductive Fate where
  /-- a read returned it -/
  | delivered
  /-- a push dropped it, as the oldest event of a full ring -/
  | dropped
  /-- a read dequeued it and failed -/
  | lost
  deriving DecidableEq

/-- The ring after a call. -/
def serve (c : KbdCall) (d : KbdRing) : KbdRing :=
  match c with
  | .push code value => pushEvent code value d
  | .read buf len => (kbdmonRead buf len d).1

/-- The events a call pushes. -/
def joins : KbdCall → List KeyEvent
  | .push code value => [⟨code, value⟩]
  | .read _ _ => []

/-- The events that leave the ring in a call, and how. -/
def leaves (d : KbdRing) : KbdCall → List (KeyEvent × Fate)
  | .push _ _ => if d.head.next = d.tail then [(d.front, .dropped)] else []
  | .read buf len =>
    if len < sizeofKeyEvent then []
    else if (kbdmonRead buf len d).2.code = sizeofKeyEvent then [(d.front, .delivered)]
    else [(d.front, .lost)]

/-- The events a call returns. -/
def hands (d : KbdRing) : KbdCall → List KeyEvent
  | .push _ _ => []
  | .read buf len => (kbdmonRead buf len d).2.event.toList

/-- The call would dequeue from an empty ring. -/
def Starves (d : KbdRing) : KbdCall → Prop
  | .push _ _ => False
  | .read _ len => sizeofKeyEvent ≤ len ∧ d.nonempty = false

instance (d : KbdRing) (c : KbdCall) : Decidable (Starves d c) :=
  match c with
  | .push _ _ => isFalse id
  | .read _ _ => inferInstanceAs (Decidable (_ ∧ _))

/-- A run with what became of its events. No step of the ring reads the trace. -/
structure Traced where
  /-- the ring -/
  dev : KbdRing
  /-- the events pushed, in order -/
  pushed : List KeyEvent
  /-- the events that have left the ring, in order, with their fate -/
  removed : List (KeyEvent × Fate)
  /-- the events returned by reads, in order -/
  returned : List KeyEvent

/-- The freshly loaded module. -/
def Traced.start : Traced := ⟨kbdInit, [], [], []⟩

/-- One call; none that dequeues from an empty ring. -/
def Traced.next (t : Traced) (c : KbdCall) : Option Traced :=
  if Starves t.dev c then none
  else some ⟨serve c t.dev, t.pushed ++ joins c, t.removed ++ leaves t.dev c,
    t.returned ++ hands t.dev c⟩

/-- The runs whose dequeues all find an event. -/
abbrev Traced.lts : Lts Traced KbdCall := Lts.ofNext .start Traced.next

/-! ## One call -/

/-- A read long enough for an event, into a buffer that faults. -/
def FaultyRead : KbdCall → Prop
  | .push _ _ => False
  | .read buf len => sizeofKeyEvent ≤ len ∧ buf.accepts sizeofKeyEvent = false

instance : DecidablePred FaultyRead
  | .push _ _ => isFalse id
  | .read _ _ => inferInstanceAs (Decidable (_ ∧ _))

/-- The three ways `kbdmon_read` ends. -/
theorem kbdmonRead_cases (buf : UserDst) (len : ℕ) (d : KbdRing) :
    len < sizeofKeyEvent ∧ kbdmonRead buf len d = (d, ⟨-einval, none⟩) ∨
      sizeofKeyEvent ≤ len ∧ buf.accepts sizeofKeyEvent = true ∧
        kbdmonRead buf len d = (d.advance, ⟨sizeofKeyEvent, some d.front⟩) ∨
      sizeofKeyEvent ≤ len ∧ buf.accepts sizeofKeyEvent = false ∧
        kbdmonRead buf len d = (d.advance, ⟨-efault, none⟩) := by
  by_cases hlen : len < sizeofKeyEvent
  · exact .inl ⟨hlen, if_pos hlen⟩
  · right
    rw [kbdmonRead, if_neg hlen, kbdmonDequeue]
    rcases hacc : buf.accepts sizeofKeyEvent with _ | _
    · exact .inr ⟨Nat.le_of_not_lt hlen, rfl, rfl⟩
    · exact .inl ⟨Nat.le_of_not_lt hlen, rfl, rfl⟩

/-- What leaves the ring in a read, in each of the three cases. -/
theorem leaves_read (buf : UserDst) (len : ℕ) (d : KbdRing) :
    len < sizeofKeyEvent ∧ kbdmonRead buf len d = (d, ⟨-einval, none⟩) ∧
        leaves d (.read buf len) = [] ∨
      sizeofKeyEvent ≤ len ∧ buf.accepts sizeofKeyEvent = true ∧
        kbdmonRead buf len d = (d.advance, ⟨sizeofKeyEvent, some d.front⟩) ∧
        leaves d (.read buf len) = [(d.front, .delivered)] ∨
      sizeofKeyEvent ≤ len ∧ buf.accepts sizeofKeyEvent = false ∧
        kbdmonRead buf len d = (d.advance, ⟨-efault, none⟩) ∧
        leaves d (.read buf len) = [(d.front, .lost)] := by
  rcases kbdmonRead_cases buf len d with ⟨hlen, hr⟩ | ⟨hlen, hacc, hr⟩ | ⟨hlen, hacc, hr⟩
  · exact .inl ⟨hlen, hr, if_pos hlen⟩
  · refine .inr (.inl ⟨hlen, hacc, hr, ?_⟩)
    rw [leaves, if_neg (Nat.not_lt.mpr hlen), hr, if_pos rfl]
  · refine .inr (.inr ⟨hlen, hacc, hr, ?_⟩)
    rw [leaves, if_neg (Nat.not_lt.mpr hlen), hr]
    exact if_neg (by decide : ¬ -efault = (sizeofKeyEvent : ℤ))

/-- The events held before a call and the ones it pushes are the ones that leave and the
ones held after it, in this order. -/
theorem contents_serve {d : KbdRing} {c : KbdCall} (h : ¬ Starves d c) :
    contents d ++ joins c = (leaves d c).map Prod.fst ++ contents (serve c d) := by
  cases c with
  | push code value =>
    have hpush := contents_pushEvent code value d
    rw [leaves]
    split at hpush
    · next hfull =>
      rw [if_pos hfull]
      exact hpush
    · next hfull =>
      rw [if_neg hfull]
      exact hpush.symm
  | read buf len =>
    rw [joins, List.append_nil, serve]
    have hne : sizeofKeyEvent ≤ len → d.nonempty = true := by
      intro hlen
      by_contra hempty
      exact h ⟨hlen, by simpa using hempty⟩
    rcases leaves_read buf len d with ⟨-, hr, hl⟩ | ⟨hlen, -, hr, hl⟩ | ⟨hlen, -, hr, hl⟩
    · rw [hr, hl]
      rfl
    · rw [hr, hl]
      exact contents_advance (hne hlen)
    · rw [hr, hl]
      exact contents_advance (hne hlen)

/-- A call returns what leaves the ring as delivered. -/
theorem hands_eq (d : KbdRing) (c : KbdCall) :
    hands d c = ((leaves d c).filter fun r => r.2 = .delivered).map Prod.fst := by
  cases c with
  | push code value =>
    rw [leaves]
    split <;> rfl
  | read buf len =>
    rw [hands]
    rcases leaves_read buf len d with ⟨-, hr, hl⟩ | ⟨-, -, hr, hl⟩ | ⟨-, -, hr, hl⟩ <;>
      rw [hr, hl] <;> rfl

/-- An event is lost exactly in a faulty read. -/
theorem lost_iff (d : KbdRing) (c : KbdCall) :
    (∀ r ∈ leaves d c, r.2 ≠ .lost) ↔ ¬ FaultyRead c := by
  cases c with
  | push code value =>
    refine ⟨fun _ => id, fun _ r hr => ?_⟩
    rw [leaves] at hr
    split at hr
    · obtain rfl := List.mem_singleton.mp hr
      exact nofun
    · cases hr
  | read buf len =>
    rcases leaves_read buf len d with ⟨hlen, -, hl⟩ | ⟨-, hacc, -, hl⟩ | ⟨hlen, hacc, -, hl⟩
    · rw [hl]
      refine ⟨fun _ hfault => ?_, fun _ r hr => by cases hr⟩
      exact absurd hfault.1 (Nat.not_le.mpr hlen)
    · rw [hl]
      refine ⟨fun _ hfault => absurd (hacc.symm.trans hfault.2) nofun, fun _ r hr => ?_⟩
      obtain rfl := List.mem_singleton.mp hr
      exact nofun
    · rw [hl]
      refine ⟨fun hall => ?_, fun hno => absurd ⟨hlen, hacc⟩ hno⟩
      exact absurd rfl (hall _ (List.mem_singleton.mpr rfl))

/-! ## Conservation -/

/-- Every pushed event is in exactly one place: the ones that have left come first, each
delivered by the read that returned it or dropped by a push that found the ring full, and
the others are still in the ring. -/
structure Accounted (t : Traced) : Prop where
  /-- what was pushed has left or is held -/
  placed : t.pushed = t.removed.map Prod.fst ++ contents t.dev
  /-- what reads returned is what left as delivered -/
  delivered : t.returned = (t.removed.filter fun r => r.2 = .delivered).map Prod.fst
  /-- nothing was lost -/
  kept : ∀ r ∈ t.removed, r.2 ≠ .lost

/-- The first two hold in every run; the third until a read fails in its copy. -/
theorem Traced.run_accounts {calls : List KbdCall} {t : Traced}
    (h : Traced.lts.Run .start calls t) :
    t.pushed = t.removed.map Prod.fst ++ contents t.dev ∧
      t.returned = (t.removed.filter fun r => r.2 = .delivered).map Prod.fst ∧
      ((∀ r ∈ t.removed, r.2 ≠ .lost) ↔ ∀ c ∈ calls, ¬ FaultyRead c) := by
  induction h with
  | nil => exact ⟨rfl, rfl, by simp [Traced.start]⟩
  | @snoc calls t t' c _ hstep ih =>
    obtain ⟨hplaced, hdelivered, hkept⟩ := ih
    change t.next c = some t' at hstep
    rw [Traced.next] at hstep
    split at hstep
    · cases hstep
    · next hne =>
      obtain rfl := Option.some.inj hstep
      refine ⟨?_, ?_, ?_⟩
      · change t.pushed ++ joins c = (t.removed ++ leaves t.dev c).map Prod.fst ++
          contents (serve c t.dev)
        rw [hplaced, List.append_assoc, contents_serve hne, List.map_append, List.append_assoc]
      · change t.returned ++ hands t.dev c = _
        rw [hdelivered, hands_eq, List.filter_append, List.map_append]
      · change (∀ r ∈ t.removed ++ leaves t.dev c, r.2 ≠ .lost) ↔ _
        rw [List.forall_mem_append, List.forall_mem_append, hkept, lost_iff,
          List.forall_mem_singleton]

/-- **Key events are conserved exactly while no read fails in its copy**: in every run
whose dequeues all find an event, every pushed event is in the ring, delivered or dropped
if and only if no read long enough for an event had a buffer that faults. Those reads,
and no others, fail and remove an event. -/
theorem kbdmon_conserves_iff {calls : List KbdCall} {t : Traced}
    (h : Traced.lts.Run .start calls t) :
    (Accounted t ↔ ∀ c ∈ calls, ¬ FaultyRead c) ∧
    ∀ buf len, t.dev.nonempty = true →
      (((kbdmonRead buf len t.dev).2.code < 0 →
        contents (kbdmonRead buf len t.dev).1 = contents t.dev) ↔
      ¬ FaultyRead (.read buf len)) := by
  constructor
  · obtain ⟨hplaced, hdelivered, hkept⟩ := Traced.run_accounts h
    rw [← hkept]
    exact ⟨fun hacc => hacc.kept, fun hall => ⟨hplaced, hdelivered, hall⟩⟩
  · intro buf len hne
    rcases kbdmonRead_cases buf len t.dev with ⟨hlen, hr⟩ | ⟨-, hacc, hr⟩ | ⟨hlen, hacc, hr⟩
    · rw [hr]
      exact ⟨fun _ hfault => absurd hfault.1 (Nat.not_le.mpr hlen), fun _ _ => rfl⟩
    · rw [hr]
      refine ⟨fun _ hfault => absurd (hacc.symm.trans hfault.2) nofun, fun _ hneg => ?_⟩
      exact absurd hneg (by decide : ¬ (sizeofKeyEvent : ℤ) < 0)
    · rw [hr]
      refine ⟨fun hsame => ?_, fun hno => absurd ⟨hlen, hacc⟩ hno⟩
      have hsame' : contents t.dev.advance = contents t.dev := hsame (by decide : -efault < 0)
      have hlength := congrArg List.length hsame'
      rw [contents_advance hne, List.length_cons] at hlength
      omega

/-! ### A key that is read, and one that is not -/

/-- A press of key 30. -/
def press : KbdCall := .push 30 1

/-- A read into a buffer that can be written. -/
def goodRead : KbdCall := .read (fun _ => true) 4

/-- A read into a buffer that cannot. -/
def badRead : KbdCall := .read (fun _ => false) 4

/-- One event is pushed and read, a second one pushed: the account holds, and a read into
a buffer that faults would now fail and remove the second event. -/
theorem kbdmon_conserves_iff_press :
    ∃ t, Traced.lts.Run .start [press, goodRead, press] t ∧ t.returned = [⟨30, 1⟩] ∧
      Accounted t ∧
      ¬ ((kbdmonRead (fun _ => false) 4 t.dev).2.code < 0 →
        contents (kbdmonRead (fun _ => false) 4 t.dev).1 = contents t.dev) := by
  have hrun : Traced.lts.Run .start [press, goodRead, press] _ := Lts.run_of_foldlM .nil rfl
  refine ⟨_, hrun, by decide +kernel, (kbdmon_conserves_iff hrun).1.mpr (by decide), ?_⟩
  rw [(kbdmon_conserves_iff hrun).2 _ _ (by decide +kernel)]
  exact fun hno => hno (by decide)

/-- One event is pushed and read into a buffer that faults: it is neither held, nor
delivered, nor dropped. -/
theorem kbdmon_fault_loses_event :
    ∃ t, Traced.lts.Run .start [press, badRead] t ∧ t.pushed = [⟨30, 1⟩] ∧
      contents t.dev = [] ∧ t.returned = [] ∧ t.removed.map Prod.snd = [.lost] ∧
      ¬ Accounted t := by
  have hrun : Traced.lts.Run .start [press, badRead] _ := Lts.run_of_foldlM .nil rfl
  refine ⟨_, hrun, rfl, by decide +kernel, rfl, rfl, fun hacc => ?_⟩
  exact hacc.kept _ (List.mem_singleton.mpr rfl) rfl

/-! ## Concurrent readers -/

/-- A state of any number of tasks on the device. -/
abbrev KbdState (Tid : Type) : Type := Monitor.State KbdRing KbdQueue KbdCall KbdRet Tid

/-- A served critical section of the device. -/
abbrev KbdServed : Type := Monitor.Served KbdQueue KbdCall KbdRet

/-- The events a served call pushed. -/
def pushedBy (e : KbdServed) : List KeyEvent := joins e.call

/-- The events a served call returned. -/
def returnedBy (e : KbdServed) : List KeyEvent := e.ret.event.toList

/-- Reads are the calls that wait. -/
def Reads : KbdCall → KbdQueue → Prop
  | .read _ _, _ => True
  | .push _ _, _ => False

instance (c : KbdCall) (q : KbdQueue) : Decidable (Reads c q) :=
  match c with
  | .read _ _ => isTrue trivial
  | .push _ _ => isFalse id

/-- The section is a dequeue of the only event in the ring. -/
def TakesLast (d : KbdRing) : KbdCall → KbdQueue → Prop
  | .read _ _, _ => d.tail.next = d.head
  | .push _ _, _ => False

instance (d : KbdRing) (c : KbdCall) (q : KbdQueue) : Decidable (TakesLast d c q) :=
  match c with
  | .read _ _ => inferInstanceAs (Decidable (d.tail.next = d.head))
  | .push _ _ => isFalse id

/-- No read takes the last event while another reader is between its wait and the
dequeue, and no signal ends a reader's wait while the ring is empty. -/
abbrev Considerate {Tid : Type} (s : KbdState Tid) : Monitor.Act KbdCall Tid → Prop :=
  kbdMonitor.Considerate Reads TakesLast s

theorem KbdRing.nonempty_eq_false {d : KbdRing} : d.nonempty = false ↔ d.head = d.tail := by
  simp [KbdRing.nonempty]

/-- The dequeue leaves the ring empty exactly when it takes the last event. -/
theorem nonempty_advance {d : KbdRing} :
    d.advance.nonempty = false ↔ d.tail.next = d.head := by
  rw [KbdRing.nonempty_eq_false]
  exact eq_comm

/-- Only a dequeue empties the ring. -/
theorem takesLast_of_cond {d : KbdRing} {c : KbdCall} {q : KbdQueue}
    (hbefore : d.nonempty = true) (hafter : (kbdBody c d).next.nonempty = false) :
    TakesLast d c q := by
  cases c with
  | push code value =>
    -- a push leaves at least as many events as it found
    rw [KbdRing.nonempty_iff] at hbefore
    rw [← Bool.not_eq_true, KbdRing.nonempty_iff, not_not] at hafter
    have hpush := contents_pushEvent code value d
    split at hpush
    · have hlength := congrArg List.length hpush
      simp only [List.length_append, List.length_cons, length_contents] at hlength
      change (pushEvent code value d).held = 0 at hafter
      omega
    · have hlength := congrArg List.length hpush
      simp only [List.length_append, List.length_cons, length_contents] at hlength
      change (pushEvent code value d).held = 0 at hafter
      omega
  | read buf len =>
    have hnext : (kbdBody (.read buf len) d).next = d.advance := by
      rw [kbdBody, kbdmonDequeue]
      split <;> rfl
    rw [hnext] at hafter
    exact nonempty_advance.mp hafter

/-- A read that has come to its dequeue is long enough and has waited. -/
theorem routed_read {buf : UserDst} {len : ℕ} {via : Option KbdQueue}
    (h : kbdMonitor.Routed (.read buf len) via) :
    sizeofKeyEvent ≤ len ∧ via = some .readq := by
  rcases via with _ | q <;> obtain ⟨d, he⟩ := h <;>
    simp only [kbdMonitor, kbdEntry] at he <;> split at he
  · cases he
  · cases he
  · cases he
  · next hlen =>
    cases he
    exact ⟨Nat.le_of_not_lt hlen, rfl⟩

/-- In every considerate run, whoever is at the dequeue finds an event. -/
theorem nonempty_reachable {Tid : Type} [DecidableEq Tid] {s : KbdState Tid}
    (hs : ((kbdMonitor.lts Tid kbdInit).restrict Considerate).Reachable s) {t : Tid}
    {buf : UserDst} {len : ℕ} {via : Option KbdQueue}
    (ht : s.pc t = .locking (.read buf len) via) :
    sizeofKeyEvent ≤ len ∧ s.dev.nonempty = true := by
  have hfresh : kbdMonitor.Fresh Reads s :=
    Monitor.fresh_reachable (fun _ => takesLast_of_cond) hs
  obtain ⟨hlen, rfl⟩ := routed_read (Monitor.routed_reachable hs ht)
  exact ⟨hlen, hfresh t .readq (Monitor.Pc.pastWait_iff.mpr ⟨_, ht, trivial⟩)⟩

/-- **Simulation**: a considerate run of any number of tasks is a traced run of the calls
it served. -/
theorem traced_reachable {Tid : Type} [DecidableEq Tid] {s : KbdState Tid}
    (hs : ((kbdMonitor.lts Tid kbdInit).restrict Considerate).Reachable s) :
    ∃ t, Traced.lts.Run .start (s.log.map (·.call)) t ∧ t.dev = s.dev ∧
      t.pushed = s.log.flatMap pushedBy ∧ t.returned = s.log.flatMap returnedBy := by
  have hser := Monitor.sections_inductive (J := fun d log =>
      ∃ t, Traced.lts.Run .start (log.map (·.call)) t ∧ t.dev = d ∧
        t.pushed = log.flatMap pushedBy ∧ t.returned = log.flatMap returnedBy)
    Lts.reachable_inductive ⟨.start, .nil, rfl, rfl, rfl⟩
    fun {s tid c via} (hs : ((kbdMonitor.lts Tid kbdInit).restrict Considerate).Reachable s)
      _ hp ⟨t, hrun, hdev, hpushed, hreturned⟩ => by
    have hsame : ¬ Starves s.dev c ∧ serve c s.dev = (kbdBody c s.dev).next ∧
        hands s.dev c = (kbdBody c s.dev).ret.event.toList := by
      cases c with
      | push code value => exact ⟨id, rfl, rfl⟩
      | read buf len =>
        obtain ⟨hlen, hne⟩ := nonempty_reachable hs hp
        refine ⟨fun hstarve => absurd (hne.symm.trans hstarve.2) nofun, ?_, ?_⟩
        · rw [serve, kbdmonRead, if_neg (Nat.not_lt.mpr hlen)]
          rfl
        · rw [hands, kbdmonRead, if_neg (Nat.not_lt.mpr hlen)]
          rfl
    obtain ⟨hne, hserve, hhands⟩ := hsame
    rw [← hdev] at hne hserve hhands
    have hnext : t.next c = some ⟨serve c t.dev, t.pushed ++ joins c,
        t.removed ++ leaves t.dev c, t.returned ++ hands t.dev c⟩ := if_neg hne
    refine ⟨⟨serve c t.dev, t.pushed ++ joins c, t.removed ++ leaves t.dev c,
      t.returned ++ hands t.dev c⟩, ?_, ?_, ?_, ?_⟩
    · rw [List.map_append]
      exact hrun.snoc hnext
    · change serve c t.dev = (kbdBody c s.dev).next
      rw [hserve, hdev]
    · change t.pushed ++ joins c = _
      rw [hpushed, List.flatMap_append]
      simp [pushedBy]
    · change t.returned ++ hands t.dev c = _
      rw [hreturned, hhands, hdev, List.flatMap_append]
      simp [returnedBy, kbdMonitor]
  exact (hser.reachable hs).2

/-- What is returned in a traced run is part of what was pushed, in order. -/
theorem Traced.returned_sublist {calls : List KbdCall} {t : Traced}
    (h : Traced.lts.Run .start calls t) : t.returned.Sublist t.pushed := by
  obtain ⟨hplaced, hdelivered, -⟩ := Traced.run_accounts h
  rw [hplaced, hdelivered]
  exact (List.filter_sublist.map _).trans (List.sublist_append_left ..)

/-- **Dequeues find an event**: in every run in which no read takes the last event while
another reader is between its wait and its dequeue, and no signal ends a reader's wait
while the ring is empty, whoever is at the dequeue finds `head != tail`, and the events
returned are, in order, some of the events pushed. A read that takes the last event then,
or a signal, leaves a task at the dequeue of an empty ring. -/
theorem kbdmon_dequeues_nonempty {Tid : Type} [DecidableEq Tid] (s : KbdState Tid) :
    (((kbdMonitor.lts Tid kbdInit).restrict Considerate).Reachable s →
      (∀ t buf len via, s.pc t = .locking (.read buf len) via → s.dev.head ≠ s.dev.tail) ∧
        (s.log.flatMap returnedBy).Sublist (s.log.flatMap pushedBy)) ∧
    (∀ t c via u q,
      s.pc t = .locking c via → TakesLast s.dev c q → u ≠ t → (s.pc u).PastWait Reads q →
        ∃ s₁ buf len via', kbdMonitor.next s (.lock t) = some s₁ ∧
          s₁.pc u = .locking (.read buf len) via' ∧ s₁.dev.head = s₁.dev.tail) ∧
    ∀ t buf len q, (s.pc t).OnQueue (.read buf len) q → s.dev.head = s.dev.tail →
      ∃ s₁, kbdMonitor.next s (.signal t) = some s₁ ∧
        s₁.pc t = .locking (.read buf len) (some q) ∧ s₁.dev.head = s₁.dev.tail := by
  refine ⟨fun hs => ⟨fun t buf len via ht => ?_, ?_⟩, ?_, ?_⟩
  · have hne := (nonempty_reachable hs ht).2
    rintro heq
    rw [KbdRing.nonempty_eq_false.mpr heq] at hne
    cases hne
  · obtain ⟨t, hrun, -, hpushed, hreturned⟩ := traced_reachable hs
    rw [← hpushed, ← hreturned]
    exact Traced.returned_sublist hrun
  · intro t c via u q hp hlast hut hpast
    obtain ⟨c', hu, hread⟩ := Monitor.Pc.pastWait_iff.mp hpast
    cases c' with
    | push code value => exact hread.elim
    | read buf len =>
      refine ⟨_, buf, len, some q, Monitor.next_lock hp, ?_, ?_⟩
      · rw [Monitor.State.serve_pc_ne s hut]
        exact hu
      · cases c with
        | push code value => exact hlast.elim
        | read buf' len' =>
          have hnext : (kbdBody (.read buf' len') s.dev).next = s.dev.advance := by
            rw [kbdBody, kbdmonDequeue]
            split <;> rfl
          change (kbdBody (.read buf' len') s.dev).next.head =
            (kbdBody (.read buf' len') s.dev).next.tail
          rw [hnext]
          exact hlast.symm
  · intro t buf len q hq heq
    refine ⟨s.goto t (.locking (.read buf len) (some q)), ?_, Monitor.State.goto_pc_self .., heq⟩
    rcases hq with hq | hq | hq <;> simp only [Monitor.next, hq, kbdMonitor]

/-- One event is pushed, and then two readers pass their wait before either dequeues. -/
def readersPastWait : List (Monitor.Act KbdCall Monitor.Duo) :=
  Monitor.Act.direct .one press ++
    (Monitor.Act.toLock .one goodRead ++ Monitor.Act.toLock .two goodRead)

/-- A reader finds the ring empty and enters the queue. -/
def readerOnQueue : List (Monitor.Act KbdCall Monitor.Duo) :=
  [.call .one goodRead, .enter .one, .test .one, .prepare .one]

/-- A lone reader gets the one event pushed; of two that pass their wait for it, one
comes to the dequeue of an empty ring, and so does one whose wait a signal ends. -/
theorem kbdmon_dequeues_nonempty_readers :
    (∃ s : KbdState Monitor.Duo,
      ((kbdMonitor.lts Monitor.Duo kbdInit).restrict Considerate).Reachable s ∧
      s.log.flatMap returnedBy = [⟨30, 1⟩] ∧
      (s.log.flatMap returnedBy).Sublist (s.log.flatMap pushedBy)) ∧
    (∃ s s₁ : KbdState Monitor.Duo, (kbdMonitor.lts Monitor.Duo kbdInit).Reachable s ∧
      kbdMonitor.next s (.lock .one) = some s₁ ∧ s₁.dev.head = s₁.dev.tail) ∧
    ∃ s s₁ : KbdState Monitor.Duo, (kbdMonitor.lts Monitor.Duo kbdInit).Reachable s ∧
      kbdMonitor.next s (.signal .one) = some s₁ ∧ s₁.dev.head = s₁.dev.tail := by
  refine ⟨?_, ?_, ?_⟩
  · have hrun : ∃ s : KbdState Monitor.Duo,
        ((kbdMonitor.lts Monitor.Duo kbdInit).restrict Considerate).Reachable s ∧
        s.log.flatMap returnedBy = [⟨30, 1⟩] :=
      Lts.exists_reachable_of_map
        (Monitor.Act.direct .one press ++ Monitor.Act.through .two goodRead) _ (by decide +kernel)
    obtain ⟨s, hs, hlog⟩ := hrun
    exact ⟨s, hs, hlog, ((kbdmon_dequeues_nonempty s).1 hs).2⟩
  · have hrun : ∃ s : KbdState Monitor.Duo, (kbdMonitor.lts Monitor.Duo kbdInit).Reachable s ∧
        s.pc .one = .locking goodRead (some .readq) ∧ TakesLast s.dev goodRead .readq ∧
        (s.pc .two).PastWait Reads .readq :=
      ⟨_, Lts.reachable_of_foldlM (.init rfl)
        (rfl : readersPastWait.foldlM kbdMonitor.next (Monitor.start kbdInit) = some _),
        rfl, by decide +kernel, by decide +kernel⟩
    obtain ⟨s, hs, hp, hlast, hpast⟩ := hrun
    obtain ⟨s₁, -, -, -, hnext, -, hempty⟩ := (kbdmon_dequeues_nonempty s).2.1 .one goodRead
      (some .readq) .two .readq hp hlast (by decide) hpast
    exact ⟨s, s₁, hs, hnext, hempty⟩
  · have hrun : ∃ s : KbdState Monitor.Duo, (kbdMonitor.lts Monitor.Duo kbdInit).Reachable s ∧
        s.pc .one = .queued goodRead .readq ∧ s.dev.head = s.dev.tail :=
      ⟨_, Lts.reachable_of_foldlM (.init rfl)
        (rfl : readerOnQueue.foldlM kbdMonitor.next (Monitor.start kbdInit) = some _),
        rfl, rfl⟩
    obtain ⟨s, hs, hp, hempty⟩ := hrun
    obtain ⟨s₁, hnext, -, hempty'⟩ := (kbdmon_dequeues_nonempty s).2.2 .one _ _ _ (.inl hp) hempty
    exact ⟨s, s₁, hs, hnext, hempty'⟩

/-- A signal ends its wait. -/
def readerSignalled : List (Monitor.Act KbdCall Monitor.Duo) := readerOnQueue ++ [.signal .one]

/-- A reader waits on the empty ring, a signal ends its wait, and it dequeues: it returns
an event, and none was ever pushed. -/
theorem kbdmon_signal_reads_nothing :
    ∃ s s₁ : KbdState Monitor.Duo, (kbdMonitor.lts Monitor.Duo kbdInit).Reachable s ∧
      s.pc .one = .locking goodRead (some .readq) ∧ s.dev.head = s.dev.tail ∧
      kbdMonitor.next s (.lock .one) = some s₁ ∧
      s₁.log.flatMap returnedBy = [⟨0, 0⟩] ∧ s₁.log.flatMap pushedBy = [] := by
  have hs := Lts.reachable_of_foldlM (.init rfl)
    (rfl : readerSignalled.foldlM kbdMonitor.next (Monitor.start kbdInit) = some _)
  exact ⟨_, _, hs, rfl, rfl, rfl, by decide +kernel, by decide +kernel⟩

end KbdmonChrdev

end KernelModules
