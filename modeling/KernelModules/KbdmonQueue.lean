import KernelModules.Fifo
import KernelModules.KbdmonChrdev
import Mathlib.Data.Int.Notation

/-!
# The ring of `kbdmon_chrdev.c` as a queue

Here the two cursors are the C `int`s they are, with `%` as C has it, and the ring is the
memory from `ring` on: nothing in the types keeps a cursor inside it.

* `IntRing`, `IntRing.pushEvent`, `IntRing.dequeue` — the ring as the C code has it;
* `Represents` — it is a ring whose cursors are inside, and stays one;
* `ring_is_drop_oldest` — the events from `tail` up to `head` are a queue of at most 127
  events that drops its oldest one.
-/

namespace KernelModules

namespace KbdmonChrdev

/-- `ring`, `head` and `tail`, with `int` cursors. -/
structure IntRing where
  /-- the memory from `ring` on -/
  ring : ℤ → KeyEvent
  /-- the slot the next event is written to -/
  head : ℤ
  /-- the slot of the oldest event -/
  tail : ℤ

/-- `i % BUF_SIZE`, with the sign of `i` as in C -/
def cMod (i : ℤ) : ℤ := i.tmod bufSize

/-- `push_event`, under the lock -/
def IntRing.pushEvent (code : UInt16) (value : UInt8) (r : IntRing) : IntRing :=
  let r := { r with ring := Function.update r.ring r.head ⟨code, value⟩ }
  let r := { r with head := cMod (r.head + 1) }
  if r.head = r.tail then { r with tail := cMod (r.tail + 1) } else r

/-- The dequeue of `kbdmon_read`, under the lock: the ring behind it and `ev`. -/
def IntRing.dequeue (r : IntRing) : IntRing × KeyEvent :=
  let ev := r.ring r.tail
  ({ r with tail := cMod (r.tail + 1) }, ev)

/-- Static storage is zeroed. -/
def IntRing.static : IntRing := ⟨fun _ => ⟨0, 0⟩, 0, 0⟩

/-- The number of slots from `tail` up to `head`. -/
def IntRing.held (r : IntRing) : ℕ := (cMod (r.head + bufSize - r.tail)).toNat

/-- The events from `tail` up to `head`. -/
def IntRing.contents (r : IntRing) : List KeyEvent :=
  (List.range r.held).map fun i : ℕ => r.ring (cMod (r.tail + (i : ℤ)))

/-- A push, or a dequeue that finds the ring not empty and returns an event. -/
inductive IntRing.Step (r : IntRing) : Fifo.DropEvent KeyEvent → IntRing → Prop where
  /-- `push_event` -/
  | push (code : UInt16) (value : UInt8) : Step r (.push ⟨code, value⟩) (r.pushEvent code value)
  /-- the dequeue -/
  | dequeue : r.head ≠ r.tail → Step r (.pop r.dequeue.2) r.dequeue.1

/-- The ring and its callers. -/
def intRingLts : Lts IntRing (Fifo.DropEvent KeyEvent) where
  init r := r = IntRing.static
  step := IntRing.Step

/-! ## The cursors stay inside -/

/-- The memory and the cursors are those of a ring whose cursors are inside. -/
structure Represents (r : IntRing) (d : KbdRing) : Prop where
  /-- `head` -/
  head : r.head = (d.head : ℕ)
  /-- `tail` -/
  tail : r.tail = (d.tail : ℕ)
  /-- the slots -/
  ring : ∀ i : ℕ, i < bufSize → r.ring i = d.cell i

theorem cMod_natCast (n : ℕ) : cMod n = (n % bufSize : ℕ) := (Int.ofNat_tmod n bufSize).symm

theorem cMod_cursor (i : Cursor) : cMod ((i : ℕ) + 1) = (i.next : ℕ) := cMod_natCast (i + 1)

theorem Represents.head_eq_tail {r : IntRing} {d : KbdRing} (h : Represents r d) :
    r.head = r.tail ↔ d.head = d.tail := by
  rw [h.head, h.tail, Int.ofNat_inj, Fin.ext_iff]

theorem Represents.store {r : IntRing} {d : KbdRing} (h : Represents r d) (ev : KeyEvent) :
    Represents ⟨Function.update r.ring r.head ev, cMod (r.head + 1), r.tail⟩ (d.store ev) where
  head := by
    rw [h.head]
    exact cMod_cursor d.head
  tail := h.tail
  ring i hi := by
    rw [KbdRing.cell_store, h.head]
    by_cases heq : i = d.head
    · subst heq
      rw [Function.update_self]
      exact Function.update_self ..
    · rw [Function.update_of_ne heq, ← h.ring i hi]
      exact Function.update_of_ne (fun hc => heq (Int.ofNat_inj.mp hc)) ..

theorem Represents.advance {r : IntRing} {d : KbdRing} (h : Represents r d) :
    Represents { r with tail := cMod (r.tail + 1) } d.advance where
  head := h.head
  tail := by
    rw [h.tail]
    exact cMod_cursor d.tail
  ring := h.ring

/-- **Push** keeps the cursors inside. -/
theorem Represents.pushEvent {r : IntRing} {d : KbdRing} (h : Represents r d) (code : UInt16)
    (value : UInt8) :
    Represents (r.pushEvent code value) (KbdmonChrdev.pushEvent code value d) := by
  have hstore := h.store ⟨code, value⟩
  have hmeet := hstore.head_eq_tail
  rw [IntRing.pushEvent, KbdmonChrdev.pushEvent]
  by_cases hfull : (d.store ⟨code, value⟩).head = (d.store ⟨code, value⟩).tail
  · simp only [if_pos hfull, if_pos (hmeet.mpr hfull)]
    exact hstore.advance
  · simp only [if_neg hfull, if_neg fun hc => hfull (hmeet.mp hc)]
    exact hstore

/-- So do the events between them. -/
theorem Represents.contents {r : IntRing} {d : KbdRing} (h : Represents r d) :
    r.contents = KbdmonChrdev.contents d := by
  have hheld : r.held = d.held := by
    have hle : (d.tail : ℕ) ≤ d.head + bufSize := by
      have htail := d.tail.isLt
      omega
    have hcast : (d.head : ℤ) + bufSize - d.tail = ((d.head + bufSize - d.tail : ℕ) : ℤ) := by
      push_cast [hle]
      rfl
    rw [IntRing.held, h.head, h.tail, hcast, cMod_natCast]
    rfl
  rw [IntRing.contents, KbdmonChrdev.contents, Circular.window, hheld]
  refine List.map_congr_left fun i _ => ?_
  have hslot : cMod (r.tail + (i : ℤ)) = ((d.tail + i) % bufSize : ℕ) := by
    rw [h.tail]
    exact cMod_natCast (d.tail + i)
  rw [hslot]
  exact h.ring _ (Nat.mod_lt _ bufSize_pos)

/-! ## The queue -/

/-- The slot that stays free. -/
theorem KbdRing.held_le (d : KbdRing) : d.held ≤ 127 := Nat.le_of_lt_succ d.held_lt

theorem KbdRing.full_iff {d : KbdRing} : d.head.next = d.tail ↔ d.held = 127 := by
  have hhead := d.head.isLt
  have htail := d.tail.isLt
  rw [Fin.ext_iff]
  simp only [KbdRing.held, Cursor.next, bufSize] at *
  omega

/-- The ring holds what the queue holds. -/
def Holds (r : IntRing) (q : Fifo KeyEvent 127) : Prop :=
  ∃ d, Represents r d ∧ q.items = contents d

/-- The queue of a ring. -/
def KbdRing.queue (d : KbdRing) : Fifo KeyEvent 127 :=
  ⟨contents d, by rw [length_contents]; exact d.held_le⟩

/-- **Every step** of the ring is one of the queue. -/
theorem Holds.step {r r' : IntRing} {q : Fifo KeyEvent 127} {a : Fifo.DropEvent KeyEvent}
    (h : Holds r q) (hstep : r.Step a r') :
    ∃ q', (Fifo.dropLts KeyEvent 127).step q a q' ∧ Holds r' q' := by
  obtain ⟨d, hd, hq⟩ := h
  cases hstep with
  | push code value =>
    refine ⟨(pushEvent code value d).queue, ?_, _, hd.pushEvent code value, rfl⟩
    have hpush := contents_pushEvent code value d
    have hlen : q.items.length = d.held := by rw [hq, length_contents]
    by_cases hfull : d.head.next = d.tail
    · -- the push drops the oldest of 127 events
      rw [if_pos hfull] at hpush
      have hnonempty : d.nonempty = true := by
        rw [KbdRing.nonempty_iff, KbdRing.full_iff.mp hfull]
        decide
      have hold := contents_advance hnonempty
      rw [hold, List.cons_append, List.cons.injEq] at hpush
      exact .pushFull (hlen.trans (KbdRing.full_iff.mp hfull)) (hq.trans hold) hpush.2.symm
    · rw [if_neg hfull] at hpush
      have hroom : d.held < 127 :=
        Nat.lt_of_le_of_ne d.held_le fun h127 => hfull (KbdRing.full_iff.mpr h127)
      refine .push (by rw [hlen]; exact hroom) ?_
      rw [hq]
      exact hpush
  | dequeue hne =>
    refine ⟨d.advance.queue, ?_, _, hd.advance, rfl⟩
    have hnonempty : d.nonempty = true := by
      rw [KbdRing.nonempty, bne_iff_ne]
      exact fun heq => hne (hd.head_eq_tail.mpr heq)
    have hfront : r.dequeue.2 = d.front := by
      rw [KbdRing.front_eq_cell, ← hd.ring d.tail d.tail.isLt, ← hd.tail]
      rfl
    rw [hfront]
    exact .pop (hq.trans (contents_advance hnonempty))

theorem holds_static : Holds IntRing.static Fifo.empty :=
  ⟨kbdInit, ⟨rfl, rfl, fun i hi => by
    simp [IntRing.static, KbdRing.cell, kbdInit, Vector.getD, hi]⟩, rfl⟩

/-- **The ring is a queue of at most 127 events that drops its oldest one**: after any
sequence of pushes, and of dequeues that find it not empty, the cursors are inside the
ring, and the events from `tail` up to `head` are those in a queue that has taken the same
pushes in and given the same dequeued events out. -/
theorem ring_is_drop_oldest {r : IntRing} {as : List (Fifo.DropEvent KeyEvent)}
    (hr : intRingLts.Run IntRing.static as r) :
    (0 ≤ r.head ∧ r.head ≤ 127) ∧ (0 ≤ r.tail ∧ r.tail ≤ 127) ∧
      ∃ q : Fifo KeyEvent 127, (Fifo.dropLts KeyEvent 127).Run Fifo.empty as q ∧
        q.items = r.contents := by
  obtain ⟨q, hq, d, hd, hitems⟩ := hr.simulate Holds.step holds_static
  have hhead := d.head.isLt
  have htail := d.tail.isLt
  rw [hd.head, hd.tail]
  simp only [bufSize] at hhead htail
  refine ⟨by omega, by omega, q, hq, ?_⟩
  rw [hitems, hd.contents]

/-- Two events go in and the first comes out. -/
theorem ring_is_drop_oldest_two :
    ∃ q : Fifo KeyEvent 127, (Fifo.dropLts KeyEvent 127).Run Fifo.empty
      [.push ⟨30, 1⟩, .push ⟨48, 1⟩, .pop ⟨30, 1⟩] q ∧ q.items = [⟨48, 1⟩] := by
  have hone : intRingLts.Run IntRing.static [.push ⟨30, 1⟩] (IntRing.static.pushEvent 30 1) :=
    .snoc .nil (IntRing.Step.push 30 1)
  have htwo := hone.snoc (IntRing.Step.push 48 1)
  have hne : ((IntRing.static.pushEvent 30 1).pushEvent 48 1).head ≠
      ((IntRing.static.pushEvent 30 1).pushEvent 48 1).tail := by decide
  have hr : intRingLts.Run IntRing.static [.push ⟨30, 1⟩, .push ⟨48, 1⟩, .pop ⟨30, 1⟩] _ :=
    htwo.snoc (IntRing.Step.dequeue hne)
  obtain ⟨-, -, q, hq, hitems⟩ := ring_is_drop_oldest hr
  exact ⟨q, hq, hitems⟩

end KbdmonChrdev

end KernelModules
