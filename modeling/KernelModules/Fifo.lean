import KernelModules.Transition

/-!
# Bounded first-in-first-out queues

What a byte-stream or message device is for, with no ring, lock or cursor in
sight: a queue that never holds more than `cap` items, that takes items in at
the back and gives them out at the front.

* `Fifo α cap` — a queue that carries its own bound;
* `Fifo.Step` — the three things that can happen to one, as a transition
  system `Fifo.lts` whose labels say which items crossed the boundary;
* `Fifo.conservation` — over a run that throws nothing away, what came out
  followed by what is still inside is what went in, in order;
* `Fifo.dropLts` — the queue that never refuses an item and drops its oldest one for it;
* `block_start_of_mark` — when every block fed into a stream carries a mark at
  its first item and nowhere else, a marked position of the stream is the
  start of a block.
-/

namespace KernelModules

universe u

/-- A queue of at most `cap` items, oldest first. -/
structure Fifo (α : Type u) (cap : ℕ) where
  /-- the items held, oldest first -/
  items : List α
  /-- the queue is within its capacity -/
  bounded : items.length ≤ cap

/-- What crosses the boundary of a queue in one step. -/
inductive FifoEvent (α : Type u) : Type u where
  /-- items taken in at the back -/
  | accept (xs : List α)
  /-- items given out from the front -/
  | deliver (xs : List α)
  /-- everything held is thrown away -/
  | clear

namespace FifoEvent

variable {α : Type u}

/-- The items an event takes in. -/
def accepted : FifoEvent α → List α
  | accept xs => xs
  | _ => []

/-- The items an event gives out. -/
def delivered : FifoEvent α → List α
  | deliver xs => xs
  | _ => []

end FifoEvent

namespace Fifo

variable {α : Type u} {cap : ℕ}

/-- The empty queue. -/
def empty : Fifo α cap := ⟨[], Nat.zero_le _⟩

/-- Two queues with the same items are the same queue. -/
@[ext] theorem ext {p q : Fifo α cap} (h : p.items = q.items) : p = q := by
  cases p; cases q
  cases h
  rfl

/-- One step of a bounded queue. -/
inductive Step : Fifo α cap → FifoEvent α → Fifo α cap → Prop where
  /-- items join the back, within capacity -/
  | accept {q q' : Fifo α cap} (xs : List α) :
      q'.items = q.items ++ xs → Step q (.accept xs) q'
  /-- a prefix of the queue is handed out -/
  | deliver {q q' : Fifo α cap} (xs : List α) :
      q.items = xs ++ q'.items → Step q (.deliver xs) q'
  /-- the queue is emptied -/
  | clear {q : Fifo α cap} : Step q .clear empty

/-- Bounded queues as a transition system, started empty. -/
def lts (α : Type u) (cap : ℕ) : Lts (Fifo α cap) (FifoEvent α) where
  init q := q = empty
  step := Step

/-- One step that throws nothing away conserves the items. -/
theorem Step.conserve {q q' : Fifo α cap} {e : FifoEvent α} (h : Step q e q')
    (he : e ≠ .clear) : e.delivered ++ q'.items = q.items ++ e.accepted := by
  cases h with
  | accept xs hq => simpa [FifoEvent.accepted, FifoEvent.delivered] using hq
  | deliver xs hq => simpa [FifoEvent.accepted, FifoEvent.delivered] using hq.symm
  | clear => exact absurd rfl he

/-- **Conservation**: over a run that throws nothing away, everything given out
followed by what is still held is what was held at first followed by everything
taken in, in order. -/
theorem conservation {q₀ q : Fifo α cap} {es : List (FifoEvent α)}
    (hr : (lts α cap).Run q₀ es q) (hes : FifoEvent.clear ∉ es) :
    es.flatMap FifoEvent.delivered ++ q.items =
      q₀.items ++ es.flatMap FifoEvent.accepted := by
  induction hr with
  | nil => simp
  | @snoc as s s' a hrun hstep ih =>
    have hne : a ≠ .clear := fun h => hes (by simp [h])
    have has : FifoEvent.clear ∉ as := fun h => hes (List.mem_append_left _ h)
    have hone : a.delivered ++ s'.items = s.items ++ a.accepted := Step.conserve hstep hne
    calc (as ++ [a]).flatMap FifoEvent.delivered ++ s'.items
        = as.flatMap FifoEvent.delivered ++ (a.delivered ++ s'.items) := by simp
      _ = (as.flatMap FifoEvent.delivered ++ s.items) ++ a.accepted := by
          rw [hone, List.append_assoc]
      _ = q₀.items ++ (as ++ [a]).flatMap FifoEvent.accepted := by
          rw [ih has]
          simp

/-! ## Queues that drop their oldest item -/

/-- What happens to a queue that always takes an item in. -/
inductive DropEvent (α : Type u) : Type u where
  /-- an item joins the back -/
  | push (x : α)
  /-- the oldest item is taken -/
  | pop (x : α)

/-- One step of a bounded queue that makes room by dropping its oldest item. -/
inductive DropStep : Fifo α cap → DropEvent α → Fifo α cap → Prop where
  /-- there is room -/
  | push {q q' : Fifo α cap} {x : α} : q.items.length < cap → q'.items = q.items ++ [x] →
      DropStep q (.push x) q'
  /-- there is none: the oldest item is removed first -/
  | pushFull {q q' : Fifo α cap} {oldest x : α} {rest : List α} : q.items.length = cap →
      q.items = oldest :: rest → q'.items = rest ++ [x] → DropStep q (.push x) q'
  /-- the oldest item is taken -/
  | pop {q q' : Fifo α cap} {x : α} : q.items = x :: q'.items → DropStep q (.pop x) q'

/-- Such queues, started empty. -/
def dropLts (α : Type u) (cap : ℕ) : Lts (Fifo α cap) (DropEvent α) where
  init q := q = empty
  step := DropStep

end Fifo

/-! ## Streams fed in blocks -/

variable {α : Type u}

/-- A position of a stream is the start of a block when the blocks before it add
up to exactly that many items and the next block is not empty. -/
def BlockStart (blocks : List (List α)) (n : ℕ) : Prop :=
  ∃ before b after, blocks = before ++ b :: after ∧ before.flatten.length = n ∧ b ≠ []

/-- A block marked at its first item only. -/
def MarkedHead (mark : α) (b : List α) : Prop :=
  ∀ i, b[i]? = some mark → i = 0

/-- In a stream of blocks that are marked at most at their first item, a marked
position is the start of a block. -/
theorem block_start_of_mark {mark : α} :
    ∀ {blocks : List (List α)} {n : ℕ}, (∀ b ∈ blocks, MarkedHead mark b) →
      blocks.flatten[n]? = some mark → BlockStart blocks n := by
  intro blocks
  induction blocks with
  | nil =>
    intro n _ hn
    simp at hn
  | cons b rest ih =>
    intro n hb hn
    rw [List.flatten_cons] at hn
    by_cases hlt : n < b.length
    · -- inside the first block: only its first item can be marked
      rw [List.getElem?_append_left hlt] at hn
      have h0 : n = 0 := hb b (List.mem_cons_self ..) n hn
      refine ⟨[], b, rest, rfl, h0.symm, ?_⟩
      rintro rfl
      simp at hlt
    · -- further on: the same position of the remaining blocks
      rw [List.getElem?_append_right (by omega)] at hn
      obtain ⟨before, c, after, hsplit, hlen, hc⟩ :=
        ih (fun c hc => hb c (List.mem_cons_of_mem _ hc)) hn
      refine ⟨b :: before, c, after, by rw [hsplit]; rfl, ?_, hc⟩
      rw [List.flatten_cons, List.length_append, hlen]
      omega

end KernelModules
