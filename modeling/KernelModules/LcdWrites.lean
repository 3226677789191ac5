import KernelModules.LcdDriver
import KernelModules.Monitor
import KernelModules.Serial
import KernelModules.Transition
import KernelModules.UserMemory

/-!
# `driver_write` of `LKM_lcd.c`

A write copies its bytes into `lcd_buffer`, wipes the screen and sends the bytes one at a
time. The buffer and the eleven pins belong to the module and there is no lock: two writes
may be on their way together, and each byte takes ten milliseconds of sleep.

* `driverWrite` — one write on its own;
* `next` — any number of writes side by side, one `gpio_set_value` or one copy at a time;
* `Apart` — the steps that leave the other writes alone: a copy while nobody has a byte of
  `lcd_buffer` still to load, a pin while nobody is in the middle of its pins;
* `traffic_in_turn` — a run of such steps drives the pins as the writes one after the
  other would.
-/

namespace KernelModules

namespace LcdDriver

open Strobe

/-! ## One write -/

/-- `sizeof(lcd_buffer)` -/
def lcdBufferSize : ℕ := 17

/-- `lcd_buffer` -/
abbrev LcdBuffer : Type := Vector UInt8 lcdBufferSize

/-- The arguments of `driver_write`. -/
structure WriteCall where
  /-- `user_buffer` -/
  userBuffer : UserBlock
  /-- `count` -/
  count : ℕ

/-- `to_copy` -/
def WriteCall.toCopy (c : WriteCall) : ℕ := min c.count lcdBufferSize

/-- `not_copied` -/
def WriteCall.notCopied (c : WriteCall) : ℕ := c.userBuffer.left c.toCopy

/-- `lcd_buffer` behind the copy. -/
def WriteCall.copy (c : WriteCall) (lcdBuffer : LcdBuffer) : LcdBuffer :=
  copyFromUser lcdBuffer c.userBuffer c.toCopy

/-- `lcd_buffer[i]` -/
def loaded (lcdBuffer : LcdBuffer) (i : ℕ) : UInt8 := lcdBuffer.getD i 0

/-- What a write leaves behind. -/
structure Written where
  /-- `lcd_buffer` -/
  lcdBuffer : LcdBuffer
  /-- the pin traffic -/
  traffic : List (Assign ℕ)
  /-- the value returned to the caller -/
  code : ℤ

/-- `driver_write` -/
def driverWrite (c : WriteCall) (lcdBuffer : LcdBuffer) : Written :=
  let lcdBuffer := c.copy lcdBuffer
  ⟨lcdBuffer,
    lcdInstruction 0x1 ++ (List.range c.toCopy).flatMap fun i => lcdData (loaded lcdBuffer i),
    c.toCopy - c.notCopied⟩

/-! ## Writes side by side -/

/-- Where a write is. -/
inductive WritePc where
  /-- before the copy -/
  | start
  /-- behind the copy, about to wipe the screen -/
  | copied (toCopy notCopied : ℕ)
  /-- with these pins still to be set for one byte, and the bytes from `i` on behind it -/
  | sending (todo : List (Assign ℕ)) (i toCopy notCopied : ℕ)
  /-- back in user space -/
  | returned (code : ℤ)

/-- The module and the writes on their way. -/
structure WriteState (Tid : Type*) where
  /-- `lcd_buffer` -/
  lcdBuffer : LcdBuffer
  /-- what has been set on the pins -/
  traffic : List (Assign ℕ)
  /-- where each write is -/
  pc : Tid → WritePc

variable {Tid : Type*} [DecidableEq Tid]

/-- The module once write `t` has moved on. -/
def WriteState.at (s : WriteState Tid) (t : Tid) (pc : WritePc) : WriteState Tid :=
  { s with pc := Function.update s.pc t pc }

/-- The module once write `t` has set a pin. -/
def WriteState.send (s : WriteState Tid) (t : Tid) (e : Assign ℕ) (pc : WritePc) :
    WriteState Tid :=
  { s.at t pc with traffic := s.traffic ++ [e] }

/-- One step of write `t`: the copy, one pin, or the return. A byte is loaded from
`lcd_buffer` when its first pin, the mode, is set. -/
def writeNext (calls : Tid → WriteCall) (s : WriteState Tid) (t : Tid) :
    Option (WriteState Tid) :=
  match s.pc t with
  | .start =>
    some { s.at t (.copied (calls t).toCopy (calls t).notCopied) with
      lcdBuffer := (calls t).copy s.lcdBuffer }
  | .copied toCopy notCopied =>
    some (s.send t (gpioSetValue (gpio 0) 0)
      (.sending (lcdSendByte 0x1) 0 toCopy notCopied))
  | .sending (e :: todo) i toCopy notCopied =>
    some (s.send t e (.sending todo i toCopy notCopied))
  | .sending [] i toCopy notCopied =>
    if i < toCopy then
      some (s.send t (gpioSetValue (gpio 0) 1)
        (.sending (lcdSendByte (loaded s.lcdBuffer i)) (i + 1) toCopy notCopied))
    else some (s.at t (.returned (toCopy - notCopied)))
  | .returned _ => none

/-- Every write is about to start. -/
def writeInit (lcdBuffer : LcdBuffer) : WriteState Tid := ⟨lcdBuffer, [], fun _ => .start⟩

/-- The writes side by side. -/
def writeLts (calls : Tid → WriteCall) (lcdBuffer : LcdBuffer) : Lts (WriteState Tid) Tid :=
  Lts.ofNext (writeInit lcdBuffer) (writeNext calls)

/-! ## Steps that leave the other writes alone -/

/-- It has a byte still to load from `lcd_buffer`. -/
def WritePc.loads : WritePc → Prop
  | .copied toCopy _ => 0 < toCopy
  | .sending _ i toCopy _ => i < toCopy
  | _ => False

/-- It has set some of its pins and has others still to set. -/
def WritePc.midway : WritePc → Prop
  | .sending todo i toCopy _ => todo ≠ [] ∨ i < toCopy
  | _ => False

/-- The next thing it does is to set a pin. -/
def WritePc.sets : WritePc → Prop
  | .copied _ _ => True
  | pc => pc.midway

/-- Write `t` copies only while no other has a byte to load, and sets a pin only while no
other is in the middle of its pins. -/
def Apart (s : WriteState Tid) (t : Tid) : Prop :=
  ∀ u, u ≠ t → (s.pc t = .start → ¬ (s.pc u).loads) ∧ ((s.pc t).sets → ¬ (s.pc u).midway)

/-! ## What a write is to send -/

/-- Byte `i` of what the copy puts into `lcd_buffer`. -/
def WriteCall.byteAt (c : WriteCall) (i : ℕ) : UInt8 := c.userBuffer.fill c.toCopy i 0

/-- The traffic of the bytes from `i` on. -/
def WriteCall.dataFrom (c : WriteCall) (i : ℕ) : List (Assign ℕ) :=
  (List.range' i (c.toCopy - i)).flatMap fun j => lcdData (c.byteAt j)

/-- The traffic of a write, in terms of its arguments. -/
def WriteCall.plan (c : WriteCall) : List (Assign ℕ) := lcdInstruction 0x1 ++ c.dataFrom 0

/-- What a write has still to send. -/
def WriteCall.rest (c : WriteCall) : WritePc → List (Assign ℕ)
  | .start | .copied _ _ => c.plan
  | .sending todo i _ _ => todo ++ c.dataFrom i
  | .returned _ => []

/-- What a write relies on: the bytes it has still to load are its own. -/
def WriteCall.Holds (c : WriteCall) (lcdBuffer : LcdBuffer) : WritePc → Prop
  | .start => True
  | .copied toCopy notCopied => toCopy = c.toCopy ∧ notCopied = c.notCopied ∧
      ∀ j < toCopy, loaded lcdBuffer j = c.byteAt j
  | .sending _ i toCopy notCopied => toCopy = c.toCopy ∧ notCopied = c.notCopied ∧
      ∀ j, i ≤ j → j < toCopy → loaded lcdBuffer j = c.byteAt j
  | .returned code => code = c.toCopy - c.notCopied

theorem WriteCall.toCopy_le (c : WriteCall) : c.toCopy ≤ lcdBufferSize := min_le_right ..

/-- Behind the copy the buffer holds the bytes of the write. -/
theorem WriteCall.loaded_copy (c : WriteCall) (lcdBuffer : LcdBuffer) {j : ℕ}
    (hj : j < c.toCopy) : loaded (c.copy lcdBuffer) j = c.byteAt j := by
  have hsize : j < lcdBufferSize := lt_of_lt_of_le hj c.toCopy_le
  simp [loaded, copy, copyFromUser, byteAt, UserBlock.fill, Vector.getD, hsize, hj]

theorem WriteCall.plan_ne_nil (c : WriteCall) : c.plan ≠ [] := List.cons_ne_nil _ _

/-- The bytes from `i` on are byte `i` and the others. -/
theorem WriteCall.dataFrom_eq {c : WriteCall} {i : ℕ} (hi : i < c.toCopy) :
    c.dataFrom i = lcdData (c.byteAt i) ++ c.dataFrom (i + 1) := by
  have hlen : c.toCopy - i = c.toCopy - (i + 1) + 1 := by omega
  rw [dataFrom, hlen, List.range'_succ, List.flatMap_cons]
  rfl

theorem WriteCall.dataFrom_of_le {c : WriteCall} {i : ℕ} (hi : c.toCopy ≤ i) :
    c.dataFrom i = [] := by
  rw [dataFrom, Nat.sub_eq_zero_of_le hi]
  rfl

/-- A write on its own sends its plan, whatever the buffer held before. -/
theorem driverWrite_traffic (c : WriteCall) (lcdBuffer : LcdBuffer) :
    (driverWrite c lcdBuffer).traffic = c.plan := by
  have hdata : (List.range c.toCopy).flatMap (fun i => lcdData (loaded (c.copy lcdBuffer) i)) =
      (List.range c.toCopy).flatMap fun i => lcdData (c.byteAt i) :=
    List.flatMap_congr fun i hi => by rw [c.loaded_copy lcdBuffer (List.mem_range.mp hi)]
  rw [WriteCall.plan, WriteCall.dataFrom, Nat.sub_zero, ← List.range_eq_range', ← hdata]
  rfl

/-! ## One step -/

/-- What a step of write `t` does, if the write can rely on the buffer. -/
inductive WriteStep (c : WriteCall) (s : WriteState Tid) (t : Tid) : WriteState Tid → Prop where
  /-- the copy -/
  | copy : s.pc t = .start → WriteStep c s t
      { s.at t (.copied c.toCopy c.notCopied) with lcdBuffer := c.copy s.lcdBuffer }
  /-- the pin that comes next in its plan -/
  | send {e : Assign ℕ} {pc : WritePc} : (s.pc t).sets → c.rest (s.pc t) = e :: c.rest pc →
      c.Holds s.lcdBuffer pc → WriteStep c s t (s.send t e pc)
  /-- the return, with nothing left to send -/
  | leave : c.rest (s.pc t) = [] →
      WriteStep c s t (s.at t (.returned (c.toCopy - c.notCopied)))

theorem writeStep_of_next {calls : Tid → WriteCall} {s s' : WriteState Tid} {t : Tid}
    (hold : (calls t).Holds s.lcdBuffer (s.pc t)) (h : writeNext calls s t = some s') :
    WriteStep (calls t) s t s' := by
  rw [writeNext] at h
  cases hpc : s.pc t with
  | start =>
    rw [hpc] at h
    obtain rfl := Option.some.inj h
    exact .copy hpc
  | copied toCopy notCopied =>
    rw [hpc] at h hold
    obtain rfl := Option.some.inj h
    refine .send (by rw [hpc]; trivial) (by rw [hpc]; rfl) ?_
    exact ⟨hold.1, hold.2.1, fun j _ hj => hold.2.2 j hj⟩
  | sending todo i toCopy notCopied =>
    rw [hpc] at h hold
    obtain ⟨rfl, rfl, hbytes⟩ := hold
    cases todo with
    | cons e todo =>
      obtain rfl := Option.some.inj h
      refine .send ?_ (by rw [hpc]; rfl) ⟨rfl, rfl, hbytes⟩
      rw [hpc]
      exact .inl (List.cons_ne_nil e todo)
    | nil =>
      by_cases hi : i < (calls t).toCopy
      · obtain rfl := Option.some.inj ((if_pos hi).symm.trans h)
        refine .send ?_ ?_ ⟨rfl, rfl, fun j hij => hbytes j (by omega)⟩
        · rw [hpc]
          exact .inr hi
        · rw [hpc, WriteCall.rest, WriteCall.rest, WriteCall.dataFrom_eq hi,
            hbytes i (le_refl i) hi]
          rfl
      · obtain rfl := Option.some.inj ((if_neg hi).symm.trans h)
        refine .leave ?_
        rw [hpc, WriteCall.rest, WriteCall.dataFrom_of_le (Nat.le_of_not_lt hi)]
        rfl
  | returned code =>
    rw [hpc] at h
    cases h

/-! ## Runs of steps that leave the others alone -/

/-- The writes come one after the other, and each can rely on the buffer. -/
structure Steady (calls : Tid → WriteCall) (s : WriteState Tid) : Prop where
  /-- the pins have been driven by one write after the other -/
  turn : Serial.InTurn (fun t => (calls t).plan) (fun t => (calls t).rest (s.pc t)) s.traffic
  /-- what a write has still to load is its own -/
  holds : ∀ t, (calls t).Holds s.lcdBuffer (s.pc t)

/-- A write that is not in the middle of its pins has all of them to set, or none. -/
theorem WriteCall.rest_of_not_midway {c : WriteCall} {lcdBuffer : LcdBuffer} {pc : WritePc}
    (hold : c.Holds lcdBuffer pc) (h : ¬ pc.midway) : c.rest pc = c.plan ∨ c.rest pc = [] := by
  cases pc with
  | start => exact .inl rfl
  | copied toCopy notCopied => exact .inl rfl
  | sending todo i toCopy notCopied =>
    rw [WritePc.midway, not_or, not_not, not_lt, hold.1] at h
    rw [rest, h.1, dataFrom_of_le h.2]
    exact .inr rfl
  | returned code => exact .inr rfl

/-- A write with nothing to load relies on nothing in the buffer. -/
theorem WriteCall.Holds.of_not_loads {c : WriteCall} {b b' : LcdBuffer} {pc : WritePc}
    (hold : c.Holds b pc) (h : ¬ pc.loads) : c.Holds b' pc := by
  cases pc with
  | start => trivial
  | copied toCopy notCopied =>
    exact ⟨hold.1, hold.2.1, fun j hj => absurd (Nat.lt_of_le_of_lt (Nat.zero_le j) hj) h⟩
  | sending todo i toCopy notCopied =>
    exact ⟨hold.1, hold.2.1, fun j hij hj => absurd (Nat.lt_of_le_of_lt hij hj) h⟩
  | returned code => exact hold

/-- What every write has left, once one of them has moved on. -/
theorem rest_update (calls : Tid → WriteCall) (s : WriteState Tid) (t : Tid) (pc : WritePc) :
    (fun u => (calls u).rest (Function.update s.pc t pc u)) =
      Function.update (fun u => (calls u).rest (s.pc u)) t ((calls t).rest pc) := by
  funext u
  exact Function.apply_update (fun u => (calls u).rest) s.pc t pc u

/-- What every write relies on, once one of them has moved on. -/
theorem holds_update {calls : Tid → WriteCall} {b : LcdBuffer} {pcs : Tid → WritePc} {t : Tid}
    {pc : WritePc} (hpc : (calls t).Holds b pc)
    (hothers : ∀ u, u ≠ t → (calls u).Holds b (pcs u)) (u : Tid) :
    (calls u).Holds b (Function.update pcs t pc u) := by
  by_cases hu : u = t
  · subst hu
    rw [Function.update_self]
    exact hpc
  · rw [Function.update_of_ne hu]
    exact hothers u hu

/-- **One step** that leaves the others alone keeps the writes in turn. -/
theorem Steady.step {calls : Tid → WriteCall} {s s' : WriteState Tid} {t : Tid}
    (h : Steady calls s) (hapart : Apart s t) (hnext : writeNext calls s t = some s') :
    Steady calls s' := by
  cases writeStep_of_next (h.holds t) hnext with
  | copy hpc =>
    refine ⟨?_, ?_⟩
    · have hrest : (calls t).rest (.copied (calls t).toCopy (calls t).notCopied) =
          (calls t).rest (s.pc t) := by
        rw [hpc]
        rfl
      have hturn := h.turn
      rw [WriteState.at, rest_update, hrest, Function.update_eq_self]
      exact hturn
    · refine holds_update ?_ fun u hu => (h.holds u).of_not_loads ((hapart u hu).1 hpc)
      exact ⟨rfl, rfl, fun j hj => (calls t).loaded_copy s.lcdBuffer hj⟩
  | @send e pc hsets hrest hold =>
    refine ⟨?_, ?_⟩
    · have hothers : ∀ u, u ≠ t → (calls u).rest (s.pc u) = (calls u).plan ∨
          (calls u).rest (s.pc u) = [] :=
        fun u hu => WriteCall.rest_of_not_midway (h.holds u) ((hapart u hu).2 hsets)
      have hturn := h.turn.step hrest hothers
      rw [← rest_update] at hturn
      exact hturn
    · exact holds_update hold fun u _ => h.holds u
  | leave hrest =>
    refine ⟨?_, ?_⟩
    · have hrest' : (calls t).rest (.returned ((calls t).toCopy - (calls t).notCopied)) =
          (calls t).rest (s.pc t) := by
        rw [hrest]
        rfl
      have hturn := h.turn
      rw [WriteState.at, rest_update, hrest', Function.update_eq_self]
      exact hturn
    · exact holds_update rfl fun u _ => h.holds u

/-- So it is in every run of such steps. -/
theorem steady_inductive (calls : Tid → WriteCall) (lcdBuffer : LcdBuffer) :
    ((writeLts calls lcdBuffer).restrict Apart).Inductive (Steady calls) where
  init hs := by
    obtain rfl := hs
    exact ⟨Serial.InTurn.start, fun _ => trivial⟩
  step h hstep := h.step hstep.1 hstep.2

/-! ## A write that nobody interrupts -/

/-- The module once write `t` has set these pins. -/
def WriteState.sent (s : WriteState Tid) (t : Tid) (es : List (Assign ℕ)) (pc : WritePc) :
    WriteState Tid :=
  ⟨s.lcdBuffer, s.traffic ++ es, Function.update s.pc t pc⟩

theorem WriteState.sent_self {s : WriteState Tid} {t : Tid} {pc : WritePc} (h : s.pc t = pc) :
    s.sent t [] pc = s := by
  rw [WriteState.sent, List.append_nil, ← h, Function.update_eq_self]

theorem WriteState.send_sent (s : WriteState Tid) (t : Tid) (es : List (Assign ℕ))
    (e : Assign ℕ) (pc pc' : WritePc) :
    (s.sent t es pc).send t e pc' = s.sent t (es ++ [e]) pc' := by
  simp only [sent, send, WriteState.at, Function.update_idem, List.append_assoc]

section Alone

variable {calls : Tid → WriteCall} {b₀ : LcdBuffer} {P : WriteState Tid → Tid → Prop}
  {s : WriteState Tid} {t : Tid}

/-- It sets the pins of the byte it is at. -/
theorem reach_pins (hP : ∀ es pc, P (s.sent t es pc) t) {i toCopy notCopied : ℕ}
    (fs todo : List (Assign ℕ)) :
    ∀ {es : List (Assign ℕ)}, ((writeLts calls b₀).restrict P).Reachable
        (s.sent t es (.sending (fs ++ todo) i toCopy notCopied)) →
      ((writeLts calls b₀).restrict P).Reachable
        (s.sent t (es ++ fs) (.sending todo i toCopy notCopied)) := by
  induction fs with
  | nil =>
    intro es h
    rw [List.append_nil]
    exact h
  | cons e fs ih =>
    intro es h
    rw [List.append_cons]
    apply ih
    refine h.step ⟨hP _ _, ?_⟩
    have hpc : (s.sent t es (.sending (e :: (fs ++ todo)) i toCopy notCopied)).pc t =
        .sending (e :: (fs ++ todo)) i toCopy notCopied := Function.update_self ..
    rw [← WriteState.send_sent s t es e (.sending (e :: (fs ++ todo)) i toCopy notCopied)]
    simp only [List.cons_append, writeLts, Lts.ofNext, writeNext, hpc]

/-- It sends the bytes from `i` on and returns. -/
theorem reach_returned (hP : ∀ es pc, P (s.sent t es pc) t) {toCopy notCopied : ℕ} (n : ℕ) :
    ∀ {i : ℕ} {es : List (Assign ℕ)}, i + n = toCopy →
      ((writeLts calls b₀).restrict P).Reachable
        (s.sent t es (.sending [] i toCopy notCopied)) →
      ((writeLts calls b₀).restrict P).Reachable
        (s.sent t (es ++ (List.range' i n).flatMap fun j => lcdData (loaded s.lcdBuffer j))
          (.returned (toCopy - notCopied))) := by
  induction n with
  | zero =>
    intro i es hi h
    have hpc : (s.sent t es (.sending [] i toCopy notCopied)).pc t =
        .sending [] i toCopy notCopied := Function.update_self ..
    refine h.step ⟨hP _ _, ?_⟩
    have hlast : ¬ i < toCopy := by omega
    simp only [writeLts, Lts.ofNext, writeNext, hpc, if_neg hlast]
    simp [WriteState.sent, WriteState.at]
  | succ n ih =>
    intro i es hi h
    have hpc : (s.sent t es (.sending [] i toCopy notCopied)).pc t =
        .sending [] i toCopy notCopied := Function.update_self ..
    have hmode : ((writeLts calls b₀).restrict P).Reachable
        (s.sent t (es ++ [gpioSetValue (gpio 0) 1])
          (.sending (lcdSendByte (loaded s.lcdBuffer i) ++ []) (i + 1) toCopy notCopied)) := by
      refine h.step ⟨hP _ _, ?_⟩
      have hmore : i < toCopy := by omega
      rw [List.append_nil, ← WriteState.send_sent s t es _ (.sending [] i toCopy notCopied)]
      simp only [writeLts, Lts.ofNext, writeNext, hpc, if_pos hmore]
      rfl
    have hrest := ih (by omega) (reach_pins hP _ _ hmode)
    have htraffic : es ++ [gpioSetValue (gpio 0) 1] ++ lcdSendByte (loaded s.lcdBuffer i) =
        es ++ lcdData (loaded s.lcdBuffer i) := by
      rw [List.append_assoc]
      rfl
    rw [htraffic, List.append_assoc] at hrest
    exact hrest

/-- **A write that runs on its own** does what `driver_write` does. -/
theorem reach_driverWrite (hcopy : P s t)
    (hP : ∀ b es pc, P (({ s with lcdBuffer := b } : WriteState Tid).sent t es pc) t)
    (hpc : s.pc t = .start) (h : ((writeLts calls b₀).restrict P).Reachable s) :
    ((writeLts calls b₀).restrict P).Reachable
      ⟨(driverWrite (calls t) s.lcdBuffer).lcdBuffer,
        s.traffic ++ (driverWrite (calls t) s.lcdBuffer).traffic,
        Function.update s.pc t (.returned (driverWrite (calls t) s.lcdBuffer).code)⟩ := by
  have hcopied : ((writeLts calls b₀).restrict P).Reachable
      (({ s with lcdBuffer := (calls t).copy s.lcdBuffer } : WriteState Tid).sent t []
        (.copied (calls t).toCopy (calls t).notCopied)) := by
    refine h.step ⟨hcopy, ?_⟩
    simp only [writeLts, Lts.ofNext, writeNext, hpc]
    simp [WriteState.sent, WriteState.at]
  have hwipe : ((writeLts calls b₀).restrict P).Reachable
      (({ s with lcdBuffer := (calls t).copy s.lcdBuffer } : WriteState Tid).sent t
        [gpioSetValue (gpio 0) 0]
        (.sending (lcdSendByte 0x1 ++ []) 0 (calls t).toCopy (calls t).notCopied)) := by
    refine hcopied.step ⟨hP _ _ _, ?_⟩
    simp only [writeLts, Lts.ofNext, writeNext, WriteState.sent, Function.update_self]
    simp [WriteState.send, WriteState.at]
  have hdone := reach_returned (fun es pc => hP _ es pc) (calls t).toCopy (Nat.zero_add _)
    (reach_pins (fun es pc => hP _ es pc) _ _ hwipe)
  rw [← List.range_eq_range'] at hdone
  exact hdone

end Alone

/-! ## Two writes -/

open Monitor (Duo)

/-- What the display takes from the pins: the mode and the byte. -/
def Latched.rsByte (l : Latched) : Bool × (Fin 8 → Bool) := (l.rs, l.digits)

/-- The modes and bytes the display latches over a pin traffic. -/
def latchedBytes (v : ℕ → Bool) (es : List (Assign ℕ)) : List (Bool × (Fin 8 → Bool)) :=
  (lcdLatches v es).map Latched.rsByte

/-- The pin traffic of one write after the other. -/
def trafficInTurn (c d : WriteCall) (lcdBuffer : LcdBuffer) : List (Assign ℕ) :=
  let first := driverWrite c lcdBuffer
  first.traffic ++ (driverWrite d first.lcdBuffer).traffic

/-- Every write has returned. -/
def WriteState.Returned (s : WriteState Tid) : Prop := ∀ t, ∃ code, s.pc t = .returned code

theorem trafficInTurn_eq (c d : WriteCall) (lcdBuffer : LcdBuffer) :
    trafficInTurn c d lcdBuffer = c.plan ++ d.plan := by
  rw [trafficInTurn, driverWrite_traffic, driverWrite_traffic]

/-- The two tasks in some order. -/
theorem duo_order {order : List Duo} (hnodup : order.Nodup) (hall : ∀ t, t ∈ order) :
    order = [.one, .two] ∨ order = [.two, .one] := by
  have hperm : order.Perm [.one, .two] :=
    (List.perm_ext_iff_of_nodup hnodup (by decide)).mpr fun t => by
      refine ⟨?_, ?_⟩
      · intro _
        cases t <;> decide
      · intro _
        exact hall t
  rcases order with _ | ⟨t, _ | ⟨u, _ | ⟨w, order⟩⟩⟩
  · cases hall .one
  · have hlen := hperm.length_eq
    cases hlen
  · cases t <;> cases u
    · revert hnodup
      decide
    · exact .inl rfl
    · exact .inr rfl
    · revert hnodup
      decide
  · have hlen := hperm.length_eq
    cases hlen

/-- **In turn**: a run of steps that leave the other write alone drives the pins as the two
writes one after the other would. -/
theorem traffic_in_turn {calls : Duo → WriteCall} {lcdBuffer : LcdBuffer} {s : WriteState Duo}
    (hs : ((writeLts calls lcdBuffer).restrict Apart).Reachable s) (hret : s.Returned) :
    ∃ t u, t ≠ u ∧ s.traffic = trafficInTurn (calls t) (calls u) lcdBuffer := by
  have hturn := ((steady_inductive calls lcdBuffer).reachable hs).turn
  have hrest : ∀ t, (calls t).rest (s.pc t) = [] := by
    intro t
    obtain ⟨code, hcode⟩ := hret t
    rw [hcode]
    rfl
  obtain ⟨order, hnodup, hall, htraffic⟩ := hturn.complete hrest fun t => (calls t).plan_ne_nil
  rw [htraffic]
  rcases duo_order hnodup hall with rfl | rfl
  · exact ⟨.one, .two, by decide, by simp [trafficInTurn_eq]⟩
  · exact ⟨.two, .one, by decide, by simp [trafficInTurn_eq]⟩

/-- There is such a run, whatever the two writes are to send. -/
theorem exists_apart_returned (calls : Duo → WriteCall) (lcdBuffer : LcdBuffer) :
    ∃ s, ((writeLts calls lcdBuffer).restrict Apart).Reachable s ∧ s.Returned := by
  -- nobody can be in the way of a write while the other has not started or has returned
  have hidle : ∀ {s : WriteState Duo} {t : Duo},
      (∀ u, u ≠ t → s.pc u = .start ∨ ∃ code, s.pc u = .returned code) → Apart s t := by
    intro s t h u hu
    rcases h u hu with hpc | ⟨code, hpc⟩ <;>
      (rw [hpc]; exact ⟨fun _ => id, fun _ => id⟩)
  have hone : ((writeLts calls lcdBuffer).restrict Apart).Reachable _ :=
    reach_driverWrite (t := Duo.one) (hidle fun u _ => .inl rfl)
      (fun b es pc => hidle fun u hu => by
        cases u
        · exact absurd rfl hu
        · exact .inl rfl) rfl (.init rfl)
  have htwo : ((writeLts calls lcdBuffer).restrict Apart).Reachable _ :=
    reach_driverWrite (t := Duo.two)
      (hidle fun u hu => by
        cases u
        · exact .inr ⟨_, rfl⟩
        · exact absurd rfl hu)
      (fun b es pc => hidle fun u hu => by
        cases u
        · exact .inr ⟨_, rfl⟩
        · exact absurd rfl hu) rfl hone
  refine ⟨_, htwo, fun t => ?_⟩
  cases t
  · exact ⟨_, rfl⟩
  · exact ⟨_, rfl⟩

/-! ## Two writes that overlap -/

/-- The levels of the pins for the instruction that wipes the screen, and `Enable` raised. -/
def wipeRaised : List (Assign ℕ) := (LcdCall.instruction 0x1).pins ++ [gpioSetValue (gpio 2) 1]

/-- `Enable` lowered. -/
def lowered : List (Assign ℕ) := [gpioSetValue (gpio 2) 0]

/-- The traffic of two writes that raise `Enable` for their first instruction together. -/
def trafficOverlapped (c d : WriteCall) (lcdBuffer : LcdBuffer) : List (Assign ℕ) :=
  wipeRaised ++ wipeRaised ++ lowered ++ lowered ++
    ((List.range' 0 c.toCopy).flatMap fun j => lcdData (loaded lcdBuffer j)) ++
    (List.range' 0 d.toCopy).flatMap fun j => lcdData (loaded lcdBuffer j)

/-- A write that has copied sets its first pins, up to the raised `Enable`. -/
theorem reach_wipeRaised {calls : Tid → WriteCall} {b₀ : LcdBuffer} {s : WriteState Tid}
    {t : Tid} {toCopy notCopied : ℕ} (h : (writeLts calls b₀).Reachable s)
    (hpc : s.pc t = .copied toCopy notCopied) :
    (writeLts calls b₀).Reachable
      (s.sent t wipeRaised (.sending lowered 0 toCopy notCopied)) := by
  have hmode : ((writeLts calls b₀).restrict fun _ _ => True).Reachable
      (s.sent t [gpioSetValue (gpio 0) 0]
        (.sending ((lcdSetPins 0x1 ++ [gpioSetValue (gpio 2) 1]) ++ lowered) 0 toCopy
          notCopied)) := by
    refine h.restrict_true.step (a := t) ⟨trivial, ?_⟩
    simp only [writeLts, Lts.ofNext, writeNext, hpc]
    rfl
  exact (reach_pins (fun _ _ => trivial) _ _ hmode).of_restrict

/-- It lowers `Enable` again. -/
theorem reach_lowered {calls : Tid → WriteCall} {b₀ : LcdBuffer} {s : WriteState Tid} {t : Tid}
    {toCopy notCopied : ℕ} (h : (writeLts calls b₀).Reachable s)
    (hpc : s.pc t = .sending lowered 0 toCopy notCopied) :
    (writeLts calls b₀).Reachable (s.sent t lowered (.sending [] 0 toCopy notCopied)) := by
  rw [← WriteState.sent_self hpc] at h
  exact (reach_pins (fun _ _ => trivial) lowered [] h.restrict_true).of_restrict

/-- It sends all its bytes and returns. -/
theorem reach_sent {calls : Tid → WriteCall} {b₀ : LcdBuffer} {s : WriteState Tid} {t : Tid}
    {toCopy notCopied : ℕ} (h : (writeLts calls b₀).Reachable s)
    (hpc : s.pc t = .sending [] 0 toCopy notCopied) :
    (writeLts calls b₀).Reachable
      (s.sent t ((List.range' 0 toCopy).flatMap fun j => lcdData (loaded s.lcdBuffer j))
        (.returned (toCopy - notCopied))) := by
  rw [← WriteState.sent_self hpc] at h
  exact (reach_returned (fun _ _ => trivial) toCopy (Nat.zero_add _)
    h.restrict_true).of_restrict

/-- Two writes can overlap like that, whatever they are to send. -/
theorem reach_overlapped (calls : Duo → WriteCall) (b₀ : LcdBuffer) :
    ∃ (s : WriteState Duo) (b : LcdBuffer), (writeLts calls b₀).Reachable s ∧ s.Returned ∧
      s.traffic = trafficOverlapped (calls .one) (calls .two) b := by
  have h₁ : (writeLts calls b₀).Reachable _ :=
    Lts.Reachable.step (a := Duo.one) (.init rfl) rfl
  have h₂ : (writeLts calls b₀).Reachable _ := h₁.step (a := Duo.two) rfl
  have hraised := reach_wipeRaised (t := .two) (reach_wipeRaised (t := .one) h₂ rfl) rfl
  have hlowered := reach_lowered (t := .two) (reach_lowered (t := .one) hraised rfl) rfl
  have hsent := reach_sent (t := .two) (reach_sent (t := .one) hlowered rfl) rfl
  refine ⟨_, _, hsent, fun t => ?_, rfl⟩
  cases t
  · exact ⟨_, rfl⟩
  · exact ⟨_, rfl⟩

/-- Writes in turn have every byte latched, and both screens wiped. -/
theorem length_latchedBytes_inTurn (v : ℕ → Bool) (c d : WriteCall) (lcdBuffer : LcdBuffer) :
    (latchedBytes v (trafficInTurn c d lcdBuffer)).length = (c.toCopy + 1) + (d.toCopy + 1) := by
  have hplan : ∀ c : WriteCall, c.plan =
      (LcdCall.instruction 0x1 :: (List.range' 0 c.toCopy).map fun j =>
        LcdCall.data (c.byteAt j)).flatMap fun k => frame (gpio 2) k.pins := by
    intro c
    rw [List.flatMap_cons, List.flatMap_map]
    rfl
  rw [trafficInTurn_eq, hplan c, hplan d, ← List.flatMap_append, latchedBytes, lcdLatches,
    List.length_map, List.length_map,
    length_latches_frames fun k e he => (LcdCall.wire_ne_of_mem he).2, List.length_append,
    List.length_cons, List.length_cons, List.length_map, List.length_map, List.length_range',
    List.length_range']

/-- Writes that overlap have one latch less. -/
theorem length_latchedBytes_overlapped (v : ℕ → Bool) (c d : WriteCall) (lcdBuffer : LcdBuffer) :
    (latchedBytes v (trafficOverlapped c d lcdBuffer)).length = c.toCopy + d.toCopy + 1 := by
  have hdata : ∀ (v : ℕ → Bool) (n : ℕ), (latches (gpio 2) v
      ((List.range' 0 n).flatMap fun j => lcdData (loaded lcdBuffer j))).length = n := by
    intro v n
    have hframes : (latches (gpio 2) v ((List.range' 0 n).flatMap fun j =>
        frame (gpio 2) (LcdCall.data (loaded lcdBuffer j)).pins)).length =
          (List.range' 0 n).length :=
      length_latches_frames (fun j e he => (LcdCall.wire_ne_of_mem he).2) v _
    rw [List.length_range'] at hframes
    exact hframes
  have hwipe :
      (latches (gpio 2) v (wipeRaised ++ wipeRaised ++ lowered ++ lowered)).length = 1 := by
    have hpins : ∀ e ∈ (LcdCall.instruction 0x1).pins, e.wire ≠ gpio 2 :=
      fun e he => (LcdCall.wire_ne_of_mem he).2
    have hoverlap := length_latches_overlap hpins hpins v
    rw [frame, pulse, ← List.singleton_append (l := [_]), ← List.append_assoc] at hoverlap
    rw [← hoverlap]
    rfl
  rw [latchedBytes, lcdLatches, List.length_map, List.length_map, trafficOverlapped,
    latches_append, latches_append, List.length_append, List.length_append, hdata, hdata, hwipe]
  omega

/-- A run that is not serialised, whatever the two writes are to send. -/
theorem exists_not_serialised (calls : Duo → WriteCall) (lcdBuffer : LcdBuffer)
    (v : ℕ → Bool) :
    ∃ s, (writeLts calls lcdBuffer).Reachable s ∧ s.Returned ∧
      ∀ t u, t ≠ u → latchedBytes v s.traffic ≠
        latchedBytes v (trafficInTurn (calls t) (calls u) lcdBuffer) := by
  obtain ⟨s, b, hs, hret, htraffic⟩ := reach_overlapped calls lcdBuffer
  refine ⟨s, hs, hret, fun t u hne heq => ?_⟩
  -- the display has latched once too little
  have hlength := congrArg List.length heq
  rw [htraffic, length_latchedBytes_inTurn, length_latchedBytes_overlapped] at hlength
  cases t <;> cases u
  · exact hne rfl
  · omega
  · omega
  · exact hne rfl

/-- **Writes that leave each other alone are serialised, and nothing makes them**: a run
whose steps are all `Apart` latches the bytes of the two writes one after the other, and
whatever two writes are to send there is a run that does not. -/
theorem lcd_writes_serialised_apart (calls : Duo → WriteCall) (lcdBuffer : LcdBuffer)
    (v : ℕ → Bool) :
    ((∃ s, ((writeLts calls lcdBuffer).restrict Apart).Reachable s ∧ s.Returned) ∧
      ∀ s, ((writeLts calls lcdBuffer).restrict Apart).Reachable s → s.Returned →
        ∃ t u, t ≠ u ∧ latchedBytes v s.traffic =
          latchedBytes v (trafficInTurn (calls t) (calls u) lcdBuffer)) ∧
      ∃ s, (writeLts calls lcdBuffer).Reachable s ∧ s.Returned ∧
        ∀ t u, t ≠ u → latchedBytes v s.traffic ≠
          latchedBytes v (trafficInTurn (calls t) (calls u) lcdBuffer) := by
  refine ⟨⟨exists_apart_returned calls lcdBuffer, ?_⟩, exists_not_serialised calls lcdBuffer v⟩
  intro s hs hret
  obtain ⟨t, u, hne, htraffic⟩ := traffic_in_turn hs hret
  exact ⟨t, u, hne, by rw [htraffic]⟩

/-- One write of an `A` and one of a `B`. -/
def twoLetters : Duo → WriteCall
  | .one => ⟨.ofList [0x41], 1⟩
  | .two => ⟨.ofList [0x42], 1⟩

/-- Both wipe the screen, `Enable` is raised by both and then lowered by both: the display
has latched three times, not four. -/
theorem lcd_writes_not_serialised :
    ¬ ∀ (calls : Duo → WriteCall) (lcdBuffer : LcdBuffer) (v : ℕ → Bool) (s : WriteState Duo),
        (∀ t n, (calls t).userBuffer.left n = 0) → v (gpio 2) = false → v (gpio 1) = false →
        (writeLts calls lcdBuffer).Reachable s → s.Returned →
        ∃ t u, t ≠ u ∧ latchedBytes v s.traffic =
          latchedBytes v (trafficInTurn (calls t) (calls u) lcdBuffer) := by
  intro h
  obtain ⟨s, hs, hret, hne⟩ :=
    exists_not_serialised twoLetters (Vector.replicate lcdBufferSize 0) fun _ => false
  obtain ⟨t, u, htu, heq⟩ := h twoLetters (Vector.replicate lcdBufferSize 0) (fun _ => false) s
    (fun t n => by cases t <;> rfl) rfl rfl hs hret
  exact hne t u htu heq

end LcdDriver

end KernelModules
