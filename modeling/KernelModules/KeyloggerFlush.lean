import KernelModules.Keylogger

/-!
# What becomes of a key press

One keyboard, whose presses are whole here, and the timer. A press joins the log; the timer
prints the log, and then forgets it.

* `Flush`, `flushNext` — the log, what has been printed and what has been pressed;
* `FlushStep` — what a step can do;
* `Paced` — at most 255 presses come between one reset and the next;
* `accounted_inductive` — every press is printed, pending, has come between the printing and
  the reset, or has found the log full;
* `flush_keeps_iff` — nothing is lost exactly when no press has come there or found the log
  full, and a paced run fills no log.
-/

namespace KernelModules

namespace Keylogger

/-- The log, the timer, and what has happened. No step reads the last five fields. -/
structure Flush where
  /-- `logbuf` and `logpos` -/
  log : Log
  /-- where `exfiltrate` is -/
  timer : TimerPc
  /-- the strings printed, one after the other -/
  printed : List UInt8
  /-- the characters of the presses, in order -/
  pressed : List UInt8
  /-- the presses since the last reset -/
  sinceReset : ℕ
  /-- the presses that have come between a printing and its reset -/
  landed : ℕ
  /-- the presses that have found the log full -/
  dropped : ℕ

/-- The next step. -/
inductive FlushAct where
  /-- `kbdmon_event` -/
  | event (type code : ℕ) (value : ℤ)
  /-- the timer expires, up to the test of `logpos` -/
  | expire
  /-- `exfiltrate` stores the terminator and prints -/
  | terminate
  /-- it resets `logpos` and arms the timer -/
  | reset

/-- The event is a key press. -/
def IsPress (type : ℕ) (value : ℤ) : Prop := type = evKey ∧ value = 1

instance (type : ℕ) (value : ℤ) : Decidable (IsPress type value) :=
  inferInstanceAs (Decidable (_ ∧ _))

/-- The history with one more press. -/
def Flush.note (s : Flush) (code : ℕ) : Flush :=
  { s with
    pressed := s.pressed ++ [keyToChar code]
    sinceReset := s.sinceReset + 1
    landed := if s.log.logpos < logSize - 1 ∧ s.timer = .stored then s.landed + 1 else s.landed
    dropped := if s.log.logpos < logSize - 1 then s.dropped else s.dropped + 1 }

/-- One step. -/
def flushNext (s : Flush) : FlushAct → Option Flush
  | .event type code value =>
    let t := if IsPress type value then s.note code else s
    some { t with log := kbdmonEvent type code value s.log }
  | .expire =>
    if s.timer = .idle then
      if s.log.logpos > 0 then some { s with timer := .passed } else some s
    else none
  | .terminate =>
    if s.timer = .passed then some { s with
      log := s.log.terminate
      timer := .stored
      printed := s.printed ++ s.log.terminate.text }
    else none
  | .reset =>
    if s.timer = .stored then some { s with
      log := s.log.reset
      timer := .idle
      sinceReset := 0 }
    else none

/-- The module is loaded and nothing has been typed. -/
def Flush.start : Flush := ⟨Log.static, .idle, [], [], 0, 0, 0⟩

/-- The keyboard and the timer. -/
def flushLts : Lts Flush FlushAct := Lts.ofNext Flush.start flushNext

/-- No more than 255 presses come between one reset and the next. -/
def Paced (s : Flush) : FlushAct → Prop
  | .event type _ value => IsPress type value → s.sinceReset < 255
  | _ => True

instance (s : Flush) (a : FlushAct) : Decidable (Paced s a) :=
  match a with
  | .event type _ value => inferInstanceAs (Decidable (IsPress type value → s.sinceReset < 255))
  | .expire | .terminate | .reset => isTrue trivial

/-! ## What a step can do -/

/-- A press finds room in a log that is not full. -/
theorem kbdmonEvent_press {type code : ℕ} {value : ℤ} {l : Log} (h : IsPress type value)
    (hroom : l.logpos < logSize - 1) :
    kbdmonEvent type code value l = l.store (keyToChar code) := by
  obtain ⟨rfl, rfl⟩ := h
  have htest : eventTest evKey code 1 l = some (keyToChar code) := by
    rw [eventTest, if_neg (by decide), if_pos hroom]
  rw [kbdmonEvent, htest]

/-- It is dropped by a log that is. -/
theorem kbdmonEvent_full {type code : ℕ} {value : ℤ} {l : Log} (hfull : ¬ l.logpos < logSize - 1) :
    kbdmonEvent type code value l = l := by
  have htest : eventTest type code value l = none := by
    rw [eventTest, if_neg hfull, ite_self]
  rw [kbdmonEvent, htest]

/-- Any other event leaves the log alone. -/
theorem kbdmonEvent_other {type code : ℕ} {value : ℤ} {l : Log} (h : ¬ IsPress type value) :
    kbdmonEvent type code value l = l := by
  have htest : eventTest type code value l = none := if_pos (Decidable.not_and_iff_or_not.mp h)
  rw [kbdmonEvent, htest]

/-- The steps of `flushNext`. -/
inductive FlushStep (s : Flush) : FlushAct → Flush → Prop where
  /-- a press is stored -/
  | press {type code : ℕ} {value : ℤ} : IsPress type value → s.log.logpos < logSize - 1 →
      FlushStep s (.event type code value)
        { s.note code with log := s.log.store (keyToChar code) }
  /-- a press finds the log full -/
  | full {type code : ℕ} {value : ℤ} : IsPress type value → ¬ s.log.logpos < logSize - 1 →
      FlushStep s (.event type code value) (s.note code)
  /-- an event is no press -/
  | other {type code : ℕ} {value : ℤ} : ¬ IsPress type value →
      FlushStep s (.event type code value) s
  /-- the timer expires, and there is something to print -/
  | expire : s.timer = .idle → FlushStep s .expire { s with timer := .passed }
  /-- there is nothing to print -/
  | skip : s.timer = .idle → FlushStep s .expire s
  /-- the terminator and the print -/
  | terminate : s.timer = .passed → FlushStep s .terminate { s with
      log := s.log.terminate
      timer := .stored
      printed := s.printed ++ s.log.terminate.text }
  /-- `logpos = 0` -/
  | reset : s.timer = .stored → FlushStep s .reset { s with
      log := s.log.reset
      timer := .idle
      sinceReset := 0 }

theorem flushStep_of_next {s s' : Flush} {a : FlushAct} (h : flushNext s a = some s') :
    FlushStep s a s' := by
  cases a with
  | event type code value =>
    obtain rfl := Option.some.inj h
    by_cases hpress : IsPress type value
    · by_cases hroom : s.log.logpos < logSize - 1
      · simp only [if_pos hpress, kbdmonEvent_press hpress hroom]
        exact .press hpress hroom
      · simp only [if_pos hpress, kbdmonEvent_full hroom]
        exact .full hpress hroom
    · simp only [if_neg hpress, kbdmonEvent_other hpress]
      exact .other hpress
  | expire =>
    obtain ⟨hidle, h⟩ := Option.ite_none_right_eq_some.mp h
    split at h <;> obtain rfl := Option.some.inj h
    · exact .expire hidle
    · exact .skip hidle
  | terminate =>
    obtain ⟨hpassed, h⟩ := Option.ite_none_right_eq_some.mp h
    obtain rfl := Option.some.inj h
    exact .terminate hpassed
  | reset =>
    obtain ⟨hstored, h⟩ := Option.ite_none_right_eq_some.mp h
    obtain rfl := Option.some.inj h
    exact .reset hstored

/-! ## Every press is accounted for -/

/-- What is pending and will be printed. -/
def Flush.unprinted (s : Flush) : List UInt8 := if s.timer = .stored then [] else s.log.pending

/-- Every press is printed, unprinted, or lost in one of two ways. -/
structure Accounted (s : Flush) : Prop where
  /-- the slot for the terminator is free -/
  logpos_lt : s.log.logpos < logSize
  /-- no character is zero -/
  chars : ∀ c ∈ s.log.pending, c ≠ 0
  /-- no press is counted twice or not at all -/
  length : (s.printed ++ s.unprinted).length + s.landed + s.dropped = s.pressed.length
  /-- if none is lost, they are in order -/
  order : s.landed = 0 → s.dropped = 0 → s.printed ++ s.unprinted = s.pressed

/-- **A press** joins the log, in time to be printed or not. -/
theorem Accounted.press {s : Flush} (h : Accounted s) (code : ℕ)
    (hroom : s.log.logpos < logSize - 1) :
    Accounted { s.note code with log := s.log.store (keyToChar code) } := by
  have hlength := h.length
  have hpending := s.log.pending_store (keyToChar code)
  refine ⟨?_, ?_, ?_, ?_⟩
  · change s.log.logpos + 1 < logSize
    omega
  · rw [hpending]
    exact forall_mem_concat.mpr ⟨h.chars, keyToChar_ne_zero code⟩
  · by_cases hstored : s.timer = .stored <;>
      simp [Flush.note, Flush.unprinted, hstored, hroom, hpending] at hlength ⊢ <;> omega
  · by_cases hstored : s.timer = .stored
    · intro hlanded
      simp [Flush.note, hstored, hroom] at hlanded
    · intro hlanded hdropped
      simp only [Flush.note, hstored, and_false, if_false, if_pos hroom] at hlanded hdropped
      have hkept := h.order hlanded hdropped
      simp only [Flush.unprinted, Flush.note, hstored, if_false] at hkept ⊢
      rw [hpending, ← hkept, List.append_assoc]

/-- It is dropped by a full one. -/
theorem Accounted.full {s : Flush} (h : Accounted s) (code : ℕ)
    (hfull : ¬ s.log.logpos < logSize - 1) : Accounted (s.note code) := by
  have hlength := h.length
  refine ⟨h.logpos_lt, h.chars, ?_, ?_⟩
  · simp [Flush.note, Flush.unprinted, hfull] at hlength ⊢
    omega
  · intro _ hdropped
    simp [Flush.note, hfull] at hdropped

/-- **Every step** keeps the presses accounted for. -/
theorem Accounted.step {s s' : Flush} {a : FlushAct} (h : Accounted s)
    (hs : FlushStep s a s') : Accounted s' := by
  have hlength := h.length
  have horder := h.order
  cases hs with
  | press _ hroom => exact h.press _ hroom
  | full _ hfull => exact h.full _ hfull
  | other _ | skip _ => exact h
  | expire hidle =>
    have hunprinted : s.unprinted = s.log.pending := by rw [Flush.unprinted, hidle]; rfl
    rw [hunprinted] at hlength horder
    exact ⟨h.logpos_lt, h.chars, hlength, horder⟩
  | terminate hpassed =>
    have htext := Log.text_terminate h.logpos_lt h.chars
    have hunprinted : s.unprinted = s.log.pending := by rw [Flush.unprinted, hpassed]; rfl
    rw [hunprinted, ← htext] at hlength horder
    refine ⟨h.logpos_lt, ?_, ?_, ?_⟩
    · rw [Log.pending_terminate]
      exact h.chars
    · change (s.printed ++ s.log.terminate.text ++ []).length + s.landed + s.dropped =
        s.pressed.length
      rw [List.append_nil]
      exact hlength
    · exact fun hlanded hdropped => (List.append_nil _).trans (horder hlanded hdropped)
  | reset hstored =>
    have hunprinted : s.unprinted = [] := if_pos hstored
    rw [hunprinted] at hlength horder
    exact ⟨(by decide : 0 < logSize), fun c hc => absurd hc List.not_mem_nil, hlength, horder⟩

theorem accounted_inductive : flushLts.Inductive Accounted where
  init hs := by
    obtain rfl := hs
    exact ⟨by decide, fun c hc => absurd hc List.not_mem_nil, rfl, fun _ _ => rfl⟩
  step h hstep := h.step (flushStep_of_next hstep)

/-! ## Paced runs -/

/-- The log holds no more than has been pressed since the reset, and nothing is dropped. -/
structure Roomy (s : Flush) : Prop where
  /-- the log holds no more than has been pressed since the reset -/
  logpos_le : s.log.logpos ≤ s.sinceReset
  /-- no press has found it full -/
  dropped : s.dropped = 0

theorem roomy_inductive : (flushLts.restrict Paced).Inductive Roomy where
  init hs := by
    obtain rfl := hs
    exact ⟨Nat.le_refl 0, rfl⟩
  step {s s' a} h hstep := by
    obtain ⟨hpaced, hnext⟩ := hstep
    cases flushStep_of_next hnext with
    | press _ hroom => exact ⟨Nat.succ_le_succ h.logpos_le, (if_pos hroom).trans h.dropped⟩
    | full hpress hfull => exact absurd (Nat.lt_of_le_of_lt h.logpos_le (hpaced hpress)) hfull
    | other _ | skip _ => exact h
    | expire _ | terminate _ => exact ⟨h.logpos_le, h.dropped⟩
    | reset _ => exact ⟨Nat.le_refl 0, h.dropped⟩

/-- **Nothing is lost at a flush** exactly when no press has come between a printing and its
reset, and none has found the log full, which no press does if there are no more than 255
from one reset to the next. -/
theorem flush_keeps_iff {s : Flush} (hs : flushLts.Reachable s) (hrest : s.timer ≠ .stored) :
    (s.printed ++ s.log.pending = s.pressed ↔ s.landed = 0 ∧ s.dropped = 0) ∧
      ((flushLts.restrict Paced).Reachable s → s.dropped = 0) := by
  have h := accounted_inductive.reachable hs
  have hunprinted : s.unprinted = s.log.pending := if_neg hrest
  refine ⟨⟨?_, ?_⟩, fun hpaced => (roomy_inductive.reachable hpaced).dropped⟩
  · intro hkept
    have hlength := h.length
    rw [hunprinted, hkept] at hlength
    omega
  · rintro ⟨hlanded, hdropped⟩
    rw [← hunprinted]
    exact h.order hlanded hdropped

/-- A press, an expiry, and a press behind it. -/
def pressAfterReset : List FlushAct :=
  [.event evKey keyA 1, .expire, .terminate, .reset, .event evKey (keyA + 1) 1]

/-- An `a` is printed and a `b` is pending. -/
theorem flush_keeps_after_reset :
    ∃ s, (flushLts.restrict Paced).Reachable s ∧ s.timer ≠ .stored ∧
      s.printed ++ s.log.pending = s.pressed ∧ s.pressed = [97, 98] := by
  have hrun : ∃ s, (flushLts.restrict Paced).Reachable s ∧
      (s.timer, s.landed, s.pressed) = (.idle, 0, [97, 98]) :=
    Lts.exists_reachable_of_map pressAfterReset
      (fun s : Flush => (s.timer, s.landed, s.pressed)) (by decide)
  obtain ⟨s, hs, hseen⟩ := hrun
  rw [Prod.mk.injEq, Prod.mk.injEq] at hseen
  obtain ⟨htimer, hlanded, hpressed⟩ := hseen
  have hrest : s.timer ≠ .stored := by rw [htimer]; exact TimerPc.noConfusion
  obtain ⟨hkeeps, hdropped⟩ := flush_keeps_iff hs.of_restrict hrest
  exact ⟨s, hs, hrest, hkeeps.mpr ⟨hlanded, hdropped hs⟩, hpressed⟩

/-- A press, an expiry, and a press between its printing and its reset. -/
def pressBeforeReset : List FlushAct :=
  [.event evKey keyA 1, .expire, .terminate, .event evKey (keyA + 1) 1, .reset]

/-- The `b` is neither printed nor pending. -/
theorem flush_loses_press :
    ∃ s, (flushLts.restrict Paced).Reachable s ∧ s.timer = .idle ∧
      s.printed ++ s.log.pending = [97] ∧ s.pressed = [97, 98] := by
  have hrun : ∃ s, (flushLts.restrict Paced).Reachable s ∧
      (s.timer, s.printed ++ s.log.pending, s.pressed) = (.idle, [97], [97, 98]) :=
    Lts.exists_reachable_of_map pressBeforeReset
      (fun s : Flush => (s.timer, s.printed ++ s.log.pending, s.pressed)) (by decide)
  obtain ⟨s, hs, hseen⟩ := hrun
  rw [Prod.mk.injEq, Prod.mk.injEq] at hseen
  exact ⟨s, hs, hseen⟩

end Keylogger

end KernelModules
