import KernelModules.Transition
import Mathlib.Data.Int.Notation

/-!
# `kbdmon_sequence_detector.c`

The hotkey detector. One structure, `seq_buf`, has a number for each of the two modifiers:
the value of the last event of that key. The handler is connected to every keyboard, so the
events of all of them go through the same two numbers.

* `kbdmonEvent` — the callback;
* `Held` — a key is down on a keyboard;
* `Masked` — it is, although the last thing any keyboard said about that key is that it was
  released;
* `reported_iff`, `held_iff` — what the detector goes by, and that what is held is that or
  masked.
-/

namespace KernelModules

namespace KbdmonSequence

/-! ## The callback -/

/-- `EV_KEY` -/
def evKey : ℕ := 1
/-- `KEY_LEFTCTRL` -/
def keyLeftctrl : ℕ := 29
/-- `KEY_K` -/
def keyK : ℕ := 37
/-- `KEY_LEFTALT` -/
def keyLeftalt : ℕ := 56

/-- `struct sequence_buffer` -/
structure SequenceBuffer where
  /-- the value of the last `KEY_LEFTCTRL` event -/
  ctrlDown : ℤ
  /-- the value of the last `KEY_LEFTALT` event -/
  altDown : ℤ
  deriving DecidableEq

/-- `seq_buf` in static storage -/
def seqBuf : SequenceBuffer := ⟨0, 0⟩

/-- The two assignments of `kbdmon_event`. -/
def SequenceBuffer.note (s : SequenceBuffer) (code : ℕ) (value : ℤ) : SequenceBuffer :=
  let s := if code = keyLeftctrl then { s with ctrlDown := value } else s
  if code = keyLeftalt then { s with altDown := value } else s

/-- `kbdmon_event`: `seq_buf` behind it and what it prints. -/
def kbdmonEvent (type code : ℕ) (value : ℤ) (s : SequenceBuffer) :
    SequenceBuffer × List String :=
  if type ≠ evKey then (s, [])
  else
    let s := s.note code value
    if s.ctrlDown ≠ 0 ∧ s.altDown ≠ 0 ∧ code = keyK ∧ value = 1 then
      (s, ["SECRET HOTKEY DETECTED"])
    else (s, [])

/-! ## Keyboards -/

/-- What a key does. -/
inductive KeyAction where
  /-- it goes down -/
  | press
  /-- it is still down -/
  | autorepeat
  /-- it comes up -/
  | release
  deriving DecidableEq

/-- The value of an event. -/
def KeyAction.value : KeyAction → ℤ
  | .press => 1
  | .autorepeat => 2
  | .release => 0

/-- An `EV_KEY` event of a keyboard. -/
structure Stroke (Kbd : Type*) where
  /-- the keyboard -/
  kbd : Kbd
  /-- the key -/
  code : ℕ
  /-- what it does -/
  action : KeyAction
  deriving DecidableEq

variable {Kbd : Type*} [DecidableEq Kbd]

/-- The last thing any keyboard has said about a key. -/
def latestOf (code : ℕ) (log : List (Stroke Kbd)) : Option (Stroke Kbd) :=
  latest (fun e => e.code = code) log

/-- The last thing one keyboard has said about a key. -/
def latestAt (kbd : Kbd) (code : ℕ) (log : List (Stroke Kbd)) : Option (Stroke Kbd) :=
  latest (fun e => e.kbd = kbd ∧ e.code = code) log

/-- The key is down on the keyboard. -/
def Held (kbd : Kbd) (code : ℕ) (log : List (Stroke Kbd)) : Prop :=
  ∃ e ∈ latestAt kbd code log, e.action ≠ .release

/-- The last thing any keyboard has said about the key is not that it was released. -/
def Down (code : ℕ) (log : List (Stroke Kbd)) : Prop :=
  ∃ e ∈ latestOf code log, e.action ≠ .release

/-- The last thing said about the key is that it was released, but on another keyboard it is
still down. -/
def Masked (code : ℕ) (log : List (Stroke Kbd)) : Prop :=
  ∃ e ∈ latestOf code log, e.action = .release ∧ ∃ kbd, kbd ≠ e.kbd ∧ Held kbd code log

instance (kbd : Kbd) (code : ℕ) (log : List (Stroke Kbd)) : Decidable (Held kbd code log) :=
  inferInstanceAs (Decidable (∃ e ∈ latestAt kbd code log, e.action ≠ .release))

/-- Each keyboard presses a key that is up, and repeats and releases one that is down. -/
def WellFormed (log : List (Stroke Kbd)) : Prop :=
  ∀ i (hi : i < log.length),
    log[i].action = .press ↔ ¬ Held log[i].kbd log[i].code (log.take i)

instance (log : List (Stroke Kbd)) : Decidable (WellFormed log) :=
  inferInstanceAs (Decidable (∀ i (hi : i < log.length),
    log[i].action = .press ↔ ¬ Held log[i].kbd log[i].code (log.take i)))

/-- The detector after a history. -/
def detector (log : List (Stroke Kbd)) : SequenceBuffer :=
  log.foldl (fun s e => (kbdmonEvent evKey e.code e.action.value s).1) seqBuf

/-- The detector reports the hotkey at the next event. -/
def Reported (log : List (Stroke Kbd)) (e : Stroke Kbd) : Prop :=
  (kbdmonEvent evKey e.code e.action.value (detector log)).2 ≠ []

/-- The event is a press of `KEY_K` while both modifiers are held, on whatever keyboards. -/
def Hotkey (log : List (Stroke Kbd)) (e : Stroke Kbd) : Prop :=
  (e.code = keyK ∧ e.action = .press) ∧ (∃ kbd, Held kbd keyLeftctrl log) ∧
    ∃ kbd, Held kbd keyLeftalt log

/-! ## What the detector goes by -/

omit [DecidableEq Kbd] in
theorem detector_concat (log : List (Stroke Kbd)) (e : Stroke Kbd) :
    detector (log ++ [e]) = (detector log).note e.code e.action.value := by
  rw [detector, List.foldl_concat, ← detector, kbdmonEvent, if_neg (fun h => h rfl)]
  dsimp only
  split <;> rfl

theorem ctrlDown_note (s : SequenceBuffer) (code : ℕ) (value : ℤ) :
    (s.note code value).ctrlDown = if code = keyLeftctrl then value else s.ctrlDown := by
  simp only [SequenceBuffer.note]
  split <;> split <;> rfl

theorem altDown_note (s : SequenceBuffer) (code : ℕ) (value : ℤ) :
    (s.note code value).altDown = if code = keyLeftalt then value else s.altDown := by
  simp only [SequenceBuffer.note]
  split
  · rfl
  · split <;> rfl

theorem KeyAction.value_ne_zero {a : KeyAction} : a.value ≠ 0 ↔ a ≠ .release := by
  cases a <;> decide

omit [DecidableEq Kbd] in
/-- A number that takes the value of every event of one key says whether that key is
down, as far as the last event of any keyboard goes. -/
theorem flag_ne_zero_iff {flag : SequenceBuffer → ℤ} {key : ℕ} (hinit : flag seqBuf = 0)
    (hnote : ∀ s code value, flag (s.note code value) = if code = key then value else flag s)
    (log : List (Stroke Kbd)) : flag (detector log) ≠ 0 ↔ Down key log := by
  induction log using List.reverseRecOn with
  | nil =>
    refine ⟨?_, ?_⟩
    · intro h
      exact absurd hinit h
    · rintro ⟨e, he, -⟩
      cases he
  | append_singleton log e ih =>
    rw [detector_concat, hnote, Down, latestOf, latest_concat]
    by_cases hkey : e.code = key
    · rw [if_pos hkey, if_pos (decide_eq_true hkey), KeyAction.value_ne_zero]
      refine ⟨?_, ?_⟩
      · intro h
        exact ⟨e, rfl, h⟩
      · rintro ⟨e', he', h⟩
        obtain rfl := Option.some.inj he'
        exact h
    · rw [if_neg hkey, if_neg (fun h => hkey (of_decide_eq_true h))]
      exact ih

omit [DecidableEq Kbd] in
/-- **What the detector goes by**: the last event of each modifier, whatever keyboard it
came from. -/
theorem reported_iff (log : List (Stroke Kbd)) (e : Stroke Kbd) :
    Reported log e ↔
      (e.code = keyK ∧ e.action = .press) ∧ Down keyLeftctrl log ∧ Down keyLeftalt log := by
  have hpress : e.action.value = 1 ↔ e.action = .press := by
    cases e.action <;> decide
  have hkeys : e.code = keyK → (detector log).note e.code e.action.value = detector log := by
    intro hcode
    rw [hcode]
    rfl
  rw [← flag_ne_zero_iff rfl ctrlDown_note, ← flag_ne_zero_iff rfl altDown_note, Reported,
    kbdmonEvent, if_neg (fun h => h rfl)]
  refine ⟨?_, ?_⟩
  · intro h
    by_cases hcond : ((detector log).note e.code e.action.value).ctrlDown ≠ 0 ∧
        ((detector log).note e.code e.action.value).altDown ≠ 0 ∧ e.code = keyK ∧
        e.action.value = 1
    · obtain ⟨hctrl, halt, hcode, hvalue⟩ := hcond
      rw [hkeys hcode] at hctrl halt
      exact ⟨⟨hcode, hpress.mp hvalue⟩, hctrl, halt⟩
    · simp only [if_neg hcond] at h
      exact absurd rfl h
  · rintro ⟨⟨hcode, haction⟩, hctrl, halt⟩
    simp only [hkeys hcode]
    rw [if_pos ⟨hctrl, halt, hcode, hpress.mpr haction⟩]
    exact List.cons_ne_nil _ _

/-! ## What is held -/

/-- A key held on some keyboard has been spoken of. -/
theorem Held.latestOf_ne_none {kbd : Kbd} {code : ℕ} {log : List (Stroke Kbd)}
    (h : Held kbd code log) : latestOf code log ≠ none := by
  obtain ⟨e, he, -⟩ := h
  intro hnone
  have hmem : e ∈ log.reverse := List.mem_of_find?_eq_some he
  have hcode := List.find?_eq_none.mp hnone e hmem
  have hat := latest_passes he
  simp only [decide_eq_true_eq] at hat hcode
  exact hcode hat.2

/-- **A held modifier** is one whose last event says so, or one that is masked. -/
theorem held_iff {code : ℕ} {log : List (Stroke Kbd)} :
    (∃ kbd, Held kbd code log) ↔ Down code log ∨ Masked code log := by
  have hat : ∀ {e : Stroke Kbd}, latestOf code log = some e →
      latestAt e.kbd code log = some e := by
    intro e he
    have hcode := latest_passes he
    refine latest_narrow ?_ he ?_
    · intro x hx
      simp only [decide_eq_true_eq] at hx ⊢
      exact hx.2
    · simp only [decide_eq_true_eq] at hcode ⊢
      exact ⟨trivial, hcode⟩
  refine ⟨?_, ?_⟩
  · rintro ⟨kbd, hheld⟩
    obtain ⟨e, he⟩ := Option.ne_none_iff_exists'.mp hheld.latestOf_ne_none
    by_cases hrelease : e.action = .release
    · refine .inr ⟨e, he, hrelease, kbd, ?_, hheld⟩
      rintro rfl
      obtain ⟨e', he', hdown⟩ := hheld
      obtain rfl := Option.some.inj ((hat he).symm.trans he')
      exact hdown hrelease
    · exact .inl ⟨e, he, hrelease⟩
  · rintro (⟨e, he, hdown⟩ | ⟨e, he, -, kbd, -, hheld⟩)
    · exact ⟨e.kbd, e, hat he, hdown⟩
    · exact ⟨kbd, hheld⟩

omit [DecidableEq Kbd] in
theorem not_down_of_released {code : ℕ} {log : List (Stroke Kbd)} {e : Stroke Kbd}
    (he : latestOf code log = some e) (hrelease : e.action = .release) : ¬ Down code log := by
  rintro ⟨e', he', hdown⟩
  obtain rfl := Option.some.inj (he.symm.trans he')
  exact hdown hrelease

theorem Masked.not_down {code : ℕ} {log : List (Stroke Kbd)} (h : Masked code log) :
    ¬ Down code log := by
  obtain ⟨e, he, hrelease, -⟩ := h
  exact not_down_of_released he hrelease

/-- **The hotkey is reported exactly when it is typed**, at every event of a history, if and
only if no modifier is masked when it is typed. -/
theorem hotkey_reported_iff (log : List (Stroke Kbd)) :
    (∀ i (hi : i < log.length), Reported (log.take i) log[i] ↔ Hotkey (log.take i) log[i]) ↔
      ∀ i (hi : i < log.length), Hotkey (log.take i) log[i] →
        ¬ Masked keyLeftctrl (log.take i) ∧ ¬ Masked keyLeftalt (log.take i) := by
  refine ⟨?_, ?_⟩
  · intro h i hi hhot
    obtain ⟨-, hctrl, halt⟩ := (reported_iff _ _).mp ((h i hi).mpr hhot)
    exact ⟨fun hmask => hmask.not_down hctrl, fun hmask => hmask.not_down halt⟩
  · intro h i hi
    rw [reported_iff]
    refine ⟨?_, ?_⟩
    · rintro ⟨hpress, hctrl, halt⟩
      exact ⟨hpress, held_iff.mpr (.inl hctrl), held_iff.mpr (.inl halt)⟩
    · intro hhot
      obtain ⟨hctrl, halt⟩ := h i hi hhot
      exact ⟨hhot.1, (held_iff.mp hhot.2.1).resolve_right hctrl,
        (held_iff.mp hhot.2.2).resolve_right halt⟩

/-- Two keyboards hold `KEY_LEFTCTRL`, the second lets go of it. -/
def secondReleases : List (Stroke Bool) :=
  [⟨false, keyLeftctrl, .press⟩, ⟨false, keyLeftctrl, .autorepeat⟩,
    ⟨true, keyLeftctrl, .press⟩, ⟨false, keyLeftalt, .press⟩, ⟨true, keyLeftctrl, .release⟩,
    ⟨false, keyK, .press⟩]

/-- The first keyboard holds both modifiers when it presses `KEY_K`, and nothing is
reported. -/
theorem hotkey_missed :
    WellFormed secondReleases ∧ Hotkey (secondReleases.take 5) ⟨false, keyK, .press⟩ ∧
      secondReleases[5]? = some ⟨false, keyK, .press⟩ ∧
      ¬ Reported (secondReleases.take 5) ⟨false, keyK, .press⟩ := by
  refine ⟨by decide, ⟨⟨rfl, rfl⟩, ⟨false, by decide⟩, false, by decide⟩, rfl, ?_⟩
  exact fun h => h rfl

end KbdmonSequence

end KernelModules
