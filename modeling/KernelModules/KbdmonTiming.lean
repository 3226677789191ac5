import KernelModules.KbdmonSequence
import KernelModules.Lines
import KernelModules.Transition
import Mathlib.Algebra.BigOperators.Group.List.Basic
import Mathlib.Logic.Function.Basic
import Mathlib.Tactic.Linarith

/-!
# `kbdmon_timing.c`

The callback takes the time, prints how long ago the last press was, and stores the time for the
next one. All keyboards share `last_press`, without a lock, so a press on one keyboard can come in
between the statements of another's.

* `next` — the callbacks, statement by statement;
* `Overtaken`, `printed_delta` — **a line says how long before the press the last stored one was**,
  and it is negative only if another press has been timed later and stored before;
* `Span`, `span_of_log` — with one press after the other **the lines add up**: the time from the
  first press to the last is known from the text up to a microsecond for each line.
-/

namespace KernelModules

namespace KbdmonTiming

open Lines
open KbdmonSequence (evKey)

/-! ## The callback -/

/-- Where a keyboard is in `kbdmon_event`. -/
inductive Pc where
  /-- not in it -/
  | idle
  /-- `ktime_get` has returned `now`; at the test of `last_press` -/
  | test (code : ℕ) (now : Int64)
  /-- at `ktime_sub` -/
  | sub (code : ℕ) (now : Int64)
  /-- at `last_press = now` -/
  | store (now : Int64)
  deriving DecidableEq

/-- What has happened. -/
inductive Entry (Kbd : Type*) where
  /-- `ktime_get` for a press on a keyboard -/
  | timed (k : Kbd) (now : Int64)
  /-- a line is printed; `delta` is in nanoseconds -/
  | printed (k : Kbd) (code : ℕ) (delta : Int64)
  /-- `last_press` is stored -/
  | stored (k : Kbd) (now : Int64)
  deriving DecidableEq

/-- The keyboards, `last_press` and the clock. -/
structure State (Kbd : Type*) where
  /-- `last_press` -/
  lastPress : Int64
  /-- the last time `ktime_get` has returned -/
  clock : Int64
  /-- where the keyboards are -/
  pc : Kbd → Pc
  /-- what has happened -/
  log : List (Entry Kbd)

/-- What happens next. -/
inductive Act (Kbd : Type*) where
  /-- an event; for a press `ktime_get` returns `now` -/
  | event (k : Kbd) (type code : ℕ) (value : ℤ) (now : Int64)
  /-- the next statement of a callback -/
  | step (k : Kbd)

section Next

variable {Kbd : Type*} [DecidableEq Kbd]

/-- One keyboard moves on. -/
def State.goto (s : State Kbd) (k : Kbd) (p : Pc) : State Kbd :=
  { s with pc := Function.update s.pc k p }

/-- One step; the clock does not go back. -/
def next (s : State Kbd) : Act Kbd → Option (State Kbd)
  | .event k type code value now =>
    if s.pc k ≠ .idle then none
    else if type ≠ evKey ∨ value ≠ 1 then some s
    else if s.clock ≤ now then
      some { s.goto k (.test code now) with clock := now, log := s.log ++ [.timed k now] }
    else none
  | .step k => match s.pc k with
    | .idle => none
    | .test code now => some (s.goto k (if s.lastPress ≠ 0 then .sub code now else .store now))
    | .sub code now => some
      { s.goto k (.store now) with log := s.log ++ [.printed k code (now - s.lastPress)] }
    | .store now => some
      { s.goto k .idle with lastPress := now, log := s.log ++ [.stored k now] }

/-- The module is loaded at the time `loaded`. -/
def start (loaded : Int64) : State Kbd := ⟨0, loaded, fun _ => .idle, []⟩

/-- The keyboards -/
def timingLts (Kbd : Type*) [DecidableEq Kbd] (loaded : Int64) : Lts (State Kbd) (Act Kbd) :=
  Lts.ofNext (start loaded) next

/-- The steps of `next` as a relation. -/
inductive Step (s : State Kbd) : Act Kbd → State Kbd → Prop where
  /-- an event that is no press -/
  | other {k : Kbd} {type code : ℕ} {value : ℤ} {now : Int64} :
      Step s (.event k type code value now) s
  /-- a press -/
  | press {k : Kbd} {type code : ℕ} {value : ℤ} {now : Int64} : s.pc k = .idle → s.clock ≤ now →
      Step s (.event k type code value now)
        { s.goto k (.test code now) with clock := now, log := s.log ++ [.timed k now] }
  /-- there has been one before -/
  | later {k : Kbd} {code : ℕ} {now : Int64} : s.pc k = .test code now → s.lastPress ≠ 0 →
      Step s (.step k) (s.goto k (.sub code now))
  /-- there has been none -/
  | first {k : Kbd} {code : ℕ} {now : Int64} : s.pc k = .test code now → s.lastPress = 0 →
      Step s (.step k) (s.goto k (.store now))
  /-- a line is printed -/
  | printed {k : Kbd} {code : ℕ} {now : Int64} : s.pc k = .sub code now →
      Step s (.step k)
        { s.goto k (.store now) with log := s.log ++ [.printed k code (now - s.lastPress)] }
  /-- the time is stored -/
  | stored {k : Kbd} {now : Int64} : s.pc k = .store now →
      Step s (.step k) { s.goto k .idle with lastPress := now, log := s.log ++ [.stored k now] }

theorem step_of_next {s s' : State Kbd} {a : Act Kbd} (h : next s a = some s') : Step s a s' := by
  cases a with
  | event k type code value now =>
    simp only [next] at h
    split at h
    · cases h
    · next hidle =>
      split at h
      · cases h
        exact .other
      · split at h
        · next hclock =>
          cases h
          exact .press (not_not.mp hidle) hclock
        · cases h
  | step k =>
    simp only [next] at h
    split at h
    · cases h
    · next code now hpc =>
      cases h
      by_cases hlast : s.lastPress = 0
      · rw [if_neg (not_not.mpr hlast)]
        exact .first hpc hlast
      · rw [if_pos hlast]
        exact .later hpc hlast
    · next code now hpc =>
      cases h
      exact .printed hpc
    · next now hpc =>
      cases h
      exact .stored hpc

theorem State.goto_pc_self (s : State Kbd) (k : Kbd) (p : Pc) : (s.goto k p).pc k = p :=
  Function.update_self ..

theorem State.goto_pc_ne (s : State Kbd) {k j : Kbd} (hjk : j ≠ k) (p : Pc) :
    (s.goto k p).pc j = s.pc j :=
  Function.update_of_ne hjk ..

/-- What holds of each keyboard once one of them has moved on. -/
theorem forall_goto {P : Kbd → Pc → Prop} {s : State Kbd} {k : Kbd} {p : Pc}
    (h : ∀ j, j ≠ k → P j (s.pc j)) (hp : P k p) : ∀ j, P j ((s.goto k p).pc j) := by
  intro j
  by_cases hjk : j = k
  · rw [hjk, State.goto_pc_self]
    exact hp
  · rw [State.goto_pc_ne s hjk]
    exact h j hjk

end Next

/-! ## Times -/

/-- No difference of two times overflows. -/
theorem toInt_sub {a b : Int64} (ha : 0 ≤ a) (hb : 0 ≤ b) :
    (a - b).toInt = a.toInt - b.toInt := by
  have ha' := Int64.le_iff_toInt_le.mp ha
  have hb' := Int64.le_iff_toInt_le.mp hb
  have halt := Int64.toInt_lt a
  have hblt := Int64.toInt_lt b
  rw [Int64.toInt_zero] at ha' hb'
  rw [Int64.toInt_sub]
  exact Int.bmod_eq_of_le (by norm_num; omega) (by norm_num; omega)

/-- What `div64_s64` makes of a number of nanoseconds. -/
def microseconds (delta : Int64) : ℤ := (delta / 1000).toInt

theorem microseconds_of_nonneg {delta : Int64} (h : 0 ≤ delta.toInt) :
    microseconds delta = delta.toInt / 1000 := by
  rw [microseconds, Int64.toInt_div_of_ne_right _ _ (by decide)]
  exact Int.tdiv_eq_ediv_of_nonneg h

/-! ## Overtaking -/

section Log

variable {Kbd : Type*}

/-- The keyboard that an entry is about -/
def Entry.kbd : Entry Kbd → Kbd
  | .timed k _ | .printed k _ _ | .stored k _ => k

/-- What an entry stores -/
def Entry.time : Entry Kbd → Option Int64
  | .stored _ now => some now
  | _ => none

/-- The times that have been stored -/
def times (log : List (Entry Kbd)) : List Int64 := log.filterMap Entry.time

/-- `last_press` after the entries of a log -/
def lastTime (log : List (Entry Kbd)) : Int64 := ((times log).getLast?).getD 0

@[simp] theorem times_concat (log : List (Entry Kbd)) (e : Entry Kbd) :
    times (log ++ [e]) = times log ++ e.time.toList := by
  rw [times, List.filterMap_append]
  cases h : e.time <;> simp [times, h]

theorem mem_times {log : List (Entry Kbd)} {v : Int64} :
    v ∈ times log ↔ ∃ k, .stored k v ∈ log := by
  simp only [times, List.mem_filterMap]
  constructor
  · rintro ⟨e, he, htime⟩
    cases e with
    | stored k now =>
      cases htime
      exact ⟨k, he⟩
    | timed _ _ | printed _ _ _ => cases htime
  · rintro ⟨k, hk⟩
    exact ⟨_, hk, rfl⟩

/-- The press of a keyboard has been timed, and the keyboard has done nothing since. -/
def TimedAt (log : List (Entry Kbd)) (k : Kbd) (now : Int64) : Prop :=
  ∃ l₁ l₂, log = l₁ ++ .timed k now :: l₂ ∧ ∀ e ∈ l₂, e.kbd ≠ k

theorem TimedAt.concat {log : List (Entry Kbd)} {k : Kbd} {now : Int64} (h : TimedAt log k now)
    {e : Entry Kbd} (he : e.kbd ≠ k) : TimedAt (log ++ [e]) k now := by
  obtain ⟨l₁, l₂, rfl, hl₂⟩ := h
  exact ⟨l₁, l₂ ++ [e], by simp, forall_mem_concat.mpr ⟨hl₂, he⟩⟩

/-- Between the time of a press and its line another press has been stored that was timed later. -/
def Overtaken (l₂ : List (Entry Kbd)) (now : Int64) : Prop :=
  ∃ j v, .stored j v ∈ l₂ ∧ now < v

/-- The line `delta` for a press at the time `now`. -/
def GoodLine (pre : List (Entry Kbd)) (e : Entry Kbd) : Prop :=
  ∀ k code delta, e = .printed k code delta → ∃ l₁ l₂ now,
    pre = l₁ ++ .timed k now :: l₂ ∧ (∀ e ∈ l₂, e.kbd ≠ k) ∧
      delta.toInt = now.toInt - (lastTime pre).toInt ∧ (delta.toInt < 0 → Overtaken l₂ now)

/-- Nothing that has been stored before a press is timed is later. -/
def InOrder (pre : List (Entry Kbd)) (e : Entry Kbd) : Prop :=
  ∀ k now, e = .timed k now → ∀ v ∈ times pre, v ≤ now

theorem lastTime_mem (log : List (Entry Kbd)) : lastTime log = 0 ∨ lastTime log ∈ times log := by
  rw [lastTime]
  cases h : (times log).getLast? with
  | none => exact .inl rfl
  | some v => exact .inr (List.mem_of_getLast? h)

/-- The line of a press that has not been overtaken is not negative. -/
theorem overtaken_of_neg {l₁ l₂ : List (Entry Kbd)} {k : Kbd} {now : Int64} (hnow : 0 ≤ now)
    (horder : ∀ v ∈ times l₁, v ≤ now)
    (hneg : now.toInt - (lastTime (l₁ ++ .timed k now :: l₂)).toInt < 0) : Overtaken l₂ now := by
  have hlt : now < lastTime (l₁ ++ .timed k now :: l₂) := Int64.lt_iff_toInt_lt.mpr (by omega)
  have hmem := (lastTime_mem (l₁ ++ .timed k now :: l₂)).resolve_left fun hzero => by
    rw [hzero] at hlt
    have hlt' := Int64.lt_iff_toInt_lt.mp hlt
    have hnow' := Int64.le_iff_toInt_le.mp hnow
    omega
  obtain ⟨j, hj⟩ := mem_times.mp hmem
  obtain hj | hj := List.mem_append.mp hj
  · have hle := Int64.le_iff_toInt_le.mp (horder _ (mem_times.mpr ⟨j, hj⟩))
    omega
  · obtain hj | hj := List.mem_cons.mp hj
    · cases hj
    · exact ⟨j, _, hj, hlt⟩

end Log

variable {Kbd : Type*} [DecidableEq Kbd]

/-- What is known of a keyboard that is in the callback: its press has been timed, when there was
time already. -/
def Under (log : List (Entry Kbd)) (clock : Int64) (k : Kbd) : Pc → Prop
  | .idle => True
  | .test _ now | .sub _ now => 0 ≤ now ∧ now ≤ clock ∧ TimedAt log k now
  | .store now => 0 ≤ now ∧ now ≤ clock

/-- `last_press` and the lines are what the log says. -/
structure Told (s : State Kbd) : Prop where
  /-- the clock has not gone back -/
  clock : 0 ≤ s.clock
  /-- `last_press` -/
  last : s.lastPress = lastTime s.log
  /-- the stored times -/
  times : ∀ v ∈ times s.log, 0 ≤ v ∧ v ≤ s.clock
  /-- the keyboards -/
  under : ∀ k, Under s.log s.clock k (s.pc k)
  /-- the times of the presses -/
  order : ∀ pre e post, s.log = pre ++ e :: post → InOrder pre e
  /-- the lines -/
  lines : ∀ pre e post, s.log = pre ++ e :: post → GoodLine pre e

omit [DecidableEq Kbd] in
theorem Told.last_nonneg {s : State Kbd} (hs : Told s) : 0 ≤ s.lastPress := by
  rw [hs.last]
  obtain h | h := lastTime_mem s.log
  · rw [h]
    exact Int64.le_refl 0
  · exact (hs.times _ h).1

omit [DecidableEq Kbd] in
/-- Others do something. -/
theorem Under.concat {log : List (Entry Kbd)} {clock clock' : Int64} {k : Kbd} {p : Pc}
    (h : Under log clock k p) (hclock : clock ≤ clock') {e : Entry Kbd} (he : e.kbd ≠ k) :
    Under (log ++ [e]) clock' k p := by
  cases p with
  | idle => trivial
  | test _ _ | sub _ _ => exact ⟨h.1, Int64.le_trans h.2.1 hclock, h.2.2.concat he⟩
  | store _ => exact ⟨h.1, Int64.le_trans h.2 hclock⟩

/-- **Every step** keeps that. -/
theorem told_inductive {loaded : Int64} (hloaded : 0 ≤ loaded) :
    (timingLts Kbd loaded).Inductive Told where
  init := by
    rintro s rfl
    refine ⟨hloaded, rfl, fun v hv => ?_, fun k => trivial, ?_, ?_⟩
    · cases hv
    · intro pre e post h
      simp [start] at h
    · intro pre e post h
      simp [start] at h
  step := by
    intro s s' a hs hstep
    cases step_of_next hstep with
    | other => exact hs
    | @press k type code value now hpc hclock =>
      have hnow : 0 ≤ now := Int64.le_trans hs.clock hclock
      refine ⟨hnow, ?_, ?_, ?_, ?_, ?_⟩
      · change s.lastPress = _
        rw [hs.last, lastTime, lastTime, times_concat]
        simp [Entry.time]
      · intro v hv
        have hv' : v ∈ times s.log := by simpa [Entry.time] using hv
        exact ⟨(hs.times v hv').1, Int64.le_trans (hs.times v hv').2 hclock⟩
      · refine forall_goto (fun j hjk => ?_) ⟨hnow, Int64.le_refl now, s.log, [], rfl, nofun⟩
        exact (hs.under j).concat hclock hjk.symm
      · refine forall_split_concat.mpr ⟨hs.order, ?_⟩
        rintro k' now' heq v hv
        cases heq
        exact Int64.le_trans (hs.times v hv).2 hclock
      · exact forall_split_concat.mpr ⟨hs.lines, nofun⟩
    | @later k code now hpc hlast =>
      have hk := hs.under k
      rw [hpc] at hk
      exact ⟨hs.clock, hs.last, hs.times, forall_goto (fun j _ => hs.under j) hk, hs.order,
        hs.lines⟩
    | @first k code now hpc hlast =>
      have hk := hs.under k
      rw [hpc] at hk
      exact ⟨hs.clock, hs.last, hs.times, forall_goto (fun j _ => hs.under j) ⟨hk.1, hk.2.1⟩,
        hs.order, hs.lines⟩
    | @printed k code now hpc =>
      have hk := hs.under k
      rw [hpc] at hk
      obtain ⟨hnow, hclock, l₁, l₂, hlog, hl₂⟩ := hk
      refine ⟨hs.clock, ?_, ?_, ?_, ?_, ?_⟩
      · change s.lastPress = _
        rw [hs.last, lastTime, lastTime, times_concat]
        simp [Entry.time]
      · intro v hv
        exact hs.times v (by simpa [Entry.time] using hv)
      · refine forall_goto (fun j hjk => ?_) ⟨hnow, hclock⟩
        exact (hs.under j).concat (Int64.le_refl _) hjk.symm
      · exact forall_split_concat.mpr ⟨hs.order, nofun⟩
      · refine forall_split_concat.mpr ⟨hs.lines, ?_⟩
        rintro k' code' delta heq
        cases heq
        have hsub := toInt_sub hnow hs.last_nonneg
        refine ⟨l₁, l₂, now, hlog, hl₂, by rw [hsub, hs.last], fun hneg => ?_⟩
        rw [hsub, hs.last, hlog] at hneg
        exact overtaken_of_neg hnow (hs.order l₁ _ l₂ hlog k now rfl) hneg
    | @stored k now hpc =>
      have hk := hs.under k
      rw [hpc] at hk
      refine ⟨hs.clock, ?_, ?_, ?_, ?_, ?_⟩
      · change now = _
        rw [lastTime, times_concat]
        simp [Entry.time]
      · intro v hv
        rw [times_concat] at hv
        obtain hv | hv := List.mem_append.mp hv
        · exact hs.times v hv
        · obtain rfl : v = now := by simpa [Entry.time] using hv
          exact hk
      · refine forall_goto (fun j hjk => ?_) trivial
        exact (hs.under j).concat (Int64.le_refl _) hjk.symm
      · exact forall_split_concat.mpr ⟨hs.order, nofun⟩
      · exact forall_split_concat.mpr ⟨hs.lines, nofun⟩

/-- **What a line says**, with any number of keyboards at once: how long before the press the press
was that has been stored last; and it says so with a minus only if that one was timed later, and
has been stored after the press was timed. -/
theorem printed_delta {loaded : Int64} (hloaded : 0 ≤ loaded) {s : State Kbd}
    (hs : (timingLts Kbd loaded).Reachable s) {pre post : List (Entry Kbd)} {k : Kbd} {code : ℕ}
    {delta : Int64} (h : s.log = pre ++ .printed k code delta :: post) :
    ∃ l₁ l₂ now, pre = l₁ ++ .timed k now :: l₂ ∧ (∀ e ∈ l₂, e.kbd ≠ k) ∧
      delta.toInt = now.toInt - (lastTime pre).toInt ∧ (delta.toInt < 0 → Overtaken l₂ now) :=
  ((told_inductive hloaded).reachable hs).lines pre _ post h k code delta rfl

/-- Two keyboards: the press that is timed first is stored last. -/
def overtaking : List (Act ℕ) :=
  [.event 0 1 30 1 5000, .step 0, .step 0, .event 0 1 30 1 9000, .event 1 1 48 1 12000,
    .step 1, .step 1, .step 1, .step 0, .step 0]

/-- A run it is used in. -/
theorem printed_delta_overtaking : ∃ s : State ℕ, (timingLts ℕ 1000).Reachable s ∧
    ∃ l₁ l₂ now, [.timed 0 5000, .stored 0 5000, .timed 0 9000, .timed 1 12000,
        .printed 1 48 7000, .stored 1 12000] = l₁ ++ .timed 0 now :: l₂ ∧ Overtaken l₂ now := by
  obtain ⟨s, hrun, hlog⟩ := Lts.exists_run_of_map overtaking State.log
    (by decide +kernel : (overtaking.foldlM next (start 1000)).map State.log =
      some ([.timed 0 5000, .stored 0 5000, .timed 0 9000, .timed 1 12000,
        .printed 1 48 7000, .stored 1 12000] ++ [.printed 0 30 (-3000)]))
  obtain ⟨l₁, l₂, now, hpre, -, -, hneg⟩ :=
    printed_delta (by decide) (hrun.reachable rfl) hlog
  exact ⟨s, hrun.reachable rfl, l₁, l₂, now, hpre, hneg (by decide)⟩

/-! ## The text -/

/-- `"key=%u delta=%lld us\n"` -/
def timingFormat : List Slot := [⟨ascii "key=", 32⟩, ⟨ascii "delta=", 32⟩, ⟨ascii "us", 10⟩]

/-- A line with a number of microseconds -/
def line (l : ℕ × ℤ) : List UInt8 := print timingFormat [decimalNat l.1, decimal l.2, []]

/-- What a line says: the code, and the number of microseconds -/
def Entry.said {Kbd : Type*} : Entry Kbd → Option (ℕ × ℤ)
  | .printed _ code delta => some (code, microseconds delta)
  | _ => none

/-- What is printed -/
def Entry.text {Kbd : Type*} : Entry Kbd → List UInt8
  | .printed _ code delta =>
    print timingFormat [decimalNat code, decimal (delta / 1000).toInt, []]
  | _ => []

/-- A line, and what follows it -/
def readLine (text : List UInt8) : Option ((ℕ × ℤ) × List UInt8) :=
  match scan timingFormat text with
  | some ([code, delta, []], rest) => some ((readNat code, readDecimal delta), rest)
  | _ => none

/-- What the lines of a text say -/
def readText (text : List UInt8) : Option (List (ℕ × ℤ)) := scanAll readLine text.length text

theorem readLine_line (l : ℕ × ℤ) (rest : List UInt8) :
    readLine (line l ++ rest) = some (l, rest) := by
  have hfits : Fits timingFormat [decimalNat l.1, decimal l.2, []] := by
    refine .cons (fun h => ?_) (.cons ?_ (.cons List.not_mem_nil .nil))
    · exact absurd (mem_decimalNat h).1 (by decide : ¬ 48 ≤ (32 : UInt8).toNat)
    · exact not_mem_decimal (.inl (by decide)) (by decide)
  rw [readLine, line, scan_print hfits]
  simp [readNat_decimalNat, readDecimal_decimal]

omit [DecidableEq Kbd] in
/-- The text is read again. -/
theorem readText_text (log : List (Entry Kbd)) :
    readText (log.flatMap Entry.text) = some (log.filterMap Entry.said) := by
  have htext : ∀ e : Entry Kbd, e.text = e.said.toList.flatMap line := by
    intro e
    cases e <;> simp [Entry.text, Entry.said, line, microseconds]
  have hne : ∀ l, line l ≠ [] := by
    intro l
    rw [line, timingFormat, print]
    exact List.append_ne_nil_of_left_ne_nil (by decide) _
  exact scanAll_filterMap htext readLine_line hne log

/-! ## One press after the other -/

/-- The times of some presses, and the microseconds of their lines: there is one line for each
press but the first, and they add up to the time from the first to the last, but for what is cut
off from each. -/
def Span (ts : List Int64) (ds : List ℤ) : Prop :=
  ts = [] ∧ ds = [] ∨ ∃ first last, ts.head? = some first ∧ ts.getLast? = some last ∧
    ds.length + 1 = ts.length ∧ (∀ d ∈ ds, 0 ≤ d) ∧
    1000 * ds.sum ≤ last.toInt - first.toInt ∧
    last.toInt - first.toInt ≤ 1000 * ds.sum + 999 * ds.length

theorem Span.single (now : Int64) : Span [now] [] :=
  .inr ⟨now, now, rfl, rfl, rfl, nofun, by simp, by simp⟩

/-- One more press, and its line. -/
theorem Span.concat {ts : List Int64} {ds : List ℤ} (h : Span ts ds) {last now : Int64}
    (hlast : ts.getLast? = some last) (hle : last.toInt ≤ now.toInt) :
    Span (ts ++ [now]) (ds ++ [(now.toInt - last.toInt) / 1000]) := by
  obtain ⟨rfl, -⟩ | ⟨first, last', hfirst, hlast', hlen, hnonneg, hlow, hhigh⟩ := h
  · cases hlast
  · obtain rfl : last = last' := Option.some.inj (hlast.symm.trans hlast')
    refine .inr ⟨first, now, ?_, ?_, ?_, ?_, ?_, ?_⟩
    · rw [List.head?_append, hfirst]
      rfl
    · simp
    · simp [hlen]
    · exact forall_mem_concat.mpr ⟨hnonneg, by omega⟩
    · rw [List.sum_append, List.sum_singleton]
      omega
    · rw [List.sum_append, List.sum_singleton, List.length_append, List.length_singleton]
      push_cast
      omega

/-- The microseconds of the lines -/
def deltas {Kbd : Type*} (log : List (Entry Kbd)) : List ℤ :=
  (log.filterMap Entry.said).map Prod.snd

omit [DecidableEq Kbd] in
@[simp] theorem deltas_concat (log : List (Entry Kbd)) (e : Entry Kbd) :
    deltas (log ++ [e]) = deltas log ++ (e.said.map Prod.snd).toList := by
  rw [deltas, List.filterMap_append, List.map_append]
  cases h : e.said <;> simp [deltas, h]

/-- No event comes while another is in the callback. -/
def Alone (s : State Kbd) (a : Act Kbd) : Prop :=
  ∀ k type code value now, a = .event k type code value now → ∀ j, s.pc j = .idle

/-- What is known of the lines while a press is under way. -/
def Adds (log : List (Entry Kbd)) : Pc → Prop
  | .idle => True
  | .test _ now => 0 < now ∧ lastTime log ≤ now ∧ Span (times log) (deltas log)
  | .sub _ now => 0 < now ∧ lastTime log ≤ now ∧ times log ≠ [] ∧ Span (times log) (deltas log)
  | .store now => 0 < now ∧ Span (times log ++ [now]) (deltas log)

/-- One press after the other, and the lines add up. -/
structure Serial (s : State Kbd) : Prop where
  /-- `last_press` and the lines are what the log says -/
  told : Told s
  /-- the clock has started -/
  clock : 0 < s.clock
  /-- no press is at the time 0 -/
  pos : ∀ v ∈ times s.log, 0 < v
  /-- at most one press is under way -/
  one : ∀ k, s.pc k ≠ .idle → ∀ j, j ≠ k → s.pc j = .idle
  /-- a press that is -/
  busy : ∀ k, Adds s.log (s.pc k)
  /-- no press is -/
  quiet : (∀ k, s.pc k = .idle) → Span (times s.log) (deltas s.log)

omit [DecidableEq Kbd] in
theorem getLast?_times {log : List (Entry Kbd)} (h : times log ≠ []) :
    (times log).getLast? = some (lastTime log) := by
  rw [lastTime, List.getLast?_eq_some_getLast h]
  rfl

omit [DecidableEq Kbd] in
/-- `last_press` is 0 as long as nothing has been stored. -/
theorem Serial.last_eq_zero_iff {s : State Kbd} (hs : Serial s) :
    s.lastPress = 0 ↔ times s.log = [] := by
  rw [hs.told.last]
  constructor
  · intro h
    by_contra hne
    have hpos := hs.pos _ (List.mem_of_getLast? (getLast?_times hne))
    rw [h] at hpos
    exact absurd hpos (by decide)
  · intro h
    rw [lastTime, h]
    rfl

omit [DecidableEq Kbd] in
theorem Serial.last_le {s : State Kbd} (hs : Serial s) : lastTime s.log ≤ s.clock := by
  obtain hzero | hmem := lastTime_mem s.log
  · rw [hzero]
    exact Int64.le_of_lt hs.clock
  · exact (hs.told.times _ hmem).2

/-- While one press is under way the others are not. -/
theorem Serial.goto {s : State Kbd} (hs : Serial s) {k : Kbd} (hk : s.pc k ≠ .idle) {p : Pc}
    {log : List (Entry Kbd)} (hp : Adds log p) : ∀ j, Adds log ((s.goto k p).pc j) :=
  forall_goto (fun j hjk => by rw [hs.one k hk j hjk]; trivial) hp

/-- Nobody else gets in. -/
theorem one_goto {s : State Kbd} {k : Kbd} (hidle : ∀ j, j ≠ k → s.pc j = .idle) (p : Pc) :
    ∀ i, (s.goto k p).pc i ≠ .idle → ∀ j, j ≠ i → (s.goto k p).pc j = .idle := by
  intro i hi j hji
  by_cases hik : i = k
  · subst hik
    rw [State.goto_pc_ne s hji]
    exact hidle j hji
  · rw [State.goto_pc_ne s hik] at hi
    exact absurd (hidle i hik) hi

/-- Somebody is under way. -/
theorem not_quiet_goto {s : State Kbd} {k : Kbd} {p : Pc} (hp : p ≠ .idle) :
    ¬ ∀ j, (s.goto k p).pc j = .idle := by
  intro h
  have hk := h k
  rw [State.goto_pc_self] at hk
  exact hp hk

/-- **Every step** keeps that. -/
theorem serial_inductive {loaded : Int64} (hloaded : 0 < loaded) :
    ((timingLts Kbd loaded).restrict Alone).Inductive Serial where
  init := by
    rintro s rfl
    exact ⟨(told_inductive (Int64.le_of_lt hloaded)).init rfl, hloaded, nofun,
      fun k hk => absurd rfl hk, fun k => trivial, fun _ => .inl ⟨rfl, rfl⟩⟩
  step := by
    rintro s s' a hs ⟨halone, hstep⟩
    have htold := (told_inductive (Int64.le_of_lt hloaded)).step hs.told hstep
    cases step_of_next hstep with
    | other => exact hs
    | @press k type code value now hpc hclock =>
      have hidle := halone k type code value now rfl
      have hnow : 0 < now := Int64.lt_of_lt_of_le hs.clock hclock
      have htimes : times (s.log ++ [.timed k now]) = times s.log := by simp [Entry.time]
      have hdeltas : deltas (s.log ++ [.timed k now]) = deltas s.log := by simp [Entry.said]
      refine ⟨htold, hnow, ?_, one_goto (fun j _ => hidle j) _, ?_,
        fun h => absurd h (not_quiet_goto nofun)⟩
      · rw [htimes]
        exact hs.pos
      · refine forall_goto (fun j _ => by rw [hidle j]; trivial) ⟨hnow, ?_, ?_⟩
        · rw [lastTime, htimes]
          exact Int64.le_trans hs.last_le hclock
        · rw [htimes, hdeltas]
          exact hs.quiet hidle
    | @later k code now hpc hlast =>
      have hbusy : s.pc k ≠ .idle := by rw [hpc]; nofun
      have hk := hs.busy k
      rw [hpc] at hk
      refine ⟨htold, hs.clock, hs.pos, one_goto (hs.one k hbusy) _, hs.goto hbusy ?_,
        fun h => absurd h (not_quiet_goto nofun)⟩
      exact ⟨hk.1, hk.2.1, fun hnil => hlast (hs.last_eq_zero_iff.mpr hnil), hk.2.2⟩
    | @first k code now hpc hlast =>
      have hbusy : s.pc k ≠ .idle := by rw [hpc]; nofun
      have hk := hs.busy k
      rw [hpc] at hk
      have hnil := hs.last_eq_zero_iff.mp hlast
      have hnone : deltas s.log = [] := by
        obtain ⟨-, h⟩ | ⟨_, _, hfirst, -⟩ := hk.2.2
        · exact h
        · rw [hnil] at hfirst
          cases hfirst
      refine ⟨htold, hs.clock, hs.pos, one_goto (hs.one k hbusy) _, hs.goto hbusy ⟨hk.1, ?_⟩,
        fun h => absurd h (not_quiet_goto nofun)⟩
      change Span (times s.log ++ [now]) (deltas s.log)
      rw [hnil, hnone]
      exact Span.single now
    | @printed k code now hpc =>
      have hbusy : s.pc k ≠ .idle := by rw [hpc]; nofun
      have hk := hs.busy k
      rw [hpc] at hk
      obtain ⟨hnow, hle, hne, hspan⟩ := hk
      have hle' := Int64.le_iff_toInt_le.mp hle
      have hsub : (now - s.lastPress).toInt = now.toInt - (lastTime s.log).toInt := by
        rw [toInt_sub (Int64.le_of_lt hnow) hs.told.last_nonneg, hs.told.last]
      have htimes : times (s.log ++ [.printed k code (now - s.lastPress)]) = times s.log := by
        simp [Entry.time]
      have hdeltas : deltas (s.log ++ [.printed k code (now - s.lastPress)]) =
          deltas s.log ++ [(now.toInt - (lastTime s.log).toInt) / 1000] := by
        rw [deltas_concat, ← hsub, ← microseconds_of_nonneg (by omega)]
        rfl
      refine ⟨htold, hs.clock, ?_, one_goto (hs.one k hbusy) _, hs.goto hbusy ⟨hnow, ?_⟩,
        fun h => absurd h (not_quiet_goto nofun)⟩
      · rw [htimes]
        exact hs.pos
      · rw [htimes, hdeltas]
        exact hspan.concat (getLast?_times hne) hle'
    | @stored k now hpc =>
      have hbusy : s.pc k ≠ .idle := by rw [hpc]; nofun
      have hk := hs.busy k
      rw [hpc] at hk
      have htimes : times (s.log ++ [.stored k now]) = times s.log ++ [now] := by
        simp [Entry.time]
      have hdeltas : deltas (s.log ++ [.stored k now]) = deltas s.log := by simp [Entry.said]
      refine ⟨htold, hs.clock, ?_, one_goto (hs.one k hbusy) _, hs.goto hbusy trivial,
        fun _ => ?_⟩
      · rw [htimes]
        exact forall_mem_concat.mpr ⟨hs.pos, hk.1⟩
      · rw [htimes, hdeltas]
        exact hk.2

/-- **The lines add up**: with one press after the other, the text that has been printed says how
long it has been from the first press to the last. It has one line for each press but the first,
and they add up to the time between the two but for less than a microsecond each. -/
theorem span_of_log {loaded : Int64} (hloaded : 0 < loaded) {s : State Kbd}
    (hs : ((timingLts Kbd loaded).restrict Alone).Reachable s) (hquiet : ∀ k, s.pc k = .idle) :
    ∃ lines, readText (s.log.flatMap Entry.text) = some lines ∧
      Span (times s.log) (lines.map Prod.snd) :=
  ⟨_, readText_text s.log, ((serial_inductive hloaded).reachable hs).quiet hquiet⟩

/-- With one keyboard no event comes while another is in the callback. -/
theorem alone_of_subsingleton [Subsingleton Kbd] {s s' : State Kbd} {a : Act Kbd}
    (h : next s a = some s') : Alone s a := by
  rintro k type code value now rfl j
  rw [Subsingleton.elim j k]
  by_contra hbusy
  rw [next, if_pos hbusy] at h
  cases h

/-- One keyboard, and three presses. -/
def presses : List (Act Unit) :=
  [.event () 1 30 1 1500, .step (), .step (), .event () 1 48 1 4000, .step (), .step (), .step (),
    .event () 1 46 1 9999, .step (), .step (), .step ()]

/-- A run it is used in: 2 and 5 microseconds make 7, and it has been 8.499. -/
theorem span_of_log_presses : ∃ s : State Unit,
    s.log.flatMap Entry.text = ascii "key=48 delta=2 us\nkey=46 delta=5 us\n" ∧
    times s.log = [1500, 4000, 9999] ∧
    ∃ lines, readText (s.log.flatMap Entry.text) = some lines ∧
      Span (times s.log) (lines.map Prod.snd) := by
  obtain ⟨s, hrun, hs⟩ := Lts.exists_run_of_map presses (fun s : State Unit => (s.log, s.pc ()))
    (by decide +kernel : (presses.foldlM next (start 1000)).map (fun s => (s.log, s.pc ())) =
      some ([.timed () 1500, .stored () 1500, .timed () 4000, .printed () 48 2500,
        .stored () 4000, .timed () 9999, .printed () 46 5999, .stored () 9999], .idle))
  obtain ⟨hlog, hpc⟩ := Prod.mk.inj hs
  have halone := (hrun.to_restrict (Q := fun _ => True) fun _ _ => trivial).restrict_of rfl
    fun _ hstep _ => alone_of_subsingleton hstep
  refine ⟨s, by rw [hlog]; decide +kernel, by rw [hlog]; rfl, ?_⟩
  have hloaded : (0 : Int64) < 1000 := by decide
  exact span_of_log hloaded (halone.reachable rfl) fun _ => hpc

end KbdmonTiming

end KernelModules
