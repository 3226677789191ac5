import KernelModules.Keylogger

/-!
# The bounds of `logbuf`

Events of different keyboards may run at the same time, and the timer may expire at any
moment. An event tests `logpos` and stores afterwards, so events that are past the test
together all go by the same `logpos`.

* `Race`, `raceNext` — any number of keyboards and the timer, one step at a time, with the
  indices used into `logbuf`;
* `Room` — an event passes its test only while the log has room for every event that is
  past the test: then every index is inside the array (`safe_inductive`);
* `overrun` — a test passed without room can be followed to an index outside;
* `indices_in_range_iff` — with one keyboard there is always room, with two there is not.
-/

namespace KernelModules

namespace Keylogger

/-- The log and those that are using it. -/
structure Race (Kbd : Type*) where
  /-- `logbuf` and `logpos` -/
  log : Log
  /-- the keyboards whose event is between its test and its store, with its character -/
  past : List (Kbd × UInt8)
  /-- where `exfiltrate` is -/
  timer : TimerPc
  /-- what has been printed -/
  printed : List (List UInt8)
  /-- the indices stored to -/
  used : List ℕ

/-- The next step. -/
inductive RaceAct (Kbd : Type*) where
  /-- an event of a keyboard, up to its test -/
  | test (kbd : Kbd) (type code : ℕ) (value : ℤ)
  /-- its store -/
  | store (kbd : Kbd)
  /-- the timer expires, up to the test of `logpos` -/
  | expire
  /-- `exfiltrate` stores the terminator and prints -/
  | terminate
  /-- it resets `logpos` and arms the timer -/
  | reset

variable {Kbd : Type*} [DecidableEq Kbd]

/-- One step. The input core serialises the events of one keyboard. -/
def raceNext (s : Race Kbd) : RaceAct Kbd → Option (Race Kbd)
  | .test kbd type code value =>
    if kbd ∈ s.past.map Prod.fst then none
    else match eventTest type code value s.log with
      | some c => some { s with past := s.past ++ [(kbd, c)] }
      | none => some s
  | .store kbd =>
    match s.past.find? fun e => e.1 = kbd with
    | some e => some { s with
        log := s.log.store e.2
        past := s.past.eraseP fun e => e.1 = kbd
        used := s.used ++ [s.log.logpos] }
    | none => none
  | .expire =>
    if s.timer = .idle then
      if s.log.logpos > 0 then some { s with timer := .passed } else some s
    else none
  | .terminate =>
    if s.timer = .passed then some { s with
      log := s.log.terminate
      timer := .stored
      printed := s.printed ++ [s.log.terminate.text]
      used := s.used ++ [s.log.logpos] }
    else none
  | .reset => if s.timer = .stored then some { s with log := s.log.reset, timer := .idle } else none

/-- The module is loaded and nobody is typing. -/
def Race.start : Race Kbd := ⟨Log.static, [], .idle, [], []⟩

/-- The keyboards and the timer. -/
def raceLts (Kbd : Type*) [DecidableEq Kbd] : Lts (Race Kbd) (RaceAct Kbd) :=
  Lts.ofNext Race.start raceNext

/-- Every index used is inside `logbuf`. -/
def Race.InRange (s : Race Kbd) : Prop := ∀ i ∈ s.used, i < logSize

/-- How far `logpos` may go before the next reset: the last slot is for the terminator,
unless that has been stored already. -/
def Race.limit (s : Race Kbd) : ℕ := if s.timer = .stored then logSize else logSize - 1

/-- An event passes its test only if there is room for it behind the ones past the test. -/
def Room (s : Race Kbd) : RaceAct Kbd → Prop
  | .test _ type code value => eventTest type code value s.log ≠ none →
      s.log.logpos + s.past.length < s.limit
  | _ => True

/-! ## What a step can do -/

/-- The steps of `raceNext`. -/
inductive RaceStep (s : Race Kbd) : RaceAct Kbd → Race Kbd → Prop where
  /-- an event passes its test -/
  | pass {kbd : Kbd} {type code : ℕ} {value : ℤ} {c : UInt8} :
      kbd ∉ s.past.map Prod.fst → eventTest type code value s.log = some c →
      RaceStep s (.test kbd type code value) { s with past := s.past ++ [(kbd, c)] }
  /-- an event does not -/
  | stop {kbd : Kbd} {type code : ℕ} {value : ℤ} : eventTest type code value s.log = none →
      RaceStep s (.test kbd type code value) s
  /-- an event past its test stores -/
  | store {kbd : Kbd} {e : Kbd × UInt8} : s.past.find? (fun x => x.1 = kbd) = some e →
      RaceStep s (.store kbd) { s with
        log := s.log.store e.2
        past := s.past.eraseP fun x => x.1 = kbd
        used := s.used ++ [s.log.logpos] }
  /-- the timer expires, and there is something to print -/
  | expire : s.timer = .idle → s.log.logpos > 0 → RaceStep s .expire { s with timer := .passed }
  /-- there is nothing to print -/
  | skip : s.timer = .idle → RaceStep s .expire s
  /-- the terminator and the print -/
  | terminate : s.timer = .passed → RaceStep s .terminate { s with
      log := s.log.terminate
      timer := .stored
      printed := s.printed ++ [s.log.terminate.text]
      used := s.used ++ [s.log.logpos] }
  /-- `logpos = 0` -/
  | reset : s.timer = .stored → RaceStep s .reset { s with log := s.log.reset, timer := .idle }

theorem raceStep_of_next {s s' : Race Kbd} {a : RaceAct Kbd} (h : raceNext s a = some s') :
    RaceStep s a s' := by
  cases a with
  | test kbd type code value =>
    rw [raceNext] at h
    split at h
    · cases h
    · next hidle =>
      split at h <;> obtain rfl := Option.some.inj h
      · next htest => exact .pass hidle htest
      · next htest => exact .stop htest
  | store kbd =>
    rw [raceNext] at h
    split at h
    · next hfind =>
      obtain rfl := Option.some.inj h
      exact .store hfind
    · cases h
  | expire =>
    obtain ⟨hidle, h⟩ := Option.ite_none_right_eq_some.mp h
    by_cases hpos : s.log.logpos > 0
    · rw [if_pos hpos] at h
      obtain rfl := Option.some.inj h
      exact .expire hidle hpos
    · rw [if_neg hpos] at h
      obtain rfl := Option.some.inj h
      exact .skip hidle
  | terminate =>
    obtain ⟨hpassed, h⟩ := Option.ite_none_right_eq_some.mp h
    obtain rfl := Option.some.inj h
    exact .terminate hpassed
  | reset =>
    obtain ⟨hstored, h⟩ := Option.ite_none_right_eq_some.mp h
    obtain rfl := Option.some.inj h
    exact .reset hstored

/-! ## With room, every index is inside -/

/-- There is room for all the events past the test, and no index used so far is outside. -/
structure Safe (s : Race Kbd) : Prop where
  /-- every index used is inside `logbuf` -/
  inRange : s.InRange
  /-- there is room for the events past the test -/
  fits : s.log.logpos + s.past.length ≤ s.limit
  /-- there is something to print when the timer prints -/
  pos : s.timer ≠ .idle → 0 < s.log.logpos

omit [DecidableEq Kbd] in
theorem Race.InRange.concat {s : Race Kbd} (h : s.InRange) {i : ℕ} (hi : i < logSize) :
    ∀ j ∈ s.used ++ [i], j < logSize :=
  forall_mem_concat.mpr ⟨h, hi⟩

/-- A store takes one event from those past the test. -/
theorem length_eraseP {past : List (Kbd × UInt8)} {kbd : Kbd} {e : Kbd × UInt8}
    (h : past.find? (fun e => e.1 = kbd) = some e) :
    (past.eraseP fun e => e.1 = kbd).length + 1 = past.length := by
  have hmem : e ∈ past := List.mem_of_find?_eq_some h
  have hlen := List.length_pos_of_mem hmem
  rw [List.length_eraseP_of_mem hmem (List.find?_some h)]
  omega

/-- **With room**, every step keeps the indices inside. -/
theorem Safe.step {s s' : Race Kbd} {a : RaceAct Kbd} (h : Safe s) (hroom : Room s a)
    (hs : RaceStep s a s') : Safe s' := by
  have hfits := h.fits
  cases hs with
  | pass _ htest =>
    have hlt := hroom (by rw [htest]; exact Option.some_ne_none _)
    refine ⟨h.inRange, ?_, h.pos⟩
    rw [List.length_append, List.length_singleton]
    exact hlt
  | stop _ | skip _ => exact h
  | @store kbd e hfind =>
    have hlen := length_eraseP hfind
    have hlimit : s.limit ≤ logSize := by
      rw [Race.limit]
      split <;> decide
    refine ⟨h.inRange.concat (by omega), ?_, fun _ => Nat.succ_pos _⟩
    change s.log.logpos + 1 + (s.past.eraseP fun e => e.1 = kbd).length ≤ s.limit
    omega
  | expire hidle hpos =>
    have hlimit : s.limit = logSize - 1 := by rw [Race.limit, hidle]; rfl
    rw [hlimit] at hfits
    exact ⟨h.inRange, hfits, fun _ => hpos⟩
  | terminate hpassed =>
    have hlimit : s.limit = logSize - 1 := by rw [Race.limit, hpassed]; rfl
    rw [hlimit] at hfits
    have hpos := h.pos (by rw [hpassed]; exact TimerPc.noConfusion)
    refine ⟨h.inRange.concat ?_, ?_, fun _ => hpos⟩
    · simp only [logSize] at hfits ⊢
      omega
    · change s.log.logpos + s.past.length ≤ logSize
      omega
  | reset hstored =>
    have hlimit : s.limit = logSize := by rw [Race.limit, hstored]; rfl
    rw [hlimit] at hfits
    have hpos := h.pos (by rw [hstored]; exact TimerPc.noConfusion)
    refine ⟨h.inRange, ?_, fun hne => absurd rfl hne⟩
    change 0 + s.past.length ≤ logSize - 1
    omega

/-- So it is in every run of such steps. -/
theorem safe_inductive : ((raceLts Kbd).restrict Room).Inductive Safe where
  init hs := by
    obtain rfl := hs
    exact ⟨fun i hi => absurd hi List.not_mem_nil, Nat.zero_le _, fun hne => absurd rfl hne⟩
  step h hstep := h.step hstep.1 (raceStep_of_next hstep.2)

/-! ## Without room, some index is outside -/

/-- There are events past the test and no room for all of them. -/
def Overfull (s : Race Kbd) : Prop := s.past ≠ [] ∧ s.limit < s.log.logpos + s.past.length

/-- The next event past the test stores. -/
theorem raceNext_store {s : Race Kbd} {e : Kbd × UInt8} {past : List (Kbd × UInt8)}
    (h : s.past = e :: past) :
    raceNext s (.store e.1) = some { s with
      log := s.log.store e.2
      past := past
      used := s.used ++ [s.log.logpos] } := by
  have hfind : (e :: past).find? (fun x => x.1 = e.1) = some e :=
    List.find?_cons_of_pos (decide_eq_true rfl)
  have herase : (e :: past).eraseP (fun x => x.1 = e.1) = past :=
    List.eraseP_cons_of_pos (decide_eq_true rfl)
  rw [raceNext, h, hfind, herase]

/-- `exfiltrate` stores its terminator. -/
theorem raceNext_terminate {s : Race Kbd} (h : s.timer = .passed) :
    raceNext s .terminate = some { s with
      log := s.log.terminate
      timer := .stored
      printed := s.printed ++ [s.log.terminate.text]
      used := s.used ++ [s.log.logpos] } := if_pos h

/-- The timer uses the slot behind the characters, unless it has done so already. -/
theorem run_terminate {s₀ s : Race Kbd} {as : List (RaceAct Kbd)}
    (hr : (raceLts Kbd).Run s₀ as s) (hpos : s.log.logpos > 0) (htimer : s.timer ≠ .stored) :
    ∃ bs t, (raceLts Kbd).Run s₀ bs t ∧ s.log.logpos ∈ t.used := by
  have hused : s.log.logpos ∈ s.used ++ [s.log.logpos] :=
    List.mem_append_right _ (List.mem_singleton_self _)
  cases htimerpc : s.timer with
  | idle =>
    have hexpire : raceNext s .expire = some { s with timer := .passed } := by
      rw [raceNext, if_pos htimerpc, if_pos hpos]
    exact ⟨_, _, (hr.snoc hexpire).snoc (raceNext_terminate rfl), hused⟩
  | passed => exact ⟨_, _, hr.snoc (raceNext_terminate htimerpc), hused⟩
  | stored => exact absurd htimerpc htimer

/-- **Without room**: once the events past the test have all stored, an index is outside, or
the next one the timer uses is. -/
theorem overrun {s₀ : Race Kbd} (n : ℕ) :
    ∀ {s : Race Kbd} {as : List (RaceAct Kbd)}, (raceLts Kbd).Run s₀ as s → s.past.length = n →
      Overfull s → ∃ bs t, (raceLts Kbd).Run s₀ bs t ∧ ¬ t.InRange := by
  induction n with
  | zero =>
    intro s as _ hlen hover
    exact absurd (List.length_eq_zero_iff.mp hlen) hover.1
  | succ n ih =>
    intro s as hr hlen hover
    obtain ⟨e, past, hpast⟩ := List.exists_cons_of_ne_nil hover.1
    have hover' := hover.2
    rw [hpast, List.length_cons] at hlen hover'
    have hstore := hr.snoc (raceNext_store hpast)
    by_cases hlast : past = []
    · by_cases hstored : s.timer = .stored
      · -- this store is already outside
        rw [Race.limit, if_pos hstored, hlast, List.length_nil] at hover'
        refine ⟨_, _, hstore, fun hrange => ?_⟩
        have hlt := hrange s.log.logpos (List.mem_append_right _ (List.mem_singleton_self _))
        omega
      · -- the timer's will be
        rw [Race.limit, if_neg hstored, hlast, List.length_nil] at hover'
        obtain ⟨bs, t, hrun, hused⟩ := run_terminate hstore (Nat.succ_pos _) hstored
        refine ⟨bs, t, hrun, fun hrange => ?_⟩
        have hlt : s.log.logpos + 1 < logSize := hrange _ hused
        omega
    · refine ih hstore (Nat.succ_inj.mp hlen) ⟨hlast, ?_⟩
      change s.limit < s.log.logpos + 1 + past.length
      omega

/-- A test passed without room. -/
theorem overfull_of_test {s s' : Race Kbd} {kbd : Kbd} {type code : ℕ} {value : ℤ}
    (hs : RaceStep s (.test kbd type code value) s')
    (hroom : ¬ Room s (.test kbd type code value)) : Overfull s' := by
  rw [Room, Classical.not_imp] at hroom
  obtain ⟨hpassed, hfull⟩ := hroom
  cases hs with
  | pass _ _ =>
    refine ⟨List.append_ne_nil_of_right_ne_nil _ (List.cons_ne_nil _ _), ?_⟩
    rw [List.length_append, List.length_singleton]
    exact Nat.lt_succ_of_le (Nat.le_of_not_lt hfull)
  | stop htest => exact absurd htest hpassed

/-! ## One keyboard and two -/

/-- A press of `KEY_A`. -/
def press (kbd : Kbd) : RaceAct Kbd := .test kbd evKey keyA 1

/-- One keyboard alone fills the log up to the slot it leaves free. -/
theorem reach_filled (kbd : Kbd) (n : ℕ) (hn : n < logSize) :
    ∃ s : Race Kbd, (raceLts Kbd).Reachable s ∧ s.log.logpos = n ∧ s.past = [] ∧
      s.timer = .idle := by
  induction n with
  | zero => exact ⟨Race.start, .init rfl, rfl, rfl, rfl⟩
  | succ n ih =>
    obtain ⟨s, hs, hpos, hpast, htimer⟩ := ih (by omega)
    have htest : raceNext s (press kbd) = some { s with past := [(kbd, keyToChar keyA)] } := by
      have hroom : s.log.logpos < logSize - 1 := by omega
      simp [press, raceNext, hpast, eventTest, hroom]
    have hstore := (hs.step htest).step (raceNext_store rfl)
    exact ⟨_, hstore, congrArg (· + 1) hpos, rfl, htimer⟩

/-- Two keyboards pass the test at the last slot but one. -/
theorem reach_overfull {k₁ k₂ : Kbd} (hne : k₁ ≠ k₂) :
    ∃ s : Race Kbd, (raceLts Kbd).Reachable s ∧ Overfull s := by
  obtain ⟨s, hs, hpos, hpast, htimer⟩ := reach_filled k₁ 254 (by decide)
  have hroom : s.log.logpos < logSize - 1 := by rw [hpos]; decide
  have hone : raceNext s (press k₁) = some { s with past := [(k₁, keyToChar keyA)] } := by
    simp [press, raceNext, hpast, eventTest, hroom]
  have htwo : raceNext { s with past := [(k₁, keyToChar keyA)] } (press k₂) =
      some { s with past := [(k₁, keyToChar keyA), (k₂, keyToChar keyA)] } := by
    simp [press, raceNext, eventTest, hroom, hne.symm]
  refine ⟨_, (hs.step hone).step htwo, List.cons_ne_nil _ _, ?_⟩
  change (if s.timer = .stored then logSize else logSize - 1) < s.log.logpos + 2
  rw [htimer, hpos]
  decide

/-- One keyboard finds the log as long as it was when its event passed the test. -/
theorem room_of_subsingleton [Subsingleton Kbd] {s s' : Race Kbd} {a : RaceAct Kbd}
    (hs : RaceStep s a s') : Room s a := by
  cases hs with
  | @pass kbd _ _ _ _ hidle htest =>
    intro hpassed
    have hlt := logpos_lt_of_eventTest hpassed
    have hpast : s.past = [] := by
      rcases hp : s.past with _ | ⟨e, past⟩
      · rfl
      · rw [hp, Subsingleton.elim kbd e.1] at hidle
        exact absurd (List.mem_cons_self ..) hidle
    rw [hpast, Race.limit]
    split
    · exact Nat.lt_of_lt_of_le hlt (Nat.sub_le ..)
    · exact hlt
  | stop htest => exact fun hpassed => absurd htest hpassed
  | store _ | expire _ _ | skip _ | terminate _ | reset _ => trivial

/-- **The indices into `logbuf`** are all inside in every run in which an event passes its
test only with room for it; a test passed without room can be followed to an index outside;
and there is room in all runs exactly when there is one keyboard at most. -/
theorem indices_in_range_iff (Kbd : Type*) [DecidableEq Kbd] :
    (∀ s, ((raceLts Kbd).restrict Room).Reachable s → s.InRange) ∧
      (∀ s s' a, (raceLts Kbd).step s a s' → ¬ Room s a →
        ∃ as t, (raceLts Kbd).Run s' as t ∧ ¬ t.InRange) ∧
      ((∀ s, (raceLts Kbd).Reachable s → s.InRange) ↔ Subsingleton Kbd) := by
  have hsafe : ∀ s, ((raceLts Kbd).restrict Room).Reachable s → s.InRange :=
    fun s hs => (safe_inductive.reachable hs).inRange
  refine ⟨hsafe, ?_, ?_, ?_⟩
  · intro s s' a hstep hroom
    cases a with
    | test kbd type code value =>
      exact overrun _ .nil rfl (overfull_of_test (raceStep_of_next hstep) hroom)
    | store | expire | terminate | reset => exact absurd trivial hroom
  · intro h
    by_contra hmany
    rw [not_subsingleton_iff_nontrivial] at hmany
    obtain ⟨k₁, k₂, hne⟩ := hmany.exists_pair_ne
    obtain ⟨s, hs, hover⟩ := reach_overfull hne
    obtain ⟨bs, t, hrun, hout⟩ := overrun _ .nil rfl hover
    exact hout (h t (hrun.reachable_of hs))
  · intro hone s hs
    have hsafe' : (raceLts Kbd).Inductive Safe :=
      ⟨fun hi => safe_inductive.init hi, fun h hstep =>
        h.step (room_of_subsingleton (raceStep_of_next hstep)) (raceStep_of_next hstep)⟩
    exact (hsafe'.reachable hs).inRange

/-- Two keyboards pass the test with one slot left, both store, and the timer stores its
terminator behind the array. -/
theorem index_outside : ∃ s : Race Bool, (raceLts Bool).Reachable s ∧ logSize ∈ s.used := by
  obtain ⟨s, hs, hpos, hpast, htimer⟩ := reach_filled false 254 (by decide)
  have hroom : s.log.logpos < logSize - 1 := by rw [hpos]; decide
  have hone : raceNext s (press false) = some { s with past := [(false, keyToChar keyA)] } := by
    simp [press, raceNext, hpast, eventTest, hroom]
  have htwo : raceNext { s with past := [(false, keyToChar keyA)] } (press true) =
      some { s with past := [(false, keyToChar keyA), (true, keyToChar keyA)] } := by
    simp [press, raceNext, eventTest, hroom]
  obtain ⟨s', hs', hpos', htimer'⟩ : ∃ s' : Race Bool, (raceLts Bool).Reachable s' ∧
      s'.log.logpos = logSize ∧ s'.timer = .idle :=
    ⟨_, (((hs.step hone).step htwo).step (raceNext_store rfl)).step (raceNext_store rfl),
      congrArg (· + 2) hpos, htimer⟩
  have hpos₀ : s'.log.logpos > 0 := by rw [hpos']; decide
  have hidle : s'.timer ≠ .stored := by rw [htimer']; exact TimerPc.noConfusion
  obtain ⟨bs, t, hrun, hused⟩ := run_terminate .nil hpos₀ hidle
  rw [hpos'] at hused
  exact ⟨t, hrun.reachable_of hs', hused⟩

end Keylogger

end KernelModules
