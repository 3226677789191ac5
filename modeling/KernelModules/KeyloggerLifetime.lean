import KernelModules.InputHandles

/-!
# `kbdmon_keylogger.c`, from loading to unloading

The keylogger's connect does not look at what its three calls return, and `init_mod` arms
the timer before it registers the handler.

* `kbdmonConnect`, `init_mod` and `exit_mod` (in `next`) — the module with the timer and
  the input core;
* `Clean` — what the module owes: no use of `NULL`, no connection that is not complete, no
  object left over, and no timer without a module;
* `keylogger_clean_iff` — it keeps that exactly in the runs in which no call fails.
-/

namespace KernelModules

namespace KeyloggerLifetime

open Ledger InputHandles

/-- `kbdmon_connect`: the return value, or none if it has used a `NULL` object. -/
def kbdmonConnect (answers : Answers) (w : Kernel) : Kernel × Option ℤ :=
  match w.kzalloc answers.alloc with
  | (w, none) => (w, none)
  | (w, some kbd) =>
    let w := w.useObject kbd
    let (w, _) := w.registerHandle (handleOf kbd) answers.register
    let (w, _) := w.openDevice (handleOf kbd) answers.opening
    (w, some 0)

/-- Where `exfil_timer` is. -/
inductive Timer where
  /-- not armed -/
  | off
  /-- it will expire -/
  | armed
  /-- `exfiltrate` runs -/
  | running
  deriving DecidableEq

/-- What a connect has returned, and how its handle stood then. -/
structure Connected where
  /-- the value returned -/
  code : ℤ
  /-- the handle was registered -/
  registered : Bool
  /-- and open -/
  opened : Bool
  deriving DecidableEq

/-- The module, the timer and the handles. No step reads the last two fields. -/
structure State where
  /-- the objects and what has been done with them -/
  kernel : Kernel
  /-- `exfil_timer` -/
  timer : Timer
  /-- the module is loaded -/
  loaded : Bool
  /-- how many connects have used `NULL` -/
  oopses : ℕ
  /-- what the other connects have returned -/
  returns : List Connected

/-- What happens next. -/
inductive Act where
  /-- `init_mod`, with what `input_register_handler` returns -/
  | load (answer : ℤ)
  /-- `exit_mod` -/
  | unload
  /-- a device appears -/
  | connect (answers : Answers)
  /-- a device goes away -/
  | disconnect (h : Handle)
  /-- the timer expires -/
  | expire
  /-- `exfiltrate` ends, with `mod_timer` -/
  | rearm

/-- The objects whose handle is registered, as the input core lists them. -/
def registeredList (w : Kernel) : List ℕ :=
  (List.range w.fresh).filter fun kbd => Owned (w.ledger kbd) .registration

/-- `input_unregister_handler`: every handle of the handler is disconnected. -/
def unregisterHandler (w : Kernel) : Kernel :=
  (registeredList w).foldl (fun w kbd => kbdmonDisconnect (handleOf kbd) w) w

/-- One event. The input core connects and disconnects only while the handler is registered,
and disconnects only registered handles; `del_timer_sync` waits for `exfiltrate`. -/
def next (s : State) : Act → Option State
  | .load answer =>
    if s.loaded then none
    else some { s with timer := .armed, loaded := answer = 0 }
  | .unload =>
    if s.loaded ∧ s.timer ≠ .running then
      some { s with timer := .off, kernel := unregisterHandler s.kernel, loaded := false }
    else none
  | .connect answers =>
    if s.loaded then
      match kbdmonConnect answers s.kernel with
      | (w, none) => some { s with kernel := w, oopses := s.oopses + 1 }
      | (w, some code) => some { s with
          kernel := w
          returns := s.returns ++ [⟨code, Owned (w.ledger s.kernel.fresh) .registration,
            Owned (w.ledger s.kernel.fresh) .opening⟩] }
    else none
  | .disconnect h =>
    if s.loaded ∧ Owned (s.kernel.ledger h.kbd) .registration then
      some { s with kernel := kbdmonDisconnect h s.kernel }
    else none
  | .expire => if s.timer = .armed then some { s with timer := .running } else none
  | .rearm => if s.timer = .running then some { s with timer := .armed } else none

/-- The module has never been loaded. -/
def start : State := ⟨Kernel.start, .off, false, 0, []⟩

/-- The module's lives. -/
def keyloggerLts : Lts State Act := Lts.ofNext start next

/-! ## What the module owes -/

/-- Nothing is wrong and nothing is left over. -/
structure Clean (s : State) : Prop where
  /-- no connect has used a `NULL` object -/
  noNull : s.oopses = 0
  /-- a connect that has returned 0 had registered and opened its handle -/
  complete : ∀ c ∈ s.returns, c.code = 0 → c.registered = true ∧ c.opened = true
  /-- when no handle is registered, every object has been freed once -/
  freed : s.kernel.registered = ∅ →
    ∀ k < s.kernel.fresh, (s.kernel.ledger k).count (.release .object) = 1
  /-- when the module is not loaded, the timer is not armed -/
  disarmed : s.loaded = false → s.timer = .off

/-- No call made by the module fails. -/
def Succeeds : Act → Prop
  | .load answer => answer = 0
  | .connect answers => answers.alloc = true ∧ answers.register = 0 ∧ answers.opening = 0
  | _ => True

/-! ## One connect -/

/-- What a connect does with the object it allocates. -/
def connectDeeds (answers : Answers) : List (Deed Part) :=
  [.acquire .object, .use .object] ++
    (if answers.register = 0 then [.acquire .registration] else []) ++
    if answers.opening = 0 then [.acquire .opening] else []

/-- **One connect**: whatever fails behind the allocation, it returns 0. -/
theorem kbdmonConnect_eq (answers : Answers) (w : Kernel) :
    kbdmonConnect answers w =
      if answers.alloc then ((w.append w.fresh (connectDeeds answers)).bump, some 0)
      else (w, none) := by
  by_cases halloc : answers.alloc = true
  · by_cases hregister : answers.register = 0 <;> by_cases hopening : answers.opening = 0 <;>
      simp [kbdmonConnect, Kernel.kzalloc, Kernel.useObject, Kernel.registerHandle,
        Kernel.openDevice, handleOf, connectDeeds, halloc, hregister, hopening]
  · simp [kbdmonConnect, Kernel.kzalloc, halloc]

theorem owned_registration_connectDeeds (answers : Answers) :
    Owned (connectDeeds answers) .registration ↔ answers.register = 0 := by
  by_cases hregister : answers.register = 0 <;> by_cases hopening : answers.opening = 0 <;>
    simp [connectDeeds, Owned, hregister, hopening]

theorem owned_opening_connectDeeds (answers : Answers) :
    Owned (connectDeeds answers) .opening ↔ answers.opening = 0 := by
  by_cases hregister : answers.register = 0 <;> by_cases hopening : answers.opening = 0 <;>
    simp [connectDeeds, Owned, hregister, hopening]

/-! ## Unregistering the handler -/

/-- Disconnecting a list of handles takes each of them down. -/
theorem ledger_disconnectAll {l : List ℕ} (hl : l.Nodup) (w : Kernel) (k : ℕ) :
    (l.foldl (fun w kbd => kbdmonDisconnect (handleOf kbd) w) w).ledger k =
      if k ∈ l then w.ledger k ++ disconnectDeeds else w.ledger k := by
  induction l generalizing w with
  | nil => rfl
  | cons kbd l ih =>
    rw [List.nodup_cons] at hl
    rw [List.foldl_cons, ih hl.2, kbdmonDisconnect_eq]
    by_cases hk : k = kbd
    · subst hk
      rw [if_neg hl.1, if_pos (List.mem_cons_self ..)]
      exact w.append_ledger_self ..
    · have hledger : (w.append (handleOf kbd).kbd disconnectDeeds).ledger k = w.ledger k :=
        w.append_ledger_of_ne hk _
      rw [hledger]
      simp [hk]

theorem fresh_disconnectAll (l : List ℕ) (w : Kernel) :
    (l.foldl (fun w kbd => kbdmonDisconnect (handleOf kbd) w) w).fresh = w.fresh := by
  induction l generalizing w with
  | nil => rfl
  | cons kbd l ih =>
    rw [List.foldl_cons, ih, kbdmonDisconnect_eq, Kernel.append_fresh]

theorem mem_registeredList {w : Kernel} {k : ℕ} :
    k ∈ registeredList w ↔ k < w.fresh ∧ Owned (w.ledger k) .registration := by
  simp [registeredList]

theorem nodup_registeredList (w : Kernel) : (registeredList w).Nodup :=
  List.nodup_range.filter _

/-! ## One step -/

/-- The kernel behind a connect that has found memory. -/
def connected (w : Kernel) (answers : Answers) : Kernel :=
  (w.append w.fresh (connectDeeds answers)).bump

/-- What a step may do. -/
inductive Step (s : State) : Act → State → Prop where
  /-- the timer is armed, whatever becomes of the handler -/
  | load {answer : ℤ} : Step s (.load answer) { s with timer := .armed, loaded := answer = 0 }
  /-- the timer is deleted and the handler taken down -/
  | unload : Step s .unload
      { s with timer := .off, kernel := unregisterHandler s.kernel, loaded := false }
  /-- a connect uses `NULL` -/
  | oops {answers : Answers} : answers.alloc = false → s.loaded = true →
      Step s (.connect answers) { s with oopses := s.oopses + 1 }
  /-- a connect returns 0 -/
  | connect {answers : Answers} : answers.alloc = true → s.loaded = true →
      Step s (.connect answers) { s with
        kernel := connected s.kernel answers
        returns := s.returns ++
          [⟨0, Owned ((connected s.kernel answers).ledger s.kernel.fresh) .registration,
            Owned ((connected s.kernel answers).ledger s.kernel.fresh) .opening⟩] }
  /-- a registered handle is disconnected -/
  | disconnect {h : Handle} : Owned (s.kernel.ledger h.kbd) .registration → s.loaded = true →
      Step s (.disconnect h) { s with kernel := s.kernel.append h.kbd disconnectDeeds }
  /-- the timer goes on, if it is not off -/
  | tick {a : Act} {timer : Timer} : a = .expire ∨ a = .rearm → s.timer ≠ .off →
      Step s a { s with timer := timer }

theorem step_of_next {s s' : State} {a : Act} (h : next s a = some s') : Step s a s' := by
  cases a with
  | load answer =>
    obtain ⟨-, h⟩ := Option.ite_none_left_eq_some.mp h
    obtain rfl := Option.some.inj h
    exact .load
  | unload =>
    obtain ⟨-, h⟩ := Option.ite_none_right_eq_some.mp h
    obtain rfl := Option.some.inj h
    exact .unload
  | connect answers =>
    rw [next, kbdmonConnect_eq] at h
    obtain ⟨hloaded, h⟩ := Option.ite_none_right_eq_some.mp h
    by_cases halloc : answers.alloc = true
    · rw [if_pos halloc] at h
      obtain rfl := Option.some.inj h
      exact .connect halloc hloaded
    · rw [if_neg halloc] at h
      obtain rfl := Option.some.inj h
      exact .oops (Bool.not_eq_true _ ▸ halloc) hloaded
  | disconnect hd =>
    rw [next, kbdmonDisconnect_eq] at h
    obtain ⟨⟨hloaded, hreg⟩, h⟩ := Option.ite_none_right_eq_some.mp h
    obtain rfl := Option.some.inj h
    exact .disconnect hreg hloaded
  | expire =>
    obtain ⟨harmed, h⟩ := Option.ite_none_right_eq_some.mp h
    obtain rfl := Option.some.inj h
    exact .tick (.inl rfl) (by rw [harmed]; exact Timer.noConfusion)
  | rearm =>
    obtain ⟨hrunning, h⟩ := Option.ite_none_right_eq_some.mp h
    obtain rfl := Option.some.inj h
    exact .tick (.inr rfl) (by rw [hrunning]; exact Timer.noConfusion)

/-! ## What the kernel knows -/

/-- What has not been allocated has not been touched. -/
def Untouched (w : Kernel) : Prop := ∀ k, w.fresh ≤ k → w.ledger k = []

/-- The ledgers behind a connect that has found memory. -/
theorem ledger_connected {w : Kernel} (h : Untouched w) (answers : Answers) (k : ℕ) :
    (connected w answers).ledger k = if k = w.fresh then connectDeeds answers else w.ledger k := by
  by_cases hk : k = w.fresh
  · have hledger := w.append_ledger_self w.fresh (connectDeeds answers)
    rw [h _ (Nat.le_refl _)] at hledger
    rw [if_pos hk, hk]
    exact hledger
  · rw [if_neg hk]
    exact w.append_ledger_of_ne hk _

/-- The ledgers behind the end of the handler. -/
theorem ledger_unregisterHandler (w : Kernel) (k : ℕ) :
    (unregisterHandler w).ledger k =
      if k < w.fresh ∧ Owned (w.ledger k) .registration then w.ledger k ++ disconnectDeeds
      else w.ledger k := by
  rw [unregisterHandler, ledger_disconnectAll (nodup_registeredList w)]
  simp only [mem_registeredList]

theorem Untouched.unregisterHandler {w : Kernel} (h : Untouched w) :
    Untouched (unregisterHandler w) := by
  intro k hk
  have hk' : w.fresh ≤ k := by
    rw [← fresh_disconnectAll (registeredList w)]
    exact hk
  have hnot : ¬ (k < w.fresh ∧ Owned (w.ledger k) .registration) :=
    fun hlt => Nat.not_lt.mpr hk' hlt.1
  rw [ledger_unregisterHandler, if_neg hnot]
  exact h k hk'

/-- A handle that is registered has been allocated. -/
theorem Untouched.lt_of_owned {w : Kernel} (h : Untouched w) {k : ℕ} {p : Part}
    (hk : Owned (w.ledger k) p) : k < w.fresh := by
  by_contra hge
  rw [h k (Nat.le_of_not_lt hge)] at hk
  exact Nat.lt_irrefl 0 hk

theorem untouched_inductive : keyloggerLts.Inductive fun s => Untouched s.kernel where
  init hs := by
    obtain rfl := hs
    exact fun k _ => rfl
  step {s s' a} h hnext := by
    cases step_of_next hnext with
    | load | oops | tick => exact h
    | unload => exact h.unregisterHandler
    | @connect answers =>
      intro k hk
      have hk' : s.kernel.fresh + 1 ≤ k := hk
      have hne : k ≠ s.kernel.fresh := by omega
      refine (ledger_connected h answers k).trans ?_
      rw [if_neg hne]
      exact h k (by omega)
    | @disconnect hd hreg =>
      intro k hk
      have hne : k ≠ hd.kbd := Nat.ne_of_gt (Nat.lt_of_lt_of_le (h.lt_of_owned hreg) hk)
      exact (s.kernel.append_ledger_of_ne hne _).trans (h k hk)

/-! ## Runs in which nothing fails -/

/-- Every object is that of a complete connection or gone, and the module owes nothing. -/
structure Orderly (s : State) : Prop where
  /-- what has not been allocated has not been touched -/
  untouched : Untouched s.kernel
  /-- every object is that of a complete connection or gone -/
  objects : ∀ k < s.kernel.fresh,
    s.kernel.ledger k = standing ∨ Gone (s.kernel.ledger k)
  /-- no connect has used a `NULL` object -/
  noNull : s.oopses = 0
  /-- every connect had registered and opened its handle -/
  complete : ∀ c ∈ s.returns, c.registered = true ∧ c.opened = true
  /-- when the module is not loaded, the timer is not armed -/
  disarmed : s.loaded = false → s.timer = .off

/-- The object of a registered handle is complete. -/
theorem Orderly.standing_of_owned {s : State} (h : Orderly s) {k : ℕ}
    (hk : Owned (s.kernel.ledger k) .registration) : s.kernel.ledger k = standing :=
  (h.objects k (h.untouched.lt_of_owned hk)).resolve_right fun hgone => hgone.nothing _ hk

/-- **A step that succeeds** leaves everything in order. -/
theorem Orderly.step {s s' : State} {a : Act} (h : Orderly s) (hsucceeds : Succeeds a)
    (hnext : next s a = some s') : Orderly s' := by
  have huntouched := untouched_inductive.step h.untouched hnext
  cases step_of_next hnext with
  | @load answer =>
    refine ⟨huntouched, h.objects, h.noNull, h.complete, fun hloaded => ?_⟩
    have hzero : answer = 0 := hsucceeds
    simp only [hzero, decide_true, Bool.true_eq_false] at hloaded
  | unload =>
    refine ⟨huntouched, ?_, h.noNull, h.complete, fun _ => rfl⟩
    intro k hk
    have hk' : k < s.kernel.fresh := by
      rw [← fresh_disconnectAll (registeredList s.kernel)]
      exact hk
    right
    change Gone ((unregisterHandler s.kernel).ledger k)
    rw [ledger_unregisterHandler]
    by_cases hreg : Owned (s.kernel.ledger k) .registration
    · rw [if_pos ⟨hk', hreg⟩, h.standing_of_owned hreg]
      exact gone_disconnected
    · rw [if_neg fun hcond => hreg hcond.2]
      refine (h.objects k hk').resolve_left fun hstanding => hreg ?_
      rw [hstanding]
      exact owned_standing _
  | oops halloc => exact absurd (hsucceeds.1.symm.trans halloc) Bool.noConfusion
  | @connect answers halloc hloaded =>
    obtain ⟨-, hregister, hopening⟩ := hsucceeds
    have hdeeds : connectDeeds answers = standing := by
      simp [connectDeeds, hregister, hopening, standing]
    have hledger := ledger_connected h.untouched answers
    refine ⟨huntouched, ?_, h.noNull, ?_, fun hunloaded => ?_⟩
    · intro k hk
      change (connected s.kernel answers).ledger k = _ ∨
        Gone ((connected s.kernel answers).ledger k)
      rw [hledger]
      by_cases hk' : k = s.kernel.fresh
      · rw [if_pos hk']
        exact .inl hdeeds
      · have hlt : k < s.kernel.fresh + 1 := hk
        rw [if_neg hk']
        exact h.objects k (by omega)
    · refine forall_mem_concat.mpr ⟨h.complete, ?_⟩
      rw [hledger, if_pos rfl, hdeeds]
      exact ⟨decide_eq_true (owned_standing .registration),
        decide_eq_true (owned_standing .opening)⟩
    · exact absurd (hloaded.symm.trans hunloaded) Bool.noConfusion
  | @disconnect hd hreg hloaded =>
    refine ⟨huntouched, ?_, h.noNull, h.complete, fun hunloaded => ?_⟩
    · intro k hk
      by_cases hk' : k = hd.kbd
      · right
        change Gone ((s.kernel.append hd.kbd disconnectDeeds).ledger k)
        rw [hk', Kernel.append_ledger_self, h.standing_of_owned hreg]
        exact gone_disconnected
      · have hledger := s.kernel.append_ledger_of_ne hk' disconnectDeeds
        have hobject := h.objects k hk
        rw [← hledger] at hobject
        exact hobject
    · exact absurd (hloaded.symm.trans hunloaded) Bool.noConfusion
  | tick _ hoff =>
    exact ⟨huntouched, h.objects, h.noNull, h.complete, fun hunloaded =>
      absurd (h.disarmed hunloaded) hoff⟩

theorem orderly_inductive : (keyloggerLts.restrict fun _ a => Succeeds a).Inductive Orderly where
  init hs := by
    obtain rfl := hs
    exact ⟨fun k _ => rfl, fun k hk => absurd hk (Nat.not_lt_zero k), rfl,
      fun c hc => absurd hc List.not_mem_nil, fun _ => rfl⟩
  step h hstep := h.step hstep.1 hstep.2

theorem Orderly.clean {s : State} (h : Orderly s) : Clean s where
  noNull := h.noNull
  complete c hc _ := h.complete c hc
  freed hempty k hk := by
    rcases h.objects k hk with hstanding | hgone
    · have hreg : k ∈ s.kernel.registered := by
        change Owned (s.kernel.ledger k) .registration
        rw [hstanding]
        exact owned_standing _
      rw [hempty] at hreg
      exact absurd hreg (Set.notMem_empty k)
    · exact hgone.freed
  disarmed := h.disarmed

/-! ## Runs in which something fails -/

/-- **A step that fails** is noticed at once. -/
theorem not_clean_of_fails {s s' : State} {a : Act} (huntouched : Untouched s.kernel)
    (hnext : next s a = some s') (hfails : ¬ Succeeds a) : ¬ Clean s' := by
  intro hclean
  cases step_of_next hnext with
  | @load answer =>
    have harmed := hclean.disarmed (decide_eq_false hfails)
    cases harmed
  | oops => exact Nat.succ_ne_zero _ hclean.noNull
  | @connect answers halloc =>
    have hcomplete := hclean.complete _ (List.mem_append_right _ (List.mem_singleton_self _)) rfl
    simp only [ledger_connected huntouched, if_true, decide_eq_true_eq,
      owned_registration_connectDeeds, owned_opening_connectDeeds] at hcomplete
    exact hfails ⟨halloc, hcomplete⟩
  | unload | disconnect => exact hfails trivial
  | tick ha =>
    rcases ha with rfl | rfl
    · exact hfails trivial
    · exact hfails trivial

/-- **The keylogger leaves nothing behind**, at any moment of a run, exactly when none of the
calls it makes in the run fails. -/
theorem keylogger_clean_iff {as : List Act} {s : State} (hr : keyloggerLts.Run start as s) :
    (∀ bs cs t, as = bs ++ cs → keyloggerLts.Run start bs t → Clean t) ↔
      ∀ a ∈ as, Succeeds a := by
  refine ⟨?_, ?_⟩
  · intro hclean a ha
    by_contra hfails
    obtain ⟨bs, cs, hsplit⟩ := List.append_of_mem ha
    obtain ⟨t, t', ht, hstep⟩ := hr.exists_step hsplit
    refine not_clean_of_fails (untouched_inductive.reachable (ht.reachable rfl)) hstep hfails ?_
    exact hclean (bs ++ [a]) cs t' (by rw [hsplit, List.append_cons]) (ht.snoc hstep)
  · intro hsucceed bs cs t hsplit ht
    have hds : ∀ a ∈ bs, Succeeds a := by
      intro a ha
      refine hsucceed a ?_
      rw [hsplit]
      exact List.mem_append_left _ ha
    exact (orderly_inductive.reachable ((ht.to_restrict hds).reachable rfl)).clean

/-- The module is loaded, a device comes and goes, and the module is unloaded. -/
def quietLife : List Act :=
  [.load 0, .connect ⟨true, 0, 0⟩, .expire, .disconnect (handleOf 0), .rearm, .unload]

/-- It is clean at every moment. -/
theorem keylogger_clean_quiet :
    ∃ s, keyloggerLts.Run start quietLife s ∧
      ∀ bs cs t, quietLife = bs ++ cs → keyloggerLts.Run start bs t → Clean t := by
  have hr : keyloggerLts.Run start quietLife _ :=
    Lts.run_of_foldlM .nil (rfl : quietLife.foldlM next start = some _)
  refine ⟨_, hr, (keylogger_clean_iff hr).mpr ?_⟩
  intro a ha
  simp only [quietLife, List.mem_cons, List.not_mem_nil, or_false] at ha
  rcases ha with rfl | rfl | rfl | rfl | rfl | rfl
  · rfl
  · exact ⟨rfl, rfl, rfl⟩
  · trivial
  · trivial
  · trivial
  · trivial

/-- The handler cannot be registered: `init_mod` returns the error and leaves the timer
armed. A handle cannot be registered: `kbdmon_connect` returns 0, and the object outlives
the module. There is no memory: `kbdmon_connect` uses `NULL`. -/
theorem keylogger_not_clean :
    (∃ s, keyloggerLts.Run start [.load (-enomem)] s ∧ (s.loaded, s.timer) = (false, .armed)) ∧
      (∃ s, keyloggerLts.Run start [.load 0, .connect ⟨true, -enomem, 0⟩, .unload] s ∧
        (s.returns, s.kernel.fresh, (s.kernel.ledger 0).count (.release .object)) =
          ([⟨0, false, true⟩], 1, 0)) ∧
      ∃ s, keyloggerLts.Run start [.load 0, .connect ⟨false, 0, 0⟩] s ∧ s.oopses = 1 := by
  have hobject : ([.load 0, .connect ⟨true, -enomem, 0⟩, .unload].foldlM next start).map
      (fun s : State =>
        (s.returns, s.kernel.fresh, (s.kernel.ledger 0).count (.release .object))) =
      some ([⟨0, false, true⟩], 1, 0) := by decide
  refine ⟨?_, Lts.exists_run_of_map _ _ hobject, ?_⟩
  · exact Lts.exists_run_of_map _ (fun s : State => (s.loaded, s.timer)) (by decide)
  · exact Lts.exists_run_of_map _ (fun s : State => s.oopses) (by decide)

end KeyloggerLifetime

end KernelModules
