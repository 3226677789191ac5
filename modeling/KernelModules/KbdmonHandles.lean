import KernelModules.InputHandles
import Mathlib.Data.Finset.Basic

/-!
# `kbdmon_connect` and `kbdmon_disconnect`

`kbdmon.c`, `kbdmon_chrdev.c`, `kbdmon_timing.c` and `kbdmon_sequence_detector.c` share the
text of both callbacks. A connect has three calls that may fail and undoes through two
labels what has succeeded before; a disconnect finds the object around its handle and takes
it apart.

* `kbdmonConnect`, with its labels;
* `connectDeeds` — what a connect does with the object it allocates;
* `handles_faithful` — whatever devices come and go, the objects, the registrations and the
  openings are those of the connections that stand.
-/

namespace KernelModules

namespace KbdmonHandles

open Ledger InputHandles

/-- `err_free:` -/
def errFree (kbd : ℕ) (ret : ℤ) (w : Kernel) : Kernel × ℤ := (w.kfree kbd, ret)

/-- `err_unregister:`, which falls through to `err_free:` -/
def errUnregister (kbd : ℕ) (ret : ℤ) (w : Kernel) : Kernel × ℤ :=
  errFree kbd ret (w.unregisterHandle (handleOf kbd))

/-- `kbdmon_connect` -/
def kbdmonConnect (answers : Answers) (w : Kernel) : Kernel × ℤ :=
  match w.kzalloc answers.alloc with
  | (w, none) => (w, -enomem)
  | (w, some kbd) =>
    let w := w.useObject kbd
    let (w, ret) := w.registerHandle (handleOf kbd) answers.register
    if ret ≠ 0 then errFree kbd ret w
    else
      let (w, ret) := w.openDevice (handleOf kbd) answers.opening
      if ret ≠ 0 then errUnregister kbd ret w
      else (w, 0)

/-- The handlers that are made of this text. -/
inductive Handler where
  /-- `kbdmon.c` -/
  | kbdmon
  /-- `kbdmon_chrdev.c` -/
  | kbdmonChrdev
  /-- `kbdmon_timing.c` -/
  | kbdmonTiming
  /-- `kbdmon_sequence_detector.c` -/
  | kbdmonSequenceDetector

/-- The `.connect` of a handler. -/
def Handler.connect : Handler → Answers → Kernel → Kernel × ℤ
  | .kbdmon | .kbdmonChrdev | .kbdmonTiming | .kbdmonSequenceDetector => kbdmonConnect

/-- Its `.disconnect`. -/
def Handler.disconnect : Handler → Handle → Kernel → Kernel
  | .kbdmon | .kbdmonChrdev | .kbdmonTiming | .kbdmonSequenceDetector => kbdmonDisconnect

/-! ## Devices that come and go -/

/-- The kernel and the connections that stand: those for which `kbdmon_connect` has returned
0 and that have not been disconnected. -/
structure State where
  /-- the objects and what has been done with them -/
  kernel : Kernel
  /-- the connections that stand, by the object each was given -/
  connected : Finset ℕ

/-- A call of the input core. -/
inductive Act where
  /-- a device appears -/
  | connect (answers : Answers)
  /-- a device that is connected goes away -/
  | disconnect (h : Handle)

/-- One call. -/
def next (m : Handler) (s : State) : Act → Option State
  | .connect answers =>
    let (kernel, ret) := m.connect answers s.kernel
    some ⟨kernel, if ret = 0 then insert s.kernel.fresh s.connected else s.connected⟩
  | .disconnect h =>
    if containerOf h ∈ s.connected then
      some ⟨m.disconnect h s.kernel, s.connected.erase (containerOf h)⟩
    else none

/-- The handler is registered and no device is there. -/
def start : State := ⟨Kernel.start, ∅⟩

/-- The calls of the input core. -/
def handlesLts (m : Handler) : Lts State Act := Lts.ofNext start (next m)

/-! ## One connect -/

/-- What a connect does with the object it allocates. -/
def connectDeeds (answers : Answers) : List (Deed Part) :=
  if answers.register ≠ 0 then [.acquire .object, .use .object, .release .object]
  else if answers.opening ≠ 0 then
    [.acquire .object, .use .object, .acquire .registration, .release .registration,
      .release .object]
  else [.acquire .object, .use .object, .acquire .registration, .acquire .opening]

/-- What it returns. -/
def connectCode (answers : Answers) : ℤ :=
  if answers.alloc then
    if answers.register ≠ 0 then answers.register
    else answers.opening
  else -enomem

/-- **One connect**: the deeds with the new object, and the return value. -/
theorem kbdmonConnect_eq (answers : Answers) (w : Kernel) :
    kbdmonConnect answers w =
      (if answers.alloc then (w.append w.fresh (connectDeeds answers)).bump else w,
        connectCode answers) := by
  by_cases halloc : answers.alloc = true
  · by_cases hregister : answers.register = 0
    · by_cases hopening : answers.opening = 0
      · simp [kbdmonConnect, Kernel.kzalloc, Kernel.useObject, Kernel.registerHandle,
          Kernel.openDevice, handleOf, connectDeeds, connectCode, halloc, hregister, hopening]
      · simp [kbdmonConnect, Kernel.kzalloc, Kernel.useObject, Kernel.registerHandle,
          Kernel.openDevice, errUnregister, errFree, Kernel.unregisterHandle, Kernel.kfree,
          handleOf, connectDeeds, connectCode, halloc, hregister, hopening]
    · simp [kbdmonConnect, Kernel.kzalloc, Kernel.useObject, Kernel.registerHandle, errFree,
        Kernel.kfree, connectDeeds, connectCode, halloc, hregister]
  · simp [kbdmonConnect, Kernel.kzalloc, connectCode, halloc]

/-- A connect returns 0 exactly when all three calls succeed. -/
theorem connectCode_eq_zero {answers : Answers} :
    connectCode answers = 0 ↔
      answers.alloc = true ∧ answers.register = 0 ∧ answers.opening = 0 := by
  have hnomem : -enomem ≠ 0 := by decide
  rw [connectCode]
  by_cases halloc : answers.alloc = true <;> by_cases hregister : answers.register = 0 <;>
    simp [halloc, hregister, hnomem]

/-- A connect that succeeds leaves a connection that stands. -/
theorem connectDeeds_of_zero {answers : Answers} (h : connectCode answers = 0) :
    connectDeeds answers = standing := by
  obtain ⟨-, hregister, hopening⟩ := connectCode_eq_zero.mp h
  simp [connectDeeds, hregister, hopening, standing]

/-- A connect that fails after its allocation takes down what it has built. -/
theorem gone_refused {answers : Answers} (halloc : answers.alloc = true)
    (h : connectCode answers ≠ 0) : Gone (connectDeeds answers) := by
  by_cases hregister : answers.register = 0
  · have hopening : answers.opening ≠ 0 :=
      fun hopening => h (connectCode_eq_zero.mpr ⟨halloc, hregister, hopening⟩)
    rw [connectDeeds, if_neg (fun hne => hne hregister), if_pos hopening]
    exact ⟨by decide, fun p => by cases p <;> decide, by decide, by decide⟩
  · rw [connectDeeds, if_pos hregister]
    exact ⟨by decide, fun p => by cases p <;> decide, by decide, by decide⟩

/-- The four modules connect alike. -/
theorem Handler.connect_eq (m : Handler) : m.connect = kbdmonConnect := by
  cases m <;> rfl

/-- So they succeed alike. -/
theorem Handler.connect_eq_zero (m : Handler) (answers : Answers) (w : Kernel) :
    (m.connect answers w).2 = 0 ↔
      answers.alloc = true ∧ answers.register = 0 ∧ answers.opening = 0 := by
  rw [m.connect_eq, kbdmonConnect_eq]
  exact connectCode_eq_zero

/-! ## Runs -/

/-- The objects of the connections that stand are complete, and all others are gone. -/
structure Faithful (s : State) : Prop where
  /-- what has not been allocated has not been touched -/
  untouched : ∀ k, s.kernel.fresh ≤ k → s.kernel.ledger k = []
  /-- the connections that stand -/
  stands : ∀ k ∈ s.connected, s.kernel.ledger k = standing
  /-- the others -/
  gone : ∀ k < s.kernel.fresh, k ∉ s.connected → Gone (s.kernel.ledger k)

theorem Faithful.lt_fresh {s : State} (h : Faithful s) {k : ℕ} (hk : k ∈ s.connected) :
    k < s.kernel.fresh := by
  by_contra hge
  have hledger := h.stands k hk
  rw [h.untouched k (Nat.le_of_not_lt hge)] at hledger
  cases hledger

/-- **A connect** adds a connection that stands or leaves nothing behind. -/
theorem Faithful.connect {s : State} (h : Faithful s) (answers : Answers) :
    Faithful ⟨(kbdmonConnect answers s.kernel).1,
      if (kbdmonConnect answers s.kernel).2 = 0 then insert s.kernel.fresh s.connected
      else s.connected⟩ := by
  rw [kbdmonConnect_eq]
  by_cases halloc : answers.alloc = true
  · have hnew : ((s.kernel.append s.kernel.fresh (connectDeeds answers)).bump).ledger
        s.kernel.fresh = connectDeeds answers := by
      have hledger := s.kernel.append_ledger_self s.kernel.fresh (connectDeeds answers)
      rw [h.untouched _ (Nat.le_refl _)] at hledger
      exact hledger
    have hold : ∀ k, k ≠ s.kernel.fresh →
        ((s.kernel.append s.kernel.fresh (connectDeeds answers)).bump).ledger k =
          s.kernel.ledger k := fun k hk => s.kernel.append_ledger_of_ne hk _
    have hfresh : s.kernel.fresh ∉ s.connected :=
      fun hmem => Nat.lt_irrefl _ (h.lt_fresh hmem)
    simp only [if_pos halloc]
    refine ⟨?_, ?_, ?_⟩
    · intro k hk
      have hk' : s.kernel.fresh + 1 ≤ k := hk
      rw [hold k (by omega)]
      exact h.untouched k (by omega)
    · intro k hk
      by_cases hk' : k = s.kernel.fresh
      · subst hk'
        by_cases hzero : connectCode answers = 0
        · exact hnew.trans (connectDeeds_of_zero hzero)
        · simp only [if_neg hzero] at hk
          exact absurd hk hfresh
      · rw [hold k hk']
        refine h.stands k ?_
        split at hk
        · exact Finset.mem_of_mem_insert_of_ne hk hk'
        · exact hk
    · intro k hk hconn
      by_cases hk' : k = s.kernel.fresh
      · subst hk'
        have hzero : connectCode answers ≠ 0 := by
          intro hzero
          simp only [if_pos hzero] at hconn
          exact hconn (Finset.mem_insert_self ..)
        rw [hnew]
        exact gone_refused halloc hzero
      · have hlt : k < s.kernel.fresh + 1 := hk
        rw [hold k hk']
        refine h.gone k (by omega) fun hmem => hconn ?_
        split
        · exact Finset.mem_insert_of_mem hmem
        · exact hmem
  · have hzero : connectCode answers ≠ 0 := fun hzero => halloc (connectCode_eq_zero.mp hzero).1
    simp only [if_neg halloc, if_neg hzero]
    exact h

/-- **A disconnect** takes down one connection that stands. -/
theorem Faithful.disconnect {s : State} (h : Faithful s) {hd : Handle}
    (hmem : containerOf hd ∈ s.connected) :
    Faithful ⟨kbdmonDisconnect hd s.kernel, s.connected.erase (containerOf hd)⟩ := by
  rw [kbdmonDisconnect_eq]
  have hold : ∀ k, k ≠ hd.kbd →
      (s.kernel.append hd.kbd disconnectDeeds).ledger k = s.kernel.ledger k :=
    fun k hk => s.kernel.append_ledger_of_ne hk _
  refine ⟨?_, ?_, ?_⟩
  · intro k hk
    have hlt : hd.kbd < s.kernel.fresh := h.lt_fresh hmem
    have hk' : s.kernel.fresh ≤ k := hk
    rw [hold k (by omega)]
    exact h.untouched k hk'
  · intro k hk
    obtain ⟨hne, hk⟩ := Finset.mem_erase.mp hk
    rw [hold k hne]
    exact h.stands k hk
  · intro k hk hconn
    by_cases hk' : k = hd.kbd
    · have hstands : s.kernel.ledger hd.kbd = standing := h.stands hd.kbd hmem
      rw [hk', Kernel.append_ledger_self, hstands]
      exact gone_disconnected
    · rw [hold k hk']
      exact h.gone k hk fun hk'' => hconn (Finset.mem_erase.mpr ⟨hk', hk''⟩)

theorem faithful_inductive (m : Handler) : (handlesLts m).Inductive Faithful where
  init hs := by
    obtain rfl := hs
    exact ⟨fun k _ => rfl, fun k hk => absurd hk (Finset.notMem_empty k),
      fun k hk => absurd hk (Nat.not_lt_zero k)⟩
  step {s s' a} h hstep := by
    have hnext : next m s a = some s' := hstep
    have hconnect := m.connect_eq
    have hdisconnect : m.disconnect = kbdmonDisconnect := by cases m <;> rfl
    cases a with
    | connect answers =>
      rw [next, hconnect] at hnext
      obtain rfl := Option.some.inj hnext
      exact h.connect answers
    | disconnect hd =>
      rw [next, hdisconnect] at hnext
      by_cases hmem : containerOf hd ∈ s.connected
      · rw [if_pos hmem] at hnext
        obtain rfl := Option.some.inj hnext
        exact h.disconnect hmem
      · rw [if_neg hmem] at hnext
        cases hnext

/-- What every object has been through. -/
theorem Faithful.cases {s : State} (h : Faithful s) (k : ℕ) :
    k ∈ s.connected ∧ s.kernel.ledger k = standing ∨
      k ∉ s.connected ∧ (s.kernel.ledger k = [] ∧ s.kernel.fresh ≤ k ∨
        Gone (s.kernel.ledger k) ∧ k < s.kernel.fresh) := by
  by_cases hk : k ∈ s.connected
  · exact .inl ⟨hk, h.stands k hk⟩
  · refine .inr ⟨hk, ?_⟩
    by_cases hlt : k < s.kernel.fresh
    · exact .inr ⟨h.gone k hlt hk, hlt⟩
    · exact .inl ⟨h.untouched k (Nat.le_of_not_lt hlt), Nat.le_of_not_lt hlt⟩

theorem Faithful.owned_iff {s : State} (h : Faithful s) (p : Part) (k : ℕ) :
    Owned (s.kernel.ledger k) p ↔ k ∈ s.connected := by
  rcases h.cases k with ⟨hk, hledger⟩ | ⟨hk, ⟨hledger, -⟩ | ⟨hgone, -⟩⟩
  · rw [hledger]
    exact ⟨fun _ => hk, fun _ => owned_standing p⟩
  · rw [hledger]
    exact ⟨fun h => absurd h (Nat.lt_irrefl 0), fun h => absurd h hk⟩
  · exact ⟨fun h => absurd h (hgone.nothing p), fun h => absurd h hk⟩

/-- **The handles are those of the connections that stand**: whatever devices come and go,
and whichever calls fail, the objects, the registered handles and the open handles are the
connections that stand; a connect succeeds exactly when none of its three calls fails; whatever is used
or released is there; an object is freed when its handle is neither open nor registered; and
every object has been freed once, unless its connection stands. -/
theorem handles_faithful (m : Handler) {s : State} (hs : (handlesLts m).Reachable s) :
    (s.kernel.live = s.connected ∧ s.kernel.registered = s.connected ∧
        s.kernel.opened = s.connected) ∧
      (∀ answers, (m.connect answers s.kernel).2 = 0 ↔
        answers.alloc = true ∧ answers.register = 0 ∧ answers.opening = 0) ∧
      ∀ k, Lawful (s.kernel.ledger k) ∧ FreedLast (s.kernel.ledger k) ∧
        (k < s.kernel.fresh →
          (s.kernel.ledger k).count (.release .object) = if k ∈ s.connected then 0 else 1) := by
  have h := (faithful_inductive m).reachable hs
  refine ⟨⟨?_, ?_, ?_⟩, fun answers => m.connect_eq_zero answers s.kernel, fun k => ?_⟩
  · ext k
    exact h.owned_iff .object k
  · ext k
    exact h.owned_iff .registration k
  · ext k
    exact h.owned_iff .opening k
  · rcases h.cases k with ⟨hk, hledger⟩ | ⟨hk, ⟨hledger, hge⟩ | ⟨hgone, -⟩⟩
    · rw [hledger, if_pos hk]
      exact ⟨by decide, by decide, fun _ => by decide⟩
    · rw [hledger]
      exact ⟨by decide, by decide, fun hlt => absurd hlt (Nat.not_lt.mpr hge)⟩
    · rw [if_neg hk]
      exact ⟨hgone.lawful, hgone.freedLast, fun _ => hgone.freed⟩

/-- Three devices come, the second cannot be opened, and the first goes: the third stands. -/
theorem handles_faithful_unplugged :
    ∃ s, (handlesLts .kbdmon).Reachable s ∧ s.kernel.fresh = 3 ∧ s.kernel.live = {2} ∧
      s.kernel.opened = {2} ∧ (s.kernel.ledger 2).count (.release .object) = 0 ∧
      (s.kernel.ledger 0).count (.release .object) = 1 := by
  have hrun : ∃ s, (handlesLts .kbdmon).Run start
      [.connect ⟨true, 0, 0⟩, .connect ⟨true, 0, -enodev⟩, .connect ⟨true, 0, 0⟩,
        .disconnect (handleOf 0)] s ∧ (s.kernel.fresh, s.connected) = (3, {2}) :=
    Lts.exists_run_of_map _ (fun s : State => (s.kernel.fresh, s.connected)) (by decide)
  obtain ⟨s, hr, hseen⟩ := hrun
  have hs := hr.reachable rfl
  obtain ⟨hfresh, hconnected⟩ := Prod.mk.inj hseen
  obtain ⟨⟨hlive, -, hopened⟩, -, hledger⟩ := handles_faithful .kbdmon hs
  rw [hconnected, Finset.coe_singleton] at hlive hopened
  rw [hconnected, hfresh] at hledger
  exact ⟨s, hs, hfresh, hlive, hopened, (hledger 2).2.2 (by decide), (hledger 0).2.2 (by decide)⟩

end KbdmonHandles

end KernelModules
