import KernelModules.Monitor

/-!
# Calls that may come before the object is ready

A driver publishes its object at some point of its initialisation, and from then on calls
arrive, whatever is left to be done. A `Boot` is a monitor together with the steps of its
initialisation in order: some make the lock or a queue ready, one publishes the object, and
some assign to it.

Two things are harmful: a call that touches the lock or a queue that is not ready, and an
assignment that throws away what calls have put into the object. `State.harm` records them.

* `Boot.Touches` — what a step of a call touches: the lock where it is taken, a queue where
  it is entered, left, woken or registered with;
* `Boot.Plan` — what is known of the object and of each call at each point of the
  initialisation, with one obligation for each place of a call;
* `Boot.Plan.harmless` — with a plan, runs in which no call comes before the steps it needs
  do no harm;
* `Boot.CanHarm` — a state from which some run does harm, with one lemma for each place
  where a call can do it.
-/

namespace KernelModules

universe u v w x y

/-- What a call needs to be ready. -/
inductive Resource (Q : Type v) where
  /-- the lock -/
  | lock
  /-- a wait queue -/
  | queue (q : Q)
  deriving DecidableEq

/-- A step of an initialisation. -/
inductive InitStep (σ : Type u) (Q : Type v) where
  /-- nothing that concerns the calls -/
  | other
  /-- calls are possible from here on -/
  | publish
  /-- the lock or a queue is initialised -/
  | ready (r : Resource Q)
  /-- the object is assigned to -/
  | assign (f : σ → σ)

/-- The object after a step of the initialisation. -/
def InitStep.run {σ : Type u} {Q : Type v} : InitStep σ Q → σ → σ
  | .assign f, d => f d
  | _, d => d

/-- What can go wrong. -/
inductive Harm (Q : Type v) where
  /-- a call has touched what was not ready -/
  | early (r : Resource Q)
  /-- an assignment has thrown away what calls had put in -/
  | discarded
  deriving DecidableEq

/-- A monitor and its initialisation. -/
structure Boot (σ : Type u) (Q : Type v) (C : Type w) (R : Type x) where
  /-- the object and its calls -/
  monitor : Monitor σ Q C R
  /-- what is initialised when the module is loaded -/
  static : Resource Q → Bool
  /-- the steps of the initialisation, in source order -/
  steps : List (InitStep σ Q)
  /-- the queues a call registers with on its way in, without waiting -/
  registers : C → List Q
  /-- calls have put something into the object -/
  occupied : σ → Bool

namespace Boot

variable {σ : Type u} {Q : Type v} {C : Type w} {R : Type x} {Tid : Type y}

/-- The monitor, how far the initialisation has got, and the harm done so far. -/
structure State (σ : Type u) (Q : Type v) (C : Type w) (R : Type x) (Tid : Type y) where
  /-- the object and the tasks -/
  mon : Monitor.State σ Q C R Tid
  /-- the number of steps done -/
  done : ℕ
  /-- the harm done so far -/
  harm : List (Harm Q)

/-- The step taken next. -/
inductive Act (C : Type w) (Tid : Type y) where
  /-- the next step of the initialisation -/
  | init
  /-- a step of a task -/
  | user (a : Monitor.Act C Tid)

/-- Some steps of the initialisation, and then some of the tasks. -/
def Act.after {C : Type w} {Tid : Type y} (n : ℕ) (as : List (Monitor.Act C Tid)) :
    List (Act C Tid) :=
  List.replicate n .init ++ as.map .user

/-- A step that begins a call. -/
def isCall : Monitor.Act C Tid → Bool
  | .call _ _ => true
  | _ => false

variable (b : Boot σ Q C R)

/-- The object has been published. -/
def published (n : ℕ) : Bool :=
  (b.steps.take n).any fun st => match st with
    | .publish => true
    | _ => false

variable [DecidableEq Q]

/-- A resource has been initialised. -/
def ready (n : ℕ) (r : Resource Q) : Bool :=
  b.static r || (b.steps.take n).any fun st => match st with
    | .ready r' => r' = r
    | _ => false

/-- What a step of a task touches. -/
def touches (s : Monitor.State σ Q C R Tid) : Monitor.Act C Tid → List (Resource Q)
  | .enter t => match s.pc t with
    | .entered c => (b.registers c).map .queue
    | _ => []
  | .prepare t => match s.pc t with
    | .preparing _ q => [.queue q]
    | _ => []
  | .test t => match s.pc t with
    | .queued _ q => [.queue q]
    | _ => []
  | .signal t => match s.pc t with
    | .queued _ q | .committed _ q | .asleep _ q => [.queue q]
    | _ => []
  | .lock _ | .lockFail _ => [.lock]
  | .leave t => match s.pc t with
    | .leaving (some q) => [.queue q]
    | _ => []
  | .call _ _ | .sleep _ => []

/-- What is touched too early. -/
def early (n : ℕ) (rs : List (Resource Q)) : List (Harm Q) :=
  (rs.filter fun r => !b.ready n r).map .early

/-- What a step of the initialisation throws away. -/
def discards (d : σ) : InitStep σ Q → List (Harm Q)
  | .assign _ => if b.occupied d then [.discarded] else []
  | _ => []

variable [DecidableEq Tid]

/-- One step. A call can begin once the object is published. -/
def next (s : State σ Q C R Tid) : Act C Tid → Option (State σ Q C R Tid)
  | .init => (b.steps[s.done]?).map fun st =>
    { mon := { s.mon with dev := st.run s.mon.dev }
      done := s.done + 1
      harm := s.harm ++ b.discards s.mon.dev st }
  | .user a =>
    if isCall a && !b.published s.done then none
    else (b.monitor.next s.mon a).map fun mon =>
      { s with mon := mon, harm := s.harm ++ b.early s.done (b.touches s.mon a) }

/-- The initialisation and the calls, from the loading of the module on. -/
abbrev lts (Tid : Type y) [DecidableEq Tid] (d : σ) : Lts (State σ Q C R Tid) (Act C Tid) :=
  Lts.ofNext ⟨Monitor.start d, 0, []⟩ b.next

variable {b}

/-- What is ready stays so. -/
theorem ready_succ {n : ℕ} {r : Resource Q} (h : b.ready n r = true) :
    b.ready (n + 1) r = true := by
  rw [ready, Bool.or_eq_true, List.any_eq_true] at h ⊢
  refine h.imp_right fun ⟨st, hmem, hst⟩ => ⟨st, ?_, hst⟩
  rw [List.take_add_one]
  exact List.mem_append_left _ hmem

theorem early_eq_nil {n : ℕ} {rs : List (Resource Q)} (h : ∀ r ∈ rs, b.ready n r = true) :
    b.early n rs = [] := by
  rw [early, List.map_eq_nil_iff, List.filter_eq_nil_iff]
  intro r hr
  simp [h r hr]

/-! ## Plans -/

/-- No call looks at the object before as many steps are done as it needs. -/
def InTime (needs : σ → C → ℕ) (s : State σ Q C R Tid) : Act C Tid → Prop
  | .user (.enter t) => ∀ c, s.mon.pc t = .entered c → needs s.mon.dev c ≤ s.done
  | _ => True

/-- What is known at each point of an initialisation, of the object and of the calls, if
calls wait for the steps they need. -/
structure Plan (b : Boot σ Q C R) (needs : σ → C → ℕ) where
  /-- what is known of the object -/
  obj : ℕ → σ → Prop
  /-- the calls that may wait -/
  waits : ℕ → C → Q → Prop
  /-- the calls that may take the lock -/
  passed : ℕ → C → Option Q → Prop
  /-- waiting calls stay good -/
  waits_succ : ∀ {n c q}, waits n c q → waits (n + 1) c q
  /-- so do those past their wait -/
  passed_succ : ∀ {n c via}, passed n c via → passed (n + 1) c via
  /-- a call that is in time registers with nothing that is not ready -/
  enter : ∀ {n c d}, needs d c ≤ n → ∀ q ∈ b.registers c, b.ready n (.queue q) = true
  /-- it may go to the lock -/
  direct : ∀ {n c d}, needs d c ≤ n → obj n d → b.monitor.entry c d = .lock → passed n c none
  /-- it may wait -/
  await : ∀ {n c d q}, needs d c ≤ n → obj n d → b.monitor.entry c d = .wait q → waits n c q
  /-- a wait that is over leads to the lock -/
  pass : ∀ {n c d q}, waits n c q → obj n d → b.monitor.cond q d = true → passed n c (some q)
  /-- a wait that is not finds its queue ready -/
  miss : ∀ {n c d q}, waits n c q → obj n d → b.monitor.cond q d = false →
    b.ready n (.queue q) = true
  /-- a wait that ignores signals leads to the lock -/
  ignore : ∀ {n c q}, waits n c q → b.monitor.waitError c = none → passed n c (some q)
  /-- the lock is ready -/
  lock : ∀ {n c via}, passed n c via → b.ready n .lock = true
  /-- the critical section -/
  body : ∀ {n c via d}, passed n c via → obj n d → obj n (b.monitor.body c via d).next
  /-- the queue it wakes is ready -/
  wakes : ∀ {n c via d q}, passed n c via → obj n d → (b.monitor.body c via d).wakes = some q →
    b.ready n (.queue q) = true
  /-- the steps of the initialisation -/
  init : ∀ {n d st}, b.steps[n]? = some st → obj n d → obj (n + 1) (st.run d)
  /-- they throw nothing away -/
  keeps : ∀ {n d st}, b.steps[n]? = some st → obj n d → b.discards d st = []

namespace Plan

variable {needs : σ → C → ℕ} (P : Plan b needs)

/-- What is known of a task, by its place. -/
def PcOk (n : ℕ) : Monitor.Pc Q C → Prop
  | .idle | .entered _ => True
  | .testing c q => P.waits n c q
  | .preparing c q | .queued c q | .committed c q | .asleep c q =>
    P.waits n c q ∧ b.ready n (.queue q) = true
  | .locking c via => P.passed n c via
  | .leaving w => ∀ q, w = some q → b.ready n (.queue q) = true

/-- Nothing bad has happened, and the plan has been kept. -/
structure Kept (s : State σ Q C R Tid) : Prop where
  /-- no harm done -/
  harm : s.harm = []
  /-- the object is what it should be -/
  obj : P.obj s.done s.mon.dev
  /-- and so is every task -/
  pc : ∀ t, P.PcOk s.done (s.mon.pc t)

variable {P}

theorem PcOk.succ {n : ℕ} {p : Monitor.Pc Q C} (h : P.PcOk n p) : P.PcOk (n + 1) p := by
  cases p with
  | idle | entered _ => trivial
  | testing c q => exact P.waits_succ h
  | preparing c q | queued c q | committed c q | asleep c q =>
    exact ⟨P.waits_succ h.1, ready_succ h.2⟩
  | locking c via => exact P.passed_succ h
  | leaving w => exact fun q hq => ready_succ (h q hq)

theorem PcOk.wake {n : ℕ} {p : Monitor.Pc Q C} (h : P.PcOk n p) (q : Q) :
    P.PcOk n (p.wake q) := by
  cases p with
  | queued c q' =>
    rw [Monitor.Pc.wake]
    split
    · exact h.1
    · exact h
  | committed c q' | asleep c q' =>
    rw [Monitor.Pc.wake]
    split <;> exact h
  | _ => exact h

theorem PcOk.of_onQueue {n : ℕ} {p : Monitor.Pc Q C} {c : C} {q : Q} (h : P.PcOk n p)
    (hp : p.OnQueue c q) : P.waits n c q ∧ b.ready n (.queue q) = true := by
  obtain rfl | rfl | rfl := hp <;> exact h

/-- What a planned step touches is ready. -/
theorem Kept.touches {s : State σ Q C R Tid} (h : P.Kept s) {a : Monitor.Act C Tid}
    (hP : InTime needs s (.user a)) {mon : Monitor.State σ Q C R Tid}
    (hs : b.monitor.Step s.mon a mon) :
    b.early s.done (b.touches s.mon a) = [] := by
  refine early_eq_nil fun r hr => ?_
  cases hs with
  | call _ | sleep _ => cases hr
  | @finish t c _ hp _ | @direct t c hp _ | @await t c _ hp _ =>
    simp only [Boot.touches, hp] at hr
    obtain ⟨q, hq, rfl⟩ := List.mem_map.mp hr
    exact P.enter (hP c hp) q hq
  | @pass t c q hp _ =>
    rcases hp with hp | hp
    · simp [Boot.touches, hp] at hr
    · have hpc := h.pc t
      rw [hp] at hpc
      simp only [Boot.touches, hp, List.mem_singleton] at hr
      exact hr ▸ hpc.2
  | @miss t c q hp _ => simp [Boot.touches, hp] at hr
  | @commit t c q hp _ | @prepare t c q hp =>
    have hpc := h.pc t
    rw [hp] at hpc
    simp only [Boot.touches, hp, List.mem_singleton] at hr
    exact hr ▸ hpc.2
  | @interrupt t c q _ hp _ | @ignore t c q hp _ =>
    have hready := ((h.pc t).of_onQueue hp).2
    obtain hp | hp | hp := hp <;> simp only [Boot.touches, hp, List.mem_singleton] at hr <;>
      exact hr ▸ hready
  | @lock t c via hp | @lockFail t c via _ hp _ =>
    have hpc := h.pc t
    rw [hp] at hpc
    rw [List.mem_singleton.mp hr]
    exact P.lock hpc
  | @leave t w hp =>
    have hpc := h.pc t
    rw [hp] at hpc
    cases w with
    | none => simp [Boot.touches, hp] at hr
    | some q =>
      simp only [Boot.touches, hp, List.mem_singleton] at hr
      exact hr ▸ hpc q rfl

/-- One task moves to a place that the plan allows. -/
theorem PcOk.goto {n : ℕ} {mon : Monitor.State σ Q C R Tid} (h : ∀ u, P.PcOk n (mon.pc u))
    {t : Tid} {p : Monitor.Pc Q C} (hp : P.PcOk n p) (u : Tid) :
    P.PcOk n ((mon.goto t p).pc u) := by
  by_cases hu : u = t
  · rw [hu, Monitor.State.goto_pc_self]
    exact hp
  · rw [Monitor.State.goto_pc_ne _ hu]
    exact h u

/-- A planned step of a task keeps the plan. -/
theorem Kept.step {s : State σ Q C R Tid} (h : P.Kept s) {a : Monitor.Act C Tid}
    (hP : InTime needs s (.user a)) {mon : Monitor.State σ Q C R Tid}
    (hs : b.monitor.Step s.mon a mon) :
    P.obj s.done mon.dev ∧ ∀ u, P.PcOk s.done (mon.pc u) := by
  cases hs with
  | call _ => exact ⟨h.obj, PcOk.goto h.pc trivial⟩
  | finish _ _ | interrupt _ _ | lockFail _ _ => exact ⟨h.obj, PcOk.goto h.pc trivial⟩
  | @direct t c hp he => exact ⟨h.obj, PcOk.goto h.pc (P.direct (hP c hp) h.obj he)⟩
  | @await t c q hp he =>
    have hwaits : P.PcOk s.done (.testing c q) := P.await (hP c hp) h.obj he
    exact ⟨h.obj, PcOk.goto h.pc hwaits⟩
  | @pass t c q hp hcond =>
    have hwaits : P.waits s.done c q := by
      have hpc := h.pc t
      rcases hp with hp | hp <;> rw [hp] at hpc
      · exact hpc
      · exact hpc.1
    have hpassed : P.PcOk s.done (.locking c (some q)) := P.pass hwaits h.obj hcond
    exact ⟨h.obj, PcOk.goto h.pc hpassed⟩
  | @miss t c q hp hcond =>
    have hpc := h.pc t
    rw [hp] at hpc
    have hprep : P.PcOk s.done (.preparing c q) := ⟨hpc, P.miss hpc h.obj hcond⟩
    exact ⟨h.obj, PcOk.goto h.pc hprep⟩
  | @commit t c q hp _ | @prepare t c q hp | @sleep t c q hp =>
    have hpc := h.pc t
    rw [hp] at hpc
    exact ⟨h.obj, PcOk.goto h.pc hpc⟩
  | @ignore t c q hp herr =>
    have hpassed : P.PcOk s.done (.locking c (some q)) :=
      P.ignore ((h.pc t).of_onQueue hp).1 herr
    exact ⟨h.obj, PcOk.goto h.pc hpassed⟩
  | @lock t c via hp =>
    have hpc := h.pc t
    rw [hp] at hpc
    refine ⟨P.body hpc h.obj, fun u => ?_⟩
    by_cases hu : u = t
    · rw [hu, Monitor.State.serve_pc_self]
      exact fun q hq => P.wakes hpc h.obj hq
    · rw [Monitor.State.serve_pc_ne _ hu]
      exact h.pc u
  | @leave t w hp =>
    rw [Monitor.State.returned_dev]
    refine ⟨h.obj, fun u => ?_⟩
    have hidle := PcOk.goto h.pc (t := t) (p := .idle) trivial u
    cases w with
    | none => exact hidle
    | some q => exact hidle.wake q

/-- **Runs in which calls are in time do no harm.** -/
theorem harmless (P : Plan b needs) {d : σ} (h₀ : P.obj 0 d) :
    ((b.lts Tid d).restrict (InTime needs)).Inductive fun s => P.Kept s where
  init hi := by
    cases hi
    exact ⟨rfl, h₀, fun _ => trivial⟩
  step := by
    intro s s' a h ⟨hP, hs⟩
    cases a with
    | init =>
      obtain ⟨st, hst, rfl⟩ := Option.map_eq_some_iff.mp hs
      refine ⟨?_, P.init hst h.obj, fun t => (h.pc t).succ⟩
      rw [h.harm, P.keeps hst h.obj]
      rfl
    | user a =>
      simp only [Lts.ofNext, next] at hs
      split at hs
      · cases hs
      · obtain ⟨mon, hmon, rfl⟩ := Option.map_eq_some_iff.mp hs
        have hstep := Monitor.step_of_next hmon
        obtain ⟨hobj, hpc⟩ := h.step hP hstep
        refine ⟨?_, hobj, hpc⟩
        rw [h.harm, h.touches hP hstep]
        rfl

end Plan

/-! ## Doing harm -/

variable (b) in
/-- Some run from here does harm. -/
def CanHarm (s : State σ Q C R Tid) : Prop :=
  ∃ (as : List (Act C Tid)) (s' : State σ Q C R Tid),
    as.foldlM b.next s = some s' ∧ s'.harm ≠ []

/-- Harm once done stays. -/
theorem canHarm_of_harm {s : State σ Q C R Tid} (h : s.harm ≠ []) : CanHarm b s :=
  ⟨[], s, rfl, h⟩

theorem CanHarm.of_next {s s' : State σ Q C R Tid} {a : Act C Tid} (hs : b.next s a = some s')
    (h : CanHarm b s') : CanHarm b s := by
  obtain ⟨as, s'', hrun, hharm⟩ := h
  refine ⟨a :: as, s'', ?_, hharm⟩
  rw [List.foldlM_cons, hs]
  exact hrun

theorem next_init {s : State σ Q C R Tid} {st : InitStep σ Q} (hst : b.steps[s.done]? = some st) :
    b.next s .init = some ⟨{ s.mon with dev := st.run s.mon.dev }, s.done + 1,
      s.harm ++ b.discards s.mon.dev st⟩ := by
  rw [next, hst]
  rfl

/-- A step of a call that is under way. -/
theorem next_user {s : State σ Q C R Tid} {a : Monitor.Act C Tid}
    {mon : Monitor.State σ Q C R Tid} (hcall : isCall a = false)
    (hm : b.monitor.next s.mon a = some mon) :
    b.next s (.user a) = some ⟨mon, s.done, s.harm ++ b.early s.done (b.touches s.mon a)⟩ := by
  simp only [next, hcall, hm]
  rfl

theorem CanHarm.of_user {s : State σ Q C R Tid} {a : Monitor.Act C Tid}
    {mon : Monitor.State σ Q C R Tid} (hcall : isCall a = false)
    (hm : b.monitor.next s.mon a = some mon)
    (h : ∀ harm : List (Harm Q), CanHarm b ⟨mon, s.done, harm⟩) : CanHarm b s :=
  CanHarm.of_next (next_user hcall hm) (h _)

/-- A step that touches what is not ready. -/
theorem canHarm_of_touches {s : State σ Q C R Tid} {a : Monitor.Act C Tid}
    {mon : Monitor.State σ Q C R Tid} (hcall : isCall a = false)
    (hm : b.monitor.next s.mon a = some mon) {r : Resource Q} (hr : r ∈ b.touches s.mon a)
    (hready : b.ready s.done r = false) : CanHarm b s := by
  have hmem : Harm.early r ∈ b.early s.done (b.touches s.mon a) :=
    List.mem_map_of_mem (List.mem_filter.mpr ⟨hr, by rw [hready]; rfl⟩)
  refine CanHarm.of_next (next_user hcall hm) (canHarm_of_harm ?_)
  exact List.ne_nil_of_mem (List.mem_append_right _ hmem)

/-- A task at a lock that is not ready. -/
theorem canHarm_of_locking {s : State σ Q C R Tid} {t : Tid} {c : C} {via : Option Q}
    (hp : s.mon.pc t = .locking c via) (hready : b.ready s.done .lock = false) : CanHarm b s :=
  canHarm_of_touches rfl (Monitor.next_lock hp) (List.mem_singleton_self _) hready

/-- A task whose section wakes a queue that is not ready. -/
theorem canHarm_of_wakes {s : State σ Q C R Tid} {t : Tid} {c : C} {via : Option Q} {q : Q}
    (hp : s.mon.pc t = .locking c via) (hwakes : (b.monitor.body c via s.mon.dev).wakes = some q)
    (hready : b.ready s.done (.queue q) = false) : CanHarm b s := by
  refine CanHarm.of_user rfl (Monitor.next_lock hp) fun harm => ?_
  have hpc : (s.mon.serve t c via (b.monitor.body c via s.mon.dev)).pc t = .leaving (some q) := by
    rw [Monitor.State.serve_pc_self, hwakes]
  have hleave : b.monitor.next (s.mon.serve t c via (b.monitor.body c via s.mon.dev)) (.leave t) =
      some ((s.mon.serve t c via (b.monitor.body c via s.mon.dev)).returned t (some q)) := by
    simp only [Monitor.next, hpc]
  refine canHarm_of_touches rfl hleave (r := .queue q) ?_ hready
  simp only [touches, hpc, List.mem_singleton]

/-- A task that will enter a queue that is not ready. -/
theorem canHarm_of_testing {s : State σ Q C R Tid} {t : Tid} {c : C} {q : Q}
    (hp : s.mon.pc t = .testing c q) (hcond : b.monitor.cond q s.mon.dev = false)
    (hready : b.ready s.done (.queue q) = false) : CanHarm b s := by
  have htest : b.monitor.next s.mon (.test t) = some (s.mon.goto t (.preparing c q)) := by
    simp [Monitor.next, hp, hcond]
  refine CanHarm.of_user rfl htest fun harm => ?_
  have hpc : (s.mon.goto t (.preparing c q)).pc t = .preparing c q := Monitor.State.goto_pc_self ..
  have hprepare : b.monitor.next (s.mon.goto t (.preparing c q)) (.prepare t) =
      some ((s.mon.goto t (.preparing c q)).goto t (.queued c q)) := by
    simp only [Monitor.next, hpc]
  refine canHarm_of_touches rfl hprepare (r := .queue q) ?_ hready
  simp only [touches, hpc, List.mem_singleton]

/-- A task whose call goes straight to the lock. -/
theorem CanHarm.of_direct {s : State σ Q C R Tid} {t : Tid} {c : C}
    (hp : s.mon.pc t = .entered c) (hentry : b.monitor.entry c s.mon.dev = .lock)
    (h : ∀ harm : List (Harm Q), CanHarm b ⟨s.mon.goto t (.locking c none), s.done, harm⟩) :
    CanHarm b s := by
  have henter : b.monitor.next s.mon (.enter t) = some (s.mon.goto t (.locking c none)) := by
    simp only [Monitor.next, hp, hentry]
  exact CanHarm.of_user rfl henter h

/-- A task whose call waits. -/
theorem CanHarm.of_await {s : State σ Q C R Tid} {t : Tid} {c : C} {q : Q}
    (hp : s.mon.pc t = .entered c) (hentry : b.monitor.entry c s.mon.dev = .wait q)
    (h : ∀ harm : List (Harm Q), CanHarm b ⟨s.mon.goto t (.testing c q), s.done, harm⟩) :
    CanHarm b s := by
  have henter : b.monitor.next s.mon (.enter t) = some (s.mon.goto t (.testing c q)) := by
    simp only [Monitor.next, hp, hentry]
  exact CanHarm.of_user rfl henter h

/-- A task whose wait is over can go on to the lock. -/
theorem CanHarm.of_pass {s : State σ Q C R Tid} {t : Tid} {c : C} {q : Q}
    (hp : s.mon.pc t = .testing c q) (hcond : b.monitor.cond q s.mon.dev = true)
    (h : ∀ harm : List (Harm Q), CanHarm b ⟨s.mon.goto t (.locking c (some q)), s.done, harm⟩) :
    CanHarm b s := by
  have htest : b.monitor.next s.mon (.test t) = some (s.mon.goto t (.locking c (some q))) := by
    simp [Monitor.next, hp, hcond]
  exact CanHarm.of_user rfl htest h

/-- An object with something in it that an assignment has still to come to. -/
theorem canHarm_of_occupied {f : σ → σ} {rest : List (InitStep σ Q)} :
    ∀ {s : State σ Q C R Tid}, b.steps.drop s.done = rest → .assign f ∈ rest →
      b.occupied s.mon.dev = true → CanHarm b s := by
  induction rest with
  | nil =>
    intro s _ hassign
    cases hassign
  | cons st rest ih =>
    intro s hdrop hassign hocc
    have hst : b.steps[s.done]? = some st := by
      rw [← List.head?_drop, hdrop, List.head?_cons]
    have hrest : b.steps.drop (s.done + 1) = rest := by
      rw [← List.drop_drop, hdrop, List.drop_one, List.tail_cons]
    refine CanHarm.of_next (next_init hst) ?_
    cases st with
    | assign g =>
      refine canHarm_of_harm ?_
      simp [discards, hocc]
    | other | publish | ready r =>
      exact ih hrest ((List.mem_cons.mp hassign).resolve_left (by simp)) hocc

end Boot

end KernelModules
