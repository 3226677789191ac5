import KernelModules.MutexDevice
import KernelModules.Monitor

/-!
# Who unlocks `my_dyn_mutex`

A kernel mutex is to be unlocked by the task that locked it. `read_write_mutex.c` locks it
in `driver_open` and unlocks it in `driver_close`, which runs in whichever task drops the
last reference to the open file; after a `fork` that need not be the task that opened it.

`unlocked_by_locker` says when it is: as long as no open file loses the last reference of
its opener while another task still refers to it. In a run at whose end no file is open
that is exactly when.
-/

namespace KernelModules

namespace MutexDevice

variable {Pid : Type*}

/-- An unlock was done by the task that had locked. -/
def Event.Matched : Event Pid → Prop
  | .unlocked _ locker task => locker = some task
  | _ => True

/-- The rule of the kernel mutex, over a whole log. -/
def Matched (log : List (Event Pid)) : Prop := ∀ e ∈ log, e.Matched

theorem matched_concat {log : List (Event Pid)} {e : Event Pid} :
    Matched (log ++ [e]) ↔ Matched log ∧ e.Matched := by
  simp [Matched, or_imp, forall_and]

/-- A file that loses references loses all of them or keeps one of its opener's. -/
def OpenFile.OpenerStays (x : OpenFile Pid) (rest : List Pid) : Prop :=
  rest = [] ∨ x.opener ∈ rest

variable [DecidableEq Pid]

instance (e : Event Pid) : Decidable e.Matched :=
  match e with
  | .unlocked _ locker task => inferInstanceAs (Decidable (locker = some task))
  | .wrote .. | .read .. => isTrue trivial

instance (log : List (Event Pid)) : Decidable (Matched log) :=
  inferInstanceAs (Decidable (∀ e ∈ log, e.Matched))

/-- The step drops no last reference of an opener to a file that stays open. -/
def KeepsOpener (s : State Pid) : Act Pid → Prop
  | .close p f => ∀ x ∈ s.files, x.OpenerStays (x.afterClose p f)
  | .exit p => ∀ x ∈ s.files, x.OpenerStays (x.afterExit p)
  | _ => True

instance (s : State Pid) (a : Act Pid) : Decidable (KeepsOpener s a) :=
  match a with
  | .close p f =>
    inferInstanceAs (Decidable (∀ x ∈ s.files, x.afterClose p f = [] ∨ x.opener ∈ x.afterClose p f))
  | .exit p =>
    inferInstanceAs (Decidable (∀ x ∈ s.files, x.afterExit p = [] ∨ x.opener ∈ x.afterExit p))
  | .openCall _ | .acquire _ | .interrupt _ | .read .. | .readReturn _ | .write ..
  | .writeReturn _ | .dup .. | .fork .. => isTrue trivial

/-! ## As long as openers stay -/

/-- Every open file has a reference of its opener, and every unlock so far was right. -/
structure Held (s : State Pid) : Prop where
  /-- the opener still refers to its file -/
  opener : ∀ x ∈ s.files, x.opener ∈ x.holders
  /-- the unlocks so far -/
  matched : Matched s.log

omit [DecidableEq Pid] in
/-- The last reference to go is the opener's, so the opener unlocks. -/
theorem Dropped.held {s s' : State Pid} {p : Pid} {rest : OpenFile Pid → List Pid}
    (h : Held s) (hdrops : ∀ x, Drops p x (rest x)) (hstay : ∀ x ∈ s.files, x.OpenerStays (rest x))
    (hd : Dropped s p rest s') : Held s' := by
  cases hd with
  | idle _ _ => exact h
  | @kept x hfiles hrest =>
    have hmem : x ∈ s.files := hfiles ▸ List.mem_cons_self ..
    refine ⟨fun y hy => ?_, h.matched⟩
    obtain rfl := List.mem_singleton.mp hy
    exact (hstay x hmem).resolve_left hrest
  | @closed x hfiles hrest =>
    have hmem : x ∈ s.files := hfiles ▸ List.mem_cons_self ..
    refine ⟨fun _ hy => absurd hy List.not_mem_nil, matched_concat.mpr ⟨h.matched, ?_⟩⟩
    exact congrArg some ((hdrops x).eq_of_nil hrest (h.opener x hmem))

theorem Held.step {s s' : State Pid} {a : Act Pid} (hx : Exclusive s) (h : Held s)
    (hP : KeepsOpener s a) (hs : Step s a s') : Held s' := by
  cases hs with
  | openCall _ | interrupt _ | read _ _ | write _ _ => exact ⟨h.opener, h.matched⟩
  | readReturn _ | writeReturn _ => exact ⟨h.opener, matched_concat.mpr ⟨h.matched, trivial⟩⟩
  | @acquire p _ _ =>
    exact ⟨forall_mem_concat.mpr ⟨h.opener, List.mem_cons_self ..⟩, h.matched⟩
  | dup _ _ | fork _ _ =>
    refine ⟨fun x hmem => ?_, h.matched⟩
    obtain ⟨y, hy, rfl⟩ := List.mem_map.mp hmem
    exact List.mem_append_left _ (h.opener y hy)
  | close _ _ => exact (hx.dropRefs _ _).held h (drops_afterClose _ _) hP
  | exit _ =>
    have hheld := (hx.dropRefs _ _).held h (drops_afterExit _) hP
    exact ⟨hheld.opener, hheld.matched⟩

/-- In every run in which openers stay, every unlock is right. -/
theorem held_inductive (alive : Pid → Bool) :
    ((lts alive).restrict KeepsOpener).Inductive fun s => Exclusive s ∧ Held s := by
  refine Lts.Inductive.and ((exclusive_inductive alive).restrict _) ?_ ?_
  · intro s hi
    cases hi
    exact ⟨fun _ hmem => absurd hmem List.not_mem_nil, fun _ hmem => absurd hmem List.not_mem_nil⟩
  · intro s s' a hx h hs
    exact h.step hx hs.1 (step_of_next hs.2)

/-! ## Once an opener has left -/

/-- The opener of every open file has been born. -/
def OpenersBorn (s : State Pid) : Prop := ∀ x ∈ s.files, s.pc x.opener ≠ .unborn

/-- Some open file is left without a reference of its opener, or an unlock was wrong. -/
def Spoilt (s : State Pid) : Prop := (∃ x ∈ s.files, x.opener ∉ x.holders) ∨ ¬ Matched s.log

omit [DecidableEq Pid] in
/-- Dropping references opens no file and forgets nothing. -/
theorem Dropped.openers {s s' : State Pid} {p : Pid} {rest : OpenFile Pid → List Pid}
    (hd : Dropped s p rest s') :
    (∀ y ∈ s'.files, ∃ x ∈ s.files, y.opener = x.opener) ∧ s.log <+: s'.log := by
  cases hd with
  | idle _ _ => exact ⟨fun y hy => ⟨y, hy, rfl⟩, List.prefix_refl _⟩
  | @kept x hfiles _ =>
    refine ⟨fun y hy => ⟨x, hfiles ▸ List.mem_cons_self .., ?_⟩, List.prefix_refl _⟩
    obtain rfl := List.mem_singleton.mp hy
    rfl
  | closed _ _ => exact ⟨fun y hy => absurd hy List.not_mem_nil, List.prefix_append ..⟩

theorem OpenersBorn.goto {s s' : State Pid} (h : OpenersBorn s) {p : Pid} {pc : Pc}
    (hgoto : s'.pc = Function.update s.pc p pc)
    (hfiles : ∀ y ∈ s'.files, ∃ x ∈ s.files, y.opener = x.opener) (hpc : pc ≠ .unborn) :
    OpenersBorn s' := by
  intro y hy
  obtain ⟨x, hmem, hopener⟩ := hfiles y hy
  rw [hgoto, hopener]
  by_cases hp : x.opener = p
  · rw [hp, Function.update_self]
    exact hpc
  · rw [Function.update_of_ne hp]
    exact h x hmem

theorem OpenersBorn.step {s s' : State Pid} {a : Act Pid} (hx : Exclusive s) (h : OpenersBorn s)
    (hs : Step s a s') : OpenersBorn s' := by
  have hshare : ∀ more, ∀ y ∈ (s.share more).files, ∃ x ∈ s.files, y.opener = x.opener := by
    intro more y hy
    obtain ⟨x, hmem, rfl⟩ := List.mem_map.mp hy
    exact ⟨x, hmem, rfl⟩
  cases hs with
  | openCall _ | interrupt _ | read _ _ | readReturn _ | write _ _ | writeReturn _ =>
    exact h.goto rfl (fun y hy => ⟨y, hy, rfl⟩) (by simp)
  | @acquire p hpc _ =>
    intro y hy
    rcases List.mem_append.mp hy with hy | hy
    · have hgoto : OpenersBorn (s.goto p .user) := h.goto rfl (fun y hy => ⟨y, hy, rfl⟩) (by simp)
      exact hgoto y hy
    · obtain rfl := List.mem_singleton.mp hy
      rw [State.opened, State.goto_pc_self]
      simp
  | dup _ _ =>
    intro y hy
    obtain ⟨x, hmem, hopener⟩ := hshare _ y hy
    rw [hopener]
    exact h x hmem
  | fork _ _ => exact h.goto rfl (hshare _) (by simp)
  | @close p f _ _ =>
    have hd := hx.dropRefs p (·.afterClose p f)
    intro y hy
    obtain ⟨x, hmem, hopener⟩ := hd.openers.1 y hy
    rw [hd.frame.2.2, hopener]
    exact h x hmem
  | @exit p _ =>
    have hd := hx.dropRefs p (·.afterExit p)
    have hgoto : ((s.dropRefs p (·.afterExit p)).goto p .exited).pc =
        Function.update s.pc p .exited := by
      rw [State.goto, hd.frame.2.2]
    exact h.goto hgoto hd.openers.1 (by simp)

/-- The log only grows. -/
theorem Step.log_prefix {s s' : State Pid} {a : Act Pid} (hx : Exclusive s) (hs : Step s a s') :
    s.log <+: s'.log := by
  cases hs with
  | openCall _ | interrupt _ | acquire _ _ | read _ _ | write _ _ | dup _ _ | fork _ _ =>
    exact List.prefix_refl _
  | readReturn _ | writeReturn _ => exact List.prefix_append ..
  | close _ _ | exit _ => exact (hx.dropRefs _ _).openers.2

omit [DecidableEq Pid] in
/-- A file whose opener has left either stays open or is closed by somebody else. -/
theorem Dropped.spoilt {s s' : State Pid} {p : Pid} {rest : OpenFile Pid → List Pid}
    (hx : Exclusive s) (hdrops : ∀ x, Drops p x (rest x)) {x : OpenFile Pid} (hmem : x ∈ s.files)
    (hleft : x.opener ∉ x.holders) (hd : Dropped s p rest s') : Spoilt s' := by
  cases hd with
  | idle hfiles _ =>
    rw [hfiles] at hmem
    cases hmem
  | @kept y hfiles _ =>
    rw [hfiles] at hmem
    obtain rfl := List.mem_singleton.mp hmem
    exact .inl ⟨_, List.mem_cons_self .., fun hopener => hleft ((hdrops x).subset hopener)⟩
  | @closed y hfiles hrest =>
    rw [hfiles] at hmem
    obtain rfl := List.mem_singleton.mp hmem
    refine .inr fun hm => ?_
    obtain ⟨hnil, -⟩ | ⟨hone, -, hne⟩ := hx
    · rw [hnil] at hfiles
      cases hfiles
    · rw [hfiles] at hone
      cases hone
      -- somebody referred to the file until now; it can only have been `p`
      obtain ⟨q, hq⟩ := List.exists_mem_of_ne_nil _ hne
      obtain rfl := (hdrops x).eq_of_nil hrest hq
      have hlocker : some x.opener = some q := (matched_concat.mp hm).2
      exact hleft (Option.some.inj hlocker ▸ hq)

omit [DecidableEq Pid] in
/-- New references for others do not bring the opener back. -/
theorem Spoilt.share {s : State Pid} {more : OpenFile Pid → List Pid} {x : OpenFile Pid}
    (hmem : x ∈ s.files) (hleft : x.opener ∉ x.holders) (hmore : x.opener ∉ more x) :
    Spoilt (s.share more) :=
  .inl ⟨_, List.mem_map_of_mem hmem, fun h => (List.mem_append.mp h).elim hleft hmore⟩

/-- What is spoilt stays so. -/
theorem Spoilt.step {s s' : State Pid} {a : Act Pid} (hx : Exclusive s) (hb : OpenersBorn s)
    (h : Spoilt s) (hs : Step s a s') : Spoilt s' := by
  rcases h with ⟨x, hmem, hleft⟩ | hm
  · cases hs with
    | openCall _ | interrupt _ | read _ _ | readReturn _ | write _ _ | writeReturn _ =>
      exact .inl ⟨x, hmem, hleft⟩
    | acquire _ _ => exact .inl ⟨x, List.mem_append_left _ hmem, hleft⟩
    | @dup p f _ hholds =>
      refine Spoilt.share hmem hleft fun hopener => ?_
      split at hopener
      · next hid =>
        -- whoever duplicates a descriptor has one, the opener has none
        obtain ⟨y, hy, -, hholder⟩ := hholds
        obtain rfl := hx.unique hmem hy
        exact hleft (List.mem_singleton.mp hopener ▸ hholder)
      · cases hopener
    | @fork p c _ hc =>
      have hspoilt : Spoilt (s.share fun x => List.replicate (x.holders.count p) c) := by
        -- the child is new, the opener is not
        refine Spoilt.share hmem hleft fun hopener => hb x hmem ?_
        rw [(List.mem_replicate.mp hopener).2]
        exact hc
      exact hspoilt
    | close _ _ => exact (hx.dropRefs _ _).spoilt hx (drops_afterClose _ _) hmem hleft
    | @exit p _ =>
      have hspoilt : Spoilt (s.dropRefs p (·.afterExit p)) :=
        (hx.dropRefs _ _).spoilt hx (drops_afterExit p) hmem hleft
      exact hspoilt
  · exact .inr fun hm' => hm fun e he => hm' e ((hs.log_prefix hx).subset he)

omit [DecidableEq Pid] in
/-- A file that stays open without its opener is spoilt. -/
theorem Dropped.spoilt_of_leaves {s s' : State Pid} {p : Pid} {rest : OpenFile Pid → List Pid}
    {x : OpenFile Pid} (hx : Exclusive s) (hmem : x ∈ s.files) (hleaves : ¬ x.OpenerStays (rest x))
    (hd : Dropped s p rest s') : Spoilt s' := by
  rw [OpenFile.OpenerStays, not_or] at hleaves
  cases hd with
  | idle hfiles _ =>
    rw [hfiles] at hmem
    cases hmem
  | @kept y hfiles _ =>
    obtain rfl := hx.unique hmem (hfiles ▸ List.mem_cons_self ..)
    exact .inl ⟨_, List.mem_cons_self .., hleaves.2⟩
  | @closed y hfiles hrest =>
    obtain rfl := hx.unique hmem (hfiles ▸ List.mem_cons_self ..)
    exact absurd hrest hleaves.1

/-- A step that drops an opener's last reference to a file that stays open spoils it. -/
theorem spoilt_of_not_keepsOpener {s s' : State Pid} {a : Act Pid} (hx : Exclusive s)
    (hP : ¬ KeepsOpener s a) (hs : Step s a s') : Spoilt s' := by
  cases hs with
  | close _ _ =>
    simp only [KeepsOpener, not_forall] at hP
    obtain ⟨x, hmem, hleaves⟩ := hP
    exact (hx.dropRefs _ _).spoilt_of_leaves hx hmem hleaves
  | @exit p _ =>
    simp only [KeepsOpener, not_forall] at hP
    obtain ⟨x, hmem, hleaves⟩ := hP
    have hspoilt : Spoilt (s.dropRefs p (·.afterExit p)) :=
      (hx.dropRefs _ _).spoilt_of_leaves hx hmem hleaves
    exact hspoilt
  | _ => exact absurd trivial hP

theorem openersBorn_inductive (alive : Pid → Bool) :
    (lts alive).Inductive fun s => Exclusive s ∧ OpenersBorn s := by
  refine Lts.Inductive.and (exclusive_inductive alive) ?_ ?_
  · intro s hi
    cases hi
    exact fun x hmem => absurd hmem List.not_mem_nil
  · intro s s' a hx h hs
    exact h.step hx (step_of_next hs)

/-- A run either keeps to the condition or is spoilt at its end. -/
theorem keepsOpener_or_spoilt {alive : Pid → Bool} {as : List (Act Pid)} {s : State Pid}
    (hr : (lts alive).Run (start alive) as s) :
    ((lts alive).restrict KeepsOpener).Run (start alive) as s ∨ Spoilt s := by
  induction hr with
  | nil => exact .inl .nil
  | @snoc as s s' a hr hstep ih =>
    obtain ⟨hx, hborn⟩ := (openersBorn_inductive alive).reachable (hr.reachable rfl)
    rcases ih with ih | ih
    · by_cases hP : KeepsOpener s a
      · exact .inl (ih.snoc ⟨hP, hstep⟩)
      · exact .inr (spoilt_of_not_keepsOpener hx hP (step_of_next hstep))
    · exact .inr (ih.step hx hborn (step_of_next hstep))

/-- **The task that locked unlocks**: in every run whose steps keep openers, and a run at
whose end no file is open keeps to the rule exactly when all its steps keep openers. -/
theorem unlocked_by_locker {alive : Pid → Bool} {as : List (Act Pid)} {s : State Pid}
    (hr : (lts alive).Run (start alive) as s) :
    (((lts alive).restrict KeepsOpener).Run (start alive) as s → Matched s.log) ∧
      (s.files = [] →
        (Matched s.log ↔ ((lts alive).restrict KeepsOpener).Run (start alive) as s)) := by
  have hmatched : ((lts alive).restrict KeepsOpener).Run (start alive) as s → Matched s.log :=
    fun hkeeps => ((held_inductive alive).reachable (hkeeps.reachable rfl)).2.matched
  refine ⟨hmatched, fun hnil => ⟨fun hm => ?_, hmatched⟩⟩
  rcases keepsOpener_or_spoilt hr with hkeeps | ⟨x, hmem, -⟩ | hm'
  · exact hkeeps
  · rw [hnil] at hmem
    cases hmem
  · exact absurd hm hm'

/-- One task is running, the other not yet. -/
def oneAlive : Monitor.Duo → Bool := fun t => t = .one

/-- A child that closes first: the parent's `close` is the last one, and it unlocks. -/
theorem unlocked_by_locker_parent : ∃ s : State Monitor.Duo,
    ((lts oneAlive).restrict KeepsOpener).Run (start oneAlive)
      [.openCall .one, .acquire .one, .fork .one .two, .close .two 0, .close .one 0] s := by
  have hnil : (lts oneAlive).Run (start oneAlive) [] (start oneAlive) := .nil
  have hr := Lts.run_of_foldlM hnil
    (rfl : [Act.openCall .one, .acquire .one, .fork .one .two, .close .two 0, .close .one 0].foldlM
      next (start oneAlive) = some _)
  exact ⟨_, ((unlocked_by_locker hr).2 rfl).mp (by decide)⟩

/-- A parent that exits first: the child's `close` is the last one, and it unlocks what the
parent had locked. -/
theorem child_unlocks : ∃ s : State Monitor.Duo, (lts oneAlive).Reachable s ∧ ¬ Matched s.log := by
  have hs := Lts.reachable_of_foldlM (.init rfl)
    (rfl : [Act.openCall .one, .acquire .one, .fork .one .two, .exit .one, .close .two 0].foldlM
      next (start oneAlive) = some _)
  exact ⟨_, hs, by decide⟩

end MutexDevice

end KernelModules
