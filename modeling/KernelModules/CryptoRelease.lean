import KernelModules.CryptoLedger

/-!
# What `crypto_challenge.c` releases

Where the module copes with the failures (`Failures.Harmless`), whatever its threads do, it
releases exactly once what it acquires, what a worker uses only after the worker has ended, and
no error pointer is used; otherwise it does not.

* `Sound` — what the ledger must be at all times;
* `exists_done` — the process can always get to its end;
* `releases_iff` — the result.
-/

namespace KernelModules

namespace CryptoChallenge

open Ledger ForkJoin

variable {tz : Cpu → Bool} {f : Failures}

/-! ## What the ledger says -/

/-- What is used or released is owned, no error pointer is used, and what a worker uses is
released only after the worker has ended. -/
structure Sound (log : List (Deed Res)) : Prop where
  /-- nothing is used or released that is not owned -/
  lawful : Lawful log
  /-- no error pointer is handed to any call -/
  noErrPtr : .use .bad ∉ log
  /-- a worker's request, cipher handle and buffer are released after its thread -/
  after : ∀ {i : Cpu} {r : Res}, r ∈ Thread.needs (.worker i) →
    ReleasedAfter log (.thread (.worker i)) r

/-- The program acquires no error pointer, and nor does anybody else. -/
theorem Sys.Inv.acquire_bad {s : Sys} (h : s.Inv tz f) : .acquire .bad ∉ s.log := by
  obtain ⟨done, hfollows, -⟩ := h.main
  intro hmem
  have hothers : .acquire .bad ∈ without s.log .timer :=
    List.mem_filter.mpr ⟨hmem, by simp [Deed.res]⟩
  have hmoves := acquire_mem_moves.mpr hothers
  rw [hfollows.moves, acquire_mem_moves] at hmoves
  refine (plain_program (f := f) ?_).1 rfl
  rw [hfollows.split, deeds_append]
  exact List.mem_append_left _ hmoves

/-- Where the module copes with the failures, its ledger is sound at all times. -/
theorem Sys.Inv.sound {s : Sys} (h : s.Inv tz f) (hf : f.Harmless) : Sound s.log := by
  obtain ⟨done, hfollows, -⟩ := h.main
  have hlawful : Lawful s.log :=
    (lawful_iff_without .timer).mpr ⟨h.timer.lawful, hfollows.lawful (safe_program hf)⟩
  refine ⟨hlawful, hlawful.not_mem_use h.acquire_bad, fun {i r} hr => ?_⟩
  have hothers := hfollows.releasedAfter (releasedAfter_program hf hr)
  refine hothers.of_filter ?_
  have htimer : r ≠ .timer := by
    rintro rfl
    simp [Thread.needs] at hr
  simp [Deed.res, htimer]

/-- When the process is done, the timer is inactive for good. -/
theorem Sys.Inv.timer_settled {s : Sys} (h : s.Inv tz f) (hf : f.Harmless) (hend : s.todo = []) :
    Settled (history s.log .timer) := by
  obtain ⟨done, hfollows, hhalted⟩ := h.main
  have hdone : done = program f := by rw [hfollows.split, hend, List.append_nil]
  intro r hr
  obtain rfl : r = .timer := by simpa [Deed.res] using (List.mem_filter.mp hr).2
  have hpos : 0 < (history s.log .timer).count (.acquire .timer) := List.count_pos_iff.mpr hr
  have honce := h.timer.once
  have hbalance := h.timer.balance
  rcases hmkdir : f.procMkdir with _ | _
  · obtain ⟨hcreate, -, -⟩ := hf.resolve_left (by simp [hmkdir])
    have hcall : .call .stopSampling ∈ program f := by
      rw [program_of_created hmkdir hcreate]
      simp
    have hhalted := hhalted (hdone ▸ hcall)
    obtain ⟨hpending, hidle⟩ := h.flags.timer hhalted
    have hinactive : s.core.timerActive = false := by simp [State.timerActive, hpending, hidle]
    rw [hinactive] at hbalance
    simp only [Bool.false_eq_true, if_false] at hbalance
    omega
  · have hctrl : s.core.ctrl.phase = .absent := by
      by_contra hstarted
      have hstart : .start .ctrl ∈ done := hfollows.started (t := .ctrl) hstarted
      rw [hdone, program_of_procMkdir hmkdir] at hstart
      cases hstart
    have hunarmed : s.core.ctrl.armed = false := by
      cases hc : s.core.ctrl <;> rw [hc] at hctrl <;> first | rfl | cases hctrl
    rw [h.timer.fresh hunarmed] at hpos
    cases hpos

/-- When the process is done, the module has behaved exactly where it copes with the
failures. -/
theorem Sys.Inv.done_iff {s : Sys} (h : s.Inv tz f) (hend : s.todo = []) :
    Sound s.log ∧ Settled s.log ↔ f.Harmless := by
  obtain ⟨done, hfollows, -⟩ := h.main
  rw [hend] at hfollows
  have hdone : done = program f := by rw [hfollows.split, List.append_nil]
  constructor
  · rintro ⟨hsound, hsettled⟩
    by_contra hf
    rcases bad_or_not_settled hf with hbad | hleft
    · exact hsound.noErrPtr (List.mem_filter.mp (hfollows.mem (hdone ▸ hbad))).1
    · exact hleft (hfollows.settled_iff.mp ((settled_iff_without .timer).mp hsettled).2)
  · intro hf
    exact ⟨h.sound hf, (settled_iff_without .timer).mpr
      ⟨h.timer_settled hf hend, hfollows.settled_iff.mpr (settled_program hf)⟩⟩

/-! ## The process gets to its end -/

/-- The process can work off some of its code, with what the threads do meanwhile. -/
def Works (tz : Cpu → Bool) (f : Failures) (s : State) (code : Code) (s' : State) : Prop :=
  ∀ (todo : Code) (log : List (Deed Res)), (moduleLts tz f).Reachable ⟨s, code ++ todo, log⟩ →
    ∃ log', (moduleLts tz f).Reachable ⟨s', todo, log'⟩

theorem Works.append {s s' s'' : State} {code code' : Code} (h : Works tz f s code s')
    (h' : Works tz f s' code' s'') : Works tz f s (code ++ code') s'' := by
  intro todo log hs
  rw [List.append_assoc] at hs
  obtain ⟨log', hs'⟩ := h _ log hs
  exact h' todo log' hs'

theorem works_exec {s s' : State} {x : Instr Res Thread Call} (h : exec s x = some s') :
    Works tz f s [x] s' := by
  intro todo log hs
  refine ⟨log ++ x.deeds ++ timerDeeds s s', hs.step (a := .main) ?_⟩
  simp [Lts.ofNext, Sys.next, h]

theorem works_thread {s s' : State} {a : Act} (ha : a.byThread = true)
    (h : CryptoChallenge.next s a = some s') : Works tz f s [] s' := by
  intro todo log hs
  refine ⟨log ++ uses s a ++ timerDeeds s s', hs.step (a := .thread a) ?_⟩
  simp [Lts.ofNext, Sys.next, ha, h]

theorem works_deeds {s : State} (ds : List (Deed Res)) : Works tz f s (ds.map .deed) s := by
  induction ds with
  | nil => exact fun _ log hs => ⟨log, hs⟩
  | cons d ds ih => exact Works.append (works_exec (x := .deed d) rfl) ih

/-- Only some workers have moved. -/
structure Elsewhere (l : List Cpu) (s s' : State) : Prop where
  /-- not the other workers -/
  worker : ∀ {j : Cpu}, j ∉ l → s'.worker j = s.worker j
  /-- nor the control thread -/
  ctrl : s'.ctrl = s.ctrl
  /-- nor the callback -/
  callback : s'.callback = s.callback
  /-- nor `stop_sampling` -/
  halted : s'.halted = s.halted

theorem Elsewhere.refl (l : List Cpu) (s : State) : Elsewhere l s s := ⟨fun _ => rfl, rfl, rfl, rfl⟩

theorem Elsewhere.trans {l l' : List Cpu} {s s' s'' : State} (h : Elsewhere l s s')
    (h' : Elsewhere l' s' s'') : Elsewhere (l ++ l') s s'' where
  worker hj := by
    obtain ⟨hl, hl'⟩ := not_or.mp fun hmem => hj (List.mem_append.mpr hmem)
    rw [h'.worker hl', h.worker hl]
  ctrl := by rw [h'.ctrl, h.ctrl]
  callback := by rw [h'.callback, h.callback]
  halted := by rw [h'.halted, h.halted]

/-- What can be done for each worker can be done for all, one after the other. -/
theorem works_flatMap {g : Cpu → Code} {P Q : Cpu → WorkerPc → Prop}
    (hg : ∀ {i : Cpu} {s : State}, P i (s.worker i) →
      ∃ s', Works tz f s (g i) s' ∧ Elsewhere [i] s s' ∧ Q i (s'.worker i))
    {l : List Cpu} (hl : l.Nodup) {s : State} (hP : ∀ i ∈ l, P i (s.worker i)) :
    ∃ s', Works tz f s (l.flatMap g) s' ∧ Elsewhere l s s' ∧ ∀ i ∈ l, Q i (s'.worker i) := by
  induction l generalizing s with
  | nil => exact ⟨s, works_deeds [], .refl _ s, fun i hi => by cases hi⟩
  | cons i l ih =>
    obtain ⟨hi, hl⟩ := List.nodup_cons.mp hl
    obtain ⟨s₁, hworks₁, helse₁, hQ₁⟩ := hg (hP i (List.mem_cons_self ..))
    have hne : ∀ {j : Cpu}, j ∈ l → j ∉ [i] := by
      rintro j hj hij
      rw [List.mem_singleton.mp hij] at hj
      exact hi hj
    obtain ⟨s₂, hworks₂, helse₂, hQ₂⟩ := ih hl (s := s₁) fun j hj => by
      rw [helse₁.worker (hne hj)]
      exact hP j (List.mem_cons_of_mem _ hj)
    refine ⟨s₂, ?_, helse₁.trans helse₂, fun j hj => ?_⟩
    · rw [List.flatMap_cons]
      exact hworks₁.append hworks₂
    · rcases List.mem_cons.mp hj with rfl | hj
      · rw [helse₂.worker hi]
        exact hQ₁
      · exact hQ₂ j hj

/-- Either `start_worker` starts a thread, or it and `stop_worker` only deal with resources. -/
theorem startWorker_cases (f : Failures) (i : Cpu) :
    (startWorker f i = ⟨⟨.obj (.worker i), .obj (.tfm i), .obj (.req i), .obj (.buf i)⟩,
      (beforeWorker i).map .deed ++ [.start (.worker i)], 0⟩) ∨
    (startWorker f i).worker.task ≠ .obj (.worker i) ∧
      ∃ ds ds' : List (Deed Res), (startWorker f i).code = ds.map .deed ∧
        stopWorker (startWorker f i).worker = ds'.map .deed := by
  rcases hkmalloc : f.kmalloc i with _ | _
  · rcases htfm : f.allocSkcipher i with _ | errno
    · rcases hreq : f.requestAlloc i with _ | _
      · rcases htask : f.kthreadCreate i with _ | errno
        · exact .inl (startWorker_of_ok hkmalloc htfm hreq htask)
        · refine .inr ⟨?_, (beforeWorker i).dropLast,
            [.use .bad, .release (.req i), .release (.tfm i), .release (.buf i)], ?_, ?_⟩ <;>
            simp [startWorker, stopWorker, kthreadStop, free, hkmalloc, htfm, hreq, htask,
              beforeWorker]
      · refine .inr ⟨?_, (beforeWorker i).take 5, [], ?_, ?_⟩ <;>
          simp [startWorker, stopWorker, hkmalloc, htfm, hreq, beforeWorker, Worker.zero]
    · refine .inr ⟨?_, (beforeWorker i).take 2, [], ?_, ?_⟩ <;>
        simp [startWorker, stopWorker, hkmalloc, htfm, beforeWorker, Worker.zero]
  · rw [startWorker_of_kmalloc hkmalloc]
    exact .inr ⟨by simp [Worker.zero], [], [], rfl, rfl⟩

/-- The worker's thread is at its first test, if there is one. -/
def Waits (f : Failures) (i : Cpu) (p : WorkerPc) : Prop :=
  (startWorker f i).worker.task = .obj (.worker i) → p = .top

theorem works_startWorker (tz : Cpu → Bool) (f : Failures) {i : Cpu} {s : State}
    (hp : s.worker i = .absent) :
    ∃ s', Works tz f s (startWorker f i).code s' ∧ Elsewhere [i] s s' ∧
      Waits f i (s'.worker i) := by
  rcases startWorker_cases f i with hstart | ⟨htask, ds, -, hcode, -⟩
  · rw [hstart]
    refine ⟨s.workerTo i .top, (works_deeds _).append (works_exec ?_), ?_, fun _ => ?_⟩
    · simp [exec, Thread.startAct, next, hp]
    · exact ⟨fun hj => s.workerTo_worker_of_ne _ (by simpa using hj), rfl, rfl, rfl⟩
    · exact s.workerTo_worker_self _
  · rw [hcode]
    exact ⟨s, works_deeds ds, .refl _ s, fun h => (htask h).elim⟩

theorem works_stopWorker (tz : Cpu → Bool) (f : Failures) {i : Cpu} {s : State}
    (hp : Waits f i (s.worker i)) :
    ∃ s', Works tz f s (stopWorker (startWorker f i).worker) s' ∧ Elsewhere [i] s s' ∧ True := by
  rcases startWorker_cases f i with hstart | ⟨htask, -, ds, -, hcode⟩
  · have htop : s.worker i = .top := hp (by rw [hstart])
    have hcode : stopWorker (startWorker f i).worker =
        [.ask (.worker i)] ++ [] ++ [.join (.worker i)] ++ (afterWorker i).map .deed := by
      rw [hstart]
      rfl
    -- asked to stop, the worker leaves its loop at once
    let s₁ : State := { s with workerStop := Function.update s.workerStop i true }
    have hask : exec s (.ask (.worker i)) = some s₁ := rfl
    have hexit : next s₁ (.worker i) = some (s₁.workerTo i .exited) := by
      simp [next, workerNext, s₁, htop]
    have hjoin : exec (s₁.workerTo i .exited) (.join (.worker i)) =
        some (s₁.workerTo i .exited) := by
      rw [exec, State.phase, s₁.workerTo_worker_self]
      rfl
    rw [hcode]
    refine ⟨s₁.workerTo i .exited, ?_, ?_, trivial⟩
    · exact (((works_exec hask).append (works_thread rfl hexit)).append (works_exec hjoin)).append
        (works_deeds _)
    · exact ⟨fun hj => s₁.workerTo_worker_of_ne _ (by simpa using hj), rfl, rfl, rfl⟩
  · rw [hcode]
    exact ⟨s, works_deeds ds, .refl _ s, trivial⟩

/-- The control thread is created and stopped again, or its error pointer is used. -/
theorem works_ctrl (tz : Cpu → Bool) (f : Failures) {s : State} (hp : s.ctrl = .absent)
    (hhalted : s.halted = false) :
    ∃ s', Works tz f s (ctrlCode f) s' ∧ s'.worker = s.worker ∧ s'.callback = s.callback ∧
      (s'.ctrl = .absent ∨ s'.ctrl = .exited) := by
  rw [ctrlCode]
  split
  · exact ⟨s, works_deeds [.use .bad], rfl, rfl, .inl hp⟩
  · let s₁ : State := { s.ctrlTo .born with ctrlStop := true }
    have hstart : exec s (.start .ctrl) = some (s.ctrlTo .born) := by
      simp [exec, Thread.startAct, next, hp, hhalted]
    have hask : exec (s.ctrlTo .born) (.ask .ctrl) = some s₁ := rfl
    have hexit : next s₁ (.ctrl false 0) = some (s₁.ctrlTo .exited) := rfl
    have hjoin : exec (s₁.ctrlTo .exited) (.join .ctrl) = some (s₁.ctrlTo .exited) := rfl
    refine ⟨s₁.ctrlTo .exited, ?_, rfl, rfl, .inr rfl⟩
    exact (works_deeds [.acquire (.thread .ctrl)]).append ((works_exec hstart).append
      ((works_exec hask).append ((works_thread rfl hexit).append ((works_exec hjoin).append
        (works_deeds [.release (.thread .ctrl)])))))

/-- Whatever fails, there is a run in which the process gets to its end. -/
theorem exists_done (tz : Cpu → Bool) (f : Failures) :
    ∃ s, (moduleLts tz f).Reachable s ∧ s.todo = [] := by
  have hworks : ∃ s', Works tz f (start tz) (program f) s' := by
    rcases hmkdir : f.procMkdir with _ | _
    · rcases hcreate : f.procCreate with _ | _
      · rw [program_of_created hmkdir hcreate]
        obtain ⟨s₁, hstarts, helse₁, hwaits⟩ :=
          works_flatMap (P := fun _ p => p = .absent) (works_startWorker tz f)
            (List.nodup_finRange maxCores) (s := start tz) fun _ _ => rfl
        obtain ⟨s₂, hctrl, hworker, hcallback, hgone⟩ :=
          works_ctrl tz f (helse₁.ctrl.trans rfl) (helse₁.halted.trans rfl)
        have hidle : s₂.callback = .idle := by rw [hcallback, helse₁.callback]; rfl
        have hcall : exec s₂ (.call .stopSampling) = some s₂.delTimer := by
          simp [exec, next, hgone, hidle]
        obtain ⟨s₃, hstops, -⟩ :=
          works_flatMap (P := Waits f) (Q := fun _ _ => True) (works_stopWorker tz f)
            (List.nodup_finRange maxCores) (s := s₂.delTimer) fun i hi => by
              rw [State.delTimer, hworker]
              exact hwaits i hi
        exact ⟨s₃, (((((works_deeds [.acquire .procDir, .use .procDir, .acquire .procFile]).append
          hstarts).append hctrl).append (works_exec hcall)).append hstops).append
            (works_deeds [.use .procDir, .release .procFile, .release .procDir])⟩
      · rw [program_of_procCreate hmkdir hcreate]
        exact ⟨start tz, works_deeds [.acquire .procDir, .use .procDir]⟩
    · rw [program_of_procMkdir hmkdir]
      exact ⟨start tz, works_deeds []⟩
  obtain ⟨s', hworks⟩ := hworks
  have hstart : (moduleLts tz f).Reachable ⟨start tz, program f ++ [], []⟩ := by
    rw [List.append_nil]
    exact .init rfl
  obtain ⟨log, hs⟩ := hworks [] [] hstart
  exact ⟨_, hs, rfl⟩

/-! ## What the module releases -/

/-- In every run the ledger is sound, and settled at the end, exactly if the module copes with
the failures. -/
theorem releases_iff (tz : Cpu → Bool) (f : Failures) :
    (∀ s, (moduleLts tz f).Reachable s → Sound s.log ∧ (s.todo = [] → Settled s.log)) ↔
      f.Harmless := by
  constructor
  · intro h
    obtain ⟨s, hs, hend⟩ := exists_done tz f
    obtain ⟨hsound, hsettled⟩ := h s hs
    exact ((Sys.inv_inductive tz f).reachable hs).done_iff hend |>.mp ⟨hsound, hsettled hend⟩
  · intro hf s hs
    have hinv := (Sys.inv_inductive tz f).reachable hs
    exact ⟨hinv.sound hf, fun hend => ((hinv.done_iff hend).mpr hf).2⟩

/-- `proc_create` fails, and the directory stays. -/
def entryFails : Failures where
  procMkdir := false
  procCreate := true
  kmalloc _ := false
  allocSkcipher _ := none
  requestAlloc _ := false
  kthreadCreate _ := none
  kthreadRun := none

/-- The error return of `mod_init` leaves the directory behind. -/
theorem entryFails_leaves_procDir :
    ¬ ∀ s, (moduleLts (fun _ => false) entryFails).Reachable s →
      Sound s.log ∧ (s.todo = [] → Settled s.log) := by
  intro h
  have hs := Lts.reachable_of_foldlM (.init rfl)
    (rfl : [SysAct.main, SysAct.main].foldlM Sys.next (.start (fun _ => false) entryFails) =
      some _)
  exact absurd ((h _ hs).2 rfl) (by decide)

end CryptoChallenge

end KernelModules
