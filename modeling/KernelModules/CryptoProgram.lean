import KernelModules.CryptoLifetime

/-!
# The program of `crypto_challenge.c`'s process

What `mod_init` and `mod_exit` do, told from the list alone.

* `Failures.Harmless` — the failures the module copes with. The program is safe then, settled,
  and releases what a worker uses after the worker (`safe_program`, `settled_program`,
  `releasedAfter_program`);
* `bad_or_not_settled` — otherwise it uses an error pointer or leaves something behind.
-/

namespace KernelModules

namespace CryptoChallenge

open Ledger ForkJoin

/-! ## The failures the module copes with -/

/-- Nothing fails for a worker, or its buffer already. -/
def Failures.WorkerHarmless (f : Failures) (i : Cpu) : Prop :=
  f.kmalloc i = true ∨
    f.allocSkcipher i = none ∧ f.requestAlloc i = false ∧ f.kthreadCreate i = none

instance (f : Failures) (i : Cpu) : Decidable (f.WorkerHarmless i) :=
  inferInstanceAs (Decidable (_ ∨ _))

/-- The directory is not created, or else the entry and the control thread are, and no worker
fails after its buffer. -/
def Failures.Harmless (f : Failures) : Prop :=
  f.procMkdir = true ∨
    f.procCreate = false ∧ f.kthreadRun = none ∧ ∀ i, f.WorkerHarmless i

instance (f : Failures) : Decidable f.Harmless :=
  inferInstanceAs (Decidable (_ ∨ _))

/-- The worker a resource or a thread belongs to, if it is one's. -/
def Res.owner : Res → Option Cpu
  | .buf i | .tfm i | .req i | .thread (.worker i) => some i
  | .procDir | .procFile | .thread .ctrl | .timer | .bad => none

/-- The worker a thread is, if it is one. -/
def Thread.owner : Thread → Option Cpu
  | .worker i => some i
  | .ctrl => none

/-- What a thread uses. -/
def Thread.needs : Thread → List Res
  | .worker i => [.buf i, .tfm i, .req i]
  | .ctrl => []

theorem owner_of_needs (t : Thread) : ∀ r ∈ t.needs, r.owner = t.owner := by
  cases t with
  | worker i => simp [Thread.needs, Res.owner, Thread.owner]
  | ctrl => simp [Thread.needs]

/-- What is done for a worker before it starts. -/
def beforeWorker (i : Cpu) : List (Deed Res) :=
  [.acquire (.buf i), .use (.buf i), .acquire (.tfm i), .use (.tfm i), .use (.tfm i),
    .acquire (.req i), .acquire (.thread (.worker i))]

/-- What is done for it after it has ended. -/
def afterWorker (i : Cpu) : List (Deed Res) :=
  [.release (.thread (.worker i)), .release (.req i), .release (.tfm i), .release (.buf i)]

section Worker

variable {f : Failures} {i j : Cpu}

theorem startWorker_of_kmalloc (h : f.kmalloc i = true) :
    startWorker f i = ⟨.zero, [], -enomem⟩ := by
  simp [startWorker, h]

/-- A worker for which nothing fails. -/
theorem startWorker_of_ok (hkmalloc : f.kmalloc i = false) (htfm : f.allocSkcipher i = none)
    (hreq : f.requestAlloc i = false) (htask : f.kthreadCreate i = none) :
    startWorker f i = ⟨⟨.obj (.worker i), .obj (.tfm i), .obj (.req i), .obj (.buf i)⟩,
      (beforeWorker i).map .deed ++ [.start (.worker i)], 0⟩ := by
  simp [startWorker, hkmalloc, htfm, hreq, htask, beforeWorker]

/-- `start_worker` and `stop_worker` together do nothing, or start and join their worker. -/
theorem start_stop (h : f.WorkerHarmless i) :
    (startWorker f i).code ++ stopWorker (startWorker f i).worker = [] ∨
      (startWorker f i).code ++ stopWorker (startWorker f i).worker =
        session (beforeWorker i) (.worker i) (afterWorker i) := by
  by_cases hkmalloc : f.kmalloc i = true
  · rw [startWorker_of_kmalloc hkmalloc]
    exact .inl rfl
  · obtain ⟨htfm, hreq, htask⟩ := h.resolve_left hkmalloc
    rw [startWorker_of_ok (Bool.eq_false_of_not_eq_true hkmalloc) htfm hreq htask]
    right
    simp [stopWorker, kthreadStop, free, session, afterWorker]

/-- Whatever `start_worker` and `stop_worker` do is about their worker. -/
theorem about_start_stop (h : f.WorkerHarmless i) (k : Option Cpu) :
    about Res.owner Thread.owner k (startWorker f i).code =
        (if k = some i then (startWorker f i).code else []) ∧
      about Res.owner Thread.owner k (stopWorker (startWorker f i).worker) =
        if k = some i then stopWorker (startWorker f i).worker else [] := by
  by_cases hkmalloc : f.kmalloc i = true
  · rw [startWorker_of_kmalloc hkmalloc]
    simp [stopWorker, Worker.zero, about]
  · obtain ⟨htfm, hreq, htask⟩ := h.resolve_left hkmalloc
    rw [startWorker_of_ok (Bool.eq_false_of_not_eq_true hkmalloc) htfm hreq htask]
    by_cases hk : k = some i
    · simp [about, beforeWorker, stopWorker, kthreadStop, free, Instr.part, Res.owner,
        Thread.owner, Deed.res, hk]
    · have hk' : some i ≠ k := fun h => hk h.symm
      simp [about, beforeWorker, stopWorker, kthreadStop, free, Instr.part, Res.owner,
        Thread.owner, Deed.res, hk, hk']

end Worker

section Program

variable {f : Failures}

/-- The program when the directory cannot be created. -/
theorem program_of_procMkdir (h : f.procMkdir = true) : program f = [] := by
  simp [program, modInit, h, enomem]

/-- The program when the directory is there, but not the entry. -/
theorem program_of_procCreate (hmkdir : f.procMkdir = false) (hcreate : f.procCreate = true) :
    program f = [.deed (.acquire .procDir), .deed (.use .procDir)] := by
  simp [program, modInit, hmkdir, hcreate, enomem]

/-- What is done for the control thread. -/
def ctrlCode (f : Failures) : Code :=
  match f.kthreadRun with
  | some _ => [.deed (.use .bad)]
  | none => [.deed (.acquire (.thread .ctrl)), .start .ctrl, .ask .ctrl, .join .ctrl,
      .deed (.release (.thread .ctrl))]

/-- The program when the proc entries are created. -/
theorem program_of_created (hmkdir : f.procMkdir = false) (hcreate : f.procCreate = false) :
    program f =
      [.deed (.acquire .procDir), .deed (.use .procDir), .deed (.acquire .procFile)] ++
        ((List.finRange maxCores).flatMap fun i => (startWorker f i).code) ++ ctrlCode f ++
        [.call .stopSampling] ++
        ((List.finRange maxCores).flatMap fun i => stopWorker (startWorker f i).worker) ++
        [.deed (.use .procDir), .deed (.release .procFile), .deed (.release .procDir)] := by
  rcases hctrl : f.kthreadRun with _ | errno <;>
    simp [program, modInit, modExit, kthreadStop, free, ctrlCode, hmkdir, hcreate, hctrl]

/-- Of what is done for each worker, that for one. -/
theorem about_each {g : Cpu → Code}
    (hg : ∀ i k, about Res.owner Thread.owner k (g i) = if k = some i then g i else [])
    (k : Option Cpu) :
    about Res.owner Thread.owner k ((List.finRange maxCores).flatMap g) = k.elim [] g := by
  cases k with
  | none =>
    rw [about_flatMap (List.nodup_finRange _) (List.mem_finRange core0)]
    · rw [hg core0 none, if_neg (by simp)]
      rfl
    · intro j _
      rw [hg j none, if_neg (by simp)]
  | some i =>
    rw [about_flatMap (List.nodup_finRange _) (List.mem_finRange i)]
    · rw [hg i (some i), if_pos rfl]
      rfl
    · intro j hj
      rw [hg j (some i), if_neg]
      exact fun hij => hj (Option.some.inj hij).symm

/-- What is done before the control thread starts, for no worker. -/
def beforeCtrl : List (Deed Res) :=
  [.acquire .procDir, .use .procDir, .acquire .procFile, .acquire (.thread .ctrl)]

/-- What is done after it has ended. -/
def afterCtrl : List (Deed Res) :=
  [.release (.thread .ctrl), .use .procDir, .release .procFile, .release .procDir]

/-- Where the module copes with the failures, what of the program is about one thing is nothing,
or starts and joins one thread. -/
theorem about_program (h : f.Harmless) (k : Option Cpu) :
    about Res.owner Thread.owner k (program f) = [] ∨
      k = none ∧
        about Res.owner Thread.owner k (program f) = session beforeCtrl .ctrl afterCtrl ∨
      ∃ i, k = some i ∧ about Res.owner Thread.owner k (program f) =
        session (beforeWorker i) (.worker i) (afterWorker i) := by
  rcases hmkdir : f.procMkdir with _ | _
  · obtain ⟨hcreate, hctrl, hworkers⟩ := h.resolve_left (by simp [hmkdir])
    have hstarts := about_each (fun i k => (about_start_stop (hworkers i) k).1) k
    have hstops := about_each (fun i k => (about_start_stop (hworkers i) k).2) k
    rw [program_of_created hmkdir hcreate, ctrlCode, hctrl]
    simp only [about_append]
    rw [hstarts, hstops]
    cases k with
    | none =>
      right; left
      refine ⟨rfl, ?_⟩
      simp [about, Instr.part, Deed.res, Res.owner, Thread.owner, session, beforeCtrl, afterCtrl]
    | some i =>
      refine (start_stop (hworkers i)).imp (fun hnil => ?_) fun hsession => .inr ⟨i, rfl, ?_⟩
      · refine Eq.trans ?_ hnil
        simp [about, Instr.part, Deed.res, Res.owner, Thread.owner]
      · refine Eq.trans ?_ hsession
        simp [about, Instr.part, Deed.res, Res.owner, Thread.owner]
  · rw [program_of_procMkdir hmkdir]
    exact .inl rfl

theorem lawful_worker : ∀ i, Lawful (beforeWorker i ++ afterWorker i) := by
  decide

theorem owned_worker : ∀ i, ∀ r ∈ (Thread.worker i).needs, Owned (beforeWorker i) r := by
  decide

theorem settled_worker : ∀ i, Settled (beforeWorker i ++ afterWorker i) := by
  decide

/-- Where the module copes with the failures, the program is safe. -/
theorem safe_program (h : f.Harmless) : Safe Thread.needs (program f) := by
  refine safe_of_parts owner_of_needs fun k => ?_
  rcases about_program h k with hnil | ⟨-, hctrl⟩ | ⟨i, -, hworker⟩
  · rw [hnil]
    exact safe_nil
  · rw [hctrl]
    exact safe_session (by decide) (by simp [Thread.needs])
  · rw [hworker]
    exact safe_session (lawful_worker i) (owned_worker i)

/-- It releases exactly once what it acquires. -/
theorem settled_program (h : f.Harmless) : Settled (deeds (program f)) := by
  refine settled_of_parts Res.owner Thread.owner fun k => ?_
  rcases about_program h k with hnil | ⟨-, hctrl⟩ | ⟨i, -, hworker⟩
  · rw [hnil]
    exact fun r hr => by cases hr
  · rw [hctrl, deeds_session]
    decide
  · rw [hworker, deeds_session]
    exact settled_worker i

/-- What a worker needs is released after it has ended. -/
theorem releasedAfter_program (h : f.Harmless) {i : Cpu} {r : Res}
    (hr : r ∈ (Thread.worker i).needs) :
    ReleasedAfter (moves (deeds (program f))) (.thread (.worker i)) r := by
  have howner : r.owner = some i := owner_of_needs (.worker i) r hr
  refine releasedAfter_of_part Res.owner Thread.owner ?_
  rw [howner]
  rcases about_program h (some i) with hnil | ⟨hnone, -⟩ | ⟨j, hj, hworker⟩
  · rw [hnil]
    exact releasedAfter_nil _ _
  · cases hnone
  · obtain rfl : i = j := Option.some.inj hj
    have hne : Res.thread (.worker i) ≠ r := by
      rintro rfl
      simp [Thread.needs] at hr
    rw [hworker, deeds_session]
    simp [moves, beforeWorker, afterWorker, List.filter_cons, Deed.isMove,
      releasedAfter_cons hne]

/-- What is done for a worker is about that worker, or uses an error pointer. -/
theorem deeds_worker (f : Failures) (i : Cpu) :
    (∀ d ∈ deeds (startWorker f i).code, d.res.owner = some i) ∧
      ∀ d ∈ deeds (stopWorker (startWorker f i).worker),
        d = .use .bad ∨ d.res.owner = some i := by
  rcases hkmalloc : f.kmalloc i with _ | _
  · rcases htfm : f.allocSkcipher i with _ | errno
    · rcases hreq : f.requestAlloc i with _ | _
      · rcases htask : f.kthreadCreate i with _ | errno <;>
          simp [startWorker, stopWorker, kthreadStop, free, hkmalloc, htfm, hreq, htask,
            Instr.deeds, Deed.res, Res.owner]
      · simp [startWorker, stopWorker, hkmalloc, htfm, hreq, Instr.deeds, Deed.res, Res.owner,
          Worker.zero]
    · simp [startWorker, stopWorker, hkmalloc, htfm, Instr.deeds, Deed.res, Res.owner,
        Worker.zero]
  · simp [startWorker, stopWorker, hkmalloc, Worker.zero]

/-- The deeds of the program, if the proc entries are created. -/
theorem mem_deeds_program (hmkdir : f.procMkdir = false) (hcreate : f.procCreate = false)
    {d : Deed Res} :
    d ∈ deeds (program f) ↔
      d ∈ [.acquire .procDir, .use .procDir, .acquire .procFile] ∨
        (∃ i, d ∈ deeds (startWorker f i).code) ∨ d ∈ deeds (ctrlCode f) ∨
        (∃ i, d ∈ deeds (stopWorker (startWorker f i).worker)) ∨
        d ∈ [.use .procDir, .release .procFile, .release .procDir] := by
  rw [program_of_created hmkdir hcreate]
  simp only [mem_deeds, List.mem_append, List.mem_flatMap, List.mem_finRange, true_and]
  simp [or_assoc]

/-- The module's process acquires no error pointer, and leaves the timer to `stop_sampling`. -/
theorem plain_program {d : Deed Res} (hd : d ∈ deeds (program f)) :
    d ≠ .acquire .bad ∧ d.res ≠ .timer := by
  have howned : ∀ {i}, d.res.owner = some i → d ≠ .acquire .bad ∧ d.res ≠ .timer := by
    intro i howner
    refine ⟨fun hbad => ?_, fun htimer => ?_⟩
    · rw [hbad] at howner
      cases howner
    · rw [htimer] at howner
      cases howner
  rcases hmkdir : f.procMkdir with _ | _
  · rcases hcreate : f.procCreate with _ | _
    · rcases (mem_deeds_program hmkdir hcreate).mp hd with hd | ⟨i, hd⟩ | hd | ⟨i, hd⟩ | hd
      · simp only [List.mem_cons, List.not_mem_nil, or_false] at hd
        rcases hd with rfl | rfl | rfl <;> decide
      · exact howned ((deeds_worker f i).1 d hd)
      · rw [ctrlCode] at hd
        split at hd
        · obtain rfl : d = .use .bad := by simpa [Instr.deeds] using hd
          decide
        · simp only [deeds_cons, Instr.deeds, deeds_nil, List.nil_append, List.append_nil,
            List.cons_append, List.mem_cons, List.not_mem_nil, or_false] at hd
          rcases hd with rfl | rfl <;> decide
      · rcases (deeds_worker f i).2 d hd with rfl | howner
        · decide
        · exact howned howner
      · simp only [List.mem_cons, List.not_mem_nil, or_false] at hd
        rcases hd with rfl | rfl | rfl <;> decide
    · rw [program_of_procCreate hmkdir hcreate] at hd
      simp only [deeds_cons, Instr.deeds, deeds_nil, List.nil_append, List.append_nil,
        List.cons_append, List.mem_cons, List.not_mem_nil, or_false] at hd
      rcases hd with rfl | rfl <;> decide
  · rw [program_of_procMkdir hmkdir] at hd
    cases hd

/-! ## What goes wrong -/

/-- A worker whose `start_worker` returns half-way leaves its buffer behind. -/
theorem release_buf_not_mem {i : Cpu} (hmkdir : f.procMkdir = false)
    (hcreate : f.procCreate = false) (hkmalloc : f.kmalloc i = false)
    (hfails : f.allocSkcipher i ≠ none ∨ f.requestAlloc i = true) :
    .acquire (.buf i) ∈ deeds (program f) ∧ .release (.buf i) ∉ deeds (program f) := by
  have hstart : .acquire (.buf i) ∈ deeds (startWorker f i).code ∧
      .release (.buf i) ∉ deeds (startWorker f i).code ∧
      stopWorker (startWorker f i).worker = [] := by
    rcases htfm : f.allocSkcipher i with _ | errno
    · have hreq := hfails.resolve_left (by simp [htfm])
      simp [startWorker, stopWorker, hkmalloc, htfm, hreq, Instr.deeds, Worker.zero]
    · simp [startWorker, stopWorker, hkmalloc, htfm, Instr.deeds, Worker.zero]
  obtain ⟨hacquire, hrelease, hstop⟩ := hstart
  refine ⟨(mem_deeds_program hmkdir hcreate).mpr (.inr (.inl ⟨i, hacquire⟩)), fun hd => ?_⟩
  rcases (mem_deeds_program hmkdir hcreate).mp hd with hd | ⟨j, hd⟩ | hd | ⟨j, hd⟩ | hd
  · simp at hd
  · have howner := (deeds_worker f j).1 _ hd
    obtain rfl : i = j := Option.some.inj howner
    exact hrelease hd
  · rw [ctrlCode] at hd
    split at hd <;> simp [Instr.deeds] at hd
  · rcases (deeds_worker f j).2 _ hd with hbad | howner
    · cases hbad
    · obtain rfl : i = j := Option.some.inj howner
      rw [hstop] at hd
      cases hd
  · simp at hd

/-- If the module does not cope with the failures, its process uses an error pointer or leaves
something behind. -/
theorem bad_or_not_settled (h : ¬ f.Harmless) :
    .use .bad ∈ deeds (program f) ∨ ¬ Settled (deeds (program f)) := by
  obtain ⟨hmkdir, h⟩ := not_or.mp h
  have hmkdir := Bool.eq_false_of_not_eq_true hmkdir
  rcases hcreate : f.procCreate with _ | _
  · rcases hctrl : f.kthreadRun with _ | errno
    · obtain ⟨i, hi⟩ : ∃ i, ¬ f.WorkerHarmless i := by
        by_contra hall
        exact h ⟨hcreate, hctrl, not_exists_not.mp hall⟩
      obtain ⟨hkmalloc, hi⟩ := not_or.mp hi
      have hkmalloc := Bool.eq_false_of_not_eq_true hkmalloc
      by_cases hfails : f.allocSkcipher i ≠ none ∨ f.requestAlloc i = true
      · right
        intro hsettled
        obtain ⟨hacquire, hrelease⟩ := release_buf_not_mem hmkdir hcreate hkmalloc hfails
        have hcount := hsettled _ hacquire
        rw [List.count_eq_zero.mpr hrelease] at hcount
        cases hcount
      · left
        obtain ⟨htfm, hreq⟩ := not_or.mp hfails
        have htfm := not_not.mp htfm
        have hreq := Bool.eq_false_of_not_eq_true hreq
        obtain ⟨errno, htask⟩ := Option.ne_none_iff_exists'.mp fun htask => hi ⟨htfm, hreq, htask⟩
        refine (mem_deeds_program hmkdir hcreate).mpr (.inr (.inr (.inr (.inl ⟨i, ?_⟩))))
        simp [startWorker, stopWorker, kthreadStop, hkmalloc, htfm, hreq, htask, Instr.deeds]
    · left
      refine (mem_deeds_program hmkdir hcreate).mpr (.inr (.inr (.inl ?_)))
      simp [ctrlCode, hctrl, Instr.deeds]
  · right
    rw [program_of_procCreate hmkdir hcreate]
    decide

end Program

end CryptoChallenge

end KernelModules
