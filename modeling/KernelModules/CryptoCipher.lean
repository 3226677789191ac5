import KernelModules.CryptoSamples
import Mathlib.Algebra.Order.BigOperators.Group.Finset

/-!
# The cipher of `crypto_challenge.c`

What the workers call is not in the module: `crypto_skcipher_encrypt` may fail, and as the cipher
is allocated with mask 0 it may also be an asynchronous one, which returns at once and completes
later. `worker_fn` does not look at what `do_crypto` returns, nor `start_worker` at what
`crypto_skcipher_setkey` returns.

* `CipherState`, `nextCipher` — the threads and their calls of the cipher, with every result in
  the label of the step;
* `StepAt` — what a step means to one worker;
* `CallInv` — each worker has counted all its calls but the one it is about to count;
* `CountsDone` — a request is counted once it has completed with 0;
* `counted_when_done` — the operations counted are those that happened, as long as that is so,
  and only then.
-/

namespace KernelModules

namespace CryptoChallenge

variable {tz : Cpu → Bool}

/-! ## The calls -/

/-- What `crypto_skcipher_encrypt` returns. -/
inductive Returned where
  /-- 0 -/
  | zero
  /-- some other error -/
  | error
  /-- `-EINPROGRESS` -/
  | inProgress
  /-- `-EBUSY` -/
  | busy
  deriving DecidableEq

/-- What has become of a request that was submitted. -/
inductive Submission where
  /-- the request is still in progress -/
  | pending
  /-- completed with 0 -/
  | done
  /-- completed with an error -/
  | failed
  deriving DecidableEq

/-- A request after the call has returned. -/
def Returned.submission : Returned → Submission
  | .zero => .done
  | .error => .failed
  | .inProgress | .busy => .pending

/-- What the calls in `start_worker` return; `true` is success. -/
structure Results where
  /-- `kmalloc` -/
  buf : Bool
  /-- `crypto_alloc_skcipher` -/
  tfm : Bool
  /-- `crypto_skcipher_setkey` -/
  setkey : Bool
  /-- `skcipher_request_alloc` -/
  req : Bool
  /-- `kthread_create` -/
  task : Bool
  deriving DecidableEq

/-- `start_worker` gets to `wake_up_process`. -/
def Results.wakes (r : Results) : Bool := r.buf && r.tfm && r.req && r.task

/-- The threads, and the requests each worker has submitted, the latest one first. -/
structure CipherState where
  /-- the threads -/
  threads : State
  /-- the requests -/
  submissions : Cpu → List Submission

/-- The step taken next. -/
inductive CipherAct where
  /-- a step of the threads in which no cipher is called -/
  | thread (a : Act)
  /-- `do_crypto` -/
  | doCrypto (i : Cpu) (r : Returned)
  /-- a request that is in progress completes -/
  | complete (i : Cpu) (k : ℕ) (ok : Bool)
  /-- `start_worker` -/
  | startWorker (i : Cpu) (r : Results)
  deriving DecidableEq

/-- A step in which a cipher is called. -/
def Act.callsCipher (s : State) : Act → Bool
  | .worker i => s.worker i = .crypto
  | .wake _ => true
  | _ => false

/-- A worker submits its request. -/
def CipherState.submit (s : CipherState) (i : Cpu) (c : Submission) : CipherState :=
  ⟨s.threads.workerTo i .inc, Function.update s.submissions i (c :: s.submissions i)⟩

/-- One of its requests has completed. -/
def CipherState.complete (s : CipherState) (i : Cpu) (k : ℕ) (c : Submission) : CipherState :=
  { s with submissions := Function.update s.submissions i ((s.submissions i).set k c) }

/-- One step. -/
def nextCipher (s : CipherState) : CipherAct → Option CipherState
  | .thread a =>
    if a.callsCipher s.threads then none
    else (next s.threads a).map fun t => { s with threads := t }
  | .doCrypto i r =>
    if s.threads.worker i = .crypto then
      some (s.submit i r.submission)
    else none
  | .complete i k ok =>
    if (s.submissions i)[k]? = some .pending then
      some (s.complete i k (if ok then .done else .failed))
    else none
  | .startWorker i r =>
    if s.threads.worker i = .absent then
      some (if r.wakes then { s with threads := s.threads.workerTo i .top } else s)
    else none

/-- Nothing has been submitted. -/
def cipherStart (tz : Cpu → Bool) : CipherState := ⟨start tz, fun _ => []⟩

/-- The threads with their cipher as a transition system. -/
abbrev cipherLts (tz : Cpu → Bool) : Lts CipherState CipherAct :=
  Lts.ofNext (cipherStart tz) nextCipher

/-- How many requests have completed with 0. -/
def CipherState.completed (s : CipherState) : ℕ := ∑ i, (s.submissions i).count .done

/-- No more is counted than has happened, and no worker is about to submit its request while an
earlier submission is in progress. -/
structure CipherState.Sound (s : CipherState) : Prop where
  /-- `ops` -/
  ops : s.threads.ctx.ops.toNat ≤ s.completed
  /-- the request -/
  req : ∀ i, s.threads.worker i = .crypto → .pending ∉ s.submissions i

/-! ## What a step can do -/

/-- The steps of `nextCipher`. -/
inductive CipherStep (s : CipherState) : CipherAct → CipherState → Prop where
  /-- of the threads -/
  | thread {a : Act} {t : State} : a.callsCipher s.threads = false → next s.threads a = some t →
      CipherStep s (.thread a) { s with threads := t }
  /-- `do_crypto` -/
  | doCrypto {i : Cpu} {r : Returned} : s.threads.worker i = .crypto →
      CipherStep s (.doCrypto i r) (s.submit i r.submission)
  /-- a completion -/
  | complete {i : Cpu} {k : ℕ} {ok : Bool} : (s.submissions i)[k]? = some .pending →
      CipherStep s (.complete i k ok) (s.complete i k (if ok then .done else .failed))
  /-- `start_worker` succeeds -/
  | started {i : Cpu} {r : Results} : s.threads.worker i = .absent → r.wakes = true →
      CipherStep s (.startWorker i r) { s with threads := s.threads.workerTo i .top }
  /-- it fails -/
  | notStarted {i : Cpu} {r : Results} : s.threads.worker i = .absent → r.wakes = false →
      CipherStep s (.startWorker i r) s

theorem cipherStep_of_next {s s' : CipherState} {a : CipherAct} (h : nextCipher s a = some s') :
    CipherStep s a s' := by
  cases a with
  | thread a =>
    obtain ⟨hcipher, h⟩ := Option.ite_none_left_eq_some.mp h
    obtain ⟨t, ht, rfl⟩ := Option.map_eq_some_iff.mp h
    exact .thread (Bool.eq_false_of_not_eq_true hcipher) ht
  | doCrypto i r =>
    obtain ⟨hp, h⟩ := Option.ite_none_right_eq_some.mp h
    cases h
    exact .doCrypto hp
  | complete i k ok =>
    obtain ⟨hk, h⟩ := Option.ite_none_right_eq_some.mp h
    cases h
    exact .complete hk
  | startWorker i r =>
    obtain ⟨hp, h⟩ := Option.ite_none_right_eq_some.mp h
    cases hwakes : r.wakes <;> rw [hwakes] at h <;> cases h
    · exact .notStarted hp hwakes
    · exact .started hp hwakes

/-- Without the calls it is a run of the threads. -/
theorem threads_reachable {s : CipherState} (hs : (cipherLts tz).Reachable s) :
    (lts tz).Reachable s.threads := by
  induction hs with
  | init hi =>
    cases hi
    exact .init rfl
  | @step s s' a _ hstep ih =>
    cases cipherStep_of_next hstep with
    | thread _ ht => exact ih.step ht
    | @doCrypto i _ hp =>
      refine ih.step (a := .worker i) ?_
      change workerNext s.threads i = _
      rw [workerNext, hp]
      rfl
    | complete _ | notStarted _ _ => exact ih
    | @started i _ hp _ =>
      refine ih.step (a := .wake i) ?_
      change (if s.threads.worker i = .absent then _ else _) = _
      rw [if_pos hp]

theorem State.workerTo_incs (s : State) (i : Cpu) (p : WorkerPc) :
    (s.workerTo i p).incs = s.incs := rfl

/-- In a step without the cipher a worker counts its request, or it does not. -/
theorem Step.inc_cases {s s' : State} {a : Act} (hs : Step s a s')
    (hcipher : a.callsCipher s = false) (j : Cpu) :
    ((s'.worker j = .inc ↔ s.worker j = .inc) ∧ s'.incs j = s.incs j) ∨
      (a = .worker j ∧ s.worker j = .inc ∧ s'.worker j = .top ∧ s'.incs j = s.incs j + 1) := by
  cases hs with
  | @worker i s' hw =>
    by_cases hj : j = i
    · subst hj
      cases hw with
      | crypto hp => simp [Act.callsCipher, hp] at hcipher
      | inc hp => exact .inr ⟨rfl, hp, by simp, by simp⟩
      | exit hp _ | go hp _ | on hp _ | off hp _ =>
        refine .inl ⟨?_, rfl⟩
        rw [State.workerTo_worker_self, hp]
        simp
    · refine .inl ⟨?_, ?_⟩
      · cases hw <;> simp [State.workerTo_worker_of_ne _ _ hj]
      · cases hw with
        | inc _ => exact State.counted_incs_of_ne _ hj
        | _ => rfl
  | ctrl hs =>
    obtain ⟨hworker, hincs, -⟩ := hs.worker
    exact .inl ⟨by rw [hworker], by rw [hincs]⟩
  | fire hs | callback hs =>
    obtain ⟨hworker, hincs, -⟩ := hs.worker
    exact .inl ⟨by rw [hworker], by rw [hincs]⟩
  | wake _ => cases hcipher
  | runCtrl _ _ | askWorker | askCtrl | delTimer _ _ => exact .inl ⟨Iff.rfl, rfl⟩

/-! ## The requests and what is counted -/

/-- The requests that a worker has counted. -/
def CipherState.counted (s : CipherState) (i : Cpu) : List Submission :=
  if s.threads.worker i = .inc then (s.submissions i).tail else s.submissions i

/-- Every request is counted once, after it was submitted. -/
def CallInv (s : CipherState) : Prop :=
  ∀ i, (s.submissions i).length =
    s.threads.incs i + if s.threads.worker i = .inc then 1 else 0

theorem CipherState.length_counted {s : CipherState} (h : CallInv s) (i : Cpu) :
    (s.counted i).length = s.threads.incs i := by
  have hlength := h i
  rw [CipherState.counted]
  split
  · next hp =>
    rw [if_pos hp] at hlength
    rw [List.length_tail, hlength, Nat.add_sub_cancel]
  · next hp =>
    rw [if_neg hp] at hlength
    exact hlength

section Submit

variable (s : CipherState) {i j : Cpu}

@[simp]
theorem CipherState.submit_worker_self (c : Submission) :
    (s.submit i c).threads.worker i = .inc := by
  simp [CipherState.submit]

theorem CipherState.submit_worker_of_ne (c : Submission) (h : j ≠ i) :
    (s.submit i c).threads.worker j = s.threads.worker j := by
  simp [CipherState.submit, State.workerTo_worker_of_ne _ _ h]

@[simp]
theorem CipherState.submit_incs (c : Submission) :
    (s.submit i c).threads.incs = s.threads.incs := rfl

@[simp]
theorem CipherState.submit_submissions_self (c : Submission) :
    (s.submit i c).submissions i = c :: s.submissions i := by
  simp [CipherState.submit]

theorem CipherState.submit_submissions_of_ne (c : Submission) (h : j ≠ i) :
    (s.submit i c).submissions j = s.submissions j := by
  simp [CipherState.submit, h]

@[simp]
theorem CipherState.complete_threads (k : ℕ) (c : Submission) :
    (s.complete i k c).threads = s.threads := rfl

@[simp]
theorem CipherState.complete_submissions_self (k : ℕ) (c : Submission) :
    (s.complete i k c).submissions i = (s.submissions i).set k c := by
  simp [CipherState.complete]

theorem CipherState.complete_submissions_of_ne (k : ℕ) (c : Submission) (h : j ≠ i) :
    (s.complete i k c).submissions j = s.submissions j := by
  simp [CipherState.complete, h]

end Submit

/-- What a step means to one worker: to its place, its requests and what it has counted. -/
inductive StepAt (s s' : CipherState) (a : CipherAct) (j : Cpu) : Prop where
  /-- nothing -/
  | same : s'.submissions j = s.submissions j →
      (s'.threads.worker j = .inc ↔ s.threads.worker j = .inc) →
      s'.threads.incs j = s.threads.incs j → StepAt s s' a j
  /-- it counts its latest request -/
  | counts : a = .thread (.worker j) → s'.submissions j = s.submissions j →
      s.threads.worker j = .inc → s'.threads.worker j ≠ .inc →
      s'.threads.incs j = s.threads.incs j + 1 → StepAt s s' a j
  /-- it submits a request -/
  | submits {c : Submission} : s'.submissions j = c :: s.submissions j →
      s.threads.worker j ≠ .inc → s'.threads.worker j = .inc →
      s'.threads.incs j = s.threads.incs j → StepAt s s' a j
  /-- one of its requests completes -/
  | completes {k : ℕ} {c : Submission} : (s.submissions j)[k]? = some .pending →
      s'.submissions j = (s.submissions j).set k c →
      s'.threads.worker j = s.threads.worker j →
      s'.threads.incs j = s.threads.incs j → StepAt s s' a j

theorem CipherStep.stepAt {s s' : CipherState} {a : CipherAct} (hs : CipherStep s a s')
    (j : Cpu) : StepAt s s' a j := by
  cases hs with
  | thread hcipher ht =>
    rcases (step_of_next ht).inc_cases hcipher j with ⟨hiff, hincs⟩ | ⟨rfl, hp, hp', hincs⟩
    · exact .same rfl hiff hincs
    · exact .counts rfl rfl hp (by simp [hp']) hincs
  | @doCrypto i r hp =>
    by_cases hj : j = i
    · subst hj
      exact .submits (s.submit_submissions_self _) (by simp [hp]) (s.submit_worker_self _)
        (by rw [s.submit_incs])
    · exact .same (s.submit_submissions_of_ne _ hj) (by rw [s.submit_worker_of_ne _ hj])
        (by rw [s.submit_incs])
  | @complete i k ok hk =>
    by_cases hj : j = i
    · subst hj
      exact .completes hk (s.complete_submissions_self _ _) (by rw [s.complete_threads])
        (by rw [s.complete_threads])
    · exact .same (s.complete_submissions_of_ne _ _ hj) (by rw [s.complete_threads])
        (by rw [s.complete_threads])
  | @started i r hp _ =>
    refine .same rfl ?_ (by rw [State.workerTo_incs])
    by_cases hj : j = i
    · subst hj
      simp [hp]
    · rw [State.workerTo_worker_of_ne _ _ hj]
  | notStarted _ _ => exact .same rfl Iff.rfl rfl

theorem CallInv.step {s s' : CipherState} {a : CipherAct} (h : CallInv s)
    (hs : CipherStep s a s') : CallInv s' := by
  intro j
  have hlength := h j
  cases hs.stepAt j with
  | same hsubs hiff hincs =>
    simp only [hsubs, hiff, hincs]
    exact hlength
  | counts _ hsubs hp hp' hincs =>
    rw [if_pos hp] at hlength
    rw [hsubs, hincs, if_neg hp']
    exact hlength
  | submits hsubs hp hp' hincs =>
    rw [if_neg hp] at hlength
    rw [hsubs, hincs, if_pos hp', List.length_cons, hlength]
  | completes _ hsubs hp hincs =>
    rw [hsubs, hp, hincs, List.length_set]
    exact hlength

theorem callInv_inductive (tz : Cpu → Bool) : (cipherLts tz).Inductive CallInv where
  init hi := by
    cases hi
    exact fun _ => rfl
  step h hs := h.step (cipherStep_of_next hs)

/-! ## Calls that are counted once they have completed -/

/-- A worker counts its latest request only if it has completed with 0. -/
def CountsDone (s : CipherState) : CipherAct → Prop
  | .thread (.worker i) => s.threads.worker i = .inc → (s.submissions i).head? = some .done
  | _ => True

instance (s : CipherState) (a : CipherAct) : Decidable (CountsDone s a) := by
  unfold CountsDone
  split <;> infer_instance

/-- All that is counted has completed with 0. -/
def DoneInv (s : CipherState) : Prop := ∀ i, ∀ c ∈ s.counted i, c = .done

/-- A step that leaves the requests and the place of a worker leaves what it has counted. -/
theorem CipherState.counted_congr {s s' : CipherState} {i : Cpu}
    (hsubmissions : s'.submissions i = s.submissions i)
    (hiff : s'.threads.worker i = .inc ↔ s.threads.worker i = .inc) :
    s'.counted i = s.counted i := by
  rw [CipherState.counted, CipherState.counted, hsubmissions]
  simp only [hiff]

theorem CipherState.counted_of_ne {s : CipherState} {i : Cpu} (h : s.threads.worker i ≠ .inc) :
    s.counted i = s.submissions i := if_neg h

theorem CipherState.counted_of_inc {s : CipherState} {i : Cpu} (h : s.threads.worker i = .inc) :
    s.counted i = (s.submissions i).tail := if_pos h

/-- What has completed with 0 does not complete again. -/
theorem CipherState.counted_of_completes {s s' : CipherState} {i : Cpu} {k : ℕ} {c : Submission}
    (h : ∀ c ∈ s.counted i, c = .done) (hk : (s.submissions i)[k]? = some .pending)
    (hsubs : s'.submissions i = (s.submissions i).set k c)
    (hp' : s'.threads.worker i = s.threads.worker i) : s'.counted i = s.counted i := by
  by_cases hp : s.threads.worker i = .inc
  · rw [CipherState.counted_of_inc hp] at h ⊢
    rw [CipherState.counted_of_inc (hp'.trans hp), hsubs]
    cases hcs : s.submissions i with
    | nil => rfl
    | cons c' cs =>
      cases k with
      | zero => rfl
      | succ k =>
        rw [hcs, List.getElem?_cons_succ] at hk
        rw [hcs] at h
        cases h _ (List.mem_of_getElem? hk)
  · rw [CipherState.counted_of_ne hp] at h
    cases h _ (List.mem_of_getElem? hk)

theorem DoneInv.step {s s' : CipherState} {a : CipherAct} (h : DoneInv s)
    (ha : CountsDone s a) (hs : CipherStep s a s') : DoneInv s' := by
  intro j
  have hdone := h j
  cases hs.stepAt j with
  | same hsubs hiff _ =>
    rw [CipherState.counted_congr hsubs hiff]
    exact hdone
  | counts haction hsubs hp hp' _ =>
    subst haction
    rw [CipherState.counted_of_inc hp] at hdone
    rw [CipherState.counted_of_ne hp', hsubs]
    obtain ⟨cs, hcs⟩ := List.head?_eq_some_iff.mp (ha hp)
    rw [hcs] at hdone ⊢
    exact List.forall_mem_cons.mpr ⟨rfl, hdone⟩
  | submits hsubs hp hp' _ =>
    rw [CipherState.counted_of_ne hp] at hdone
    rw [CipherState.counted_of_inc hp', hsubs]
    exact hdone
  | completes hk hsubs hp' _ =>
    rw [CipherState.counted_of_completes hdone hk hsubs hp']
    exact hdone

theorem doneInv_inductive (tz : Cpu → Bool) :
    ((cipherLts tz).restrict CountsDone).Inductive fun s => CallInv s ∧ DoneInv s :=
  ((callInv_inductive tz).restrict _).and
    (fun hi => by
      cases hi
      rintro i c ⟨⟩)
    fun _ h hs => h.step hs.1 (cipherStep_of_next hs.2)

/-- `ops` is what the workers have counted, or less. -/
theorem ops_le_total {s : CipherState} (hs : (cipherLts tz).Reachable s) :
    s.threads.ctx.ops.toNat ≤ s.threads.total := by
  rw [((sampleInv_inductive tz).reachable (threads_reachable hs)).ops.ops, UInt64.toNat_ofNat']
  exact Nat.mod_le _ _

/-- What is counted has happened, if it has completed. -/
theorem sound_of_done {s : CipherState} (hs : (cipherLts tz).Reachable s) (hcall : CallInv s)
    (hdone : DoneInv s) : s.Sound where
  ops := by
    refine Nat.le_trans (ops_le_total hs) (Finset.sum_le_sum fun i _ => ?_)
    have hsub : (s.counted i).Sublist (s.submissions i) := by
      rw [CipherState.counted]
      split
      · exact List.tail_sublist _
      · exact List.Sublist.refl _
    calc s.threads.incs i = (s.counted i).length := (s.length_counted hcall i).symm
      _ = (s.counted i).count .done :=
        (List.count_eq_length.mpr fun c hc => (hdone i c hc).symm).symm
      _ ≤ (s.submissions i).count .done := hsub.count_le .done
  req i hp hpending := by
    have hmem := hdone i .pending
    rw [CipherState.counted_of_ne (by simp [hp])] at hmem
    cases hmem hpending

/-! ## Calls that are counted before -/

/-- Whatever is about to be counted the workers can count. -/
theorem exists_run_counted (tz : Cpu → Bool) (s : CipherState) (is : List Cpu) :
    ∃ as s', (cipherLts tz).Run s as s' ∧ s'.submissions = s.submissions ∧
      (∀ j ∈ is, s'.threads.worker j ≠ .inc) ∧
      ∀ j, s.threads.worker j ≠ .inc → s'.threads.worker j ≠ .inc := by
  induction is with
  | nil => exact ⟨[], s, .nil, rfl, fun j hj => absurd hj List.not_mem_nil, fun _ hj => hj⟩
  | cons i is ih =>
    obtain ⟨as, s', hr, hsubmissions, hleft, hkept⟩ := ih
    by_cases hp : s'.threads.worker i = .inc
    · have hs : nextCipher s' (.thread (.worker i)) =
          some { s' with threads := s'.threads.counted i } := by
        simp [nextCipher, Act.callsCipher, next, workerNext, hp]
      have hworker : ∀ j, s'.threads.worker j ≠ .inc →
          (s'.threads.counted i).worker j ≠ .inc := by
        intro j hj
        have hne : j ≠ i := fun hji => hj (hji ▸ hp)
        rw [State.counted_worker, State.workerTo_worker_of_ne _ _ hne]
        exact hj
      refine ⟨_, _, hr.snoc hs, hsubmissions, List.forall_mem_cons.mpr ⟨?_, ?_⟩, ?_⟩
      · simp
      · exact fun j hj => hworker j (hleft j hj)
      · exact fun j hj => hworker j (hkept j hj)
    · exact ⟨as, s', hr, hsubmissions, List.forall_mem_cons.mpr ⟨hp, hleft⟩, hkept⟩

/-- A worker that is not about to count has counted all of its requests. -/
theorem CallInv.length_eq {s : CipherState} (h : CallInv s) {i : Cpu}
    (hp : s.threads.worker i ≠ .inc) : (s.submissions i).length = s.threads.incs i := by
  rw [h i, if_neg hp, Nat.add_zero]

/-- When all is counted and some request has not completed with 0, too much is counted. -/
theorem completed_lt_total {s : CipherState} (hcall : CallInv s)
    (hcounted : ∀ j, s.threads.worker j ≠ .inc) {i : Cpu} {c : Submission}
    (hmem : c ∈ s.submissions i) (hc : c ≠ .done) : s.completed < s.threads.total := by
  refine Finset.sum_lt_sum (fun j _ => ?_) ⟨i, Finset.mem_univ i, ?_⟩
  · rw [← hcall.length_eq (hcounted j)]
    exact List.count_le_length
  · rw [← hcall.length_eq (hcounted i)]
    refine Nat.lt_of_le_of_ne List.count_le_length fun hall => hc ?_
    exact (List.count_eq_length.mp hall c hmem).symm

/-- No more requests than are counted, and one for each worker. -/
theorem sum_length_le {s : CipherState} (hcall : CallInv s) :
    ∑ j, (s.submissions j).length ≤ s.threads.total + maxCores := by
  have hle : ∑ j, (s.submissions j).length ≤ ∑ j, (s.threads.incs j + 1) := by
    refine Finset.sum_le_sum fun j _ => ?_
    rw [hcall j]
    split <;> omega
  rw [Finset.sum_add_distrib] at hle
  exact hle

/-- Where a request is counted that has not completed with 0, too much is counted in the end. -/
theorem exists_unsound {s s' : CipherState} {a : CipherAct} (hs : (cipherLts tz).Reachable s)
    (hstep : (cipherLts tz).step s a s') (ha : ¬CountsDone s a)
    (hfew : s'.threads.total + maxCores < 2 ^ 63) :
    ∃ as s'', (cipherLts tz).Run s' as s'' ∧ s''.completed < s''.threads.ctx.ops.toNat := by
  have hcall : CallInv s := (callInv_inductive tz).reachable hs
  have hs' := hs.step hstep
  have hcall' : CallInv s' := (callInv_inductive tz).reachable hs'
  obtain ⟨i, hp, hhead, hsame⟩ : ∃ i, s.threads.worker i = .inc ∧
      (s.submissions i).head? ≠ some .done ∧ s'.submissions = s.submissions := by
    cases cipherStep_of_next hstep with
    | @thread a t _ _ =>
      cases a with
      | worker i =>
        simp only [CountsDone, Classical.not_imp] at ha
        exact ⟨i, ha.1, ha.2, rfl⟩
      | _ => exact (ha trivial).elim
    | _ => exact (ha trivial).elim
  obtain ⟨c, cs, hsubs⟩ : ∃ c cs, s.submissions i = c :: cs := by
    refine List.exists_cons_of_length_pos ?_
    rw [hcall i, if_pos hp]
    exact Nat.succ_pos _
  rw [hsubs, List.head?_cons] at hhead
  obtain ⟨as, s'', hr, hsame'', hcounted, -⟩ := exists_run_counted tz s' (List.finRange _)
  have hcall'' : CallInv s'' := (callInv_inductive tz).reachable (hr.reachable_of hs')
  have hlt := completed_lt_total hcall'' (fun j => hcounted j (List.mem_finRange j))
    (c := c) (i := i) (by rw [hsame'', hsame, hsubs]; exact List.mem_cons_self)
    fun hc => hhead (congrArg some hc)
  have htotal : s''.threads.total = ∑ j, (s'.submissions j).length := by
    rw [← hsame'']
    exact Finset.sum_congr rfl fun j _ =>
      (hcall''.length_eq (hcounted j (List.mem_finRange j))).symm
  have hle := sum_length_le hcall'
  have hops := ((sampleInv_inductive tz).reachable
    (threads_reachable (hr.reachable_of hs'))).ops.ops
  refine ⟨as, s'', hr, ?_⟩
  rw [hops, toNat_ofNat_of_few (by omega)]
  exact hlt

/-- **Encryptions that happened.** As long as a worker counts its request only once it has
completed with 0, `ops` is no more than the requests that have, and no worker submits its request
while it is in progress; that is so in every interleaving. And where a worker counts it before,
or when it has failed, the workers count too much as soon as they get on. -/
theorem counted_when_done (tz : Cpu → Bool) :
    (∀ s : CipherState, ((cipherLts tz).restrict CountsDone).Reachable s → s.Sound) ∧
    (∀ (s s' : CipherState) (a : CipherAct), (cipherLts tz).Reachable s →
      (cipherLts tz).step s a s' → ¬CountsDone s a → s'.threads.total + maxCores < 2 ^ 63 →
      ∃ as s'', (cipherLts tz).Run s' as s'' ∧
        s''.completed < s''.threads.ctx.ops.toNat) := by
  refine ⟨fun s hs => ?_, fun s s' a hs hstep ha hfew => exists_unsound hs hstep ha hfew⟩
  obtain ⟨hcall, hdone⟩ := (doneInv_inductive tz).reachable hs
  exact sound_of_done hs.of_restrict hcall hdone

/-- One worker runs until it is about to encrypt, in a module that gets its key set or not. -/
def untilCrypto (setkey : Bool) : List CipherAct :=
  .startWorker core0 ⟨true, true, setkey, true, true⟩ :: .thread .runCtrl ::
    List.replicate 9 (.thread (.ctrl false 0)) ++ List.replicate 2 (.thread (.worker core0))

/-- It encrypts, counts and comes back. -/
def encryptOnce (r : Returned) : List CipherAct :=
  .doCrypto core0 r :: List.replicate 3 (.thread (.worker core0))

/-- What is seen of it. -/
def CipherState.seen (s : CipherState) : UInt64 × ℕ × WorkerPc × List Submission :=
  (s.threads.ctx.ops, s.completed, s.threads.worker core0, s.submissions core0)

/-- Without a key nothing is encrypted, but counted; and a request that is still in progress is
submitted once more. -/
theorem counts_failures : (∃ s, (cipherLts fun _ => true).Run (cipherStart fun _ => true)
      (untilCrypto false ++ encryptOnce .error) s ∧
      s.threads.ctx.ops = 1 ∧ s.completed = 0 ∧ ¬s.Sound) ∧
    ∃ s, (cipherLts fun _ => true).Run (cipherStart fun _ => true)
      (untilCrypto true ++ encryptOnce .inProgress) s ∧
      s.threads.worker core0 = .crypto ∧ s.submissions core0 = [.pending] ∧
      ∃ s', (cipherLts fun _ => true).step s (.doCrypto core0 .zero) s' := by
  refine ⟨?_, ?_⟩
  · obtain ⟨s, hr, hs⟩ : ∃ s, (cipherLts fun _ => true).Run (cipherStart fun _ => true)
        (untilCrypto false ++ encryptOnce .error) s ∧ s.seen = (1, 0, .crypto, [.failed]) :=
      Lts.exists_run_of_map _ CipherState.seen (by decide +kernel)
    simp only [CipherState.seen, Prod.mk.injEq] at hs
    obtain ⟨hops, hcompleted, -, -⟩ := hs
    refine ⟨s, hr, hops, hcompleted, fun hsound => ?_⟩
    have hle := hsound.ops
    rw [hops, hcompleted] at hle
    exact absurd hle (by decide)
  · obtain ⟨s, hr, hs⟩ : ∃ s, (cipherLts fun _ => true).Run (cipherStart fun _ => true)
        (untilCrypto true ++ encryptOnce .inProgress) s ∧ s.seen = (1, 0, .crypto, [.pending]) :=
      Lts.exists_run_of_map _ CipherState.seen (by decide +kernel)
    simp only [CipherState.seen, Prod.mk.injEq] at hs
    obtain ⟨-, -, hp, hpending⟩ := hs
    exact ⟨s, hr, hp, hpending, _, if_pos hp⟩

/-- One encryption that completes before it is counted. -/
theorem counted_when_done_async : ∃ s,
    ((cipherLts fun _ => true).restrict CountsDone).Reachable s ∧ s.threads.ctx.ops = 1 ∧
      s.submissions core0 = [.done] ∧ s.Sound := by
  obtain ⟨s, hs, hout⟩ : ∃ s, ((cipherLts fun _ => true).restrict CountsDone).Reachable s ∧
      s.seen = (1, 1, .top, [.done]) :=
    Lts.exists_reachable_of_map (untilCrypto true ++
      [.doCrypto core0 .inProgress, .complete core0 0 true, .thread (.worker core0)])
      CipherState.seen (by decide +kernel)
  simp only [CipherState.seen, Prod.mk.injEq] at hout
  obtain ⟨hops, -, -, hdone⟩ := hout
  exact ⟨s, hs, hops, hdone, (counted_when_done fun _ => true).1 s hs⟩

end CryptoChallenge

end KernelModules
