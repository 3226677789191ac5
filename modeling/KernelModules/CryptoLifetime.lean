import KernelModules.CryptoFreeze
import KernelModules.ForkJoin
import KernelModules.UserMemory

/-!
# What `crypto_challenge.c` acquires

`mod_init`, `mod_exit`, `start_worker` and `stop_worker` as the list of what the module's
process does, for every way in which the acquisitions can fail (`Failures`), run together with
the threads and the timer of `CryptoChallenge`. One ledger holds the deeds of all of them.

* `startWorker`, `stopWorker`, `modInit`, `modExit`, `program` — the list;
* `Sys`, `Sys.next` — the process, the threads and the ledger.
-/

namespace KernelModules

namespace CryptoChallenge

open Ledger ForkJoin

/-! ## The module's functions -/

/-- A thread the module creates. -/
inductive Thread where
  /-- a worker -/
  | worker (i : Cpu)
  /-- the control thread -/
  | ctrl
  deriving DecidableEq

/-- What the module acquires. -/
inductive Res where
  /-- the directory `crypto_challenge` -/
  | procDir
  /-- the entry `stats` in it -/
  | procFile
  /-- the buffer of a worker -/
  | buf (i : Cpu)
  /-- its cipher handle -/
  | tfm (i : Cpu)
  /-- its request -/
  | req (i : Cpu)
  /-- a thread -/
  | thread (t : Thread)
  /-- the timer, from its activation until it is inactive again -/
  | timer
  /-- nothing: what an error pointer points to -/
  | bad
  deriving DecidableEq

/-- What else the module's process calls. -/
inductive Call where
  /-- `stop_sampling` -/
  | stopSampling
  deriving DecidableEq

/-- What the module's process does. -/
abbrev Code := List (Instr Res Thread Call)

/-- How the acquisitions fail: those that hand back `NULL` do or do not, the others give an
error number. -/
structure Failures where
  /-- `proc_mkdir` -/
  procMkdir : Bool
  /-- `proc_create` -/
  procCreate : Bool
  /-- `kmalloc` of the buffer -/
  kmalloc : Cpu → Bool
  /-- `crypto_alloc_skcipher` -/
  allocSkcipher : Cpu → Option ℤ
  /-- `skcipher_request_alloc` -/
  requestAlloc : Cpu → Bool
  /-- `kthread_create` of a worker -/
  kthreadCreate : Cpu → Option ℤ
  /-- `kthread_run` of the control thread -/
  kthreadRun : Option ℤ

/-- `struct worker`, as far as it holds what was acquired. -/
structure Worker where
  /-- `task` -/
  task : Ptr Thread
  /-- `tfm` -/
  tfm : Ptr Res
  /-- `req` -/
  req : Ptr Res
  /-- `buf` -/
  buf : Ptr Res

/-- After the `memset`. -/
def Worker.zero : Worker := ⟨.null, .null, .null, .null⟩

/-- What `start_worker` leaves: the worker, what was done, and the value returned. -/
structure Started where
  /-- `ctx.workers[cpu]` -/
  worker : Worker
  /-- what was done -/
  code : Code
  /-- the value returned -/
  ret : ℤ

/-- `start_worker` -/
def startWorker (f : Failures) (i : Cpu) : Started :=
  let w := Worker.zero
  if f.kmalloc i then ⟨w, [], -enomem⟩
  else
    let w := { w with buf := .obj (.buf i) }
    -- `kmalloc`, `memset`
    let code : Code := [.deed (.acquire (.buf i)), .deed (.use (.buf i))]
    match f.allocSkcipher i with
    | some errno => ⟨{ w with tfm := .err (-errno) }, code, -errno⟩
    | none =>
      let w := { w with tfm := .obj (.tfm i) }
      -- `crypto_alloc_skcipher`, `crypto_skcipher_setkey`, `skcipher_request_alloc`
      let code := code ++ [.deed (.acquire (.tfm i)), .deed (.use (.tfm i)), .deed (.use (.tfm i))]
      if f.requestAlloc i then ⟨w, code, -enomem⟩
      else
        let w := { w with req := .obj (.req i) }
        let code := code ++ [.deed (.acquire (.req i))]
        match f.kthreadCreate i with
        | some errno => ⟨{ w with task := .err (-errno) }, code, -errno⟩
        | none => ⟨{ w with task := .obj (.worker i) },
            code ++ [.deed (.acquire (.thread (.worker i))), .start (.worker i)], 0⟩

/-- `kthread_stop` -/
def kthreadStop : Ptr Thread → Code
  | .obj t => [.ask t, .join t, .deed (.release (.thread t))]
  | .null | .err _ => [.deed (.use .bad)]

/-- A pointer that is not `NULL` is handed to the function that frees it. -/
def free : Ptr Res → Code
  | .obj r => [.deed (.release r)]
  | .err _ => [.deed (.use .bad)]
  | .null => []

/-- `stop_worker` -/
def stopWorker (w : Worker) : Code :=
  if w.task = .null then []
  else kthreadStop w.task ++ free w.req ++ free w.tfm ++ free w.buf

/-- What `mod_init` leaves: the static variables, what was done, and the value returned. -/
structure Loaded where
  /-- `proc_dir` -/
  procDir : Ptr Res
  /-- `proc_file` -/
  procFile : Ptr Res
  /-- `ctx.workers` -/
  workers : Cpu → Worker
  /-- `ctrl_task` -/
  ctrlTask : Ptr Thread
  /-- what was done -/
  code : Code
  /-- the value returned -/
  ret : ℤ

/-- `mod_init`. It ignores what `start_worker` returns. -/
def modInit (f : Failures) : Loaded :=
  if f.procMkdir then ⟨.null, .null, fun _ => .zero, .null, [], -enomem⟩
  else
    -- `proc_mkdir`, `proc_create`
    let code : Code := [.deed (.acquire .procDir), .deed (.use .procDir)]
    if f.procCreate then ⟨.obj .procDir, .null, fun _ => .zero, .null, code, -enomem⟩
    else
      let code := code ++ [.deed (.acquire .procFile)] ++
        (List.finRange maxCores).flatMap fun i => (startWorker f i).code
      let workers := fun i => (startWorker f i).worker
      match f.kthreadRun with
      | some errno => ⟨.obj .procDir, .obj .procFile, workers, .err (-errno), code, 0⟩
      | none => ⟨.obj .procDir, .obj .procFile, workers, .obj .ctrl,
          code ++ [.deed (.acquire (.thread .ctrl)), .start .ctrl], 0⟩

/-- `mod_exit`. The entry `stats` is removed from its directory. -/
def modExit (l : Loaded) : Code :=
  (if l.ctrlTask = .null then [] else kthreadStop l.ctrlTask) ++ [.call .stopSampling] ++
    ((List.finRange maxCores).flatMap fun i => stopWorker (l.workers i)) ++
    (if l.procFile = .null then [] else .deed (.use .procDir) :: free l.procFile) ++
    free l.procDir

/-- What the module's process does: `mod_exit` runs if `mod_init` returned 0. -/
def program (f : Failures) : Code :=
  (modInit f).code ++ if (modInit f).ret = 0 then modExit (modInit f) else []

/-! ## The module and its threads -/

/-- How far a worker is. -/
def WorkerPc.phase : WorkerPc → Phase
  | .absent => .absent
  | .exited => .ended
  | .top | .test | .crypto | .inc => .live

/-- How far the control thread is. -/
def CtrlPc.phase : CtrlPc → Phase
  | .absent => .absent
  | .exited => .ended
  | .born | .setCount | .setupTimer | .armTimer | .clearStop | .top | .testStop | .testTime
  | .endRun | .endStop | .delTimer | .score | .dutyOn | .dutyOff => .live

/-- How far a thread is. -/
def State.phase (s : State) : Thread → Phase
  | .worker i => (s.worker i).phase
  | .ctrl => s.ctrl.phase

/-- The timer is pending, or its callback is running. -/
def State.timerActive (s : State) : Bool := s.pending || decide (s.callback ≠ .idle)

/-- What a step does to the timer: it is acquired when it becomes active, and released when it
becomes inactive. -/
def timerDeeds (s s' : State) : List (Deed Res) :=
  match s.timerActive, s'.timerActive with
  | false, true => [.acquire .timer]
  | true, false => [.release .timer]
  | false, false | true, true => []

/-- What a step of a thread uses. -/
def uses (s : State) : Act → List (Deed Res)
  | .worker i =>
    if s.worker i = .crypto then [.use (.buf i), .use (.req i), .use (.tfm i)] else []
  | .callback _ => match s.callback with
    | .temps _ [] => [.use .timer]
    | _ => []
  | _ => []

/-- The steps that the module's process does not take. -/
def Act.byThread : Act → Bool
  | .worker _ | .ctrl _ _ | .fire | .callback _ => true
  | .wake _ | .runCtrl | .askWorker _ | .askCtrl | .delTimer => false

/-- The module starts a thread. -/
def Thread.startAct : Thread → Act
  | .worker i => .wake i
  | .ctrl => .runCtrl

/-- The module asks a thread to stop. -/
def Thread.askAct : Thread → Act
  | .worker i => .askWorker i
  | .ctrl => .askCtrl

/-- What an instruction of the module's process does to the threads. -/
def exec (s : State) : Instr Res Thread Call → Option State
  | .deed _ => some s
  | .start t => next s t.startAct
  | .ask t => next s t.askAct
  | .join t => if s.phase t = .ended then some s else none
  | .call .stopSampling => next s .delTimer

/-- The threads, what the module's process still has to do, and the ledger. -/
structure Sys where
  /-- the threads -/
  core : State
  /-- what the module's process still has to do -/
  todo : Code
  /-- the deeds so far -/
  log : List (Deed Res)

/-- The step taken next. -/
inductive SysAct where
  /-- the module's process -/
  | main
  /-- a thread or the timer -/
  | thread (a : Act)

/-- One step. -/
def Sys.next (s : Sys) : SysAct → Option Sys
  | .main => match s.todo with
    | [] => none
    | x :: todo => (exec s.core x).map fun core =>
        ⟨core, todo, s.log ++ x.deeds ++ timerDeeds s.core core⟩
  | .thread a =>
    if a.byThread then (CryptoChallenge.next s.core a).map fun core =>
      ⟨core, s.todo, s.log ++ uses s.core a ++ timerDeeds s.core core⟩
    else none

/-- Nothing is done yet. -/
def Sys.start (tz : Cpu → Bool) (f : Failures) : Sys := ⟨CryptoChallenge.start tz, program f, []⟩

/-- The module and its threads as a transition system. -/
abbrev moduleLts (tz : Cpu → Bool) (f : Failures) : Lts Sys SysAct :=
  Lts.ofNext (.start tz f) Sys.next

end CryptoChallenge

end KernelModules
