import IqrfDaemon.Transition.System

/-!
# The task queue and its worker thread

`TaskQueue<T>` owns one worker thread.  Callers push under `m_taskQueueMutex`
and notify after releasing it; the worker waits for `m_taskPushed`, clears it
and drains the queue, releasing the mutex around each processed task.  Every
section a thread runs under the mutex is one step, and the sections of
different threads interleave freely.
-/

namespace IqrfDaemon.TaskQueue

open Transition

/-- Program points of `worker()`.  `testRun` is the outer loop test, where `lck`
still owns the mutex if the inner loop saw the run flag fall; `testPushed` to
`drain` hold the mutex; `taken` and `processing` carry the popped task before and
inside `m_processTaskFunc`; `lockFailed` is `lck.lock()` on an owned mutex, which
throws. -/
inductive WorkerPc (T : Type*)
  | testRun (owns : Bool)
  | lock
  | testPushed
  | blocked (notified : Bool)
  | clearPushed
  | drain
  | taken (task : T)
  | processing (task : T)
  | relock
  | exited
  | lockFailed
  deriving DecidableEq

namespace WorkerPc

variable {T : Type*}

def owns : WorkerPc T → Bool
  | testRun owns => owns
  | testPushed | clearPushed | drain => true
  | _ => false

def inHand : WorkerPc T → List T
  | taken task => [task]
  | _ => []

def running : WorkerPc T → List T
  | processing task => [task]
  | _ => []

def isBlocked : WorkerPc T → Bool
  | blocked _ => true
  | _ => false

def draining : WorkerPc T → Bool
  | drain | taken _ | processing _ | relock => true
  | _ => false

def waiting : WorkerPc T → Bool
  | lock | testPushed | blocked _ | clearPushed => true
  | _ => false

end WorkerPc

/-- The members of `TaskQueue<T>`, the callers that have left their locked
section but not yet called `notify_all`, and the history of pushes, of calls of
the processing function and of their returns. -/
structure State (T : Type*) where
  taskQueue : List T
  taskPushed : Bool
  runWorkerThread : Bool
  worker : WorkerPc T
  pendingNotify : ℕ
  pushed : List T
  handed : List T
  processed : List T
  deriving DecidableEq

/-- The locked sections of `pushToQueue` and of `stopQueue` (which the destructor
repeats), the `notify_all` that follows them, a spurious wake-up, the next step
of the worker and the return of the processing function. -/
inductive Action (T : Type*)
  | pushToQueue (task : T)
  | stopQueue
  | notifyAll
  | spuriousWakeup
  | worker
  | processed

variable {T : Type*}

def State.create : State T where
  taskQueue := []
  taskPushed := false
  runWorkerThread := true
  worker := .testRun false
  pendingNotify := 0
  pushed := []
  handed := []
  processed := []

namespace State

def pushToQueue (s : State T) (task : T) : State T :=
  { s with
    taskQueue := s.taskQueue ++ [task]
    taskPushed := true
    pendingNotify := s.pendingNotify + 1
    pushed := s.pushed ++ [task] }

def stopQueue (s : State T) : State T :=
  { s with
    runWorkerThread := false
    taskPushed := true
    pendingNotify := s.pendingNotify + 1 }

def notify (s : State T) : State T :=
  match s.worker with
  | .blocked _ => { s with worker := .blocked true }
  | _ => s

def drain (s : State T) : State T :=
  if s.runWorkerThread then
    match s.taskQueue with
    | [] => { s with worker := .testRun false }
    | task :: rest => { s with taskQueue := rest, worker := .taken task }
  else { s with worker := .testRun true }

def workerStep (s : State T) : Option (State T) :=
  match s.worker with
  | .testRun owns =>
      if s.runWorkerThread then
        some { s with worker := if owns then .lockFailed else .lock }
      else some { s with worker := .exited }
  | .lock => some { s with worker := .testPushed }
  | .testPushed =>
      some { s with worker := if s.taskPushed then .clearPushed else .blocked false }
  | .blocked notified =>
      if notified then
        some { s with worker := if s.taskPushed then .clearPushed else .blocked false }
      else none
  | .clearPushed => some { s with taskPushed := false, worker := .drain }
  | .drain => some s.drain
  | .taken task =>
      some { s with handed := s.handed ++ [task], worker := .processing task }
  | .processing _ => none
  | .relock => some { s with worker := .drain }
  | .exited => none
  | .lockFailed => none

def processedStep (s : State T) : Option (State T) :=
  match s.worker with
  | .processing task =>
      some { s with processed := s.processed ++ [task], worker := .relock }
  | _ => none

def step (s : State T) : Action T → Option (State T)
  | .pushToQueue task => if s.worker.owns then none else some (s.pushToQueue task)
  | .stopQueue => if s.worker.owns then none else some s.stopQueue
  | .notifyAll =>
      if s.pendingNotify = 0 then none
      else some { s.notify with pendingNotify := s.pendingNotify - 1 }
  | .spuriousWakeup => if s.worker.isBlocked then some s.notify else none
  | .worker => s.workerStep
  | .processed => s.processedStep

end State

/-- All interleavings of callers with the worker of a queue of tasks `T`. -/
def system (T : Type*) : System (State T) (Action T) where
  init s := s = State.create
  step := State.step

end IqrfDaemon.TaskQueue
