import Mathlib.Logic.Function.Basic
import IqrfDaemon.Serializer.DpaTask
import IqrfDaemon.Transition.System

/-!
# The pulse meter client service

`ClientServicePm` runs on two threads.  The scheduler's thread handles the fired tasks one
after the other: the FRC command that asks for the meters that are alive, and the periodic
reading of a meter.  The thread of the task queue synchronises the meters that were alive.
They share the flags and handles of the meters, the queue and the scheduler's table, and
every access to one of these is a step.
-/

namespace IqrfDaemon.PulseMeter

open Serializer Transition

abbrev TaskHandle := ℤ

def taskHandleInvalid : TaskHandle := 0

/-- The texts `SND_FRC`, and `SND_PMT` with the address of a meter. -/
inductive Task
  | sendFrc
  | sendPmt (adr : Word)
  deriving DecidableEq

/-! ## The scheduler -/

/-- The scheduled tasks of the service under their handles. -/
structure Schedule where
  tasks : List (TaskHandle × Task)

namespace Schedule

def scheduleTaskPeriodic (c : Schedule) (handle : TaskHandle) (task : Task) : Schedule :=
  ⟨(handle, task) :: c.tasks⟩

def removeTask (c : Schedule) (handle : TaskHandle) : Schedule :=
  ⟨c.tasks.filter fun entry ↦ entry.1 ≠ handle⟩

def removeAllMyTasks (_ : Schedule) : Schedule := ⟨[]⟩

/-- What the scheduler promises of the handle of a new task: it is valid, and no task that is
scheduled has it.  The handle of a task that has been removed may come again. -/
def Fresh (c : Schedule) (handle : TaskHandle) : Prop :=
  handle ≠ taskHandleInvalid ∧ handle ∉ c.tasks.map Prod.fst

instance (c : Schedule) (handle : TaskHandle) : Decidable (c.Fresh handle) :=
  inferInstanceAs (Decidable (_ ∧ _))

end Schedule

/-! ## The state -/

structure PrfPulseMeterSchd where
  sync : Bool := false
  taskHandle : TaskHandle := taskHandleInvalid

/-- The scheduler's thread: between two handlers, in `processFrcFromScheduler` and in
`processPulseMeterFromScheduler`.  The steps of `removeSchedule` know whether the meter is lost. -/
inductive HandlerPc
  | idle
  | frcTransaction
  | frcLoop (bit2 : Word → Bool) (i : ℕ) (stopFrc : Bool)
  | pushToQueue (bit2 : Word → Bool) (i : ℕ) (stopFrc : Bool)
  | setFrc (val : Bool)
  | readTransaction (i : ℕ)
  | removeSchedule (i : ℕ) (lost : Bool)
  | removeTask (i : ℕ) (handle : TaskHandle) (lost : Bool)
  | resetHandle (i : ℕ) (lost : Bool)
  | resetSync (i : ℕ)

/-- The queue's thread in `processPulseMeterFromTaskQueue`. -/
inductive WorkerPc
  | idle
  | testSync (i : ℕ)
  | setSync (i : ℕ)
  | removeSchedule (i : ℕ)
  | removeTask (i : ℕ) (handle : TaskHandle)
  | resetHandle (i : ℕ)
  | scheduleTask (i : ℕ)
  | storeHandle (i : ℕ) (handle : TaskHandle)

def WorkerPc.meter : WorkerPc → Option ℕ
  | idle => none
  | testSync i | setSync i | removeSchedule i | removeTask i _ | resetHandle i | scheduleTask i
  | storeHandle i _ => some i

/-- The queue holds the meters by their place in `m_watchedPm`. -/
structure State where
  pm : ℕ → PrfPulseMeterSchd
  frcHandle : TaskHandle
  frcActive : Bool
  taskQueue : List ℕ
  schedule : Schedule
  handler : HandlerPc
  worker : WorkerPc

/-- A task is fired, one that has been removed or was never scheduled included; the transaction
of a handler finishes; or a thread takes its next step, with the handle that the scheduler
returns in case it is called. -/
inductive Action
  | fire (task : Task)
  | frcFinished (error : ℤ) (bit2 : Word → Bool)
  | readFinished (result : ℤ)
  | handler (handle : TaskHandle)
  | worker (handle : TaskHandle)

namespace State

def setSync (s : State) (i : ℕ) (val : Bool) : State :=
  { s with pm := Function.update s.pm i { s.pm i with sync := val } }

def setTaskHandle (s : State) (i : ℕ) (handle : TaskHandle) : State :=
  { s with pm := Function.update s.pm i { s.pm i with taskHandle := handle } }

def setFrc (s : State) (val : Bool) (handle : TaskHandle) : State :=
  if val = s.frcActive then s
  else if val then
    { s with
      frcHandle := handle
      schedule := s.schedule.scheduleTaskPeriodic handle .sendFrc
      frcActive := true }
  else { s with schedule := s.schedule.removeTask s.frcHandle, frcActive := false }

def create (schedule : Schedule) : State where
  pm _ := {}
  frcHandle := taskHandleInvalid
  frcActive := false
  taskQueue := []
  schedule := schedule
  handler := .idle
  worker := .idle

/-- `start`, before the scheduler's thread is started. -/
def start (s : State) (handle : TaskHandle) : State :=
  { s with schedule := s.schedule.removeAllMyTasks }.setFrc true handle

/-! ## Steps -/

section Steps

variable (watched : List Word) (s : State)

/-- `handleTaskFromScheduler` up to the transaction. -/
def handleTaskFromScheduler (task : Task) : HandlerPc :=
  match task with
  | .sendFrc => .frcTransaction
  | .sendPmt adr =>
      if adr = 0 then .idle
      else
        match watched.findIdx? (· = adr) with
        | none => .idle
        | some i => .readTransaction i

def address (i : ℕ) : Word := watched.getD i 0

def handlerStep (handle : TaskHandle) : Option State :=
  match s.handler with
  | .idle | .frcTransaction | .readTransaction _ => none
  | .frcLoop bit2 i stopFrc =>
      if i < watched.length then
        if (s.pm i).sync then some { s with handler := .frcLoop bit2 (i + 1) stopFrc }
        else if bit2 (address watched i) then some { s with handler := .pushToQueue bit2 i stopFrc }
        else some { s with handler := .frcLoop bit2 (i + 1) false }
      else some { s with handler := .setFrc !stopFrc }
  | .pushToQueue bit2 i stopFrc =>
      some { s with
        taskQueue := s.taskQueue ++ [i]
        handler := .frcLoop bit2 (i + 1) stopFrc }
  | .setFrc val => some { s.setFrc val handle with handler := .idle }
  | .removeSchedule i lost => some { s with handler := .removeTask i (s.pm i).taskHandle lost }
  | .removeTask i old lost =>
      some { s with schedule := s.schedule.removeTask old, handler := .resetHandle i lost }
  | .resetHandle i lost =>
      some { s.setTaskHandle i taskHandleInvalid with
        handler := if lost then .resetSync i else .idle }
  | .resetSync i => some { s.setSync i false with handler := .setFrc true }

/-- The next step of the queue's thread, which takes the first meter if it has none. -/
def workerStep (handle : TaskHandle) : Option State :=
  match s.worker with
  | .idle =>
      match s.taskQueue with
      | [] => none
      | i :: rest => some { s with taskQueue := rest, worker := .testSync i }
  | .testSync i => some { s with worker := if (s.pm i).sync then .idle else .setSync i }
  | .setSync i => some { s.setSync i true with worker := .removeSchedule i }
  | .removeSchedule i => some { s with worker := .removeTask i (s.pm i).taskHandle }
  | .removeTask i old =>
      some { s with schedule := s.schedule.removeTask old, worker := .resetHandle i }
  | .resetHandle i =>
      some { s.setTaskHandle i taskHandleInvalid with worker := .scheduleTask i }
  | .scheduleTask i =>
      some { s with
        schedule := s.schedule.scheduleTaskPeriodic handle (.sendPmt (address watched i))
        worker := .storeHandle i handle }
  | .storeHandle i new => some { s.setTaskHandle i new with worker := .idle }

def step : Action → Option State
  | .fire task =>
      match s.handler with
      | .idle => some { s with handler := handleTaskFromScheduler watched task }
      | _ => none
  | .frcFinished error bit2 =>
      match s.handler with
      | .frcTransaction =>
          some { s with handler := if error = 0 then .frcLoop bit2 0 true else .idle }
      | _ => none
  -- without a result of 0 the meter is not read again; -1 is the timeout
  | .readFinished result =>
      match s.handler with
      | .readTransaction i =>
          some { s with
            handler := if result = 0 then .idle else .removeSchedule i (result = -1) }
      | _ => none
  | .handler handle => handlerStep watched s handle
  | .worker handle => workerStep watched s handle

end Steps

end State

/-- The service with its meters, from the end of `start`. -/
def service (watched : List Word) : System State Action where
  init s := ∃ schedule handle, schedule.removeAllMyTasks.Fresh handle ∧
    s = (State.create schedule).start handle
  step := State.step watched

/-- The scheduler's contract for the handles that it returns. -/
def Contract (s : State) : Action → Prop
  | .handler handle | .worker handle => s.schedule.Fresh handle
  | _ => True

instance (s : State) : DecidablePred (Contract s)
  | .handler handle | .worker handle => inferInstanceAs (Decidable (s.schedule.Fresh handle))
  | .fire _ | .frcFinished _ _ | .readFinished _ => isTrue trivial

end IqrfDaemon.PulseMeter
