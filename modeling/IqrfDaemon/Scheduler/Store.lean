import Mathlib.Data.List.AList
import Mathlib.Data.List.GetD
import IqrfDaemon.Container.Multimap
import IqrfDaemon.Scheduler.Record

/-!
# The scheduler's indexes

The records live on a heap, where a position plays the part of a shared pointer,
and are indexed by time and by handle.  This module models every section that
runs under `m_scheduledTasksMutex`: adding the records of a request, the
removals, the lookups and one turn of the timer's inner loop.  The sections that
ask a record for its next time take the function for it as a parameter.
-/

namespace IqrfDaemon.Scheduler

open Json Json.Jutils Container

instance : Inhabited ScheduleRecord := ⟨.everyPeriod 1 "" "" 0 0⟩

structure Store where
  records : List ScheduleRecord
  byTime : Multimap ℤ ℕ
  byHandle : AList fun _ : ℤ ↦ ℕ

/-! ## Requests that add records -/

/-- The calls that add records, with the outcomes of `rand()` and of the clock for
the records they construct. -/
inductive Request
  | scheduleTaskAt (clientId task : String) (tp : ℤ) (rand : ℤ)
  | scheduleTaskPeriodic (clientId task : String) (sec : ℤ) (tp : ℤ) (rand : ℤ)
  | updateConfiguration (cfg : Value) (clock : ℕ → ℤ) (rand : ℕ → ℤ)

/-- The textual table: a record that cannot be parsed is skipped. -/
def textRecords (clock : ℕ → ℤ) (rand : ℕ → ℤ) :
    ℕ → List String → Except Failure (List ScheduleRecord)
  | _, [] => .ok []
  | n, rec :: rest =>
      match ScheduleRecord.ofText (clock n) (rand n) rec with
      | .error .abort => .error .abort
      | .error _ => textRecords clock rand (n + 1) rest
      | .ok r => do return r :: (← textRecords clock rand (n + 1) rest)

/-- The JSON table: the first record that cannot be parsed ends the list. -/
def jsonRecords (env : Env) (clock : ℕ → ℤ) (rand : ℕ → ℤ) :
    ℕ → List Value → Except Failure (List ScheduleRecord)
  | _, [] => .ok []
  | n, rec :: rest =>
      match ScheduleRecord.ofJson env (clock n) (rand n) rec with
      | .error .abort => .error .abort
      | .error _ => .ok []
      | .ok r => do return r :: (← jsonRecords env clock rand (n + 1) rest)

/-- `updateConfiguration` up to `addScheduleRecords`.  The message for a `TasksJson`
that is no array asks the value for its string, which asserts that it is one. -/
def configuredRecords (env : Env) (cfg : Value) (clock : ℕ → ℤ) (rand : ℕ → ℤ) :
    Except Failure (List ScheduleRecord) := do
  let _ ← assertIsObject "" cfg
  match ← findMember "TasksJson" cfg with
  | none => textRecords clock rand 0 (← getMemberAsVector assertIsString "Tasks" cfg)
  | some (.array items) => jsonRecords env clock rand 0 items
  | some (.string _) => return []
  | some _ => .error .abort

def Request.records (env : Env) : Request → Except Failure (List ScheduleRecord)
  | scheduleTaskAt clientId task tp rand => .ok [.atTime env rand clientId task tp]
  | scheduleTaskPeriodic clientId task sec tp rand => .ok [.everyPeriod rand clientId task sec tp]
  | updateConfiguration cfg clock rand => configuredRecords env cfg clock rand

/-- The calls that remove records. -/
inductive Removal
  | removeTask (clientId : String) (hndl : ℤ)
  | removeTasks (clientId : String) (hndls : List ℤ)
  | removeAllMyTasks (clientId : String)

/-- A record taken out of the time index by the timer: where it was stored and the
last reading of the clock. -/
structure Firing where
  record : ℕ
  stored : ℤ
  reading : ℤ
  deriving DecidableEq

/-- How a record computes its next time: `getNext`, over the integers or in the width of
the clock's counter. -/
abbrev NextTime := ScheduleRecord → ℤ → Tm → ℤ × ScheduleRecord

namespace Store

def empty : Store := ⟨[], Multimap.empty, ∅⟩

def record (s : Store) (id : ℕ) : ScheduleRecord := s.records.getD id default

def handleOf (s : Store) (id : ℕ) : ℤ := (s.record id).taskHandle

/-! ## Adding -/

/-- The loop that shuffles a duplicate handle; `none` when the given outcomes of
`rand()` end before a free handle is found. -/
def uniqueHandle (byHandle : AList fun _ : ℤ ↦ ℕ) :
    ℤ → List ℤ → Option ℤ
  | handle, [] => if (byHandle.lookup handle).isNone then some handle else none
  | handle, rand :: rest =>
      if (byHandle.lookup handle).isNone then some handle
      else uniqueHandle byHandle (getTaskHandle rand) rest

/-- The record enters the heap under the next position. -/
def insertRecord (s : Store) (tp : ℤ) (r : ScheduleRecord) (handle : ℤ) : Store where
  records := s.records ++ [r.setHandle handle]
  byTime := s.byTime.insert tp s.records.length
  byHandle := s.byHandle.insert handle s.records.length

def addScheduleRecordUnlockedWith (next : NextTime) (env : Env) (now : ℤ) (rands : List ℤ)
    (s : Store) (r : ScheduleRecord) : Option Store :=
  let (tp, r) := next r now (env.localtime (toTimeT now))
  (uniqueHandle s.byHandle r.taskHandle rands).map (s.insertRecord tp r)

/-- `addScheduleRecords`, with one clock reading and one sequence of `rand()` outcomes
for each record. -/
def addScheduleRecordsWith (next : NextTime) (env : Env) :
    List (ℤ × List ℤ) → List ScheduleRecord → Store → Option Store
  | _, [], s => some s
  | [], _ :: _, _ => none
  | (now, rands) :: choices, r :: rest, s =>
      (s.addScheduleRecordUnlockedWith next env now rands r).bind
        (addScheduleRecordsWith next env choices rest)

def addScheduleRecords (env : Env) (choices : List (ℤ × List ℤ)) (rs : List ScheduleRecord)
    (s : Store) : Option Store :=
  addScheduleRecordsWith ScheduleRecord.getNext env choices rs s

/-! ## Removing and looking up -/

def removeScheduleRecordUnlocked (s : Store) (id : ℕ) : Store :=
  { s with
    byTime := s.byTime.filter fun e ↦ s.handleOf e.2 ≠ s.handleOf id
    byHandle := s.byHandle.erase (s.handleOf id) }

/-- The lookup of `getMyTask`, `removeTask` and `removeTasks`. -/
def findMyTask (s : Store) (clientId : String) (hndl : ℤ) : Option ℕ :=
  (s.byHandle.lookup hndl).filter fun id ↦ clientId = (s.record id).clientId

def getMyTask (s : Store) (clientId : String) (hndl : ℤ) : String :=
  match s.findMyTask clientId hndl with
  | none => ""
  | some id => (s.record id).task

def myTasks (s : Store) (clientId : String) : List ℕ :=
  s.byTime.values.filter fun id ↦ (s.record id).clientId = clientId

def getMyTasks (s : Store) (clientId : String) : List String :=
  (s.myTasks clientId).map fun id ↦ (s.record id).task

def removeTask (clientId : String) (s : Store) (hndl : ℤ) : Store :=
  match s.findMyTask clientId hndl with
  | none => s
  | some id => s.removeScheduleRecordUnlocked id

def removeTasks (clientId : String) (s : Store) (hndls : List ℤ) : Store :=
  hndls.foldl (removeTask clientId) s

def removeAllMyTasks (clientId : String) (s : Store) : Store :=
  { s with
    byTime := s.byTime.filter fun e ↦ (s.record e.2).clientId ≠ clientId
    byHandle := (s.myTasks clientId).foldl (fun m id ↦ m.erase (s.handleOf id)) s.byHandle }

def remove (s : Store) : Removal → Store
  | .removeTask clientId hndl => s.removeTask clientId hndl
  | .removeTasks clientId hndls => s.removeTasks clientId hndls
  | .removeAllMyTasks clientId => s.removeAllMyTasks clientId

/-! ## One turn of the timer's inner loop -/

/-- The record is erased, asked for its next time, which may set its `m_started`,
and inserted again unless that time is over. -/
def rescheduleWith (next : NextTime) (s : Store) (id : ℕ) (timePoint : ℤ) (timeStr : Tm) : Store :=
  let (tp, r) := next (s.record id) timePoint timeStr
  { s with
    records := s.records.set id r
    byTime := if timePoint ≤ tp then s.byTime.eraseBegin.insert tp id else s.byTime.eraseBegin }

/-- The entry that is due at `timePoint`, if any. -/
def due (s : Store) (timePoint : ℤ) : Option (ℤ × ℕ) :=
  s.byTime.entries.head?.filter fun e ↦ e.1 < timePoint

/-- The section of the inner loop between `lock()` and `nextWakeupAndUnlock`. -/
def timerSectionWith (next : NextTime) (s : Store) (timePoint : ℤ) (timeStr : Tm) : Store :=
  match s.due timePoint with
  | none => s
  | some e => s.rescheduleWith next e.2 timePoint timeStr

def timerSection (s : Store) (timePoint : ℤ) (timeStr : Tm) : Store :=
  s.timerSectionWith ScheduleRecord.getNext timePoint timeStr

/-- `nextWakeupAndUnlock`: the time of the next wake-up. -/
def nextWakeup (s : Store) (timePoint : ℤ) : ℤ :=
  match s.byTime.entries.head? with
  | none => timePoint + seconds 10
  | some e => e.1

end Store

end IqrfDaemon.Scheduler
