import IqrfDaemon.Scheduler.CronItem

/-!
# Schedule records

A `ScheduleRecord` is a task with its firing rule: one exact time, a period, or
a cron pattern.  The four constructors, `getNext` and `verifyTimePattern` follow
the source.  Time points are nanoseconds since the epoch and handles integers.
The platform supplies the local calendar and the text of a JSON document.
-/

namespace IqrfDaemon.Scheduler

open Json Json.Jutils

def seconds (n : ℤ) : ℤ := n * 1000000000

def toTimeT (tp : ℤ) : ℤ := tp / 1000000000

/-- The fields of `std::tm` the scheduler reads, with the documented range of the
seconds. -/
structure Tm where
  tm_sec : ℤ
  tm_min : ℤ
  tm_hour : ℤ
  tm_mday : ℤ
  tm_mon : ℤ
  tm_year : ℤ
  tm_wday : ℤ
  sec_nonneg : 0 ≤ tm_sec
  sec_le : tm_sec ≤ 60
  deriving DecidableEq

/-- The library functions outside the daemon: `std::localtime` and the pretty
writer of the JSON library. -/
structure Env where
  localtime : ℤ → Tm
  prettyWrite : Value → String

/-- A platform in UTC on the first day of the epoch. -/
def epochDay : Env where
  localtime t :=
    { tm_sec := t % 60
      tm_min := t / 60 % 60
      tm_hour := t / 3600 % 24
      tm_mday := 1
      tm_mon := 0
      tm_year := 70
      tm_wday := 4
      sec_nonneg := by omega
      sec_le := by omega }
  prettyWrite _ := ""

/-- The seconds vector of a pattern: a star, or at least one second, in order. -/
def SecondsOk (vsec : List ℤ) : Prop :=
  vsec = [-1] ∨ vsec ≠ [] ∧ Listed 0 59 vsec

theorem secondsOk_of_parseItem {item : List Char} {val : ℤ} {vsec : List ℤ}
    (h : parseItem item 0 59 [] 0 = .ok (val, vsec)) : SecondsOk vsec := by
  rcases parseItem_ok h with hstar | hlisted
  · exact Or.inl hstar
  · exact Or.inr ⟨parseItem_ne_nil (by decide) h, by simpa using hlisted⟩

structure TimePattern where
  vsec : List ℤ
  vmin : List ℤ
  vhour : List ℤ
  vmday : List ℤ
  vmon : List ℤ
  vyear : List ℤ
  vwday : List ℤ
  seconds_ok : SecondsOk vsec

/-- A record.  `period` and `startTime` have a meaning only for the kinds that set
them; a cron record carries the proof that its seconds vector can be searched. -/
structure ScheduleRecord where
  task : String
  clientId : String
  vsec : List ℤ
  vmin : List ℤ
  vhour : List ℤ
  vmday : List ℤ
  vmon : List ℤ
  vyear : List ℤ
  vwday : List ℤ
  exactTime : Bool
  periodic : Bool
  started : Bool
  period : ℤ
  startTime : ℤ
  taskHandle : ℤ
  seconds_ok : exactTime = false → periodic = false → SecondsOk vsec
  deriving DecidableEq

/-! ## Construction -/

/-- `RandomTaskHandleGenerator::getTaskHandle()` for an outcome of `rand()`. -/
def getTaskHandle (rand : ℤ) : ℤ :=
  if rand = 0 then rand + 1 else rand

/-- `operator>>` into a string: a failed stream stays failed and leaves the string
as it was. -/
def extract (dflt : List Char) : Option (List Char) → List Char × Option (List Char)
  | none => (dflt, none)
  | some input =>
      match input.dropWhile isSpace with
      | [] => (dflt, none)
      | c :: rest => ((c :: rest).takeWhile fun d ↦ !isSpace d,
          some ((c :: rest).dropWhile fun d ↦ !isSpace d))

def nicknames : List (String × String) :=
  [("@reboot", ""),
    ("@yearly", "0 0 0 0 1 1 *"),
    ("@annually", "0 0 0 0 1 1 *"),
    ("@monthly", "0 0 0 0 1 * *"),
    ("@weekly", "0 0 0 * * * 0"),
    ("@daily", "0 0 0 * * * *"),
    ("@hourly", "0 0 * * * * *"),
    ("@minutely", "0 * * * * * *")]

/-- `solveNickname`: the pattern text, empty exactly for `@reboot`, which fixes the
start time instead. -/
def solveNickname (timeSpec : String) : Except Failure String :=
  match timeSpec.toList with
  | [] => .error (.logicError ("Unexpected empty format:" ++ timeSpec))
  | '@' :: _ =>
      match nicknames.lookup timeSpec with
      | some found => .ok found
      | none => .error (.logicError ("Unexpected format:" ++ timeSpec))
  | _ => .ok timeSpec

/-- The seven tokens read from a stream, and the rest of the stream. -/
def parsePattern (input : List Char) : Except Failure (TimePattern × Option (List Char)) :=
  let (sec, input) := extract ['*'] (some input)
  let (mnt, input) := extract ['*'] input
  let (hrs, input) := extract ['*'] input
  let (day, input) := extract ['*'] input
  let (mon, input) := extract ['*'] input
  let (yer, input) := extract ['*'] input
  let (dow, input) := extract ['*'] input
  match h : parseItem sec 0 59 [] 0 with
  | .error e => .error e
  | .ok (_, vsec) => do
      let (_, vmin) ← parseItem mnt 0 59 [] 0
      let (_, vhour) ← parseItem hrs 0 23 [] 0
      let (_, vmday) ← parseItem day 1 31 [] 0
      let (_, vmon) ← parseItem mon 1 12 [] (-1)
      let (_, vyear) ← parseItem yer 0 9000 [] 0
      let (_, vwday) ← parseItem dow 0 6 [] 0
      let pattern : TimePattern :=
        { vsec, vmin, vhour, vmday, vmon, vyear, vwday, seconds_ok := secondsOk_of_parseItem h }
      return (pattern, input)

namespace ScheduleRecord

/-- The constructor behind `scheduleTaskAt`. -/
def atTime (env : Env) (rand : ℤ) (clientId task : String) (tp : ℤ) : ScheduleRecord :=
  let ptm := env.localtime (toTimeT tp)
  { task, clientId
    vsec := [ptm.tm_sec]
    vmin := [ptm.tm_min]
    vhour := [ptm.tm_hour]
    vmday := [ptm.tm_mday]
    vmon := [ptm.tm_mon]
    vyear := [ptm.tm_year]
    vwday := [ptm.tm_wday]
    exactTime := true
    periodic := false
    started := false
    period := 0
    startTime := tp
    taskHandle := getTaskHandle rand
    seconds_ok := by simp }

/-- The constructor behind `scheduleTaskPeriodic`. -/
def everyPeriod (rand : ℤ) (clientId task : String) (sec : ℤ) (tp : ℤ) : ScheduleRecord where
  task := task
  clientId := clientId
  vsec := []
  vmin := []
  vhour := []
  vmday := []
  vmon := []
  vyear := []
  vwday := []
  exactTime := false
  periodic := true
  started := false
  period := sec
  startTime := tp
  taskHandle := getTaskHandle rand
  seconds_ok := by simp

/-- `@reboot`: an exact time at the moment of construction. -/
def atReboot (now : ℤ) (rand : ℤ) (clientId task : String) : ScheduleRecord where
  task := task
  clientId := clientId
  vsec := []
  vmin := []
  vhour := []
  vmday := []
  vmon := []
  vyear := []
  vwday := []
  exactTime := true
  periodic := false
  started := false
  period := 0
  startTime := now
  taskHandle := getTaskHandle rand
  seconds_ok := by simp

def ofPattern (rand : ℤ) (clientId task : String) (p : TimePattern) : ScheduleRecord where
  task := task
  clientId := clientId
  vsec := p.vsec
  vmin := p.vmin
  vhour := p.vhour
  vmday := p.vmday
  vmon := p.vmon
  vyear := p.vyear
  vwday := p.vwday
  exactTime := false
  periodic := false
  started := false
  period := 0
  startTime := 0
  taskHandle := getTaskHandle rand
  seconds_ok := fun _ _ ↦ p.seconds_ok

/-- The constructor from a line of the textual table. -/
def ofText (now : ℤ) (rand : ℤ) (rec : String) : Except Failure ScheduleRecord := do
  let recStr ← solveNickname rec
  if recStr = "" then return atReboot now rand "" ""
  let (pattern, input) ← parsePattern recStr.toList
  let (client, input) := extract [] input
  let task := ((input.getD []).takeWhile fun c ↦ c ≠ '|')
  return ofPattern rand (String.ofList client) (String.ofList task) pattern

/-- The `message` member as a task text. -/
def messageText (env : Env) (rec : Value) : Except Failure String := do
  match ← findMember "message" rec with
  | none => return ""
  | some (.string s) => return cString s
  | some (.object members) => return cString (env.prettyWrite (.object members))
  | some _ => .error (.logicError "Expected: Json Object, detected: message")

/-- The constructor from an element of `TasksJson`. -/
def ofJson (env : Env) (now : ℤ) (rand : ℤ) (rec : Value) :
    Except Failure ScheduleRecord := do
  let tmr ← getMemberAs assertIsString "time" rec
  let tmr ← solveNickname tmr
  if tmr = "" then
    let clientId ← getMemberAs assertIsString "service" rec
    let task ← messageText env rec
    return atReboot now rand clientId task
  let (pattern, _) ← parsePattern tmr.toList
  let clientId ← getMemberAs assertIsString "service" rec
  let task ← messageText env rec
  return ofPattern rand clientId task pattern

/-! ## The next time and the calendar check -/

def isCron (r : ScheduleRecord) : Prop := r.exactTime = false ∧ r.periodic = false

instance (r : ScheduleRecord) : Decidable r.isCron := inferInstanceAs (Decidable (_ ∧ _))

/-- The closest valid second: for a star `0`, else the first one above `asec`, else
the first one of all. -/
def closestSecond (vsec : List ℤ) (asec : ℤ) : ℤ :=
  if vsec.headD 0 < 0 then 0
  else (vsec.find? fun sec ↦ asec < sec).getD (vsec.headD 0)

def remainingSeconds (vsec : List ℤ) (asec : ℤ) : ℤ :=
  let fsec := closestSecond vsec asec
  if fsec ≤ asec then fsec - asec + 60 else fsec - asec

def setStarted (r : ScheduleRecord) (b : Bool) : ScheduleRecord := { r with started := b }

def setHandle (r : ScheduleRecord) (handle : ℤ) : ScheduleRecord := { r with taskHandle := handle }

section Setters

variable (r : ScheduleRecord) (b : Bool) (handle : ℤ)

@[simp] theorem setStarted_exactTime : (r.setStarted b).exactTime = r.exactTime := rfl

@[simp] theorem setStarted_startTime : (r.setStarted b).startTime = r.startTime := rfl

@[simp] theorem setStarted_taskHandle : (r.setStarted b).taskHandle = r.taskHandle := rfl

@[simp] theorem setHandle_taskHandle : (r.setHandle handle).taskHandle = handle := rfl

end Setters

/-- `getNext`: the time, and the record with its `m_started` as the call leaves it. -/
def getNext (r : ScheduleRecord) (actualTimePoint : ℤ) (actualTime : Tm) :
    ℤ × ScheduleRecord :=
  if r.exactTime then (r.startTime, r)
  else if !r.periodic then
    (actualTimePoint + Scheduler.seconds (remainingSeconds r.vsec actualTime.tm_sec), r)
  else if r.started then (actualTimePoint + Scheduler.seconds r.period, r)
  else (r.startTime, r.setStarted true)

def verifyItem (cval : ℤ) (tvalV : List ℤ) : Bool :=
  if 0 < tvalV.length ∧ 0 ≤ tvalV.headD 0 then tvalV.any fun tval ↦ tval = cval else true

def verifyTimePattern (r : ScheduleRecord) (actualTime : Tm) : Bool :=
  if !r.periodic && !r.exactTime then
    verifyItem actualTime.tm_min r.vmin && verifyItem actualTime.tm_hour r.vhour &&
      verifyItem actualTime.tm_mday r.vmday && verifyItem actualTime.tm_mon r.vmon &&
        verifyItem actualTime.tm_year r.vyear && verifyItem actualTime.tm_wday r.vwday
  else true

@[simp] theorem setStarted_verifyTimePattern (r : ScheduleRecord) (b : Bool) (tm : Tm) :
    (r.setStarted b).verifyTimePattern tm = r.verifyTimePattern tm := rfl

theorem remainingSeconds_nonneg {vsec : List ℤ} (h : SecondsOk vsec) (tm : Tm) :
    0 ≤ remainingSeconds vsec tm.tm_sec := by
  have hclosest : 0 ≤ closestSecond vsec tm.tm_sec := by
    rcases h with rfl | ⟨hne, -, hrange⟩
    · exact le_rfl
    · unfold closestSecond
      split
      · exact le_rfl
      · cases hfind : vsec.find? fun sec ↦ tm.tm_sec < sec with
        | none =>
            rw [Option.getD_none]
            omega
        | some v => exact (hrange v (List.mem_of_find?_eq_some hfind)).1
  have hsec := tm.sec_le
  rw [remainingSeconds]
  split_ifs <;> omega

end ScheduleRecord

end IqrfDaemon.Scheduler
