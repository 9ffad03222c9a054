import IqrfDaemon.Container.Map
import IqrfDaemon.Scheduler.Planned
import IqrfDaemon.Text.Decimal

/-!
# The thermometer service

`ThermometerService` reads the thermometers of its list in a period that a message can change.
Three threads meet: the one that starts the service and later delivers its messages, and which
schedules the reading; the timer of the scheduler, with all its other clients; and the worker
of the scheduler's queue, which reads the thermometers and sends their values.  `m_mtx` keeps
the scheduling and the reading apart.  A message that is no JSON object ends the program, and
with it the run.
-/

namespace IqrfDaemon.Thermometer

open Json Json.Jutils Container Scheduler Text Transition

/-! ## Values -/

/-- A value in sixteenths of a degree if it is valid.  The value of the others is never read. -/
abbrev Val := Option ℤ

/-- How a transaction ends: with the `SixteenthValue` of the response, or with an error. -/
abbrev Outcome := Option (BitVec 16)

/-- The sign and the magnitude of a `SixteenthValue`. -/
def tempi (temp16 : BitVec 16) : ℤ :=
  if temp16 &&& 0x8000#16 ≠ 0 then -(temp16 &&& 0x7FFF#16).toNat else temp16.toNat

/-- `std::to_string` of as many sixteenths: six digits behind the point, and none is cut off. -/
def toString16 (n : ℤ) : List Char :=
  (if n < 0 then ['-'] else []) ++ Nat.toDigits 10 (n.natAbs / 16) ++
    '.' :: zeroPadded 6 (n.natAbs % 16 * 62500)

def Val.text : Val → String
  | none => "NaN"
  | some n => String.ofList (toString16 n)

/-- The message that `processThermometersRead` sends. -/
def response (name : String) (thermometers : List (ℤ × Val)) : Value :=
  .object [("service", .string (cString name)),
    ("Thermometers", .array (thermometers.map fun tmp ↦ .string (Val.text tmp.2)))]

/-! ## Configuration and messages -/

def sendThermometersRead : String := "SEND_THERMOMETERS_READ"
def thermometerService : String := "ThermometerService"

/-- The conversion of an `int` to `uint16_t`. -/
def toUint16 (n : ℤ) : ℕ := (n % 65536).toNat

structure Configuration where
  readPeriod : ℕ
  thermometers : Map ℤ Val

/-- `updateConfiguration` of a service that has just been created. -/
def updateConfiguration (cfg : Value) : Except Failure Configuration := do
  let _ ← assertIsObject "" cfg
  let readPeriod ← getPossibleMemberAs assertIsInt "ReadPeriod" cfg 0
  let vect ← getMemberAsVector assertIsInt "Thermometers" cfg
  return ⟨toUint16 readPeriod, vect.foldl (fun m node ↦ m.insert node none) Map.empty⟩

/-- The library functions outside the service, `PAR` and the text of an exception. -/
structure Environment where
  scheduler : Scheduler.Env
  parseString : String → Except Failure Value
  prettyWriter : Value → String
  what : Failure → String
  par : String → String → String

section Messages

variable (env : Environment)

/-- The body of the `try` block behind the parser: the period asked for. -/
def requestedPeriod (doc : Value) : Except Failure ℤ := do
  let _ ← assertIsObject "" doc
  let service ← getMemberAs assertIsString "service" doc
  if service = "" ∨ service ≠ thermometerService then
    .error (.logicError ("Unexpected: " ++ env.par "service" service))
  else getMemberAs assertIsInt "period" doc

/-- The response and the new period.  `AddMember` asserts that the document is an object, so it
ends the program for a text that is none. -/
def handleMsgFromMessaging (smsg : String) : Except Failure (String × ℕ) :=
  match env.parseString smsg with
  | .ok (.object members) =>
      let (lastError, readPeriod) :=
        match requestedPeriod env (.object members) with
        | .ok period => ("OK", period)
        | .error e => (env.what e, 0)
      .ok (env.prettyWriter (.object (members ++ [("status", .string (cString lastError))])),
        toUint16 readPeriod)
  | _ => .error .abort

/-- The period in force once the messages have been handled. -/
def periodAfter (cfg : Configuration) (received : List String) : ℕ :=
  match received.getLast? with
  | none => cfg.readPeriod
  | some smsg =>
      match handleMsgFromMessaging env smsg with
      | .ok (_, readPeriod) => readPeriod
      | .error _ => 0

end Messages

/-! ## The threads -/

/-- The thread of `start`, which later delivers the messages: where it is in `start` and in
`scheduleReading`.  From `removeTask` on it holds `m_mtx`, and from `notifyTimer` to
`unlockTasks` the scheduler's mutex. -/
inductive CallerPc
  | removeAllMyTasks
  | registerMessageHandler
  | lock
  | removeTask
  | testPeriod
  | scheduleTaskPeriodic (tp : ℤ)
  | notifyTimer (hndl : ℤ)
  | unlockTasks (hndl : ℤ)
  | setHandle (hndl : ℤ)
  | idle
  deriving DecidableEq

namespace CallerPc

def locked : CallerPc → Bool
  | removeTask | testPeriod | scheduleTaskPeriodic _ | notifyTimer _ | unlockTasks _
  | setHandle _ => true
  | removeAllMyTasks | registerMessageHandler | lock | idle => false

def adding : CallerPc → Bool
  | notifyTimer _ | unlockTasks _ => true
  | _ => false

end CallerPc

/-- The worker of the scheduler's queue: with a record in `handleScheduledRecord`, or in
`processThermometersRead` with the values of this round and the thermometers ahead. -/
inductive WorkerPc
  | waiting
  | handle (id : ℕ)
  | lock
  | reading (done : List (ℤ × Val)) (rest : List ℤ)

def WorkerPc.locked : WorkerPc → Bool
  | reading _ _ => true
  | waiting | handle _ | lock => false

/-- A message by the thread that sends it. -/
inductive Message
  | status (text : String)
  | thermometers (text : String)

/-- The members of the service, the scheduler, both threads, how many of the records pushed
the worker has taken, and the history: the messages sent and received and the values read in
each round. -/
structure State where
  scheduler : Scheduler.State
  readPeriod : ℕ
  thermometers : Map ℤ Val
  schdTaskHandle : ℤ
  registered : Bool
  caller : CallerPc
  worker : WorkerPc
  handled : ℕ
  sent : List Message
  received : List String
  rounds : List (List (ℤ × Val))

/-- `scheduler` stands for the timer and the other clients; `caller` has the outcomes of
`rand()` for the call of the scheduler; `message` is delivered to a caller that is idle. -/
inductive Action
  | scheduler (a : Scheduler.Action)
  | caller (rand : ℤ) (rands : List (List ℤ))
  | message (smsg : String)
  | worker (outcome : Outcome)

namespace State

def create (env : Environment) (cfg : Configuration) (now : ℤ) : State where
  scheduler := Scheduler.State.create env.scheduler now
  readPeriod := cfg.readPeriod
  thermometers := cfg.thermometers
  schdTaskHandle := taskHandleInvalid
  registered := false
  caller := .removeAllMyTasks
  worker := .waiting
  handled := 0
  sent := []
  received := []
  rounds := []

/-- The daemon starts the scheduler behind the services, and the caller does its own steps of
an addition. -/
def allows (s : State) : Scheduler.Action → Bool
  | .start => s.registered
  | .addFlag | .addUnlock => !s.caller.adding
  | _ => true

section Steps

variable (env : Environment) (name : String) (s : State)

/-- A call of the scheduler by the caller. -/
def call (a : Scheduler.Action) (next : Scheduler.State → CallerPc) : Option State :=
  ((Scheduler.system env.scheduler).step s.scheduler a).map fun scheduler ↦
    { s with scheduler := scheduler, caller := next scheduler }

def callerStep (rand : ℤ) (rands : List (List ℤ)) : Option State :=
  match s.caller with
  | .removeAllMyTasks =>
      s.call env (.remove (.removeAllMyTasks name)) fun _ ↦ .registerMessageHandler
  | .registerMessageHandler => some { s with registered := true, caller := .lock }
  | .lock => if s.worker.locked then none else some { s with caller := .removeTask }
  | .removeTask =>
      s.call env (.remove (.removeTask name s.schdTaskHandle)) fun _ ↦ .testPeriod
  | .testPeriod =>
      some
        { s with
          caller := if 1 ≤ s.readPeriod then .scheduleTaskPeriodic s.scheduler.now else .idle }
  | .scheduleTaskPeriodic tp =>
      s.call env
        (.add (.scheduleTaskPeriodic name sendThermometersRead s.readPeriod tp rand) rands)
        fun scheduler ↦ .notifyTimer (s.scheduler.store.returnedHandle scheduler.store)
  | .notifyTimer hndl => s.call env .addFlag fun _ ↦ .unlockTasks hndl
  | .unlockTasks hndl => s.call env .addUnlock fun _ ↦ .setHandle hndl
  | .setHandle hndl => some { s with schdTaskHandle := hndl, caller := .idle }
  | .idle => none

def receive (smsg : String) : Option State :=
  if s.caller = .idle then
    match handleMsgFromMessaging env smsg with
    | .ok (response, readPeriod) =>
        some
          { s with
            sent := s.sent ++ [.status response]
            received := s.received ++ [smsg]
            readPeriod := readPeriod
            caller := .lock }
    | .error _ => none
  else none

/-- Whether `handleScheduledRecord` finds the service's handler for a record of the reading. -/
def reads (id : ℕ) : Bool :=
  let record := s.scheduler.store.record id
  s.registered && record.clientId = name && record.task = sendThermometersRead

def workerStep (outcome : Outcome) : Option State :=
  match s.worker with
  | .waiting =>
      (s.scheduler.dispatched[s.handled]?).map fun f ↦
        { s with worker := .handle f.record, handled := s.handled + 1 }
  | .handle id => some { s with worker := if s.reads name id then .lock else .waiting }
  | .lock =>
      if s.caller.locked then none
      else some { s with worker := .reading [] s.thermometers.keys }
  | .reading done (node :: rest) =>
      let val := outcome.map tempi
      some
        { s with
          thermometers := s.thermometers.modify node fun _ ↦ val
          worker := .reading (done ++ [(node, val)]) rest }
  | .reading done [] =>
      some
        { s with
          sent := s.sent ++
            [.thermometers (env.prettyWriter (response name s.thermometers.entries))]
          rounds := s.rounds ++ [done]
          worker := .waiting }

def step : Action → Option State
  | .scheduler a =>
      if s.allows a then
        ((Scheduler.system env.scheduler).step s.scheduler a).map fun scheduler ↦
          { s with scheduler := scheduler }
      else none
  | .caller rand rands => s.callerStep env name rand rands
  | .message smsg => s.receive env smsg
  | .worker outcome => s.workerStep env name outcome

end Steps

end State

def system (env : Environment) (name : String) (cfg : Configuration) : System State Action where
  init s := ∃ now, s = State.create env cfg now
  step := State.step env name

/-- The name is the service's own: from the removal of its old tasks in `start` on no other
client adds or removes tasks under it. -/
def Foreign (env : Environment) (name : String) (s : State) : Action → Prop
  | .scheduler a => s.caller ≠ .removeAllMyTasks → Scheduler.Foreign env.scheduler name a
  | _ => True

end IqrfDaemon.Thermometer
