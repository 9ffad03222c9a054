import IqrfDaemon.Scheduler.CronItem
import IqrfDaemon.Serializer.Hex
import IqrfDaemon.Transition.System

/-!
# The command line client

An interactive session of `iqrfapp`.  A message from the daemon is pushed to a queue, whose
thread puts it into the one slot for messages and sets the flag beside it.  The main thread
reads a command, sends it, waits for the flag and shows what is in the slot.
-/

namespace IqrfDaemon.Iqrfapp

open Json Json.Jutils Text Scheduler Serializer Transition

/-! ## Commands -/

/-- What a command does once its parameters are accepted.  One that sends sets the timeout
before, if it is not `conf`. -/
inductive Command
  | nothing
  | exit
  | readonly (timeout : ℤ)
  | readall
  | send (timeout : Option ℤ)

/-- The words of a line.  If something follows the last of them the stream is not at its end
there, and the reading that fails leaves that word in place. -/
def readParams (command : List Char) : List (List Char) :=
  let words := fields isSpace command
  match command.getLast? with
  | none => [[]]
  | some c => if isSpace c then words ++ [words.getLastD []] else words

section Commands

variable (parseString : String → Except Failure Value) (defaultTimeout : ℤ)

def millis (word value : List Char) : Option ℤ :=
  if word = "timeout".toList then (stoi value).toOption.map Prod.fst else none

def readonlyCmd : List (List Char) → Option Command
  | [_] => some (.readonly defaultTimeout)
  | [_, word, value] => (millis word value).map .readonly
  | _ => none

def readallCmd : List (List Char) → Option Command
  | [_] => some .readall
  | _ => none

def rawCmd : List (List Char) → Option Command
  | [_, _] => some (.send (some defaultTimeout))
  | [_, _, word, value] => (millis word value).map fun timeout ↦ .send (some timeout)
  | _ => none

def confCmd : List (List Char) → Option Command
  | [_, par2] =>
      if par2 ∈ ["operational".toList, "forwarding".toList, "service".toList] then some (.send none)
      else none
  | _ => none

def requestTimeout (json : List Char) : Except Failure ℤ := do
  let doc ← parseString (String.ofList json)
  let _ ← assertIsObject "" doc
  getPossibleMemberAs assertIsInt "timeout" doc defaultTimeout

def jsonCmd : List (List Char) → Option Command
  | [_, json] | [json] =>
      (requestTimeout parseString defaultTimeout json).toOption.map fun timeout ↦
        .send (some timeout)
  | _ => none

/-- `runCmd` up to what it does.  Nothing is a `std::logic_error`, which is caught and ends the
command with the help. -/
def runCmd : List (List Char) → Option Command
  | [] => some .nothing
  | cmd :: rest =>
      if cmd = [] then some .nothing
      else if cmd = "help".toList then some .nothing
      else if cmd = "readonly".toList then readonlyCmd defaultTimeout (cmd :: rest)
      else if cmd = "readall".toList then readallCmd (cmd :: rest)
      else if cmd = "raw".toList then rawCmd defaultTimeout (cmd :: rest)
      else if cmd = "conf".toList then confCmd (cmd :: rest)
      else if cmd = "exit".toList then some .exit
      else jsonCmd parseString defaultTimeout (cmd :: rest)

end Commands

/-! ## The session -/

structure Message where
  serial : ℕ
  data : List Byte
  deriving DecidableEq

/-- Who waits: a command, with the number of messages that had arrived when it was sent, or one
of the two that only listen. -/
inductive Listener
  | command (sentAt : ℕ)
  | readonly
  | readall

inductive Shown
  | received (listener : Listener) (message : Option Message)
  | timeout (listener : Listener)

inductive MainPc
  | prompt
  | sendParamsAsMessage (params : List (List Char))
  | waitForMessageReceived (listener : Listener)
  | showResult (listener : Listener) (res : Bool)
  | exited

/-- The slot is empty at first.  The queue's thread may have a message in hand, between the queue
and the slot. -/
structure State where
  defaultTimeout : ℤ
  actualTimeout : ℤ
  flagMessageReceived : Bool
  messageReceived : Option Message
  msgQueue : List Message
  inHand : Option Message
  arrived : ℕ
  main : MainPc
  sent : List (List Char)
  shown : List Shown

/-- The user enters a line; a message arrives, is taken from the queue and handled; the main
thread sends, wakes up by the flag or after the timeout, and shows. -/
inductive Action
  | line (command : List Char)
  | arrive (data : List Byte)
  | take
  | handleMessageReceived
  | sendParamsAsMessage
  | wake
  | timeout
  | showResult

namespace State

def start (defaultTimeout : ℤ) : State where
  defaultTimeout := defaultTimeout
  actualTimeout := 5000
  flagMessageReceived := false
  messageReceived := none
  msgQueue := []
  inHand := none
  arrived := 0
  main := .prompt
  sent := []
  shown := []

def setTimeout (s : State) (timeout : ℤ) : State :=
  { s with actualTimeout := if 0 ≤ timeout then timeout else s.defaultTimeout }

/-- The accepted command up to its sending or its waiting. -/
def begin (s : State) (params : List (List Char)) : Option Command → State
  | none | some .nothing => s
  | some .exit => { s with main := .exited }
  | some (.readonly timeout) =>
      { s.setTimeout timeout with main := .waitForMessageReceived .readonly }
  | some .readall => { s.setTimeout 0 with main := .waitForMessageReceived .readall }
  | some (.send none) => { s with main := .sendParamsAsMessage params }
  | some (.send (some timeout)) =>
      { s.setTimeout timeout with main := .sendParamsAsMessage params }

def arrive (s : State) (data : List Byte) : State :=
  { s with msgQueue := s.msgQueue ++ [⟨s.arrived, data⟩], arrived := s.arrived + 1 }

def handleMessageReceived (s : State) (message : Message) : State :=
  { s with messageReceived := some message, flagMessageReceived := true, inHand := none }

/-- A failure to send is caught, and the command waits all the same. -/
def sendParamsAsMessage (s : State) (params : List (List Char)) : State :=
  { s with
    sent := s.sent ++ [params.flatMap fun par ↦ par ++ [' ']]
    main := .waitForMessageReceived (.command s.arrived) }

def wake (s : State) (listener : Listener) (res : Bool) : State :=
  { s with flagMessageReceived := false, main := .showResult listener res }

/-- The slot is read without the lock.  Only `readall` waits again, without a timeout. -/
def showResult (s : State) (listener : Listener) (res : Bool) : State :=
  let result := if res then Shown.received listener s.messageReceived else .timeout listener
  let s := { s with shown := s.shown ++ [result] }
  match listener with
  | .readall => { s.setTimeout 0 with main := .waitForMessageReceived .readall }
  | .readonly | .command _ => { s with main := .prompt }

def step (parseString : String → Except Failure Value) (s : State) : Action → Option State
  | .line command =>
      match s.main with
      | .prompt =>
          let params := readParams command
          some (s.begin params (runCmd parseString s.defaultTimeout params))
      | _ => none
  | .arrive data => some (s.arrive data)
  | .take =>
      match s.inHand, s.msgQueue with
      | none, message :: rest => some { s with inHand := some message, msgQueue := rest }
      | _, _ => none
  | .handleMessageReceived => s.inHand.map s.handleMessageReceived
  | .sendParamsAsMessage =>
      match s.main with
      | .sendParamsAsMessage params => some (s.sendParamsAsMessage params)
      | _ => none
  -- both exits of the wait look at the flag under the lock, and reset it
  | .wake =>
      match s.main with
      | .waitForMessageReceived listener =>
          if s.flagMessageReceived then some (s.wake listener true) else none
      | _ => none
  | .timeout =>
      match s.main with
      | .waitForMessageReceived listener =>
          if 0 < s.actualTimeout ∧ s.flagMessageReceived = false then some (s.wake listener false)
          else none
      | _ => none
  | .showResult =>
      match s.main with
      | .showResult listener res => some (s.showResult listener res)
      | _ => none

end State

def session (parseString : String → Except Failure Value) : System State Action where
  init s := ∃ defaultTimeout, 0 ≤ defaultTimeout ∧ s = .start defaultTimeout
  step := State.step parseString

end IqrfDaemon.Iqrfapp
