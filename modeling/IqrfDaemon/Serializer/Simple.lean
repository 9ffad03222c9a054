import Mathlib.Data.List.Infix
import IqrfDaemon.Scheduler.Pattern
import IqrfDaemon.Serializer.Json

/-!
# The simple serializer

Requests are lines of tokens.  Tokens that set the timeout or the client are
taken out, the rest belongs to the peripheral.
-/

namespace IqrfDaemon.Serializer

open Json Text Scheduler

/-- `std::stoi` in base sixteen.  A prefix `0x` without a digit behind it is a zero. -/
def stoiHex (s : List Char) : Except Failure ℤ :=
  let t := s.dropWhile isSpace
  let unsigned := t.drop (signOf t).length
  let prefixed := (afterPrefix unsigned).takeWhile isHexDigit
  let digits := if prefixed = [] then unsigned.takeWhile isHexDigit else prefixed
  let magnitude := hexMagnitude digits
  let value := if signOf t = ['-'] then -magnitude else magnitude
  if digits = [] ∨ value < -2147483648 ∨ 2147483647 < value then .error (.logicError "stoi")
  else .ok value

/-- `std::string::find` of a word, as a question. -/
def contains (token word : List Char) : Bool := token.tails.any word.isPrefixOf

/-- What a token such as `TIMEOUT=1000` sets: the text behind its first `=`, which must
not be empty. -/
def settingOf (token : List Char) : Except Failure (List Char) :=
  match (token.dropWhile fun c ↦ c ≠ '=').tail with
  | [] => .error (.logicError ("Parse error: " ++ String.ofList token))
  | value => .ok value

variable (lib : DpaLibrary)

/-- `parseTokens`: the settings go to the task, the other tokens remain. -/
def parseTokens (dpaTask : DpaTask lib.Rest) :
    List (List Char) → Except Failure (DpaTask lib.Rest × List (List Char))
  | [] => .ok (dpaTask, [])
  | token :: rest =>
      if contains token "TIMEOUT".toList then do
        let (timeout, _) ← stoi (← settingOf token)
        parseTokens (lib.setTimeout timeout dpaTask) rest
      else if contains token "CLID".toList then do
        let clid ← settingOf token
        parseTokens (lib.setClid (String.ofList clid) dpaTask) rest
      else if token = "timeout".toList then
        match rest with
        | [] => .ok (dpaTask, [])
        | value :: rest => do
            let (timeout, _) ← stoi value
            parseTokens (lib.setTimeout timeout dpaTask) rest
      else do
        let (dpaTask, tokens) ← parseTokens dpaTask rest
        return (dpaTask, token :: tokens)

/-- `parseRequestSimple` -/
def parseRequestSimple (dpaTask : DpaTask lib.Rest) :
    List (List Char) → Except Failure (DpaTask lib.Rest)
  | address :: command :: _ => do
      let (address, _) ← stoi address
      lib.parseCommand (String.ofList command) (lib.setAddress (BitVec.ofInt 16 address) dpaTask)
  | tokens => .error (.logicError ("Parse error: " ++ toString tokens.length))

inductive SimpleClass
  | raw
  | thermometer
  | ledG
  | ledR

structure SimpleTask where
  kind : SimpleClass
  task : DpaTask lib.Rest

/-- The workaround to handle dots: a single token is read again with blanks for them. -/
def retokenize (task : DpaTask lib.Rest) :
    List (List Char) → Except Failure (DpaTask lib.Rest × List (List Char))
  | [dotbuf] => parseTokens lib task (fields isSpace (undot dotbuf))
  | tokens => .ok (task, tokens)

def prfRawSimple (istr : List Char) : Except Failure (SimpleTask lib) := do
  let (task, tokens) ← parseTokens lib lib.dpaRaw (fields isSpace istr)
  let (task, tokens) ← retokenize lib task tokens
  let values ← (tokens.take lib.maxDpaBuffer.toNat).mapM stoiHex
  return ⟨.raw, task.fill 0 (values.map (BitVec.ofInt 8))⟩

def prfThermometerSimple (istr : List Char) : Except Failure (SimpleTask lib) := do
  let (task, tokens) ← parseTokens lib lib.prfThermometer (fields isSpace istr)
  return ⟨.thermometer, ← parseRequestSimple lib task tokens⟩

/-- `PrfLedSimple<PrfLedG>` -/
def prfLedGSimple (istr : List Char) : Except Failure (SimpleTask lib) := do
  let (task, tokens) ← parseTokens lib lib.prfLedG (fields isSpace istr)
  return ⟨.ledG, ← parseRequestSimple lib task tokens⟩

/-- `PrfLedSimple<PrfLedR>` -/
def prfLedRSimple (istr : List Char) : Except Failure (SimpleTask lib) := do
  let (task, tokens) ← parseTokens lib lib.prfLedR (fields isSpace istr)
  return ⟨.ledR, ← parseRequestSimple lib task tokens⟩

/-- The registered creators. -/
def simpleCreators : List (String × (List Char → Except Failure (SimpleTask lib))) :=
  [(lib.thermometerName, prfThermometerSimple lib), (lib.ledGName, prfLedGSimple lib),
    (lib.ledRName, prfLedRSimple lib), (lib.rawName, prfRawSimple lib)]

/-- The body of the `try` block of `SimpleSerializer::parseRequest`. -/
def createSimple (request : String) : Except Failure (SimpleTask lib) :=
  let (perif, istr) := extract [] (some request.toList)
  createObject (simpleCreators lib) (String.ofList perif) (istr.getD [])

end IqrfDaemon.Serializer
