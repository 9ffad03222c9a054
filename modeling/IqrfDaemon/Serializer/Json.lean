import IqrfDaemon.Serializer.DpaTask

/-!
# The JSON serializer

Requests are JSON documents.  The common members are read into `PrfCommonJson`,
which keeps them for the response, and into the task of the DPA library; the
creators add the members of their own type.  The parser of the documents and the
creators of the remaining peripherals are parameters.
-/

namespace IqrfDaemon.Serializer

open Json Json.Jutils

/-- A member text with the flag of its presence, as `m_has_nadr` and `m_nadr`. -/
structure Kept (T : Type) where
  has : Bool
  value : T

/-- `getMemberIfExistsAs<T>`, with the value the member keeps if there is none. -/
def getMemberIfExistsAs {T : Type} (assertIs : String → Value → Except Failure T)
    (name : String) (v : Value) (member : T) : Except Failure (Kept T) :=
  match findMember name v with
  | .ok none => .ok ⟨false, member⟩
  | .ok (some m) => do return ⟨true, ← assertIs name m⟩
  | .error e => .error e

structure PrfCommonJson where
  ctype : Kept String := ⟨false, ""⟩
  type : Kept String := ⟨false, ""⟩
  nadr : Kept String := ⟨false, "0"⟩
  hwpid : Kept String := ⟨false, "0xffff"⟩
  timeoutJ : Kept ℤ := ⟨false, 0⟩
  msgid : Kept String := ⟨false, ""⟩
  requestJ : Kept String := ⟨false, ""⟩
  request_ts : Kept String := ⟨false, ""⟩
  responseJ : Kept String := ⟨false, ""⟩
  response_ts : Kept String := ⟨false, ""⟩
  confirmationJ : Kept String := ⟨false, ""⟩
  confirmation_ts : Kept String := ⟨false, ""⟩
  cmdJ : Kept String := ⟨false, ""⟩
  rcodeJ : Kept String := ⟨false, ""⟩
  dpavalJ : Kept String := ⟨false, ""⟩
  rdataJ : Kept String := ⟨false, ""⟩
  statusJ : String := ""
  doc : List (String × Value) := []
  dotNotation : Bool := true

variable (lib : DpaLibrary)

/-- `parseRequestJson`: the members, and the task they are set in. -/
def parseRequestJson (val : Value) (dpaTask : DpaTask lib.Rest) :
    Except Failure (PrfCommonJson × DpaTask lib.Rest) := do
  let _ ← assertIsObject "" val
  let ctype ← getMemberIfExistsAs assertIsString "ctype" val ""
  let type ← getMemberIfExistsAs assertIsString "type" val ""
  let nadr ← getMemberIfExistsAs assertIsString "nadr" val "0"
  let hwpid ← getMemberIfExistsAs assertIsString "hwpid" val "0xffff"
  let timeoutJ ← getMemberIfExistsAs assertIsInt "timeout" val 0
  let msgid ← getMemberIfExistsAs assertIsString "msgid" val ""
  let requestJ ← getMemberIfExistsAs assertIsString "request" val ""
  let request_ts ← getMemberIfExistsAs assertIsString "request_ts" val ""
  let responseJ ← getMemberIfExistsAs assertIsString "response" val ""
  let response_ts ← getMemberIfExistsAs assertIsString "response_ts" val ""
  let confirmationJ ← getMemberIfExistsAs assertIsString "confirmation" val ""
  let confirmation_ts ← getMemberIfExistsAs assertIsString "confirmation_ts" val ""
  let cmdJ ← getMemberIfExistsAs assertIsString "cmd" val ""
  let rcodeJ ← getMemberIfExistsAs assertIsString "rcode" val ""
  let dpavalJ ← getMemberIfExistsAs assertIsString "dpaval" val ""
  let dpaTask ←
    if nadr.has then (lib.setAddress · dpaTask) <$> parseHexaNum 16 nadr.value.toList
    else pure dpaTask
  let dpaTask ←
    if hwpid.has then (lib.setHwpid · dpaTask) <$> parseHexaNum 16 hwpid.value.toList
    else pure dpaTask
  let dpaTask ← if cmdJ.has then lib.parseCommand cmdJ.value dpaTask else pure dpaTask
  let dpaTask :=
    if timeoutJ.has && 0 ≤ timeoutJ.value then lib.setTimeout timeoutJ.value dpaTask else dpaTask
  return ({ ctype, type, nadr, hwpid, timeoutJ, msgid, requestJ, request_ts, responseJ,
            response_ts, confirmationJ, confirmation_ts, cmdJ, rcodeJ, dpavalJ }, dpaTask)

/-! ## The creators -/

/-- The class of a created object, with the members of its own. -/
inductive JsonClass
  | raw
  | rawHdp (pnum pcmd data : String)
  | thermometer
  | ledG
  | ledR
  | frc
  | io
  | os

/-- A created object: a task of the library that encodes its own response. -/
structure JsonTask where
  kind : JsonClass
  common : PrfCommonJson
  task : DpaTask lib.Rest

variable {lib}

/-- Request bytes stored at an offset, and the length of the packet with them. -/
def DpaTask.fill (task : DpaTask lib.Rest) (offset : ℕ) (bytes : List Byte) : DpaTask lib.Rest :=
  { task with
    request := lib.setLength (offset + bytes.length : ℕ) (task.request.store offset bytes) }

variable (lib)

/-- `parseBinary` keeps that it saw a dot. -/
def PrfCommonJson.noteDots (c : PrfCommonJson) (from_ : String) : PrfCommonJson :=
  { c with dotNotation := c.dotNotation || '.' ∈ from_.toList }

def prfRawJson (val : Value) : Except Failure (JsonTask lib) := do
  let (common, task) ← parseRequestJson lib val lib.dpaRaw
  if !common.requestJ.has then .error (.logicError "Missing member: request")
  else
    let bytes ← parseBinary common.requestJ.value.toList lib.maxDpaBuffer
    return ⟨.raw, common.noteDots common.requestJ.value, task.fill 0 bytes⟩

def prfRawHdpJson (val : Value) : Except Failure (JsonTask lib) := do
  let (common, task) ← parseRequestJson lib val lib.dpaRaw
  let pnum ← getMemberAs assertIsString "pnum" val
  let pcmd ← getMemberAs assertIsString "pcmd" val
  let hwpid ← getMemberAs assertIsString "hwpid" val
  let data ← getPossibleMemberAs assertIsString "rdata" val ""
  let pnumByte ← parseHexaNum 8 pnum.toList
  let request := task.request.store pnumOffset [pnumByte]
  let pcmdByte ← parseHexaNum 8 pcmd.toList
  let request := request.store pcmdOffset [pcmdByte]
  let hwpidWord ← parseHexaNum 16 hwpid.toList
  let request := request.store hwpidOffset (littleEndian hwpidWord)
  let bytes ← parseBinary data.toList lib.dpaMaxDataLength
  let common := { common with hwpid := ⟨common.hwpid.has, hwpid⟩ }
  return ⟨.rawHdp pnum pcmd data, common.noteDots data,
    { task with request }.fill headerSize bytes⟩

def prfThermometerJson (val : Value) : Except Failure (JsonTask lib) := do
  let (common, task) ← parseRequestJson lib val lib.prfThermometer
  return ⟨.thermometer, common, task⟩

/-- `PrfLedJson<PrfLedG>` -/
def prfLedGJson (val : Value) : Except Failure (JsonTask lib) := do
  let (common, task) ← parseRequestJson lib val lib.prfLedG
  return ⟨.ledG, common, task⟩

/-- `PrfLedJson<PrfLedR>` -/
def prfLedRJson (val : Value) : Except Failure (JsonTask lib) := do
  let (common, task) ← parseRequestJson lib val lib.prfLedR
  return ⟨.ledR, common, task⟩

/-! ## The serializer -/

/-- The creators of the peripherals that are not modelled further. -/
structure JsonCreators where
  frc : Value → Except Failure (JsonTask lib)
  io : Value → Except Failure (JsonTask lib)
  os : Value → Except Failure (JsonTask lib)

/-- The registered creators. -/
def jsonCreators (others : JsonCreators lib) :
    List (String × (Value → Except Failure (JsonTask lib))) :=
  [(lib.rawName, prfRawJson lib), ("raw-hdp", prfRawHdpJson lib),
    (lib.thermometerName, prfThermometerJson lib), (lib.ledGName, prfLedGJson lib),
    (lib.ledRName, prfLedRJson lib), (lib.frcName, others.frc), (lib.ioName, others.io),
    (lib.osName, others.os)]

/-- `ObjectFactory::createObject` -/
def createObject {R T : Type} (creators : List (String × (R → Except Failure T))) (id : String)
    (representation : R) : Except Failure T :=
  match creators.lookup id with
  | none => .error (.logicError ("Unregistered creator for: " ++ id))
  | some creator => creator representation

/-- The body of the `try` block of `JsonSerializer::parseRequest`. -/
def createJson (others : JsonCreators lib) (parseString : String → Except Failure Value)
    (request : String) : Except Failure (JsonTask lib) := do
  let doc ← parseString request
  let _ ← assertIsObject "" doc
  let perif ← getMemberAs assertIsString "type" doc
  createObject (jsonCreators lib others) perif doc

/-- A parser that knows the documents of a table. -/
def parsesTo (table : List (String × Value)) (request : String) : Except Failure Value :=
  match table.lookup request with
  | some doc => .ok doc
  | none => .error (.logicError "Json parse error")

/-- Creators that refuse everything. -/
def noCreators : JsonCreators lib where
  frc _ := .error (.logicError "Unexpected command")
  io _ := .error (.logicError "Unexpected command")
  os _ := .error (.logicError "Unexpected command")

end IqrfDaemon.Serializer
