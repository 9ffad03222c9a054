import IqrfDaemon.Bridge.Protocol
import IqrfDaemon.Container.Map
import IqrfDaemon.Transition.Traced

/-!
# The protocol bridge client service

One round of `getAndProcessDataFromMeters` as a program over the history of what it
does.  How its transactions end is a parameter.  A transaction hands a response to
`parseResponse` of its task, and what that throws leaves the round.
-/

namespace IqrfDaemon.Bridge

open Json Serializer Container Transition

/-! ## Transactions -/

structure Request where
  nadr : Word
  hwpid : Word
  cmd : Cmd
  pData : List Byte

def ProtocolBridge.request (bridge : ProtocolBridge) : Request :=
  ⟨bridge.address, bridge.hwpid, bridge.cmd, bridge.pData⟩

/-- The payload of the response, if one arrives, and what `waitFinish` returns.  Without a
response a transaction does not succeed. -/
structure Finish where
  response : Option (ℕ → Byte)
  result : ℤ
  received : result = 0 → response ≠ none

def Finish.Succeeds (finish : Finish) (pData : ℕ → Byte) : Prop :=
  finish.response = some pData ∧ finish.result = 0

def Finish.success (pData : ℕ → Byte) : Finish := ⟨some pData, 0, fun _ ↦ Option.some_ne_none _⟩

def Finish.timeout : Finish := ⟨none, -1, fun h ↦ absurd h (by decide)⟩

structure PacketHeader where
  manufacturer : List Byte
  address : List Byte

/-- What a round does: its FRC command, the transactions with the bridges, the writes to
`confirmationBitmap` by their index, and what it publishes for a bridge and a meter. -/
inductive Event
  | frc (result : ℤ)
  | transaction (request : Request) (finish : Finish)
  | bitmapWrite (index : ℤ)
  | published (bridgeAddress meterIndex : Byte) (header : PacketHeader) (data : List Byte)
      (text : String)

/-- How the transactions of a round end.  The data of the FRC command are what its object
returns, also when the command has failed. -/
structure Network where
  frcMaxNodeByte : ℕ
  frcMax_lt : frcMaxNodeByte < 255
  frcResult : ℤ
  frcData : ℕ → Byte
  finish : List Event → Request → Finish

/-- A network with a successful FRC command, and transactions that end by their request. -/
def Network.answering (frcData : ℕ → Byte) (finish : Request → Finish) : Network where
  frcMaxNodeByte := 62
  frcMax_lt := by decide
  frcResult := 0
  frcData := frcData
  finish _ := finish

abbrev Round : Type → Type := Traced (List Event) Failure

open Traced

def emit (event : Event) : Round Unit := modify fun log ↦ log ++ [event]

/-- `executeDpaTransaction` and `waitFinish`: the task afterwards and the result. -/
def executeDpaTransaction (network : Network) (bridge : ProtocolBridge) :
    Round (ProtocolBridge × ℤ) := do
  let log ← get
  let finish := network.finish log bridge.request
  emit (.transaction bridge.request finish)
  match finish.response with
  | none => pure (bridge, finish.result)
  | some pData => do
      let parsed ← ofExcept (bridge.parseResponse pData)
      pure (parsed, finish.result)

/-- What a transaction makes of its task. -/
def Finish.handedTo (finish : Finish) (bridge : ProtocolBridge) :
    Except Failure ProtocolBridge :=
  match finish.response with
  | none => .ok bridge
  | some pData => bridge.parseResponse pData

section Transactions

variable {network : Network} {bridge parsed : ProtocolBridge} {log : List Event}

theorem emit_returns (event : Event) : Returns (emit event) log ⟨⟩ (log ++ [event]) :=
  Returns.modify _ log

theorem executeDpaTransaction_returns
    (h : (network.finish log bridge.request).handedTo bridge = .ok parsed) :
    Returns (executeDpaTransaction network bridge) log
      (parsed, (network.finish log bridge.request).result)
      (log ++ [.transaction bridge.request (network.finish log bridge.request)]) := by
  refine (Returns.get log).bind ((emit_returns _).bind ?_)
  rw [Finish.handedTo] at h
  cases hresponse : (network.finish log bridge.request).response with
  | none =>
      rw [hresponse] at h
      obtain rfl := Except.ok.inj h
      exact Returns.pure _ _
  | some pData =>
      rw [hresponse] at h
      exact (Returns.ofExcept h _).bind (Returns.pure _ _)

theorem executeDpaTransaction_throws {e : Failure}
    (h : (network.finish log bridge.request).handedTo bridge = .error e) :
    Throws (executeDpaTransaction network bridge) log e
      (log ++ [.transaction bridge.request (network.finish log bridge.request)]) := by
  refine (Returns.get log).bind_throws ((emit_returns _).bind_throws ?_)
  rw [Finish.handedTo] at h
  cases hresponse : (network.finish log bridge.request).response with
  | none =>
      rw [hresponse] at h
      cases h
  | some pData =>
      rw [hresponse] at h
      exact (Throws.ofExcept h _).bind

theorem Finish.Succeeds.handedTo {finish : Finish} {pData : ℕ → Byte}
    (h : finish.Succeeds pData) (bridge : ProtocolBridge) :
    finish.handedTo bridge = bridge.parseResponse pData := by
  rw [Finish.handedTo, h.1]

/-- A command with a case of `parseResponse` is never the reason of an exception. -/
theorem Finish.handedTo_ok (finish : Finish) (hcase : bridge.cmd.hasCase = true) :
    ∃ parsed, finish.handedTo bridge = .ok parsed := by
  rw [handedTo]
  cases finish.response with
  | none => exact ⟨bridge, rfl⟩
  | some pData => exact (bridge.parseResponse_ok_iff pData).mpr hcase

end Transactions

/-! ## The service -/

def ProtocolBridge.setNadr (nadr : Word) (bridge : ProtocolBridge) : ProtocolBridge :=
  { bridge with address := nadr }

/-- The loop of `updateConfiguration` over the configured addresses, with the object that is
made of the pattern for each.  Only `at` is called on the map, so its order is of no account. -/
def watchBridges (protocolBridgeJson : ℤ → ProtocolBridge) :
    List ℤ → Map ℤ ProtocolBridge → Map ℤ ProtocolBridge
  | [], watched => watched
  | protoBridgeAddr :: rest, watched =>
      watchBridges protocolBridgeJson rest (watched.insert protoBridgeAddr
        ((protocolBridgeJson protoBridgeAddr).setNadr (BitVec.ofInt 16 protoBridgeAddr)))

def Addressed (watched : Map ℤ ProtocolBridge) : Prop :=
  ∀ entry ∈ watched.entries, entry.2.address = BitVec.ofInt 16 entry.1

theorem watchBridges_addressed (protocolBridgeJson : ℤ → ProtocolBridge) (vect : List ℤ)
    {watched : Map ℤ ProtocolBridge} (h : Addressed watched) :
    Addressed (watchBridges protocolBridgeJson vect watched) := by
  induction vect generalizing watched with
  | nil => exact h
  | cons protoBridgeAddr rest ih =>
      refine ih fun entry hentry ↦ ?_
      rcases Map.mem_insertEntries hentry with rfl | hentry
      · rfl
      · exact h entry hentry

structure Service where
  sleepPeriod : Word
  wmPeriod : Word
  watchedProtocolBridges : Map ℤ ProtocolBridge
  addressed : Addressed watchedProtocolBridges

def Service.configured (sleepPeriod wmPeriod : Word) (protocolBridgeJson : ℤ → ProtocolBridge)
    (vect : List ℤ) : Service where
  sleepPeriod := sleepPeriod
  wmPeriod := wmPeriod
  watchedProtocolBridges := watchBridges protocolBridgeJson vect .empty
  addressed := watchBridges_addressed protocolBridgeJson vect fun _ hentry ↦ nomatch hentry

structure BridgeStatusData where
  isOn : Bool
  isData : Bool
  isNewVisible : Bool
  isNewInvisible : Bool

def BridgeStatusData.ofByte (dataByte : Byte) : BridgeStatusData where
  isOn := dataByte.getLsbD 0
  isData := dataByte.getLsbD 1
  isNewVisible := dataByte.getLsbD 2
  isNewInvisible := dataByte.getLsbD 3

def addActive (frcData : ℕ → Byte) :
    List ℕ → Map ℕ BridgeStatusData → Map ℕ BridgeStatusData
  | [], activeBridges => activeBridges
  | addr :: rest, activeBridges =>
      addActive frcData rest
        (if (frcData addr).getLsbD 0 then activeBridges.insert addr (.ofByte (frcData addr))
          else activeBridges)

def Network.activeBridgesStatusMap (network : Network) : Map ℕ BridgeStatusData :=
  addActive network.frcData (List.range' 1 network.frcMaxNodeByte) .empty

def getActiveBridgesStatusMap (network : Network) : Round (Map ℕ BridgeStatusData) := do
  emit (.frc network.frcResult)
  pure network.activeBridgesStatusMap

theorem getActiveBridgesStatusMap_returns (network : Network) (log : List Event) :
    Returns (getActiveBridgesStatusMap network) log network.activeBridgesStatusMap
      (log ++ [.frc network.frcResult]) :=
  (emit_returns _).bind (Returns.pure _ _)

/-- The indexes of the set bits, as the type of the list holds them. -/
def metersIndexes (bitmap : Fin 38 → Byte) : List Byte :=
  (List.finRange 38).flatMap fun byteIndex ↦
    ((List.range 8).filter fun bitIndex ↦ (bitmap byteIndex).getLsbD bitIndex).map
      fun bitIndex ↦ BitVec.ofNat 8 (byteIndex * 8 + bitIndex)

/-- `1 << bitIndex` -/
def bit (bitIndex : ℤ) : Byte := (1 : Byte) <<< bitIndex.toNat

/-- The state of the loop over the meters that are to be confirmed.  The indexes of
`confirmationBitmap` are those from 0 to 9; the others stand for the memory around it. -/
structure Confirming where
  bridge : ProtocolBridge
  mapIndex : ℕ
  confirmationBitmap : ℤ → Byte

abbrev ConfirmationCommand := Byte → (ℤ → Byte) → ProtocolBridge → ProtocolBridge

def Confirming.task (command : ConfirmationCommand) (c : Confirming) : ProtocolBridge :=
  (command (BitVec.ofNat 8 c.mapIndex) c.confirmationBitmap c.bridge).setHwpid 0xFFFF

/-- For a meter behind the present map the bitmap is sent, and the next map begins. -/
def Confirming.advance (network : Network) (command : ConfirmationCommand) (meterIndex : Byte)
    (c : Confirming) : Round Confirming :=
  if c.mapIndex * 10 * 8 + 10 * 8 - 1 < meterIndex.toNat then do
    let (bridge, _) ← executeDpaTransaction network (c.task command)
    pure ⟨bridge, c.mapIndex + 1, fun _ ↦ 0⟩
  else pure c

/-- `(meterIndex - mapIndex * 10 * 8) / 8` -/
def Confirming.byteIndex (meterIndex : Byte) (c : Confirming) : ℤ :=
  ((meterIndex.toNat : ℤ) - c.mapIndex * 10 * 8).tdiv 8

/-- `(meterIndex - mapIndex * 10 * 8) % 8` -/
def Confirming.bitIndex (meterIndex : Byte) (c : Confirming) : ℤ :=
  ((meterIndex.toNat : ℤ) - c.mapIndex * 10 * 8).tmod 8

def Confirming.setBit (meterIndex : Byte) (c : Confirming) : Confirming :=
  { c with
    confirmationBitmap := Function.update c.confirmationBitmap (c.byteIndex meterIndex)
      (c.confirmationBitmap (c.byteIndex meterIndex) ||| bit (c.bitIndex meterIndex)) }

def confirmLoop (network : Network) (command : ConfirmationCommand) :
    List Byte → Confirming → Round Confirming
  | [], c => pure c
  | meterIndex :: rest, c => do
      let c ← c.advance network command meterIndex
      emit (.bitmapWrite (c.byteIndex meterIndex))
      confirmLoop network command rest (c.setBit meterIndex)

def mFieldLoop (vmbusMsg : ℤ → Byte) : List ℕ → (firstBytePos : ℤ) → ℤ
  | [], _ => -1
  | i :: rest, firstBytePos =>
      if vmbusMsg i = 0x2C ∧ firstBytePos = i - 1 ∧ i ≠ 0 then firstBytePos
      else mFieldLoop vmbusMsg rest (if vmbusMsg i = 0x2D then i else firstBytePos)

def getMFieldPosition (r : PacketResponse) : ℤ :=
  mFieldLoop r.vmbusMsg (List.range r.msgLen.toNat) (-1)

/-- The `memcpy` calls take what lies at the position, also when none was found. -/
def parseFullPacketResponse (r : PacketResponse) : Accessing PacketHeader := do
  let mFieldPos := getMFieldPosition r
  let manufacturer ← (List.range 2).mapM fun i : ℕ ↦ loadMsg r.vmbusMsg (mFieldPos + i)
  let address ← (List.range 6).mapM fun i : ℕ ↦ loadMsg r.vmbusMsg (mFieldPos + 2 + i)
  return ⟨manufacturer, address⟩

/-! ## The published text -/

def hexChar (n : ℕ) : Char := if n < 10 then Char.ofNat (48 + n) else Char.ofNat (55 + n)

/-- Two upper-case digits and a blank for each byte. -/
def hexText (bytes : List Byte) : String :=
  String.ofList (bytes.flatMap fun b ↦ [hexChar (b.toNat / 16), hexChar (b.toNat % 16), ' '])

def azureText (header : PacketHeader) (data : List Byte) : String :=
  "\x7b\"manufacturer\": \"" ++ hexText header.manufacturer ++ "\",\"address\": \"" ++
    hexText header.address ++ "\",\"data\": \"" ++ hexText data ++ "\"\x7d"

def sendDataIntoAzure (bridgeAddress meterIndex : Byte) (packetHeader : PacketHeader)
    (data : List Byte) : Round Unit :=
  emit (.published bridgeAddress meterIndex packetHeader data (azureText packetHeader data))

/-- The parsing and sending of a packet, in the loop over the meters with new data. -/
def processPacket (bridgeAddress meterIndex : Byte) (r : PacketResponse) : Round Unit :=
  let packetHeader := (parseFullPacketResponse r []).1
  sendDataIntoAzure bridgeAddress meterIndex packetHeader
    ((List.range r.msgLen.toNat).map fun i : ℕ ↦ r.vmbusMsg i)

namespace Service

/-- The bridge at address 1 is the only one. -/
def watching (bridge : ProtocolBridge) : Service := configured 0 0 (fun _ ↦ bridge) [1]

variable (service : Service) (network : Network)

/-- `m_watchedProtocolBridges.at(bridgeAddress).getDpa()`, a copy. -/
def getDpa (bridgeAddress : Byte) : Round ProtocolBridge :=
  match service.watchedProtocolBridges.find bridgeAddress.toNat with
  | some bridge => pure bridge
  | none => throw (.logicError "_Map_base::at")

/-- A helper function: a copy of the bridge makes a request with any HWPID. -/
def requestBridge (bridgeAddress : Byte) (command : ProtocolBridge → ProtocolBridge) :
    Round (ProtocolBridge × ℤ) := do
  let bridge ← service.getDpa bridgeAddress
  executeDpaTransaction network ((command bridge).setHwpid 0xFFFF)

section Lookups

variable {service : Service} {network : Network} {bridgeAddress : Byte} {bridge : ProtocolBridge}

theorem getDpa_returns
    (h : service.watchedProtocolBridges.find bridgeAddress.toNat = some bridge)
    (log : List Event) : Returns (service.getDpa bridgeAddress) log bridge log := by
  rw [getDpa, h]
  exact Returns.pure bridge log

theorem getDpa_throws (h : service.watchedProtocolBridges.find bridgeAddress.toNat = none)
    (log : List Event) :
    Throws (service.getDpa bridgeAddress) log (.logicError "_Map_base::at") log := by
  rw [getDpa, h]
  exact Throws.throw _ log

theorem requestBridge_returns {command : ProtocolBridge → ProtocolBridge}
    {parsed : ProtocolBridge} {log : List Event}
    (hwatched : service.watchedProtocolBridges.find bridgeAddress.toNat = some bridge)
    (hparsed : (network.finish log ((command bridge).setHwpid 0xFFFF).request).handedTo
      ((command bridge).setHwpid 0xFFFF) = .ok parsed) :
    Returns (service.requestBridge network bridgeAddress command) log
      (parsed, (network.finish log ((command bridge).setHwpid 0xFFFF).request).result)
      (log ++ [.transaction ((command bridge).setHwpid 0xFFFF).request
        (network.finish log ((command bridge).setHwpid 0xFFFF).request)]) :=
  (getDpa_returns hwatched log).bind (executeDpaTransaction_returns hparsed)

theorem address_of_watched
    (h : service.watchedProtocolBridges.find bridgeAddress.toNat = some bridge) :
    bridge.address = bridgeAddress.setWidth 16 := by
  rw [service.addressed _ (Map.mem_entries_of_find h)]
  exact BitVec.ofNat_toNat 16 bridgeAddress

end Lookups

/-- The common body of the three functions below. -/
def newMetersIndexes (command : ProtocolBridge → ProtocolBridge)
    (response : ProtocolBridge → MetersResponse) (bridgeAddress : Byte) : Round (List Byte) := do
  let (bridge, result) ← service.requestBridge network bridgeAddress command
  if result = 0 then pure (metersIndexes (response bridge).bitmap) else pure []

def getNewVisibleMetersIndexes : Byte → Round (List Byte) :=
  service.newMetersIndexes network (·.commandGetNewVisible) (·.newVisibleMetersResponse)

def getNewInvisibleMetersIndexes : Byte → Round (List Byte) :=
  service.newMetersIndexes network (·.commandGetNewInvisible) (·.newInvisibleMetersResponse)

def getNewDataMetersIndexes : Byte → Round (List Byte) :=
  service.newMetersIndexes network (·.commandGetNewDataInfo) (·.newDataInfoResponse)

/-- The result of the transaction is not looked at. -/
def getFullPacketResponse (bridgeAddress meterIndex : Byte) : Round PacketResponse := do
  let (bridge, _) ← service.requestBridge network bridgeAddress
    (·.commandGetFullPacket (meterIndex.setWidth 16))
  pure bridge.fullPacketResponse

/-- The common body of `confirmVisibleMeters` and `confirmInvisibleMeters`. -/
def confirmMeters (command : ConfirmationCommand) (bridgeAddress : Byte)
    (newMetersIndexes : List Byte) : Round Unit := do
  let bridge ← service.getDpa bridgeAddress
  let c ← confirmLoop network command newMetersIndexes ⟨bridge, 0, fun _ ↦ 0⟩
  -- send confirmation for last map index
  let _ ← executeDpaTransaction network (c.task command)

def confirmVisibleMeters : Byte → List Byte → Round Unit :=
  service.confirmMeters network ProtocolBridge.commandGetVisibleConfirmation

def confirmInvisibleMeters : Byte → List Byte → Round Unit :=
  service.confirmMeters network ProtocolBridge.commandGetInvisibleConfirmation

def sleepProtocolBridge (bridgeAddress : Byte) : Round Unit := do
  let _ ← service.requestBridge network bridgeAddress (·.commandSleepNow service.sleepPeriod)

/-- The module of the bridge is on for this time. -/
def timeoutWMBProtocolBridge (bridgeAddress : Byte) : Round Unit := do
  let _ ← service.requestBridge network bridgeAddress (·.commandSetWmTimeout service.wmPeriod)

/-- The loop body for a meter with new data. -/
def processMeter (bridgeAddress meterIndex : Byte) : Round Unit := do
  let fullPacketResponse ← service.getFullPacketResponse network bridgeAddress meterIndex
  processPacket bridgeAddress meterIndex fullPacketResponse

/-! The four steps of the loop body for an active bridge. -/

def confirmNewVisible (bridgeAddress : Byte) (status : BridgeStatusData) : Round Unit :=
  if status.isNewVisible then do
    let newVisibleMetersIndexes ← service.getNewVisibleMetersIndexes network bridgeAddress
    service.confirmVisibleMeters network bridgeAddress newVisibleMetersIndexes
    -- set wm module timeout
    service.timeoutWMBProtocolBridge network bridgeAddress
  else pure ()

def confirmNewInvisible (bridgeAddress : Byte) (status : BridgeStatusData) : Round Unit :=
  if status.isNewInvisible then do
    let newInvisibleMetersIndexes ← service.getNewInvisibleMetersIndexes network bridgeAddress
    service.confirmInvisibleMeters network bridgeAddress newInvisibleMetersIndexes
  else pure ()

def newDataMeters (bridgeAddress : Byte) (status : BridgeStatusData) : Round (List Byte) :=
  if status.isData then service.getNewDataMetersIndexes network bridgeAddress else pure []

def processBridge (active : ℕ × BridgeStatusData) : Round Unit := do
  let bridgeAddress := BitVec.ofNat 8 active.1
  service.confirmNewVisible network bridgeAddress active.2
  service.confirmNewInvisible network bridgeAddress active.2
  let newDataMetersIndexes ← service.newDataMeters network bridgeAddress active.2
  forEach (service.processMeter network bridgeAddress) newDataMetersIndexes

def getAndProcessDataFromMeters : Round Unit := do
  let activeBridgesStatusMap ← getActiveBridgesStatusMap network
  forEach (service.processBridge network) activeBridgesStatusMap.entries
  -- send Protocol Bridges into Sleeping mode
  forEach (fun active ↦ service.sleepProtocolBridge network (BitVec.ofNat 8 active.1))
    activeBridgesStatusMap.entries

end Service

end IqrfDaemon.Bridge
