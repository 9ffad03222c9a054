import Mathlib.Logic.Function.Basic
import IqrfDaemon.Serializer.DpaTask

/-!
# Protocol bridges

The requests to a protocol bridge and what `ProtocolBridge` keeps of its responses.  The
payload of a response has 56 bytes and the message of a packet 45.  Their parsers copy as
many bytes as the bridge says, so both run on into the memory around the arrays, and
every access is recorded.
-/

namespace IqrfDaemon.Bridge

open Json Serializer

/-- `DPA_MAX_DATA_LENGTH`, the size of `PData`. -/
def dpaMaxDataLength : ℕ := 56

def vmbusMaxFrameLen : ℕ := 45

def confirmationBitmapLen : ℕ := 10

inductive Cmd
  | sysinfo
  | getNewVisible
  | getNewInvisible
  | getAllVisible
  | getNewDataInfo
  | getCompactPacket
  | getFullPacket
  | getVisibleConfirmation
  | getInvisibleConfirmation
  | sleepNow
  | deleteId
  | deleteAll
  | setSleepInterval
  | setWmTimeout
  | setWmAllReadedTimeout
  | setNodeTimeout
  | setAnyPacketMode
  deriving DecidableEq, Inhabited

/-- `setPcmd` of `setCmd`. -/
def Cmd.pcmd : Cmd → Byte
  | sysinfo => 0x00
  | getNewVisible | getNewInvisible | getAllVisible | getNewDataInfo | getCompactPacket
  | getFullPacket => 0x01
  | getVisibleConfirmation | getInvisibleConfirmation => 0x03
  | sleepNow | deleteId | deleteAll => 0x04
  | setSleepInterval | setWmTimeout | setWmAllReadedTimeout | setNodeTimeout
  | setAnyPacketMode => 0x02

/-! ## Parsed responses -/

/-- Temperature and voltage before they are scaled. -/
structure SysinfoResponse where
  serialNumber : Fin 12 → Byte
  visibleMetersNum : Word
  readedMetersNum : Word
  temperature : Word
  powerVoltage : Word
  firmwareVersion : Fin 5 → Byte
  sleepCount : Word
  wmbTimeout : Word
  wmbAllReaedTimeout : Word
  nodeTimeout : Word
  anyPacketNode : Bool
  countToInvisible : Byte
  checksum : Byte
  deriving Inhabited

/-- The response to each of the four commands that ask for a bitmap of meters. -/
structure MetersResponse where
  metersNum : Word
  bitmap : Fin 38 → Byte
  deriving Inhabited

/-- `CompactPacketResponse` and `FullPacketResponse`.  The array `vmbusMsg` has the indexes from
0 to 44; the others stand for the memory around it. -/
structure PacketResponse where
  meterIndex : Word
  vmbusMsg : ℤ → Byte
  msgLen : Byte
  rssi : Byte
  crc : Byte
  afterReceiptWmbusChecksum : Byte
  countedWmbusChecksum : Byte
  deriving Inhabited

structure ConfirmationResponse where
  confirmedNum : Byte
  actionResult : Bool
  deriving Inhabited

structure SetResponse where
  requestValue : Word
  actionResult : Bool
  deriving Inhabited

/-- The request, and the parsed responses, which are uninitialised at first. -/
structure ProtocolBridge where
  address : Word
  hwpid : Word
  cmd : Cmd
  pData : List Byte
  sysinfoResponse : SysinfoResponse
  newVisibleMetersResponse : MetersResponse
  newInvisibleMetersResponse : MetersResponse
  allVisibleMetersResponse : MetersResponse
  newDataInfoResponse : MetersResponse
  compactPacketResponse : PacketResponse
  fullPacketResponse : PacketResponse
  visibleConfirmationResponse : ConfirmationResponse
  invisibleConfirmationResponse : ConfirmationResponse
  sleepNowResponse : Word
  deleteIdResponse : Word
  deleteAllResponse : Bool
  setNodeTimeoutResponse : SetResponse
  setAnyPacketModeResponse : SetResponse
  deriving Inhabited

namespace ProtocolBridge

/-! ## Commands -/

/-- A command sets `PData` up to the length of the request. -/
def command (cmd : Cmd) (pData : List Byte) (bridge : ProtocolBridge) : ProtocolBridge :=
  { bridge with cmd := cmd, pData := pData }

def setHwpid (hwpid : Word) (bridge : ProtocolBridge) : ProtocolBridge :=
  { bridge with hwpid := hwpid }

def highByte (w : Word) : Byte := (w >>> 8).setWidth 8

def lowByte (w : Word) : Byte := w.setWidth 8

/-- A check sum behind the three bytes. -/
def checked (p₀ p₁ p₂ : Byte) : List Byte :=
  [p₀, p₁, p₂, 0xff + (p₀ - 0x01) + (p₁ - 0x01) + (p₂ - 0x01)]

def commandGetNewVisible : ProtocolBridge → ProtocolBridge :=
  command .getNewVisible [0x01, 0x00, 0x00]

def commandGetNewInvisible : ProtocolBridge → ProtocolBridge :=
  command .getNewInvisible [0x02, 0x00, 0x00]

def commandGetNewDataInfo : ProtocolBridge → ProtocolBridge :=
  command .getNewDataInfo [0x03, 0x00, 0x00]

def commandGetFullPacket (meterIndex : Word) : ProtocolBridge → ProtocolBridge :=
  command .getFullPacket [0x05, highByte meterIndex, lowByte meterIndex]

def mapBytes (map : ℤ → Byte) : List Byte :=
  (List.range confirmationBitmapLen).map fun i : ℕ ↦ map i

def commandGetVisibleConfirmation (index : Byte) (map : ℤ → Byte) :
    ProtocolBridge → ProtocolBridge :=
  command .getVisibleConfirmation (0x01 :: index :: mapBytes map)

def commandGetInvisibleConfirmation (index : Byte) (map : ℤ → Byte) :
    ProtocolBridge → ProtocolBridge :=
  command .getInvisibleConfirmation (0x02 :: index :: mapBytes map)

def commandSleepNow (sleepTime : Word) : ProtocolBridge → ProtocolBridge :=
  command .sleepNow (checked 0x01 (highByte sleepTime) (lowByte sleepTime))

def commandSetWmTimeout (wmTimeout : Word) : ProtocolBridge → ProtocolBridge :=
  command .setWmTimeout (checked 0x02 (highByte wmTimeout) (lowByte wmTimeout))

end ProtocolBridge

/-! ## Accesses -/

inductive Access
  | readData (i : ℕ)
  | writeMsg (i : ℤ)
  | readMsg (i : ℤ)

def Access.Inside : Access → Prop
  | readData i => i < dpaMaxDataLength
  | writeMsg i | readMsg i => 0 ≤ i ∧ i < vmbusMaxFrameLen

abbrev Accessing := StateM (List Access)

def loadData (pData : ℕ → Byte) (i : ℕ) : Accessing Byte := fun log ↦
  (pData i, log ++ [.readData i])

def loadMsg (vmbusMsg : ℤ → Byte) (i : ℤ) : Accessing Byte := fun log ↦
  (vmbusMsg i, log ++ [.readMsg i])

def storeMsg (vmbusMsg : ℤ → Byte) (i : ℤ) (b : Byte) : Accessing (ℤ → Byte) := fun log ↦
  (Function.update vmbusMsg i b, log ++ [.writeMsg i])

/-! ## Parsers -/

section Parsers

variable (pData : ℕ → Byte)

/-- Two bytes, the higher first. -/
def wordAt (i : ℕ) : Word := pData i ++ pData (i + 1)

def parseSysinfoResponse : SysinfoResponse where
  serialNumber i := pData (1 + i)
  visibleMetersNum := wordAt pData 13
  readedMetersNum := wordAt pData 15
  temperature := wordAt pData 17
  powerVoltage := wordAt pData 19
  firmwareVersion i := pData (21 + i)
  sleepCount := wordAt pData 26
  wmbTimeout := wordAt pData 28
  wmbAllReaedTimeout := wordAt pData 30
  nodeTimeout := wordAt pData 32
  anyPacketNode := pData 34 = 1
  countToInvisible := pData 35
  checksum := pData 36

/-- `parseGetNewVisibleResponse` and the three other parsers of a bitmap. -/
def parseMetersResponse : MetersResponse where
  metersNum := wordAt pData 2
  bitmap i := pData (4 + i)

def parseConfirmationResponse : ConfirmationResponse where
  confirmedNum := pData 3
  actionResult := pData 4 = 1

def parseSetResponse : SetResponse where
  requestValue := wordAt pData 3
  actionResult := pData 5 = 1

def copyMessage : List ℕ → (ℤ → Byte) → Accessing (ℤ → Byte)
  | [], vmbusMsg => pure vmbusMsg
  | i :: rest, vmbusMsg => do
      let b ← loadData pData (3 + i)
      let vmbusMsg ← storeMsg vmbusMsg i b
      copyMessage rest vmbusMsg

/-- `parseGetCompactPacketResponse` and `parseGetFullPacketResponse` -/
def parsePacketResponse (previous : PacketResponse) : Accessing PacketResponse := do
  let length ← loadData pData 0
  let msgLen := length - 1 - 2 - 4
  let high ← loadData pData 2
  let low ← loadData pData 3
  let vmbusMsg ← copyMessage pData (List.range msgLen.toNat) previous.vmbusMsg
  let rssi ← loadData pData (3 + msgLen.toNat)
  let crc ← loadData pData (4 + msgLen.toNat)
  let afterReceiptWmbusChecksum ← loadData pData (5 + msgLen.toNat)
  let countedWmbusChecksum ← loadData pData (6 + msgLen.toNat)
  return { meterIndex := high ++ low, vmbusMsg, msgLen, rssi, crc, afterReceiptWmbusChecksum,
           countedWmbusChecksum }

end Parsers

namespace ProtocolBridge

def parseGetCompactPacketResponse (pData : ℕ → Byte) (bridge : ProtocolBridge) :
    Accessing ProtocolBridge := do
  return { bridge with
    compactPacketResponse := ← parsePacketResponse pData bridge.compactPacketResponse }

def parseGetFullPacketResponse (pData : ℕ → Byte) (bridge : ProtocolBridge) :
    Accessing ProtocolBridge := do
  return { bridge with
    fullPacketResponse := ← parsePacketResponse pData bridge.fullPacketResponse }

/-- `parseResponse`, by the command of the last request. -/
def parseResponse (pData : ℕ → Byte) (bridge : ProtocolBridge) :
    Except Failure ProtocolBridge :=
  match bridge.cmd with
  | .sysinfo => .ok { bridge with sysinfoResponse := parseSysinfoResponse pData }
  | .getNewVisible =>
      .ok { bridge with newVisibleMetersResponse := parseMetersResponse pData }
  | .getNewInvisible =>
      .ok { bridge with newInvisibleMetersResponse := parseMetersResponse pData }
  | .getAllVisible =>
      .ok { bridge with allVisibleMetersResponse := parseMetersResponse pData }
  | .getNewDataInfo => .ok { bridge with newDataInfoResponse := parseMetersResponse pData }
  | .getCompactPacket => .ok (bridge.parseGetCompactPacketResponse pData []).1
  | .getFullPacket => .ok (bridge.parseGetFullPacketResponse pData []).1
  | .getVisibleConfirmation =>
      .ok { bridge with visibleConfirmationResponse := parseConfirmationResponse pData }
  | .getInvisibleConfirmation =>
      .ok { bridge with invisibleConfirmationResponse := parseConfirmationResponse pData }
  | .sleepNow => .ok { bridge with sleepNowResponse := wordAt pData 3 }
  | .deleteId => .ok { bridge with deleteIdResponse := wordAt pData 3 }
  | .deleteAll => .ok { bridge with deleteAllResponse := pData 3 = 1 }
  | .setNodeTimeout => .ok { bridge with setNodeTimeoutResponse := parseSetResponse pData }
  | .setAnyPacketMode => .ok { bridge with setAnyPacketModeResponse := parseSetResponse pData }
  | .setSleepInterval | .setWmTimeout | .setWmAllReadedTimeout =>
      .error (.logicError "Invalid command: ")

end ProtocolBridge

/-- The commands whose responses `parseResponse` has a case for. -/
def Cmd.hasCase : Cmd → Bool
  | setSleepInterval | setWmTimeout | setWmAllReadedTimeout => false
  | _ => true

/-- The commands with a case, but for those that ask for a packet or for the new invisible
meters: what the responses to these say decides which memory is written. -/
def Cmd.isRoutine : Cmd → Bool
  | getFullPacket | getNewInvisible => false
  | cmd => cmd.hasCase

theorem Cmd.hasCase_of_isRoutine {cmd : Cmd} (h : cmd.isRoutine = true) : cmd.hasCase = true := by
  cases cmd <;> first | rfl | cases h

theorem ProtocolBridge.parseResponse_ok_iff (pData : ℕ → Byte) (bridge : ProtocolBridge) :
    (∃ parsed, bridge.parseResponse pData = .ok parsed) ↔ bridge.cmd.hasCase = true := by
  unfold parseResponse
  cases bridge.cmd <;> simp [Cmd.hasCase]

end IqrfDaemon.Bridge
