import IqrfDaemon.Bridge.Protocol
import IqrfDaemon.Serializer.Agreement

/-!
# Binary fields of a reply

`ProtocolBridgeJson` writes the serial number, the firmware version, the bitmaps and the
messages of packets with `bytesToHexaString`, which puts an `uint8_t` into a stream in base
sixteen.  An `uint8_t` is a character to the stream, so each byte is written as itself behind
a zero, and the request's notation never says what was received.
-/

namespace IqrfDaemon.Bridge

open Json Serializer

/-- An array of the language, which has some memory behind its end. -/
def toArray {n : ℕ} (a : Fin n → Byte) (i : ℕ) : Byte :=
  if h : i < n then a ⟨i, h⟩ else 0

/-! ## Encoders -/

/-- `ss << std::setw(2) << c` for an `unsigned char`: the base is for numbers only, the width and
the fill are not.  The text is read byte by byte. -/
def putByte (b : Byte) : List Char :=
  List.leftpad 2 '0' [Char.ofNat b.toNat]

def bytesToHexaString (data : ℕ → Byte) (len : ℕ) : List Char :=
  (List.range len).flatMap fun i ↦ putByte (data i) ++ if i ≠ len - 1 then ['.'] else []

def binaryMember (name : String) (data : ℕ → Byte) (len : ℕ) : String × Value :=
  (name, .string (String.ofList (bytesToHexaString data len)))

def natMember {w : ℕ} (name : String) (v : BitVec w) : String × Value := (name, .int v.toNat)

def boolMember (name : String) (b : Bool) : String × Value := (name, .bool b)

/-- The texts of the temperature and of the power voltage, scaled from their words. -/
structure Scales where
  temperature : Word → String
  powerVoltage : Word → String

def encodeSysinfoResponse (scales : Scales) (r : SysinfoResponse) : List (String × Value) :=
  [binaryMember "SerialNumber" (toArray r.serialNumber) 12,
    natMember "VisibleMetersNum" r.visibleMetersNum,
    natMember "ReadedMetersNum" r.readedMetersNum,
    ("Temperature", .real (scales.temperature r.temperature)),
    ("PowerVoltage", .real (scales.powerVoltage r.powerVoltage)),
    binaryMember "FirmwareVersion" (toArray r.firmwareVersion) 5,
    natMember "SleepCount" r.sleepCount,
    natMember "WmbTimeout" r.wmbTimeout,
    natMember "wmbAllReaedTimeout" r.wmbAllReaedTimeout,
    natMember "NodeTimeout" r.nodeTimeout,
    boolMember "AnyPacketNode" r.anyPacketNode,
    natMember "CountToInvisible" r.countToInvisible,
    natMember "Checksum" r.checksum]

/-- `encodeGetNewVisibleResponse` and the three other encoders of a bitmap. -/
def encodeMetersResponse (r : MetersResponse) : List (String × Value) :=
  [natMember "MetersNum" r.metersNum, binaryMember "Bitmap" (toArray r.bitmap) 38]

/-- `encodeGetCompactPacketResponse` and `encodeGetFullPacketResponse` -/
def encodePacketResponse (r : PacketResponse) : List (String × Value) :=
  [natMember "MeterIndex" r.meterIndex,
    binaryMember "VmbusMsg" (fun i ↦ r.vmbusMsg i) vmbusMaxFrameLen,
    natMember "MsgLen" r.msgLen,
    natMember "Rssi" r.rssi,
    natMember "Crc" r.crc,
    natMember "AfterReceiptWmbusChecksum" r.afterReceiptWmbusChecksum,
    natMember "CountedWmbusChecksum" r.countedWmbusChecksum]

def encodeConfirmationResponse (r : ConfirmationResponse) : List (String × Value) :=
  [natMember "ConfirmedNum" r.confirmedNum, boolMember "ActionResult" r.actionResult]

def encodeSetResponse (r : SetResponse) : List (String × Value) :=
  [natMember "RequestValue" r.requestValue, boolMember "ActionResult" r.actionResult]

/-- The members between the common ones and the time, by the command of the last request. -/
def ProtocolBridge.encodeResponse (scales : Scales) (bridge : ProtocolBridge) :
    Except Failure (List (String × Value)) :=
  match bridge.cmd with
  | .sysinfo => .ok (encodeSysinfoResponse scales bridge.sysinfoResponse)
  | .getNewVisible => .ok (encodeMetersResponse bridge.newVisibleMetersResponse)
  | .getNewInvisible => .ok (encodeMetersResponse bridge.newInvisibleMetersResponse)
  | .getAllVisible => .ok (encodeMetersResponse bridge.allVisibleMetersResponse)
  | .getNewDataInfo => .ok (encodeMetersResponse bridge.newDataInfoResponse)
  | .getCompactPacket => .ok (encodePacketResponse bridge.compactPacketResponse)
  | .getFullPacket => .ok (encodePacketResponse bridge.fullPacketResponse)
  | .getVisibleConfirmation => .ok (encodeConfirmationResponse bridge.visibleConfirmationResponse)
  | .getInvisibleConfirmation =>
      .ok (encodeConfirmationResponse bridge.invisibleConfirmationResponse)
  | .sleepNow => .ok [natMember "RequestValue" bridge.sleepNowResponse]
  | .deleteId => .ok [natMember "MeterIndex" bridge.deleteIdResponse]
  | .deleteAll => .ok [boolMember "ActionResult" bridge.deleteAllResponse]
  | .setNodeTimeout => .ok (encodeSetResponse bridge.setNodeTimeoutResponse)
  | .setAnyPacketMode => .ok (encodeSetResponse bridge.setAnyPacketModeResponse)
  | .setSleepInterval | .setWmTimeout | .setWmAllReadedTimeout =>
      .error (.logicError "Invalid command: ")

/-! ## What the text says -/

def receivedBytes (data : ℕ → Byte) (len : ℕ) : List Byte := (List.range len).map data

/-- The text is in the dotted notation of two digits, and is decoded to the bytes. -/
def DecodesTo (text : List Char) (maxlen : ℤ) (bytes : List Byte) : Prop :=
  (∃ values, HexNotation '.' values text) ∧ parseBinary text maxlen = .ok bytes

theorem toNat_ofNat_byte (b : Byte) : (Char.ofNat b.toNat).toNat = b.toNat := by
  have hb := b.isLt
  have hvalid : b.toNat.isValidChar := Or.inl (by omega)
  rw [Char.ofNat, dif_pos hvalid]
  rfl

theorem bytesToHexaString_head (data : ℕ → Byte) {len : ℕ} (hlen : 1 ≤ len) :
    ∃ rest, bytesToHexaString data len = '0' :: Char.ofNat (data 0).toNat :: rest := by
  obtain ⟨n, rfl⟩ := Nat.exists_eq_succ_of_ne_zero (Nat.one_le_iff_ne_zero.mp hlen)
  rw [bytesToHexaString, List.range_succ_eq_map, List.flatMap_cons]
  exact ⟨_, rfl⟩

/-- Where the text is in the notation its first value is that of one digit, and the first byte
is the code of the digit. -/
theorem not_decodesTo_bytesToHexaString (data : ℕ → Byte) {len : ℕ} (hlen : 1 ≤ len) {maxlen : ℤ}
    (hmax : len ≤ maxlen) :
    ¬ DecodesTo (bytesToHexaString data len) maxlen (receivedBytes data len) := by
  rintro ⟨⟨values, hdotted⟩, hparse⟩
  rw [parseBinary_take (hdotted.spells (Or.inl rfl))] at hparse
  obtain ⟨rest, htext⟩ := bytesToHexaString_head data hlen
  rw [htext] at hdotted
  obtain ⟨b, more, rfl, hdigits⟩ := hdotted.head
  have hfirst : b = data 0 := by
    obtain ⟨n, rfl⟩ := Nat.exists_eq_succ_of_ne_zero (Nat.one_le_iff_ne_zero.mp hlen)
    obtain ⟨m, hm⟩ : ∃ m, maxlen.toNat = m + 1 := ⟨maxlen.toNat - 1, by omega⟩
    rw [receivedBytes, List.range_succ_eq_map, hm, List.take_succ_cons] at hparse
    exact (List.cons.inj (Except.ok.inj hparse)).1
  have hc : isHexDigit (Char.ofNat (data 0).toNat) = true := hdigits.2.1 _ (by simp)
  have hvalue : hexDigit (Char.ofNat (data 0).toNat) = b.toNat := by
    have hmagnitude := hdigits.2.2
    simpa [hexMagnitude, show hexDigit '0' = 0 by decide] using hmagnitude
  have hlt := hexDigit_lt_toNat hc
  rw [hvalue, hfirst, toNat_ofNat_byte] at hlt
  exact lt_irrefl _ hlt

/-- A serial number of four bytes, with separators between them. -/
def serialNumber : ℕ → Byte := fun i ↦ [0x12, 0x34, 0x56, 0x78].getD i 0

theorem not_decodesTo_serialNumber :
    ¬ DecodesTo (bytesToHexaString serialNumber 4) 4 (receivedBytes serialNumber 4) :=
  not_decodesTo_bytesToHexaString serialNumber (by decide) le_rfl

/-- The byte 12 is decoded as 0. -/
theorem bytesToHexaString_not_decoded :
    ¬ ∀ (data : ℕ → Byte) (len : ℕ) (maxlen : ℤ), 1 ≤ len → len ≤ maxlen →
      DecodesTo (bytesToHexaString data len) maxlen (receivedBytes data len) := by
  intro hclaim
  have hparse := (hclaim (fun _ ↦ 0x12) 1 1 le_rfl le_rfl).2
  have hread : parseBinary (bytesToHexaString (fun _ ↦ 0x12) 1) 1 = .ok [0x00] := by decide
  rw [hread] at hparse
  exact absurd hparse (by decide)

/-! ## The members -/

def binaryNames : List String := ["SerialNumber", "FirmwareVersion", "Bitmap", "VmbusMsg"]

def IsBinary (member : String × Value) : Prop :=
  member.1 ∈ binaryNames → ∃ data len, 1 ≤ len ∧ member = binaryMember member.1 data len

theorem isBinary_binaryMember (name : String) (data : ℕ → Byte) {len : ℕ} (hlen : 1 ≤ len) :
    IsBinary (binaryMember name data len) :=
  fun _ ↦ ⟨data, len, hlen, rfl⟩

theorem isBinary_of_notMem {name : String} (h : name ∉ binaryNames) (v : Value) :
    IsBinary (name, v) :=
  fun hmem ↦ absurd hmem h

theorem isBinary_encodeSysinfoResponse (scales : Scales) (r : SysinfoResponse) :
    ∀ member ∈ encodeSysinfoResponse scales r, IsBinary member := by
  simp only [encodeSysinfoResponse, List.forall_mem_cons]
  refine ⟨isBinary_binaryMember _ _ (by decide), ?_, ?_, ?_, ?_,
    isBinary_binaryMember _ _ (by decide), ?_, ?_, ?_, ?_, ?_, ?_, ?_, by simp⟩
  all_goals exact isBinary_of_notMem (by decide) _

theorem isBinary_encodeMetersResponse (r : MetersResponse) :
    ∀ member ∈ encodeMetersResponse r, IsBinary member := by
  simp only [encodeMetersResponse, List.forall_mem_cons]
  exact ⟨isBinary_of_notMem (by decide) _, isBinary_binaryMember _ _ (by decide), by simp⟩

theorem isBinary_encodePacketResponse (r : PacketResponse) :
    ∀ member ∈ encodePacketResponse r, IsBinary member := by
  simp only [encodePacketResponse, List.forall_mem_cons]
  refine ⟨?_, isBinary_binaryMember _ _ (by decide), ?_, ?_, ?_, ?_, ?_, by simp⟩
  all_goals exact isBinary_of_notMem (by decide) _

theorem isBinary_of_mem_encodeResponse {scales : Scales} {bridge : ProtocolBridge}
    {members : List (String × Value)} (h : bridge.encodeResponse scales = .ok members) :
    ∀ member ∈ members, IsBinary member := by
  unfold ProtocolBridge.encodeResponse at h
  cases hcmd : bridge.cmd <;> rw [hcmd] at h <;> cases h
  case sysinfo => exact isBinary_encodeSysinfoResponse scales _
  case getNewVisible | getNewInvisible | getAllVisible | getNewDataInfo =>
    exact isBinary_encodeMetersResponse _
  case getCompactPacket | getFullPacket => exact isBinary_encodePacketResponse _
  all_goals
    simp only [encodeConfirmationResponse, encodeSetResponse, List.forall_mem_cons]
    simp [IsBinary, binaryNames, natMember, boolMember]

/-- No binary member of a reply is decoded to bytes of its length. -/
theorem not_decodesTo_of_mem_encodeResponse {scales : Scales} {bridge : ProtocolBridge}
    {members : List (String × Value)} (h : bridge.encodeResponse scales = .ok members)
    {name : String} (hname : name ∈ binaryNames) {v : Value} (hmem : (name, v) ∈ members) :
    ∃ data len, v = .string (String.ofList (bytesToHexaString data len)) ∧
      ∀ maxlen : ℤ, len ≤ maxlen →
        ¬ DecodesTo (bytesToHexaString data len) maxlen (receivedBytes data len) := by
  obtain ⟨data, len, hlen, hmember⟩ := isBinary_of_mem_encodeResponse h _ hmem hname
  exact ⟨data, len, congrArg Prod.snd hmember,
    fun maxlen hmax ↦ not_decodesTo_bytesToHexaString data hlen hmax⟩

end IqrfDaemon.Bridge
