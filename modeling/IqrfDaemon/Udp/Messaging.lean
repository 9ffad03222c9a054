import IqrfDaemon.Scheduler.Record
import IqrfDaemon.Udp.Encode

/-!
# The UDP messaging

`UdpMessaging` answers the datagrams of the IDE.  A datagram that the decoder
accepts gets exactly one reply, built from the request's own buffer, and a write
request hands its payload to the exclusive channel if there is one.  What has been
pushed to the reply queue and sent to the channel is kept as a history.
-/

namespace IqrfDaemon.Udp

open Crc (Byte Word)
open Scheduler (Tm)

/-! ## Commands -/

def iqrfUdpGetGwInfo : Byte := 0x01

def iqrfUdpGetGwStatus : Byte := 0x02

def iqrfUdpWriteIqrf : Byte := 0x03

def iqrfUdpIqrfSpiData : Byte := 0x04

def iqrfUdpAck : Byte := 0x50

def iqrfUdpNak : Byte := 0x60

inductive UdpGwStatus
  | trStatus
  | unused2
  | supplyExt
  | timeSec
  | timeMin
  | timeHour
  | timeWday
  | timeMday
  | timeMon
  | timeYear
  | unused11
  | unused12
  deriving DecidableEq, Repr

def UdpGwStatus.index : UdpGwStatus → ℕ
  | trStatus => 0
  | unused2 => 1
  | supplyExt => 2
  | timeSec => 3
  | timeMin => 4
  | timeHour => 5
  | timeWday => 6
  | timeMday => 7
  | timeMon => 8
  | timeYear => 9
  | unused11 => 10
  | unused12 => 11

/-! ## The gateway's answers -/

/-- What the daemon, the channel and the platform report while a reply is built. -/
structure Gateway where
  daemonVersion : List Byte
  listeningMacAddress : List Byte
  listeningIpAddress : List Byte
  osVersion : List Byte
  osBuild : List Byte
  localtime : Tm

/-- The bytes of a literal. -/
def literal (s : String) : List Byte := s.toList.map fun c ↦ BitVec.ofNat 8 c.toNat

def crlf : List Byte := [0x0d, 0x0a]

def getGwIdent (gw : Gateway) : List Byte :=
  crlf ++ literal "iqrf-daemon" ++ crlf ++
    gw.daemonVersion ++ crlf ++
    gw.listeningMacAddress ++ crlf ++
    literal "0.00" ++ crlf ++
    gw.listeningIpAddress ++ crlf ++
    literal "iqrf_xxxx" ++ crlf ++
    gw.osVersion ++ literal "(" ++ gw.osBuild ++ literal ")" ++ crlf ++
    gw.listeningIpAddress ++ crlf

def getGwStatus (gw : Gateway) : List Byte :=
  let ltm := gw.localtime
  let message := resize [] (UdpGwStatus.unused12.index + 1)
  let message := message.set UdpGwStatus.trStatus.index 0x80
  let message := message.set UdpGwStatus.supplyExt.index 0x01
  let message := message.set UdpGwStatus.timeSec.index (BitVec.ofInt 8 ltm.tm_sec)
  let message := message.set UdpGwStatus.timeMin.index (BitVec.ofInt 8 ltm.tm_min)
  let message := message.set UdpGwStatus.timeHour.index (BitVec.ofInt 8 ltm.tm_hour)
  let message := message.set UdpGwStatus.timeWday.index (BitVec.ofInt 8 ltm.tm_wday)
  let message := message.set UdpGwStatus.timeMday.index (BitVec.ofInt 8 ltm.tm_mday)
  let message := message.set UdpGwStatus.timeMon.index (BitVec.ofInt 8 ltm.tm_mon)
  message.set UdpGwStatus.timeYear.index (BitVec.ofInt 8 (ltm.tm_year.tmod 100))

@[simp]
theorem length_getGwStatus (gw : Gateway) : (getGwStatus gw).length = 12 := by
  simp [getGwStatus, resize, UdpGwStatus.index]

/-! ## Handling a datagram -/

/-- The bytes of a DPA message up to its length. -/
abbrev DpaMessage := List Byte

/-- `success` is not initialised, and `forwarded` tells whether the pointer is set: it
then points to the transaction of a client. -/
structure UdpMessagingTransaction where
  message : DpaMessage
  success : Option Bool
  forwarded : Bool
  deriving DecidableEq

/-- The constructor. -/
def UdpMessagingTransaction.create (forwarded : Bool) : UdpMessagingTransaction where
  message := []
  success := none
  forwarded := forwarded

/-- Whether the exclusive channel is set, what was pushed to `m_toUdpMessageQueue` and
what was sent to the exclusive channel. -/
structure UdpMessaging where
  operationalTransaction : UdpMessagingTransaction
  exclusiveChannel : Bool
  toUdpMessageQueue : List (List Byte)
  sentTo : List (List Byte)
  deriving DecidableEq

namespace UdpMessaging

/-- After `start`. -/
def create : UdpMessaging := ⟨.create false, false, [], []⟩

def pushToQueue (s : UdpMessaging) (udpMessage : List Byte) : UdpMessaging :=
  { s with toUdpMessageQueue := s.toUdpMessageQueue ++ [udpMessage] }

def sendTo (s : UdpMessaging) (message : List Byte) : UdpMessaging :=
  { s with sentTo := s.sentTo ++ [message] }

/-- `setExclusive`, where `chan` tells whether the pointer is set. -/
def setExclusive (s : UdpMessaging) (chan : Bool) : UdpMessaging :=
  { s with exclusiveChannel := chan }

def resetExclusive (s : UdpMessaging) : UdpMessaging := { s with exclusiveChannel := false }

end UdpMessaging

/-- `udpResponse[cmd] = udpResponse[cmd] | 0x80`. -/
def markResponse (udpResponse : List Byte) : List Byte :=
  udpResponse.set UdpHeader.cmd.index (udpResponse.getD UdpHeader.cmd.index 0 ||| 0x80)

/-- `handleMessageFromUdp` with its return value. -/
def handleMessageFromUdp (gw : Gateway) (s : UdpMessaging) (udpMessage : Buffer) :
    UdpMessaging × ℤ :=
  match decodeResult udpMessage with
  | .error _ => (s, -1)
  | .ok message =>
      let cmd := udpMessage.get UdpHeader.cmd.index
      if cmd = iqrfUdpGetGwInfo then
        let udpResponse := markResponse udpMessage.bytes
        (s.pushToQueue (encodeMessageUdp udpResponse (getGwIdent gw)), 0)
      else if cmd = iqrfUdpGetGwStatus then
        let udpResponse := markResponse udpMessage.bytes
        (s.pushToQueue (encodeMessageUdp udpResponse (getGwStatus gw)), 0)
      else if cmd = iqrfUdpWriteIqrf then
        let udpResponse := markResponse (udpMessage.bytes.take iqrfUdpHeaderSize)
        let udpResponse := udpResponse.set UdpHeader.subcmd.index iqrfUdpAck
        let s := s.pushToQueue (encodeMessageUdp udpResponse [])
        (if s.exclusiveChannel then s.sendTo message else s, 0)
      else
        let udpResponse := markResponse udpMessage.bytes
        let udpResponse := udpResponse.set UdpHeader.subcmd.index iqrfUdpNak
        (s.pushToQueue (encodeMessageUdp udpResponse []), -1)

/-! ## Requests and replies -/

/-- The payload of the reply to a request. -/
def replyPayload (gw : Gateway) (cmd : Byte) : List Byte :=
  if cmd = iqrfUdpGetGwInfo then getGwIdent gw
  else if cmd = iqrfUdpGetGwStatus then getGwStatus gw
  else []

/-- The header of the reply to a request, where the encoder takes it over. -/
def replyHeader (u : Buffer) : UdpHeader → Byte
  | .cmd => u.get UdpHeader.cmd.index ||| 0x80
  | .subcmd =>
      let cmd := u.get UdpHeader.cmd.index
      if cmd = iqrfUdpGetGwInfo ∨ cmd = iqrfUdpGetGwStatus then u.get UdpHeader.subcmd.index
      else if cmd = iqrfUdpWriteIqrf then iqrfUdpAck
      else iqrfUdpNak
  | field => u.get field.index

theorem length_of_decodeResult_ok {u : Buffer} {m : List Byte} (h : decodeResult u = .ok m) :
    11 ≤ u.bytes.length := by
  by_contra hshort
  rw [decodeResult, decodeMessageUdp_eq, if_pos (by omega)] at h
  cases h

theorem UdpHeader.index_injective : Function.Injective UdpHeader.index := by
  intro f g h
  cases f <;> cases g <;> first | rfl | cases h

theorem UdpHeader.index_lt (field : UdpHeader) : field.index < 9 := by
  cases field <;> decide

theorem getD_set_index {l : List Byte} (hlen : 9 ≤ l.length) (f field : UdpHeader) (x : Byte) :
    (l.set f.index x).getD field.index 0 = if field = f then x else l.getD field.index 0 := by
  have hi : f.index < l.length := f.index_lt.trans_le hlen
  simp only [List.getD_eq_getElem?_getD]
  by_cases hf : field = f
  · rw [if_pos hf, hf, List.getElem?_set_self hi, Option.getD_some]
  · have hne : f.index ≠ field.index := fun h ↦ hf (UdpHeader.index_injective h).symm
    rw [if_neg hf, List.getElem?_set_ne hne]

theorem Buffer.getD_take (u : Buffer) (hlen : 9 ≤ u.bytes.length) (field : UdpHeader) :
    (u.bytes.take 9).getD field.index 0 = u.get field.index := by
  have hi := field.index_lt
  have hi' : field.index < u.bytes.length := by omega
  rw [List.getD_eq_getElem?_getD, List.getElem?_take_of_lt hi, List.getElem?_eq_getElem hi',
    Option.getD_some, u.get_eq_getElem hi']

theorem Buffer.getD_bytes (u : Buffer) (hlen : 9 ≤ u.bytes.length) (field : UdpHeader) :
    u.bytes.getD field.index 0 = u.get field.index := by
  have hi : field.index < u.bytes.length := field.index_lt.trans_le hlen
  rw [List.getD_eq_getElem?_getD, List.getElem?_eq_getElem hi, Option.getD_some,
    u.get_eq_getElem hi]

@[simp]
theorem length_markResponse (b : List Byte) : (markResponse b).length = b.length :=
  List.length_set

/-- A template that agrees with the request on the header agrees with it after the
marking, except for the command. -/
theorem getD_markResponse {u : Buffer} {b : List Byte} (hlen : 9 ≤ b.length)
    (hb : ∀ field : UdpHeader, b.getD field.index 0 = u.get field.index) (field : UdpHeader) :
    (markResponse b).getD field.index 0 =
      if field = .cmd then u.get UdpHeader.cmd.index ||| 0x80 else u.get field.index := by
  rw [markResponse, getD_set_index hlen, hb, hb]

/-- What an accepted request leads to: a reply encoded from a template with the
header of a reply, and the payload of a write sent to the channel. -/
theorem handleMessageFromUdp_of_ok (gw : Gateway) (s : UdpMessaging) {u : Buffer} {m : List Byte}
    (h : decodeResult u = .ok m) :
    ∃ udpResponse : List Byte,
      (handleMessageFromUdp gw s u).1 =
        { s with
          toUdpMessageQueue := s.toUdpMessageQueue ++
            [encodeMessageUdp udpResponse (replyPayload gw (u.get UdpHeader.cmd.index))]
          sentTo := s.sentTo ++
            if u.get UdpHeader.cmd.index = iqrfUdpWriteIqrf ∧ s.exclusiveChannel = true then [m]
            else [] } ∧
      ∀ field : UdpHeader, udpResponse.getD field.index 0 = replyHeader u field := by
  have hlen : 9 ≤ u.bytes.length := (by decide : 9 ≤ 11).trans (length_of_decodeResult_ok h)
  have hwhole := getD_markResponse hlen (u.getD_bytes hlen)
  have htake : 9 ≤ (u.bytes.take 9).length := by simp [hlen]
  have hheader := getD_markResponse htake (u.getD_take hlen)
  simp only [handleMessageFromUdp, h, replyPayload, replyHeader]
  by_cases hinfo : u.get UdpHeader.cmd.index = iqrfUdpGetGwInfo
  · refine ⟨markResponse u.bytes, ?_, fun field ↦ ?_⟩
    · simp [hinfo, UdpMessaging.pushToQueue, iqrfUdpGetGwInfo, iqrfUdpWriteIqrf]
    · rw [hwhole]
      cases field <;> simp [hinfo]
  by_cases hstatus : u.get UdpHeader.cmd.index = iqrfUdpGetGwStatus
  · refine ⟨markResponse u.bytes, ?_, fun field ↦ ?_⟩
    · simp [hstatus, UdpMessaging.pushToQueue, iqrfUdpGetGwInfo, iqrfUdpGetGwStatus,
        iqrfUdpWriteIqrf]
    · rw [hwhole]
      cases field <;> simp [hstatus]
  by_cases hwrite : u.get UdpHeader.cmd.index = iqrfUdpWriteIqrf
  · rw [hwrite] at hinfo hstatus
    refine ⟨(markResponse (u.bytes.take 9)).set UdpHeader.subcmd.index iqrfUdpAck, ?_,
      fun field ↦ ?_⟩
    · simp only [hwrite, hinfo, hstatus, if_false, if_true, true_and, iqrfUdpHeaderSize]
      cases hchannel : s.exclusiveChannel <;>
        simp [hchannel, UdpMessaging.pushToQueue, UdpMessaging.sendTo]
    · rw [getD_set_index (by simpa using htake), hheader]
      cases field <;> simp [hinfo, hstatus, hwrite]
  · refine ⟨(markResponse u.bytes).set UdpHeader.subcmd.index iqrfUdpNak, ?_, fun field ↦ ?_⟩
    · simp [hinfo, hstatus, hwrite, UdpMessaging.pushToQueue]
    · rw [getD_set_index (by simpa using hlen), hwhole]
      cases field <;> simp [hinfo, hstatus, hwrite]

/-- A reply that the decoder itself accepts, with the header that answers the request. -/
structure IsReply (gw : Gateway) (u : Buffer) (reply : List Byte) : Prop where
  accepted : ∀ beyond, decodeResult ⟨reply, beyond⟩ =
    .ok (replyPayload gw (u.get UdpHeader.cmd.index))
  header : ∀ field : UdpHeader, field.kept = true → reply.getD field.index 0 = replyHeader u field

theorem isReply_encodeMessageUdp {gw : Gateway} (hident : (getGwIdent gw).length ≤ 1013)
    {u : Buffer} {udpResponse : List Byte}
    (h : ∀ field : UdpHeader, udpResponse.getD field.index 0 = replyHeader u field) :
    IsReply gw u
      (encodeMessageUdp udpResponse (replyPayload gw (u.get UdpHeader.cmd.index))) := by
  have hshort : (replyPayload gw (u.get UdpHeader.cmd.index)).length ≤ 1013 := by
    rw [replyPayload]
    split_ifs
    · exact hident
    · simp
    · simp
  rw [encodeMessageUdp_eq_frame _ hshort]
  constructor
  · intro beyond
    have hdecode := decodeResult_frame udpResponse hshort [] beyond
    rwa [List.append_nil] at hdecode
  · intro field hf
    rw [getD_frame_of_kept _ _ hf, h]

/-- A datagram that the decoder rejects leaves no trace, an accepted one is answered
by one well-formed reply, and the payload of a write reaches the exclusive channel if
there is one. -/
theorem handleMessageFromUdp_reply (gw : Gateway) (s : UdpMessaging) (u : Buffer)
    (hident : (getGwIdent gw).length ≤ 1013) :
    (∀ err, decodeResult u = .error err → (handleMessageFromUdp gw s u).1 = s) ∧
      ∀ m, decodeResult u = .ok m →
        ∃ reply, IsReply gw u reply ∧
          (handleMessageFromUdp gw s u).1 =
            { s with
              toUdpMessageQueue := s.toUdpMessageQueue ++ [reply]
              sentTo := s.sentTo ++
                if u.get UdpHeader.cmd.index = iqrfUdpWriteIqrf ∧ s.exclusiveChannel = true then
                  [m]
                else [] } := by
  constructor
  · intro err herr
    simp only [handleMessageFromUdp, herr]
  · intro m hm
    obtain ⟨udpResponse, hs, hheader⟩ := handleMessageFromUdp_of_ok gw s hm
    exact ⟨_, isReply_encodeMessageUdp hident hheader, hs⟩

def exampleGateway : Gateway where
  daemonVersion := literal "v1.0.0"
  listeningMacAddress := literal "00 11 22 33 44 55"
  listeningIpAddress := literal "192.168.2.100"
  osVersion := literal "3.08D"
  osBuild := literal "0879"
  localtime :=
    { tm_sec := 5, tm_min := 4, tm_hour := 3, tm_mday := 2, tm_mon := 0, tm_year := 118,
      tm_wday := 2, sec_nonneg := by decide, sec_le := by decide }

/-- A write request with the payload 1, 2. -/
def writeRequest : Buffer where
  bytes := [0x20, 3, 0, 0, 0, 0, 7, 0, 2, 1, 2, 1, 0x72]
  beyond _ := 0

def exclusiveMessaging : UdpMessaging := UdpMessaging.create.setExclusive true

theorem handleMessageFromUdp_reply_write :
    (∀ err, decodeResult writeRequest = .error err →
      (handleMessageFromUdp exampleGateway exclusiveMessaging writeRequest).1 =
        exclusiveMessaging) ∧
      ∀ m, decodeResult writeRequest = .ok m →
        ∃ reply, IsReply exampleGateway writeRequest reply ∧
          (handleMessageFromUdp exampleGateway exclusiveMessaging writeRequest).1 =
            { exclusiveMessaging with
              toUdpMessageQueue := exclusiveMessaging.toUdpMessageQueue ++ [reply]
              sentTo := exclusiveMessaging.sentTo ++
                if writeRequest.get UdpHeader.cmd.index = iqrfUdpWriteIqrf ∧
                    exclusiveMessaging.exclusiveChannel = true then
                  [m]
                else [] } :=
  handleMessageFromUdp_reply exampleGateway exclusiveMessaging writeRequest (by decide +kernel)

example : decodeResult writeRequest = .ok [1, 2] := by decide

end IqrfDaemon.Udp
