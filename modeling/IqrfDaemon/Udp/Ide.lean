import IqrfDaemon.Udp.Forwarding

/-!
# The other end of the UDP link

The IDE numbers its packets by a counter of sixteen bits and encodes each of them into a
fresh string.  What it sends is a frame, so the gateway takes the message out of it again,
and the reply carries the number of the packet.  A frame that is damaged by a burst off its
length field is refused by either end.
-/

namespace IqrfDaemon.Udp

open Crc (Byte Word getCrcCcitt crcOf messageBits crcOf_zipWith_xor crcOf_ne_zero_of_burst)

/-! ## The encoder of the IDE -/

/-- `encodeMessageUdp` of the IDE, with the counter as it is after the increment. -/
def IqrfIdeDummy.encodeMessageUdp (pacid : Word) (command subcommand : Byte)
    (message udpMessage : List Byte) : List Byte :=
  let dlen : Word := BitVec.ofNat 16 message.length
  let udpMessage := resize udpMessage (iqrfUdpHeaderSize + iqrfUdpCrcSize)
  let udpMessage := udpMessage.set UdpHeader.gwAddr.index iqrfUdpGwAdr
  let udpMessage := udpMessage.set UdpHeader.cmd.index command
  let udpMessage := udpMessage.set UdpHeader.subcmd.index subcommand
  let udpMessage := udpMessage.set UdpHeader.pacidH.index (highByte pacid)
  let udpMessage := udpMessage.set UdpHeader.pacidL.index (lowByte pacid)
  let udpMessage := udpMessage.set UdpHeader.dlenH.index (highByte dlen)
  let udpMessage := udpMessage.set UdpHeader.dlenL.index (lowByte dlen)
  let udpMessage := insertAt udpMessage iqrfUdpHeaderSize message
  let crc : Word := getCrcCcitt (m := Id) (fun i ↦ udpMessage.getD i 0)
    (dlen + BitVec.ofNat 16 iqrfUdpHeaderSize)
  let udpMessage := udpMessage.set (dlen.toNat + iqrfUdpHeaderSize) (highByte crc)
  udpMessage.set (dlen.toNat + iqrfUdpHeaderSize + 1) (lowByte crc)

/-- What the IDE encodes: the number, the command and the message of a packet. -/
structure Packet where
  pacid : Word
  command : Byte
  subcommand : Byte
  message : List Byte
  deriving DecidableEq

namespace Packet

/-- The packet as the IDE sends it: `main` encodes into an empty string. -/
def datagram (p : Packet) : List Byte :=
  IqrfIdeDummy.encodeMessageUdp p.pacid p.command p.subcommand p.message []

def header (p : Packet) : List Byte :=
  [iqrfUdpGwAdr, p.command, p.subcommand, 0, 0, highByte p.pacid, lowByte p.pacid]

/-- Both ends make the same frame of a header and a message. -/
theorem datagram_eq_frame (p : Packet) (hp : p.message.length ≤ 1013) :
    p.datagram = frame p.header p.message := by
  let dlen : Word := BitVec.ofNat 16 p.message.length
  have hpatched : ∀ x y, insertAt (frameHeader p.header dlen ++ [x, y]) 9 p.message =
      if 0 < dlen then insertAt (frameHeader p.header dlen ++ [x, y]) 9 p.message
      else frameHeader p.header dlen ++ [x, y] := by
    intro x y
    rw [inserted_eq p.header [x, y] hp, insertAt, List.take_left' (length_frameHeader _ _),
      List.drop_left' (length_frameHeader _ _)]
  have hdaemon := patched_eq p.header dlen
  rw [← encodeMessageUdp_eq_frame p.header hp]
  simp only [encodeMessageUdp, iqrfUdpHeaderSize, iqrfUdpCrcSize, UdpHeader.index, Nat.reduceAdd]
  rw [hdaemon, ← hpatched]
  rfl

theorem get_datagram (p : Packet) (hp : p.message.length ≤ 1013) (beyond : ℕ → Byte)
    (field : UdpHeader) (hfield : field.kept = true) :
    Buffer.get ⟨p.datagram, beyond⟩ field.index = p.header.getD field.index 0 := by
  rw [datagram_eq_frame p hp, ← getD_frame_of_kept p.header p.message hfield]
  refine (Buffer.getD_bytes ⟨frame p.header p.message, beyond⟩ ?_ field).symm
  change 9 ≤ (frame p.header p.message).length
  rw [length_frame]
  omega

theorem decodeResult_datagram (p : Packet) (hp : p.message.length ≤ 1013) (beyond : ℕ → Byte) :
    decodeResult ⟨p.datagram, beyond⟩ = .ok p.message := by
  have hdecode := decodeResult_frame p.header hp [] beyond
  rwa [List.append_nil, ← datagram_eq_frame p hp] at hdecode

end Packet

/-! ## Replies -/

/-- A well-formed reply to the packet: the payload that its command asks for, under its
command with the top bit set, and with its number. -/
structure Answers (p : Packet) (reply : List Byte) : Prop where
  payload : ∃ gw, ∀ beyond, decodeResult ⟨reply, beyond⟩ = .ok (replyPayload gw p.command)
  cmd : reply.getD UdpHeader.cmd.index 0 = p.command ||| 0x80
  subcmd : reply.getD UdpHeader.subcmd.index 0 =
    if p.command = iqrfUdpGetGwInfo ∨ p.command = iqrfUdpGetGwStatus then p.subcommand
    else if p.command = iqrfUdpWriteIqrf then iqrfUdpAck
    else iqrfUdpNak
  pacid : wordOfBytes (reply.getD UdpHeader.pacidH.index 0)
    (reply.getD UdpHeader.pacidL.index 0) = p.pacid

theorem answers_of_isReply {gw : Gateway} {p : Packet} (hp : p.message.length ≤ 1013)
    {beyond : ℕ → Byte} {reply : List Byte} (h : IsReply gw ⟨p.datagram, beyond⟩ reply) :
    Answers p reply := by
  have hcmd : Buffer.get ⟨p.datagram, beyond⟩ UdpHeader.cmd.index = p.command :=
    p.get_datagram hp beyond .cmd rfl
  constructor
  · have haccepted := h.accepted
    rw [hcmd] at haccepted
    exact ⟨gw, haccepted⟩
  · rw [h.header .cmd rfl, replyHeader, hcmd]
  · rw [h.header .subcmd rfl]
    simp only [replyHeader, hcmd]
    rw [p.get_datagram hp beyond .subcmd rfl]
    rfl
  · rw [h.header .pacidH rfl, h.header .pacidL rfl]
    simp only [replyHeader]
    rw [p.get_datagram hp beyond .pacidH rfl,
      p.get_datagram hp beyond .pacidL rfl]
    exact wordOfBytes_highByte_lowByte p.pacid

theorem length_replyPayload {gw : Gateway} (hident : (getGwIdent gw).length ≤ 1013) (cmd : Byte) :
    (replyPayload gw cmd).length ≤ 1013 := by
  rw [replyPayload]
  split_ifs
  · exact hident
  · simp
  · simp

/-- A frame of the daemon or of the IDE. -/
def IsFrame (d : List Byte) : Prop := ∃ h m : List Byte, m.length ≤ 1013 ∧ d = frame h m

theorem isFrame_datagram {p : Packet} (hp : p.message.length ≤ 1013) : IsFrame p.datagram :=
  ⟨p.header, p.message, hp, p.datagram_eq_frame hp⟩

theorem isFrame_spiDataFrame {m : DpaMessage} (hm : m.length ≤ 1013) :
    IsFrame (spiDataFrame m) :=
  ⟨_, m, hm, encodeMessageUdp_eq_frame _ hm⟩

/-! ## Damage -/

/-- The bytes are changed within sixteen consecutive bits, but not in the length field. -/
def Burst (d d' : List Byte) : Prop :=
  ∃ e : List Byte, d' = List.zipWith (· ^^^ ·) d e ∧ e.length = d.length ∧
    e.getD UdpHeader.dlenH.index 0 = 0 ∧ e.getD UdpHeader.dlenL.index 0 = 0 ∧
    true ∈ messageBits e ∧
    ∃ k, ∀ i, (messageBits e)[i]? = some true → k ≤ i ∧ i < k + 16

/-- The length field still says how long the frame is, so the remainder that the decoder
computes is that of the burst. -/
theorem IsFrame.refused {d d' : List Byte} (hd : IsFrame d) (hburst : Burst d d')
    (beyond : ℕ → Byte) (m : List Byte) : decodeResult ⟨d', beyond⟩ ≠ .ok m := by
  obtain ⟨h, payload, hpayload, rfl⟩ := hd
  obtain ⟨e, rfl, hlength, hhigh, hlow, hne, k, hconfined⟩ := hburst
  rw [length_frame] at hlength
  have hdlen := congrArg BitVec.toNat (dlen_corrupted h payload e beyond hlength hhigh hlow)
  rw [toNat_ofNat_length hpayload] at hdlen
  have hsize : (List.zipWith (· ^^^ ·) (frame h payload) e).length = payload.length + 11 := by
    simp [hlength]
  have hremainder : crcOf (List.zipWith (· ^^^ ·) (frame h payload) e) = crcOf e := by
    rw [crcOf_zipWith_xor (by rw [length_frame, hlength]), crcOf_frame]
    exact BitVec.zero_xor
  intro hdecode
  rw [decodeResult_eq_ok_iff (by rw [hdlen]; exact hsize.ge), hdlen, ← hsize, List.take_length,
    hremainder] at hdecode
  exact crcOf_ne_zero_of_burst hne hconfined hdecode.2.2.1

end IqrfDaemon.Udp
