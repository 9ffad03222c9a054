import IqrfDaemon.Udp.Checksum
import IqrfDaemon.Udp.Decode

/-!
# Encoding a UDP datagram

`encodeMessageUdp` turns whatever lies in its buffer into a frame: it keeps six
header bytes, patches the address and the length, inserts the payload in front of
two stale bytes and overwrites these with the CRC.  In closed form the frame is the
header, the payload and their CRC, which brings the register back to zero.  The
decoder accepts exactly the datagrams that begin with such a frame.
-/

namespace IqrfDaemon.Udp

open Crc

/-! ## The encoder -/

/-- `resize(n, '\0')` of a string. -/
def resize (s : List Byte) (n : ℕ) : List Byte := s.take n ++ List.replicate (n - s.length) 0

/-- `insert(pos, s)` of a string. -/
def insertAt (s : List Byte) (pos : ℕ) (message : List Byte) : List Byte :=
  s.take pos ++ message ++ s.drop pos

def highByte (x : Word) : Byte := ((x >>> 8) &&& 0xff).setWidth 8

def lowByte (x : Word) : Byte := (x &&& 0xff).setWidth 8

def encodeMessageUdp (udpMessage message : List Byte) : List Byte :=
  let dlen : Word := BitVec.ofNat 16 message.length
  let udpMessage := resize udpMessage (iqrfUdpHeaderSize + iqrfUdpCrcSize)
  let udpMessage := udpMessage.set UdpHeader.gwAddr.index iqrfUdpGwAdr
  let udpMessage := udpMessage.set UdpHeader.dlenH.index (highByte dlen)
  let udpMessage := udpMessage.set UdpHeader.dlenL.index (lowByte dlen)
  let udpMessage :=
    if 0 < dlen then insertAt udpMessage iqrfUdpHeaderSize message else udpMessage
  let crc : Word := getCrcCcitt (m := Id) (fun i ↦ udpMessage.getD i 0)
    (dlen + BitVec.ofNat 16 iqrfUdpHeaderSize)
  let udpMessage := udpMessage.set (dlen.toNat + iqrfUdpHeaderSize) (highByte crc)
  udpMessage.set (dlen.toNat + iqrfUdpHeaderSize + 1) (lowByte crc)

/-! ## The frame in closed form -/

/-- The header of a frame: the patched fields, the rest from the buffer. -/
def frameHeader (h : List Byte) (dlen : Word) : List Byte :=
  [iqrfUdpGwAdr, h.getD 1 0, h.getD 2 0, h.getD 3 0, h.getD 4 0, h.getD 5 0, h.getD 6 0,
    highByte dlen, lowByte dlen]

def withCrc (body : List Byte) : List Byte :=
  body ++ [highByte (crcOf body), lowByte (crcOf body)]

def frame (h m : List Byte) : List Byte := withCrc (frameHeader h (BitVec.ofNat 16 m.length) ++ m)

theorem crcLoop_eq_crcFrom (load : ℕ → Byte) (indexes : List ℕ) (crc : Word) :
    crcLoop (m := Id) load indexes crc = crcFrom crc (indexes.map load) := by
  induction indexes generalizing crc with
  | nil => rfl
  | cons i rest ih => exact ih _

theorem getCrcCcitt_eq_crcOf {load : ℕ → Byte} {len : Word} (bytes : List Byte)
    (hlen : len.toNat ≤ bytes.length) (hload : ∀ i (hi : i < bytes.length), load i = bytes[i]) :
    getCrcCcitt (m := Id) load len = crcOf (bytes.take len.toNat) := by
  have hmap : (List.range len.toNat).map load = bytes.take len.toNat := by
    apply List.ext_getElem
    · simp [hlen]
    · intro i hi hi'
      rw [List.getElem_map, List.getElem_range, List.getElem_take]
      exact hload i _
  rw [getCrcCcitt, crcLoop_eq_crcFrom, hmap]
  rfl

theorem resize_eq_map_range (s : List Byte) (n : ℕ) :
    resize s n = (List.range n).map fun i ↦ s.getD i 0 := by
  apply List.ext_getElem
  · simp [resize]
    omega
  · intro i hi hi'
    have hn : i < n := by simpa using hi'
    rw [List.getElem_map, List.getElem_range, List.getD_eq_getElem?_getD]
    by_cases hs : i < s.length
    · simp [resize, List.getElem_append_left, hs, hn]
    · simp [resize, List.getElem_append_right, hs, Nat.not_lt.mp hs]

theorem toNat_ofNat_length {m : List Byte} (hm : m.length ≤ 1013) :
    (BitVec.ofNat 16 m.length).toNat = m.length := by
  rw [BitVec.toNat_ofNat]
  omega

@[simp]
theorem length_frameHeader (h : List Byte) (dlen : Word) : (frameHeader h dlen).length = 9 := rfl

/-- The two stale bytes behind the body are overwritten with its CRC. -/
theorem set_set_eq_withCrc (body : List Byte) (x y : Byte) :
    ((body ++ [x, y]).set body.length (highByte (crcOf body))).set (body.length + 1)
      (lowByte (crcOf body)) = withCrc body := by
  simp [withCrc, List.set_append_right]

/-- The buffer with its fixed fields patched: a header and two stale bytes. -/
theorem patched_eq (h : List Byte) (dlen : Word) :
    (((resize h 11).set 0 iqrfUdpGwAdr).set 7 (highByte dlen)).set 8 (lowByte dlen) =
      frameHeader h dlen ++ [h.getD 9 0, h.getD 10 0] := by
  rw [resize_eq_map_range]
  rfl

theorem inserted_eq (h stale : List Byte) {m : List Byte} (hm : m.length ≤ 1013) :
    (if 0 < BitVec.ofNat 16 m.length then
        insertAt (frameHeader h (BitVec.ofNat 16 m.length) ++ stale) 9 m
      else frameHeader h (BitVec.ofNat 16 m.length) ++ stale) =
      frameHeader h (BitVec.ofNat 16 m.length) ++ m ++ stale := by
  cases m with
  | nil => rfl
  | cons c rest =>
      rw [if_pos (BitVec.lt_def.mpr (by rw [toNat_ofNat_length hm]; simp)), insertAt,
        List.take_left' (length_frameHeader _ _), List.drop_left' (length_frameHeader _ _)]

theorem encodeMessageUdp_eq_frame (h : List Byte) {m : List Byte} (hm : m.length ≤ 1013) :
    encodeMessageUdp h m = frame h m := by
  let dlen : Word := BitVec.ofNat 16 m.length
  let body := frameHeader h dlen ++ m
  let stale := [h.getD 9 0, h.getD 10 0]
  have hdlen : dlen.toNat + 9 = body.length := by
    simp [body, dlen, toNat_ofNat_length hm, Nat.add_comm]
  have hcrc : getCrcCcitt (m := Id) (fun i ↦ (body ++ stale).getD i 0) (dlen + 9#16) =
      crcOf body := by
    have hlen : (dlen + 9#16).toNat = body.length := by
      rw [toNat_dlen_add_header (by simp [dlen, toNat_ofNat_length hm]; omega), hdlen]
    rw [getCrcCcitt_eq_crcOf (body ++ stale), hlen, List.take_left]
    · simp [hlen]
    · intro i hi
      rw [List.getD_eq_getElem?_getD, List.getElem?_eq_getElem hi, Option.getD_some]
  have hencode : encodeMessageUdp h m =
      ((body ++ stale).set (dlen.toNat + 9) (highByte (crcOf body))).set (dlen.toNat + 9 + 1)
        (lowByte (crcOf body)) := by
    have hinserted : _ = body ++ stale := inserted_eq h stale hm
    simp only [encodeMessageUdp, iqrfUdpHeaderSize, iqrfUdpCrcSize, UdpHeader.index,
      Nat.reduceAdd, patched_eq]
    rw [hinserted, ← hcrc]
  rw [hencode, hdlen]
  exact set_set_eq_withCrc body _ _

/-! ## Bytes of a word -/

theorem wordOfBytes_eq_xor (high low : Byte) :
    wordOfBytes high low = (high.setWidth 16 <<< 8) ^^^ low.setWidth 16 := by
  have hdisjoint : (high.setWidth 16 <<< 8) &&& low.setWidth 16 = 0#16 := by
    apply BitVec.eq_of_getLsbD_eq
    intro i hi
    by_cases hi8 : i < 8
    · simp [hi8]
    · simp [BitVec.getLsbD_of_ge low i (by omega)]
  rw [wordOfBytes, BitVec.add_eq_or_of_and_eq_zero _ _ hdisjoint]
  apply BitVec.eq_of_getLsbD_eq
  intro i hi
  by_cases hi8 : i < 8
  · simp [hi8]
  · simp [BitVec.getLsbD_of_ge low i (by omega)]

theorem getLsbD_highByte (x : Word) {i : ℕ} (hi : i < 8) :
    (highByte x).getLsbD i = x.getLsbD (8 + i) := by
  have hmask : (0xff : Word).getLsbD i = true :=
    (by decide : ∀ i < 8, (0xff : Word).getLsbD i = true) i hi
  rw [highByte, BitVec.getLsbD_setWidth, BitVec.getLsbD_and, BitVec.getLsbD_ushiftRight, hmask]
  simp [hi]

theorem getLsbD_lowByte (x : Word) {i : ℕ} (hi : i < 8) :
    (lowByte x).getLsbD i = x.getLsbD i := by
  have hmask : (0xff : Word).getLsbD i = true :=
    (by decide : ∀ i < 8, (0xff : Word).getLsbD i = true) i hi
  rw [lowByte, BitVec.getLsbD_setWidth, BitVec.getLsbD_and, hmask]
  simp [hi]

theorem getLsbD_wordOfBytes_low (high low : Byte) {i : ℕ} (hi : i < 8) :
    (wordOfBytes high low).getLsbD i = low.getLsbD i := by
  simp [wordOfBytes_eq_xor, hi, show i < 16 by omega]

theorem getLsbD_wordOfBytes_high (high low : Byte) {i : ℕ} (hi : i < 8) :
    (wordOfBytes high low).getLsbD (8 + i) = high.getLsbD i := by
  simp [wordOfBytes_eq_xor, hi, show 8 + i < 16 by omega]

theorem wordOfBytes_highByte_lowByte (x : Word) : wordOfBytes (highByte x) (lowByte x) = x := by
  apply BitVec.eq_of_getLsbD_eq
  intro i hi
  by_cases hi8 : i < 8
  · rw [getLsbD_wordOfBytes_low _ _ hi8, getLsbD_lowByte _ hi8]
  · obtain ⟨j, rfl⟩ := Nat.exists_eq_add_of_le (Nat.le_of_not_lt hi8)
    have hj : j < 8 := by omega
    rw [getLsbD_wordOfBytes_high _ _ hj, getLsbD_highByte _ hj]

theorem highByte_wordOfBytes (high low : Byte) : highByte (wordOfBytes high low) = high := by
  apply BitVec.eq_of_getLsbD_eq
  intro i hi
  rw [getLsbD_highByte _ hi, getLsbD_wordOfBytes_high _ _ hi]

theorem lowByte_wordOfBytes (high low : Byte) : lowByte (wordOfBytes high low) = low := by
  apply BitVec.eq_of_getLsbD_eq
  intro i hi
  rw [getLsbD_lowByte _ hi, getLsbD_wordOfBytes_low _ _ hi]

/-- A message followed by its CRC. -/
theorem crcOf_append_pair_eq_zero_iff (body : List Byte) (high low : Byte) :
    crcOf (body ++ [high, low]) = 0 ↔ wordOfBytes high low = crcOf body := by
  rw [crcOf, crcFrom_append, crcFrom_pair_eq_zero_iff, wordOfBytes_eq_xor]
  exact eq_comm

@[simp]
theorem crcOf_withCrc (body : List Byte) : crcOf (withCrc body) = 0 :=
  (crcOf_append_pair_eq_zero_iff _ _ _).mpr (wordOfBytes_highByte_lowByte _)

/-! ## What the decoder accepts -/

theorem Buffer.get_eq_getElem (u : Buffer) {i : ℕ} (hi : i < u.bytes.length) :
    u.get i = u.bytes[i] := by
  rw [Buffer.get, List.getElem?_eq_getElem hi, Option.getD_some]

theorem Buffer.take_add_two (u : Buffer) {k : ℕ} (hk : k + 1 < u.bytes.length) :
    u.bytes.take (k + 2) = u.bytes.take k ++ [u.get k, u.get (k + 1)] := by
  rw [u.get_eq_getElem hk, u.get_eq_getElem (by omega), List.take_succ_eq_append_getElem hk,
    List.take_succ_eq_append_getElem (by omega), List.append_assoc]
  rfl

/-- A datagram as long as it says is accepted on its address, its length field and the
remainder of its frame, and then the payload is what its length field covers. -/
theorem decodeResult_eq_ok_iff {u : Buffer} (hfit : u.dlen.toNat + 11 ≤ u.bytes.length)
    (m : List Byte) :
    decodeResult u = .ok m ↔
      u.get 0 = iqrfUdpGwAdr ∧ u.dlen.toNat ≤ 1013 ∧
        crcOf (u.bytes.take (u.dlen.toNat + 11)) = 0 ∧ m = (u.bytes.drop 9).take u.dlen.toNat := by
  have htake := u.take_add_two (k := 9 + u.dlen.toNat) (by omega)
  rw [show 9 + u.dlen.toNat + 2 = u.dlen.toNat + 11 by omega] at htake
  rw [decodeResult, decodeMessageUdp_eq, if_neg (by omega)]
  by_cases haddr : u.get 0 = iqrfUdpGwAdr
  swap
  · simp [haddr]
  rw [if_neg (not_not.mpr haddr)]
  by_cases hlong : 1024 < u.dlen.toNat + 11
  · rw [if_pos hlong]
    simp
    omega
  have hcrc : getCrcCcitt (m := Id) u.get (u.dlen + 9#16) =
      crcOf (u.bytes.take (9 + u.dlen.toNat)) := by
    have hlen := toNat_dlen_add_header (d := u.dlen) (by omega)
    rw [getCrcCcitt_eq_crcOf u.bytes (by omega) (fun i hi ↦ u.get_eq_getElem hi), hlen,
      Nat.add_comm]
  rw [if_neg hlong, htake, crcOf_append_pair_eq_zero_iff, hcrc]
  simp only [haddr, true_and, show u.dlen.toNat ≤ 1013 by omega]
  split
  case isTrue h => simp [h, eq_comm]
  case isFalse h => simp [h]

/-! ## Round trips -/

@[simp]
theorem length_frame (h m : List Byte) : (frame h m).length = m.length + 11 := by
  simp [frame, withCrc]
  omega

@[simp]
theorem crcOf_frame (h m : List Byte) : crcOf (frame h m) = 0 := crcOf_withCrc _

/-- Fields of the header that the encoder takes over. -/
def UdpHeader.kept : UdpHeader → Bool
  | cmd | subcmd | res0 | res1 | pacidH | pacidL => true
  | gwAddr | dlenH | dlenL => false

theorem getD_frame_of_kept (h m : List Byte) {field : UdpHeader} (hf : field.kept = true) :
    (frame h m).getD field.index 0 = h.getD field.index 0 := by
  cases field <;> first | rfl | cases hf

theorem dlen_frame (h : List Byte) {m : List Byte} (rest : List Byte) (beyond : ℕ → Byte) :
    Buffer.dlen ⟨frame h m ++ rest, beyond⟩ = BitVec.ofNat 16 m.length :=
  wordOfBytes_highByte_lowByte _

/-- A frame is accepted, whatever follows it. -/
theorem decodeResult_frame (h : List Byte) {m : List Byte} (hm : m.length ≤ 1013)
    (rest : List Byte) (beyond : ℕ → Byte) :
    decodeResult ⟨frame h m ++ rest, beyond⟩ = .ok m := by
  have hdlen : (Buffer.dlen ⟨frame h m ++ rest, beyond⟩).toNat = m.length := by
    rw [dlen_frame, toNat_ofNat_length hm]
  rw [decodeResult_eq_ok_iff]
  · refine ⟨rfl, by omega, ?_, ?_⟩
    · rw [hdlen, List.take_left' (length_frame h m), crcOf_frame]
    · rw [hdlen]
      simp [frame, withCrc, frameHeader]
  · rw [hdlen]
    simp

/-- Whatever the buffer holds, the decoder takes the payload out of the encoded frame,
whose length and remaining header fields are those of the payload and the buffer. -/
theorem decodeMessageUdp_encodeMessageUdp (h m : List Byte) (beyond : ℕ → Byte)
    (hm : m.length ≤ 1013) :
    decodeResult ⟨encodeMessageUdp h m, beyond⟩ = .ok m ∧
      (encodeMessageUdp h m).length = m.length + 11 ∧
        ∀ field ∈ [UdpHeader.cmd, .subcmd, .res0, .res1, .pacidH, .pacidL],
          (encodeMessageUdp h m).getD field.index 0 = h.getD field.index 0 := by
  rw [encodeMessageUdp_eq_frame h hm]
  refine ⟨?_, length_frame h m, fun field hf ↦ getD_frame_of_kept h m ?_⟩
  · have hdecode := decodeResult_frame h hm [] beyond
    rwa [List.append_nil] at hdecode
  · revert field
    decide

theorem decodeMessageUdp_encodeMessageUdp_write :
    decodeResult ⟨encodeMessageUdp [0, 3] [1, 2], fun _ ↦ 0⟩ = .ok [1, 2] ∧
      (encodeMessageUdp [0, 3] [1, 2]).length = 2 + 11 ∧
        ∀ field ∈ [UdpHeader.cmd, .subcmd, .res0, .res1, .pacidH, .pacidL],
          (encodeMessageUdp [0, 3] [1, 2]).getD field.index 0 = [0, 3].getD field.index 0 :=
  decodeMessageUdp_encodeMessageUdp [0, 3] [1, 2] (fun _ ↦ 0) (by decide)

/-- The header of a datagram with the right address is the header of its frame. -/
theorem frameHeader_eq_take {u : Buffer} (hlen : 9 ≤ u.bytes.length)
    (haddr : u.get 0 = iqrfUdpGwAdr) : frameHeader u.bytes u.dlen = u.bytes.take 9 := by
  obtain ⟨bytes, beyond⟩ := u
  match bytes, hlen with
  | b0 :: b1 :: b2 :: b3 :: b4 :: b5 :: b6 :: b7 :: b8 :: rest, _ =>
      have hhigh := highByte_wordOfBytes b7 b8
      have hlow := lowByte_wordOfBytes b7 b8
      change [iqrfUdpGwAdr, b1, b2, b3, b4, b5, b6, highByte (wordOfBytes b7 b8),
        lowByte (wordOfBytes b7 b8)] = [b0, b1, b2, b3, b4, b5, b6, b7, b8]
      rw [hhigh, hlow, ← haddr]
      rfl

/-- Encoding what was decoded gives the datagram up to the end of its CRC, and the decoder
takes the same payload out of it whatever follows: what the length field does not cover is
neither checked nor kept. -/
theorem encodeMessageUdp_decodeMessageUdp (u : Buffer) (m : List Byte)
    (hfit : 11 + u.dlen.toNat ≤ u.bytes.length) (hdecode : decodeResult u = .ok m) :
    encodeMessageUdp u.bytes m = u.bytes.take (11 + u.dlen.toNat) ∧
      ∀ rest beyond,
        decodeResult ⟨u.bytes.take (11 + u.dlen.toNat) ++ rest, beyond⟩ = .ok m := by
  obtain ⟨haddr, hshort, hcrc, rfl⟩ := (decodeResult_eq_ok_iff (by omega) m).mp hdecode
  have hlen : ((u.bytes.drop 9).take u.dlen.toNat).length = u.dlen.toNat := by
    simp
    omega
  have hbody : frameHeader u.bytes u.dlen ++ (u.bytes.drop 9).take u.dlen.toNat =
      u.bytes.take (9 + u.dlen.toNat) := by
    rw [frameHeader_eq_take (by omega) haddr, List.take_add]
  have htake := u.take_add_two (k := 9 + u.dlen.toNat) (by omega)
  rw [show 9 + u.dlen.toNat + 2 = 11 + u.dlen.toNat by omega] at htake
  rw [Nat.add_comm, htake, crcOf_append_pair_eq_zero_iff] at hcrc
  have hframe : frame u.bytes ((u.bytes.drop 9).take u.dlen.toNat) =
      u.bytes.take (11 + u.dlen.toNat) := by
    rw [frame, hlen, BitVec.ofNat_toNat, BitVec.setWidth_eq, hbody, withCrc, htake, ← hcrc,
      highByte_wordOfBytes, lowByte_wordOfBytes]
  refine ⟨?_, fun rest beyond ↦ ?_⟩
  · rw [encodeMessageUdp_eq_frame _ (by omega), hframe]
  · rw [← hframe]
    exact decodeResult_frame u.bytes (by omega) rest beyond

/-- A frame with two bytes of payload and one byte left over. -/
def trailingWrite : Buffer where
  bytes := [0x20, 3, 0, 0, 0, 0, 0, 0, 2, 1, 2, 0x66, 0xa6, 0x55]
  beyond _ := 0

theorem encodeMessageUdp_decodeMessageUdp_trailing :
    encodeMessageUdp trailingWrite.bytes [1, 2] =
        trailingWrite.bytes.take (11 + trailingWrite.dlen.toNat) ∧
      ∀ rest beyond, decodeResult
        ⟨trailingWrite.bytes.take (11 + trailingWrite.dlen.toNat) ++ rest, beyond⟩ = .ok [1, 2] :=
  encodeMessageUdp_decodeMessageUdp trailingWrite [1, 2] (by decide) (by decide)

/-- A frame with an empty payload and one byte left over. -/
def trailingDatagram : Buffer where
  bytes := [0x20, 0, 0, 0, 0, 0, 0, 0, 0, 0xa7, 0xfc, 0]
  beyond _ := 0

theorem decoder_accepts_trailing :
    ¬ ∀ (u : Buffer) (m : List Byte), 11 + u.dlen.toNat ≤ u.bytes.length →
      decodeResult u = .ok m → encodeMessageUdp u.bytes m = u.bytes := by
  intro h
  have heq := h trailingDatagram [] (by decide) (by decide)
  exact absurd heq (by decide)

/-! ## Corrupted frames -/

/-- A frame with its bytes changed except for the length field says the same length. -/
theorem dlen_corrupted (h m e : List Byte) (beyond : ℕ → Byte) (hlen : e.length = m.length + 11)
    (hhigh : e.getD UdpHeader.dlenH.index 0 = 0) (hlow : e.getD UdpHeader.dlenL.index 0 = 0) :
    Buffer.dlen ⟨List.zipWith (· ^^^ ·) (frame h m) e, beyond⟩ = BitVec.ofNat 16 m.length := by
  match e, hlen with
  | e0 :: e1 :: e2 :: e3 :: e4 :: e5 :: e6 :: e7 :: e8 :: rest, _ =>
      obtain rfl : e7 = 0 := hhigh
      obtain rfl : e8 = 0 := hlow
      have hword := wordOfBytes_highByte_lowByte (BitVec.ofNat 16 m.length)
      change wordOfBytes (highByte _ ^^^ 0#8) (lowByte _ ^^^ 0#8) = _
      rwa [BitVec.xor_zero, BitVec.xor_zero]

/-- A frame whose errors are confined to 16 consecutive bits, the most significant bit
of each byte first, is rejected, as long as its length field is intact. -/
theorem decodeMessageUdp_burst (h m e : List Byte) (beyond : ℕ → Byte) (hm : m.length ≤ 1013)
    (hlen : e.length = (encodeMessageUdp h m).length)
    (hhigh : e.getD UdpHeader.dlenH.index 0 = 0) (hlow : e.getD UdpHeader.dlenL.index 0 = 0)
    (hne : true ∈ messageBits e) (k : ℕ)
    (hconf : ∀ i, (messageBits e)[i]? = some true → k ≤ i ∧ i < k + 16) :
    ∃ err, decodeResult ⟨List.zipWith (· ^^^ ·) (encodeMessageUdp h m) e, beyond⟩ = .error err := by
  rw [encodeMessageUdp_eq_frame h hm] at hlen ⊢
  have hlen' : e.length = m.length + 11 := by rw [hlen, length_frame]
  let u : Buffer := ⟨List.zipWith (· ^^^ ·) (frame h m) e, beyond⟩
  have hdlen : u.dlen.toNat = m.length := by
    rw [dlen_corrupted h m e beyond hlen' hhigh hlow, toNat_ofNat_length hm]
  have hsize : u.bytes.length = m.length + 11 := by
    simp [u, hlen']
  cases hdecode : decodeResult u with
  | error err => exact ⟨err, rfl⟩
  | ok m' =>
      obtain ⟨-, -, hcrc, -⟩ := (decodeResult_eq_ok_iff (by omega) m').mp hdecode
      have hzero : crcOf u.bytes = crcOf e := by
        rw [crcOf_zipWith_xor hlen.symm, crcOf_frame]
        exact BitVec.zero_xor
      rw [hdlen, List.take_of_length_le hsize.le, hzero] at hcrc
      exact absurd hcrc (crcOf_ne_zero_of_burst hne hconf)

/-- Two bits flipped on both sides of a byte border. -/
def twoBits : List Byte := [0, 0, 0, 0, 0, 0, 0, 0, 0, 0, 1, 0x80, 0]

theorem decodeMessageUdp_burst_twoBits :
    ∃ err, decodeResult
      ⟨List.zipWith (· ^^^ ·) (encodeMessageUdp [0, 3] [1, 2]) twoBits, fun _ ↦ 0⟩ = .error err := by
  refine decodeMessageUdp_burst [0, 3] [1, 2] twoBits (fun _ ↦ 0) (by decide) (by decide) rfl rfl
    (by decide) 87 fun i hi ↦ ?_
  have hi' : i < 104 := (List.getElem?_eq_some_iff.mp hi).1
  exact (by decide : ∀ i < 104, (messageBits twoBits)[i]? = some true → 87 ≤ i ∧ i < 87 + 16)
    i hi' hi

end IqrfDaemon.Udp
