import IqrfDaemon.Udp.Crc
import Mathlib.Data.List.Basic

/-!
# Decoding a UDP datagram

`decodeMessageUdp` reads the received string by index.  The string itself ends
at its size, but the memory behind its data pointer does not: a read past the
end delivers whatever byte lies there.  The decoder therefore runs over a
buffer with an unknown continuation and records every index it reads.
-/

namespace IqrfDaemon.Udp

open Crc (Byte Word)

/-! ## The frame layout -/

def iqrfUdpBufferSize : ℕ := 1024

def iqrfUdpGwAdr : Byte := 0x20

def iqrfUdpHeaderSize : ℕ := 9

def iqrfUdpCrcSize : ℕ := 2

inductive UdpHeader
  | gwAddr
  | cmd
  | subcmd
  | res0
  | res1
  | pacidH
  | pacidL
  | dlenH
  | dlenL
  deriving DecidableEq, Repr

def UdpHeader.index : UdpHeader → ℕ
  | gwAddr => 0
  | cmd => 1
  | subcmd => 2
  | res0 => 3
  | res1 => 4
  | pacidH => 5
  | pacidL => 6
  | dlenH => 7
  | dlenL => 8

/-- Why a datagram is refused, with the value the message shows: "Message is too
short: ", "Message is has wrong GW_ADDR: ", "Message is too long: " and "Message
has wrong CRC". -/
inductive UdpChannelException
  | tooShort (udpMessage : List Byte)
  | wrongGwAddr (addr : Byte)
  | tooLong (dlen : Word)
  | wrongCrc
  deriving DecidableEq, Repr

/-! ## Reading a buffer -/

structure Buffer where
  bytes : List Byte
  beyond : ℕ → Byte

def Buffer.get (buf : Buffer) (i : ℕ) : Byte :=
  buf.bytes[i]?.getD (buf.beyond i)

abbrev Access := StateM (List ℕ)

def Buffer.load (buf : Buffer) (i : ℕ) : Access Byte := fun log ↦ (buf.get i, log ++ [i])

@[simp]
theorem Buffer.load_apply (buf : Buffer) (i : ℕ) (log : List ℕ) :
    buf.load i log = (buf.get i, log ++ [i]) := rfl

@[simp]
theorem access_pure_apply {α : Type} (a : α) (log : List ℕ) :
    (pure a : Access α) log = (a, log) := rfl

@[simp]
theorem access_bind_apply {α β : Type} (x : Access α) (f : α → Access β) (log : List ℕ) :
    (x >>= f) log = f (x log).1 (x log).2 := rfl

def wordOfBytes (high low : Byte) : Word := (high.setWidth 16 <<< 8) + low.setWidth 16

/-- `decodeMessageUdp`: the payload, or the exception it throws. -/
def decodeMessageUdp (udpMessage : Buffer) :
    Access (Except UdpChannelException (List Byte)) := do
  -- min. packet length check
  if udpMessage.bytes.length < iqrfUdpHeaderSize + iqrfUdpCrcSize then
    return .error (.tooShort udpMessage.bytes)
  -- GW_ADR check
  let addr ← udpMessage.load UdpHeader.gwAddr.index
  if addr ≠ iqrfUdpGwAdr then
    return .error (.wrongGwAddr addr)
  -- iqrf data length
  let dlenH ← udpMessage.load UdpHeader.dlenH.index
  let dlenL ← udpMessage.load UdpHeader.dlenL.index
  let dlen := wordOfBytes dlenH dlenL
  -- max. packet length check
  if dlen.toNat + iqrfUdpHeaderSize + iqrfUdpCrcSize > iqrfUdpBufferSize then
    return .error (.tooLong dlen)
  -- CRC check
  let crcH ← udpMessage.load (iqrfUdpHeaderSize + dlen.toNat)
  let crcL ← udpMessage.load (iqrfUdpHeaderSize + dlen.toNat + 1)
  let computed ← Crc.getCrcCcitt udpMessage.load (dlen + BitVec.ofNat 16 iqrfUdpHeaderSize)
  if wordOfBytes crcH crcL ≠ computed then
    return .error .wrongCrc
  return .ok ((udpMessage.bytes.drop iqrfUdpHeaderSize).take dlen.toNat)

def decodeReads (udpMessage : Buffer) : List ℕ :=
  (decodeMessageUdp udpMessage []).2

def decodeResult (udpMessage : Buffer) : Except UdpChannelException (List Byte) :=
  (decodeMessageUdp udpMessage []).1

def Buffer.dlen (udpMessage : Buffer) : Word :=
  wordOfBytes (udpMessage.get UdpHeader.dlenH.index) (udpMessage.get UdpHeader.dlenL.index)

/-! ## What is read -/

/-- The CRC loop over a buffer computes the plain CRC and reads exactly its
indexes, in order. -/
theorem crcLoop_load (buf : Buffer) (indexes : List ℕ) (crc : Word) (log : List ℕ) :
    Crc.crcLoop buf.load indexes crc log =
      (Crc.crcLoop (m := Id) buf.get indexes crc, log ++ indexes) := by
  induction indexes generalizing crc log with
  | nil =>
      rw [List.append_nil]
      rfl
  | cons i rest ih =>
      calc
        Crc.crcLoop buf.load (i :: rest) crc log =
            Crc.crcLoop buf.load rest (Crc.updateCrcCcitt crc (buf.get i)) (log ++ [i]) := rfl
        _ = (Crc.crcLoop (m := Id) buf.get (i :: rest) crc, log ++ i :: rest) := by
          rw [ih, List.append_assoc]
          rfl

theorem getCrcCcitt_load (buf : Buffer) (len : Word) (log : List ℕ) :
    Crc.getCrcCcitt buf.load len log =
      (Crc.getCrcCcitt (m := Id) buf.get len, log ++ List.range len.toNat) :=
  crcLoop_load buf _ 0 log

/-- One call, check by check: what it returns or throws and what it has read. -/
theorem decodeMessageUdp_eq (u : Buffer) :
    decodeMessageUdp u [] =
      if u.bytes.length < 11 then (.error (.tooShort u.bytes), [])
      else if u.get 0 ≠ iqrfUdpGwAdr then (.error (.wrongGwAddr (u.get 0)), [0])
      else if 1024 < u.dlen.toNat + 11 then (.error (.tooLong u.dlen), [0, 7, 8])
      else
        (if wordOfBytes (u.get (9 + u.dlen.toNat)) (u.get (9 + u.dlen.toNat + 1)) =
            Crc.getCrcCcitt (m := Id) u.get (u.dlen + 9#16) then
          .ok ((u.bytes.drop 9).take u.dlen.toNat)
        else .error .wrongCrc,
        [0, 7, 8, 9 + u.dlen.toNat, 9 + u.dlen.toNat + 1] ++ List.range (u.dlen + 9#16).toNat) := by
  simp only [Buffer.dlen, UdpHeader.index]
  unfold decodeMessageUdp
  by_cases hshort : u.bytes.length < 11
  · simp [hshort, iqrfUdpHeaderSize, iqrfUdpCrcSize]
  by_cases haddr : u.get 0 = iqrfUdpGwAdr
  swap
  · simp [hshort, haddr, iqrfUdpHeaderSize, iqrfUdpCrcSize, UdpHeader.index]
  by_cases hlong : 1024 < (wordOfBytes (u.get 7) (u.get 8)).toNat + 11
  · simp [hshort, haddr, hlong, iqrfUdpHeaderSize, iqrfUdpCrcSize, iqrfUdpBufferSize,
      UdpHeader.index]
  by_cases hcrc : wordOfBytes (u.get (9 + (wordOfBytes (u.get 7) (u.get 8)).toNat))
      (u.get (9 + (wordOfBytes (u.get 7) (u.get 8)).toNat + 1)) =
        Crc.getCrcCcitt (m := Id) u.get (wordOfBytes (u.get 7) (u.get 8) + 9#16)
  all_goals simp [hshort, haddr, hlong, hcrc, iqrfUdpHeaderSize, iqrfUdpCrcSize,
    iqrfUdpBufferSize, UdpHeader.index, getCrcCcitt_load]

theorem decodeReads_eq (u : Buffer) :
    decodeReads u =
      if u.bytes.length < 11 then []
      else if u.get 0 ≠ iqrfUdpGwAdr then [0]
      else if 1024 < u.dlen.toNat + 11 then [0, 7, 8]
      else [0, 7, 8, 9 + u.dlen.toNat, 9 + u.dlen.toNat + 1] ++
        List.range (u.dlen + 9#16).toNat := by
  rw [decodeReads, decodeMessageUdp_eq]
  split_ifs <;> rfl

theorem toNat_dlen_add_header {d : Word} (h : d.toNat + 11 ≤ 1024) :
    (d + 9#16).toNat = d.toNat + 9 := by
  rw [BitVec.toNat_add]
  exact Nat.mod_eq_of_lt (by simp only [BitVec.toNat_ofNat]; omega)

/-- The decoder stays inside the datagram exactly when one of its first three
checks refuses it, or the datagram is as long as its length field says: no check
compares the length field with the size of the datagram. -/
theorem decodeReads_inside_iff (u : Buffer) :
    (∀ i ∈ decodeReads u, i < u.bytes.length) ↔
      u.bytes.length < iqrfUdpHeaderSize + iqrfUdpCrcSize ∨
        u.get UdpHeader.gwAddr.index ≠ iqrfUdpGwAdr ∨
          iqrfUdpBufferSize < u.dlen.toNat + iqrfUdpHeaderSize + iqrfUdpCrcSize ∨
            u.dlen.toNat + iqrfUdpHeaderSize + iqrfUdpCrcSize ≤ u.bytes.length := by
  simp only [iqrfUdpHeaderSize, iqrfUdpCrcSize, iqrfUdpBufferSize, UdpHeader.index,
    Nat.reduceAdd, Nat.add_assoc]
  rw [decodeReads_eq]
  by_cases hshort : u.bytes.length < 11
  · simp [hshort]
  by_cases haddr : u.get 0 = iqrfUdpGwAdr
  swap
  · have hpos : 0 < u.bytes.length := by omega
    simp [hshort, haddr, hpos]
  by_cases hlong : 1024 < u.dlen.toNat + 11
  · have h8 : 8 < u.bytes.length := by omega
    have hall : ∀ i ∈ [0, 7, 8], i < u.bytes.length := by
      intro i hi
      simp only [List.mem_cons, List.not_mem_nil, or_false] at hi
      omega
    simpa [hshort, haddr, hlong] using hall
  have hlen := toNat_dlen_add_header (d := u.dlen) (by omega)
  simp only [hshort, haddr, hlong, if_false, ne_eq, not_true_eq_false, false_or]
  constructor
  · intro h
    have hlast := h (9 + u.dlen.toNat + 1) (by simp)
    omega
  · intro hfit i hi
    have hi' : i ≤ 9 + u.dlen.toNat + 1 := by
      rcases List.mem_append.mp hi with hi | hi
      · simp only [List.mem_cons, List.not_mem_nil, or_false] at hi
        omega
      · have := List.mem_range.mp hi
        omega
    omega

def shortDatagram : Buffer where
  bytes := [0x20, 3, 0, 0, 0, 0, 0, 0, 1, 0, 0]
  beyond _ := 0

/-- The low CRC byte of that datagram is read one past its end. -/
theorem decodeReads_outside :
    ¬ ∀ u : Buffer, ∀ i ∈ decodeReads u, i < u.bytes.length := by
  intro h
  have hread : 11 ∈ decodeReads shortDatagram := by decide
  have := h shortDatagram 11 hread
  simp [shortDatagram] at this

end IqrfDaemon.Udp
