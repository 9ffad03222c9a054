import Mathlib.Data.Nat.Notation

/-!
# CRC-CCITT as computed by the UDP protocol

The byte-wise, table-driven CRC of `crc.h`: the table is filled by eight shift
steps for each byte, and the message is consumed one byte at a time.  The loop
over the buffer is written over an arbitrary monad, so that the same definition
serves the plain value and the record of the indexes it reads.
-/

namespace IqrfDaemon.Udp.Crc

abbrev Byte := BitVec 8

abbrev Word := BitVec 16

def pCcitt : Word := 0x1021

def tabLoop : ℕ → Word → Word → Word
  | 0, crc, _ => crc
  | j + 1, crc, c =>
      tabLoop j (if (crc ^^^ c) &&& 0x8000 ≠ 0 then (crc <<< 1) ^^^ pCcitt else crc <<< 1)
        (c <<< 1)

/-- The entry of `crc_tabccitt` that `InitTabCRC_CCITT` stores at index `i`. -/
def crcTabCcitt (i : Byte) : Word :=
  tabLoop 8 0 (i.setWidth 16 <<< 8)

/-- `UpdateCRC_CCITT`; the index `tmp` is below 256, so it is a byte. -/
def updateCrcCcitt (crc : Word) (c : Byte) : Word :=
  let shortC : Word := 0x00ff &&& c.setWidth 16
  let tmp : Word := (crc >>> 8) ^^^ shortC
  (crc <<< 8) ^^^ crcTabCcitt (tmp.setWidth 8)

/-- The `for` loop of `GetCRC_CCITT` over the indexes in the list. -/
def crcLoop {m : Type → Type} [Monad m] (load : ℕ → m Byte) : List ℕ → Word → m Word
  | [], crc => pure crc
  | i :: rest, crc => do
      let c ← load i
      crcLoop load rest (updateCrcCcitt crc c)

/-- `GetCRC_CCITT(buf, len)`, where `load i` reads `buf[i]`. -/
def getCrcCcitt {m : Type → Type} [Monad m] (load : ℕ → m Byte) (len : Word) : m Word :=
  crcLoop load (List.range len.toNat) 0

end IqrfDaemon.Udp.Crc
