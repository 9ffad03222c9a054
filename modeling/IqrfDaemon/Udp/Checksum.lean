import IqrfDaemon.Cyclic.Register
import IqrfDaemon.Udp.Crc

/-!
# The table-driven CRC as a shift register

The table that `InitTabCRC_CCITT` fills holds the register after eight shifts of
each byte, and `UpdateCRC_CCITT` is eight shifts of the register with the byte
added in front.  A whole message is therefore fed to the register bit by bit, the
most significant bit of each byte first.
-/

namespace IqrfDaemon.Udp.Crc

open Cyclic

/-- The CRC of a byte string that starts from the given value. -/
def crcFrom (crc : Word) (bytes : List Byte) : Word := bytes.foldl updateCrcCcitt crc

def crcOf (bytes : List Byte) : Word := crcFrom 0 bytes

def bits (c : Byte) : List Bool := (List.range 8).map c.getMsbD

def messageBits (bytes : List Byte) : List Bool := bytes.flatMap bits

@[simp]
theorem length_bits (c : Byte) : (bits c).length = 8 := by
  simp [bits]

theorem crcFrom_append (crc : Word) (a b : List Byte) :
    crcFrom crc (a ++ b) = crcFrom (crcFrom crc a) b :=
  List.foldl_append

/-! ## The table -/

theorem and_topBit_ne_zero (x : Word) : x &&& 0x8000 ≠ 0 ↔ x.msb = true := by
  have htop : (0x8000 : Word) = BitVec.twoPow 16 15 := rfl
  rw [htop, BitVec.and_twoPow, BitVec.msb_eq_getLsbD_last]
  cases hx : x.getLsbD 15 with
  | false => simp
  | true => simp

theorem tabLoop_eq (j : ℕ) (crc c : Word) :
    tabLoop j crc c = (shift pCcitt)^[j] (crc ^^^ c) ^^^ (c <<< j) := by
  induction j generalizing crc c with
  | zero => rw [tabLoop, BitVec.shiftLeft_zero, Function.iterate_zero_apply, BitVec.xor_assoc,
      BitVec.xor_self, BitVec.xor_zero]
  | succ j ih =>
      have hstep : (if (crc ^^^ c) &&& 0x8000 ≠ 0 then (crc <<< 1) ^^^ pCcitt else crc <<< 1) ^^^
          (c <<< 1) = shift pCcitt (crc ^^^ c) := by
        simp only [and_topBit_ne_zero, shift, BitVec.shiftLeft_xor_distrib]
        split
        · rw [BitVec.xor_assoc, BitVec.xor_comm pCcitt, ← BitVec.xor_assoc]
        · rw [BitVec.xor_zero]
      rw [tabLoop, ih, hstep, Function.iterate_succ_apply, ← BitVec.shiftLeft_add,
        Nat.add_comm 1 j]

theorem crcTabCcitt_eq (i : Byte) :
    crcTabCcitt i = (shift pCcitt)^[8] (i.setWidth 16 <<< 8) := by
  have hout : i.setWidth 16 <<< 8 <<< 8 = (0 : Word) := by
    rw [← BitVec.shiftLeft_add]
    exact BitVec.shiftLeft_eq_zero (by decide)
  rw [crcTabCcitt, tabLoop_eq, hout]
  simp

/-! ## One byte -/

theorem updateCrcCcitt_eq (crc : Word) (c : Byte) :
    updateCrcCcitt crc c = (shift pCcitt)^[8] (crc ^^^ (c.setWidth 16 <<< 8)) := by
  let tmp : Word := (crc >>> 8) ^^^ (0x00ff &&& c.setWidth 16)
  let low : Word := (crc <<< 8) >>> 8
  have hsplit : crc ^^^ (c.setWidth 16 <<< 8) = low ^^^ ((tmp.setWidth 8).setWidth 16 <<< 8) := by
    apply BitVec.eq_of_getLsbD_eq
    intro i hi
    by_cases hlow : i < 8
    · simp [low, hlow, hi, show 8 + i < 16 by omega]
    · obtain ⟨j, rfl⟩ := Nat.exists_eq_add_of_le (Nat.le_of_not_lt hlow)
      have hj : j < 8 := by omega
      have hmask : (0x00ff : Word).getLsbD j = true :=
        (by decide : ∀ j < 8, (0x00ff : Word).getLsbD j = true) j hj
      simp only [low, tmp, BitVec.getLsbD_xor, BitVec.getLsbD_and, BitVec.getLsbD_shiftLeft,
        BitVec.getLsbD_ushiftRight, BitVec.getLsbD_setWidth, Nat.add_sub_cancel_left, hmask]
      simp [hj, hi, hlow, show j < 16 by omega, show ¬ 8 + (8 + j) < 16 by omega]
  have hlow : (shift pCcitt)^[8] low = crc <<< 8 := by
    rw [iterate_shift_of_getMsbD]
    · apply BitVec.eq_of_getLsbD_eq
      intro i hi
      by_cases hi8 : i < 8
      · simp [low, hi8]
      · simp [low, hi8, hi, show 8 + (i - 8) = i by omega]
    · intro i hi
      simp [low, BitVec.getMsbD_ushiftRight, hi]
  rw [hsplit, iterate_shift_xor, hlow, ← crcTabCcitt_eq]
  rfl

theorem leading_bits (c : Byte) : leading (bits c) = c.setWidth 16 <<< 8 := by
  apply BitVec.eq_of_getMsbD_eq
  intro i hi
  rw [getMsbD_leading]
  by_cases hi8 : i < 8
  · simp [bits, hi, hi8, BitVec.getMsbD_shiftLeft, BitVec.getMsbD_setWidth]
  · have hnone : (bits c)[i]? = none := List.getElem?_eq_none (by simpa using hi8)
    have hbeyond : c.getMsbD i = false := BitVec.getMsbD_of_ge _ _ (by omega)
    simp [hnone, hbeyond, BitVec.getMsbD_shiftLeft, BitVec.getMsbD_setWidth]

theorem updateCrcCcitt_eq_remainder (crc : Word) (c : Byte) :
    updateCrcCcitt crc c = remainder pCcitt crc (bits c) := by
  rw [remainder_eq_iterate_shift _ _ (by simp), leading_bits, length_bits, updateCrcCcitt_eq]

/-! ## Whole messages -/

theorem crcFrom_eq_remainder (crc : Word) (bytes : List Byte) :
    crcFrom crc bytes = remainder pCcitt crc (messageBits bytes) := by
  induction bytes generalizing crc with
  | nil => rfl
  | cons c rest ih =>
      rw [messageBits, List.flatMap_cons, remainder_append, ← updateCrcCcitt_eq_remainder]
      exact ih _

theorem pCcitt_getLsbD_zero : pCcitt.getLsbD 0 = true := rfl

/-- Two more bytes bring the register to zero if and only if they spell its content. -/
theorem crcFrom_pair_eq_zero_iff (crc : Word) (high low : Byte) :
    crcFrom crc [high, low] = 0 ↔ crc = (high.setWidth 16 <<< 8) ^^^ low.setWidth 16 := by
  have hlow : (shift pCcitt)^[8] (low.setWidth 16) = low.setWidth 16 <<< 8 := by
    apply iterate_shift_of_getMsbD
    intro i hi
    simp [BitVec.getMsbD_setWidth]
    omega
  have hcrc : crcFrom crc [high, low] =
      (shift pCcitt)^[16] (crc ^^^ ((high.setWidth 16 <<< 8) ^^^ low.setWidth 16)) := by
    calc
      crcFrom crc [high, low] = (shift pCcitt)^[8]
          ((shift pCcitt)^[8] (crc ^^^ (high.setWidth 16 <<< 8)) ^^^ (low.setWidth 16 <<< 8)) := by
        rw [← updateCrcCcitt_eq, ← updateCrcCcitt_eq]
        rfl
      _ = _ := by
        rw [← hlow, ← iterate_shift_xor, BitVec.xor_assoc, ← Function.iterate_add_apply]
  rw [hcrc]
  constructor
  · intro h
    exact BitVec.xor_eq_zero_iff.mp (iterate_shift_eq_zero pCcitt_getLsbD_zero h)
  · intro h
    rw [← h, BitVec.xor_self]
    exact iterate_shift_zero _ _

theorem bits_xor (c d : Byte) : bits (c ^^^ d) = List.zipWith (· ^^ ·) (bits c) (bits d) := by
  simp [bits, List.zipWith_map, List.zipWith_self]

theorem length_messageBits (bytes : List Byte) :
    (messageBits bytes).length = 8 * bytes.length := by
  induction bytes with
  | nil => rfl
  | cons c rest ih =>
      rw [messageBits, List.flatMap_cons, List.length_append, length_bits, List.length_cons]
      change 8 + (messageBits rest).length = _
      omega

theorem messageBits_zipWith_xor {a b : List Byte} (h : a.length = b.length) :
    messageBits (List.zipWith (· ^^^ ·) a b) =
      List.zipWith (· ^^ ·) (messageBits a) (messageBits b) := by
  induction a generalizing b with
  | nil => rfl
  | cons x a ih =>
      cases b with
      | nil => simp at h
      | cons y b =>
          have hrest := ih (by simpa using h)
          simp only [messageBits, List.zipWith_cons_cons, List.flatMap_cons] at hrest ⊢
          rw [hrest, bits_xor, List.zipWith_append (by simp)]

/-- A CRC is linear in messages of one length. -/
theorem crcOf_zipWith_xor {a b : List Byte} (h : a.length = b.length) :
    crcOf (List.zipWith (· ^^^ ·) a b) = crcOf a ^^^ crcOf b := by
  have hbits : (messageBits a).length = (messageBits b).length := by
    rw [length_messageBits, length_messageBits, h]
  have hlinear := remainder_xor pCcitt 0#16 0#16 hbits
  rwa [BitVec.xor_self, ← messageBits_zipWith_xor h, ← crcFrom_eq_remainder,
    ← crcFrom_eq_remainder, ← crcFrom_eq_remainder] at hlinear

/-- No error burst of at most 16 bits leaves the CRC of a byte string at zero. -/
theorem crcOf_ne_zero_of_burst {e : List Byte} (hne : true ∈ messageBits e) {k : ℕ}
    (hconf : ∀ i, (messageBits e)[i]? = some true → k ≤ i ∧ i < k + 16) : crcOf e ≠ 0 := by
  rw [crcOf, crcFrom_eq_remainder]
  exact remainder_ne_zero_of_confined pCcitt_getLsbD_zero hne hconf

end IqrfDaemon.Udp.Crc
