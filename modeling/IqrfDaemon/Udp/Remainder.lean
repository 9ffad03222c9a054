import Mathlib.Tactic.IntervalCases
import IqrfDaemon.Cyclic.Division
import IqrfDaemon.Udp.Encode

/-!
# The CRC as a remainder of polynomials

`GetCRC_CCITT` over a whole string, with the table that `InitTabCRC_CCITT` builds, against the
division of the string by `x^16 + x^12 + x^5 + 1`, the most significant bit of each byte first.
-/

namespace IqrfDaemon.Udp.Crc

open Cyclic Polynomial

/-- `GetCRC_CCITT` of a string, with its length as `uint16_t`. -/
def crcCcitt (bytes : List Byte) : Word :=
  getCrcCcitt (m := Id) (fun i ↦ bytes.getD i 0) (BitVec.ofNat 16 bytes.length)

theorem crcCcitt_eq_crcOf {bytes : List Byte} (h : bytes.length ≤ 65535) :
    crcCcitt bytes = crcOf bytes := by
  have hlen : (BitVec.ofNat 16 bytes.length).toNat = bytes.length := by
    rw [BitVec.toNat_ofNat]
    exact Nat.mod_eq_of_lt (by omega)
  have hload : ∀ i (hi : i < bytes.length), bytes.getD i 0 = bytes[i] := by
    intro i hi
    rw [List.getD_eq_getElem?_getD, List.getElem?_eq_getElem hi, Option.getD_some]
  rw [crcCcitt, getCrcCcitt_eq_crcOf bytes (by omega) hload, hlen, List.take_length]

/-- The generator is `x^16 + x^12 + x^5 + 1`. -/
theorem generator_pCcitt : generator pCcitt = X ^ 16 + X ^ 12 + X ^ 5 + 1 := by
  have hbits : ∀ i < 16, pCcitt.getLsbD i = decide (i = 0 ∨ i = 5 ∨ i = 12) := by decide
  have hpolynomial : polynomial pCcitt = X ^ 12 + X ^ 5 + 1 := by
    ext i
    rw [coeff_polynomial, coeff_add, coeff_add, coeff_X_pow, coeff_X_pow, coeff_one]
    by_cases hi : i < 16
    · rw [hbits i hi]
      interval_cases i <;> decide
    · rw [BitVec.getLsbD_of_ge _ _ (by omega), if_neg (by omega), if_neg (by omega),
        if_neg (by omega)]
      rfl
  rw [generator, hpolynomial]
  ring

/-- The CRC of a string is its remainder, bit by bit and as a polynomial, and the string with its
CRC has none. -/
theorem crcCcitt_remainder {bytes : List Byte} (h : bytes.length ≤ 65533) :
    crcCcitt bytes = remainder pCcitt 0#16 (messageBits bytes) ∧
      polynomial (crcCcitt bytes) =
        (X ^ 16 * message (messageBits bytes)) %ₘ (X ^ 16 + X ^ 12 + X ^ 5 + 1) ∧
      crcCcitt (bytes ++ [highByte (crcCcitt bytes), lowByte (crcCcitt bytes)]) = 0 := by
  have hcrc : crcCcitt bytes = crcOf bytes := crcCcitt_eq_crcOf (by omega)
  have hremainder : crcOf bytes = remainder pCcitt 0#16 (messageBits bytes) :=
    crcFrom_eq_remainder 0 bytes
  have hlen : (bytes ++ [highByte (crcOf bytes), lowByte (crcOf bytes)]).length ≤ 65535 := by
    rw [List.length_append]
    change bytes.length + 2 ≤ 65535
    omega
  refine ⟨hcrc.trans hremainder, ?_, ?_⟩
  · rw [hcrc, hremainder, polynomial_remainder, generator_pCcitt]
  · rw [hcrc, crcCcitt_eq_crcOf hlen]
    exact crcOf_withCrc bytes

theorem crcCcitt_remainder_abc :
    crcCcitt [0x61, 0x62, 0x63] = remainder pCcitt 0#16 (messageBits [0x61, 0x62, 0x63]) ∧
      polynomial (crcCcitt [0x61, 0x62, 0x63]) =
        (X ^ 16 * message (messageBits [0x61, 0x62, 0x63])) %ₘ (X ^ 16 + X ^ 12 + X ^ 5 + 1) ∧
      crcCcitt ([0x61, 0x62, 0x63] ++ [highByte (crcCcitt [0x61, 0x62, 0x63]),
        lowByte (crcCcitt [0x61, 0x62, 0x63])]) = 0 :=
  crcCcitt_remainder (by decide)

end IqrfDaemon.Udp.Crc
