import Mathlib.Algebra.Field.ZMod
import Mathlib.Algebra.Polynomial.Div
import Mathlib.Algebra.CharP.Two
import Mathlib.Tactic.LinearCombination
import IqrfDaemon.Cyclic.Register

/-!
# Shift registers divide polynomials

The register of `Cyclic.Register` against polynomials over the field of two
elements.  Its bits are the coefficients of a polynomial below degree `w`, and
feeding a message to it, the highest coefficient first, leaves the remainder of
`x ^ w` times the message on division by the generator.
-/

namespace IqrfDaemon.Cyclic

open Polynomial

variable {w : ℕ}

def coefficient (b : Bool) : ZMod 2 := if b then 1 else 0

theorem coefficient_xor (a b : Bool) : coefficient (a ^^ b) = coefficient a + coefficient b := by
  cases a <;> cases b <;> decide

/-- The polynomial of a register, bit `i` at `x ^ i`. -/
noncomputable def polynomial (r : BitVec w) : (ZMod 2)[X] :=
  ∑ i ∈ Finset.range w, C (coefficient (r.getLsbD i)) * X ^ i

/-- The generator, with the leading coefficient that its register leaves out. -/
noncomputable def generator (P : BitVec w) : (ZMod 2)[X] := X ^ w + polynomial P

/-- The polynomial of a message whose last bit is the constant term. -/
noncomputable def message (bits : List Bool) : (ZMod 2)[X] :=
  bits.foldl (fun p b ↦ X * p + C (coefficient b)) 0

/-! ## Coefficients -/

theorem coeff_polynomial (r : BitVec w) (i : ℕ) :
    (polynomial r).coeff i = coefficient (r.getLsbD i) := by
  rw [polynomial, finsetSum_coeff]
  simp only [coeff_C_mul, coeff_X_pow, mul_ite, mul_one, mul_zero, Finset.sum_ite_eq,
    Finset.mem_range]
  by_cases hi : i < w
  · rw [if_pos hi]
  · rw [if_neg hi, BitVec.getLsbD_of_ge r i (by omega)]
    rfl

theorem degree_polynomial_lt (r : BitVec w) : (polynomial r).degree < w := by
  rw [degree_lt_iff_coeff_zero]
  intro i hi
  rw [coeff_polynomial, BitVec.getLsbD_of_ge r i hi]
  rfl

@[simp]
theorem polynomial_zero : polynomial (0#w) = 0 := by
  ext i
  simp [coeff_polynomial, coefficient]

theorem polynomial_xor (r s : BitVec w) : polynomial (r ^^^ s) = polynomial r + polynomial s := by
  ext i
  rw [coeff_add, coeff_polynomial, coeff_polynomial, coeff_polynomial, BitVec.getLsbD_xor,
    coefficient_xor]

theorem polynomial_ite (P : BitVec w) (b : Bool) :
    polynomial (if b then P else 0#w) = C (coefficient b) * polynomial P := by
  cases b <;> simp [coefficient]

/-- The shifted register has lost its highest coefficient. -/
theorem polynomial_shiftLeft (r : BitVec w) :
    polynomial (r <<< 1) = X * polynomial r + C (coefficient r.msb) * X ^ w := by
  ext i
  rw [coeff_polynomial, coeff_add, coeff_C_mul, coeff_X_pow, BitVec.getLsbD_shiftLeft]
  cases i with
  | zero =>
      rw [coeff_X_mul_zero]
      have hlow : (decide (0 < w) && !decide (0 < 1) && r.getLsbD (0 - 1)) = false := by simp
      rw [hlow]
      rcases Nat.eq_zero_or_pos w with rfl | hw
      · rw [BitVec.msb_of_zero_length, coefficient, if_neg Bool.false_ne_true, zero_mul, add_zero]
        rfl
      · rw [if_neg hw.ne, mul_zero, add_zero, coefficient, if_neg Bool.false_ne_true]
  | succ i =>
      rw [coeff_X_mul, coeff_polynomial]
      by_cases hi : i + 1 < w
      · simp [hi, hi.ne]
      · by_cases htop : i + 1 = w
        · have hmsb : r.msb = r.getLsbD i := by
            rw [BitVec.msb_eq_getLsbD_last, show w - 1 = i by omega]
          rw [hmsb, if_pos htop, mul_one, CharTwo.add_self_eq_zero]
          simp [hi, coefficient]
        · rw [if_neg htop, mul_zero, add_zero, BitVec.getLsbD_of_ge r i (by omega)]
          simp [hi]

theorem monic_generator (P : BitVec w) : (generator P).Monic :=
  monic_X_pow_add (degree_polynomial_lt P)

theorem degree_generator (P : BitVec w) : (generator P).degree = w := by
  have hlt : (polynomial P).degree < (X ^ w : (ZMod 2)[X]).degree := by
    rw [degree_X_pow]
    exact degree_polynomial_lt P
  rw [generator, degree_add_eq_left_of_degree_lt hlt, degree_X_pow]

/-! ## Division -/

variable (P : BitVec w)

/-- One bit: the register is multiplied by `x`, the bit enters at `x ^ w`, and the generator is
subtracted if the leading coefficient is one. -/
theorem polynomial_feed (r : BitVec w) (b : Bool) :
    polynomial (feed P r b) =
      X * polynomial r + C (coefficient b) * X ^ w +
        C (coefficient (r.msb ^^ b)) * generator P := by
  have hdouble : (C (coefficient r.msb) + C (coefficient r.msb) : (ZMod 2)[X]) = 0 :=
    CharTwo.add_self_eq_zero _
  have hdouble' : (C (coefficient b) + C (coefficient b) : (ZMod 2)[X]) = 0 :=
    CharTwo.add_self_eq_zero _
  rw [feed, polynomial_xor, polynomial_ite, polynomial_shiftLeft, generator, coefficient_xor, C_add]
  linear_combination (-X ^ w) * hdouble'

@[simp]
theorem message_nil : message [] = 0 := rfl

@[simp]
theorem message_singleton (b : Bool) : message [b] = C (coefficient b) := by
  simp [message]

theorem message_append (a b : List Bool) :
    message (a ++ b) = X ^ b.length * message a + message b := by
  have hfold : ∀ (l : List Bool) (p : (ZMod 2)[X]),
      l.foldl (fun p b ↦ X * p + C (coefficient b)) p = X ^ l.length * p + message l := by
    intro l
    induction l with
    | nil => simp [message]
    | cons c l ih =>
        intro p
        have hhead : message (c :: l) = X ^ l.length * (X * 0 + C (coefficient c)) + message l :=
          ih _
        rw [List.foldl_cons, ih, hhead, List.length_cons]
        ring
  rw [message, List.foldl_append, hfold b]
  rfl

/-- What has been fed is the register up to multiples of the generator. -/
theorem exists_polynomial_remainder (r : BitVec w) (bits : List Bool) :
    ∃ q, polynomial (remainder P r bits) + generator P * q =
      X ^ bits.length * polynomial r + X ^ w * message bits := by
  induction bits generalizing r with
  | nil => exact ⟨0, by simp⟩
  | cons b bits ih =>
      obtain ⟨q, hq⟩ := ih (feed P r b)
      refine ⟨q - X ^ bits.length * C (coefficient (r.msb ^^ b)), ?_⟩
      have hmessage : message (b :: bits) = X ^ bits.length * C (coefficient b) + message bits := by
        rw [← List.singleton_append, message_append, message_singleton]
      rw [remainder_cons, mul_sub, hmessage, List.length_cons]
      rw [polynomial_feed] at hq
      linear_combination hq

/-- The register holds the remainder of the message times `x ^ w`. -/
theorem polynomial_remainder (bits : List Bool) :
    polynomial (remainder P 0#w bits) = (X ^ w * message bits) %ₘ generator P := by
  obtain ⟨q, hq⟩ := exists_polynomial_remainder P 0#w bits
  rw [polynomial_zero, mul_zero, zero_add] at hq
  have hdegree : (polynomial (remainder P 0#w bits)).degree < (generator P).degree := by
    rw [degree_generator]
    exact degree_polynomial_lt _
  exact (div_modByMonic_unique q _ (monic_generator P) ⟨hq, hdegree⟩).2.symm

end IqrfDaemon.Cyclic
