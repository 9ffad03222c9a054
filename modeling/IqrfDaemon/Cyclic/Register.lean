import Mathlib.Data.BitVec
import Mathlib.Data.List.Basic
import Mathlib.Logic.Function.Iterate

/-!
# Shift registers of cyclic codes

A register of `w` bits holds a remainder modulo a generator of degree `w` over the
field of two elements, its highest coefficient first; the leading coefficient of
the generator itself is left out.  `shift` multiplies by `x`, and `feed` consumes
one more bit of a message.  Both are linear with respect to `^^^`, and a generator
with a constant term loses no nonzero remainder.  Hence no nonzero burst that fits
into the register is divisible by the generator, wherever it lies.
-/

namespace IqrfDaemon.Cyclic

variable {w : ℕ} (P : BitVec w)

def shift (r : BitVec w) : BitVec w := (r <<< 1) ^^^ (if r.msb then P else 0#w)

def feed (r : BitVec w) (b : Bool) : BitVec w := (r <<< 1) ^^^ (if r.msb ^^ b then P else 0#w)

def remainder (r : BitVec w) (bits : List Bool) : BitVec w := bits.foldl (feed P) r

@[simp]
theorem remainder_nil (r : BitVec w) : remainder P r [] = r := rfl

@[simp]
theorem remainder_cons (r : BitVec w) (b : Bool) (bits : List Bool) :
    remainder P r (b :: bits) = remainder P (feed P r b) bits := rfl

theorem remainder_append (r : BitVec w) (a b : List Bool) :
    remainder P r (a ++ b) = remainder P (remainder P r a) b :=
  List.foldl_append

/-! ## Linearity -/

theorem xor_xor_xor_comm (a b c d : BitVec w) : a ^^^ b ^^^ (c ^^^ d) = a ^^^ c ^^^ (b ^^^ d) := by
  rw [BitVec.xor_assoc, BitVec.xor_assoc, ← BitVec.xor_assoc b, BitVec.xor_comm b c,
    BitVec.xor_assoc c]

theorem ite_xor_ite (a b : Bool) :
    ((if a then P else 0#w) ^^^ if b then P else 0#w) = if a ^^ b then P else 0#w := by
  cases a <;> cases b <;> simp

theorem feed_xor (r s : BitVec w) (a b : Bool) :
    feed P (r ^^^ s) (a ^^ b) = feed P r a ^^^ feed P s b := by
  have hbit : ((r.msb ^^ s.msb) ^^ (a ^^ b)) = ((r.msb ^^ a) ^^ (s.msb ^^ b)) := by
    cases r.msb <;> cases s.msb <;> cases a <;> cases b <;> rfl
  rw [feed, feed, feed, BitVec.msb_xor, BitVec.shiftLeft_xor_distrib, hbit, ← ite_xor_ite P,
    xor_xor_xor_comm]

@[simp]
theorem feed_false (r : BitVec w) : feed P r false = shift P r := by
  rw [feed, Bool.xor_false, shift]

theorem shift_xor (r s : BitVec w) : shift P (r ^^^ s) = shift P r ^^^ shift P s := by
  have h := feed_xor P r s false false
  simpa using h

theorem iterate_shift_xor (n : ℕ) (r s : BitVec w) :
    (shift P)^[n] (r ^^^ s) = (shift P)^[n] r ^^^ (shift P)^[n] s := by
  induction n generalizing r s with
  | zero => rfl
  | succ n ih =>
      rw [Function.iterate_succ_apply, shift_xor, ih]
      rfl

theorem iterate_shift_zero (n : ℕ) : (shift P)^[n] 0#w = 0#w := by
  have h := iterate_shift_xor P n 0#w 0#w
  rwa [BitVec.xor_self, BitVec.xor_self] at h

theorem remainder_xor (r s : BitVec w) {a b : List Bool} (h : a.length = b.length) :
    remainder P (r ^^^ s) (List.zipWith (· ^^ ·) a b) = remainder P r a ^^^ remainder P s b := by
  induction a generalizing r s b with
  | nil =>
      obtain rfl := List.eq_nil_of_length_eq_zero h.symm
      rfl
  | cons x a ih =>
      cases b with
      | nil => simp at h
      | cons y b =>
          rw [List.zipWith_cons_cons, remainder_cons, feed_xor, ih _ _ (by simpa using h)]
          rfl

theorem remainder_replicate_false (r : BitVec w) (n : ℕ) :
    remainder P r (List.replicate n false) = (shift P)^[n] r := by
  induction n generalizing r with
  | zero => rfl
  | succ n ih =>
      rw [List.replicate_succ, remainder_cons, feed_false, ih, Function.iterate_succ_apply]

/-! ## Feeding a word at once -/

/-- The register with the given leading bits. -/
def leading : List Bool → BitVec w
  | [] => 0#w
  | b :: bits => (if b then BitVec.twoPow w (w - 1) else 0#w) ^^^ (leading bits >>> 1)

theorem getMsbD_leading (bits : List Bool) (i : ℕ) :
    (leading bits : BitVec w).getMsbD i = (decide (i < w) && bits.getD i false) := by
  induction bits generalizing i with
  | nil => simp [leading]
  | cons b bits ih =>
      rw [leading, BitVec.getMsbD_xor, BitVec.getMsbD_ushiftRight, ih]
      cases i with
      | zero =>
          cases b with
          | false => simp
          | true =>
              rw [if_pos rfl, BitVec.getMsbD, BitVec.getLsbD_twoPow]
              by_cases hw : 0 < w
              · have hlast : w - 1 < w := Nat.sub_one_lt_of_lt hw
                simp [hw, hlast]
              · simp [hw]
      | succ i =>
          have htop : (if b then BitVec.twoPow w (w - 1) else 0#w).getMsbD (i + 1) = false := by
            cases b <;> simp [BitVec.getMsbD, BitVec.getLsbD_twoPow]
            omega
          rw [htop]
          by_cases hi : i + 1 < w
          · simp [hi, show i < w by omega]
          · simp [hi]

theorem leading_eq_zero {bits : List Bool} (hlen : bits.length ≤ w)
    (h : (leading bits : BitVec w) = 0#w) : true ∉ bits := by
  intro hmem
  obtain ⟨i, hi, htrue⟩ := List.mem_iff_getElem.mp hmem
  have hbit := getMsbD_leading (w := w) bits i
  simp [h, htrue, hi, show i < w by omega] at hbit

theorem feed_eq_shift (r : BitVec w) (b : Bool) : feed P r b = shift P (r ^^^ leading [b]) := by
  have hzero : feed P 0#w b = shift P (leading [b]) := by
    cases b with
    | false => simp [leading]
    | true =>
        rcases Nat.eq_zero_or_pos w with rfl | hw
        · exact Subsingleton.elim _ _
        · have hmsb : (BitVec.twoPow w (w - 1)).msb = true := by
            rw [BitVec.msb_eq_getLsbD_last, BitVec.getLsbD_twoPow]
            simpa using Nat.sub_one_lt_of_lt hw
          have hover : BitVec.twoPow w (w - 1) <<< 1 = 0#w := by
            apply BitVec.eq_of_getLsbD_eq
            intro i hi
            simp only [BitVec.getLsbD_shiftLeft, BitVec.getLsbD_twoPow, BitVec.getLsbD_zero]
            simp
            omega
          simp only [feed, shift, leading, BitVec.zero_shiftLeft, if_true, BitVec.msb_zero,
            Bool.false_xor, BitVec.zero_ushiftRight, BitVec.xor_zero, hmsb, hover]
  calc
    feed P r b = feed P (r ^^^ 0#w) (false ^^ b) := by simp
    _ = shift P r ^^^ shift P (leading [b]) := by rw [feed_xor, feed_false, hzero]
    _ = shift P (r ^^^ leading [b]) := (shift_xor P _ _).symm

/-- A word that leaves the last place of the register free was shifted there. -/
theorem shift_leading_ushiftRight {bits : List Bool} (h : bits.length < w) :
    shift P (leading bits >>> 1) = leading bits := by
  have hlast : (leading bits : BitVec w).getLsbD 0 = false := by
    have hbit := getMsbD_leading (w := w) bits (w - 1)
    have hnone : bits[w - 1]? = none := List.getElem?_eq_none (by omega)
    have hpos : w - 1 < w := by omega
    simpa [BitVec.getMsbD, hpos, hnone] using hbit
  have hmsb : (leading bits >>> 1 : BitVec w).msb = false := by
    simp [BitVec.msb_ushiftRight]
  rw [shift, hmsb]
  simp only [Bool.false_eq_true, if_false, BitVec.xor_zero]
  apply BitVec.eq_of_getLsbD_eq
  intro i hi
  cases i with
  | zero => simp [hlast]
  | succ i => simp [hi, Nat.add_comm 1 i]

/-- Bits that fit into the register can be added to it at once and shifted through. -/
theorem remainder_eq_iterate_shift (r : BitVec w) {bits : List Bool} (h : bits.length ≤ w) :
    remainder P r bits = (shift P)^[bits.length] (r ^^^ leading bits) := by
  induction bits generalizing r with
  | nil => simp [leading]
  | cons b bits ih =>
      have hlen : bits.length < w := h
      have hsplit : (leading (b :: bits) : BitVec w) = leading [b] ^^^ (leading bits >>> 1) := by
        simp [leading]
      calc
        remainder P r (b :: bits)
            = (shift P)^[bits.length] (shift P (r ^^^ leading [b]) ^^^ leading bits) := by
          rw [remainder_cons, feed_eq_shift, ih _ hlen.le]
        _ = (shift P)^[bits.length] (shift P (r ^^^ leading (b :: bits))) := by
          rw [hsplit, ← BitVec.xor_assoc, shift_xor P (r ^^^ leading [b]),
            shift_leading_ushiftRight P hlen]
        _ = (shift P)^[(b :: bits).length] (r ^^^ leading (b :: bits)) := by
          rw [List.length_cons, Function.iterate_succ_apply]

/-- Zeros leave the register without the generator coming in. -/
theorem iterate_shift_of_getMsbD {n : ℕ} {r : BitVec w} (h : ∀ i < n, r.getMsbD i = false) :
    (shift P)^[n] r = r <<< n := by
  induction n generalizing r with
  | zero => simp
  | succ n ih =>
      have hfirst : shift P r = r <<< 1 := by
        rw [shift, BitVec.msb, h 0 (by omega)]
        simp
      rw [Function.iterate_succ_apply, hfirst, ih, ← BitVec.shiftLeft_add, Nat.add_comm]
      intro i hi
      rw [BitVec.getMsbD_shiftLeft]
      simpa [Nat.add_comm] using h (i + 1) (by omega)

/-! ## Error bursts -/

section Bursts

variable {P}

theorem shift_eq_zero (hP : P.getLsbD 0 = true) {r : BitVec w} (h : shift P r = 0#w) :
    r = 0#w := by
  cases hmsb : r.msb with
  | true =>
      have hbit := congrArg (BitVec.getLsbD · 0) h
      simp [shift, hmsb, hP] at hbit
  | false =>
      have hdouble : r <<< 1 = 0#w := by simpa [shift, hmsb] using h
      apply BitVec.eq_of_getLsbD_eq
      intro i hi
      by_cases hlast : i + 1 < w
      · have hbit := congrArg (BitVec.getLsbD · (i + 1)) hdouble
        simpa [hlast, BitVec.getLsbD_eq_getElem hi] using hbit
      · rw [BitVec.msb_eq_getLsbD_last, show w - 1 = i by omega] at hmsb
        simpa using hmsb

theorem iterate_shift_eq_zero (hP : P.getLsbD 0 = true) {n : ℕ} {r : BitVec w}
    (h : (shift P)^[n] r = 0#w) : r = 0#w := by
  induction n generalizing r with
  | zero => exact h
  | succ n ih => exact shift_eq_zero hP (ih h)

/-- A burst that fits into the register is detected at every position. -/
theorem remainder_ne_zero_of_burst (hP : P.getLsbD 0 = true) {burst : List Bool}
    (hlen : burst.length ≤ w) (hne : true ∈ burst) (before after : ℕ) :
    remainder P 0#w
      (List.replicate before false ++ burst ++ List.replicate after false) ≠ 0#w := by
  intro h
  rw [remainder_append, remainder_append, remainder_replicate_false, remainder_replicate_false,
    iterate_shift_zero, remainder_eq_iterate_shift P _ hlen, BitVec.zero_xor] at h
  exact leading_eq_zero hlen (iterate_shift_eq_zero hP (iterate_shift_eq_zero hP h)) hne

theorem eq_replicate_false {bits : List Bool} (h : true ∉ bits) :
    bits = List.replicate bits.length false := by
  refine List.eq_replicate_of_mem fun b hb ↦ ?_
  cases b with
  | false => rfl
  | true => exact absurd hb h

/-- The same for any bit string whose nonzero bits lie within `w` places. -/
theorem remainder_ne_zero_of_confined (hP : P.getLsbD 0 = true) {bits : List Bool}
    (hne : true ∈ bits) {k : ℕ} (hconf : ∀ i, bits[i]? = some true → k ≤ i ∧ i < k + w) :
    remainder P 0#w bits ≠ 0#w := by
  have hbefore : true ∉ bits.take k := by
    intro hmem
    obtain ⟨i, hi⟩ := List.mem_iff_getElem?.mp hmem
    rw [List.getElem?_take] at hi
    split at hi
    · have := (hconf i hi).1
      omega
    · simp at hi
  have hafter : true ∉ (bits.drop k).drop w := by
    intro hmem
    obtain ⟨i, hi⟩ := List.mem_iff_getElem?.mp hmem
    rw [List.drop_drop, List.getElem?_drop] at hi
    have := (hconf _ hi).2
    omega
  have hsplit : bits = bits.take k ++ (bits.drop k).take w ++ (bits.drop k).drop w := by
    rw [List.append_assoc, List.take_append_drop, List.take_append_drop]
  have hburst : true ∈ (bits.drop k).take w := by
    rw [hsplit] at hne
    rcases List.mem_append.mp hne with hne | hne
    · exact (List.mem_append.mp hne).resolve_left hbefore
    · exact absurd hne hafter
  rw [hsplit, eq_replicate_false hbefore, eq_replicate_false hafter]
  exact remainder_ne_zero_of_burst hP (List.length_take_le _ _) hburst _ _

end Bursts

end IqrfDaemon.Cyclic
