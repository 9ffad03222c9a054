import Mathlib.Tactic.IntervalCases
import IqrfDaemon.PulseMeter.Profile

/-!
# Counters of pulse meters

A response to `READ_COUNTERS` is read up to its twentieth byte, and up to where its own
length byte points, whatever has been received.  The counters are assembled in an `int`,
which has no room for the upper half of their values.  A counter that is stored is
protected by a check sum of four bytes, all of which are the first one.
-/

namespace IqrfDaemon.PulseMeter

open Serializer

/-! ## The bytes that are read -/

section Reads

variable (p : ℕ → Byte)

theorem sumLoop_reads (indexes : List ℕ) (sum : Byte) (log : List ℕ) :
    (sumLoop p indexes sum log).2 = log ++ indexes := by
  induction indexes generalizing sum log with
  | nil => exact (List.append_nil log).symm
  | cons i rest ih =>
      have hstep : (sumLoop p (i :: rest) sum log).2 =
          (sumLoop p rest (sum - (p i - 1)) (log ++ [i])).2 := rfl
      rw [hstep, ih, List.append_assoc, List.singleton_append]

/-- The indexes that do not depend on the response. -/
def fixedReads : List ℕ := [0, 1, 2, 3, 4, 5, 6, 7, 8, 9, 13, 12, 11, 10, 17, 16, 15, 14, 18, 19]

theorem parseCounters_reads (m : PrfPulseMeter) :
    (parseCounters p m []).2 =
      fixedReads ++ List.range' 9 ((p 8).toNat - 1) ++ List.range 19 := by
  simp only [parseCounters, readCounter, reading_bind_apply, reading_pure_apply, load_apply,
    sumLoop_reads]
  rfl

theorem parseCounters_inside_iff (m : PrfPulseMeter) (received : ℕ) :
    (∀ i ∈ (parseCounters p m []).2, i < received) ↔
      20 ≤ received ∧ (p 8).toNat + 8 ≤ received := by
  rw [parseCounters_reads]
  constructor
  · intro h
    have hlast : 19 < received := h 19 (by simp [fixedReads])
    refine ⟨hlast, ?_⟩
    by_cases hlength : (p 8).toNat ≤ 1
    · omega
    · have hmem : (p 8).toNat + 7 ∈ List.range' 9 ((p 8).toNat - 1) :=
        List.mem_range'_1.mpr (by omega)
      have hread := h _ (List.mem_append_left _ (List.mem_append_right _ hmem))
      omega
  · rintro ⟨hfixed, hlength⟩ i hi
    rw [List.mem_append, List.mem_append] at hi
    rcases hi with (hi | hi) | hi
    · have hlast : ∀ j ∈ fixedReads, j < 20 := by decide
      have hlt := hlast i hi
      omega
    · have hlt := (List.mem_range'_1.mp hi).2
      omega
    · have hlt := List.mem_range.mp hi
      omega

end Reads

/-! ## The counters -/

theorem toNat_shiftIn {cnt : BitVec 32} (hcnt : cnt.toNat < 2 ^ 24) (b : Byte) :
    (shiftIn cnt b).toNat = 256 * cnt.toNat + b.toNat := by
  have hb := b.isLt
  have hfits : cnt.toNat <<< 8 % 2 ^ 32 = cnt.toNat <<< 8 := by
    rw [Nat.shiftLeft_eq]
    exact Nat.mod_eq_of_lt (by omega)
  rw [shiftIn, BitVec.toNat_or, BitVec.toNat_shiftLeft, hfits, BitVec.toNat_setWidth,
    Nat.mod_eq_of_lt (by omega), ← Nat.shiftLeft_add_eq_or_of_lt (by omega), Nat.shiftLeft_eq]
  omega

section Counters

variable (p : ℕ → Byte)

/-- The unsigned value of four bytes, the lowest first. -/
def littleEndian (offset : ℕ) : ℕ :=
  (p offset).toNat + 256 * ((p (offset + 1)).toNat +
    256 * ((p (offset + 2)).toNat + 256 * (p (offset + 3)).toNat))

/-- The value that `readCounter` returns. -/
def counter (offset : ℕ) : BitVec 32 :=
  shiftIn (shiftIn (shiftIn ((p (offset + 3)).setWidth 32) (p (offset + 2))) (p (offset + 1)))
    (p offset)

theorem toNat_counter (offset : ℕ) : (counter p offset).toNat = littleEndian p offset := by
  have h₃ := (p (offset + 3)).isLt
  have h₂ := (p (offset + 2)).isLt
  have h₁ := (p (offset + 1)).isLt
  have hfirst : ((p (offset + 3)).setWidth 32).toNat = (p (offset + 3)).toNat := by
    rw [BitVec.toNat_setWidth]
    exact Nat.mod_eq_of_lt (by omega)
  have hsecond := @toNat_shiftIn ((p (offset + 3)).setWidth 32) (by omega) (p (offset + 2))
  have hthird := toNat_shiftIn (by rw [hsecond, hfirst]; omega) (p (offset + 1))
  rw [counter, toNat_shiftIn (by rw [hthird, hsecond, hfirst]; omega), hthird, hsecond, hfirst,
    littleEndian]
  omega

/-- As an `int` the value is kept exactly if the last byte leaves the sign alone. -/
theorem toInt_counter_iff (offset : ℕ) :
    (counter p offset).toInt = littleEndian p offset ↔ (p (offset + 3)).toNat < 128 := by
  have h₃ := (p (offset + 3)).isLt
  have h₂ := (p (offset + 2)).isLt
  have h₁ := (p (offset + 1)).isLt
  have h₀ := (p offset).isLt
  rw [BitVec.toInt_eq_toNat_cond, toNat_counter, littleEndian]
  split <;> omega

end Counters

/-- A response to `READ_COUNTERS` is read inside only and both counters have their unsigned values
exactly if it has twenty bytes, its length byte does not point behind its end, and both counters
are below two to the thirty-first. -/
theorem parseResponse_exact_iff {m : PrfPulseMeter} (hcmd : m.cmd = .readCounters) (p : ℕ → Byte)
    (received : ℕ) :
    ((∀ i ∈ (m.parseResponse p []).2, i < received) ∧
        (m.parseResponse p []).1.getCounter .cnt1 = littleEndian p 10 ∧
          (m.parseResponse p []).1.getCounter .cnt2 = littleEndian p 14) ↔
      (20 ≤ received ∧ (p 8).toNat + 8 ≤ received) ∧
        (p 13).toNat < 128 ∧ (p 17).toNat < 128 := by
  have hparse : m.parseResponse p = parseCounters p m := by
    rw [PrfPulseMeter.parseResponse, hcmd]
  have hcnt1 : (parseCounters p m []).1.getCounter .cnt1 = (counter p 10).toInt := rfl
  have hcnt2 : (parseCounters p m []).1.getCounter .cnt2 = (counter p 14).toInt := rfl
  rw [hparse, hcnt1, hcnt2, parseCounters_inside_iff, toInt_counter_iff, toInt_counter_iff]

/-- A response of twenty bytes with the counters 305419896 and 42. -/
def countersResponse : ℕ → Byte := fun i ↦
  [0x01, 0x00, 0x20, 0x81, 0xff, 0xff, 0x00, 0x35, 0x0c, 0x00, 0x78, 0x56, 0x34, 0x12, 0x2a, 0x00,
    0x00, 0x00, 0x5a, 0x07].getD i 0

theorem parseResponse_exact_iff_counters :
    (∀ i ∈ (({} : PrfPulseMeter).parseResponse countersResponse []).2, i < 20) ∧
      (({} : PrfPulseMeter).parseResponse countersResponse []).1.getCounter .cnt1 = 305419896 ∧
        (({} : PrfPulseMeter).parseResponse countersResponse []).1.getCounter .cnt2 = 42 :=
  (parseResponse_exact_iff (m := {}) rfl countersResponse 20).mpr (by decide)

/-- A response of nineteen zeros is read behind its end. -/
theorem parseResponse_outside :
    ¬ ∀ (p : ℕ → Byte) (received : ℕ),
      (∀ i ∈ (({} : PrfPulseMeter).parseResponse p []).2, i < received) ∧
        (({} : PrfPulseMeter).parseResponse p []).1.getCounter .cnt1 = littleEndian p 10 ∧
          (({} : PrfPulseMeter).parseResponse p []).1.getCounter .cnt2 = littleEndian p 14 := by
  intro hclaim
  have hinside := (parseCounters_inside_iff (fun _ ↦ 0) {} 19).mp (hclaim (fun _ ↦ 0) 19).1
  omega

/-! ## The check sum of a stored counter -/

/-- The unsigned value as four bytes, the highest first. -/
def bigEndian (value : BitVec 32) : List Byte :=
  [24, 16, 8, 0].map fun k ↦ BitVec.ofNat 8 (value.toNat / 2 ^ k)

/-- Exactly one of the four bytes is another one. -/
def DifferInOneByte (v w : BitVec 32) : Prop :=
  ∃ i < 4, ∀ j < 4, (bigEndian v).getD j 0 ≠ (bigEndian w).getD j 0 ↔ j = i

/-- `PData[5]` behind the first byte. -/
def checksum (p₁ : Byte) : Byte :=
  0xff - (p₁ + 0x01) - (p₁ + 0x01) - (p₁ + 0x01) - (p₁ + 0x01)

theorem commandStoreCounter_pData (m : PrfPulseMeter) (cntNum : CntNum) (value : BitVec 32) :
    (m.commandStoreCounter cntNum value).pData =
      cntNum.toByte :: bigEndian value ++
        [checksum (BitVec.ofNat 8 (value.toNat / 2 ^ 24))] := by
  have hbyte : ∀ k, (((value >>> k) &&& 0xff).setWidth 8 : Byte) =
      BitVec.ofNat 8 (value.toNat / 2 ^ k) := by
    intro k
    have hmask : (0xff : BitVec 32).toNat = 2 ^ 8 - 1 := rfl
    apply BitVec.eq_of_toNat_eq
    rw [BitVec.toNat_setWidth, BitVec.toNat_and, BitVec.toNat_ushiftRight, hmask,
      Nat.and_two_pow_sub_one_eq_mod, Nat.shiftRight_eq_div_pow, BitVec.toNat_ofNat, Nat.mod_mod]
  have hshift : ∀ i j, value >>> i >>> j = value >>> (i + j) := fun i j ↦
    (BitVec.shiftRight_add value i j).symm
  have hfirst := hbyte 0
  rw [BitVec.ushiftRight_zero] at hfirst
  simp only [PrfPulseMeter.commandStoreCounter, PrfPulseMeter.command, hshift, hbyte, hfirst]
  rfl

theorem checksum_ne_iff (a b : Byte) : checksum a ≠ checksum b ↔ a.toNat % 64 ≠ b.toNat % 64 := by
  have hvalue : ∀ c : Byte, (checksum c).toNat = (251 + 252 * c.toNat) % 256 := by
    intro c
    have hc := c.isLt
    have hall : (0xff : Byte).toNat = 255 := rfl
    have hone : (0x01 : Byte).toNat = 1 := rfl
    rw [checksum]
    simp only [BitVec.toNat_sub, BitVec.toNat_add, hall, hone]
    omega
  have ha := a.isLt
  have hb := b.isLt
  rw [not_iff_not, ← BitVec.toNat_inj, hvalue, hvalue]
  omega

/-- For two values that differ in one byte: the request has both as they are, and other check sums
exactly if the byte is the first one and is another one modulo 64. -/
theorem commandStoreCounter_protects_iff (m : PrfPulseMeter) (cntNum : CntNum) (v w : BitVec 32) :
    ((∀ value, ((m.commandStoreCounter cntNum value).pData.drop 1).take 4 = bigEndian value) ∧
        (DifferInOneByte v w → (m.commandStoreCounter cntNum v).pData[5]? ≠
          (m.commandStoreCounter cntNum w).pData[5]?)) ↔
      (DifferInOneByte v w → v.toNat / 2 ^ 24 % 64 ≠ w.toNat / 2 ^ 24 % 64) := by
  have hbigEndian : ∀ value,
      ((m.commandStoreCounter cntNum value).pData.drop 1).take 4 = bigEndian value := by
    intro value
    rw [commandStoreCounter_pData]
    rfl
  have hchecksum : ∀ value, (m.commandStoreCounter cntNum value).pData[5]? =
      some (checksum (BitVec.ofNat 8 (value.toNat / 2 ^ 24))) := by
    intro value
    rw [commandStoreCounter_pData]
    rfl
  have hmod : ∀ n : ℕ, (BitVec.ofNat 8 n).toNat % 64 = n % 64 := by
    intro n
    rw [BitVec.toNat_ofNat]
    omega
  rw [and_iff_right hbigEndian, hchecksum, hchecksum, ne_eq, Option.some.injEq, ← ne_eq,
    checksum_ne_iff, hmod, hmod]

/-- The values 0 and 1 have the same check sum. -/
theorem commandStoreCounter_unprotected :
    ¬ ∀ v w : BitVec 32, DifferInOneByte v w →
      (({} : PrfPulseMeter).commandStoreCounter .cnt1 v).pData[5]? ≠
        (({} : PrfPulseMeter).commandStoreCounter .cnt1 w).pData[5]? := by
  intro hclaim
  have hdiffer : DifferInOneByte 0 1 := ⟨3, by decide⟩
  exact hclaim 0 1 hdiffer (by decide)

end IqrfDaemon.PulseMeter
