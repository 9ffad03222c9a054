import IqrfDaemon.Calendar.Date
import IqrfDaemon.Text.Decimal
import IqrfDaemon.Serializer.Encode
import Mathlib.Data.String.Basic

/-!
# Timestamps of replies

A timestamp is the local time to the second, a point, and the microseconds of the
second.  The width that is meant to fill the microseconds up with zeros is taken
by the text before them, so they are printed as they are, and a reader takes them
for a larger fraction unless they have six digits or are zero.
-/

namespace IqrfDaemon.Serializer

open Calendar Text

/-! ## The local time -/

def yearOf (seconds : ℤ) : ℤ := (dateOf (seconds / 86400)).year

/-- The fields behind the year, from the month to the second. -/
def clockOf (seconds : ℤ) : List ℕ :=
  [(dateOf (seconds / 86400)).month, (dateOf (seconds / 86400)).day,
    (seconds % 86400).toNat / 3600, (seconds % 86400).toNat / 60 % 60,
    (seconds % 86400).toNat % 60]

/-- `"%FT%T"` -/
def dateTime (seconds : ℤ) : String :=
  toString (yearOf seconds) ++
    String.ofList (separated ['-', '-', 'T', ':', ':'] (clockOf seconds))

/-- `strftime` prints the local time of a zone, which is ahead by a number of seconds. -/
def PrintsLocalTime (p : Printers) (zone : ℤ) : Prop :=
  ∀ seconds, p.strftime seconds = dateTime (seconds + zone)

theorem clockOf_lt (seconds : ℤ) : ∀ n ∈ clockOf seconds, n < 100 := by
  obtain ⟨hmonth, hday⟩ := dateOf_bounds (seconds / 86400)
  intro n hn
  simp only [clockOf, List.mem_cons, List.not_mem_nil, or_false] at hn
  omega

/-- Local times are in the order of their seconds. -/
theorem yearOf_clockOf_lt {s s' : ℤ} (h : s < s') :
    yearOf s < yearOf s' ∨ yearOf s = yearOf s' ∧ clockOf s < clockOf s' := by
  simp only [clockOf, List.cons_lt_cons_iff, yearOf]
  rcases lt_or_eq_of_le (show s / 86400 ≤ s' / 86400 by omega) with hday | hday
  · rcases dateOf_lt hday with hyear | ⟨hyear, hmonth | ⟨hmonth, hlast⟩⟩
    · exact Or.inl hyear
    · exact Or.inr ⟨hyear, Or.inl hmonth⟩
    · exact Or.inr ⟨hyear, Or.inr ⟨hmonth, Or.inl hlast⟩⟩
  · have hsecond : (s % 86400).toNat < (s' % 86400).toNat := by omega
    rw [hday]
    refine Or.inr ⟨rfl, Or.inr ⟨rfl, Or.inr ⟨rfl, ?_⟩⟩⟩
    generalize (s % 86400).toNat = n at hsecond ⊢
    generalize (s' % 86400).toNat = m at hsecond ⊢
    rcases lt_or_eq_of_le (show n / 3600 ≤ m / 3600 by omega) with hhour | hhour
    · exact Or.inl hhour
    · refine Or.inr ⟨hhour, ?_⟩
      rcases lt_or_eq_of_le (show n / 60 % 60 ≤ m / 60 % 60 by omega) with hminute | hminute
      · exact Or.inl hminute
      · exact Or.inr ⟨hminute, Or.inl (by omega)⟩

theorem toList_dateTime (seconds : ℤ) : (dateTime seconds).toList =
    (toString (yearOf seconds)).toList ++
      separated ['-', '-', 'T', ':', ':'] (clockOf seconds) := by
  rw [dateTime, String.toList_append, String.toList_ofList]

/-! ## Years as texts -/

theorem toList_toString_negSucc (n : ℕ) :
    (toString (Int.negSucc n)).toList = '-' :: Nat.toDigits 10 (n + 1) := by
  change ("-" ++ (n + 1).repr).toList = _
  rw [String.toList_append, Nat.toList_repr]
  rfl

theorem toDigits_injective {n m : ℕ} (h : Nat.toDigits 10 n = Nat.toDigits 10 m) : n = m := by
  have hvalue := congrArg (fun digits ↦ Nat.ofDigitChars 10 digits 0) h
  simpa using hvalue

theorem notMem_toDigits {c : Char} (hc : c.isDigit = false) (n : ℕ) : c ∉ Nat.toDigits 10 n := by
  intro hmem
  rw [isDigit_toDigits n c hmem] at hc
  exact absurd hc (by decide)

theorem toString_injective {y y' : ℤ} (h : (toString y).toList = (toString y').toList) :
    y = y' := by
  rcases y with n | n <;> rcases y' with m | m
  · rw [Int.ofNat_eq_natCast, Int.ofNat_eq_natCast, toList_toString_natCast,
      toList_toString_natCast] at h
    rw [toDigits_injective h]
  · rw [Int.ofNat_eq_natCast, toList_toString_natCast, toList_toString_negSucc] at h
    exact absurd (h ▸ List.mem_cons_self) (notMem_toDigits (c := '-') (by decide) n)
  · rw [Int.ofNat_eq_natCast, toList_toString_natCast, toList_toString_negSucc] at h
    exact absurd (h ▸ List.mem_cons_self) (notMem_toDigits (c := '-') (by decide) m)
  · rw [toList_toString_negSucc, toList_toString_negSucc] at h
    rw [Nat.succ.inj (toDigits_injective (List.cons.inj h).2)]

theorem point_notMem_toString (y : ℤ) : '.' ∉ (toString y).toList := by
  rcases y with n | n
  · rw [Int.ofNat_eq_natCast, toList_toString_natCast]
    exact notMem_toDigits (by decide) n
  · rw [toList_toString_negSucc, List.mem_cons, not_or]
    exact ⟨by decide, notMem_toDigits (by decide) _⟩

/-- A year of four digits, filled up as it is. -/
theorem toString_eq_zeroPadded {y : ℤ} (h : 1000 ≤ y) :
    (toString y).toList = zeroPadded 4 y.toNat := by
  obtain ⟨n, rfl⟩ := Int.eq_ofNat_of_zero_le (show 0 ≤ y by omega)
  have hlength : ¬(Nat.toDigits 10 n).length ≤ 3 := by
    rw [Nat.length_toDigits_le_iff (by decide) (by decide)]
    omega
  have hnone : 4 - (Nat.toDigits 10 n).length = 0 := by omega
  rw [toList_toString_natCast, zeroPadded, Int.toNat_natCast, hnone, List.replicate_zero,
    List.nil_append]

/-! ## Local times as texts -/

theorem point_notMem_separated {seps : List Char} (hseps : '.' ∉ seps) (ns : List ℕ) :
    '.' ∉ separated seps ns := by
  induction seps generalizing ns with
  | nil => simp [separated]
  | cons sep seps ih =>
      rw [List.mem_cons, not_or] at hseps
      cases ns with
      | nil => simp [separated]
      | cons n ns =>
          simp only [separated, List.mem_cons, List.mem_append, not_or]
          refine ⟨hseps.1, ?_, ih hseps.2 ns⟩
          intro hmem
          exact absurd (isDigit_zeroPadded 2 n '.' hmem) (by decide)

theorem point_notMem_dateTime (seconds : ℤ) : '.' ∉ (dateTime seconds).toList := by
  rw [toList_dateTime, List.mem_append, not_or]
  exact ⟨point_notMem_toString _, point_notMem_separated (by decide) _⟩

theorem separated_clockOf_lt {s s' : ℤ} (h : clockOf s < clockOf s') :
    separated ['-', '-', 'T', ':', ':'] (clockOf s) <
      separated ['-', '-', 'T', ':', ':'] (clockOf s') :=
  separated_lt h rfl rfl (clockOf_lt s) (clockOf_lt s')

theorem dateTime_ne_of_lt {s s' : ℤ} (h : s < s') :
    (dateTime s).toList ≠ (dateTime s').toList := by
  rw [toList_dateTime, toList_dateTime]
  intro heq
  have hlength : (separated ['-', '-', 'T', ':', ':'] (clockOf s)).length =
      (separated ['-', '-', 'T', ':', ':'] (clockOf s')).length := by
    rw [length_separated rfl (clockOf_lt s), length_separated rfl (clockOf_lt s')]
  obtain ⟨hyear, hclock⟩ := List.append_inj' heq hlength
  rcases yearOf_clockOf_lt h with hlt | ⟨-, hlt⟩
  · exact hlt.ne (toString_injective hyear)
  · exact absurd (hclock ▸ separated_clockOf_lt hlt) (List.lt_irrefl _)

theorem dateTime_injective {s s' : ℤ} (h : (dateTime s).toList = (dateTime s').toList) :
    s = s' := by
  rcases lt_trichotomy s s' with hlt | heq | hlt
  · exact absurd h (dateTime_ne_of_lt hlt)
  · exact heq
  · exact absurd h.symm (dateTime_ne_of_lt hlt)

/-- The year has four digits. -/
def FourDigitYear (seconds : ℤ) : Prop := 1000 ≤ yearOf seconds ∧ yearOf seconds ≤ 9999

theorem length_dateTime {s : ℤ} (h : FourDigitYear s) : (dateTime s).toList.length = 19 := by
  rw [toList_dateTime, toString_eq_zeroPadded h.1, List.length_append,
    length_zeroPadded (by decide) (by have := h.2; omega),
    length_separated rfl (clockOf_lt s)]
  rfl

theorem dateTime_lt {s s' : ℤ} (h : FourDigitYear s) (h' : FourDigitYear s') (hlt : s < s') :
    (dateTime s).toList < (dateTime s').toList := by
  have hbound : (yearOf s).toNat < 10 ^ 4 := by
    have := h.2
    omega
  have hbound' : (yearOf s').toNat < 10 ^ 4 := by
    have := h'.2
    omega
  rw [toList_dateTime, toList_dateTime, toString_eq_zeroPadded h.1, toString_eq_zeroPadded h'.1]
  rcases yearOf_clockOf_lt hlt with hyear | ⟨hyear, hclock⟩
  · apply append_lt_append
    · apply zeroPadded_lt (by decide) _ hbound'
      have := h.1
      omega
    · rw [length_zeroPadded (by decide) hbound, length_zeroPadded (by decide) hbound']
  · rw [hyear]
    exact List.append_left_lt (separated_clockOf_lt hclock)

/-! ## Microseconds -/

/-- The microseconds of a time within its second. -/
def microsOf (t : ℤ) : ℕ := (t / 1000 % 1000000).toNat

theorem microsOf_lt (t : ℤ) : microsOf t < 1000000 := by
  unfold microsOf
  omega

/-- The digits behind the first point, as a fraction. -/
def fraction (text : String) : ℚ :=
  decimalFraction ((text.toList.dropWhile fun c ↦ c != '.').drop 1)

theorem dropWhile_append_point {s : List Char} (hs : '.' ∉ s) (digits : List Char) :
    ((s ++ '.' :: digits).dropWhile fun c ↦ c != '.').drop 1 = digits := by
  rw [List.dropWhile_append_of_pos]
  · simp
  · intro c hc
    have hne : c ≠ '.' := fun heq ↦ hs (heq ▸ hc)
    simpa using hne

section Printed

variable {p : Printers} {zone t t' : ℤ} (hp : PrintsLocalTime p zone) (ht : 0 < t) (ht' : 0 < t')

include hp ht

theorem toList_encodeTimestamp : (encodeTimestamp p t).toList =
    (dateTime (t / 1000000000 + zone)).toList ++ '.' :: Nat.toDigits 10 (microsOf t) := by
  have hmicros : ((t / 1000 % 1000000 : ℤ)) = (microsOf t : ℤ) := by
    unfold microsOf
    omega
  rw [encodeTimestamp, if_neg ht.ne', hp, Int.tdiv_eq_ediv_of_nonneg ht.le,
    Int.tdiv_eq_ediv_of_nonneg ht.le, Int.tmod_eq_emod_of_nonneg (by omega), hmicros,
    String.toList_append, String.toList_append, toList_toString_natCast, List.append_assoc]
  rfl

theorem fraction_encodeTimestamp : fraction (encodeTimestamp p t) =
    decimalFraction (Nat.toDigits 10 (microsOf t)) := by
  rw [fraction, toList_encodeTimestamp hp ht, dropWhile_append_point (point_notMem_dateTime _)]

include ht'

theorem encodeTimestamp_congr (h : t / 1000 = t' / 1000) :
    encodeTimestamp p t = encodeTimestamp p t' := by
  have hseconds : t / 1000000000 = t' / 1000000000 := by omega
  rw [← String.toList_inj, toList_encodeTimestamp hp ht, toList_encodeTimestamp hp ht', hseconds,
    microsOf, microsOf, h]

/-- Two times are printed alike only in one microsecond. -/
theorem encodeTimestamp_injective (h : encodeTimestamp p t = encodeTimestamp p t') :
    t / 1000 = t' / 1000 := by
  have htext := congrArg String.toList h
  rw [toList_encodeTimestamp hp ht, toList_encodeTimestamp hp ht'] at htext
  have hdigits := congrArg (fun s ↦ (s.dropWhile fun c ↦ c != '.').drop 1) htext
  simp only [dropWhile_append_point (point_notMem_dateTime _)] at hdigits
  rw [hdigits] at htext
  have hseconds := dateTime_injective (List.append_cancel_right htext)
  have hmicros := toDigits_injective hdigits
  unfold microsOf at hmicros
  omega

end Printed

/-! ## Reading a timestamp back -/

/-- The fraction gives the microseconds of the time within its second. -/
def FractionExact (text : String) (t : ℤ) : Prop := fraction text = (microsOf t : ℚ) / 1000000

/-- Two timestamps are read back: their fractions are exact, two microseconds have two
texts, and texts with years of four digits are in the order of their times. -/
structure ReadBack (p : Printers) (zone t t' : ℤ) : Prop where
  exact : FractionExact (encodeTimestamp p t) t
  exact' : FractionExact (encodeTimestamp p t') t'
  distinct : t / 1000 ≠ t' / 1000 → encodeTimestamp p t ≠ encodeTimestamp p t'
  ordered : FourDigitYear (t / 1000000000 + zone) → FourDigitYear (t' / 1000000000 + zone) →
    (encodeTimestamp p t < encodeTimestamp p t' ↔ t / 1000 < t' / 1000)

/-- The microseconds have no zeros that are missing before them. -/
def Filled (t : ℤ) : Prop := microsOf t = 0 ∨ 100000 ≤ microsOf t

instance (t : ℤ) : Decidable (Filled t) := inferInstanceAs (Decidable (_ ∨ _))

/-- Without the zeros before it a number is the fraction only if there are none. -/
theorem decimalFraction_toDigits_iff {n : ℕ} (hn : n < 1000000) :
    decimalFraction (Nat.toDigits 10 n) = (n : ℚ) / 1000000 ↔ n = 0 ∨ 100000 ≤ n := by
  have hsix : (Nat.toDigits 10 n).length ≤ 6 :=
    (Nat.length_toDigits_le_iff (by decide) (by decide)).mpr hn
  have hfive : (Nat.toDigits 10 n).length ≤ 5 ↔ n < 100000 :=
    Nat.length_toDigits_le_iff (by decide) (by decide)
  rw [decimalFraction_eq, Nat.ofDigitChars_ten_toDigits]
  constructor
  · intro heq
    by_contra hnot
    rw [not_or, Nat.not_le] at hnot
    have hpos : (0 : ℚ) < n := by exact_mod_cast Nat.pos_of_ne_zero hnot.1
    have hpow : (10 : ℚ) ^ (Nat.toDigits 10 n).length ≤ 10 ^ 5 :=
      pow_le_pow_right₀ (by norm_num) (hfive.mpr hnot.2)
    have hlt : (n : ℚ) / 1000000 < n / 10 ^ (Nat.toDigits 10 n).length := by
      apply div_lt_div_of_pos_left hpos (by positivity)
      exact hpow.trans_lt (by norm_num)
    exact hlt.ne heq.symm
  · rintro (rfl | hle)
    · simp
    · have hlength : (Nat.toDigits 10 n).length = 6 := by
        have := hfive.not.mpr (Nat.not_lt.mpr hle)
        omega
      rw [hlength]
      norm_num

section Printed

variable {p : Printers} {zone t t' : ℤ} (hp : PrintsLocalTime p zone) (ht : 0 < t) (ht' : 0 < t')

include hp ht

theorem fractionExact_iff : FractionExact (encodeTimestamp p t) t ↔ Filled t := by
  rw [FractionExact, fraction_encodeTimestamp hp ht]
  exact decimalFraction_toDigits_iff (microsOf_lt t)

include ht'

theorem encodeTimestamp_lt (hfilled : Filled t) (hfilled' : Filled t')
    (hyear : FourDigitYear (t / 1000000000 + zone))
    (hyear' : FourDigitYear (t' / 1000000000 + zone)) (hlt : t / 1000 < t' / 1000) :
    encodeTimestamp p t < encodeTimestamp p t' := by
  rw [String.lt_iff_toList_lt, toList_encodeTimestamp hp ht, toList_encodeTimestamp hp ht']
  rcases lt_or_eq_of_le (show t / 1000000000 ≤ t' / 1000000000 by omega) with hsecond | hsecond
  · apply append_lt_append (dateTime_lt hyear hyear' (by omega))
    rw [length_dateTime hyear, length_dateTime hyear']
  · have hmicros : microsOf t < microsOf t' := by
      unfold microsOf
      omega
    rw [hsecond]
    apply List.append_left_lt
    refine List.cons_lt_cons_iff.mpr (Or.inr ⟨rfl, ?_⟩)
    apply lt_of_decimalFraction_lt (isDigit_toDigits _) (isDigit_toDigits _)
    rw [(decimalFraction_toDigits_iff (microsOf_lt t)).mpr hfilled,
      (decimalFraction_toDigits_iff (microsOf_lt t')).mpr hfilled']
    have hcast : (microsOf t : ℚ) < microsOf t' := by exact_mod_cast hmicros
    gcongr

end Printed

/-- Times are read back if the microseconds of each are zero or have six digits. -/
theorem timestamps_readBack_iff (p : Printers) (zone : ℤ) (hp : PrintsLocalTime p zone)
    (t t' : ℤ) (ht : 0 < t) (ht' : 0 < t') : ReadBack p zone t t' ↔ Filled t ∧ Filled t' := by
  constructor
  · rintro ⟨hexact, hexact', -, -⟩
    exact ⟨(fractionExact_iff hp ht).mp hexact, (fractionExact_iff hp ht').mp hexact'⟩
  · rintro ⟨hfilled, hfilled'⟩
    refine ⟨(fractionExact_iff hp ht).mpr hfilled, (fractionExact_iff hp ht').mpr hfilled',
      fun hne heq ↦ hne (encodeTimestamp_injective hp ht ht' heq), fun hyear hyear' ↦ ?_⟩
    refine ⟨fun hlt ↦ ?_, encodeTimestamp_lt hp ht ht' hfilled hfilled' hyear hyear'⟩
    by_contra hnot
    rcases lt_or_eq_of_le (Int.not_lt.mp hnot) with hlater | heq
    · exact lt_asymm hlt (encodeTimestamp_lt hp ht' ht hfilled' hfilled hyear' hyear hlater)
    · exact hlt.ne' (encodeTimestamp_congr hp ht' ht heq)

/-- A library whose local time is the universal time. -/
def utcPrinters : Printers := { plainPrinters with strftime := dateTime }

theorem utcPrinters_printsLocalTime : PrintsLocalTime utcPrinters 0 := by
  intro seconds
  rw [Int.add_zero]
  rfl

/-- A second and a half after the epoch, and the moment a microsecond later. -/
theorem timestamps_readBack_iff_half :
    ReadBack utcPrinters 0 1500000000 1500001000 ↔ Filled 1500000000 ∧ Filled 1500001000 :=
  timestamps_readBack_iff utcPrinters 0 utcPrinters_printsLocalTime 1500000000 1500001000
    (by decide) (by decide)

/-- Five microseconds after the epoch read as half a second, and the text is behind that
of ten microseconds. -/
theorem five_micros_read_half :
    ¬ FractionExact (encodeTimestamp utcPrinters 5000) 5000 ∧
      fraction (encodeTimestamp utcPrinters 5000) = 1 / 2 ∧
        encodeTimestamp utcPrinters 10000 < encodeTimestamp utcPrinters 5000 := by
  have hfive : Nat.toDigits 10 (microsOf 5000) = ['5'] := by decide
  have hten : Nat.toDigits 10 (microsOf 10000) = ['1', '0'] := by decide
  refine ⟨?_, ?_, ?_⟩
  · rw [fractionExact_iff utcPrinters_printsLocalTime (by decide)]
    decide
  · rw [fraction_encodeTimestamp utcPrinters_printsLocalTime (by decide), hfive]
    have hdigit : decimalDigit '5' = 5 := by decide
    norm_num [decimalFraction, hdigit]
  · rw [String.lt_iff_toList_lt, toList_encodeTimestamp utcPrinters_printsLocalTime (by decide),
      toList_encodeTimestamp utcPrinters_printsLocalTime (by decide), hfive, hten]
    apply List.append_left_lt
    decide

end IqrfDaemon.Serializer
