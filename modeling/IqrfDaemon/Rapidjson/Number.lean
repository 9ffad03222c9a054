import Mathlib.Tactic.Ring
import IqrfDaemon.Rapidjson.Reader

/-!
# Numbers of the reader

`ParseNumber` takes a numeral of the grammar and reads it as an integer if it is one
and fits into 64 bits, and as a double otherwise.  It refuses a numeral in two cases
only: the double that is accumulated from the digits of an integer reaches its limit,
or the exponent is too large for the digits of the fraction that count.
-/

namespace IqrfDaemon.Rapidjson

open Json Grammar Text

/-! ## Digits -/

/-- A number continued by digits. -/
def ofDigits (value : ℕ) (digits : List Char) : ℕ :=
  digits.foldl (fun n c ↦ 10 * n + decimalDigit c) value

theorem ofDigits_cons (value : ℕ) (c : Char) (digits : List Char) :
    ofDigits value (c :: digits) = ofDigits (10 * value + decimalDigit c) digits :=
  List.foldl_cons ..

theorem ofDigits_append (value : ℕ) (digits digits' : List Char) :
    ofDigits value (digits ++ digits') = ofDigits (ofDigits value digits) digits' :=
  List.foldl_append

theorem ofDigits_snoc (value : ℕ) (digits : List Char) (c : Char) :
    ofDigits value (digits ++ [c]) = 10 * ofDigits value digits + decimalDigit c :=
  ofDigits_append value digits [c]

theorem le_ofDigits (value : ℕ) (digits : List Char) : value ≤ ofDigits value digits := by
  induction digits generalizing value with
  | nil => exact le_rfl
  | cons c digits ih =>
      rw [ofDigits_cons]
      have hle := ih (10 * value + decimalDigit c)
      omega

theorem ofDigits_lt (value : ℕ) {digits : List Char} (h : ∀ c ∈ digits, c.isDigit = true) :
    ofDigits value digits < (value + 1) * 10 ^ digits.length := by
  induction digits generalizing value with
  | nil => simp [ofDigits]
  | cons c digits ih =>
      rw [ofDigits_cons, List.length_cons, pow_succ]
      have hc := decimalDigit_le (h c (by simp))
      have hlt := ih (10 * value + decimalDigit c) fun d hd ↦ h d (by simp [hd])
      calc ofDigits (10 * value + decimalDigit c) digits
          < (10 * value + decimalDigit c + 1) * 10 ^ digits.length := hlt
        _ ≤ (10 * (value + 1)) * 10 ^ digits.length := Nat.mul_le_mul_right _ (by omega)
        _ = (value + 1) * (10 ^ digits.length * 10) := by ring

/-- The text goes on with something else than a digit. -/
def NoDigit (s : List Char) : Prop := ∀ c ∈ s.head?, c.isDigit = false

theorem noDigit_dropWhile (s : List Char) : NoDigit (s.dropWhile Char.isDigit) := by
  intro c hc
  have := List.head?_dropWhile_not Char.isDigit s
  rw [Option.mem_def] at hc
  rw [hc] at this
  exact this

theorem isDigit_takeWhile (s : List Char) : ∀ c ∈ s.takeWhile Char.isDigit, c.isDigit = true :=
  fun _ hc ↦ List.mem_takeWhile_imp hc

/-- The digits at the head of a text are determined by what follows them. -/
theorem digits_unique {digits digits' s s' : List Char}
    (h : digits ++ s = digits' ++ s') (hd : ∀ c ∈ digits, c.isDigit = true) (hs : NoDigit s)
    (hd' : ∀ c ∈ digits', c.isDigit = true) (hs' : NoDigit s') : digits = digits' ∧ s = s' := by
  have htake := congrArg (List.takeWhile Char.isDigit) h
  rw [takeWhile_append_of_stop digits hs, takeWhile_append_of_stop digits' hs',
    List.takeWhile_eq_self_iff.mpr hd, List.takeWhile_eq_self_iff.mpr hd'] at htake
  subst htake
  exact ⟨rfl, List.append_cancel_left h⟩

/-! ## Integers -/

/-- A scanned text: its digits are counted, and the scan ends at the first digit that would take
the value over the bound, or behind the digits. -/
structure Scans (bound value count : ℕ) (s : List Char) (r : Scanned) (digits : List Char) :
    Prop where
  split : s = digits ++ r.left
  isDigit : ∀ c ∈ digits, c.isDigit = true
  value_eq : r.value = ofDigits value digits
  count_eq : r.count = count + digits.length
  value_le : r.value ≤ bound
  stop : r.full = false → NoDigit r.left
  next : r.full = true → ∃ c rest, r.left = c :: rest ∧ c.isDigit = true ∧
    bound < 10 * r.value + decimalDigit c

theorem lt_iff_decimalDigit_lt {c d : Char} (hc : c.isDigit = true) (hd : d.isDigit = true) :
    c < d ↔ decimalDigit c < decimalDigit d := by
  constructor
  · intro h
    by_contra hle
    rcases Nat.lt_or_eq_of_le (Nat.le_of_not_lt hle) with hlt | heq
    · exact Char.lt_asymm h (lt_of_decimalDigit_lt hd hlt)
    · rw [eq_of_decimalDigit_eq hd hc heq] at h
      exact Char.lt_irrefl _ h
  · exact lt_of_decimalDigit_lt hc

theorem exceeds_iff {limit value : ℕ} {last c : Char} (hlast : last.isDigit = true)
    (hc : c.isDigit = true) : (limit ≤ value ∧ (value ≠ limit ∨ last < c)) ↔
      10 * limit + decimalDigit last < 10 * value + decimalDigit c := by
  rw [lt_iff_decimalDigit_lt hlast hc]
  have hle := decimalDigit_le hlast
  have hle' := decimalDigit_le hc
  omega

theorem exists_scans (limit : ℕ) {last : Char} (hlast : last.isDigit = true) (s : List Char)
    {value : ℕ} (count : ℕ) (hvalue : value ≤ 10 * limit + decimalDigit last) :
    ∃ digits, Scans (10 * limit + decimalDigit last) value count s
      (scanInteger limit last value count s) digits := by
  induction s generalizing value count with
  | nil =>
      refine ⟨[], ⟨rfl, by simp, rfl, rfl, hvalue, ?_, ?_⟩⟩
      · intro _ c hc
        cases hc
      · intro h
        cases h
  | cons c s ih =>
      rw [scanInteger]
      by_cases hc : c.isDigit = true
      · rw [if_pos hc]
        by_cases hfull : limit ≤ value ∧ (value ≠ limit ∨ last < c)
        · rw [if_pos hfull]
          refine ⟨[], ⟨rfl, by simp, rfl, rfl, hvalue, ?_, ?_⟩⟩
          · intro h
            cases h
          · intro _
            exact ⟨c, s, rfl, hc, (exceeds_iff hlast hc).mp hfull⟩
        · rw [if_neg hfull]
          have hle := Nat.le_of_not_lt (mt (exceeds_iff hlast hc).mpr hfull)
          rw [Nat.mul_comm value 10]
          obtain ⟨digits, h⟩ := ih (count + 1) hle
          refine ⟨c :: digits, ⟨?_, ?_, h.value_eq, ?_, h.value_le, h.stop, h.next⟩⟩
          · rw [List.cons_append, ← h.split]
          · intro d hd
            rcases List.mem_cons.mp hd with rfl | hd
            · exact hc
            · exact h.isDigit d hd
          · rw [h.count_eq, List.length_cons]
            omega
      · rw [if_neg hc]
        refine ⟨[], ⟨rfl, by simp, rfl, rfl, hvalue, ?_, ?_⟩⟩
        · intro _ d hd
          obtain rfl : c = d := by simpa using hd
          simpa using hc
        · intro h
          cases h

/-- The largest magnitude of an integer. -/
def maxInteger (minus : Bool) : ℕ := if minus then 2 ^ 63 else 2 ^ 64 - 1

def max32 (minus : Bool) : ℕ := if minus then 2 ^ 31 else 2 ^ 32 - 1

theorem exists_scans32 (minus : Bool) (s : List Char) {value : ℕ} (count : ℕ)
    (hvalue : value ≤ max32 minus) :
    ∃ digits, Scans (max32 minus) value count s (scan32 minus value count s) digits := by
  cases minus with
  | true => exact exists_scans 214748364 (show '8'.isDigit = true from rfl) s count hvalue
  | false => exact exists_scans 429496729 (show '5'.isDigit = true from rfl) s count hvalue

theorem exists_scans64 (minus : Bool) (s : List Char) {value : ℕ} (count : ℕ)
    (hvalue : value ≤ maxInteger minus) :
    ∃ digits, Scans (maxInteger minus) value count s (scan64 minus value count s) digits := by
  cases minus with
  | true => exact exists_scans 0x0CCCCCCCCCCCCCCC (show '8'.isDigit = true from rfl) s count hvalue
  | false => exact exists_scans 0x1999999999999999 (show '5'.isDigit = true from rfl) s count hvalue

theorem max32_le_maxInteger (minus : Bool) : max32 minus ≤ maxInteger minus := by
  cases minus <;> decide

/-- No double that is accumulated from the digits is at its limit while a digit is to come. -/
def BelowLimit (atLimit : ℕ → Bool) (value : ℕ) (digits : List Char) : Prop :=
  ∀ pre c post, digits = pre ++ c :: post → atLimit (ofDigits value pre) = false

theorem scanDouble_append (atLimit : ℕ → Bool) {digits s : List Char} (value : ℕ)
    (hdigits : ∀ c ∈ digits, c.isDigit = true) (hs : NoDigit s) :
    (BelowLimit atLimit value digits →
      scanDouble atLimit value (digits ++ s) = some (ofDigits value digits, s)) ∧
    (¬BelowLimit atLimit value digits → scanDouble atLimit value (digits ++ s) = none) := by
  induction digits generalizing value with
  | nil =>
      refine ⟨fun _ ↦ ?_, fun h ↦ absurd ?_ h⟩
      · cases s with
        | nil => rfl
        | cons c s =>
            rw [List.nil_append, scanDouble, if_neg (by simp [hs c rfl])]
            rfl
      · intro pre c post h
        simp at h
  | cons c digits ih =>
      have hc := hdigits c (by simp)
      obtain ⟨hsome, hnone⟩ := ih (10 * value + decimalDigit c) fun d hd ↦ hdigits d (by simp [hd])
      rw [List.cons_append, scanDouble, if_pos hc, Nat.mul_comm value 10]
      by_cases hlimit : atLimit value = true
      · rw [if_pos hlimit]
        refine ⟨fun h ↦ ?_, fun _ ↦ rfl⟩
        have hfalse : atLimit value = false := h [] c digits rfl
        rw [hlimit] at hfalse
        cases hfalse
      · rw [if_neg hlimit]
        constructor
        · intro h
          refine hsome fun pre d post heq ↦ h (c :: pre) d post ?_
          rw [heq, List.cons_append]
        · intro h
          refine hnone fun hbelow ↦ h ?_
          intro pre d post heq
          cases pre with
          | nil => simpa [ofDigits] using hlimit
          | cons e pre =>
              obtain ⟨rfl, htail⟩ := List.cons.inj heq
              exact hbelow pre d post htail

section Digits

variable {bound value count : ℕ} {digits s read : List Char} {r : Scanned}

theorem Scans.of_not_full (h : Scans bound value count (digits ++ s) r read)
    (hfull : r.full = false) (hdigits : ∀ c ∈ digits, c.isDigit = true) (hs : NoDigit s) :
    read = digits ∧ r.left = s := by
  obtain ⟨rfl, hleft⟩ := digits_unique h.split hdigits hs h.isDigit (h.stop hfull)
  exact ⟨rfl, hleft.symm⟩

theorem Scans.of_full (h : Scans bound value count (digits ++ s) r read) (hfull : r.full = true)
    (hdigits : ∀ c ∈ digits, c.isDigit = true) (hs : NoDigit s) :
    ∃ c rest, digits = read ++ c :: rest ∧ r.left = c :: rest ++ s ∧
      bound < ofDigits value (read ++ [c]) := by
  obtain ⟨c, rest, hleft, hc, hbound⟩ := h.next hfull
  have hsplit := h.split
  have hcut : r.left = r.left.takeWhile Char.isDigit ++ r.left.dropWhile Char.isDigit :=
    List.takeWhile_append_dropWhile.symm
  rw [hcut, ← List.append_assoc] at hsplit
  obtain ⟨hread, hrest⟩ := digits_unique hsplit hdigits hs
    (fun d hd ↦ (List.mem_append.mp hd).elim (h.isDigit d) (isDigit_takeWhile r.left d))
    (noDigit_dropWhile r.left)
  rw [← hrest, hleft, List.takeWhile_cons_of_pos hc] at hcut
  rw [hleft, List.takeWhile_cons_of_pos hc] at hread
  refine ⟨c, rest.takeWhile Char.isDigit, hread, by rw [hleft, hcut], ?_⟩
  rw [ofDigits_snoc, ← h.value_eq]
  exact hbound

end Digits

/-- The double that is accumulated from the digits of a large integer stays below its limit. -/
def Accumulates (dbl : Doubles) (minus : Bool) (first : ℕ) (digits : List Char) : Prop :=
  ∀ pre c post, digits = pre ++ c :: post → maxInteger minus < ofDigits first (pre ++ [c]) →
    dbl.atLimit minus (ofDigits first pre) = false

theorem Accumulates.of_le {dbl : Doubles} {minus : Bool} {first : ℕ} {digits : List Char}
    (h : ofDigits first digits ≤ maxInteger minus) : Accumulates dbl minus first digits := by
  rintro pre c post rfl hlt
  have hle := le_ofDigits (ofDigits first (pre ++ [c])) post
  rw [← ofDigits_append, List.append_assoc, List.singleton_append] at hle
  omega

/-- Beyond the digits of an integer that still fits, all that counts are the doubles. -/
theorem accumulates_append_iff {dbl : Doubles} {minus : Bool} {first : ℕ} {read rest : List Char}
    {c : Char} (hle : ofDigits first read ≤ maxInteger minus)
    (hlt : maxInteger minus < ofDigits first (read ++ [c])) :
    Accumulates dbl minus first (read ++ c :: rest) ↔
      BelowLimit (dbl.atLimit minus) (ofDigits first read) (c :: rest) := by
  constructor
  · intro h pre d post heq
    have hpre : read ++ c :: rest = (read ++ pre) ++ d :: post := by
      rw [heq, List.append_assoc]
    rw [← ofDigits_append]
    refine h (read ++ pre) d post hpre (hlt.trans_le ?_)
    have hprefix : [c] <+: pre ++ [d] := by
      cases pre with
      | nil =>
          obtain ⟨rfl, -⟩ := List.cons.inj heq
          exact List.prefix_rfl
      | cons e pre =>
          obtain ⟨rfl, -⟩ := List.cons.inj heq
          exact ⟨pre ++ [d], rfl⟩
    obtain ⟨tail, htail⟩ := hprefix
    rw [List.append_assoc, ← htail, ← List.append_assoc, ofDigits_append first (read ++ [c])]
    exact le_ofDigits _ _
  · intro h pre d post heq hexceeds
    rcases List.append_eq_append_iff.mp heq with ⟨more, rfl, hmore⟩ | ⟨more, rfl, hmore⟩
    · rw [ofDigits_append]
      exact h more d post hmore
    · cases more with
      | nil =>
          rw [List.append_nil] at h
          exact h [] c rest rfl
      | cons e more =>
          obtain ⟨rfl, -⟩ := List.cons.inj hmore
          have hsplit : pre ++ d :: more = (pre ++ [d]) ++ more := by simp
          have hle' := le_ofDigits (ofDigits first (pre ++ [d])) more
          rw [← ofDigits_append, ← hsplit] at hle'
          omega

/-- The digits behind the first one that the loops for integers count: all, or at least 17. -/
def Counted (minus : Bool) (first : ℕ) (digits : List Char) (n : ℕ) : Prop :=
  if maxInteger minus < ofDigits first digits then 17 ≤ n else n = digits.length

theorem Counted.of_le {minus : Bool} {first : ℕ} {digits : List Char}
    (h : ofDigits first digits ≤ maxInteger minus) :
    Counted minus first digits digits.length := by
  rw [Counted, if_neg (Nat.not_lt.mpr h)]

theorem parseDigits_eq {dbl : Doubles} {minus : Bool} {start : List Char} {first : ℕ}
    {s : List Char} {i i64 : Scanned} (hi : scan32 minus first 0 s = i)
    (hi64 : scan64 minus i.value i.count i.left = i64) :
    parseDigits dbl minus start first s =
      if i.full then
        if i64.full then
          match scanDouble (dbl.atLimit minus) i64.value i64.left with
          | some (value, s) => .ok ⟨true, value, i64.count, s⟩
          | none => fail .numberTooBig start
        else .ok ⟨false, i64.value, i64.count, i64.left⟩
      else .ok ⟨false, i.value, i.count, i.left⟩ := by
  subst hi hi64
  rfl

/-- A number that has filled 64 bits has 18 digits at least. -/
theorem counted_of_full {minus : Bool} {first : ℕ} {read : List Char} {c : Char}
    (hfirst : first ≤ 9)
    (hread : ∀ d ∈ read, d.isDigit = true) (hc : c.isDigit = true)
    (hlt : maxInteger minus < ofDigits first (read ++ [c])) : 17 ≤ read.length := by
  have hdigit := decimalDigit_le hc
  rw [ofDigits_snoc] at hlt
  have hmax : 2 ^ 63 ≤ maxInteger minus := by cases minus <;> decide
  by_contra hshort
  have hpow : 10 ^ read.length ≤ 10 ^ 16 := Nat.pow_le_pow_right (by norm_num) (by omega)
  have hvalue := ofDigits_lt first hread
  have hten : (first + 1) * 10 ^ read.length ≤ 10 * 10 ^ 16 := Nat.mul_le_mul (by omega) hpow
  omega

theorem parseDigits_append (dbl : Doubles) (minus : Bool) {first : ℕ} {digits s : List Char}
    (start : List Char) (hfirst : first ≤ 9) (hdigits : ∀ c ∈ digits, c.isDigit = true)
    (hs : NoDigit s) :
    (Accumulates dbl minus first digits → ∃ n, Counted minus first digits n ∧
      parseDigits dbl minus start first (digits ++ s) =
        .ok ⟨maxInteger minus < ofDigits first digits, ofDigits first digits, n, s⟩) ∧
    (¬Accumulates dbl minus first digits →
      parseDigits dbl minus start first (digits ++ s) = fail .numberTooBig start) := by
  have hfirst32 : first ≤ max32 minus := hfirst.trans (by cases minus <;> decide)
  obtain ⟨read, h32⟩ := exists_scans32 minus (digits ++ s) 0 hfirst32
  rw [parseDigits_eq rfl rfl]
  generalize scan32 minus first 0 (digits ++ s) = i at h32 ⊢
  have hle32 := h32.value_le.trans (max32_le_maxInteger minus)
  cases hfull : i.full with
  | false =>
      obtain ⟨rfl, hleft⟩ := h32.of_not_full hfull hdigits hs
      rw [h32.value_eq] at hle32
      refine ⟨fun _ ↦ ⟨read.length, Counted.of_le hle32, ?_⟩,
        fun h ↦ absurd (Accumulates.of_le hle32) h⟩
      simp [h32.value_eq, h32.count_eq, hleft, hle32]
  | true =>
      obtain ⟨c, rest, rfl, hleft, -⟩ := h32.of_full hfull hdigits hs
      have hrest : ∀ d ∈ c :: rest, d.isDigit = true :=
        fun d hd ↦ hdigits d (List.mem_append_right _ hd)
      obtain ⟨read', h64⟩ := exists_scans64 minus i.left i.count hle32
      generalize scan64 minus i.value i.count i.left = i64 at h64 ⊢
      have hvalue : i64.value = ofDigits first (read ++ read') := by
        rw [h64.value_eq, h32.value_eq, ofDigits_append]
      have hcount : i64.count = (read ++ read').length := by
        rw [h64.count_eq, h32.count_eq, List.length_append, Nat.zero_add]
      have hle64 := h64.value_le
      rw [hvalue] at hle64
      rw [hleft] at h64
      cases hfull64 : i64.full with
      | false =>
          obtain ⟨rfl, hleft64⟩ := h64.of_not_full hfull64 hrest hs
          refine ⟨fun _ ↦ ⟨_, Counted.of_le hle64, ?_⟩,
            fun h ↦ absurd (Accumulates.of_le hle64) h⟩
          simp [hvalue, hcount, hleft64, hle64]
      | true =>
          obtain ⟨e, rest', hread, hleft64, hlt⟩ := h64.of_full hfull64 hrest hs
          rw [h32.value_eq, ← ofDigits_append, ← List.append_assoc] at hlt
          have hread' : ∀ d ∈ e :: rest', d.isDigit = true := by
            intro d hd
            rw [hread] at hrest
            exact hrest d (List.mem_append_right _ hd)
          have hdigits' : ∀ d ∈ read ++ read', d.isDigit = true := by
            intro d hd
            rw [hread, ← List.append_assoc] at hdigits
            exact hdigits d (List.mem_append_left _ hd)
          obtain ⟨hsome, hnone⟩ := scanDouble_append (dbl.atLimit minus)
            (ofDigits first (read ++ read')) hread' hs
          have hlarge : maxInteger minus < ofDigits first (read ++ read' ++ e :: rest') := by
            refine hlt.trans_le ?_
            have hsplit : read ++ read' ++ e :: rest' = read ++ read' ++ [e] ++ rest' := by simp
            rw [hsplit, ofDigits_append first (read ++ read' ++ [e])]
            exact le_ofDigits _ _
          rw [hread, ← List.append_assoc, accumulates_append_iff hle64 hlt, if_pos rfl, if_pos rfl,
            hvalue, hleft64]
          refine ⟨fun h ↦ ⟨i64.count, ?_, ?_⟩, fun h ↦ ?_⟩
          · rw [Counted, if_pos hlarge, hcount]
            exact counted_of_full hfirst hdigits' (hread' e (by simp)) hlt
          · rw [hsome h, ← ofDigits_append]
            simpa using hlarge
          · rw [hnone h]

theorem accumulates_cons_iff {dbl : Doubles} {minus : Bool} {c : Char} {digits : List Char}
    (hc : c.isDigit = true) : Accumulates dbl minus 0 (c :: digits) ↔
      Accumulates dbl minus (decimalDigit c) digits := by
  have hfirst (pre : List Char) : ofDigits 0 (c :: pre) = ofDigits (decimalDigit c) pre := by
    rw [ofDigits_cons, Nat.mul_zero, Nat.zero_add]
  constructor
  · intro h pre d post heq hlt
    rw [← hfirst]
    refine h (c :: pre) d post (by rw [heq, List.cons_append]) ?_
    rw [List.cons_append, hfirst]
    exact hlt
  · intro h pre d post heq hlt
    cases pre with
    | nil =>
        have hle := decimalDigit_le hc
        obtain ⟨rfl, -⟩ := List.cons.inj heq
        rw [List.nil_append, hfirst] at hlt
        have hmax : 2 ^ 63 ≤ maxInteger minus := by cases minus <;> decide
        have hten : decimalDigit c < 2 ^ 63 := by omega
        exact absurd (hmax.trans_lt hlt) (Nat.not_lt.mpr hten.le)
    | cons e pre =>
        obtain ⟨rfl, htail⟩ := List.cons.inj heq
        rw [List.cons_append, hfirst] at hlt
        rw [hfirst]
        exact h pre d post htail hlt

/-- What is read of the integer of a numeral. -/
structure ReadsInteger (minus : Bool) (integer : List Char) (i : Integer) : Prop where
  useDouble_eq : i.useDouble = decide (maxInteger minus < magnitude integer)
  value_eq : i.value = magnitude integer
  counted : if maxInteger minus < magnitude integer then 17 ≤ i.significandDigit
    else i.significandDigit = integer.length - 1

theorem parseInteger_digit (dbl : Doubles) (minus : Bool) (start : List Char)
    {digits s : List Char} {c : Char} (hc : c.isDigit = true) (hne : c ≠ '0')
    (hdigits : ∀ d ∈ digits, d.isDigit = true) (hs : NoDigit s) :
    (Accumulates dbl minus 0 (c :: digits) → ∃ i, ReadsInteger minus (c :: digits) i ∧
      i.left = s ∧ parseInteger dbl minus start (c :: digits ++ s) = .ok i) ∧
    (¬Accumulates dbl minus 0 (c :: digits) →
      parseInteger dbl minus start (c :: digits ++ s) = fail .numberTooBig start) := by
  have hmagnitude : magnitude (c :: digits) = ofDigits (decimalDigit c) digits := by
    change ofDigits 0 (c :: digits) = _
    rw [ofDigits_cons, Nat.mul_zero, Nat.zero_add]
  have hparse : parseInteger dbl minus start (c :: digits ++ s) =
      parseDigits dbl minus start (decimalDigit c) (digits ++ s) := by
    rw [List.cons_append, parseInteger, if_neg hne, if_pos hc]
  obtain ⟨hok, hfail⟩ := parseDigits_append dbl minus start
    (decimalDigit_le hc) hdigits hs
  rw [accumulates_cons_iff hc, hparse]
  refine ⟨fun h ↦ ?_, hfail⟩
  obtain ⟨n, hn, h⟩ := hok h
  refine ⟨_, ⟨?_, hmagnitude.symm, ?_⟩, rfl, h⟩
  · rw [hmagnitude]
  · rw [hmagnitude]
    exact hn

theorem readsInteger_zero (minus : Bool) (s : List Char) :
    ReadsInteger minus ['0'] ⟨false, 0, 0, s⟩ := by
  have hle : ¬maxInteger minus < magnitude ['0'] := by cases minus <;> decide
  refine ⟨by simp [hle], rfl, ?_⟩
  rw [if_neg hle]
  rfl

theorem parseInteger_append {dbl : Doubles} {minus : Bool} (start : List Char)
    {integer s : List Char}
    (hinteger : IsIntegerText integer) (hs : NoDigit s)
    (h : Accumulates dbl minus 0 integer) : ∃ i, ReadsInteger minus integer i ∧
      i.left = s ∧ parseInteger dbl minus start (integer ++ s) = .ok i := by
  cases integer with
  | nil => exact absurd rfl hinteger.ne_nil
  | cons c digits =>
      by_cases hc : c = '0'
      · subst hc
        rw [hinteger.leading_zero rfl]
        exact ⟨_, readsInteger_zero minus s, rfl, rfl⟩
      · exact (parseInteger_digit dbl minus start (hinteger.isDigit c (by simp)) hc
          (fun d hd ↦ hinteger.isDigit d (by simp [hd])) hs).1 h

theorem integer_of_parseInteger {dbl : Doubles} {minus : Bool} {start s : List Char} {i : Integer}
    (h : parseInteger dbl minus start s = .ok i) : ∃ integer, IsIntegerText integer ∧
      s = integer ++ i.left ∧ ReadsInteger minus integer i ∧ Accumulates dbl minus 0 integer := by
  cases s with
  | nil => cases h
  | cons c s =>
      by_cases hzero : c = '0'
      · subst hzero
        cases h
        exact ⟨['0'], ⟨by simp, by simp, fun _ ↦ rfl⟩, rfl, readsInteger_zero minus s,
          Accumulates.of_le (by cases minus <;> decide)⟩
      · by_cases hc : c.isDigit = true
        · have hs : s = s.takeWhile Char.isDigit ++ s.dropWhile Char.isDigit :=
            List.takeWhile_append_dropWhile.symm
          obtain ⟨hok, hfail⟩ := parseInteger_digit dbl minus start
            hc hzero (isDigit_takeWhile s) (noDigit_dropWhile s)
          rw [List.cons_append, ← hs, h] at hok hfail
          by_cases hacc : Accumulates dbl minus 0 (c :: s.takeWhile Char.isDigit)
          · obtain ⟨i', hreads, hleft, heq⟩ := hok hacc
            cases heq
            refine ⟨_, ⟨by simp, ?_, fun h ↦ absurd (by simpa using h) hzero⟩, ?_, hreads, hacc⟩
            · intro d hd
              rcases List.mem_cons.mp hd with rfl | hd
              · exact hc
              · exact isDigit_takeWhile s d hd
            · rw [hleft, List.cons_append, ← hs]
          · cases hfail hacc
        · rw [parseInteger, if_neg hzero, if_neg hc] at h
          cases h

/-! ## Fractions -/

theorem scanFraction_append (positive : Bool) (expFrac significandDigit : ℕ)
    {digits s : List Char} (hdigits : ∀ c ∈ digits, c.isDigit = true) (hs : NoDigit s) :
    scanFraction positive expFrac significandDigit (digits ++ s) =
      ((scanFraction positive expFrac significandDigit digits).1, s) := by
  induction digits generalizing positive expFrac significandDigit with
  | nil =>
      cases s with
      | nil => rfl
      | cons c s => simp [scanFraction, hs c rfl]
  | cons c digits ih =>
      have ih' := fun positive expFrac significandDigit ↦
        ih positive expFrac significandDigit fun d hd ↦ hdigits d (by simp [hd])
      rw [List.cons_append, scanFraction, scanFraction, if_pos (hdigits c (by simp)),
        if_pos (hdigits c (by simp))]
      split
      · exact ih' _ _ _
      · exact ih' _ _ _

theorem scanFraction64_append (i64 expFrac significandDigit : ℕ) {digits s : List Char}
    (hdigits : ∀ c ∈ digits, c.isDigit = true) (hs : NoDigit s) :
    ∃ i64' expFrac' significandDigit' digits', (∀ c ∈ digits', c.isDigit = true) ∧
      scanFraction64 i64 expFrac significandDigit digits =
        (i64', expFrac', significandDigit', digits') ∧
      scanFraction64 i64 expFrac significandDigit (digits ++ s) =
        (i64', expFrac', significandDigit', digits' ++ s) := by
  induction digits generalizing i64 expFrac significandDigit with
  | nil =>
      refine ⟨i64, expFrac, significandDigit, [], by simp, rfl, ?_⟩
      cases s with
      | nil => rfl
      | cons c s =>
          rw [List.nil_append, scanFraction64, if_neg (by simp [hs c rfl])]
  | cons c digits ih =>
      rw [List.cons_append, scanFraction64, scanFraction64]
      split
      · exact ih _ _ _ fun d hd ↦ hdigits d (by simp [hd])
      · exact ⟨_, _, _, c :: digits, hdigits, rfl, rfl⟩

/-- The digits of a fraction that the exponent of the double counts, if the integer is not
large. -/
def countedFraction (value significandDigit : ℕ) (digits : List Char) : ℕ :=
  let (i64, expFrac, significandDigit, s) := scanFraction64 value 0 significandDigit digits
  (scanFraction (i64 ≠ 0) expFrac significandDigit s).1

def expFracOf (minus : Bool) (integer fraction : List Char) : ℕ :=
  if maxInteger minus < magnitude integer then 0
  else countedFraction (magnitude integer) (integer.length - 1) fraction

theorem expFracOf_nil (minus : Bool) (integer : List Char) : expFracOf minus integer [] = 0 := by
  unfold expFracOf
  split <;> rfl

theorem scanFraction_of_le {significandDigit : ℕ} (h : 17 ≤ significandDigit) (positive : Bool)
    (expFrac : ℕ) {digits : List Char} (hdigits : ∀ c ∈ digits, c.isDigit = true) :
    scanFraction positive expFrac significandDigit digits = (expFrac, []) := by
  induction digits with
  | nil => rfl
  | cons c digits ih =>
      rw [scanFraction, if_pos (hdigits c (by simp)), if_neg (Nat.not_lt.mpr h)]
      exact ih fun d hd ↦ hdigits d (by simp [hd])

theorem parseFraction_point {minus : Bool} {integer digits s : List Char} {i : Integer}
    (hi : ReadsInteger minus integer i) (hne : digits ≠ [])
    (hdigits : ∀ c ∈ digits, c.isDigit = true) (hs : NoDigit s) :
    parseFraction i ('.' :: digits ++ s) = .ok (true, expFracOf minus integer digits, s) := by
  have hhead : ¬((digits ++ s).head?.any Char.isDigit) = false := by
    cases digits with
    | nil => exact absurd rfl hne
    | cons c digits => simpa using hdigits c (by simp)
  have hcounted := hi.counted
  rw [List.cons_append, parseFraction, if_pos rfl, if_neg hhead, hi.useDouble_eq, expFracOf]
  by_cases hlarge : maxInteger minus < magnitude integer
  · rw [if_pos hlarge] at hcounted ⊢
    rw [if_pos (decide_eq_true hlarge), scanFraction_append true 0 _ hdigits hs,
      scanFraction_of_le hcounted true 0 hdigits]
  · rw [if_neg hlarge] at hcounted ⊢
    obtain ⟨i64, expFrac, significandDigit, digits', hdigits', hscan, happend⟩ :=
      scanFraction64_append (magnitude integer) 0 (integer.length - 1) hdigits hs
    rw [if_neg (by simpa using hlarge), hi.value_eq, hcounted, happend, countedFraction, hscan]
    dsimp only
    rw [scanFraction_append _ _ _ hdigits' hs]

theorem parseFraction_append {minus : Bool} {integer digits s : List Char} {i : Integer}
    (hi : ReadsInteger minus integer i) (hdigits : ∀ c ∈ digits, c.isDigit = true)
    (hs : NoDigit s) (hpoint : s.head? ≠ some '.') :
    parseFraction i (fractionText digits ++ s) =
      .ok (decide (digits ≠ []), expFracOf minus integer digits, s) := by
  by_cases hne : digits = []
  · subst hne
    rw [expFracOf_nil]
    cases s with
    | nil => rfl
    | cons c s =>
        have hc : c ≠ '.' := by simpa using hpoint
        exact if_neg hc
  · rw [fractionText, if_neg hne, parseFraction_point hi hne hdigits hs]
    simp [hne]

theorem fraction_of_parseFraction {minus : Bool} {integer s left : List Char} {i : Integer}
    (hi : ReadsInteger minus integer i) {isFraction : Bool} {expFrac : ℕ}
    (h : parseFraction i s = .ok (isFraction, expFrac, left)) :
    ∃ digits, (∀ c ∈ digits, c.isDigit = true) ∧ s = fractionText digits ++ left ∧
      isFraction = decide (digits ≠ []) ∧ expFrac = expFracOf minus integer digits := by
  cases s with
  | nil =>
      cases h
      exact ⟨[], by simp, rfl, rfl, (expFracOf_nil minus integer).symm⟩
  | cons c s =>
      by_cases hc : c = '.'
      · subst hc
        by_cases hhead : (s.head?.any Char.isDigit) = false
        · rw [parseFraction, if_pos rfl, if_pos hhead] at h
          cases h
        · have hne : s.takeWhile Char.isDigit ≠ [] := by
            cases s with
            | nil => simp at hhead
            | cons d s =>
                have hd : d.isDigit = true := by simpa using hhead
                simp [hd]
          have hs : s = s.takeWhile Char.isDigit ++ s.dropWhile Char.isDigit :=
            List.takeWhile_append_dropWhile.symm
          have hpoint := parseFraction_point hi hne (isDigit_takeWhile s) (noDigit_dropWhile s)
          rw [List.cons_append, ← hs, h] at hpoint
          cases hpoint
          refine ⟨_, isDigit_takeWhile s, ?_, by simp [hne], rfl⟩
          rw [fractionText, if_neg hne, List.cons_append, ← hs]
      · rw [parseFraction, if_neg hc] at h
        cases h
        exact ⟨[], by simp, rfl, rfl, (expFracOf_nil minus integer).symm⟩

/-! ## Exponents -/

theorem scanExponent_append (maxExp : ℕ) {exp : ℕ} {digits s : List Char} (hexp : exp ≤ maxExp)
    (hdigits : ∀ c ∈ digits, c.isDigit = true) (hs : NoDigit s) :
    scanExponent maxExp exp (digits ++ s) =
      if ofDigits exp digits ≤ maxExp then some s else none := by
  induction digits generalizing exp with
  | nil =>
      rw [if_pos (show ofDigits exp [] ≤ maxExp from hexp)]
      cases s with
      | nil => rfl
      | cons c s => simp [scanExponent, hs c rfl]
  | cons c digits ih =>
      rw [List.cons_append, scanExponent, if_pos (hdigits c (by simp)), Nat.mul_comm exp 10,
        ofDigits_cons]
      dsimp only
      by_cases hlt : maxExp < 10 * exp + decimalDigit c
      · have hle := le_ofDigits (10 * exp + decimalDigit c) digits
        rw [if_pos hlt, if_neg (by omega)]
      · rw [if_neg hlt]
        exact ih (Nat.le_of_not_lt hlt) fun d hd ↦ hdigits d (by simp [hd])

/-- The exponent is negative, or not too large for the digits of the fraction. -/
def ExponentFits (expFrac : ℕ) (e : Option Exponent) : Prop :=
  ∀ x ∈ e, x.sign = ['-'] ∨ magnitude x.digits ≤ 308 + expFrac

theorem expSign_append {sign s : List Char} {d : Char}
    (hsign : sign = [] ∨ sign = ['+'] ∨ sign = ['-']) (hd : d.isDigit = true) :
    expSign (sign ++ d :: s) = (decide (sign = ['-']), d :: s) := by
  rcases hsign with rfl | rfl | rfl
  · rw [List.nil_append, expSign]
    · rfl
    · rintro t ⟨⟩
      cases hd
    · rintro t ⟨⟩
      cases hd
  · rfl
  · rfl

theorem parseExponent_text (start : List Char) (expFrac : ℕ) (e : Exponent) {s : List Char}
    (hs : NoDigit s) :
    (ExponentFits expFrac (some e) →
      parseExponent start expFrac (e.text ++ s) = .ok (true, s)) ∧
    (¬ExponentFits expFrac (some e) →
      parseExponent start expFrac (e.text ++ s) = fail .numberTooBig start) := by
  obtain ⟨letter, sign, digits, hletter, hsign, hne, hdigits⟩ := e
  cases digits with
  | nil => exact absurd rfl hne
  | cons d digits =>
      have hd := hdigits d (by simp)
      have hdigits' : ∀ c ∈ digits, c.isDigit = true := fun c hc ↦ hdigits c (by simp [hc])
      have hmagnitude : magnitude (d :: digits) = ofDigits (decimalDigit d) digits := by
        change ofDigits 0 (d :: digits) = _
        rw [ofDigits_cons, Nat.mul_zero, Nat.zero_add]
      have hfits : ExponentFits expFrac (some ⟨letter, sign, d :: digits, hletter, hsign, hne,
          hdigits⟩) ↔ sign = ['-'] ∨ ofDigits (decimalDigit d) digits ≤ 308 + expFrac := by
        rw [← hmagnitude]
        exact ⟨fun h ↦ h _ rfl, fun h x hx ↦ by cases hx; exact h⟩
      have htext : letter :: sign ++ d :: digits ++ s = letter :: (sign ++ d :: (digits ++ s)) := by
        simp
      have hscan := scanExponent_append (308 + expFrac)
        ((decimalDigit_le hd).trans (by omega)) hdigits' hs
      have hskip : (digits ++ s).dropWhile Char.isDigit = s := by
        rw [List.dropWhile_append_of_pos hdigits']
        cases s with
        | nil => rfl
        | cons c s => simp [hs c rfl]
      rw [hfits, Exponent.text, htext, parseExponent, if_pos hletter, expSign_append hsign hd]
      dsimp only
      rw [if_neg (by simp [hd]), hskip, hscan]
      by_cases hminus : sign = ['-']
      · simp [hminus]
      · by_cases hle : ofDigits (decimalDigit d) digits ≤ 308 + expFrac <;> simp [hminus, hle]

theorem parseExponent_append {start s : List Char} {expFrac : ℕ} {e : Option Exponent}
    (hfits : ExponentFits expFrac e) (hs : NoDigit s) (hletter : ∀ c ∈ s.head?, c ≠ 'e' ∧ c ≠ 'E') :
    parseExponent start expFrac (exponentText e ++ s) = .ok (e.isSome, s) := by
  cases e with
  | some e => exact (parseExponent_text start expFrac e hs).1 hfits
  | none =>
      cases s with
      | nil => rfl
      | cons c s =>
          obtain ⟨he, hE⟩ := hletter c rfl
          exact if_neg (by simp [he, hE])

theorem sign_of_expSign (s : List Char) : ∃ sign, (sign = [] ∨ sign = ['+'] ∨ sign = ['-']) ∧
    s = sign ++ (expSign s).2 ∧ (expSign s).1 = decide (sign = ['-']) := by
  unfold expSign
  split
  · exact ⟨['+'], by simp, rfl, rfl⟩
  · exact ⟨['-'], by simp, rfl, rfl⟩
  · exact ⟨[], by simp, rfl, rfl⟩

theorem exponent_of_parseExponent {start s left : List Char} {expFrac : ℕ} {isExponent : Bool}
    (h : parseExponent start expFrac s = .ok (isExponent, left)) :
    ∃ e, s = exponentText e ++ left ∧ isExponent = e.isSome ∧ ExponentFits expFrac e := by
  have hnone : ExponentFits expFrac none := by
    intro x hx
    cases hx
  cases s with
  | nil =>
      cases h
      exact ⟨none, rfl, rfl, hnone⟩
  | cons c s =>
      by_cases hletter : c = 'e' ∨ c = 'E'
      · obtain ⟨sign, hsign, hs, -⟩ := sign_of_expSign s
        cases hleft : (expSign s).2 with
        | nil =>
            rw [parseExponent, if_pos hletter, ← Prod.eta (expSign s), hleft] at h
            cases h
        | cons d t =>
            by_cases hd : d.isDigit = true
            · have hdigits : ∀ x ∈ d :: t.takeWhile Char.isDigit, x.isDigit = true := by
                intro x hx
                rcases List.mem_cons.mp hx with rfl | hx
                · exact hd
                · exact isDigit_takeWhile t x hx
              have htext : c :: s = Exponent.text ⟨c, sign, d :: t.takeWhile Char.isDigit, hletter,
                  hsign, by simp, hdigits⟩ ++ t.dropWhile Char.isDigit := by
                simp only [Exponent.text, List.append_assoc, List.cons_append,
                  List.takeWhile_append_dropWhile]
                rw [← hleft, ← hs]
              obtain ⟨hok, hfail⟩ := parseExponent_text start expFrac
                ⟨c, sign, d :: t.takeWhile Char.isDigit, hletter, hsign, by simp, hdigits⟩
                (noDigit_dropWhile t)
              rw [← htext, h] at hok hfail
              by_cases hfits : ExponentFits expFrac (some ⟨c, sign,
                  d :: t.takeWhile Char.isDigit, hletter, hsign, by simp, hdigits⟩)
              · cases hok hfits
                exact ⟨some _, htext, rfl, hfits⟩
              · cases hfail hfits
            · rw [parseExponent, if_pos hletter, ← Prod.eta (expSign s), hleft] at h
              dsimp only at h
              rw [if_pos (by simpa using hd)] at h
              cases h
      · rw [parseExponent, if_neg hletter] at h
        cases h
        exact ⟨none, rfl, rfl, hnone⟩

/-! ## Numerals -/

/-- What the reader makes of a numeral that it does not refuse. -/
def valueOf (n : Numeral) : Value :=
  if n.IsInteger ∧ magnitude n.integer ≤ maxInteger n.minus then .int n.integerValue
  else .real (String.ofList n.text)

/-- The reader takes the numeral: the doubles stay below their limit and the exponent fits. -/
structure Fits (dbl : Doubles) (n : Numeral) : Prop where
  accumulates : Accumulates dbl n.minus 0 n.integer
  exponent : ExponentFits (expFracOf n.minus n.integer n.fraction) n.exponent

def Reads (dbl : Doubles) (n : Numeral) (v : Value) : Prop := Fits dbl n ∧ v = valueOf n

/-- The text goes on as it may behind a value: with a blank, a comma or a closing bracket, or not
at all. -/
def Delimited (s : List Char) : Prop :=
  ∀ c ∈ s.head?, isBlank c = true ∨ c = ',' ∨ c = ']' ∨ c = '}'

theorem Delimited.ne {s : List Char} (hs : Delimited s) {c : Char} (hc : c ∈ s.head?) :
    c.isDigit = false ∧ c ≠ '.' ∧ c ≠ 'e' ∧ c ≠ 'E' := by
  rcases hs c hc with hblank | rfl | rfl | rfl
  · simp only [isBlank, Bool.or_eq_true, decide_eq_true_eq] at hblank
    rcases hblank with ((rfl | rfl) | rfl) | rfl <;> decide
  · decide
  · decide
  · decide

theorem signOf_append (minus : Bool) {s : List Char} (hs : s.head? ≠ some '-') :
    signOf (signText minus ++ s) = (minus, s) := by
  cases minus with
  | true => rfl
  | false =>
      cases s with
      | nil => rfl
      | cons c s =>
          have hc : c ≠ '-' := by simpa using hs
          change signOf (c :: s) = _
          rw [signOf]
          rintro t ⟨⟩
          exact hc rfl

theorem signText_of_signOf (s : List Char) : s = signText (signOf s).1 ++ (signOf s).2 := by
  unfold signOf
  split <;> rfl

/-- The text that `parseNumber` has taken. -/
theorem take_of_append (t s : List Char) : (t ++ s).take ((t ++ s).length - s.length) = t := by
  rw [List.length_append, Nat.add_sub_cancel, List.take_left]

theorem parseNumber_of_stages {dbl : Doubles} {n : Numeral} {s u v : List Char} {i : Integer}
    (hsign : signOf (n.text ++ s) = (n.minus, u))
    (hinteger : parseInteger dbl n.minus (n.text ++ s) u = .ok i)
    (hreads : ReadsInteger n.minus n.integer i)
    (hfraction : parseFraction i i.left =
      .ok (decide (n.fraction ≠ []), expFracOf n.minus n.integer n.fraction, v))
    (hexponent : parseExponent (n.text ++ s) (expFracOf n.minus n.integer n.fraction) v =
      .ok (n.exponent.isSome, s)) :
    parseNumber dbl (n.text ++ s) = .ok (valueOf n, s) := by
  rw [parseNumber, hsign]
  dsimp only
  rw [hinteger]
  change (parseFraction i i.left >>= _) = _
  rw [hfraction]
  change (parseExponent (n.text ++ s) (expFracOf n.minus n.integer n.fraction) v >>= _) = _
  rw [hexponent]
  change (if i.useDouble || decide (n.fraction ≠ []) || n.exponent.isSome then _ else _) = _
  rw [take_of_append, hreads.useDouble_eq, hreads.value_eq, valueOf]
  have hiff : (decide (maxInteger n.minus < magnitude n.integer) || decide (n.fraction ≠ []) ||
      n.exponent.isSome) = true ↔
        ¬(n.IsInteger ∧ magnitude n.integer ≤ maxInteger n.minus) := by
    rw [Bool.or_eq_true, Bool.or_eq_true, decide_eq_true_eq, decide_eq_true_eq, ← Nat.not_le,
      Option.isSome_iff_ne_none, Numeral.IsInteger]
    tauto
  by_cases hplain : n.IsInteger ∧ magnitude n.integer ≤ maxInteger n.minus
  · rw [if_pos hplain, if_neg (mt hiff.mp (not_not_intro hplain))]
    rfl
  · rw [if_neg hplain, if_pos (hiff.mpr hplain)]
    rfl

theorem noDigit_of_delimited {s : List Char} (hs : Delimited s) : NoDigit s :=
  fun _ hc ↦ (hs.ne hc).1

theorem head_exponentText {e : Option Exponent} {s : List Char} (hs : Delimited s) :
    ∀ c ∈ (exponentText e ++ s).head?, c.isDigit = false ∧ c ≠ '.' := by
  intro c hc
  cases e with
  | none => exact ⟨(hs.ne hc).1, (hs.ne hc).2.1⟩
  | some e =>
      obtain rfl : e.letter = c := by simpa [exponentText, Exponent.text] using hc
      rcases e.letter_e with h | h <;> rw [h] <;> decide

theorem head_fractionText {digits : List Char} {e : Option Exponent} {s : List Char}
    (hs : Delimited s) : NoDigit (fractionText digits ++ (exponentText e ++ s)) := by
  intro c hc
  unfold fractionText at hc
  split at hc
  · exact (head_exponentText hs c hc).1
  · obtain rfl : '.' = c := by simpa using hc
    rfl

/-- A numeral that fits is read, whatever may stand behind a value. -/
theorem parseNumber_text {dbl : Doubles} {n : Numeral} {s : List Char} (hfits : Fits dbl n)
    (hs : Delimited s) : parseNumber dbl (n.text ++ s) = .ok (valueOf n, s) := by
  have htext : n.text ++ s = signText n.minus ++
      (n.integer ++ (fractionText n.fraction ++ (exponentText n.exponent ++ s))) := by
    simp [Numeral.text]
  have hhead : (n.integer ++ (fractionText n.fraction ++
      (exponentText n.exponent ++ s))).head? ≠ some '-' := by
    obtain ⟨hne, hdigit, -⟩ := n.integer_text
    cases hinteger : n.integer with
    | nil => exact absurd hinteger hne
    | cons c digits =>
        have hc := hdigit c (by simp [hinteger])
        rintro hminus
        obtain rfl : c = '-' := by simpa using hminus
        cases hc
  obtain ⟨i, hreads, hleft, hinteger⟩ := parseInteger_append (n.text ++ s) n.integer_text
    (head_fractionText hs) hfits.accumulates
  refine parseNumber_of_stages (htext ▸ signOf_append n.minus hhead) hinteger hreads ?_
    (parseExponent_append hfits.exponent (noDigit_of_delimited hs) fun c hc ↦ (hs.ne hc).2.2)
  rw [hleft]
  refine parseFraction_append hreads n.fraction_isDigit
    (fun c hc ↦ (head_exponentText hs c hc).1) ?_
  exact fun hpoint ↦ (head_exponentText hs '.' hpoint).2 rfl

/-- Whatever is read as a number is a numeral that fits. -/
theorem numeral_of_parseNumber {dbl : Doubles} {start s : List Char} {v : Value}
    (h : parseNumber dbl start = .ok (v, s)) : ∃ n : Numeral, start = n.text ++ s ∧
      Reads dbl n v := by
  have hsign := signText_of_signOf start
  have hparse := h
  rcases hpair : signOf start with ⟨minus, t⟩
  rw [hpair] at hsign
  rw [parseNumber, hpair] at hparse
  obtain ⟨i, hinteger, hparse⟩ := exists_ok_of_bind hparse
  obtain ⟨⟨isFraction, expFrac, u⟩, hfraction, hparse⟩ := exists_ok_of_bind hparse
  obtain ⟨⟨isExponent, w⟩, hexponent, -⟩ := exists_ok_of_bind hparse
  obtain ⟨integer, htext, hleft, hreads, hacc⟩ := integer_of_parseInteger hinteger
  obtain ⟨digits, hdigits, hleft', rfl, rfl⟩ := fraction_of_parseFraction hreads hfraction
  obtain ⟨e, hleft'', rfl, hfits⟩ := exponent_of_parseExponent hexponent
  let n : Numeral := ⟨minus, integer, digits, e, htext, hdigits⟩
  have hstart : start = n.text ++ w := by
    calc start = signText minus ++ t := hsign
      _ = signText minus ++ (integer ++ (fractionText digits ++ (exponentText e ++ w))) := by
        rw [hleft, hleft', hleft'']
      _ = n.text ++ w := by simp [n, Numeral.text]
  rw [hstart] at h hpair hinteger hexponent
  rw [parseNumber_of_stages (n := n) hpair hinteger hreads hfraction hexponent] at h
  cases h
  exact ⟨n, hstart, ⟨hacc, hfits⟩, rfl⟩

end IqrfDaemon.Rapidjson
