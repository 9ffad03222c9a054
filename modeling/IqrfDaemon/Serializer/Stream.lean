import Mathlib.Tactic.Linarith
import IqrfDaemon.Text.Fields
import IqrfDaemon.Scheduler.CronItem

/-!
# Hexadecimal numbers in a stream

`operator>>(int&)` in base sixteen, and the texts it reads a number from, stated
by a grammar.  The reader finds a number exactly where the grammar has one.
-/

namespace IqrfDaemon.Serializer

open Json Text Scheduler

/-! ## Digits -/

def isHexDigit (c : Char) : Bool :=
  c.isDigit || ('a' ≤ c && c ≤ 'f') || ('A' ≤ c && c ≤ 'F')

def hexDigit (c : Char) : ℤ :=
  if c.isDigit then digitValue c
  else if 'a' ≤ c && c ≤ 'f' then (c.toNat : ℤ) - 87
  else (c.toNat : ℤ) - 55

def hexMagnitude (digits : List Char) : ℤ := digits.foldl (fun n c ↦ 16 * n + hexDigit c) 0

/-! ## The stream -/

/-- The sign in front of a number. -/
def signOf (s : List Char) : List Char := (s.take 1).filter fun c ↦ c = '-' || c = '+'

/-- What follows a prefix `0x`, or the text itself. -/
def afterPrefix : List Char → List Char
  | '0' :: 'x' :: rest => rest
  | '0' :: 'X' :: rest => rest
  | s => s

/-- `istr >> std::hex >> val` for an `int`: the value, or nothing for a failed stream,
and what remains unread.  The failed stream is at its end if nothing remains. -/
def readInt (input : List Char) : Option ℤ × List Char :=
  let s := input.dropWhile isSpace
  let unsigned := afterPrefix (s.drop (signOf s).length)
  let digits := unsigned.takeWhile isHexDigit
  let rest := unsigned.dropWhile isHexDigit
  let magnitude := hexMagnitude digits
  let value := if signOf s = ['-'] then -magnitude else magnitude
  if digits = [] ∨ value < -2147483648 ∨ 2147483647 < value then (none, rest)
  else (some value, rest)

/-! ## The grammar -/

inductive IsSign : List Char → Prop
  | none : IsSign []
  | plus : IsSign ['+']
  | minus : IsSign ['-']

inductive IsPrefix : List Char → Prop
  | none : IsPrefix []
  | lower : IsPrefix ['0', 'x']
  | upper : IsPrefix ['0', 'X']

/-- Blanks, a sign, a prefix and digits, each possibly missing, before the rest of a text. -/
inductive Lead : (text sign pre digits rest : List Char) → Prop
  | intro {blanks sign pre digits : List Char} (hblanks : ∀ c ∈ blanks, isSpace c = true)
      (hsign : IsSign sign) (hpre : IsPrefix pre) (hdigits : ∀ c ∈ digits, isHexDigit c = true)
      (rest : List Char) : Lead (blanks ++ (sign ++ (pre ++ (digits ++ rest)))) sign pre digits rest

/-- The rest neither goes on with the digits nor makes a prefix of a zero. -/
def Ends (pre digits rest : List Char) : Prop :=
  ∀ c ∈ rest.head?, isHexDigit c = false ∧ (pre ++ digits = ['0'] → c ≠ 'x' ∧ c ≠ 'X')

def signed (sign digits : List Char) : ℤ :=
  if sign = ['-'] then -hexMagnitude digits else hexMagnitude digits

/-- The text starts with a number that an `int` holds. -/
def Reads (text : List Char) (v : ℤ) (rest : List Char) : Prop :=
  ∃ sign pre digits, Lead text sign pre digits rest ∧ digits ≠ [] ∧ Ends pre digits rest ∧
    v = signed sign digits ∧ -2147483648 ≤ v ∧ v ≤ 2147483647

/-- The text is a number, or what may come before one. -/
def Exhausted (text : List Char) : Prop := ∃ sign pre digits, Lead text sign pre digits []

/-! ## Characters -/

theorem isHexDigit_iff {c : Char} : isHexDigit c = true ↔
    (48 ≤ c.toNat ∧ c.toNat ≤ 57) ∨ (97 ≤ c.toNat ∧ c.toNat ≤ 102) ∨
      (65 ≤ c.toNat ∧ c.toNat ≤ 70) := by
  simp only [isHexDigit, Char.isDigit, Bool.or_eq_true, Bool.and_eq_true, decide_eq_true_eq,
    Char.le_def, ge_iff_le, UInt32.le_iff_toNat_le, or_assoc]
  rfl

theorem isSpace_iff {c : Char} :
    isSpace c = true ↔ c.toNat = 32 ∨ (9 ≤ c.toNat ∧ c.toNat ≤ 13) := by
  simp only [isSpace, Bool.or_eq_true, Bool.and_eq_true, decide_eq_true_eq, Char.le_def,
    UInt32.le_iff_toNat_le, Char.ext_iff, ← UInt32.toNat_inj]
  rfl

theorem isHexDigit_eq_false_of_isSpace {c : Char} (hc : isSpace c = true) :
    isHexDigit c = false := by
  rw [Bool.eq_false_iff, Ne, isHexDigit_iff]
  have hspace := isSpace_iff.mp hc
  omega

theorem isSpace_eq_false_of_isHexDigit {c : Char} (hc : isHexDigit c = true) :
    isSpace c = false := by
  rw [Bool.eq_false_iff, Ne, isSpace_iff]
  have hdigit := isHexDigit_iff.mp hc
  omega

theorem hexDigit_bounds {c : Char} (hc : isHexDigit c = true) :
    0 ≤ hexDigit c ∧ hexDigit c < 16 := by
  have hdigit := isHexDigit_iff.mp hc
  have hdecimal : c.isDigit = true ↔ 48 ≤ c.toNat ∧ c.toNat ≤ 57 := by
    simp only [Char.isDigit, Bool.and_eq_true, decide_eq_true_eq, ge_iff_le,
      UInt32.le_iff_toNat_le]
    rfl
  have hlower : ('a' ≤ c && c ≤ 'f') = true ↔ 97 ≤ c.toNat ∧ c.toNat ≤ 102 := by
    simp only [Bool.and_eq_true, decide_eq_true_eq, Char.le_def, UInt32.le_iff_toNat_le]
    rfl
  simp only [hexDigit, hdecimal, hlower, digitValue]
  split_ifs <;> omega

/-- A digit is written by a code above its value. -/
theorem hexDigit_lt_toNat {c : Char} (hc : isHexDigit c = true) : hexDigit c < c.toNat := by
  have hvalue := (hexDigit_bounds hc).2
  have hcode := isHexDigit_iff.mp hc
  omega

theorem hexMagnitude_nonneg {digits : List Char} (h : ∀ c ∈ digits, isHexDigit c = true) :
    0 ≤ hexMagnitude digits := by
  have hfold : ∀ n : ℤ, 0 ≤ n → 0 ≤ digits.foldl (fun n c ↦ 16 * n + hexDigit c) n := by
    induction digits with
    | nil => exact fun n hn ↦ hn
    | cons c digits ih =>
        intro n hn
        have hc := (hexDigit_bounds (h c (by simp))).1
        have hnext : 0 ≤ 16 * n + hexDigit c := by omega
        exact ih (fun d hd ↦ h d (by simp [hd])) _ hnext
  exact hfold 0 le_rfl

/-! ## The parts of a text -/

theorem isSign_signOf (s : List Char) : IsSign (signOf s) := by
  cases s with
  | nil => exact .none
  | cons c s =>
      by_cases hplus : c = '+'
      · subst hplus
        exact .plus
      · by_cases hminus : c = '-'
        · subst hminus
          exact .minus
        · have hnone : signOf (c :: s) = [] := by simp [signOf, hplus, hminus]
          rw [hnone]
          exact .none

theorem signOf_append_drop (s : List Char) : signOf s ++ s.drop (signOf s).length = s := by
  cases s with
  | nil => rfl
  | cons c s =>
      by_cases hsign : (c = '-' || c = '+') = true
      · simp [signOf, hsign]
      · simp [signOf, hsign]

theorem signOf_append {sign s : List Char} (hsign : IsSign sign)
    (hs : ∀ c ∈ s.head?, c ≠ '-' ∧ c ≠ '+') : signOf (sign ++ s) = sign := by
  cases hsign with
  | none =>
      cases s with
      | nil => rfl
      | cons c s =>
          have hc := hs c (by simp)
          simp [signOf, hc.1, hc.2]
  | plus => rfl
  | minus => rfl

theorem exists_prefix (s : List Char) : ∃ pre, IsPrefix pre ∧ s = pre ++ afterPrefix s ∧
    (pre = [] → ∀ c ∈ s.tail.head?, s.head? = some '0' → c ≠ 'x' ∧ c ≠ 'X') := by
  unfold afterPrefix
  split
  case h_1 rest => exact ⟨_, .lower, rfl, fun h ↦ by cases h⟩
  case h_2 rest => exact ⟨_, .upper, rfl, fun h ↦ by cases h⟩
  case h_3 hlower hupper =>
    refine ⟨[], .none, rfl, fun _ c hc hzero ↦ ?_⟩
    obtain ⟨t, rfl⟩ := List.head?_eq_some_iff.mp hzero
    obtain ⟨u, rfl⟩ := List.head?_eq_some_iff.mp hc
    constructor
    · rintro rfl
      exact hlower u rfl
    · rintro rfl
      exact hupper u rfl

theorem afterPrefix_append {pre s : List Char} (hpre : IsPrefix pre)
    (hs : pre = [] → ∀ c ∈ s.tail.head?, s.head? = some '0' → c ≠ 'x' ∧ c ≠ 'X') :
    afterPrefix (pre ++ s) = s := by
  cases hpre with
  | none =>
      rw [List.nil_append]
      unfold afterPrefix
      split
      case h_1 rest => exact absurd rfl (hs rfl 'x' rfl rfl).1
      case h_2 rest => exact absurd rfl (hs rfl 'X' rfl rfl).2
      case h_3 => rfl
  | lower => rfl
  | upper => rfl

/-! ## The reader and the grammar -/

/-- What the reader makes of the parts of a text. -/
def readParts (sign digits rest : List Char) : Option ℤ × List Char :=
  if digits = [] ∨ signed sign digits < -2147483648 ∨ 2147483647 < signed sign digits then
    (none, rest)
  else (some (signed sign digits), rest)

@[simp] theorem readParts_snd (sign digits rest : List Char) :
    (readParts sign digits rest).2 = rest := by
  unfold readParts
  split <;> rfl

/-- Behind the sign of a number stands a digit, the zero of a prefix included. -/
theorem isHexDigit_head {pre digits rest : List Char} (hpre : IsPrefix pre)
    (hdigits : ∀ c ∈ digits, isHexDigit c = true) (hover : digits = [] → rest = []) :
    ∀ c ∈ (pre ++ (digits ++ rest)).head?, isHexDigit c = true := by
  intro c hc
  cases hpre with
  | none =>
      cases digits with
      | nil => simp [hover rfl] at hc
      | cons d digits =>
          obtain rfl : d = c := by simpa using hc
          exact hdigits d (by simp)
  | lower =>
      obtain rfl : '0' = c := by simpa using hc
      decide
  | upper =>
      obtain rfl : '0' = c := by simpa using hc
      decide

/-- The readers take a text apart as the grammar does. -/
theorem parts_of_lead {text sign pre digits rest : List Char}
    (h : Lead text sign pre digits rest) (hover : digits = [] → rest = [])
    (hends : Ends pre digits rest) :
    signOf (text.dropWhile isSpace) = sign ∧
      (afterPrefix ((text.dropWhile isSpace).drop sign.length)).takeWhile isHexDigit = digits ∧
      (afterPrefix ((text.dropWhile isSpace).drop sign.length)).dropWhile isHexDigit = rest := by
  obtain @⟨blanks, _, _, _, hblanks, hsign, hpre, hdigits, _⟩ := h
  have hhead := isHexDigit_head hpre hdigits hover
  have hunsigned : signOf (sign ++ (pre ++ (digits ++ rest))) = sign := by
    refine signOf_append hsign fun c hc ↦ ?_
    constructor <;> rintro rfl <;> exact absurd (hhead _ hc) (by decide)
  have hstart : ∀ c ∈ (sign ++ (pre ++ (digits ++ rest))).head?, isSpace c = false := by
    intro c hc
    cases hsign with
    | none => exact isSpace_eq_false_of_isHexDigit (hhead c hc)
    | plus =>
        obtain rfl : '+' = c := by simpa using hc
        decide
    | minus =>
        obtain rfl : '-' = c := by simpa using hc
        decide
  have hskip : (blanks ++ (sign ++ (pre ++ (digits ++ rest)))).dropWhile isSpace =
      sign ++ (pre ++ (digits ++ rest)) := by
    rw [dropWhile_append_of_stop blanks hstart, List.dropWhile_eq_nil_iff.mpr hblanks,
      List.nil_append]
  have hafter : afterPrefix (pre ++ (digits ++ rest)) = digits ++ rest := by
    refine afterPrefix_append hpre ?_
    rintro rfl c hc hzero
    cases digits with
    | nil => simp [hover rfl] at hc
    | cons d digits =>
        obtain rfl : d = '0' := by simpa using hzero
        cases digits with
        | nil => exact (hends c hc).2 rfl
        | cons e digits =>
            obtain rfl : e = c := by simpa using hc
            have hhex := hdigits e (by simp)
            constructor <;> rintro rfl <;> exact absurd hhex (by decide)
  have hstop : ∀ c ∈ rest.head?, isHexDigit c = false := fun c hc ↦ (hends c hc).1
  rw [hskip, List.drop_left, hafter]
  refine ⟨hunsigned, ?_, ?_⟩
  · rw [takeWhile_append_of_stop digits hstop, List.takeWhile_eq_self_iff.mpr hdigits]
  · rw [dropWhile_append_of_stop digits hstop, List.dropWhile_eq_nil_iff.mpr hdigits,
      List.nil_append]

theorem readInt_of_lead {text sign pre digits rest : List Char}
    (h : Lead text sign pre digits rest) (hover : digits = [] → rest = [])
    (hends : Ends pre digits rest) : readInt text = readParts sign digits rest := by
  obtain ⟨hsign, htake, hdrop⟩ := parts_of_lead h hover hends
  simp only [readInt, hsign, htake, hdrop]
  rfl

/-- Every text has its parts. -/
theorem exists_lead (text : List Char) : ∃ sign pre digits rest,
    Lead text sign pre digits rest ∧ Ends pre digits rest ∧
      readInt text = readParts sign digits rest := by
  have hblanks : ∀ c ∈ text.takeWhile isSpace, isSpace c = true := fun c hc ↦
    List.mem_takeWhile_imp hc
  have hsplit := List.takeWhile_append_dropWhile (p := isSpace) (l := text)
  have hread : readInt text = readParts (signOf (text.dropWhile isSpace))
      ((afterPrefix ((text.dropWhile isSpace).drop
        (signOf (text.dropWhile isSpace)).length)).takeWhile isHexDigit)
      ((afterPrefix ((text.dropWhile isSpace).drop
        (signOf (text.dropWhile isSpace)).length)).dropWhile isHexDigit) := rfl
  have hsigned := signOf_append_drop (text.dropWhile isSpace)
  generalize (text.dropWhile isSpace).drop (signOf (text.dropWhile isSpace)).length = u
    at hread hsigned
  obtain ⟨pre, hpre, hu, hzero⟩ := exists_prefix u
  have hdigits : ∀ c ∈ (afterPrefix u).takeWhile isHexDigit, isHexDigit c = true := fun c hc ↦
    List.mem_takeWhile_imp hc
  have hword := List.takeWhile_append_dropWhile (p := isHexDigit) (l := afterPrefix u)
  refine ⟨_, pre, _, _, ?_, ?_, hread⟩
  · have hlead := Lead.intro hblanks (isSign_signOf (text.dropWhile isSpace)) hpre hdigits
      ((afterPrefix u).dropWhile isHexDigit)
    rwa [hword, ← hu, hsigned, hsplit] at hlead
  · intro c hc
    constructor
    · have hhead := List.head?_dropWhile_not isHexDigit (afterPrefix u)
      rw [Option.mem_def.mp hc] at hhead
      simpa using hhead
    · intro hone
      have hnone : pre = [] := by
        cases hpre with
        | none => rfl
        | lower => simp at hone
        | upper => simp at hone
      subst hnone
      rw [List.nil_append] at hu hone
      rw [← hu] at hone hword hc
      refine hzero rfl c ?_ ?_
      · rw [← hword, hone]
        exact hc
      · rw [← hword, hone]
        rfl

/-- The reader finds the number that the grammar has. -/
theorem readInt_eq_some_iff {text : List Char} {v : ℤ} {rest : List Char} :
    readInt text = (some v, rest) ↔ Reads text v rest := by
  constructor
  · intro hread
    obtain ⟨sign, pre, digits, rest', hlead, hends, hparts⟩ := exists_lead text
    rw [hparts, readParts] at hread
    split at hread
    case isTrue => cases hread
    case isFalse hrange =>
      cases hread
      simp only [not_or, not_lt] at hrange
      exact ⟨sign, pre, digits, hlead, hrange.1, hends, rfl, hrange.2.1, hrange.2.2⟩
  · rintro ⟨sign, pre, digits, hlead, hne, hends, rfl, hlow, hhigh⟩
    rw [readInt_of_lead hlead (fun h ↦ absurd h hne) hends, readParts, if_neg]
    simp only [not_or, not_lt]
    exact ⟨hne, hlow, hhigh⟩

theorem readInt_fst_eq_none_iff {text : List Char} :
    (readInt text).1 = none ↔ ∀ v rest, ¬Reads text v rest := by
  constructor
  · intro hnone v rest hreads
    rw [readInt_eq_some_iff.mpr hreads] at hnone
    cases hnone
  · intro hnone
    cases hread : (readInt text).1 with
    | none => rfl
    | some v => exact absurd (readInt_eq_some_iff.mp (Prod.ext hread rfl)) (hnone v _)

/-- The stream is at its end exactly behind a text without anything else. -/
theorem readInt_snd_eq_nil_iff {text : List Char} : (readInt text).2 = [] ↔ Exhausted text := by
  constructor
  · intro hnil
    obtain ⟨sign, pre, digits, rest, hlead, -, hparts⟩ := exists_lead text
    rw [hparts, readParts_snd] at hnil
    subst hnil
    exact ⟨sign, pre, digits, hlead⟩
  · rintro ⟨sign, pre, digits, hlead⟩
    have hends : Ends pre digits [] := by simp [Ends]
    rw [readInt_of_lead hlead (fun _ ↦ rfl) hends, readParts_snd]

end IqrfDaemon.Serializer
