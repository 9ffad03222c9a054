import Mathlib.Tactic.Linarith
import IqrfDaemon.Text.Fields
import IqrfDaemon.Scheduler.Record

/-!
# What the tokens of a pattern mean

The grammar of a time pattern, stated apart from `parseItem`: a token is a star,
a step, or a list of numerals, and it contains some of the values of its field.
The vector `parseItem` builds admits exactly the contained values, shifted by
the offset of the field.
-/

namespace IqrfDaemon.Scheduler

open Json Json.Jutils Text

/-! ## The grammar -/

structure Numeral where
  digits : List Char
  ne_nil : digits ≠ []
  isDigit : ∀ c ∈ digits, c.isDigit = true

namespace Numeral

def value (n : Numeral) : ℤ := n.digits.foldl (fun n c ↦ 10 * n + digitValue c) 0

theorem isSpace_eq_false {c : Char} (hc : c.isDigit = true) : isSpace c = false := by
  simp only [Char.isDigit, Bool.and_eq_true, decide_eq_true_eq] at hc
  simp only [isSpace, Bool.or_eq_false_iff, decide_eq_false_iff_not, Bool.and_eq_false_imp,
    decide_eq_true_eq]
  refine ⟨?_, ?_⟩
  · rintro rfl
    exact absurd hc (by decide)
  · intro _ hle
    have hlt : (48 : UInt32) ≤ 13 := UInt32.le_trans hc.1 hle
    exact absurd hlt (by decide)

end Numeral

/-- A token: `*`, `*/n` or a list of numerals. -/
inductive Token
  | star
  | every (n : Numeral)
  | list (first : Numeral) (more : List Numeral)

namespace Token

def listText (first : Numeral) : List Numeral → List Char
  | [] => first.digits
  | second :: more => first.digits ++ ',' :: listText second more

def text : Token → List Char
  | star => ['*']
  | every n => '*' :: '/' :: n.digits
  | list first more => listText first more

/-- The values a token stands for in a field with the range from `lo` to `hi`. -/
def Contains (lo hi : ℤ) : Token → ℤ → Prop
  | star, _ => True
  | every n, v => lo ≤ v ∧ v ≤ hi ∧ n.value ∣ v
  | list first more, v => ∃ n ∈ first :: more, n.value = v

def Denotes (lo hi : ℤ) (t : Token) : Prop := ∃ v, lo ≤ v ∧ v ≤ hi ∧ t.Contains lo hi v

end Token

/-! ## Reading a number -/

theorem foldl_digitValue_nonneg {digits : List Char} (hdigits : ∀ c ∈ digits, c.isDigit = true)
    {n : ℤ} (hn : 0 ≤ n) : 0 ≤ digits.foldl (fun n c ↦ 10 * n + digitValue c) n := by
  induction digits generalizing n with
  | nil => exact hn
  | cons c digits ih =>
      have hc := hdigits c (by simp)
      simp only [Char.isDigit, Bool.and_eq_true, decide_eq_true_eq] at hc
      have hle : 48 ≤ c.toNat := UInt32.le_iff_toNat_le.mp hc.1
      have hnext : 0 ≤ 10 * n + digitValue c := by
        unfold digitValue
        omega
      exact ih (fun d hd ↦ hdigits d (by simp [hd])) hnext

theorem Numeral.value_nonneg (n : Numeral) : 0 ≤ n.value :=
  foldl_digitValue_nonneg n.isDigit le_rfl

inductive Sign
  | none
  | plus
  | minus

def Sign.text : Sign → List Char
  | none => []
  | plus => ['+']
  | minus => ['-']

def Sign.apply : Sign → ℤ → ℤ
  | minus, n => -n
  | _, n => n

/-- A numeral behind an optional sign, as `stoi` takes it. -/
structure Number where
  sign : Sign
  numeral : Numeral

namespace Number

def text (x : Number) : List Char := x.sign.text ++ x.numeral.digits

def value (x : Number) : ℤ := x.sign.apply x.numeral.value

end Number

/-- The values of `int`. -/
def Fits (v : ℤ) : Prop := -2147483648 ≤ v ∧ v ≤ 2147483647

instance (v : ℤ) : Decidable (Fits v) := inferInstanceAs (Decidable (_ ∧ _))

/-- What may follow a number in a text: no further digit. -/
def Stops (rest : List Char) : Prop := ∀ c ∈ rest.head?, c.isDigit = false

/-- A number is read up to the first character that is no digit. -/
theorem stoi_number (x : Number) {rest : List Char} (hrest : Stops rest) :
    stoi (x.text ++ rest) =
      if Fits x.value then .ok (x.value, x.text.length) else .error (.logicError "stoi") := by
  obtain ⟨sign, numeral⟩ := x
  obtain ⟨c, digits, hcons⟩ := List.exists_cons_of_ne_nil numeral.ne_nil
  have hc : c.isDigit = true := numeral.isDigit c (by simp [hcons])
  have hspace := Numeral.isSpace_eq_false hc
  have hminus : c ≠ '-' := by
    rintro rfl
    exact absurd hc (by decide)
  have hplus : c ≠ '+' := by
    rintro rfl
    exact absurd hc (by decide)
  have hspaces : isSpace '-' = false ∧ isSpace '+' = false := by decide
  have hdigits : (numeral.digits ++ rest).takeWhile Char.isDigit = numeral.digits := by
    rw [takeWhile_append_of_stop numeral.digits hrest,
      List.takeWhile_eq_self_iff.mpr numeral.isDigit]
  have hblanks : (sign.text ++ numeral.digits ++ rest).takeWhile isSpace = [] := by
    cases sign <;> simp [Sign.text, hcons, hspace, hspaces]
  have htext : (sign.text ++ numeral.digits ++ rest).dropWhile isSpace =
      sign.text ++ (numeral.digits ++ rest) := by
    cases sign <;> simp [Sign.text, hcons, hspace, hspaces]
  have hsigns : ((sign.text ++ (numeral.digits ++ rest)).take 1).filter
      (fun c ↦ c = '-' || c = '+') = sign.text := by
    cases sign <;> simp [Sign.text, hcons, hminus, hplus]
  have hvalue : (if sign.text = ['-'] then
      -numeral.digits.foldl (fun n c ↦ 10 * n + digitValue c) 0
      else numeral.digits.foldl (fun n c ↦ 10 * n + digitValue c) 0) =
      sign.apply numeral.value := by
    cases sign <;> rfl
  simp only [stoi, Number.text, Number.value, hblanks, htext, hsigns, List.drop_left, hdigits,
    hvalue, if_neg numeral.ne_nil, List.length_nil, zero_add, List.length_append]
  by_cases hfits : Fits (sign.apply numeral.value)
  · rw [if_pos hfits, if_neg (by unfold Fits at hfits; omega)]
  · rw [if_neg hfits, if_pos (by unfold Fits at hfits; omega)]

/-- `stoi` reads a numeral up to the first character that is no digit. -/
theorem stoi_numeral (n : Numeral) (rest : List Char)
    (hrest : ∀ c ∈ rest.head?, c.isDigit = false) :
    stoi (n.digits ++ rest) =
      if 2147483647 < n.value then .error (.logicError "stoi")
      else .ok (n.value, n.digits.length) := by
  have hnonneg := n.value_nonneg
  have hread : stoi (n.digits ++ rest) =
      if Fits n.value then .ok (n.value, n.digits.length) else .error (.logicError "stoi") :=
    stoi_number ⟨.none, n⟩ hrest
  rw [hread]
  by_cases hlarge : 2147483647 < n.value
  · rw [if_pos hlarge, if_neg (by unfold Fits; omega)]
  · rw [if_neg hlarge, if_pos (by unfold Fits; omega)]

theorem of_stoi_numeral {n : Numeral} {rest : List Char}
    (hrest : ∀ c ∈ rest.head?, c.isDigit = false) {val : ℤ} {position : ℕ}
    (h : stoi (n.digits ++ rest) = .ok (val, position)) :
    val = n.value ∧ position = n.digits.length := by
  rw [stoi_numeral n rest hrest] at h
  split at h
  · simp at h
  · obtain ⟨rfl, rfl⟩ := Prod.mk.inj (Except.ok.inj h)
    exact ⟨rfl, rfl⟩

/-! ## The vector of a token -/

theorem mem_pushMultiples_iff {divid mxm offset : ℤ} (hdivid : 0 < divid) (fuel : ℕ) {val : ℤ}
    {vec : List ℤ} (hfuel : mxm < val + fuel) {x : ℤ} :
    x ∈ pushMultiples divid mxm offset fuel val vec ↔
      x ∈ vec ∨ ∃ k : ℕ, x = val + k * divid + offset ∧ val + k * divid ≤ mxm := by
  induction fuel generalizing val vec with
  | zero =>
      refine ⟨Or.inl, ?_⟩
      rintro (hx | ⟨k, -, hle⟩)
      · exact hx
      · have hk : 0 ≤ (k : ℤ) * divid := mul_nonneg (by omega) hdivid.le
        simp only [Nat.cast_zero] at hfuel
        omega
  | succ fuel ih =>
      rw [pushMultiples]
      by_cases hle : val ≤ mxm
      · have hfuel' : mxm < val + divid + fuel := by
          push_cast at hfuel
          omega
        rw [if_pos hle, ih hfuel']
        constructor
        · rintro (hx | ⟨k, rfl, hk⟩)
          · rcases List.mem_append.mp hx with hx | hx
            · exact Or.inl hx
            · exact Or.inr ⟨0, by simpa using hx, by simpa using hle⟩
          · refine Or.inr ⟨k + 1, ?_, ?_⟩ <;> push_cast <;> linarith
        · rintro (hx | ⟨k, rfl, hk⟩)
          · exact Or.inl (List.mem_append_left _ hx)
          · cases k with
            | zero => exact Or.inl (by simp)
            | succ k =>
                push_cast at hk ⊢
                exact Or.inr ⟨k, by linarith, by linarith⟩
      · rw [if_neg hle]
        refine ⟨Or.inl, ?_⟩
        rintro (hx | ⟨k, -, hk⟩)
        · exact hx
        · have hpos : 0 ≤ (k : ℤ) * divid := mul_nonneg (by omega) hdivid.le
          omega

theorem dvd_firstMultiple (mnm divid : ℤ) : divid ∣ firstMultiple mnm divid := by
  unfold firstMultiple
  split
  case isTrue h => exact Int.dvd_of_emod_eq_zero h
  case isFalse =>
    have hdvd : divid ∣ mnm - mnm % divid := Int.dvd_self_sub_emod
    exact Int.dvd_add hdvd (dvd_refl divid)

theorem firstMultiple_lt {mnm divid : ℤ} (h : 0 < divid) :
    firstMultiple mnm divid < mnm + divid := by
  have hnonneg := Int.emod_nonneg mnm h.ne'
  unfold firstMultiple
  split <;> omega

theorem mem_multiples_iff {lo hi divid offset : ℤ} (hlo : 0 ≤ lo) (hdivid : 0 < divid) {x : ℤ} :
    x ∈ pushMultiples divid hi offset (hi + 1).toNat (firstMultiple lo divid) [] ↔
      lo ≤ x - offset ∧ x - offset ≤ hi ∧ divid ∣ x - offset := by
  have hge : lo ≤ firstMultiple lo divid := firstMultiple_ge hdivid
  have hlt : firstMultiple lo divid < lo + divid := firstMultiple_lt hdivid
  have hdvd := dvd_firstMultiple lo divid
  rw [mem_pushMultiples_iff hdivid _ (by omega)]
  constructor
  · rintro (hx | ⟨k, rfl, hk⟩)
    · simp at hx
    · have hpos : 0 ≤ (k : ℤ) * divid := mul_nonneg (by omega) hdivid.le
      refine ⟨by omega, by omega, ?_⟩
      rw [add_sub_cancel_right]
      exact Int.dvd_add hdvd (dvd_mul_left divid _)
  · rintro ⟨hxlo, hxhi, hxdvd⟩
    obtain ⟨k, hk⟩ : divid ∣ x - offset - firstMultiple lo divid := Int.dvd_sub hxdvd hdvd
    have hk0 : 0 ≤ k := by
      by_contra hneg
      have hmul : divid * k ≤ divid * (-1) := mul_le_mul_of_nonneg_left (by omega) hdivid.le
      linarith
    refine Or.inr ⟨k.toNat, ?_, ?_⟩
    · rw [Int.toNat_of_nonneg hk0]
      linarith
    · rw [Int.toNat_of_nonneg hk0]
      linarith

/-- What one round of the list loop leaves to do after a numeral. -/
theorem of_pushListed_numeral {mnm mxm offset : ℤ} {fuel : ℕ} {n : Numeral} {rest : List Char}
    {vec pushed : List ℤ} (hrest : ∀ c ∈ rest.head?, c.isDigit = false)
    (h : pushListed mnm mxm offset (fuel + 1) (n.digits ++ rest) vec = .ok pushed) :
    rest.tail = [] ∧ pushed = vec ++ [n.value + offset] ∨
      pushListed mnm mxm offset fuel rest.tail (vec ++ [n.value + offset]) = .ok pushed := by
  rw [pushListed] at h
  cases hstoi : stoi (n.digits ++ rest) with
  | error e => simp [hstoi] at h
  | ok parsed =>
      obtain ⟨val, position⟩ := parsed
      obtain ⟨rfl, rfl⟩ := of_stoi_numeral hrest hstoi
      simp only [hstoi] at h
      split at h
      · simp at h
      rw [List.length_append] at h
      split at h
      case isTrue hend =>
        left
        refine ⟨?_, (Except.ok.inj h).symm⟩
        apply List.eq_nil_of_length_eq_zero
        rw [List.length_tail]
        omega
      case isFalse hmore =>
        right
        rwa [List.drop_append, List.drop_eq_nil_of_le (by omega), List.nil_append,
          Nat.add_sub_cancel_left, List.drop_one] at h

theorem Token.listText_ne_nil (first : Numeral) (more : List Numeral) :
    Token.listText first more ≠ [] := by
  cases more with
  | nil => exact first.ne_nil
  | cons second more => simp [Token.listText]

theorem pushListed_listText {mnm mxm offset : ℤ} (fuel : ℕ) {first : Numeral}
    {more : List Numeral} {vec pushed : List ℤ}
    (h : pushListed mnm mxm offset fuel (Token.listText first more) vec = .ok pushed) :
    pushed = vec ++ (first :: more).map fun n ↦ n.value + offset := by
  induction more generalizing fuel first vec with
  | nil =>
      cases fuel with
      | zero => simp [pushListed] at h
      | succ fuel =>
          rw [Token.listText, ← List.append_nil first.digits] at h
          rcases of_pushListed_numeral (by simp) h with ⟨-, rfl⟩ | hnext
          · rfl
          · cases fuel <;> simp [pushListed, stoi] at hnext
  | cons second more ih =>
      cases fuel with
      | zero => simp [pushListed] at h
      | succ fuel =>
          rw [Token.listText] at h
          rcases of_pushListed_numeral (by simp) h with ⟨hnil, -⟩ | hnext
          · exact absurd hnil (Token.listText_ne_nil second more)
          · rw [ih fuel hnext]
            simp

theorem Token.of_mem_listText {first : Numeral} {more : List Numeral} {c : Char}
    (hc : c ∈ Token.listText first more) : c.isDigit = true ∨ c = ',' := by
  induction more generalizing first with
  | nil => exact Or.inl (first.isDigit c hc)
  | cons second more ih =>
      rw [Token.listText] at hc
      rcases List.mem_append.mp hc with hc | hc
      · exact Or.inl (first.isDigit c hc)
      · rcases List.mem_cons.mp hc with rfl | hc
        · exact Or.inr rfl
        · exact ih hc

theorem Token.slash_notMem_listText (first : Numeral) (more : List Numeral) :
    '/' ∉ Token.listText first more := by
  intro hmem
  rcases Token.of_mem_listText hmem with h | h <;> exact absurd h (by decide)

theorem Token.listText_ne_star (first : Numeral) (more : List Numeral) :
    Token.listText first more ≠ ['*'] := by
  intro heq
  have hmem : '*' ∈ Token.listText first more := by simp [heq]
  rcases Token.of_mem_listText hmem with h | h <;> exact absurd h (by decide)

theorem mem_of_pushItem_every {n : Numeral} {lo hi offset val : ℤ} {vec : List ℤ} (hlo : 0 ≤ lo)
    (h : pushItem (Token.every n).text lo hi [] offset = .ok (val, vec)) (x : ℤ) :
    x ∈ vec ↔ lo ≤ x - offset ∧ x - offset ≤ hi ∧ n.value ∣ x - offset := by
  have hstar : '*' :: '/' :: n.digits ≠ ['*'] := by simp
  have hslash : '/' ∈ '*' :: '/' :: n.digits := by simp
  have hafter : afterSlash ('*' :: '/' :: n.digits) = n.digits := rfl
  rw [Token.text, pushItem, if_neg hstar, if_pos hslash, hafter, if_neg n.ne_nil] at h
  cases hstoi : stoi n.digits with
  | error e => simp [hstoi] at h
  | ok parsed =>
      obtain ⟨divid, position⟩ := parsed
      rw [← List.append_nil n.digits] at hstoi
      obtain ⟨rfl, -⟩ := of_stoi_numeral (by simp) hstoi
      rw [List.append_nil] at hstoi
      simp only [hstoi] at h
      split at h
      · simp at h
      obtain ⟨-, rfl⟩ := Prod.mk.inj (Except.ok.inj h)
      exact mem_multiples_iff hlo (by omega)

theorem of_pushItem_list {first : Numeral} {more : List Numeral} {lo hi offset val : ℤ}
    {vec : List ℤ}
    (h : pushItem (Token.list first more).text lo hi [] offset = .ok (val, vec)) :
    vec = ((first :: more).map fun n ↦ n.value + offset) ∧ ∀ v ∈ vec, lo + offset ≤ v := by
  rw [Token.text, pushItem, if_neg (Token.listText_ne_star first more),
    if_neg (Token.slash_notMem_listText first more)] at h
  cases more with
  | nil =>
      have hcomma : ',' ∉ first.digits := by
        intro hmem
        exact absurd (first.isDigit _ hmem) (by decide)
      rw [Token.listText, if_neg hcomma] at h
      cases hstoi : stoi first.digits with
      | error e => simp [hstoi] at h
      | ok parsed =>
          obtain ⟨v, position⟩ := parsed
          simp only [hstoi] at h
          rw [← List.append_nil first.digits] at hstoi
          obtain ⟨rfl, -⟩ := of_stoi_numeral (by simp) hstoi
          split at h
          · simp at h
          obtain ⟨-, rfl⟩ := Prod.mk.inj (Except.ok.inj h)
          refine ⟨rfl, fun v hv ↦ ?_⟩
          obtain rfl := List.mem_singleton.mp hv
          omega
  | cons second more =>
      have hcomma : ',' ∈ Token.listText first (second :: more) := by simp [Token.listText]
      rw [if_pos hcomma] at h
      cases hlist : pushListed lo hi offset (Token.listText first (second :: more)).length
          (Token.listText first (second :: more)) [] with
      | error e => simp [hlist] at h
      | ok pushed =>
          simp only [hlist] at h
          obtain ⟨-, rfl⟩ := Prod.mk.inj (Except.ok.inj h)
          have hbounds := (pushListed_ok _ (by simp) hlist).2
          refine ⟨?_, fun v hv ↦ (hbounds v hv).1⟩
          rw [pushListed_listText _ hlist, List.nil_append]

/-- A well-formed token gives the star vector, or a vector of exactly the values it
contains. -/
theorem parseItem_text {t : Token} {lo hi offset val : ℤ} {vec : List ℤ} (hlo : 0 ≤ lo)
    (h : parseItem t.text lo hi [] offset = .ok (val, vec)) :
    t = .star ∧ vec = [-1] ∨
      (∀ x, x ∈ vec ↔ t.Contains lo hi (x - offset)) ∧ ∀ x ∈ vec, lo + offset ≤ x := by
  rw [parseItem] at h
  cases hpush : pushItem t.text lo hi [] offset with
  | error e => simp [hpush] at h
  | ok result =>
      obtain ⟨v, pushed⟩ := result
      simp only [hpush] at h
      obtain ⟨-, rfl⟩ := Prod.mk.inj (Except.ok.inj h)
      cases t with
      | star =>
          left
          rw [Token.text, pushItem, if_pos rfl] at hpush
          obtain ⟨-, rfl⟩ := Prod.mk.inj (Except.ok.inj hpush)
          exact ⟨rfl, rfl⟩
      | every n =>
          right
          have hmem := mem_of_pushItem_every hlo hpush
          refine ⟨fun x ↦ ?_, fun x hx ↦ ?_⟩
          · rw [List.mem_insertionSort]
            exact hmem x
          · have hlow := ((hmem x).mp ((List.mem_insertionSort _).mp hx)).1
            omega
      | list first more =>
          right
          obtain ⟨rfl, hlow⟩ := of_pushItem_list hpush
          refine ⟨fun x ↦ ?_, fun x hx ↦ hlow x ((List.mem_insertionSort _).mp hx)⟩
          rw [List.mem_insertionSort, List.mem_map]
          constructor
          · rintro ⟨n, hn, rfl⟩
            exact ⟨n, hn, by omega⟩
          · rintro ⟨n, hn, heq⟩
            exact ⟨n, hn, by omega⟩

namespace ScheduleRecord

theorem verifyItem_iff_mem {cval : ℤ} {tvalV : List ℤ} (hne : tvalV ≠ [])
    (hnonneg : ∀ v ∈ tvalV, 0 ≤ v) : verifyItem cval tvalV = true ↔ cval ∈ tvalV := by
  obtain ⟨v, more, rfl⟩ := List.exists_cons_of_ne_nil hne
  have hv : 0 ≤ v := hnonneg v (by simp)
  rw [verifyItem, if_pos ⟨by simp, hv⟩, List.any_eq_true]
  constructor
  · rintro ⟨w, hw, heq⟩
    obtain rfl : w = cval := by simpa using heq
    exact hw
  · intro hmem
    exact ⟨cval, hmem, by simp⟩

/-- The check of one field against a well-formed token that denotes some value: the
token contains the value, taken back by the offset of the field. -/
theorem verifyItem_text {t : Token} {lo hi offset val : ℤ} {vec : List ℤ} (hlo : 0 ≤ lo)
    (hoffset : 0 ≤ lo + offset) (hdenotes : t.Denotes lo hi)
    (h : parseItem t.text lo hi [] offset = .ok (val, vec)) (cval : ℤ) :
    verifyItem cval vec = true ↔ t.Contains lo hi (cval - offset) := by
  rcases parseItem_text hlo h with ⟨rfl, rfl⟩ | ⟨hmem, hlow⟩
  · simp [verifyItem, Token.Contains]
  · obtain ⟨v, hvlo, hvhi, hv⟩ := hdenotes
    have hshift : v + offset ∈ vec := by
      rw [hmem, add_sub_cancel_right]
      exact hv
    have hnonneg : ∀ w ∈ vec, 0 ≤ w := fun w hw ↦ le_trans hoffset (hlow w hw)
    rw [verifyItem_iff_mem (List.ne_nil_of_mem hshift) hnonneg, hmem]

end ScheduleRecord

end IqrfDaemon.Scheduler
