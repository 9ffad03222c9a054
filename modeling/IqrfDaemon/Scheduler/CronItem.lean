import Mathlib.Data.List.Sort
import Mathlib.Data.Int.ModEq
import Mathlib.Order.Interval.Set.Defs
import IqrfDaemon.Json.Value

/-!
# Tokens of a time pattern

A pattern has seven blank-separated tokens.  Each is a star, a step `*/n`, a
comma-separated list or one number, and `parseItem` turns it into a sorted
vector of admissible values, where the vector `[-1]` stands for the star.  The
results at the end say what such a vector can be.
-/

namespace IqrfDaemon.Scheduler

open Json

def isSpace (c : Char) : Bool :=
  c = ' ' || ('\t' ≤ c && c ≤ '\r')

def digitValue (c : Char) : ℤ := (c.toNat : ℤ) - 48

/-- `std::stoi`, with the number of characters it consumed.  No digits is
`std::invalid_argument` and a value outside `int` is `std::out_of_range`, both
of them a `std::logic_error`. -/
def stoi (s : List Char) : Except Failure (ℤ × ℕ) :=
  let blanks := s.takeWhile isSpace
  let rest := s.dropWhile isSpace
  let signs := (rest.take 1).filter fun c ↦ c = '-' || c = '+'
  let digits := (rest.drop signs.length).takeWhile Char.isDigit
  let magnitude := digits.foldl (fun n c ↦ 10 * n + digitValue c) 0
  let value := if signs = ['-'] then -magnitude else magnitude
  if digits = [] then .error (.logicError "stoi")
  else if value < -2147483648 ∨ 2147483647 < value then .error (.logicError "stoi")
  else .ok (value, blanks.length + signs.length + digits.length)

def invalidValue (value : ℤ) : Failure :=
  .logicError ("Invalid value: " ++ toString value)

/-- The loop over the multiples `val`, `val + divid`, … up to `mxm`; `fuel` bounds
its rounds, of which there are at most `mxm + 1` for `0 ≤ val` and `0 < divid`. -/
def pushMultiples (divid mxm offset : ℤ) : ℕ → ℤ → List ℤ → List ℤ
  | 0, _, vec => vec
  | fuel + 1, val, vec =>
      if val ≤ mxm then pushMultiples divid mxm offset fuel (val + divid) (vec ++ [val + offset])
      else vec

/-- The loop over the comma-separated list.  Every round shortens the text, so its
length is enough fuel, and the empty text is what `stoi` rejects. -/
def pushListed (mnm mxm offset : ℤ) : ℕ → List Char → List ℤ → Except Failure (List ℤ)
  | 0, _, _ => .error (.logicError "stoi")
  | fuel + 1, substr, vec =>
      match stoi substr with
      | .error e => .error e
      | .ok (val, position) =>
          if val < mnm ∨ mxm < val then .error (invalidValue val)
          else if substr.length - 1 < position + 1 then .ok (vec ++ [val + offset])
          else pushListed mnm mxm offset fuel (substr.drop (position + 1)) (vec ++ [val + offset])

def firstMultiple (mnm divid : ℤ) : ℤ :=
  if mnm % divid = 0 then mnm else mnm - mnm % divid + divid

def afterSlash (item : List Char) : List Char :=
  (item.dropWhile fun c ↦ c ≠ '/').tail

/-- The branches of `parseItem`: the returned value and the vector with the pushed
values. -/
def pushItem (item : List Char) (mnm mxm : ℤ) (vec : List ℤ) (offset : ℤ) :
    Except Failure (ℤ × List ℤ) :=
  if item = ['*'] then .ok (-1, vec ++ [-1])
  else if '/' ∈ item then
    if afterSlash item = [] then .error (.logicError "Unexpected format")
    else
      match stoi (afterSlash item) with
      | .error e => .error e
      | .ok (divid, _) =>
          if divid ≤ 0 then .error (invalidValue divid)
          else
            .ok (mnm, pushMultiples divid mxm offset (mxm + 1).toNat (firstMultiple mnm divid) vec)
  else if ',' ∈ item then
    match pushListed mnm mxm offset item.length item vec with
    | .error e => .error e
    | .ok pushed => .ok (mnm, pushed)
  else
    match stoi item with
    | .error e => .error e
    | .ok (val, _) =>
        if val < mnm ∨ mxm < val then .error (invalidValue val)
        else .ok (val, vec ++ [val + offset])

def parseItem (item : List Char) (mnm mxm : ℤ) (vec : List ℤ) (offset : ℤ) :
    Except Failure (ℤ × List ℤ) :=
  match pushItem item mnm mxm vec offset with
  | .error e => .error e
  | .ok (val, pushed) => .ok (val, pushed.insertionSort (· ≤ ·))

example : parseItem "*/20".toList 0 59 [] 0 = .ok (0, [0, 20, 40]) := by decide

example : parseItem "7,3".toList 1 12 [] (-1) = .ok (1, [2, 6]) := by decide

/-! ## What a parsed vector contains -/

def Listed (lo hi : ℤ) (vec : List ℤ) : Prop :=
  vec.Pairwise (· ≤ ·) ∧ ∀ v ∈ vec, lo ≤ v ∧ v ≤ hi

theorem firstMultiple_ge {mnm divid : ℤ} (h : 0 < divid) : mnm ≤ firstMultiple mnm divid := by
  have hmod := Int.emod_lt_of_pos mnm h
  unfold firstMultiple
  split <;> omega

theorem mem_pushMultiples {divid mxm offset lo : ℤ} (hdivid : 0 < divid) (fuel : ℕ) {val : ℤ}
    {vec : List ℤ} (hval : lo ≤ val) (hvec : ∀ v ∈ vec, lo + offset ≤ v ∧ v ≤ mxm + offset) :
    ∀ v ∈ pushMultiples divid mxm offset fuel val vec, lo + offset ≤ v ∧ v ≤ mxm + offset := by
  induction fuel generalizing val vec with
  | zero => exact hvec
  | succ fuel ih =>
      rw [pushMultiples]
      split
      case isTrue hle =>
        apply ih (by omega)
        intro v hv
        rcases List.mem_append.mp hv with hv | hv
        · exact hvec v hv
        · obtain rfl := List.mem_singleton.mp hv
          omega
      case isFalse => exact hvec

theorem subset_pushMultiples {divid mxm offset : ℤ} (fuel : ℕ) {val : ℤ} {vec : List ℤ} :
    vec ⊆ pushMultiples divid mxm offset fuel val vec := by
  induction fuel generalizing val vec with
  | zero => exact List.Subset.refl vec
  | succ fuel ih =>
      rw [pushMultiples]
      split
      case isTrue =>
        exact List.Subset.trans (List.subset_append_left vec _) ih
      case isFalse => exact List.Subset.refl vec

/-- A step token of a field that starts at zero admits zero. -/
theorem zero_mem_pushMultiples {divid mxm offset : ℤ} (hmxm : 0 ≤ mxm) (vec : List ℤ) :
    0 + offset ∈ pushMultiples divid mxm offset (mxm + 1).toNat (firstMultiple 0 divid) vec := by
  have hfirst : firstMultiple 0 divid = 0 := by simp [firstMultiple]
  obtain ⟨fuel, hfuel⟩ : ∃ fuel, (mxm + 1).toNat = fuel + 1 := ⟨mxm.toNat, by omega⟩
  rw [hfirst, hfuel, pushMultiples, if_pos hmxm]
  apply subset_pushMultiples
  simp

theorem pushListed_ok {mnm mxm offset : ℤ} (fuel : ℕ) {substr : List Char} {vec pushed : List ℤ}
    (hvec : ∀ v ∈ vec, mnm + offset ≤ v ∧ v ≤ mxm + offset)
    (h : pushListed mnm mxm offset fuel substr vec = .ok pushed) :
    pushed ≠ [] ∧ ∀ v ∈ pushed, mnm + offset ≤ v ∧ v ≤ mxm + offset := by
  induction fuel generalizing substr vec with
  | zero => simp [pushListed] at h
  | succ fuel ih =>
      rw [pushListed] at h
      cases hstoi : stoi substr with
      | error e => simp [hstoi] at h
      | ok parsed =>
          obtain ⟨val, position⟩ := parsed
          simp only [hstoi] at h
          by_cases hbad : val < mnm ∨ mxm < val
          · simp [hbad] at h
          · have hvec' : ∀ v ∈ vec ++ [val + offset], mnm + offset ≤ v ∧ v ≤ mxm + offset := by
              intro v hv
              rcases List.mem_append.mp hv with hv | hv
              · exact hvec v hv
              · obtain rfl := List.mem_singleton.mp hv
                omega
            rw [if_neg hbad] at h
            by_cases hend : substr.length - 1 < position + 1
            · rw [if_pos hend] at h
              obtain rfl : vec ++ [val + offset] = pushed := by simpa using h
              exact ⟨by simp, hvec'⟩
            · rw [if_neg hend] at h
              exact ih hvec' h

/-- Everything that `pushItem` can do with an accepted token. -/
theorem pushItem_cases {item : List Char} {mnm mxm offset val : ℤ} {vec pushed : List ℤ}
    (h : pushItem item mnm mxm vec offset = .ok (val, pushed)) :
    item = ['*'] ∧ val = -1 ∧ pushed = vec ++ [-1] ∨
      item ≠ ['*'] ∧ '/' ∈ item ∧ val = mnm ∧
        (∃ divid position, stoi (afterSlash item) = .ok (divid, position) ∧ 0 < divid ∧
          pushed = pushMultiples divid mxm offset (mxm + 1).toNat (firstMultiple mnm divid) vec) ∨
      item ≠ ['*'] ∧ '/' ∉ item ∧ ',' ∈ item ∧ val = mnm ∧
        pushListed mnm mxm offset item.length item vec = .ok pushed ∨
      item ≠ ['*'] ∧ '/' ∉ item ∧ ',' ∉ item ∧ mnm ≤ val ∧ val ≤ mxm ∧
        (∃ position, stoi item = .ok (val, position)) ∧ pushed = vec ++ [val + offset] := by
  rw [pushItem] at h
  by_cases hstar : item = ['*']
  · rw [if_pos hstar] at h
    obtain ⟨rfl, rfl⟩ := Prod.mk.inj (Except.ok.inj h)
    exact Or.inl ⟨hstar, rfl, rfl⟩
  rw [if_neg hstar] at h
  by_cases hslash : '/' ∈ item
  · rw [if_pos hslash] at h
    by_cases hnil : afterSlash item = []
    · simp [hnil] at h
    rw [if_neg hnil] at h
    cases hstoi : stoi (afterSlash item) with
    | error e => simp [hstoi] at h
    | ok parsed =>
        obtain ⟨divid, position⟩ := parsed
        simp only [hstoi] at h
        by_cases hdivid : divid ≤ 0
        · simp [hdivid] at h
        · rw [if_neg hdivid] at h
          obtain ⟨rfl, rfl⟩ := Prod.mk.inj (Except.ok.inj h)
          exact Or.inr (Or.inl ⟨hstar, hslash, rfl, divid, position, rfl, by omega, rfl⟩)
  rw [if_neg hslash] at h
  by_cases hcomma : ',' ∈ item
  · rw [if_pos hcomma] at h
    cases hlist : pushListed mnm mxm offset item.length item vec with
    | error e => simp [hlist] at h
    | ok listed =>
        simp only [hlist] at h
        obtain ⟨rfl, rfl⟩ := Prod.mk.inj (Except.ok.inj h)
        exact Or.inr (Or.inr (Or.inl ⟨hstar, hslash, hcomma, rfl, rfl⟩))
  rw [if_neg hcomma] at h
  cases hstoi : stoi item with
  | error e => simp [hstoi] at h
  | ok parsed =>
      obtain ⟨v, position⟩ := parsed
      simp only [hstoi] at h
      by_cases hbad : v < mnm ∨ mxm < v
      · simp [hbad] at h
      · rw [if_neg hbad] at h
        obtain ⟨rfl, rfl⟩ := Prod.mk.inj (Except.ok.inj h)
        exact Or.inr (Or.inr (Or.inr
          ⟨hstar, hslash, hcomma, by omega, by omega, ⟨position, rfl⟩, rfl⟩))

/-- The branch an accepted token takes, with what it pushes on an empty vector. -/
inductive Pushed (mnm mxm offset : ℤ) : List ℤ → Prop
  | star : Pushed mnm mxm offset [-1]
  | multiples (divid : ℤ) (pos : 0 < divid) : Pushed mnm mxm offset
      (pushMultiples divid mxm offset (mxm + 1).toNat (firstMultiple mnm divid) [])
  | listed (item : List Char) (vec : List ℤ)
      (ok : pushListed mnm mxm offset item.length item [] = .ok vec) : Pushed mnm mxm offset vec
  | single (val : ℤ) (lower : mnm ≤ val) (upper : val ≤ mxm) :
      Pushed mnm mxm offset [val + offset]

theorem pushed_of_pushItem {item : List Char} {mnm mxm offset val : ℤ} {vec : List ℤ}
    (h : pushItem item mnm mxm [] offset = .ok (val, vec)) : Pushed mnm mxm offset vec := by
  rcases pushItem_cases h with ⟨-, -, rfl⟩ | ⟨-, -, -, divid, -, -, hpos, rfl⟩ |
    ⟨-, -, -, -, hlist⟩ | ⟨-, -, -, hlow, hup, -, rfl⟩
  · exact .star
  · exact .multiples divid hpos
  · exact .listed item vec hlist
  · exact .single val hlow hup

/-- Every token but the star pushes values within the bounds of its field. -/
theorem bounds_of_pushItem {item : List Char} {mnm mxm offset val : ℤ} {vec : List ℤ}
    (hstar : item ≠ ['*']) (h : pushItem item mnm mxm [] offset = .ok (val, vec)) :
    ∀ v ∈ vec, mnm + offset ≤ v ∧ v ≤ mxm + offset := by
  rcases pushItem_cases h with ⟨heq, -⟩ | ⟨-, -, -, divid, -, -, hpos, rfl⟩ |
    ⟨-, -, -, -, hlist⟩ | ⟨-, -, -, hlow, hup, -, rfl⟩
  · exact absurd heq hstar
  · apply mem_pushMultiples hpos _ (firstMultiple_ge hpos)
    simp
  · exact (pushListed_ok _ (by simp) hlist).2
  · intro w hw
    obtain rfl := List.mem_singleton.mp hw
    omega

theorem pushItem_of_parseItem {item : List Char} {mnm mxm offset val : ℤ} {vec : List ℤ}
    (h : parseItem item mnm mxm [] offset = .ok (val, vec)) :
    ∃ pushed, pushItem item mnm mxm [] offset = .ok (val, pushed) ∧
      vec = pushed.insertionSort (· ≤ ·) := by
  rw [parseItem] at h
  cases hpush : pushItem item mnm mxm [] offset with
  | error e => simp [hpush] at h
  | ok result =>
      obtain ⟨v, pushed⟩ := result
      simp only [hpush] at h
      obtain ⟨rfl, rfl⟩ := Prod.mk.inj (Except.ok.inj h)
      exact ⟨pushed, rfl, rfl⟩

/-- Every token but the star gives a sorted vector of values within the bounds of its
field. -/
theorem listed_of_parseItem {item : List Char} {mnm mxm offset val : ℤ} {vec : List ℤ}
    (hstar : item ≠ ['*']) (h : parseItem item mnm mxm [] offset = .ok (val, vec)) :
    Listed (mnm + offset) (mxm + offset) vec := by
  obtain ⟨pushed, hpush, rfl⟩ := pushItem_of_parseItem h
  refine ⟨List.pairwise_insertionSort (· ≤ ·) pushed, ?_⟩
  intro v hv
  exact bounds_of_pushItem hstar hpush v ((List.mem_insertionSort _).mp hv)

theorem parseItem_star {mnm mxm offset val : ℤ} {vec : List ℤ}
    (h : parseItem ['*'] mnm mxm [] offset = .ok (val, vec)) : vec = [-1] := by
  rw [parseItem, pushItem, if_pos rfl] at h
  exact (Prod.mk.inj (Except.ok.inj h)).2.symm

/-- Every accepted token gives the star vector or a sorted vector of values within
the bounds of its field. -/
theorem parseItem_ok {item : List Char} {mnm mxm offset val : ℤ} {vec : List ℤ}
    (h : parseItem item mnm mxm [] offset = .ok (val, vec)) :
    vec = [-1] ∨ Listed (mnm + offset) (mxm + offset) vec := by
  by_cases hstar : item = ['*']
  · subst hstar
    exact Or.inl (parseItem_star h)
  · exact Or.inr (listed_of_parseItem hstar h)

/-- In a field that starts at zero the vector is never empty. -/
theorem parseItem_ne_nil {item : List Char} {mxm offset val : ℤ} {vec : List ℤ} (hmxm : 0 ≤ mxm)
    (h : parseItem item 0 mxm [] offset = .ok (val, vec)) : vec ≠ [] := by
  obtain ⟨pushed, hpush, rfl⟩ := pushItem_of_parseItem h
  have hne : pushed ≠ [] := by
    cases pushed_of_pushItem hpush with
    | star => simp
    | multiples divid pos => exact List.ne_nil_of_mem (zero_mem_pushMultiples hmxm [])
    | listed item vec ok => exact (pushListed_ok _ (by simp) ok).1
    | single v lower upper => simp
  intro hnil
  apply hne
  have hlength := List.length_insertionSort (· ≤ ·) pushed
  rw [hnil] at hlength
  exact List.eq_nil_of_length_eq_zero hlength.symm

end IqrfDaemon.Scheduler
