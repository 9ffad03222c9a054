import IqrfDaemon.Serializer.Stream

/-!
# Hexadecimal fields of a request

The binary and numeric fields of a JSON request are read by
`operator>>(int&)` in base sixteen and narrowed to the target type.  Beside the
readers stands what a text spells, and when the two agree.
-/

namespace IqrfDaemon.Serializer

open Json Text Scheduler

abbrev Byte := BitVec 8

/-! ## The parsers -/

def unexpectedFormat (from_ : List Char) : Failure :=
  .logicError ("Unexpected format: " ++ String.ofList from_)

def undot (s : List Char) : List Char := s.map fun c ↦ if c = '.' then ' ' else c

/-- The loop of `parseBinary` with the rounds that are left. -/
def readBytes (from_ : List Char) : ℕ → List Char → Except Failure (List Byte)
  | 0, _ => .ok []
  | rounds + 1, istr =>
      match readInt istr with
      | (some val, rest) => (BitVec.ofInt 8 val :: ·) <$> readBytes from_ rounds rest
      | (none, rest) => if rest = [] then .ok [] else .error (unexpectedFormat from_)

/-- `parseBinary`: the bytes written to the front of the buffer. -/
def parseBinary (from_ : List Char) (maxlen : ℤ) : Except Failure (List Byte) :=
  readBytes from_ maxlen.toNat (undot from_)

/-- `parseHexaNum` for an unsigned type of `w` bits. -/
def parseHexaNum (w : ℕ) (from_ : List Char) : Except Failure (BitVec w) :=
  match (readInt from_).1 with
  | some val => .ok (BitVec.ofInt w val)
  | none => .error (unexpectedFormat from_)

example : parseBinary "01.0xA5 ff".toList 4 = .ok [0x01, 0xa5, 0xff] := by decide

/-! ## What a text spells -/

def isSeparator (c : Char) : Bool := c = '.' || isSpace c

/-- A word spells a number by its digits, behind a possible `0x`; it has no sign. -/
def Spells (word : List Char) (v : ℤ) : Prop :=
  ∃ pre digits, IsPrefix pre ∧ digits ≠ [] ∧ (∀ c ∈ digits, isHexDigit c = true) ∧
    word = pre ++ digits ∧ v = hexMagnitude digits

/-- A text spells the bytes of its fields between dots and blanks. -/
def SpellsBytes (s : List Char) (bytes : List Byte) : Prop :=
  List.Forall₂ (fun word b ↦ Spells word b.toNat) (fields isSeparator s) bytes

def SpellsNumber {w : ℕ} (s : List Char) (v : BitVec w) : Prop :=
  ∃ word, fields isSpace s = [word] ∧ Spells word v.toNat

/-- A parser throws or returns what is spelled. -/
def Literal {T : Type} (spelled : T → Prop) (r : Except Failure T) : Prop :=
  ∀ v, r = .ok v → spelled v

/-- Among the first numbers of a text one is unreadable, and it does not end the text. -/
inductive Refused : ℕ → List Char → Prop
  | here {rounds : ℕ} {text : List Char} (unread : ∀ v rest, ¬Reads text v rest)
      (remains : ¬Exhausted text) : Refused (rounds + 1) text
  | later {rounds : ℕ} {text rest : List Char} {v : ℤ} (read : Reads text v rest)
      (refused : Refused rounds rest) : Refused (rounds + 1) text

/-! ## Reading what is spelled -/

theorem Spells.nonneg {word : List Char} {v : ℤ} (h : Spells word v) : 0 ≤ v := by
  obtain ⟨pre, digits, -, -, hdigits, -, rfl⟩ := h
  exact hexMagnitude_nonneg hdigits

/-- A blank ends a number. -/
theorem ends_of_blank {pre digits rest : List Char}
    (hrest : ∀ c ∈ rest.head?, isSpace c = true) : Ends pre digits rest := by
  intro c hc
  have hspace := hrest c hc
  refine ⟨isHexDigit_eq_false_of_isSpace hspace, fun _ ↦ ?_⟩
  constructor <;> rintro rfl <;> exact absurd hspace (by decide)

theorem reads_spelled {blanks word rest : List Char} {v : ℤ}
    (hblanks : ∀ c ∈ blanks, isSpace c = true) (hword : Spells word v) (hv : v ≤ 2147483647)
    (hrest : ∀ c ∈ rest.head?, isSpace c = true) : Reads (blanks ++ (word ++ rest)) v rest := by
  have hnonneg := hword.nonneg
  obtain ⟨pre, digits, hpre, hne, hdigits, rfl, rfl⟩ := hword
  refine ⟨[], pre, digits, ?_, hne, ends_of_blank hrest, by simp [signed], by omega, hv⟩
  have hlead := Lead.intro hblanks .none hpre hdigits rest
  rwa [List.nil_append, ← List.append_assoc pre] at hlead

/-! ## Literal or rejected -/

theorem splitOnP_undot (s : List Char) :
    (undot s).splitOnP isSpace = s.splitOnP isSeparator := by
  induction s with
  | nil => simp [undot]
  | cons c s ih =>
      have hcons : undot (c :: s) = (if c = '.' then ' ' else c) :: undot s := rfl
      rw [hcons, List.splitOnP_cons_eq_if_modifyHead, List.splitOnP_cons_eq_if_modifyHead, ih]
      by_cases hdot : c = '.'
      · have hblank : isSpace ' ' = true := by decide
        simp [hdot, hblank, isSeparator]
      · simp [hdot, isSeparator]

/-- Dots become blanks, so the fields are the ones between dots and blanks. -/
theorem fields_undot (s : List Char) : fields isSpace (undot s) = fields isSeparator s := by
  rw [fields, splitOnP_undot, fields]

theorem readBytes_of_reads (from_ : List Char) (rounds : ℕ) {text rest : List Char} {v : ℤ}
    (h : Reads text v rest) :
    readBytes from_ (rounds + 1) text =
      (BitVec.ofInt 8 v :: ·) <$> readBytes from_ rounds rest := by
  simp only [readBytes, readInt_eq_some_iff.mpr h]

/-- A failed stream ends the bytes at its end, and throws before. -/
theorem readBytes_of_unread (from_ : List Char) (rounds : ℕ) {text : List Char}
    (h : ∀ v rest, ¬Reads text v rest) [Decidable (Exhausted text)] :
    readBytes from_ (rounds + 1) text =
      if Exhausted text then .ok [] else .error (unexpectedFormat from_) := by
  have hread : readInt text = (none, (readInt text).2) :=
    Prod.ext (readInt_fst_eq_none_iff.mpr h) rfl
  rw [readBytes, hread]
  simp only [readInt_snd_eq_nil_iff]

theorem not_reads_of_fields_eq_nil {text : List Char} (h : fields isSpace text = []) :
    (∀ v rest, ¬Reads text v rest) ∧ Exhausted text := by
  have hread : readInt text = (none, []) := by
    simp [readInt, dropWhile_of_fields_eq_nil h, afterPrefix]
  rw [← readInt_fst_eq_none_iff, ← readInt_snd_eq_nil_iff, hread]
  exact ⟨rfl, rfl⟩

theorem readBytes_spelled (from_ : List Char) {words : List (List Char)} {bytes : List Byte}
    (hspelled : List.Forall₂ (fun word (b : Byte) ↦ Spells word b.toNat) words bytes) :
    ∀ {rounds : ℕ} {istr : List Char}, fields isSpace istr = words →
      readBytes from_ rounds istr = .ok (bytes.take rounds) := by
  classical
  induction hspelled with
  | nil =>
      intro rounds istr hfields
      obtain ⟨hunread, hover⟩ := not_reads_of_fields_eq_nil hfields
      cases rounds with
      | zero => rfl
      | succ rounds => rw [readBytes_of_unread from_ rounds hunread, if_pos hover, List.take_nil]
  | @cons word b words bytes hword _ ih =>
      intro rounds istr hfields
      obtain ⟨blanks, rest, rfl, hblanks, hrest, hmore⟩ := exists_of_fields_eq_cons hfields
      cases rounds with
      | zero => rfl
      | succ rounds =>
          have hlt := b.isLt
          have hreads := reads_spelled hblanks hword (by omega) hrest
          rw [readBytes_of_reads from_ rounds hreads, ih hmore, BitVec.ofInt_natCast,
            BitVec.ofNat_toNat, BitVec.setWidth_eq]
          rfl

theorem readBytes_error_iff (from_ : List Char) (rounds : ℕ) (istr : List Char) :
    (∃ e, readBytes from_ rounds istr = .error e) ↔ Refused rounds istr := by
  classical
  induction rounds generalizing istr with
  | zero =>
      constructor
      · rintro ⟨e, he⟩
        simp [readBytes] at he
      · intro h
        cases h
  | succ rounds ih =>
      by_cases hreads : ∃ v rest, Reads istr v rest
      · obtain ⟨v, rest, hreads⟩ := hreads
        rw [readBytes_of_reads from_ rounds hreads]
        constructor
        · rintro ⟨e, he⟩
          refine .later hreads ((ih rest).mp ?_)
          cases hmore : readBytes from_ rounds rest with
          | error e' => exact ⟨e', rfl⟩
          | ok bytes => simp [hmore] at he
        · intro h
          cases h with
          | here unread remains => exact absurd hreads (unread v rest)
          | later read refused =>
              have heq := (readInt_eq_some_iff.mpr hreads).symm.trans (readInt_eq_some_iff.mpr read)
              obtain ⟨-, rfl⟩ := Prod.mk.inj heq
              obtain ⟨e, he⟩ := (ih rest).mpr refused
              exact ⟨e, by rw [he]; rfl⟩
      · have hunread : ∀ v rest, ¬Reads istr v rest := fun v rest h ↦ hreads ⟨v, rest, h⟩
        rw [readBytes_of_unread from_ rounds hunread]
        constructor
        · rintro ⟨e, he⟩
          refine .here hunread fun hover ↦ ?_
          rw [if_pos hover] at he
          cases he
        · intro h
          cases h with
          | here _ remains => exact ⟨_, if_neg remains⟩
          | later read _ => exact absurd read (hunread _ _)

/-- A text that spells bytes is read up to the limit. -/
theorem parseBinary_take {s : List Char} {bytes : List Byte} (h : SpellsBytes s bytes)
    (maxlen : ℤ) : parseBinary s maxlen = .ok (bytes.take maxlen.toNat) := by
  rw [SpellsBytes, ← fields_undot] at h
  exact readBytes_spelled s h rfl

theorem parseBinary_spelled {s : List Char} {bytes : List Byte} (h : SpellsBytes s bytes)
    {maxlen : ℤ} (hlength : bytes.length ≤ maxlen) : parseBinary s maxlen = .ok bytes := by
  rw [parseBinary_take h, List.take_of_length_le (by omega)]

theorem parseBinary_literal_iff (s : List Char) (maxlen : ℤ) :
    Literal (fun bytes ↦ SpellsBytes s bytes ∧ bytes.length ≤ maxlen) (parseBinary s maxlen) ↔
      (∃ bytes, SpellsBytes s bytes ∧ bytes.length ≤ maxlen) ∨
        Refused maxlen.toNat (undot s) := by
  rw [← readBytes_error_iff s]
  constructor
  · intro hliteral
    cases hparse : parseBinary s maxlen with
    | ok bytes => exact Or.inl ⟨bytes, hliteral bytes hparse⟩
    | error e => exact Or.inr ⟨e, hparse⟩
  · rintro (⟨bytes, hspelled, hlength⟩ | ⟨e, he⟩) result hresult
    · rw [parseBinary_spelled hspelled hlength] at hresult
      obtain rfl := Except.ok.inj hresult
      exact ⟨hspelled, hlength⟩
    · rw [parseBinary, he] at hresult
      cases hresult

theorem parseHexaNum_spelled {w : ℕ} (hw : w ≤ 31) {s : List Char} {v : BitVec w}
    (h : SpellsNumber s v) : parseHexaNum w s = .ok v := by
  obtain ⟨word, hfields, hword⟩ := h
  obtain ⟨blanks, rest, rfl, hblanks, hrest, -⟩ := exists_of_fields_eq_cons hfields
  have hlt : v.toNat < 2 ^ 31 := lt_of_lt_of_le v.isLt (Nat.pow_le_pow_right (by decide) hw)
  have hsmall : (v.toNat : ℤ) ≤ 2147483647 := by
    norm_num at hlt
    omega
  have hread := readInt_eq_some_iff.mpr (reads_spelled hblanks hword hsmall hrest)
  simp only [parseHexaNum, hread, BitVec.ofInt_natCast, BitVec.ofNat_toNat, BitVec.setWidth_eq]

theorem parseHexaNum_literal_iff {w : ℕ} (hw : w ≤ 31) (s : List Char) :
    Literal (SpellsNumber s) (parseHexaNum w s) ↔
      (∃ v : BitVec w, SpellsNumber s v) ∨ ∀ v rest, ¬Reads s v rest := by
  rw [← readInt_fst_eq_none_iff]
  constructor
  · intro hliteral
    cases hread : (readInt s).1 with
    | none => exact Or.inr rfl
    | some val => exact Or.inl ⟨BitVec.ofInt w val, hliteral _ (by simp [parseHexaNum, hread])⟩
  · rintro (⟨v, hspelled⟩ | hnone) result hresult
    · rw [parseHexaNum_spelled hw hspelled] at hresult
      obtain rfl := Except.ok.inj hresult
      exact hspelled
    · simp [parseHexaNum, hnone] at hresult

/-- A field is taken literally or rejected exactly if it spells what fits, or an unreadable
number comes before anything else. -/
theorem request_fields_literal_iff (s : List Char) :
    (∀ maxlen : ℤ,
      Literal (fun bytes ↦ SpellsBytes s bytes ∧ bytes.length ≤ maxlen) (parseBinary s maxlen) ↔
        (∃ bytes, SpellsBytes s bytes ∧ bytes.length ≤ maxlen) ∨
          Refused maxlen.toNat (undot s)) ∧
      (Literal (SpellsNumber s) (parseHexaNum 8 s) ↔
        (∃ v : BitVec 8, SpellsNumber s v) ∨ ∀ v rest, ¬Reads s v rest) ∧
      (Literal (SpellsNumber s) (parseHexaNum 16 s) ↔
        (∃ v : BitVec 16, SpellsNumber s v) ∨ ∀ v rest, ¬Reads s v rest) :=
  ⟨parseBinary_literal_iff s, parseHexaNum_literal_iff (by decide) s,
    parseHexaNum_literal_iff (by decide) s⟩

/-- `1ff` is sent as the byte `ff`. -/
theorem request_fields_wrap :
    ¬∀ s : List Char,
      (∀ maxlen : ℤ,
        Literal (fun bytes ↦ SpellsBytes s bytes ∧ bytes.length ≤ maxlen)
          (parseBinary s maxlen)) ∧
        Literal (SpellsNumber s) (parseHexaNum 8 s) ∧
          Literal (SpellsNumber s) (parseHexaNum 16 s) := by
  intro hclaim
  have hparse : parseBinary ['1', 'f', 'f'] 64 = .ok [0xff#8] := by decide
  have hspelled := ((hclaim ['1', 'f', 'f']).1 64 [0xff#8] hparse).1
  have hfields : fields isSeparator ['1', 'f', 'f'] = [['1', 'f', 'f']] := by decide
  rw [SpellsBytes, hfields] at hspelled
  cases hspelled with
  | cons hword _ =>
      obtain ⟨pre, digits, hpre, hne, hdigits, heq, hvalue⟩ := hword
      cases hpre with
      | none =>
          obtain rfl : digits = ['1', 'f', 'f'] := by simpa using heq.symm
          exact absurd hvalue (by decide)
      | lower => simp at heq
      | upper => simp at heq

end IqrfDaemon.Serializer
