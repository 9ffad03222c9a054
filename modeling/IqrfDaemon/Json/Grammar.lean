import IqrfDaemon.Json.Value
import IqrfDaemon.Text.Decimal
import IqrfDaemon.Text.Fields

/-!
# The grammar of JSON texts

Which texts are JSON documents, and the value each of them stands for.  Texts are
lists of bytes, written as characters, and what stands between quotation marks is
not decoded: a `\u` escape stands for the bytes of its code point.  Which numerals
are read, and as which value, is a parameter of the grammar.
-/

namespace IqrfDaemon.Json.Grammar

open Text

/-! ## Parts of a value -/

/-- The first value is the second one or stands somewhere in it. -/
inductive Inside : Value → Value → Prop
  | refl (v : Value) : Inside v v
  | item {u v : Value} {items : List Value} (hmem : v ∈ items) (h : Inside u v) :
      Inside u (.array items)
  | member {u : Value} {m : String × Value} {members : List (String × Value)} (hmem : m ∈ members)
      (h : Inside u m.2) : Inside u (.object members)

theorem value_induction {motive : Value → Prop} (null : motive .null)
    (bool : ∀ b, motive (.bool b)) (int : ∀ n, motive (.int n)) (real : ∀ text, motive (.real text))
    (string : ∀ s, motive (.string s))
    (array : ∀ items, (∀ v ∈ items, motive v) → motive (.array items))
    (object : ∀ members, (∀ m ∈ members, motive m.2) → motive (.object members)) (v : Value) :
    motive v :=
  @Value.rec motive (fun items ↦ ∀ v ∈ items, motive v)
    (fun members ↦ ∀ m ∈ members, motive m.2) (fun m ↦ motive m.2)
    null bool int real string (fun items ih ↦ array items ih) (fun members ih ↦ object members ih)
    (by simp) (fun v items hv hitems ↦ by simpa using ⟨hv, hitems⟩) (by simp)
    (fun m members hm hmembers ↦ by simpa using ⟨hm, fun a b ↦ hmembers (a, b)⟩)
    (fun _ _ hv ↦ hv) v

/-! ## Blanks -/

def isBlank (c : Char) : Bool := c = ' ' || c = '\n' || c = '\r' || c = '\t'

def Blank (w : List Char) : Prop := ∀ c ∈ w, isBlank c = true

theorem Blank.nil : Blank [] := by simp [Blank]

theorem Blank.cons {c : Char} {w : List Char} (hc : isBlank c = true) (hw : Blank w) :
    Blank (c :: w) := by
  intro d hd
  rcases List.mem_cons.mp hd with rfl | hd
  · exact hc
  · exact hw d hd

theorem Blank.append {w w' : List Char} (hw : Blank w) (hw' : Blank w') : Blank (w ++ w') := by
  intro c hc
  rcases List.mem_append.mp hc with hc | hc
  · exact hw c hc
  · exact hw' c hc

theorem blank_takeWhile (s : List Char) : Blank (s.takeWhile isBlank) :=
  fun _ hc ↦ List.mem_takeWhile_imp hc

theorem dropWhile_blank_append {w s : List Char} (hw : Blank w)
    (hs : ∀ c ∈ s.head?, isBlank c = false) : (w ++ s).dropWhile isBlank = s := by
  rw [List.dropWhile_append_of_pos hw]
  cases s with
  | nil => rfl
  | cons c s => exact List.dropWhile_cons_of_neg (by simp [hs c rfl])

/-! ## Texts between quotation marks -/

/-- The characters with an escape of their own, by the letter behind the backslash. -/
def escaped : Char → Option Char
  | '"' => some '"'
  | '\\' => some '\\'
  | '/' => some '/'
  | 'b' => some '\x08'
  | 'f' => some '\x0c'
  | 'n' => some '\n'
  | 'r' => some '\r'
  | 't' => some '\t'
  | _ => none

def hexValue (c : Char) : Option ℕ :=
  if '0' ≤ c ∧ c ≤ '9' then some (c.toNat - 48)
  else if 'A' ≤ c ∧ c ≤ 'F' then some (c.toNat - 55)
  else if 'a' ≤ c ∧ c ≤ 'f' then some (c.toNat - 87)
  else none

/-- A number continued by hexadecimal digits. -/
def hexNumber : ℕ → List Char → Option ℕ
  | n, [] => some n
  | n, c :: digits => (hexValue c).bind fun d ↦ hexNumber (16 * n + d) digits

/-- The first and the second half of a surrogate pair. -/
def IsLead (code : ℕ) : Prop := 0xD800 ≤ code ∧ code ≤ 0xDBFF

def IsTrail (code : ℕ) : Prop := 0xDC00 ≤ code ∧ code ≤ 0xDFFF

@[irreducible] def pairCode (lead trail : ℕ) : ℕ :=
  1024 * (lead - 0xD800) + (trail - 0xDC00) + 0x10000

/-- The bytes of a code point. -/
def utf8 (code : ℕ) : List Char :=
  List.map Char.ofNat <|
    if code ≤ 0x7F then [code]
    else if code ≤ 0x7FF then [0xC0 + code / 64, 0x80 + code % 64]
    else if code ≤ 0xFFFF then
      [0xE0 + code / 4096, 0x80 + code / 64 % 64, 0x80 + code % 64]
    else [0xF0 + code / 262144, 0x80 + code / 4096 % 64, 0x80 + code / 64 % 64, 0x80 + code % 64]

/-- One piece of a text and the bytes it stands for. -/
inductive Piece : List Char → List Char → Prop
  | plain {c : Char} (hc : 0x20 ≤ c.toNat) (hquote : c ≠ '"') (hslash : c ≠ '\\') :
      Piece [c] [c]
  | escape {e c : Char} (h : escaped e = some c) : Piece ['\\', e] [c]
  | unicode {digits : List Char} {code : ℕ} (hlength : digits.length = 4)
      (h : hexNumber 0 digits = some code) (hlead : ¬IsLead code) :
      Piece ('\\' :: 'u' :: digits) (utf8 code)
  | pair {digits digits' : List Char} {lead trail : ℕ} (hlength : digits.length = 4)
      (h : hexNumber 0 digits = some lead) (hlead : IsLead lead) (hlength' : digits'.length = 4)
      (h' : hexNumber 0 digits' = some trail) (htrail : IsTrail trail) :
      Piece ('\\' :: 'u' :: digits ++ '\\' :: 'u' :: digits') (utf8 (pairCode lead trail))

inductive Characters : List Char → List Char → Prop
  | nil : Characters [] []
  | cons {t u s r : List Char} (h : Piece t u) (hs : Characters s r) :
      Characters (t ++ s) (u ++ r)

theorem Piece.ne_nil {t u : List Char} (h : Piece t u) : t ≠ [] := by
  cases h <;> simp

theorem Characters.append {t u s r : List Char} (h : Characters t u) (hs : Characters s r) :
    Characters (t ++ s) (u ++ r) := by
  induction h with
  | nil => exact hs
  | cons hpiece _ ih =>
      rw [List.append_assoc, List.append_assoc]
      exact .cons hpiece ih

/-! ## Numerals -/

def magnitude (digits : List Char) : ℕ := digits.foldl (fun n c ↦ 10 * n + decimalDigit c) 0

structure Exponent where
  letter : Char
  sign : List Char
  digits : List Char
  letter_e : letter = 'e' ∨ letter = 'E'
  sign_sign : sign = [] ∨ sign = ['+'] ∨ sign = ['-']
  digits_ne : digits ≠ []
  isDigit : ∀ c ∈ digits, c.isDigit = true

def Exponent.text (e : Exponent) : List Char := e.letter :: e.sign ++ e.digits

/-- The digits of an integer, without leading zeros. -/
structure IsIntegerText (digits : List Char) : Prop where
  ne_nil : digits ≠ []
  isDigit : ∀ c ∈ digits, c.isDigit = true
  leading_zero : digits.head? = some '0' → digits = ['0']

/-- A number as it is written.  No digits of a fraction mean that there is no point. -/
structure Numeral where
  minus : Bool
  integer : List Char
  fraction : List Char
  exponent : Option Exponent
  integer_text : IsIntegerText integer
  fraction_isDigit : ∀ c ∈ fraction, c.isDigit = true

def signText (minus : Bool) : List Char := if minus then ['-'] else []

def fractionText (digits : List Char) : List Char := if digits = [] then [] else '.' :: digits

def exponentText : Option Exponent → List Char
  | some e => e.text
  | none => []

namespace Numeral

def text (n : Numeral) : List Char :=
  signText n.minus ++ n.integer ++ fractionText n.fraction ++ exponentText n.exponent

/-- The numeral is nothing but an integer. -/
def IsInteger (n : Numeral) : Prop := n.fraction = [] ∧ n.exponent = none

instance (n : Numeral) : Decidable n.IsInteger :=
  inferInstanceAs (Decidable (n.fraction = [] ∧ n.exponent = none))

def integerValue (n : Numeral) : ℤ :=
  if n.minus then -(magnitude n.integer : ℤ) else magnitude n.integer

theorem text_ne_nil (n : Numeral) : n.text ≠ [] := by
  simp [text, n.integer_text.ne_nil]

end Numeral

/-! ## Values and documents -/

/-- A value with the blanks around it. -/
structure Element where
  before : List Char
  text : List Char
  after : List Char
  value : Value
  blank_before : Blank before
  blank_after : Blank after

def Element.padded (x : Element) : List Char := x.before ++ x.text ++ x.after

theorem Element.padded_append (x : Element) (s : List Char) :
    x.padded ++ s = x.before ++ (x.text ++ (x.after ++ s)) := by
  simp [padded]

def Element.pad (x : Element) {w : List Char} (hw : Blank w) : Element :=
  { x with before := w ++ x.before, blank_before := hw.append x.blank_before }

theorem Element.pad_padded (x : Element) {w : List Char} (hw : Blank w) :
    (x.pad hw).padded = w ++ x.padded := by
  simp [pad, padded]

theorem Element.length_text_le (x : Element) : x.text.length ≤ x.padded.length := by
  simp only [padded, List.length_append]
  omega

/-- A name between quotation marks with its blanks, and the element behind the colon. -/
structure Member where
  before : List Char
  nameText : List Char
  name : List Char
  after : List Char
  element : Element
  blank_before : Blank before
  characters : Characters nameText name
  blank_after : Blank after

namespace Member

def padded (m : Member) : List Char :=
  m.before ++ '"' :: m.nameText ++ '"' :: m.after ++ ':' :: m.element.padded

def entry (m : Member) : String × Value := (String.ofList m.name, m.element.value)

theorem padded_append (m : Member) (s : List Char) : m.padded ++ s =
    m.before ++ '"' :: (m.nameText ++ '"' :: (m.after ++ ':' :: (m.element.padded ++ s))) := by
  simp [padded]

def pad (m : Member) {w : List Char} (hw : Blank w) : Member :=
  { m with before := w ++ m.before, blank_before := hw.append m.blank_before }

theorem pad_padded (m : Member) {w : List Char} (hw : Blank w) :
    (m.pad hw).padded = w ++ m.padded := by
  simp [pad, padded]

theorem length_element_le (m : Member) : m.element.padded.length + 3 ≤ m.padded.length := by
  simp only [padded, List.length_append, List.length_cons]
  omega

end Member

def commaSeparated (texts : List (List Char)) : List Char := [','].intercalate texts

theorem commaSeparated_cons_cons (t u : List Char) (texts : List (List Char)) :
    commaSeparated (t :: u :: texts) = t ++ ',' :: commaSeparated (u :: texts) :=
  intercalate_cons_cons ',' t u texts

theorem commaSeparated_append_cons (w t : List Char) (texts : List (List Char)) :
    commaSeparated ((w ++ t) :: texts) = w ++ commaSeparated (t :: texts) := by
  cases texts with
  | nil => simp only [commaSeparated, List.intercalate_singleton]
  | cons u texts => rw [commaSeparated_cons_cons, commaSeparated_cons_cons, List.append_assoc]

theorem commaSeparated_cons_append (t u : List Char) (texts : List (List Char)) (s : List Char) :
    commaSeparated (t :: u :: texts) ++ s = t ++ ',' :: (commaSeparated (u :: texts) ++ s) := by
  rw [commaSeparated_cons_cons, List.append_assoc, List.cons_append]

theorem length_commaSeparated_cons (t u : List Char) (texts : List (List Char)) :
    (commaSeparated (t :: u :: texts)).length =
      t.length + (commaSeparated (u :: texts)).length + 1 := by
  rw [commaSeparated_cons_cons, List.length_append, List.length_cons]
  omega

@[simp] theorem commaSeparated_singleton (t : List Char) : commaSeparated [t] = t :=
  List.intercalate_singleton

/-- The texts of values, by how numerals are read. -/
inductive IsValue (reads : Numeral → Value → Prop) : List Char → Value → Prop
  | null : IsValue reads ['n', 'u', 'l', 'l'] .null
  | bool_true : IsValue reads ['t', 'r', 'u', 'e'] (.bool true)
  | bool_false : IsValue reads ['f', 'a', 'l', 's', 'e'] (.bool false)
  | number {n : Numeral} {v : Value} (h : reads n v) : IsValue reads n.text v
  | string {t s : List Char} (h : Characters t s) :
      IsValue reads ('"' :: t ++ ['"']) (.string (String.ofList s))
  | emptyArray {w : List Char} (hw : Blank w) : IsValue reads ('[' :: w ++ [']']) (.array [])
  | array {items : List Element} (hne : items ≠ [])
      (h : ∀ x ∈ items, IsValue reads x.text x.value) :
      IsValue reads ('[' :: commaSeparated (items.map Element.padded) ++ [']'])
        (.array (items.map Element.value))
  | emptyObject {w : List Char} (hw : Blank w) : IsValue reads ('{' :: w ++ ['}']) (.object [])
  | object {members : List Member} (hne : members ≠ [])
      (h : ∀ m ∈ members, IsValue reads m.element.text m.element.value) :
      IsValue reads ('{' :: commaSeparated (members.map Member.padded) ++ ['}'])
        (.object (members.map Member.entry))

/-- The text between the brackets of an array that is not empty. -/
def IsElements (reads : Numeral → Value → Prop) (t : List Char) (vs : List Value) : Prop :=
  ∃ items : List Element, items ≠ [] ∧ t = commaSeparated (items.map Element.padded) ∧
    vs = items.map Element.value ∧ ∀ x ∈ items, IsValue reads x.text x.value

/-- The text between the brackets of an object that is not empty. -/
def IsMembers (reads : Numeral → Value → Prop) (t : List Char) (entries : List (String × Value)) :
    Prop :=
  ∃ members : List Member, members ≠ [] ∧ t = commaSeparated (members.map Member.padded) ∧
    entries = members.map Member.entry ∧
    ∀ m ∈ members, IsValue reads m.element.text m.element.value

section Lists

variable {reads : Numeral → Value → Prop}

theorem IsElements.isValue {t : List Char} {vs : List Value} (h : IsElements reads t vs) :
    IsValue reads ('[' :: t ++ [']']) (.array vs) := by
  obtain ⟨items, hne, rfl, rfl, hvalues⟩ := h
  exact .array hne hvalues

theorem IsElements.singleton {x : Element} (h : IsValue reads x.text x.value) :
    IsElements reads x.padded [x.value] :=
  ⟨[x], by simp, by simp, rfl, by simpa using h⟩

theorem IsElements.cons {x : Element} {t : List Char} {vs : List Value}
    (hx : IsValue reads x.text x.value) (h : IsElements reads t vs) :
    IsElements reads (x.padded ++ ',' :: t) (x.value :: vs) := by
  obtain ⟨items, hne, rfl, rfl, hvalues⟩ := h
  obtain ⟨y, items, rfl⟩ := List.exists_cons_of_ne_nil hne
  refine ⟨x :: y :: items, by simp, ?_, rfl, ?_⟩
  · exact (commaSeparated_cons_cons x.padded y.padded (items.map Element.padded)).symm
  · exact fun z hz ↦ (List.mem_cons.mp hz).elim (fun h ↦ h ▸ hx) (hvalues z)

theorem IsElements.blank_append {w t : List Char} {vs : List Value} (hw : Blank w)
    (h : IsElements reads t vs) : IsElements reads (w ++ t) vs := by
  obtain ⟨items, hne, rfl, rfl, hvalues⟩ := h
  obtain ⟨x, items, rfl⟩ := List.exists_cons_of_ne_nil hne
  refine ⟨x.pad hw :: items, by simp, ?_, rfl, ?_⟩
  · rw [List.map_cons, List.map_cons, x.pad_padded hw, commaSeparated_append_cons]
  · exact fun z hz ↦ (List.mem_cons.mp hz).elim
      (fun h ↦ h ▸ hvalues x (by simp)) fun hz ↦ hvalues z (by simp [hz])

theorem IsElements.append_blank {t w : List Char} {vs : List Value} (h : IsElements reads t vs)
    (hw : Blank w) : IsElements reads (t ++ w) vs := by
  obtain ⟨items, hne, rfl, rfl, hvalues⟩ := h
  induction items with
  | nil => exact absurd rfl hne
  | cons x items ih =>
      cases items with
      | nil =>
          let y : Element :=
            { x with after := x.after ++ w, blank_after := x.blank_after.append hw }
          refine ⟨[y], by simp, ?_, rfl, ?_⟩
          · simp [y, Element.padded]
          · simpa [y] using hvalues x (by simp)
      | cons y items =>
          have hrest := ih (by simp) fun z hz ↦ hvalues z (by simp [hz])
          rw [List.map_cons, List.map_cons, commaSeparated_cons_append]
          exact .cons (hvalues x (by simp)) hrest

theorem IsMembers.isValue {t : List Char} {entries : List (String × Value)}
    (h : IsMembers reads t entries) : IsValue reads ('{' :: t ++ ['}']) (.object entries) := by
  obtain ⟨members, hne, rfl, rfl, hvalues⟩ := h
  exact .object hne hvalues

theorem IsMembers.singleton {m : Member} (h : IsValue reads m.element.text m.element.value) :
    IsMembers reads m.padded [m.entry] :=
  ⟨[m], by simp, by simp, rfl, by simpa using h⟩

theorem IsMembers.cons {m : Member} {t : List Char} {entries : List (String × Value)}
    (hm : IsValue reads m.element.text m.element.value) (h : IsMembers reads t entries) :
    IsMembers reads (m.padded ++ ',' :: t) (m.entry :: entries) := by
  obtain ⟨members, hne, rfl, rfl, hvalues⟩ := h
  obtain ⟨m', members, rfl⟩ := List.exists_cons_of_ne_nil hne
  refine ⟨m :: m' :: members, by simp, ?_, rfl, ?_⟩
  · exact (commaSeparated_cons_cons m.padded m'.padded (members.map Member.padded)).symm
  · exact fun z hz ↦ (List.mem_cons.mp hz).elim (fun h ↦ h ▸ hm) (hvalues z)

theorem IsMembers.blank_append {w t : List Char} {entries : List (String × Value)} (hw : Blank w)
    (h : IsMembers reads t entries) : IsMembers reads (w ++ t) entries := by
  obtain ⟨members, hne, rfl, rfl, hvalues⟩ := h
  obtain ⟨m, members, rfl⟩ := List.exists_cons_of_ne_nil hne
  refine ⟨m.pad hw :: members, by simp, ?_, rfl, ?_⟩
  · rw [List.map_cons, List.map_cons, m.pad_padded hw, commaSeparated_append_cons]
  · exact fun z hz ↦ (List.mem_cons.mp hz).elim
      (fun h ↦ h ▸ hvalues m (by simp)) fun hz ↦ hvalues z (by simp [hz])

theorem IsMembers.append_blank {t w : List Char} {entries : List (String × Value)}
    (h : IsMembers reads t entries) (hw : Blank w) : IsMembers reads (t ++ w) entries := by
  obtain ⟨members, hne, rfl, rfl, hvalues⟩ := h
  induction members with
  | nil => exact absurd rfl hne
  | cons m members ih =>
      cases members with
      | nil =>
          let y : Element := { m.element with
            after := m.element.after ++ w, blank_after := m.element.blank_after.append hw }
          refine ⟨[{ m with element := y }], by simp, ?_, rfl, ?_⟩
          · simp [y, Member.padded, Element.padded]
          · simpa [y] using hvalues m (by simp)
      | cons m' members =>
          have hrest := ih (by simp) fun z hz ↦ hvalues z (by simp [hz])
          rw [List.map_cons, List.map_cons, commaSeparated_cons_append]
          exact .cons (hvalues m (by simp)) hrest

end Lists

/-! ## Characters of documents -/

/-- The characters of documents, none of which is NUL. -/
def Visible (s : List Char) : Prop := '\x00' ∉ s

theorem Visible.append {s t : List Char} (hs : Visible s) (ht : Visible t) : Visible (s ++ t) := by
  simpa [Visible] using ⟨hs, ht⟩

theorem Visible.cons {c : Char} {s : List Char} (hc : c ≠ '\x00') (hs : Visible s) :
    Visible (c :: s) := by
  simpa [Visible] using ⟨Ne.symm hc, hs⟩

theorem Blank.visible {w : List Char} (hw : Blank w) : Visible w :=
  fun h ↦ absurd (hw _ h) (by decide)

theorem visible_of_isDigit {digits : List Char} (h : ∀ c ∈ digits, c.isDigit = true) :
    Visible digits :=
  fun hmem ↦ absurd (h _ hmem) (by decide)

theorem visible_of_hexNumber {digits : List Char} {n code : ℕ}
    (h : hexNumber n digits = some code) : Visible digits := by
  induction digits generalizing n with
  | nil => simp [Visible]
  | cons c digits ih =>
      obtain ⟨d, hd, hrest⟩ := Option.bind_eq_some_iff.mp h
      refine .cons ?_ (ih hrest)
      rintro rfl
      cases hd

theorem Piece.visible {t u : List Char} (h : Piece t u) : Visible t := by
  have hescape {s : List Char} (hs : Visible s) : Visible ('\\' :: s) := .cons (by decide) hs
  have hunicode {s : List Char} (hs : Visible s) : Visible ('\\' :: 'u' :: s) :=
    hescape (.cons (by decide) hs)
  cases h with
  | plain hc =>
      refine .cons ?_ (by simp [Visible])
      rintro rfl
      exact absurd hc (by decide)
  | escape h =>
      refine hescape (.cons ?_ (by simp [Visible]))
      rintro rfl
      cases h
  | unicode _ h => exact hunicode (visible_of_hexNumber h)
  | pair _ h _ _ h' =>
      exact (hunicode (visible_of_hexNumber h)).append (hunicode (visible_of_hexNumber h'))

theorem Characters.visible {t s : List Char} (h : Characters t s) : Visible t := by
  induction h with
  | nil => simp [Visible]
  | cons hpiece _ ih => exact hpiece.visible.append ih

theorem Numeral.visible (n : Numeral) : Visible n.text := by
  have hsign : Visible (signText n.minus) := by cases n.minus <;> simp [signText, Visible]
  have hfraction : Visible (fractionText n.fraction) := by
    unfold fractionText
    split
    · simp [Visible]
    · exact .cons (by decide) (visible_of_isDigit n.fraction_isDigit)
  have hexponent : Visible (exponentText n.exponent) := by
    cases n.exponent with
    | none => simp [exponentText, Visible]
    | some e =>
        have hdigits := visible_of_isDigit e.isDigit
        rcases e.letter_e with hletter | hletter <;>
          rcases e.sign_sign with hsign | hsign | hsign <;>
          simp only [exponentText, Exponent.text, hletter, hsign] <;>
          simpa [Visible] using hdigits
  have hinteger := visible_of_isDigit n.integer_text.isDigit
  exact ((hsign.append hinteger).append hfraction).append hexponent

theorem visible_commaSeparated {texts : List (List Char)} (h : ∀ t ∈ texts, Visible t) :
    Visible (commaSeparated texts) := by
  intro hmem
  rcases mem_intercalate hmem with heq | ⟨t, ht, hc⟩
  · exact absurd heq (by decide)
  · exact h t ht hc

theorem Element.visible (x : Element) (h : Visible x.text) : Visible x.padded :=
  (x.blank_before.visible.append h).append x.blank_after.visible

theorem Member.visible (m : Member) (h : Visible m.element.text) : Visible m.padded := by
  rw [← List.append_nil m.padded, m.padded_append]
  exact m.blank_before.visible.append (.cons (by decide) (m.characters.visible.append
    (.cons (by decide) (m.blank_after.visible.append
      (.cons (by decide) ((m.element.visible h).append (by simp [Visible])))))))

theorem IsValue.visible {reads : Numeral → Value → Prop} {t : List Char} {v : Value}
    (h : IsValue reads t v) : Visible t := by
  have hclosed {a b : Char} {s : List Char} (ha : a ≠ '\x00') (hb : b ≠ '\x00') (hs : Visible s) :
      Visible (a :: s ++ [b]) := (Visible.cons ha hs).append (.cons hb (by simp [Visible]))
  induction h with
  | null | bool_true | bool_false => simp [Visible]
  | @number n v h => exact n.visible
  | string h => exact hclosed (by decide) (by decide) h.visible
  | emptyArray hw => exact hclosed (by decide) (by decide) hw.visible
  | array hne h ih =>
      refine hclosed (by decide) (by decide) (visible_commaSeparated fun t ht ↦ ?_)
      obtain ⟨x, hx, rfl⟩ := List.mem_map.mp ht
      exact x.visible (ih x hx)
  | emptyObject hw => exact hclosed (by decide) (by decide) hw.visible
  | object hne h ih =>
      refine hclosed (by decide) (by decide) (visible_commaSeparated fun t ht ↦ ?_)
      obtain ⟨m, hm, rfl⟩ := List.mem_map.mp ht
      exact m.visible (ih m hm)

/-! ## Documents -/

def IsDocument (reads : Numeral → Value → Prop) (text : List Char) (v : Value) : Prop :=
  ∃ x : Element, text = x.padded ∧ x.value = v ∧ IsValue reads x.text x.value

theorem IsDocument.visible {reads : Numeral → Value → Prop} {text : List Char} {v : Value}
    (h : IsDocument reads text v) : Visible text := by
  obtain ⟨x, rfl, -, hx⟩ := h
  exact x.visible hx.visible

theorem IsValue.isDocument {reads : Numeral → Value → Prop} {t : List Char} {v : Value}
    (h : IsValue reads t v) : IsDocument reads t v :=
  ⟨⟨[], t, [], v, .nil, .nil⟩, by simp [Element.padded], rfl, h⟩

end IqrfDaemon.Json.Grammar
