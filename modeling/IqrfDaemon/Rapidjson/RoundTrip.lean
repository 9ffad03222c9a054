import IqrfDaemon.Rapidjson.Errors
import IqrfDaemon.Rapidjson.Writer

/-!
# What is written is read again

The pretty writer puts documents of the grammar, so that the reader returns the value
that was written, with its doubles as they were printed.
-/

namespace IqrfDaemon.Rapidjson

open Json Grammar Text PrettyWriter

variable {dbl : Doubles}

/-! ## Strings -/

theorem hexNumber_control : ∀ n < 32, hexNumber 0
    ['0', '0', hexDigits.getD (n >>> 4) '0', hexDigits.getD (n &&& 0xF) '0'] = some n := by
  decide

theorem piece_escapedText (c : Char) : Piece (escapedText c) [c] := by
  have hcode : Char.ofNat c.toNat = c := Char.ofNat_toNat c
  unfold escapedText escape
  split_ifs <;> subst_vars
  · exact .escape rfl
  · exact .escape rfl
  · exact .escape rfl
  · exact .escape rfl
  · exact .escape rfl
  · next hcontrol =>
      have hutf8 : utf8 c.toNat = [c] := by
        rw [utf8, if_pos (by omega), List.map_singleton, hcode]
      rw [← hutf8]
      refine .unicode rfl (hexNumber_control c.toNat hcontrol) ?_
      unfold IsLead
      omega
  · exact .escape rfl
  · exact .escape rfl
  · exact .plain (by omega) (by assumption) (by assumption)

theorem characters_escapedText (s : List Char) : Characters (s.flatMap escapedText) s := by
  induction s with
  | nil => exact .nil
  | cons c s ih => exact .cons (piece_escapedText c) ih

/-! ## Integers -/

theorem magnitude_toDigits (n : ℕ) : magnitude (Nat.toDigits 10 n) = n := by
  have hvalue : Nat.ofDigitChars 10 (Nat.toDigits 10 n) 0 = n := Nat.ofDigitChars_ten_toDigits
  rwa [Nat.ofDigitChars_eq_foldl] at hvalue

theorem toDigits_leading_zero {n : ℕ} (h : (Nat.toDigits 10 n).head? = some '0') :
    Nat.toDigits 10 n = ['0'] := by
  induction n using Nat.strong_induction_on with
  | _ n ih =>
      rw [Nat.toDigits_eq_if (by decide)] at h ⊢
      split at h
      case isTrue hlt =>
        rw [if_pos hlt]
        simpa using h
      case isFalse hle =>
        exfalso
        have hhead : (Nat.toDigits 10 (n / 10)).head? = some '0' := by
          rwa [List.head?_append_of_ne_nil _ Nat.toDigits_ne_nil] at h
        have hzero := magnitude_toDigits (n / 10)
        rw [ih (n / 10) (by omega) hhead] at hzero
        have : 0 = n / 10 := hzero
        omega

/-- The numeral that an integer is written as. -/
def integerNumeral (n : ℤ) : Numeral where
  minus := n < 0
  integer := Nat.toDigits 10 n.natAbs
  fraction := []
  exponent := none
  integer_text := ⟨Nat.toDigits_ne_nil, isDigit_toDigits _, toDigits_leading_zero⟩
  fraction_isDigit := by simp

theorem integerNumeral_text (n : ℤ) : (integerNumeral n).text = (toString n).toList := by
  have htext : (integerNumeral n).text =
      signText (decide (n < 0)) ++ Nat.toDigits 10 n.natAbs := by
    simp [Numeral.text, integerNumeral, fractionText, exponentText]
  rw [htext]
  cases n with
  | ofNat m =>
      rw [Int.ofNat_eq_natCast, toList_toString_natCast, decide_eq_false (by omega)]
      rfl
  | negSucc m =>
      have hstring : toString (Int.negSucc m) = "-" ++ Nat.repr (m + 1) := rfl
      rw [decide_eq_true (Int.negSucc_lt_zero m), hstring, String.toList_append, Nat.toList_repr]
      rfl

/-- The integers that the document keeps. -/
def IsInteger64 (n : ℤ) : Prop := -2 ^ 63 ≤ n ∧ n < 2 ^ 64

theorem reads_integerNumeral {n : ℤ} (h : IsInteger64 n) :
    Reads dbl (integerNumeral n) (.int n) := by
  obtain ⟨hmin, hmax⟩ := h
  have hmagnitude : magnitude (integerNumeral n).integer = n.natAbs := magnitude_toDigits _
  have hle : magnitude (integerNumeral n).integer ≤ maxInteger (integerNumeral n).minus := by
    rw [hmagnitude, maxInteger]
    change n.natAbs ≤ if decide (n < 0) = true then _ else _
    split
    case isTrue hneg =>
      rw [decide_eq_true_eq] at hneg
      omega
    case isFalse hneg =>
      rw [decide_eq_true_eq] at hneg
      omega
  refine ⟨⟨.of_le ?_, ?_⟩, ?_⟩
  · exact hle
  · exact fun e he ↦ by cases he
  · rw [valueOf, if_pos ⟨⟨rfl, rfl⟩, hle⟩, Numeral.integerValue, hmagnitude]
    change Value.int n = Value.int (if decide (n < 0) = true then _ else _)
    split
    case isTrue hneg =>
      rw [decide_eq_true_eq] at hneg
      congr 1
      omega
    case isFalse hneg =>
      rw [decide_eq_true_eq] at hneg
      congr 1
      omega

/-! ## Values -/

mutual

/-- A value as it is read again, with its doubles as they are printed. -/
def reread (dbl : Doubles) : Value → Value
  | .null => .null
  | .bool b => .bool b
  | .int n => .int n
  | .real text => .real (String.ofList ((dbl.dtoa text).getD text.toList))
  | .string s => .string s
  | .array items => .array (rereadItems dbl items)
  | .object members => .object (rereadMembers dbl members)

def rereadItems (dbl : Doubles) : List Value → List Value
  | [] => []
  | v :: items => reread dbl v :: rereadItems dbl items

def rereadMembers (dbl : Doubles) : List (String × Value) → List (String × Value)
  | [] => []
  | (name, v) :: members => (name, reread dbl v) :: rereadMembers dbl members

end

/-- The integers of a value have at most 64 bits, and its doubles are finite and printed as
numerals that the reader takes for doubles. -/
inductive Writable (dbl : Doubles) : Value → Prop
  | null : Writable dbl .null
  | bool (b : Bool) : Writable dbl (.bool b)
  | int {n : ℤ} (h : IsInteger64 n) : Writable dbl (.int n)
  | real {text : String} {n : Numeral} (htext : dbl.dtoa text = some n.text)
      (hreal : ¬n.IsInteger) (hfits : Fits dbl n) : Writable dbl (.real text)
  | string (s : String) : Writable dbl (.string s)
  | array {items : List Value} (h : ∀ v ∈ items, Writable dbl v) : Writable dbl (.array items)
  | object {members : List (String × Value)} (h : ∀ m ∈ members, Writable dbl m.2) :
      Writable dbl (.object members)

/-! ## What is put in front of a value -/

def separator (n : ℕ) : List Char := if 0 < n then [','] else []

def newline (depth : ℕ) : List Char := '\n' :: indent depth

theorem blank_newline (depth : ℕ) : Blank (newline depth) := by
  refine .cons (by decide) fun c hc ↦ ?_
  obtain rfl := List.eq_of_mem_replicate hc
  rfl

section Prefix

variable {w : PrettyWriter} {levels : List Level} {n : ℕ}

theorem prettyPrefix_root (hlevels : w.levelStack = []) (hroot : w.hasRoot = false) (type : Kind) :
    w.prettyPrefix type = .ok { w with hasRoot := true } := by
  rw [prettyPrefix, hlevels]
  simp [hroot]

theorem prettyPrefix_item (hlevels : w.levelStack = ⟨n, true⟩ :: levels) (type : Kind) :
    w.prettyPrefix type = .ok ({ w with levelStack := ⟨n + 1, true⟩ :: levels }.put
      (separator n ++ newline (levels.length + 1))) := by
  rw [prettyPrefix, hlevels]
  by_cases hn : 0 < n <;> simp [writeIndent, put, hlevels, separator, newline, hn]

theorem prettyPrefix_name (hlevels : w.levelStack = ⟨2 * n, false⟩ :: levels) :
    w.prettyPrefix .string = .ok ({ w with levelStack := ⟨2 * n + 1, false⟩ :: levels }.put
      (separator n ++ newline (levels.length + 1))) := by
  rw [prettyPrefix, hlevels]
  by_cases hn : 0 < n <;> simp [writeIndent, put, hlevels, separator, newline, hn]

theorem prettyPrefix_member (hlevels : w.levelStack = ⟨2 * n + 1, false⟩ :: levels)
    (type : Kind) : w.prettyPrefix type =
      .ok ({ w with levelStack := ⟨2 * n + 2, false⟩ :: levels }.put [':', ' ']) := by
  have hodd : (2 * n + 1) % 2 = 1 := by omega
  rw [prettyPrefix, hlevels]
  simp [put, hodd]

theorem endLevel_empty {inArray : Bool} (hlevels : w.levelStack = ⟨0, inArray⟩ :: levels)
    (bracket : Char) :
    w.endLevel inArray bracket = .ok ({ w with levelStack := levels }.put [bracket]) := by
  rw [endLevel, hlevels]
  simp

theorem endLevel_newline {inArray : Bool} (hlevels : w.levelStack = ⟨n + 1, inArray⟩ :: levels)
    (bracket : Char) : w.endLevel inArray bracket =
      .ok ({ w with levelStack := levels }.put (newline levels.length ++ [bracket])) := by
  rw [endLevel, hlevels]
  simp [writeIndent, put, newline]

theorem exists_endLevel {inArray : Bool} (hlevels : w.levelStack = ⟨n, inArray⟩ :: levels)
    (bracket : Char) :
    ∃ t, w.endLevel inArray bracket = .ok ({ w with levelStack := levels }.put t) := by
  cases n with
  | zero => exact ⟨_, endLevel_empty hlevels bracket⟩
  | succ n => exact ⟨_, endLevel_newline hlevels bracket⟩

end Prefix

/-! ## The writer puts documents -/

/-- Wherever a value may stand, the writer puts a text of the value as it is read again. -/
def IsWritten (dbl : Doubles) (v : Value) : Prop :=
  ∀ w w' : PrettyWriter, (∀ type, w.prettyPrefix type = .ok w') →
    ∃ t, IsValue (Reads dbl) t (reread dbl v) ∧ accept dbl v w = .ok (w'.put t)

theorem acceptItems_elements {items : List Value} (hne : items ≠ [])
    (h : ∀ v ∈ items, IsWritten dbl v) {w : PrettyWriter} {n : ℕ} {levels : List Level}
    (hlevels : w.levelStack = ⟨n, true⟩ :: levels) :
    ∃ t, IsElements (Reads dbl) t (rereadItems dbl items) ∧ acceptItems dbl items w =
      .ok ({ w with levelStack := ⟨n + items.length, true⟩ :: levels }.put (separator n ++ t)) := by
  induction items generalizing w n with
  | nil => exact absurd rfl hne
  | cons v items ih =>
      obtain ⟨t, ht, haccept⟩ := h v (by simp) _ _ (prettyPrefix_item hlevels)
      let x : Element := ⟨newline (levels.length + 1), t, [], reread dbl v, blank_newline _, .nil⟩
      have hx : x.padded = newline (levels.length + 1) ++ t := by simp [x, Element.padded]
      rw [acceptItems, haccept]
      change ∃ t, _ ∧ acceptItems dbl items _ = _
      cases items with
      | nil =>
          refine ⟨x.padded, .singleton (x := x) ht, ?_⟩
          rw [acceptItems, put_put, hx, List.append_assoc]
          rfl
      | cons v' items =>
          obtain ⟨t', ht', hrest⟩ := ih (by simp) (fun u hu ↦ h u (by simp [hu]))
            (w := ({ w with levelStack := ⟨n + 1, true⟩ :: levels }.put
              (separator n ++ newline (levels.length + 1))).put t) (n := n + 1) rfl
          refine ⟨x.padded ++ ',' :: t', .cons (x := x) ht ht', ?_⟩
          have hcount : n + 1 + (v' :: items).length = n + (v :: v' :: items).length := by
            simp only [List.length_cons]
            omega
          rw [hrest, hcount, hx]
          simp [put, separator]

theorem acceptMembers_members {members : List (String × Value)} (hne : members ≠ [])
    (h : ∀ m ∈ members, IsWritten dbl m.2) {w : PrettyWriter} {n : ℕ} {levels : List Level}
    (hlevels : w.levelStack = ⟨2 * n, false⟩ :: levels) :
    ∃ t, IsMembers (Reads dbl) t (rereadMembers dbl members) ∧ acceptMembers dbl members w =
      .ok ({ w with levelStack := ⟨2 * (n + members.length), false⟩ :: levels }.put
        (separator n ++ t)) := by
  induction members generalizing w n with
  | nil => exact absurd rfl hne
  | cons m members ih =>
      obtain ⟨name, v⟩ := m
      have hkey : w.key name = .ok (({ w with levelStack := ⟨2 * n + 1, false⟩ :: levels }.put
          (separator n ++ newline (levels.length + 1))).writeString name) := by
        rw [key, PrettyWriter.string, prettyPrefix_name hlevels]
        rfl
      obtain ⟨t, ht, haccept⟩ := h (name, v) (by simp) _ _ (prettyPrefix_member
        (w := ({ w with levelStack := ⟨2 * n + 1, false⟩ :: levels }.put
          (separator n ++ newline (levels.length + 1))).writeString name) rfl)
      let x : Element := ⟨[' '], t, [], reread dbl v, .cons rfl .nil, .nil⟩
      let m : Member := ⟨newline (levels.length + 1), name.toList.flatMap escapedText, name.toList,
        [], x, blank_newline _, characters_escapedText _, .nil⟩
      have hm : m.padded = newline (levels.length + 1) ++
          ('"' :: name.toList.flatMap escapedText ++ ['"']) ++ [':', ' '] ++ t := by
        simp [m, x, Member.padded, Element.padded]
      have hentry : m.entry = (name, reread dbl v) := by simp [m, x, Member.entry]
      rw [acceptMembers, hkey]
      change ∃ t, _ ∧ (accept dbl v _ >>= _) = _
      rw [haccept]
      change ∃ t, _ ∧ acceptMembers dbl members _ = _
      cases members with
      | nil =>
          refine ⟨m.padded, ?_, ?_⟩
          · rw [rereadMembers, rereadMembers, ← hentry]
            exact .singleton (m := m) ht
          · rw [acceptMembers, hm]
            simp [put, writeString, Nat.mul_add]
      | cons m' members =>
          obtain ⟨t', ht', hrest⟩ := ih (by simp) (fun u hu ↦ h u (by simp [hu]))
            (w := (({ ({ w with levelStack := ⟨2 * n + 1, false⟩ :: levels }.put
                (separator n ++ newline (levels.length + 1))).writeString name with
              levelStack := ⟨2 * n + 2, false⟩ :: levels }).put [':', ' ']).put t)
            (n := n + 1) rfl
          have hcount : n + 1 + (m' :: members).length =
              n + ((name, v) :: m' :: members).length := by
            simp only [List.length_cons]
            omega
          refine ⟨m.padded ++ ',' :: t', ?_, ?_⟩
          · rw [rereadMembers, ← hentry]
            exact .cons (m := m) ht ht'
          · rw [hrest, hcount, hm]
            simp [put, writeString, separator]

theorem isWritten_of_writable {v : Value} (h : Writable dbl v) : IsWritten dbl v := by
  induction h with
  | null =>
      intro w w' hprefix
      refine ⟨_, .null, ?_⟩
      rw [accept, PrettyWriter.null, hprefix]
      rfl
  | bool b =>
      intro w w' hprefix
      cases b with
      | false =>
          refine ⟨_, .bool_false, ?_⟩
          rw [accept, PrettyWriter.bool, hprefix]
          rfl
      | true =>
          refine ⟨_, .bool_true, ?_⟩
          rw [accept, PrettyWriter.bool, hprefix]
          rfl
  | @int n h =>
      intro w w' hprefix
      refine ⟨_, .number (reads_integerNumeral h), ?_⟩
      rw [accept, integer, hprefix, integerNumeral_text]
      rfl
  | @real text n htext hreal hfits =>
      intro w w' hprefix
      have hvalue : reread dbl (.real text) = valueOf n := by
        rw [reread, htext, valueOf, if_neg fun hint ↦ hreal hint.1]
        rfl
      refine ⟨n.text, hvalue ▸ .number ⟨hfits, rfl⟩, ?_⟩
      rw [accept, double, hprefix]
      change w'.writeDouble dbl text = _
      rw [writeDouble, htext]
  | string s =>
      intro w w' hprefix
      refine ⟨'"' :: s.toList.flatMap escapedText ++ ['"'], ?_, ?_⟩
      · rw [reread]
        simpa using @IsValue.string (Reads dbl) _ _ (characters_escapedText s.toList)
      · rw [accept, PrettyWriter.string, hprefix]
        rfl
  | @array items h ih =>
      intro w w' hprefix
      have hstart : w.startArray = .ok ((w'.push true).put ['[']) := by
        rw [startArray, hprefix]
        rfl
      have hlevels : ((w'.push true).put ['[']).levelStack = ⟨0, true⟩ :: w'.levelStack := rfl
      rw [accept, hstart]
      change ∃ t, _ ∧ (acceptItems dbl items _ >>= _) = _
      by_cases hne : items = []
      · subst hne
        refine ⟨_, .emptyArray .nil, ?_⟩
        rw [acceptItems]
        exact (endLevel_empty hlevels _).trans (by simp [put, push])
      · obtain ⟨t, ht, hitems⟩ := acceptItems_elements hne ih hlevels
        refine ⟨_, (ht.append_blank (blank_newline w'.levelStack.length)).isValue, ?_⟩
        obtain ⟨k, hk⟩ := Nat.exists_eq_succ_of_ne_zero (mt List.length_eq_zero_iff.mp hne)
        have hcounted : ({ (w'.push true).put ['['] with
            levelStack := ⟨0 + items.length, true⟩ :: w'.levelStack }.put
              (separator 0 ++ t)).levelStack = ⟨k + 1, true⟩ :: w'.levelStack := by simp [hk]
        rw [hitems]
        exact (endLevel_newline hcounted _).trans (by simp [put, push, separator])
  | @object members h ih =>
      intro w w' hprefix
      have hstart : w.startObject = .ok ((w'.push false).put ['{']) := by
        rw [startObject, hprefix]
        rfl
      have hlevels : ((w'.push false).put ['{']).levelStack = ⟨2 * 0, false⟩ :: w'.levelStack :=
        rfl
      rw [accept, hstart]
      change ∃ t, _ ∧ (acceptMembers dbl members _ >>= _) = _
      by_cases hne : members = []
      · subst hne
        refine ⟨_, .emptyObject .nil, ?_⟩
        rw [acceptMembers]
        exact (endLevel_empty hlevels _).trans (by simp [put, push])
      · obtain ⟨t, ht, hmembers⟩ := acceptMembers_members hne ih hlevels
        refine ⟨_, (ht.append_blank (blank_newline w'.levelStack.length)).isValue, ?_⟩
        obtain ⟨k, hk⟩ := Nat.exists_eq_succ_of_ne_zero (mt List.length_eq_zero_iff.mp hne)
        have hcounted : ({ (w'.push false).put ['{'] with
            levelStack := ⟨2 * (0 + members.length), false⟩ :: w'.levelStack }.put
              (separator 0 ++ t)).levelStack = ⟨2 * k + 1 + 1, false⟩ :: w'.levelStack := by
          simp [hk]
          omega
        rw [hmembers]
        exact (endLevel_newline hcounted _).trans (by simp [put, push, separator])

/-! ## Every value -/

/-- Some double in the value is not finite. -/
def HasInfinite (dbl : Doubles) (v : Value) : Prop :=
  ∃ text, Inside (.real text) v ∧ dbl.dtoa text = none

/-- A result in a level: complete, with the level as it is then, or declined for a double. -/
def Ends (w : PrettyWriter) (infinite : Prop) (r : Handled) : Prop :=
  (∃ t, r = .ok (w.put t)) ∨ infinite ∧ ∃ t, r = .error (.declined t)

/-- Wherever a value may stand, no assertion is violated. -/
def IsHandled (dbl : Doubles) (v : Value) : Prop :=
  ∀ w w' : PrettyWriter, (∀ type, w.prettyPrefix type = .ok w') →
    Ends w' (HasInfinite dbl v) (accept dbl v w)

theorem ends_acceptItems {items : List Value} (h : ∀ v ∈ items, IsHandled dbl v)
    {w : PrettyWriter} {n : ℕ} {levels : List Level}
    (hlevels : w.levelStack = ⟨n, true⟩ :: levels) :
    Ends { w with levelStack := ⟨n + items.length, true⟩ :: levels }
      (∃ v ∈ items, HasInfinite dbl v) (acceptItems dbl items w) := by
  induction items generalizing w n with
  | nil =>
      refine .inl ⟨[], ?_⟩
      rw [acceptItems, put_nil]
      congr 1
      rw [List.length_nil, Nat.add_zero, ← hlevels]
  | cons v items ih =>
      rw [acceptItems]
      rcases h v (by simp) _ _ (prettyPrefix_item hlevels) with ⟨t, ht⟩ | ⟨hinfinite, w', hw'⟩
      · have hrest := ih (fun u hu ↦ h u (by simp [hu]))
          (w := ({ w with levelStack := ⟨n + 1, true⟩ :: levels }.put
            (separator n ++ newline (levels.length + 1))).put t) (n := n + 1) rfl
        have hcount : n + 1 + items.length = n + (v :: items).length := by
          rw [List.length_cons]
          omega
        rw [hcount] at hrest
        rw [ht]
        change Ends _ _ (acceptItems dbl items _)
        rcases hrest with ⟨t', ht'⟩ | ⟨⟨u, hu, hinfinite⟩, w', hw'⟩
        · exact .inl ⟨separator n ++ newline (levels.length + 1) ++ t ++ t', by
            rw [ht']
            simp [put]⟩
        · exact .inr ⟨⟨u, by simp [hu], hinfinite⟩, w', hw'⟩
      · rw [hw']
        exact .inr ⟨⟨v, by simp, hinfinite⟩, w', rfl⟩

theorem ends_acceptMembers {members : List (String × Value)}
    (h : ∀ m ∈ members, IsHandled dbl m.2) {w : PrettyWriter} {n : ℕ} {levels : List Level}
    (hlevels : w.levelStack = ⟨2 * n, false⟩ :: levels) :
    Ends { w with levelStack := ⟨2 * (n + members.length), false⟩ :: levels }
      (∃ m ∈ members, HasInfinite dbl m.2) (acceptMembers dbl members w) := by
  induction members generalizing w n with
  | nil =>
      refine .inl ⟨[], ?_⟩
      rw [acceptMembers, put_nil]
      congr 1
      rw [List.length_nil, Nat.add_zero, ← hlevels]
  | cons m members ih =>
      obtain ⟨name, v⟩ := m
      let named : PrettyWriter := ({ w with levelStack := ⟨2 * n + 1, false⟩ :: levels }.put
        (separator n ++ newline (levels.length + 1))).writeString name
      have hkey : w.key name = .ok named := by
        rw [key, PrettyWriter.string, prettyPrefix_name hlevels]
        rfl
      rw [acceptMembers, hkey]
      change Ends _ _ (accept dbl v named >>= _)
      rcases h (name, v) (by simp) _ _ (prettyPrefix_member (w := named) rfl) with
        ⟨t, ht⟩ | ⟨hinfinite, w', hw'⟩
      · have hrest := ih (fun u hu ↦ h u (by simp [hu]))
          (w := ({ named with levelStack := ⟨2 * n + 2, false⟩ :: levels }.put [':', ' ']).put t)
          (n := n + 1) rfl
        have hcount : n + 1 + members.length = n + ((name, v) :: members).length := by
          rw [List.length_cons]
          omega
        rw [hcount] at hrest
        rw [ht]
        change Ends _ _ (acceptMembers dbl members _)
        rcases hrest with ⟨t', ht'⟩ | ⟨⟨u, hu, hinfinite⟩, w', hw'⟩
        · exact .inl ⟨separator n ++ newline (levels.length + 1) ++
            ('"' :: name.toList.flatMap escapedText ++ ['"']) ++ [':', ' '] ++ t ++ t', by
            rw [ht']
            simp [put, named, writeString]⟩
        · exact .inr ⟨⟨u, by simp [hu], hinfinite⟩, w', hw'⟩
      · rw [hw']
        exact .inr ⟨⟨(name, v), by simp, hinfinite⟩, w', rfl⟩

theorem isHandled (v : Value) : IsHandled dbl v := by
  induction v using value_induction with
  | null =>
      intro w w' hprefix
      refine .inl ⟨['n', 'u', 'l', 'l'], ?_⟩
      rw [accept, PrettyWriter.null, hprefix]
      rfl
  | bool b =>
      intro w w' hprefix
      rw [accept, PrettyWriter.bool, hprefix]
      cases b <;> exact .inl ⟨_, rfl⟩
  | int n =>
      intro w w' hprefix
      refine .inl ⟨(toString n).toList, ?_⟩
      rw [accept, integer, hprefix]
      rfl
  | real text =>
      intro w w' hprefix
      rw [accept, double, hprefix]
      change Ends w' _ (w'.writeDouble dbl text)
      cases htext : dbl.dtoa text with
      | none =>
          refine .inr ⟨⟨text, .refl _, htext⟩, w', ?_⟩
          rw [writeDouble, htext]
      | some t =>
          refine .inl ⟨t, ?_⟩
          rw [writeDouble, htext]
  | string s =>
      intro w w' hprefix
      refine .inl ⟨'"' :: s.toList.flatMap escapedText ++ ['"'], ?_⟩
      rw [accept, PrettyWriter.string, hprefix]
      rfl
  | array items ih =>
      intro w w' hprefix
      have hstart : w.startArray = .ok ((w'.push true).put ['[']) := by
        rw [startArray, hprefix]
        rfl
      have hlevels : ((w'.push true).put ['[']).levelStack = ⟨0, true⟩ :: w'.levelStack := rfl
      rw [accept, hstart]
      rcases ends_acceptItems ih hlevels with ⟨t, ht⟩ | ⟨⟨v, hv, text, htext, hnone⟩, s, hs⟩
      · refine .inl ?_
        change ∃ t, (acceptItems dbl items _ >>= _) = _
        rw [ht]
        obtain ⟨t', ht'⟩ := exists_endLevel (w := { (w'.push true).put ['['] with
          levelStack := ⟨0 + items.length, true⟩ :: w'.levelStack }.put t) rfl ']'
        exact ⟨'[' :: t ++ t', ht'.trans (by simp [put, push])⟩
      · refine .inr ⟨⟨text, .item hv htext, hnone⟩, s, ?_⟩
        change (acceptItems dbl items _ >>= _) = _
        rw [hs]
        rfl
  | object members ih =>
      intro w w' hprefix
      have hstart : w.startObject = .ok ((w'.push false).put ['{']) := by
        rw [startObject, hprefix]
        rfl
      have hlevels : ((w'.push false).put ['{']).levelStack = ⟨2 * 0, false⟩ :: w'.levelStack :=
        rfl
      rw [accept, hstart]
      rcases ends_acceptMembers ih hlevels with ⟨t, ht⟩ | ⟨⟨m, hm, text, htext, hnone⟩, s, hs⟩
      · refine .inl ?_
        change ∃ t, (acceptMembers dbl members _ >>= _) = _
        rw [ht]
        obtain ⟨t', ht'⟩ := exists_endLevel (w := { (w'.push false).put ['{'] with
          levelStack := ⟨2 * (0 + members.length), false⟩ :: w'.levelStack }.put t) rfl '}'
        exact ⟨'{' :: t ++ t', ht'.trans (by simp [put, push])⟩
      · refine .inr ⟨⟨text, .member hm htext, hnone⟩, s, ?_⟩
        change (acceptMembers dbl members _ >>= _) = _
        rw [hs]
        rfl

theorem prettyPrefix_emptyWriter (type : Kind) :
    emptyWriter.prettyPrefix type = .ok { emptyWriter with hasRoot := true } :=
  prettyPrefix_root rfl rfl type

theorem accept_ne_abort (dbl : Doubles) (v : Value) : accept dbl v emptyWriter ≠ .error .abort := by
  rcases isHandled v _ _ prettyPrefix_emptyWriter with ⟨t, ht⟩ | ⟨-, w, hw⟩
  · rw [ht]
    exact nofun
  · rw [hw]
    exact nofun

/-- The assertions of the writer hold for every value. -/
theorem exists_prettyWriter (dbl : Doubles) (v : Value) :
    ∃ text, prettyWriter dbl v = .ok text := by
  have hne := accept_ne_abort dbl v
  rw [prettyWriter]
  split
  · exact ⟨_, rfl⟩
  · exact ⟨_, rfl⟩
  · exact absurd ‹_› hne

/-- What is written is a document of the value as it is read again. -/
theorem isDocument_prettyWriter {v : Value} (h : Writable dbl v) :
    ∃ text, prettyWriter dbl v = .ok text ∧ '\x00' ∉ text.toList ∧
      IsDocument (Reads dbl) text.toList (reread dbl v) := by
  obtain ⟨t, ht, haccept⟩ := isWritten_of_writable h _ _ prettyPrefix_emptyWriter
  have hnul : '\x00' ∉ (String.ofList t).toList := by
    rw [String.toList_ofList]
    exact ht.visible
  refine ⟨String.ofList t, ?_, hnul, by rw [String.toList_ofList]; exact ht.isDocument⟩
  rw [prettyWriter, haccept]
  exact congrArg Except.ok (cString_eq_self hnul)

theorem parseDocument_of_isDocument {text : String} {v : Value} (hnul : '\x00' ∉ text.toList)
    (h : IsDocument (Reads dbl) text.toList v) (par : String → String → String) :
    parseDocument dbl par text = .ok v := by
  rw [parseDocument_of_parseText, cString_eq_self hnul]
  exact parseText_eq_ok_iff.mpr h

/-- The round trip: the text that is written is parsed as the value, and the doubles are those
that were printed. -/
theorem parseDocument_prettyWriter {v : Value} (h : Writable dbl v)
    (par : String → String → String) : ∃ text, prettyWriter dbl v = .ok text ∧
      parseDocument dbl par text = .ok (reread dbl v) := by
  obtain ⟨text, htext, hnul, hdocument⟩ := isDocument_prettyWriter h
  exact ⟨text, htext, parseDocument_of_isDocument hnul hdocument par⟩

/-- The numeral 1.5. -/
def oneAndAHalf : Numeral where
  minus := false
  integer := ['1']
  fraction := ['5']
  exponent := none
  integer_text := ⟨by decide, by decide, by decide⟩
  fraction_isDigit := by decide

/-- Doubles of which only 1.50 is finite. -/
def plainDoubles : Doubles where
  atLimit _ n := decide (17976931348623157 * 10 ^ 291 ≤ n)
  dtoa text := if text = "1.50" then some oneAndAHalf.text else none

theorem fits_oneAndAHalf : Fits plainDoubles oneAndAHalf :=
  ⟨.of_le (by decide), fun e he ↦ by cases he⟩

theorem parseDocument_prettyWriter_half :
    ∃ text, prettyWriter plainDoubles (.object [("id", .int (-7)),
        ("values", .array [.real "1.50", .null]), ("text", .string "a\n\"b\"")]) = .ok text ∧
      parseDocument plainDoubles (· ++ ·) text = .ok (.object [("id", .int (-7)),
        ("values", .array [.real "1.5", .null]), ("text", .string "a\n\"b\"")]) := by
  have hreal : Writable plainDoubles (.real "1.50") :=
    .real (n := oneAndAHalf) rfl (by decide) fits_oneAndAHalf
  refine parseDocument_prettyWriter (.object fun m hm ↦ ?_) (· ++ ·)
  simp only [List.mem_cons, List.not_mem_nil, or_false] at hm
  rcases hm with rfl | rfl | rfl
  · exact .int ⟨by decide, by decide⟩
  · refine .array fun v hv ↦ ?_
    simp only [List.mem_cons, List.not_mem_nil, or_false] at hv
    rcases hv with rfl | rfl
    · exact hreal
    · exact .null
  · exact .string _

/-! ## What was read is written -/

/-- `dtoa` prints a finite double with a point or an exponent, and so that the reader takes it. -/
structure Doubles.Prints (dbl : Doubles) : Prop where
  numeral : ∀ {text : String} {t : List Char}, dbl.dtoa text = some t →
    ∃ n : Numeral, t = n.text ∧ ¬n.IsInteger ∧ Fits dbl n

theorem plainDoubles_prints : plainDoubles.Prints where
  numeral := by
    intro text t h
    change (if text = "1.50" then some oneAndAHalf.text else none) = some t at h
    split at h
    · cases h
      exact ⟨oneAndAHalf, rfl, by decide, fits_oneAndAHalf⟩
    · cases h

theorem isInteger64_integerValue {n : Numeral}
    (h : magnitude n.integer ≤ maxInteger n.minus) : IsInteger64 n.integerValue := by
  unfold maxInteger at h
  unfold IsInteger64 Numeral.integerValue
  split at h
  case isTrue hminus =>
    rw [if_pos hminus]
    omega
  case isFalse hminus =>
    rw [if_neg hminus]
    omega

theorem writable_of_isValue (hprints : dbl.Prints) {t : List Char} {v : Value}
    (h : IsValue (Reads dbl) t v) (hfinite : ¬HasInfinite dbl v) : Writable dbl v := by
  induction h with
  | null => exact .null
  | bool_true => exact .bool true
  | bool_false => exact .bool false
  | @number n v h =>
      obtain ⟨-, rfl⟩ := h
      rw [valueOf] at hfinite ⊢
      split
      case isTrue hint => exact .int (isInteger64_integerValue hint.2)
      case isFalse hint =>
        rw [if_neg hint] at hfinite
        obtain ⟨u, hu⟩ := Option.ne_none_iff_exists'.mp fun hnone ↦ hfinite ⟨_, .refl _, hnone⟩
        obtain ⟨n', rfl, hreal, hfits⟩ := hprints.numeral hu
        exact .real hu hreal hfits
  | string _ => exact .string _
  | emptyArray _ => exact .array (by simp)
  | array hne h ih =>
      refine .array fun v hv ↦ ?_
      obtain ⟨x, hx, rfl⟩ := List.mem_map.mp hv
      refine ih x hx ?_
      rintro ⟨text, hinside, hnone⟩
      exact hfinite ⟨text, .item hv hinside, hnone⟩
  | emptyObject _ => exact .object (by simp)
  | object hne h ih =>
      refine .object fun e he ↦ ?_
      obtain ⟨m, hm, rfl⟩ := List.mem_map.mp he
      refine ih m hm ?_
      rintro ⟨text, hinside, hnone⟩
      exact hfinite ⟨text, .member he hinside, hnone⟩

theorem writable_of_parseDocument (hprints : dbl.Prints) {par : String → String → String}
    {text : String} {v : Value} (h : parseDocument dbl par text = .ok v)
    (hfinite : ¬HasInfinite dbl v) : Writable dbl v := by
  obtain ⟨x, -, rfl, hx⟩ := parseText_eq_ok_iff.mp (parseDocument_of_parseText.mp h)
  exact writable_of_isValue hprints hx hfinite

theorem rereadMembers_eq_map (members : List (String × Value)) :
    rereadMembers dbl members = members.map fun m ↦ (m.1, reread dbl m.2) := by
  induction members with
  | nil => rfl
  | cons m members ih => rw [rereadMembers, ih, List.map_cons]

/-- What the parser has accepted can be written out and parsed once more, with nothing but its
doubles printed anew. -/
theorem parseDocument_again (hprints : dbl.Prints) {par : String → String → String}
    {text : String} {v : Value} (h : parseDocument dbl par text = .ok v)
    (hfinite : ¬HasInfinite dbl v) : ∃ text', prettyWriter dbl v = .ok text' ∧
      parseDocument dbl par text' = .ok (reread dbl v) := by
  obtain ⟨text', htext, hnul, hdocument⟩ :=
    isDocument_prettyWriter (writable_of_parseDocument hprints h hfinite)
  exact ⟨text', htext, parseDocument_of_isDocument hnul hdocument par⟩

end IqrfDaemon.Rapidjson
