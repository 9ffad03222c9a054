import IqrfDaemon.Rapidjson.Strings

/-!
# What the reader accepts

The reader takes exactly the documents of the grammar, with its own reading of
numerals, and returns the value that the grammar gives them.  Its fuel is enough for
every text.
-/

namespace IqrfDaemon.Rapidjson

open Json Grammar Text

variable {dbl : Doubles}

/-! ## Heads -/

/-- The characters that a value may start with. -/
def StartsValue (c : Char) : Prop :=
  c = 'n' ∨ c = 't' ∨ c = 'f' ∨ c = '"' ∨ c = '[' ∨ c = '{' ∨ c = '-' ∨ c.isDigit = true

theorem exists_head_numeral (n : Numeral) :
    ∃ c t, n.text = c :: t ∧ (c = '-' ∨ c.isDigit = true) := by
  obtain ⟨hne, hdigit, -⟩ := n.integer_text
  rw [Numeral.text]
  cases hinteger : n.integer with
  | nil => exact absurd hinteger hne
  | cons d digits =>
      cases n.minus with
      | true => exact ⟨'-', _, rfl, .inl rfl⟩
      | false => exact ⟨d, _, rfl, .inr (hdigit d (by simp [hinteger]))⟩

theorem exists_head_value {t : List Char} {v : Value} (h : IsValue (Reads dbl) t v) :
    ∃ c r, t = c :: r ∧ StartsValue c := by
  cases h with
  | @number n v _ =>
      obtain ⟨c, r, htext, hc⟩ := exists_head_numeral n
      refine ⟨c, r, htext, ?_⟩
      rcases hc with rfl | hc
      · simp [StartsValue]
      · simp [StartsValue, hc]
  | _ => exact ⟨_, _, rfl, by simp [StartsValue]⟩

theorem StartsValue.ne {c : Char} (h : StartsValue c) :
    isBlank c = false ∧ c ≠ ']' ∧ c ≠ '}' := by
  rcases h with rfl | rfl | rfl | rfl | rfl | rfl | rfl | hdigit
  · decide
  · decide
  · decide
  · decide
  · decide
  · decide
  · decide
  · simp only [Char.isDigit, Bool.and_eq_true, decide_eq_true_eq] at hdigit
    have hle : 48 ≤ c.toNat ∧ c.toNat ≤ 57 := hdigit
    refine ⟨?_, ?_, ?_⟩
    · by_contra hblank
      rw [Bool.not_eq_false, isBlank] at hblank
      simp only [Bool.or_eq_true, decide_eq_true_eq] at hblank
      rcases hblank with ((rfl | rfl) | rfl) | rfl <;> exact absurd hle (by decide)
    · rintro rfl
      exact absurd hle (by decide)
    · rintro rfl
      exact absurd hle (by decide)

theorem skipWhitespace_value {t : List Char} {v : Value} (h : IsValue (Reads dbl) t v)
    {w : List Char} (hw : Blank w) (s : List Char) : skipWhitespace (w ++ (t ++ s)) = t ++ s := by
  obtain ⟨c, r, rfl, hc⟩ := exists_head_value h
  exact dropWhile_blank_append hw fun d hd ↦ by
    obtain rfl : c = d := by simpa using hd
    exact hc.ne.1

theorem skipWhitespace_append {w s : List Char} (hw : Blank w)
    (hs : ∀ c ∈ s.head?, isBlank c = false) : skipWhitespace (w ++ s) = s :=
  dropWhile_blank_append hw hs

theorem Delimited.blank_append {w s : List Char} (hw : Blank w) (hs : Delimited s) :
    Delimited (w ++ s) := by
  intro c hc
  cases w with
  | nil => exact hs c hc
  | cons d w =>
      obtain rfl : d = c := by simpa using hc
      exact .inl (hw d (by simp))

theorem delimited_comma (s : List Char) : Delimited (',' :: s) := by
  intro c hc
  obtain rfl : ',' = c := by simpa using hc
  exact .inr (.inl rfl)

theorem delimited_square (s : List Char) : Delimited (']' :: s) := by
  intro c hc
  obtain rfl : ']' = c := by simpa using hc
  exact .inr (.inr (.inl rfl))

theorem delimited_curly (s : List Char) : Delimited ('}' :: s) := by
  intro c hc
  obtain rfl : '}' = c := by simpa using hc
  exact .inr (.inr (.inr rfl))

/-! ## The grammar is read -/

/-- Within a document every text of a value is read as the value. -/
def IsRead (dbl : Doubles) (t : List Char) (v : Value) : Prop :=
  ∀ fuel s, 2 * t.length < fuel → Delimited s → parseValue dbl fuel (t ++ s) = .ok (v, s)

theorem parseNumber_default {n : Numeral} {fuel : ℕ} {s : List Char} :
    parseValue dbl (fuel + 1) (n.text ++ s) = parseNumber dbl (n.text ++ s) := by
  obtain ⟨c, t, htext, hc⟩ := exists_head_numeral n
  have hne : c ≠ 'n' ∧ c ≠ 't' ∧ c ≠ 'f' ∧ c ≠ '"' ∧ c ≠ '{' ∧ c ≠ '[' := by
    refine ⟨?_, ?_, ?_, ?_, ?_, ?_⟩ <;> rintro rfl <;> rcases hc with hc | hc <;>
      exact absurd hc (by decide)
  rw [htext, List.cons_append, parseValue]
  all_goals
    rintro r ⟨⟩
    simp at hne

/-- The elements of an array, behind the blanks that have been skipped. -/
theorem parseElements_items {items : List Element} (hne : items ≠ [])
    (hread : ∀ x ∈ items, IsRead dbl x.text x.value)
    (hvalue : ∀ x ∈ items, IsValue (Reads dbl) x.text x.value) {fuel : ℕ}
    (hfuel : 2 * (commaSeparated (items.map Element.padded)).length + 1 < fuel) (s : List Char) :
    parseElements dbl fuel
        (skipWhitespace (commaSeparated (items.map Element.padded) ++ ']' :: s)) =
      .ok (items.map Element.value, s) := by
  induction items generalizing fuel with
  | nil => exact absurd rfl hne
  | cons x items ih =>
      obtain ⟨fuel, rfl⟩ := Nat.exists_eq_succ_of_ne_zero (Nat.ne_of_gt (Nat.zero_lt_of_lt hfuel))
      have hx := hread x (by simp)
      have hxvalue := hvalue x (by simp)
      have hlength := x.length_text_le
      cases items with
      | nil =>
          rw [List.map_singleton, commaSeparated_singleton] at hfuel ⊢
          rw [Element.padded_append, skipWhitespace_value hxvalue x.blank_before, parseElements,
            hx fuel _ (by omega) ((delimited_square s).blank_append x.blank_after)]
          change continueElements _ x.value (x.after ++ ']' :: s) = _
          rw [continueElements, skipWhitespace_append x.blank_after (by simp; decide)]
          rfl
      | cons y items =>
          have hrest := @ih (by simp) (fun z hz ↦ hread z (by simp [hz]))
            (fun z hz ↦ hvalue z (by simp [hz])) fuel
          rw [List.map_cons] at hrest hfuel ⊢
          rw [List.map_cons, length_commaSeparated_cons] at hfuel
          rw [List.map_cons, commaSeparated_cons_append, Element.padded_append,
            skipWhitespace_value hxvalue x.blank_before, parseElements,
            hx fuel _ (by omega) ((delimited_comma _).blank_append x.blank_after)]
          change continueElements _ x.value (x.after ++ ',' :: _) = _
          rw [continueElements, skipWhitespace_append x.blank_after (by simp; decide)]
          change (parseElements dbl fuel (skipWhitespace
            (commaSeparated (y.padded :: items.map Element.padded) ++ ']' :: s)) >>= _) = _
          rw [hrest (by omega)]
          rfl

theorem parseName_append (m : Member) (s : List Char) :
    parseName ('"' :: (m.nameText ++ '"' :: (m.after ++ ':' :: s))) =
      .ok (String.ofList m.name, skipWhitespace s) := by
  rw [parseName, parseString_append m.characters]
  dsimp only [bind, Except.bind]
  rw [skipWhitespace_append m.blank_after (by simp; decide)]
  rfl

/-- The members of an object, behind the blanks that have been skipped. -/
theorem parseMembers_members {members : List Member} (hne : members ≠ [])
    (hread : ∀ m ∈ members, IsRead dbl m.element.text m.element.value)
    (hvalue : ∀ m ∈ members, IsValue (Reads dbl) m.element.text m.element.value) {fuel : ℕ}
    (hfuel : 2 * (commaSeparated (members.map Member.padded)).length + 1 < fuel) (s : List Char) :
    parseMembers dbl fuel
        (skipWhitespace (commaSeparated (members.map Member.padded) ++ '}' :: s)) =
      .ok (members.map Member.entry, s) := by
  induction members generalizing fuel with
  | nil => exact absurd rfl hne
  | cons m members ih =>
      obtain ⟨fuel, rfl⟩ := Nat.exists_eq_succ_of_ne_zero (Nat.ne_of_gt (Nat.zero_lt_of_lt hfuel))
      have hm := hread m (by simp)
      have hmvalue := hvalue m (by simp)
      have hlength := m.element.length_text_le
      have hlength' := m.length_element_le
      cases members with
      | nil =>
          rw [List.map_singleton, commaSeparated_singleton] at hfuel ⊢
          rw [Member.padded_append, skipWhitespace_append m.blank_before (by simp; decide),
            parseMembers, parseName_append]
          change (parseValue dbl fuel (skipWhitespace (m.element.padded ++ '}' :: s)) >>= _) = _
          rw [Element.padded_append, skipWhitespace_value hmvalue m.element.blank_before,
            hm fuel _ (by omega) ((delimited_curly s).blank_append m.element.blank_after)]
          change continueMembers _ m.entry (m.element.after ++ '}' :: s) = _
          rw [continueMembers, skipWhitespace_append m.element.blank_after (by simp; decide)]
          rfl
      | cons m' members =>
          have hrest := @ih (by simp) (fun z hz ↦ hread z (by simp [hz]))
            (fun z hz ↦ hvalue z (by simp [hz])) fuel
          rw [List.map_cons] at hrest hfuel ⊢
          rw [List.map_cons, length_commaSeparated_cons] at hfuel
          rw [List.map_cons, commaSeparated_cons_append, Member.padded_append,
            skipWhitespace_append m.blank_before (by simp; decide), parseMembers, parseName_append]
          change (parseValue dbl fuel (skipWhitespace (m.element.padded ++ ',' :: _)) >>= _) = _
          rw [Element.padded_append, skipWhitespace_value hmvalue m.element.blank_before,
            hm fuel _ (by omega) ((delimited_comma _).blank_append m.element.blank_after)]
          change continueMembers _ m.entry (m.element.after ++ ',' :: _) = _
          rw [continueMembers, skipWhitespace_append m.element.blank_after (by simp; decide)]
          change (parseMembers dbl fuel (skipWhitespace
            (commaSeparated (m'.padded :: members.map Member.padded) ++ '}' :: s)) >>= _) = _
          rw [hrest (by omega)]
          rfl

theorem skipWhitespace_elements {x : Element} (items : List Element)
    (hx : IsValue (Reads dbl) x.text x.value) (s : List Char) : ∃ c r, StartsValue c ∧
      skipWhitespace (commaSeparated ((x :: items).map Element.padded) ++ s) = c :: r := by
  obtain ⟨c, r, htext, hc⟩ := exists_head_value hx
  have hcut : ∃ rest, commaSeparated ((x :: items).map Element.padded) ++ s =
      x.before ++ (x.text ++ rest) := by
    cases items with
    | nil => exact ⟨x.after ++ s, by simp [Element.padded]⟩
    | cons y items =>
        refine ⟨x.after ++ ',' :: (commaSeparated ((y :: items).map Element.padded) ++ s), ?_⟩
        rw [List.map_cons, List.map_cons, commaSeparated_cons_append, Element.padded_append]
  obtain ⟨rest, hrest⟩ := hcut
  exact ⟨c, r ++ rest, hc, by rw [hrest, skipWhitespace_value hx x.blank_before, htext]; rfl⟩

theorem skipWhitespace_members (m : Member) (members : List Member) (s : List Char) :
    ∃ r, skipWhitespace (commaSeparated ((m :: members).map Member.padded) ++ s) = '"' :: r := by
  have hcut : ∃ rest, commaSeparated ((m :: members).map Member.padded) ++ s =
      m.before ++ '"' :: rest := by
    cases members with
    | nil => exact ⟨_, by rw [List.map_singleton, commaSeparated_singleton, m.padded_append]⟩
    | cons m' members =>
        exact ⟨_, by rw [List.map_cons, List.map_cons, commaSeparated_cons_append, m.padded_append]⟩
  obtain ⟨rest, hrest⟩ := hcut
  exact ⟨rest, by rw [hrest, skipWhitespace_append m.blank_before (by simp; decide)]⟩

theorem parseArray_of_ne {elements : List Char → Result (List Value × List Char)}
    {is : List Char} (h : ∀ r, skipWhitespace is ≠ ']' :: r) :
    parseArray elements is = elements (skipWhitespace is) >>= fun (items, is) ↦
      pure (.array items, is) := by
  rw [parseArray]
  split
  · next r hr => exact absurd hr (h r)
  · rfl

theorem parseObject_of_ne {members : List Char → Result (List (String × Value) × List Char)}
    {is : List Char} (h : ∀ r, skipWhitespace is ≠ '}' :: r) :
    parseObject members is = members (skipWhitespace is) >>= fun (entries, is) ↦
      pure (.object entries, is) := by
  rw [parseObject]
  split
  · next r hr => exact absurd hr (h r)
  · rfl

theorem isRead_of_isValue {t : List Char} {v : Value} (h : IsValue (Reads dbl) t v) :
    IsRead dbl t v := by
  induction h with
  | null | bool_true | bool_false =>
      intro fuel s hfuel _
      obtain ⟨fuel, rfl⟩ := Nat.exists_eq_succ_of_ne_zero (Nat.ne_of_gt (Nat.zero_lt_of_lt hfuel))
      rfl
  | number h =>
      intro fuel s hfuel hs
      obtain ⟨fuel, rfl⟩ := Nat.exists_eq_succ_of_ne_zero (Nat.ne_of_gt (Nat.zero_lt_of_lt hfuel))
      obtain ⟨hfits, rfl⟩ := h
      rw [parseNumber_default]
      exact parseNumber_text hfits hs
  | string h =>
      intro fuel s hfuel _
      obtain ⟨fuel, rfl⟩ := Nat.exists_eq_succ_of_ne_zero (Nat.ne_of_gt (Nat.zero_lt_of_lt hfuel))
      rw [List.cons_append, List.cons_append, List.append_assoc, List.singleton_append, parseValue,
        parseString_append h]
      rfl
  | emptyArray hw =>
      intro fuel s hfuel _
      obtain ⟨fuel, rfl⟩ := Nat.exists_eq_succ_of_ne_zero (Nat.ne_of_gt (Nat.zero_lt_of_lt hfuel))
      rw [List.cons_append, List.cons_append, List.append_assoc, List.singleton_append, parseValue,
        parseArray, skipWhitespace_append hw (by simp; decide)]
      rfl
  | @array items hne h ih =>
      intro fuel s hfuel _
      obtain ⟨fuel, rfl⟩ := Nat.exists_eq_succ_of_ne_zero (Nat.ne_of_gt (Nat.zero_lt_of_lt hfuel))
      rw [List.length_append, List.length_cons, List.length_singleton] at hfuel
      obtain ⟨x, items, rfl⟩ := List.exists_cons_of_ne_nil hne
      obtain ⟨c, r, hc, hskip⟩ := skipWhitespace_elements items
        (h x (by simp)) (']' :: s)
      rw [List.cons_append, List.cons_append, List.append_assoc, List.singleton_append, parseValue,
        parseArray_of_ne (fun r' hr' ↦ hc.ne.2.1 (List.cons.inj (hskip.symm.trans hr')).1),
        parseElements_items hne ih h (by omega)]
      rfl
  | emptyObject hw =>
      intro fuel s hfuel _
      obtain ⟨fuel, rfl⟩ := Nat.exists_eq_succ_of_ne_zero (Nat.ne_of_gt (Nat.zero_lt_of_lt hfuel))
      rw [List.cons_append, List.cons_append, List.append_assoc, List.singleton_append, parseValue,
        parseObject, skipWhitespace_append hw (by simp; decide)]
      rfl
  | @object members hne h ih =>
      intro fuel s hfuel _
      obtain ⟨fuel, rfl⟩ := Nat.exists_eq_succ_of_ne_zero (Nat.ne_of_gt (Nat.zero_lt_of_lt hfuel))
      rw [List.length_append, List.length_cons, List.length_singleton] at hfuel
      obtain ⟨m, members, rfl⟩ := List.exists_cons_of_ne_nil hne
      obtain ⟨r, hskip⟩ := skipWhitespace_members m members ('}' :: s)
      have hne' : ∀ r', skipWhitespace (commaSeparated ((m :: members).map Member.padded) ++
          '}' :: s) ≠ '}' :: r' :=
        fun r' hr' ↦ absurd (List.cons.inj (hskip.symm.trans hr')).1 (by decide)
      rw [List.cons_append, List.cons_append, List.append_assoc, List.singleton_append, parseValue,
        parseObject_of_ne hne', parseMembers_members hne ih h (by omega)]
      rfl

/-! ## What is read is in the grammar -/

theorem exists_blank (is : List Char) : ∃ w, Blank w ∧ is = w ++ skipWhitespace is :=
  ⟨is.takeWhile isBlank, blank_takeWhile is, List.takeWhile_append_dropWhile.symm⟩

theorem literal_of_parseLiteral {v v' : Value} {expected is s : List Char}
    (h : parseLiteral v expected is = .ok (v', s)) : is = expected ++ s ∧ v' = v := by
  induction expected generalizing is with
  | nil =>
      cases h
      exact ⟨rfl, rfl⟩
  | cons c expected ih =>
      cases is with
      | nil => cases h
      | cons d is =>
          rw [parseLiteral] at h
          split at h
          case isTrue heq =>
            subst heq
            obtain ⟨rfl, rfl⟩ := ih h
            exact ⟨rfl, rfl⟩
          case isFalse => cases h

/-- The text in front of what is left is a value. -/
def ReadsValue (dbl : Doubles) (is : List Char) (v : Value) (s : List Char) : Prop :=
  ∃ t, is = t ++ s ∧ IsValue (Reads dbl) t v

def ReadsElements (dbl : Doubles) (is : List Char) (vs : List Value) (s : List Char) : Prop :=
  ∃ t, is = t ++ ']' :: s ∧ IsElements (Reads dbl) t vs

def ReadsMembers (dbl : Doubles) (is : List Char) (entries : List (String × Value))
    (s : List Char) : Prop :=
  ∃ t, is = t ++ '}' :: s ∧ IsMembers (Reads dbl) t entries

theorem readsValue_of_parseArray {elements : List Char → Result (List Value × List Char)}
    (ih : ∀ is vs s, elements is = .ok (vs, s) → ReadsElements dbl is vs s) {is s : List Char}
    {v : Value} (h : parseArray elements is = .ok (v, s)) : ReadsValue dbl ('[' :: is) v s := by
  obtain ⟨w, hw, his⟩ := exists_blank is
  rw [parseArray] at h
  split at h
  · next hskip =>
      cases h
      rw [hskip] at his
      exact ⟨'[' :: w ++ [']'], by simp [his], .emptyArray hw⟩
  · obtain ⟨⟨vs, s'⟩, hitems, h⟩ := exists_ok_of_bind h
    cases h
    obtain ⟨t, hskip, ht⟩ := ih _ _ _ hitems
    rw [hskip] at his
    exact ⟨'[' :: (w ++ t) ++ [']'], by simp [his], (ht.blank_append hw).isValue⟩

theorem readsValue_of_parseObject
    {members : List Char → Result (List (String × Value) × List Char)}
    (ih : ∀ is entries s, members is = .ok (entries, s) → ReadsMembers dbl is entries s)
    {is s : List Char} {v : Value} (h : parseObject members is = .ok (v, s)) :
    ReadsValue dbl ('{' :: is) v s := by
  obtain ⟨w, hw, his⟩ := exists_blank is
  rw [parseObject] at h
  split at h
  · next hskip =>
      cases h
      rw [hskip] at his
      exact ⟨'{' :: w ++ ['}'], by simp [his], .emptyObject hw⟩
  · obtain ⟨⟨entries, s'⟩, hentries, h⟩ := exists_ok_of_bind h
    cases h
    obtain ⟨t, hskip, ht⟩ := ih _ _ _ hentries
    rw [hskip] at his
    exact ⟨'{' :: (w ++ t) ++ ['}'], by simp [his], (ht.blank_append hw).isValue⟩

theorem readsElements_of_continueElements
    {elements : List Char → Result (List Value × List Char)}
    (ih : ∀ is vs s, elements is = .ok (vs, s) → ReadsElements dbl is vs s) {t is s : List Char}
    {v : Value} {vs : List Value} (ht : IsValue (Reads dbl) t v)
    (h : continueElements elements v is = .ok (vs, s)) : ReadsElements dbl (t ++ is) vs s := by
  obtain ⟨w, hw, his⟩ := exists_blank is
  let x : Element := ⟨[], t, w, v, .nil, hw⟩
  rw [continueElements] at h
  split at h
  · next is' hskip =>
      obtain ⟨⟨vs', s'⟩, hitems, h⟩ := exists_ok_of_bind h
      cases h
      obtain ⟨w', hw', his'⟩ := exists_blank is'
      obtain ⟨u, hu, hvs⟩ := ih _ _ _ hitems
      refine ⟨x.padded ++ ',' :: (w' ++ u), ?_, .cons (x := x) ht (hvs.blank_append hw')⟩
      rw [his, hskip, his', hu]
      simp [x, Element.padded]
  · next is' hskip =>
      cases h
      refine ⟨x.padded, ?_, .singleton (x := x) ht⟩
      rw [his, hskip]
      simp [x, Element.padded]
  · cases h

theorem name_of_parseName {is s : List Char} {name : String}
    (h : parseName is = .ok (name, s)) : ∃ t str w w', Characters t str ∧ Blank w ∧ Blank w' ∧
      name = String.ofList str ∧ is = '"' :: (t ++ '"' :: (w ++ ':' :: (w' ++ s))) := by
  unfold parseName at h
  split at h
  · next is =>
      obtain ⟨⟨name', r⟩, hstring, hcolon⟩ := exists_ok_of_bind h
      obtain ⟨t, str, rfl, hcharacters, hname⟩ := characters_of_parseString hstring
      obtain ⟨w, hw, hr⟩ := exists_blank r
      dsimp only at hcolon
      split at hcolon
      · next r' hskip =>
          cases hcolon
          obtain ⟨w', hw', hr'⟩ := exists_blank r'
          exact ⟨t, str, w, w', hcharacters, hw, hw', hname, by rw [← hr', ← hskip, ← hr]⟩
      · cases hcolon
  · cases h

theorem readsMembers_of_continueMembers
    {members : List Char → Result (List (String × Value) × List Char)}
    (ih : ∀ is entries s, members is = .ok (entries, s) → ReadsMembers dbl is entries s)
    {is s : List Char} {m : Member} (hafter : m.element.after = [])
    {entries : List (String × Value)}
    (hm : IsValue (Reads dbl) m.element.text m.element.value)
    (h : continueMembers members m.entry is = .ok (entries, s)) :
    ReadsMembers dbl (m.padded ++ is) entries s := by
  obtain ⟨w, hw, his⟩ := exists_blank is
  let m' : Member := { m with element := { m.element with after := w, blank_after := hw } }
  have hpadded : m'.padded = m.padded ++ w := by simp [m', Member.padded, Element.padded, hafter]
  rw [continueMembers] at h
  split at h
  · next is' hskip =>
      obtain ⟨⟨entries', s'⟩, hentries, h⟩ := exists_ok_of_bind h
      cases h
      obtain ⟨w', hw', his'⟩ := exists_blank is'
      obtain ⟨u, hu, hvs⟩ := ih _ _ _ hentries
      refine ⟨m'.padded ++ ',' :: (w' ++ u), ?_, .cons (m := m') hm (hvs.blank_append hw')⟩
      rw [his, hskip, his', hu, hpadded]
      simp
  · next is' hskip =>
      cases h
      refine ⟨m'.padded, ?_, .singleton (m := m') hm⟩
      rw [his, hskip, hpadded]
      simp
  · cases h

/-- Soundness, with the fuel of the three functions going down together. -/
theorem reads_of_parse (fuel : ℕ) :
    (∀ is v s, parseValue dbl fuel is = .ok (v, s) → ReadsValue dbl is v s) ∧
    (∀ is vs s, parseElements dbl fuel is = .ok (vs, s) → ReadsElements dbl is vs s) ∧
    ∀ is entries s, parseMembers dbl fuel is = .ok (entries, s) →
      ReadsMembers dbl is entries s := by
  induction fuel with
  | zero => exact ⟨fun _ _ _ h ↦ (by cases h), fun _ _ _ h ↦ (by cases h),
      fun _ _ _ h ↦ (by cases h)⟩
  | succ fuel ih =>
      obtain ⟨ihvalue, ihelements, ihmembers⟩ := ih
      refine ⟨?_, ?_, ?_⟩
      · intro is v s h
        rw [parseValue.eq_def] at h
        dsimp only at h
        split at h
        · obtain ⟨rfl, rfl⟩ := literal_of_parseLiteral h
          exact ⟨['n', 'u', 'l', 'l'], rfl, .null⟩
        · obtain ⟨rfl, rfl⟩ := literal_of_parseLiteral h
          exact ⟨['t', 'r', 'u', 'e'], rfl, .bool_true⟩
        · obtain ⟨rfl, rfl⟩ := literal_of_parseLiteral h
          exact ⟨['f', 'a', 'l', 's', 'e'], rfl, .bool_false⟩
        · obtain ⟨⟨str, s'⟩, hstring, h⟩ := exists_ok_of_bind h
          cases h
          obtain ⟨t, str', rfl, hcharacters, rfl⟩ := characters_of_parseString hstring
          exact ⟨'"' :: t ++ ['"'], by simp, .string hcharacters⟩
        · exact readsValue_of_parseObject ihmembers h
        · exact readsValue_of_parseArray ihelements h
        · obtain ⟨n, rfl, hn⟩ := numeral_of_parseNumber h
          exact ⟨n.text, rfl, .number hn⟩
      · intro is vs s h
        rw [parseElements] at h
        obtain ⟨⟨v, s'⟩, hvalue, hnext⟩ := exists_ok_of_bind h
        obtain ⟨t, rfl, ht⟩ := ihvalue _ _ _ hvalue
        exact readsElements_of_continueElements ihelements ht hnext
      · intro is entries s h
        rw [parseMembers] at h
        obtain ⟨⟨name, r⟩, hname, hmember⟩ := exists_ok_of_bind h
        obtain ⟨⟨v, s'⟩, hvalue, hnext⟩ := exists_ok_of_bind hmember
        obtain ⟨t, str, w, w', hcharacters, hw, hw', rfl, rfl⟩ := name_of_parseName hname
        obtain ⟨u, rfl, hu⟩ := ihvalue _ _ _ hvalue
        let m : Member := ⟨[], t, str, w, ⟨w', u, [], v, hw', .nil⟩, .nil, hcharacters, hw⟩
        have hreads := readsMembers_of_continueMembers ihmembers (m := m) rfl hu hnext
        simpa [m, Member.padded, Element.padded] using hreads

/-! ## Documents -/

theorem Delimited.of_blank {w : List Char} (hw : Blank w) : Delimited w := by
  simpa using Delimited.blank_append (s := []) hw (by simp [Delimited])

theorem skipWhitespace_eq_nil_iff {is : List Char} : skipWhitespace is = [] ↔ Blank is :=
  List.dropWhile_eq_nil_iff

/-- The reader takes the documents of the grammar, and no other text. -/
theorem parseText_eq_ok_iff {text : List Char} {v : Value} :
    parseText dbl text = .ok v ↔ IsDocument (Reads dbl) text v := by
  constructor
  · intro h
    obtain ⟨w, hw, htext⟩ := exists_blank text
    rw [parseText] at h
    split at h
    case isTrue => cases h
    case isFalse =>
      obtain ⟨⟨v', s⟩, hvalue, hend⟩ := exists_ok_of_bind h
      dsimp only at hend
      split at hend
      case isTrue hblank =>
        cases hend
        obtain ⟨t, hskip, ht⟩ := (reads_of_parse _).1 _ _ _ hvalue
        refine ⟨⟨w, t, s, v, hw, skipWhitespace_eq_nil_iff.mp hblank⟩, ?_, rfl, ht⟩
        rw [htext, hskip, Element.padded, List.append_assoc]
      case isFalse => cases hend
  · rintro ⟨x, rfl, rfl, hx⟩
    have hskip : skipWhitespace x.padded = x.text ++ x.after := by
      rw [Element.padded, List.append_assoc]
      exact skipWhitespace_value hx x.blank_before x.after
    obtain ⟨c, r, htext, -⟩ := exists_head_value hx
    have hread : parseValue dbl (fuelFor (x.text ++ x.after)) (x.text ++ x.after) =
        .ok (x.value, x.after) :=
      isRead_of_isValue hx _ _ (by simp only [fuelFor, List.length_append]; omega)
        (.of_blank x.blank_after)
    rw [parseText, hskip]
    dsimp only
    rw [if_neg (by simp [htext]), hread]
    change (if skipWhitespace x.after = [] then _ else _) = _
    rw [if_pos (skipWhitespace_eq_nil_iff.mpr x.blank_after)]
    rfl

/-- A text is a document of one value at most. -/
theorem isDocument_unique {text : List Char} {v v' : Value}
    (h : IsDocument (Reads dbl) text v) (h' : IsDocument (Reads dbl) text v') : v = v' :=
  Except.ok.inj ((parseText_eq_ok_iff.mpr h).symm.trans (parseText_eq_ok_iff.mpr h'))

theorem parseDocument_of_parseText {par : String → String → String} {str : String} {v : Value} :
    parseDocument dbl par str = .ok v ↔ parseText dbl (cString str).toList = .ok v := by
  rw [parseDocument, parse]
  cases parseText dbl (cString str).toList <;> simp

end IqrfDaemon.Rapidjson
