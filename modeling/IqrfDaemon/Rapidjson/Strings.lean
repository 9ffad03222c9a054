import IqrfDaemon.Rapidjson.Number

/-!
# Strings of the reader

Behind a quotation mark the reader takes exactly the pieces of the grammar up to the
closing quotation mark, and puts the bytes they stand for.  `UTF8::Encode` composes
these bytes from the bits of a code point.
-/

namespace IqrfDaemon.Rapidjson

open Json Grammar Text

/-! ## Code points -/

theorem or_eq_add {a b i : ℕ} (hb : b < 2 ^ i) : 2 ^ i * a ||| b = 2 ^ i * a + b :=
  (Nat.two_pow_add_eq_or_of_lt hb a).symm

theorem continuation_eq (n : ℕ) : 0x80 ||| (n &&& 0x3F) = 0x80 + n % 64 := by
  have hmod : n &&& 0x3F = n % 64 := Nat.and_two_pow_sub_one_eq_mod n 6
  rw [hmod]
  exact or_eq_add (a := 2) (i := 6) (Nat.mod_lt _ (by decide))

instance (code : ℕ) : Decidable (IsLead code) :=
  inferInstanceAs (Decidable (0xD800 ≤ code ∧ code ≤ 0xDBFF))

theorem encode_eq_utf8 {code : ℕ} (h : code ≤ 0x10FFFF) : encode code = utf8 code := by
  have hmask (n : ℕ) (hn : n < 256) : n &&& 0xFF = n :=
    (Nat.and_two_pow_sub_one_eq_mod n 8).trans (Nat.mod_eq_of_lt hn)
  have h6 : code >>> 6 = code / 64 := Nat.shiftRight_eq_div_pow code 6
  have h12 : code >>> 12 = code / 4096 := Nat.shiftRight_eq_div_pow code 12
  have h18 : code >>> 18 = code / 262144 := Nat.shiftRight_eq_div_pow code 18
  rw [encode, utf8, continuation_eq, continuation_eq, continuation_eq, h6, h12, h18]
  congr 1
  split
  case isTrue h1 => rw [hmask code (by omega)]
  case isFalse h1 =>
    split
    case isTrue h2 =>
      have hor : 0xC0 ||| code / 64 = 0xC0 + code / 64 :=
        or_eq_add (a := 6) (i := 5) (by omega)
      rw [hmask _ (by omega), hor]
    case isFalse h2 =>
      split
      case isTrue h3 =>
        have hor : 0xE0 ||| code / 4096 = 0xE0 + code / 4096 :=
          or_eq_add (a := 14) (i := 4) (by omega)
        rw [hmask _ (by omega), hor]
      case isFalse h3 =>
        have hor : 0xF0 ||| code / 262144 = 0xF0 + code / 262144 :=
          or_eq_add (a := 30) (i := 3) (by omega)
        rw [hmask _ (by omega), hor]

theorem surrogates_eq_pairCode {lead trail : ℕ} (htrail : IsTrail trail) :
    (((lead - 0xD800) <<< 10) ||| (trail - 0xDC00)) + 0x10000 = pairCode lead trail := by
  obtain ⟨hle, hle'⟩ := htrail
  have hor : 1024 * (lead - 0xD800) ||| (trail - 0xDC00) =
      1024 * (lead - 0xD800) + (trail - 0xDC00) := or_eq_add (i := 10) (by omega)
  rw [Nat.shiftLeft_eq, Nat.mul_comm, hor, pairCode]

theorem pairCode_le {lead trail : ℕ} (hlead : IsLead lead) (htrail : IsTrail trail) :
    pairCode lead trail ≤ 0x10FFFF := by
  obtain ⟨-, hle⟩ := hlead
  obtain ⟨-, hle'⟩ := htrail
  unfold pairCode
  omega

/-! ## Escapes -/

theorem hexValue_lt {c : Char} {d : ℕ} (h : hexValue c = some d) : d < 16 := by
  unfold hexValue at h
  split at h
  case isTrue hc =>
    obtain rfl := Option.some.inj h
    have hle : c.toNat ≤ 57 := hc.2
    omega
  case isFalse =>
    split at h
    case isTrue hc =>
      obtain rfl := Option.some.inj h
      have hle : c.toNat ≤ 70 := hc.2
      omega
    case isFalse =>
      split at h
      case isTrue hc =>
        obtain rfl := Option.some.inj h
        have hle : c.toNat ≤ 102 := hc.2
        omega
      case isFalse => cases h

theorem hexNumber_lt {digits : List Char} {n code : ℕ} (h : hexNumber n digits = some code) :
    code < (n + 1) * 16 ^ digits.length := by
  induction digits generalizing n with
  | nil =>
      obtain rfl := Option.some.inj h
      simp
  | cons c digits ih =>
      obtain ⟨d, hd, h⟩ := Option.bind_eq_some_iff.mp h
      have hlt := hexValue_lt hd
      calc code < (16 * n + d + 1) * 16 ^ digits.length := ih h
        _ ≤ (16 * (n + 1)) * 16 ^ digits.length := Nat.mul_le_mul_right _ (by omega)
        _ = (n + 1) * 16 ^ (digits.length + 1) := by ring

theorem parseHex_eq_ok_iff {escape is s : List Char} {i n code : ℕ} :
    parseHex escape i n is = .ok (code, s) ↔
      ∃ digits, digits.length = i ∧ is = digits ++ s ∧ hexNumber n digits = some code := by
  induction i generalizing n is with
  | zero =>
      constructor
      · intro h
        cases h
        exact ⟨[], rfl, rfl, rfl⟩
      · rintro ⟨digits, hlength, rfl, hcode⟩
        obtain rfl := List.length_eq_zero_iff.mp hlength
        obtain rfl := Option.some.inj hcode
        rfl
  | succ i ih =>
      cases is with
      | nil =>
          refine ⟨fun h ↦ (by cases h), ?_⟩
          rintro ⟨digits, hlength, heq, -⟩
          rw [(List.append_eq_nil_iff.mp heq.symm).1] at hlength
          cases hlength
      | cons c is =>
          rw [parseHex]
          cases hc : hexValue c with
          | none =>
              refine ⟨fun h ↦ (by cases h), ?_⟩
              rintro ⟨digits, hlength, heq, hcode⟩
              cases digits with
              | nil => cases hlength
              | cons d digits =>
                  obtain ⟨rfl, -⟩ := List.cons.inj heq
                  rw [hexNumber, hc] at hcode
                  cases hcode
          | some d =>
              dsimp only
              rw [ih]
              constructor
              · rintro ⟨digits, rfl, rfl, hcode⟩
                refine ⟨c :: digits, rfl, rfl, ?_⟩
                rw [hexNumber, hc]
                exact hcode
              · rintro ⟨digits, hlength, heq, hcode⟩
                cases digits with
                | nil => cases hlength
                | cons e digits =>
                    obtain ⟨rfl, htail⟩ := List.cons.inj heq
                    rw [hexNumber, hc] at hcode
                    exact ⟨digits, Nat.succ.inj hlength, htail, hcode⟩

theorem code_le {digits : List Char} {code : ℕ} (hlength : digits.length = 4)
    (h : hexNumber 0 digits = some code) : code ≤ 0x10FFFF := by
  have hlt := hexNumber_lt h
  rw [hlength] at hlt
  omega

theorem parseHex4_append {escape digits s : List Char} {code : ℕ} (hlength : digits.length = 4)
    (h : hexNumber 0 digits = some code) : parseHex4 escape (digits ++ s) = .ok (code, s) :=
  parseHex_eq_ok_iff.mpr ⟨digits, hlength, rfl, h⟩

theorem parseTrail_append {escape digits s : List Char} {lead trail : ℕ}
    (hlength : digits.length = 4) (h : hexNumber 0 digits = some trail) (hlead : IsLead lead)
    (htrail : IsTrail trail) :
    parseTrail escape lead ('\\' :: 'u' :: digits ++ s) = .ok (utf8 (pairCode lead trail), s) := by
  change (parseHex4 escape (digits ++ s) >>= _) = _
  rw [parseHex4_append hlength h]
  change (if trail < 0xDC00 ∨ 0xDFFF < trail then _ else _) = _
  obtain ⟨hle, hle'⟩ := htrail
  rw [if_neg (by omega), surrogates_eq_pairCode ⟨hle, hle'⟩,
    encode_eq_utf8 (pairCode_le hlead ⟨hle, hle'⟩)]
  rfl

theorem trail_of_parseTrail {escape is s put : List Char} {lead : ℕ} (hlead : IsLead lead)
    (h : parseTrail escape lead is = .ok (put, s)) : ∃ digits trail, digits.length = 4 ∧
      hexNumber 0 digits = some trail ∧ IsTrail trail ∧
        is = '\\' :: 'u' :: digits ++ s ∧ put = utf8 (pairCode lead trail) := by
  unfold parseTrail at h
  split at h
  case h_1 is =>
    obtain ⟨⟨trail, t⟩, hhex, hput⟩ := exists_ok_of_bind h
    obtain ⟨digits, hlength, rfl, htrail⟩ := parseHex_eq_ok_iff.mp hhex
    dsimp only at hput
    by_cases hrange : trail < 0xDC00 ∨ 0xDFFF < trail
    · rw [if_pos hrange] at hput
      cases hput
    · rw [if_neg hrange] at hput
      have hin : IsTrail trail := ⟨by omega, by omega⟩
      rw [surrogates_eq_pairCode hin, encode_eq_utf8 (pairCode_le hlead hin)] at hput
      cases hput
      exact ⟨digits, trail, hlength, htrail, hin, rfl, rfl⟩
  case h_2 => cases h

theorem parseEscape_u {escape is : List Char} : parseEscape escape ('u' :: is) = do
    let (codepoint, is) ← parseHex4 escape is
    if IsLead codepoint then parseTrail escape codepoint is
    else return (encode codepoint, is) :=
  rfl

/-- A piece that starts with a backslash is taken by `parseEscape`. -/
theorem parseEscape_piece {escape t put s : List Char} (h : Piece ('\\' :: t) put) :
    parseEscape escape (t ++ s) = .ok (put, s) := by
  generalize htext : '\\' :: t = text at h
  cases h with
  | plain hc hquote hslash =>
      obtain ⟨rfl, -⟩ := List.cons.inj htext
      exact absurd rfl hslash
  | escape h =>
      obtain rfl := (List.cons.inj htext).2
      rw [List.singleton_append, parseEscape, h]
  | @unicode digits code hlength h hlead =>
      obtain rfl := (List.cons.inj htext).2
      rw [List.cons_append, parseEscape_u, parseHex4_append hlength h]
      change (if IsLead code then _ else _) = _
      rw [if_neg hlead, encode_eq_utf8 (code_le hlength h)]
      rfl
  | @pair digits digits' lead trail hlength h hlead hlength' h' htrail =>
      obtain rfl : t = 'u' :: digits ++ '\\' :: 'u' :: digits' := (List.cons.inj htext).2
      rw [List.append_assoc, List.cons_append, parseEscape_u, parseHex4_append hlength h]
      change (if IsLead lead then _ else _) = _
      rw [if_pos hlead]
      exact parseTrail_append hlength' h' hlead htrail

theorem piece_of_parseEscape {escape is s put : List Char}
    (h : parseEscape escape is = .ok (put, s)) :
    ∃ t, is = t ++ s ∧ Piece ('\\' :: t) put := by
  cases is with
  | nil => cases h
  | cons e is =>
      cases he : escaped e with
      | some c =>
          rw [parseEscape, he] at h
          cases h
          exact ⟨[e], rfl, .escape he⟩
      | none =>
          by_cases hu : e = 'u'
          · subst hu
            rw [parseEscape_u] at h
            obtain ⟨⟨code, t⟩, hhex, hput⟩ := exists_ok_of_bind h
            obtain ⟨digits, hlength, rfl, hcode⟩ := parseHex_eq_ok_iff.mp hhex
            dsimp only at hput
            by_cases hlead : IsLead code
            · rw [if_pos hlead] at hput
              obtain ⟨digits', trail, hlength', htrail, hin, rfl, rfl⟩ :=
                trail_of_parseTrail hlead hput
              refine ⟨'u' :: digits ++ '\\' :: 'u' :: digits', by simp, ?_⟩
              exact .pair hlength hcode hlead hlength' htrail hin
            · rw [if_neg hlead, encode_eq_utf8 (code_le hlength hcode)] at hput
              cases hput
              exact ⟨'u' :: digits, rfl, .unicode hlength hcode hlead⟩
          · rw [parseEscape, he] at h
            dsimp only at h
            rw [if_neg hu] at h
            cases h

/-! ## Strings -/

theorem parseStringToStream_append {t str : List Char} (h : Characters t str) {fuel : ℕ}
    (hfuel : t.length < fuel) (s : List Char) :
    parseStringToStream fuel (t ++ '"' :: s) = .ok (str, s) := by
  induction h generalizing fuel with
  | nil =>
      obtain ⟨fuel, rfl⟩ := Nat.exists_eq_succ_of_ne_zero (Nat.ne_of_gt hfuel)
      rfl
  | @cons t put r str hpiece _ ih =>
      obtain ⟨fuel, rfl⟩ := Nat.exists_eq_succ_of_ne_zero (Nat.ne_of_gt (Nat.zero_lt_of_lt hfuel))
      have hpos := List.length_pos_iff.mpr hpiece.ne_nil
      rw [List.length_append] at hfuel
      have hrest := @ih fuel (by omega)
      rw [List.append_assoc]
      cases t with
      | nil => exact absurd rfl hpiece.ne_nil
      | cons c t =>
          rw [List.cons_append, parseStringToStream]
          by_cases hslash : c = '\\'
          · subst hslash
            rw [if_pos rfl, parseEscape_piece hpiece]
            change (parseStringToStream fuel (r ++ '"' :: s) >>= _) = _
            rw [hrest]
            rfl
          · cases hpiece with
            | plain hc hquote _ =>
                rw [if_neg hslash, if_neg hquote, if_neg (Nat.not_lt.mpr hc), List.nil_append,
                  hrest]
                rfl
            | _ => exact absurd rfl hslash

theorem characters_of_parseStringToStream {fuel : ℕ} {is str s : List Char}
    (h : parseStringToStream fuel is = .ok (str, s)) :
    ∃ t, is = t ++ '"' :: s ∧ Characters t str := by
  induction fuel generalizing is str with
  | zero => cases h
  | succ fuel ih =>
      cases is with
      | nil => cases h
      | cons c is =>
          rw [parseStringToStream] at h
          split at h
          case isTrue hslash =>
            subst hslash
            obtain ⟨⟨put, r⟩, hescape, h⟩ := exists_ok_of_bind h
            obtain ⟨⟨rest, s'⟩, hrest, h⟩ := exists_ok_of_bind h
            cases h
            obtain ⟨t, rfl, hpiece⟩ := piece_of_parseEscape hescape
            obtain ⟨t', rfl, hcharacters⟩ := ih hrest
            exact ⟨'\\' :: t ++ t', by simp, .cons hpiece hcharacters⟩
          case isFalse hslash =>
            split at h
            case isTrue hquote =>
              subst hquote
              cases h
              exact ⟨[], rfl, .nil⟩
            case isFalse hquote =>
              split at h
              case isTrue => cases h
              case isFalse hcontrol =>
                obtain ⟨⟨rest, s'⟩, hrest, h⟩ := exists_ok_of_bind h
                cases h
                obtain ⟨t, rfl, hcharacters⟩ := ih hrest
                exact ⟨c :: t, rfl,
                  .cons (.plain (Nat.le_of_not_lt hcontrol) hquote hslash) hcharacters⟩

theorem parseString_append {t str : List Char} (h : Characters t str) (s : List Char) :
    parseString (t ++ '"' :: s) = .ok (String.ofList str, s) := by
  rw [parseString, parseStringToStream_append h (by simp)]
  rfl

theorem characters_of_parseString {is s : List Char} {str : String}
    (h : parseString is = .ok (str, s)) :
    ∃ t str', is = t ++ '"' :: s ∧ Characters t str' ∧ str = String.ofList str' := by
  obtain ⟨⟨str', r⟩, hstream, h⟩ := exists_ok_of_bind h
  cases h
  obtain ⟨t, rfl, hcharacters⟩ := characters_of_parseStringToStream hstream
  exact ⟨t, str', rfl, hcharacters, rfl⟩

end IqrfDaemon.Rapidjson
