import Mathlib.Data.List.Forall2
import IqrfDaemon.Serializer.Options

/-!
# The same request in different notations

A raw request may come as JSON or as a line, with its bytes between dots or
between blanks, and a packet may be given as a whole or by the fields of its
header.  The created tasks hold the same request.
-/

namespace IqrfDaemon.Serializer

open Json Json.Jutils Text Scheduler

variable {lib : DpaLibrary}

/-! ## The bytes of a filled request -/

theorem DpaTask.fill_length (hlib : lib.Documented) (task : DpaTask lib.Rest) {offset : ℕ}
    {stored : List Byte} (hfits : ((offset + stored.length : ℕ) : ℤ) ≤ lib.maxDpaBuffer) :
    (task.fill offset stored).request.length = (offset + stored.length : ℕ) :=
  hlib.setLength_length _ _ (by omega) hfits

/-- What lies before the offset, then the stored bytes. -/
theorem DpaTask.fill_bytes (hlib : lib.Documented) (task : DpaTask lib.Rest) {offset : ℕ}
    {stored : List Byte} (hfits : ((offset + stored.length : ℕ) : ℤ) ≤ lib.maxDpaBuffer) :
    (task.fill offset stored).request.bytes =
      (List.range offset).map task.request.buffer ++ stored := by
  rw [DpaMessage.bytes, task.fill_length hlib hfits, Int.toNat_natCast, List.range_add,
    List.map_append, List.map_map]
  have hbuffer : (task.fill offset stored).request.buffer =
      (task.request.store offset stored).buffer := hlib.setLength_buffer _ _
  rw [hbuffer]
  congr 1
  · apply List.map_congr_left
    intro i hi
    exact task.request.store_buffer_lt stored (List.mem_range.mp hi)
  · apply List.ext_getElem (by simp)
    intro i hi hi'
    simp [task.request.store_buffer_add offset hi']

/-! ## Two-digit notation -/

def TwoDigits (word : List Char) (b : Byte) : Prop :=
  word.length = 2 ∧ (∀ c ∈ word, isHexDigit c = true) ∧ hexMagnitude word = b.toNat

instance (word : List Char) (b : Byte) : Decidable (TwoDigits word b) :=
  inferInstanceAs (Decidable (_ ∧ _))

/-- The bytes as two-digit words, joined by a separator. -/
def HexNotation (sep : Char) (b : List Byte) (text : List Char) : Prop :=
  ∃ words, List.Forall₂ TwoDigits words b ∧ text = List.intercalate [sep] words

theorem TwoDigits.spells {word : List Char} {b : Byte} (h : TwoDigits word b) :
    Spells word b.toNat := by
  refine ⟨[], word, .none, ?_, h.2.1, rfl, h.2.2.symm⟩
  rintro rfl
  simp [TwoDigits] at h

/-- A dot ends a number as a blank does. -/
theorem ends_of_separator {pre digits rest : List Char}
    (hrest : ∀ c ∈ rest.head?, isSeparator c = true) : Ends pre digits rest := by
  intro c hc
  have hseparator := hrest c hc
  rw [isSeparator, Bool.or_eq_true, decide_eq_true_eq] at hseparator
  rcases hseparator with rfl | hblank
  · exact ⟨by decide, fun _ ↦ by decide⟩
  · have hends : Ends pre digits [c] := ends_of_blank (by simpa using hblank)
    exact hends c rfl

/-- A number is read up to the separator behind it. -/
theorem stoiHex_spelled_append {word rest : List Char} {v : ℤ} (hword : Spells word v)
    (hv : v ≤ 2147483647) (hrest : ∀ c ∈ rest.head?, isSeparator c = true) :
    stoiHex (word ++ rest) = .ok v := by
  have hnonneg := hword.nonneg
  obtain ⟨pre, digits, hpre, hne, hdigits, rfl, rfl⟩ := hword
  have hlead := @Lead.intro [] _ _ _ (by simp) .none hpre hdigits rest
  simp only [List.nil_append] at hlead
  rw [← List.append_assoc] at hlead
  obtain ⟨hsign, htake, -⟩ := parts_of_lead hlead (fun h ↦ absurd h hne) (ends_of_separator hrest)
  have hrange : ¬(digits = [] ∨ hexMagnitude digits < -2147483648 ∨
      2147483647 < hexMagnitude digits) := by
    simp only [not_or, not_lt]
    exact ⟨hne, by omega, hv⟩
  have hplus : ([] : List Char) ≠ ['-'] := by simp
  simp only [stoiHex, hsign, htake, if_neg hplus, if_neg hne, if_neg hrange]

theorem stoiHex_spelled {word : List Char} {v : ℤ} (hword : Spells word v)
    (hv : v ≤ 2147483647) : stoiHex word = .ok v := by
  have hread : stoiHex (word ++ []) = .ok v := stoiHex_spelled_append hword hv (by simp)
  rwa [List.append_nil] at hread

/-- A word without the letters of the settings. -/
def Plain (word : List Char) : Prop :=
  ∀ c ∈ word, isHexDigit c = true ∨ c = '.'

theorem contains_eq_false {token word : List Char} {c : Char} (hc : c ∈ word) (hnot : c ∉ token) :
    contains token word = false := by
  rw [← Bool.not_eq_true, contains_iff_infix]
  exact fun hword ↦ hnot (hword.subset hc)

theorem Plain.notMem {word : List Char} (h : Plain word) {c : Char} (hhex : isHexDigit c = false)
    (hdot : c ≠ '.') : c ∉ word := by
  intro hmem
  rcases h c hmem with hc | hc
  · simp [hhex] at hc
  · exact hdot hc

theorem Plain.not_isOption {word : List Char} (h : Plain word) : ¬ IsOption word := by
  rintro (hname | hname | rfl)
  · have hnot : contains word "TIMEOUT".toList = false :=
      contains_eq_false (c := 'T') (by decide) (h.notMem (by decide) (by decide))
    exact Bool.eq_false_iff.mp hnot hname
  · have hnot : contains word "CLID".toList = false :=
      contains_eq_false (c := 'L') (by decide) (h.notMem (by decide) (by decide))
    exact Bool.eq_false_iff.mp hnot hname
  · exact h.notMem (c := 't') (by decide) (by decide) (by decide)

theorem stoi_timeout {timeout : Numeral} {t : ℤ} (hvalue : timeout.value = t)
    (ht : t ≤ 2147483647) : stoi timeout.digits = .ok (t, timeout.digits.length) := by
  have hstoi := stoi_numeral timeout [] (by simp)
  rw [List.append_nil, if_neg (by omega)] at hstoi
  rw [hstoi, hvalue]

/-- The tokens of a raw line: the plain words, then the timeout. -/
theorem parseTokens_timeout {words : List (List Char)} (hwords : ∀ w ∈ words, Plain w)
    (task : DpaTask lib.Rest) {timeout : Numeral} {t : ℤ} (hvalue : timeout.value = t)
    (ht : t ≤ 2147483647) :
    parseTokens lib task (words ++ ["timeout".toList, timeout.digits]) =
      .ok (lib.setTimeout t task, words) := by
  rw [parseTokens_append fun w hw ↦ (hwords w hw).not_isOption, parseTokens_timeout_word,
    stoi_timeout hvalue ht]
  change (fun r ↦ (r.1, words ++ r.2)) <$> parseTokens lib (lib.setTimeout t task) [] = _
  rw [parseTokens]
  exact congrArg (fun l ↦ Except.ok (lib.setTimeout t task, l)) (List.append_nil words)

theorem mapM_ok_iff {α β ε : Type} {f : α → Except ε β} {l : List α} {r : List β} :
    l.mapM f = .ok r ↔ List.Forall₂ (fun a b ↦ f a = .ok b) l r := by
  induction l generalizing r with
  | nil =>
      rw [List.mapM_nil, List.forall₂_nil_left_iff]
      exact ⟨fun h ↦ (Except.ok.inj h).symm, fun h ↦ h ▸ rfl⟩
  | cons a l ih =>
      rw [List.mapM_cons, List.forall₂_cons_left_iff]
      simp only [← ih]
      constructor
      · intro h
        cases hfirst : f a with
        | error e =>
            rw [hfirst] at h
            cases h
        | ok b =>
            cases hrest : l.mapM f with
            | error e =>
                rw [hfirst, hrest] at h
                cases h
            | ok bs =>
                rw [hfirst, hrest] at h
                exact ⟨b, bs, rfl, rfl, (Except.ok.inj h).symm⟩
      · rintro ⟨b, bs, hfirst, hrest, rfl⟩
        rw [hfirst, hrest]
        rfl

/-- Words that spell bytes are read as their values. -/
theorem mapM_stoiHex {words : List (List Char)} {b : List Byte}
    (h : List.Forall₂ (fun word (v : Byte) ↦ Spells word v.toNat) words b) :
    words.mapM stoiHex = .ok (b.map fun v ↦ (v.toNat : ℤ)) := by
  rw [mapM_ok_iff, List.forall₂_map_right_iff]
  refine h.imp fun word v hword ↦ stoiHex_spelled hword ?_
  have hlt := v.isLt
  omega

/-! ## Notations -/

theorem TwoDigits.word {w : List Char} {b : Byte} (h : TwoDigits w b) :
    w ≠ [] ∧ ∀ c ∈ w, isHexDigit c = true := by
  refine ⟨?_, h.2.1⟩
  rintro rfl
  simp [TwoDigits] at h

theorem words_of_twoDigits {words : List (List Char)} {b : List Byte}
    (h : List.Forall₂ TwoDigits words b) :
    ∀ w ∈ words, w ≠ [] ∧ ∀ c ∈ w, isHexDigit c = true := by
  intro w hw
  induction h with
  | nil => simp at hw
  | cons hword _ ih =>
      rcases List.mem_cons.mp hw with rfl | hw
      · exact hword.word
      · exact ih hw

theorem isSeparator_eq_false {c : Char} (hc : isHexDigit c = true) : isSeparator c = false := by
  rw [isSeparator, Bool.or_eq_false_iff]
  refine ⟨?_, isSpace_eq_false_of_isHexDigit hc⟩
  rw [decide_eq_false_iff_not]
  rintro rfl
  exact absurd hc (by decide)

/-- The fields of either notation are the words. -/
theorem HexNotation.words {sep : Char} (hsep : sep = '.' ∨ sep = ' ') {b : List Byte}
    {text : List Char} (h : HexNotation sep b text) :
    List.Forall₂ TwoDigits (fields isSeparator text) b := by
  obtain ⟨words, hwords, rfl⟩ := h
  have hseparator : isSeparator sep = true := by
    rcases hsep with rfl | rfl <;> decide
  rw [fields_intercalate hseparator]
  · exact hwords
  · intro w hw
    obtain ⟨hne, hdigits⟩ := words_of_twoDigits hwords w hw
    exact ⟨hne, fun c hc ↦ isSeparator_eq_false (hdigits c hc)⟩

theorem HexNotation.spells {sep : Char} (hsep : sep = '.' ∨ sep = ' ') {b : List Byte}
    {text : List Char} (h : HexNotation sep b text) : SpellsBytes text b :=
  (h.words hsep).imp fun _ _ hword ↦ hword.spells

/-- A text in the notation begins with the digits of its first value. -/
theorem HexNotation.head {values : List Byte} {c d : Char} {rest : List Char}
    (h : HexNotation '.' values (c :: d :: rest)) :
    ∃ b more, values = b :: more ∧ TwoDigits [c, d] b := by
  obtain ⟨words, hwords, htext⟩ := h
  cases hwords with
  | nil => simp at htext
  | @cons w b words more hword _ =>
      refine ⟨b, more, rfl, ?_⟩
      obtain ⟨x, y, rfl⟩ := List.length_eq_two.mp hword.1
      have hbegin : ∃ tail, List.intercalate ['.'] ([x, y] :: words) = x :: y :: tail := by
        cases words with
        | nil => exact ⟨[], by simp⟩
        | cons v words => exact ⟨_, intercalate_cons_cons '.' [x, y] v words⟩
      obtain ⟨tail, htail⟩ := hbegin
      rw [htail] at htext
      obtain ⟨rfl, hmore⟩ := List.cons.inj htext
      obtain ⟨rfl, -⟩ := List.cons.inj hmore
      exact hword

theorem HexNotation.nul_notMem {sep : Char} (hsep : sep = '.' ∨ sep = ' ') {b : List Byte}
    {text : List Char} (h : HexNotation sep b text) : '\x00' ∉ text := by
  obtain ⟨words, hwords, rfl⟩ := h
  intro hmem
  rcases mem_intercalate hmem with hnul | ⟨w, hw, hmem⟩
  · rcases hsep with rfl | rfl <;> exact absurd hnul (by decide)
  · exact absurd ((words_of_twoDigits hwords w hw).2 _ hmem) (by decide)

/-! ## The simple request -/

/-- `raw`, the bytes, and the timeout. -/
def rawLine (hex : String) (timeout : Numeral) : String :=
  "raw " ++ hex ++ " timeout " ++ String.ofList timeout.digits

/-- The tokens of the bytes: the words between blanks, or one dotted token. -/
theorem HexNotation.tokens {sep : Char} (hsep : sep = '.' ∨ sep = ' ') {b : List Byte}
    {text : List Char} (h : HexNotation sep b text) :
    fields isSpace text = fields isSeparator text ∨
      ∃ dotted, fields isSpace text = [dotted] ∧
        fields isSpace (undot dotted) = fields isSeparator text := by
  obtain ⟨words, hwords, rfl⟩ := h
  rcases hsep with rfl | rfl
  · by_cases hempty : List.intercalate ['.'] words = []
    · left
      simp [hempty]
    · right
      refine ⟨List.intercalate ['.'] words, fields_of_word hempty ?_, fields_undot _⟩
      intro c hc
      rcases mem_intercalate hc with rfl | ⟨w, hw, hc⟩
      · decide
      · exact isSpace_eq_false_of_isHexDigit ((words_of_twoDigits hwords w hw).2 c hc)
  · left
    have hblank : isSpace ' ' = true := by decide
    have hseparator : isSeparator ' ' = true := by decide
    rw [fields_intercalate hblank, fields_intercalate hseparator]
    · intro w hw
      obtain ⟨hne, hdigits⟩ := words_of_twoDigits hwords w hw
      exact ⟨hne, fun c hc ↦ isSeparator_eq_false (hdigits c hc)⟩
    · intro w hw
      obtain ⟨hne, hdigits⟩ := words_of_twoDigits hwords w hw
      exact ⟨hne, fun c hc ↦ isSpace_eq_false_of_isHexDigit (hdigits c hc)⟩

theorem HexNotation.plain {sep : Char} (hsep : sep = '.' ∨ sep = ' ') {b : List Byte}
    {text : List Char} (h : HexNotation sep b text) {p : Char → Bool} (hp : p ' ' = true) :
    ∀ w ∈ fields p text, Plain w := by
  obtain ⟨words, hwords, rfl⟩ := h
  intro w hw c hc
  obtain ⟨hmem, hfree⟩ := (of_mem_fields hw).2 c hc
  rcases mem_intercalate hmem with rfl | ⟨v, hv, hc⟩
  · rcases hsep with rfl | rfl
    · exact Or.inr rfl
    · simp [hp] at hfree
  · exact Or.inl ((words_of_twoDigits hwords v hv).2 c hc)

theorem exists_rawLine (hex : String) (timeout : Numeral) :
    ∃ istr, extract [] (some (rawLine hex timeout).toList) = ("raw".toList, some istr) ∧
      fields isSpace istr = fields isSpace hex.toList ++ ["timeout".toList, timeout.digits] := by
  have hraw : fields isSpace "raw".toList = ["raw".toList] := by decide
  have hdigits : fields isSpace timeout.digits = [timeout.digits] :=
    fields_of_word timeout.ne_nil fun c hc ↦ Numeral.isSpace_eq_false (timeout.isDigit c hc)
  have htail : fields isSpace ("timeout".toList ++ ' ' :: timeout.digits) =
      ["timeout".toList, timeout.digits] := by
    rw [fields_append_cons (by decide), hdigits]
    rfl
  have hline : (rawLine hex timeout).toList = "raw".toList ++
      ' ' :: (hex.toList ++ ' ' :: ("timeout".toList ++ ' ' :: timeout.digits)) := by
    simp [rawLine]
  obtain ⟨s', hextract, hs'⟩ := extract_of_fields []
    (t := ' ' :: (hex.toList ++ ' ' :: ("timeout".toList ++ ' ' :: timeout.digits))) hraw
    (by simp [isSpace])
  refine ⟨_, by rw [hline, hextract], ?_⟩
  rw [fields_append_cons (by decide), fields_append_cons (by decide), hs', htail, List.nil_append]

theorem lookup_raw_simple (hlib : lib.Documented) :
    (simpleCreators lib).lookup "raw" = some (prfRawSimple lib) := by
  have hnames := hlib.names_nodup
  simp only [hlib.raw_name, List.nodup_cons, List.mem_cons, not_or] at hnames
  obtain ⟨⟨-, hthermometer, hledG, hledR, -⟩, -⟩ := hnames
  simp only [simpleCreators, hlib.raw_name, List.lookup_cons, beq_eq_false_iff_ne.mpr hthermometer,
    beq_eq_false_iff_ne.mpr hledG, beq_eq_false_iff_ne.mpr hledR, beq_self_eq_true]

/-- Reading a single token again, with blanks for dots, gives the words in any case. -/
theorem retokenize_tokens {sep : Char} (hsep : sep = '.' ∨ sep = ' ') {b : List Byte}
    {text : List Char} (h : HexNotation sep b text) (task : DpaTask lib.Rest) :
    retokenize lib task (fields isSpace text) = .ok (task, fields isSeparator text) := by
  have hplain : parseTokens lib task (fields isSeparator text) =
      .ok (task, fields isSeparator text) := by
    have hwords := h.plain hsep (p := isSeparator) (by decide)
    exact parseTokens_words (fun w hw ↦ (hwords w hw).not_isOption) task
  rcases h.tokens hsep with hsame | ⟨dotted, htokens, hwords⟩
  · rw [hsame]
    unfold retokenize
    split
    case h_1 dotbuf hone =>
      have hmem : dotbuf ∈ fields isSeparator text := by simp [hone]
      obtain ⟨hne, hfree⟩ := of_mem_fields hmem
      rw [fields_undot, fields_of_word hne fun c hc ↦ (hfree c hc).2, ← hone, hplain]
    case h_2 => rfl
  · rw [htokens, retokenize, hwords, hplain]

/-- The task of a raw line. -/
theorem createSimple_rawLine (hlib : lib.Documented) {sep : Char} (hsep : sep = '.' ∨ sep = ' ')
    {b : List Byte} {hex : String} (hhex : HexNotation sep b hex.toList) {timeout : Numeral}
    {t : ℤ} (hvalue : timeout.value = t) (ht : t ≤ 2147483647) :
    createSimple lib (rawLine hex timeout) =
      .ok ⟨.raw, (lib.setTimeout t lib.dpaRaw).fill 0 (b.take lib.maxDpaBuffer.toNat)⟩ := by
  obtain ⟨istr, hextract, hfields⟩ := exists_rawLine hex timeout
  have hfirst : parseTokens lib lib.dpaRaw (fields isSpace istr) =
      .ok (lib.setTimeout t lib.dpaRaw, fields isSpace hex.toList) := by
    rw [hfields]
    exact parseTokens_timeout (hhex.plain hsep (by decide)) lib.dpaRaw hvalue ht
  have hvalues := mapM_stoiHex (List.forall₂_take lib.maxDpaBuffer.toNat (hhex.spells hsep))
  have hbytes : (((b.take lib.maxDpaBuffer.toNat).map fun v ↦ (v.toNat : ℤ)).map
      (BitVec.ofInt 8)) = b.take lib.maxDpaBuffer.toNat := by
    simp [Function.comp_def]
  have hraw : prfRawSimple lib istr =
      .ok ⟨.raw, (lib.setTimeout t lib.dpaRaw).fill 0 (b.take lib.maxDpaBuffer.toNat)⟩ := by
    rw [prfRawSimple, hfirst]
    change (retokenize lib (lib.setTimeout t lib.dpaRaw) (fields isSpace hex.toList) >>= _) = _
    rw [retokenize_tokens hsep hhex]
    change (List.mapM stoiHex _ >>= _) = _
    rw [hvalues]
    change Except.ok _ = _
    rw [hbytes]
  simp only [createSimple, hextract, Option.getD_some, String.ofList_toList, createObject,
    lookup_raw_simple hlib, hraw]

/-! ## The JSON request -/

/-- `{ctype: dpa, type: raw, ..., request: ...}`, with further members. -/
def rawDocument (hex : String) (further : List (String × Value)) : Value :=
  .object ([("ctype", .string "dpa"), ("type", .string "raw")] ++ further ++
    [("request", .string hex)])

theorem lookup_raw_json (hlib : lib.Documented) (others : JsonCreators lib) :
    (jsonCreators lib others).lookup "raw" = some (prfRawJson lib) := by
  simp only [jsonCreators, hlib.raw_name, List.lookup_cons, beq_self_eq_true]

/-- The common members of a raw document, without and with a timeout. -/
theorem parseRequestJson_raw (hex : String) (task : DpaTask lib.Rest) :
    ∃ common : PrfCommonJson, common.requestJ = ⟨true, cString hex⟩ ∧
      parseRequestJson lib (rawDocument hex []) task = .ok (common, task) :=
  ⟨_, rfl, rfl⟩

theorem parseRequestJson_timeout (hex : String) {t : ℤ} (ht : 0 ≤ t) (hmax : t ≤ 2147483647)
    (task : DpaTask lib.Rest) :
    ∃ common : PrfCommonJson, common.requestJ = ⟨true, cString hex⟩ ∧
      parseRequestJson lib (rawDocument hex [("timeout", .int t)]) task =
        .ok (common, lib.setTimeout t task) := by
  have hread : parseRequestJson lib (rawDocument hex [("timeout", .int t)]) task = (do
      let timeoutJ ← getMemberIfExistsAs assertIsInt "timeout"
        (rawDocument hex [("timeout", .int t)]) 0
      let dpaTask :=
        if timeoutJ.has && 0 ≤ timeoutJ.value then lib.setTimeout timeoutJ.value task else task
      return ({ ctype := ⟨true, cString "dpa"⟩, type := ⟨true, cString "raw"⟩, timeoutJ
                requestJ := ⟨true, cString hex⟩ }, dpaTask)) := rfl
  have hint : getMemberIfExistsAs assertIsInt "timeout"
      (rawDocument hex [("timeout", .int t)]) 0 = .ok ⟨true, t⟩ := by
    change (assertIsInt "timeout" (.int t) >>= _) = _
    rw [assertIsInt, if_pos (by omega)]
    rfl
  rw [hint] at hread
  change _ = Except.ok _ at hread
  rw [if_pos (by simpa using ht)] at hread
  exact ⟨_, rfl, hread⟩

/-- The task of a raw document whose text spells bytes. -/
theorem createJson_rawDocument (hlib : lib.Documented) (others : JsonCreators lib)
    {parseString : String → Except Failure Value} {json hex : String}
    {further : List (String × Value)} (hjson : parseString json = .ok (rawDocument hex further))
    {common : PrfCommonJson} {task : DpaTask lib.Rest}
    (hrequest : common.requestJ = ⟨true, cString hex⟩)
    (hcommon : parseRequestJson lib (rawDocument hex further) lib.dpaRaw = .ok (common, task))
    {b : List Byte} (hspells : SpellsBytes (cString hex).toList b) :
    ∃ j, createJson lib others parseString json = .ok j ∧
      j.task = task.fill 0 (b.take lib.maxDpaBuffer.toNat) := by
  have hraw : prfRawJson lib (rawDocument hex further) =
      .ok ⟨.raw, common.noteDots common.requestJ.value,
        task.fill 0 (b.take lib.maxDpaBuffer.toNat)⟩ := by
    rw [prfRawJson, hcommon]
    change (if !common.requestJ.has then _ else _) = _
    rw [if_neg (by simp [hrequest]), hrequest, parseBinary_take hspells]
    rfl
  have hname : cString "raw" = "raw" := by decide
  refine ⟨⟨.raw, common.noteDots common.requestJ.value,
    task.fill 0 (b.take lib.maxDpaBuffer.toNat)⟩, ?_, rfl⟩
  rw [createJson, hjson]
  change createObject (jsonCreators lib others) (cString "raw") (rawDocument hex further) = _
  rw [hname, createObject, lookup_raw_json hlib others]
  exact hraw

/-- The JSON and the line form of a raw request, in either notation of the bytes. -/
theorem raw_requests_agree (hlib : lib.Documented) (others : JsonCreators lib)
    (parseString : String → Except Failure Value) {sep : Char} (hsep : sep = '.' ∨ sep = ' ')
    {b : List Byte} {hex : String} (hhex : HexNotation sep b hex.toList) {t : ℤ} (ht : 0 ≤ t)
    (hmax : t ≤ 2147483647) {timeout : Numeral} (hvalue : timeout.value = t) {json : String}
    (hjson : parseString json = .ok (rawDocument hex [("timeout", .int t)])) :
    ∃ (j : JsonTask lib) (s : SimpleTask lib),
      createJson lib others parseString json = .ok j ∧
        createSimple lib (rawLine hex timeout) = .ok s ∧
          j.task.request.length = s.task.request.length ∧
            j.task.request.bytes = b.take lib.maxDpaBuffer.toNat ∧
              s.task.request.bytes = b.take lib.maxDpaBuffer.toNat ∧
                j.task.timeout = t ∧ s.task.timeout = t := by
  have hspells : SpellsBytes (cString hex).toList b := by
    rw [cString_eq_self (hhex.nul_notMem hsep)]
    exact hhex.spells hsep
  obtain ⟨common, hrequest, hcommon⟩ := parseRequestJson_timeout hex ht hmax lib.dpaRaw
  obtain ⟨j, hj, htask⟩ := createJson_rawDocument hlib others hjson hrequest hcommon hspells
  have hfits : ((0 + (b.take lib.maxDpaBuffer.toNat).length : ℕ) : ℤ) ≤ lib.maxDpaBuffer := by
    have hnonneg := hlib.buffer_nonneg
    rw [List.length_take]
    omega
  have hbytes := DpaTask.fill_bytes hlib (lib.setTimeout t lib.dpaRaw) hfits
  rw [List.range_zero, List.map_nil, List.nil_append] at hbytes
  have htimeout := hlib.setTimeout_timeout t lib.dpaRaw
  refine ⟨j, _, hj, createSimple_rawLine hlib hsep hhex hvalue hmax, ?_, ?_, hbytes, ?_, htimeout⟩
  · rw [htask]
  · rw [htask, hbytes]
  · rw [htask]
    exact htimeout

def thousand : Numeral := ⟨"1000".toList, by decide, by decide⟩

theorem thousand_value : thousand.value = 1000 := by decide

theorem hexNotation_dotted : HexNotation '.' [0x01#8, 0xff#8] "01.fF".toList :=
  ⟨["01".toList, "fF".toList], by decide, by decide⟩

def rawJson : String :=
  "\x7b\"ctype\":\"dpa\",\"type\":\"raw\",\"timeout\":1000,\"request\":\"01.fF\"\x7d"

theorem raw_requests_agree_dotted :
    ∃ (j : JsonTask plainLibrary) (s : SimpleTask plainLibrary),
      createJson plainLibrary (noCreators plainLibrary)
          (parsesTo [(rawJson, rawDocument "01.fF" [("timeout", .int 1000)])]) rawJson = .ok j ∧
        createSimple plainLibrary (rawLine "01.fF" thousand) = .ok s ∧
          j.task.request.length = s.task.request.length ∧
            j.task.request.bytes = [0x01#8, 0xff#8].take plainLibrary.maxDpaBuffer.toNat ∧
              s.task.request.bytes = [0x01#8, 0xff#8].take plainLibrary.maxDpaBuffer.toNat ∧
                j.task.timeout = 1000 ∧ s.task.timeout = 1000 :=
  raw_requests_agree plainLibrary_documented _ _ (.inl rfl) hexNotation_dotted (by decide)
    (by decide) thousand_value rfl

/-! ## A packet by its header -/

/-- `{ctype: dpa, type: raw-hdp, nadr: ..., pnum: ..., pcmd: ..., hwpid: ..., rdata: ...}` -/
def hdpDocument (nadr pnum pcmd hwpid rdata : String) : Value :=
  .object [("ctype", .string "dpa"), ("type", .string "raw-hdp"), ("nadr", .string nadr),
    ("pnum", .string pnum), ("pcmd", .string pcmd), ("hwpid", .string hwpid),
    ("rdata", .string rdata)]

/-- The bytes of a header. -/
def headerBytes (nadr : Word) (pnum pcmd : Byte) (hwpid : Word) : List Byte :=
  littleEndian nadr ++ [pnum, pcmd] ++ littleEndian hwpid

theorem lookup_rawHdp_json (hlib : lib.Documented) (others : JsonCreators lib) :
    (jsonCreators lib others).lookup "raw-hdp" = some (prfRawHdpJson lib) := by
  have hraw : ("raw-hdp" == "raw") = false := by decide
  simp only [jsonCreators, hlib.raw_name, List.lookup_cons, hraw, beq_self_eq_true]

/-- The task with the fields of the header set, as the constructor leaves it. -/
def withHeader (lib : DpaLibrary) (nadr : Word) (pnum pcmd : Byte) (hwpid : Word) :
    DpaTask lib.Rest :=
  let task := lib.setHwpid hwpid (lib.setAddress nadr lib.dpaRaw)
  { task with
    request := ((task.request.store pnumOffset [pnum]).store pcmdOffset [pcmd]).store hwpidOffset
      (littleEndian hwpid) }

theorem withHeader_buffer (hlib : lib.Documented) (nadr : Word) (pnum pcmd : Byte) (hwpid : Word) :
    (List.range headerSize).map (withHeader lib nadr pnum pcmd hwpid).request.buffer =
      headerBytes nadr pnum pcmd hwpid := by
  have hrequest : (lib.setHwpid hwpid (lib.setAddress nadr lib.dpaRaw)).request =
      (lib.dpaRaw.request.store nadrOffset (littleEndian nadr)).store hwpidOffset
        (littleEndian hwpid) := by
    rw [hlib.setHwpid_request, hlib.setAddress_request]
  have hrange : List.range headerSize = [0, 1, 2, 3, 4, 5] := by decide
  simp only [withHeader, hrequest, hrange, List.map_cons, List.map_nil]
  rfl

/-- The common members of a raw-hdp document: the address and the profile are set. -/
theorem parseRequestJson_hdp {nadr pnum pcmd hwpid rdata : String} {a h : Word}
    (hnadr : SpellsNumber (cString nadr).toList a) (hhwpid : SpellsNumber (cString hwpid).toList h)
    (task : DpaTask lib.Rest) :
    ∃ common : PrfCommonJson,
      parseRequestJson lib (hdpDocument nadr pnum pcmd hwpid rdata) task =
        .ok (common, lib.setHwpid h (lib.setAddress a task)) := by
  have hread : parseRequestJson lib (hdpDocument nadr pnum pcmd hwpid rdata) task = (do
      let dpaTask ← (lib.setAddress · task) <$> parseHexaNum 16 (cString nadr).toList
      let dpaTask ← (lib.setHwpid · dpaTask) <$> parseHexaNum 16 (cString hwpid).toList
      return ({ ctype := ⟨true, cString "dpa"⟩, type := ⟨true, cString "raw-hdp"⟩
                nadr := ⟨true, cString nadr⟩, hwpid := ⟨true, cString hwpid⟩ }, dpaTask)) := by
    unfold parseRequestJson
    generalize parseHexaNum 16 = f
    rfl
  rw [parseHexaNum_spelled (by decide) hnadr, parseHexaNum_spelled (by decide) hhwpid] at hread
  exact ⟨_, hread⟩

theorem prfRawHdpJson_hdpDocument {nadr pnum pcmd hwpid rdata : String} {a h : Word} {p c : Byte}
    {d : List Byte} (hnadr : SpellsNumber (cString nadr).toList a)
    (hpnum : SpellsNumber (cString pnum).toList p) (hpcmd : SpellsNumber (cString pcmd).toList c)
    (hhwpid : SpellsNumber (cString hwpid).toList h)
    (hrdata : SpellsBytes (cString rdata).toList d) (hd : d.length ≤ lib.dpaMaxDataLength) :
    ∃ j, prfRawHdpJson lib (hdpDocument nadr pnum pcmd hwpid rdata) = .ok j ∧
      j.task = (withHeader lib a p c h).fill headerSize d := by
  obtain ⟨common, hcommon⟩ := @parseRequestJson_hdp lib nadr pnum pcmd hwpid rdata a h hnadr hhwpid
    lib.dpaRaw
  have hbytes : parseBinary (cString rdata).toList lib.dpaMaxDataLength = .ok d :=
    parseBinary_spelled hrdata hd
  have hread : prfRawHdpJson lib (hdpDocument nadr pnum pcmd hwpid rdata) = (do
      let parsed ← parseRequestJson lib (hdpDocument nadr pnum pcmd hwpid rdata) lib.dpaRaw
      let pnumByte ← parseHexaNum 8 (cString pnum).toList
      let request := parsed.2.request.store pnumOffset [pnumByte]
      let pcmdByte ← parseHexaNum 8 (cString pcmd).toList
      let request := request.store pcmdOffset [pcmdByte]
      let hwpidWord ← parseHexaNum 16 (cString hwpid).toList
      let request := request.store hwpidOffset (littleEndian hwpidWord)
      let bytes ← parseBinary (cString rdata).toList lib.dpaMaxDataLength
      let common := { parsed.1 with hwpid := ⟨parsed.1.hwpid.has, cString hwpid⟩ }
      return ⟨.rawHdp (cString pnum) (cString pcmd) (cString rdata),
        common.noteDots (cString rdata), { parsed.2 with request }.fill headerSize bytes⟩) := by
    unfold prfRawHdpJson
    generalize parseRequestJson lib = parse
    generalize @parseHexaNum = number
    generalize parseBinary = binary
    rfl
  rw [hcommon, parseHexaNum_spelled (by decide) hpnum, parseHexaNum_spelled (by decide) hpcmd,
    parseHexaNum_spelled (by decide) hhwpid, hbytes] at hread
  exact ⟨_, hread, rfl⟩

/-- The task of a raw-hdp document: the header, and the data behind it. -/
theorem createJson_hdpDocument (hlib : lib.Documented) (others : JsonCreators lib)
    {parseString : String → Except Failure Value} {json nadr pnum pcmd hwpid rdata : String}
    (hjson : parseString json = .ok (hdpDocument nadr pnum pcmd hwpid rdata)) {a h : Word}
    {p c : Byte} {d : List Byte} (hnadr : SpellsNumber (cString nadr).toList a)
    (hpnum : SpellsNumber (cString pnum).toList p) (hpcmd : SpellsNumber (cString pcmd).toList c)
    (hhwpid : SpellsNumber (cString hwpid).toList h)
    (hrdata : SpellsBytes (cString rdata).toList d) (hd : d.length ≤ lib.dpaMaxDataLength) :
    ∃ j, createJson lib others parseString json = .ok j ∧
      j.task = (withHeader lib a p c h).fill headerSize d := by
  obtain ⟨j, hcreate, htask⟩ := prfRawHdpJson_hdpDocument hnadr hpnum hpcmd hhwpid hrdata hd
  have hname : cString "raw-hdp" = "raw-hdp" := by decide
  refine ⟨j, ?_, htask⟩
  rw [createJson, hjson]
  change createObject (jsonCreators lib others) (cString "raw-hdp")
    (hdpDocument nadr pnum pcmd hwpid rdata) = _
  rw [hname, createObject, lookup_rawHdp_json hlib others]
  exact hcreate

theorem length_headerBytes_append (nadr : Word) (pnum pcmd : Byte) (hwpid : Word)
    (d : List Byte) :
    (headerBytes nadr pnum pcmd hwpid ++ d).length = headerSize + d.length := by
  rw [List.length_append]
  rfl

/-- A packet given by its header fields and data, and the same packet given as raw
bytes. -/
theorem raw_hdp_agrees (hlib : lib.Documented) (others : JsonCreators lib)
    (parseString : String → Except Failure Value) {nadr pnum pcmd hwpid rdata request : String}
    {a h : Word} {p c : Byte} {d : List Byte} (hnadr : SpellsNumber (cString nadr).toList a)
    (hpnum : SpellsNumber (cString pnum).toList p) (hpcmd : SpellsNumber (cString pcmd).toList c)
    (hhwpid : SpellsNumber (cString hwpid).toList h)
    (hrdata : SpellsBytes (cString rdata).toList d) (hd : d.length ≤ lib.dpaMaxDataLength)
    (hrequest : SpellsBytes (cString request).toList (headerBytes a p c h ++ d)) {json raw : String}
    (hjson : parseString json = .ok (hdpDocument nadr pnum pcmd hwpid rdata))
    (hraw : parseString raw = .ok (rawDocument request [])) :
    ∃ (hdp j : JsonTask lib),
      createJson lib others parseString json = .ok hdp ∧
        createJson lib others parseString raw = .ok j ∧
          hdp.task.request.length = j.task.request.length ∧
            hdp.task.request.bytes = j.task.request.bytes := by
  obtain ⟨hdp, hhdp, htask⟩ :=
    createJson_hdpDocument hlib others hjson hnadr hpnum hpcmd hhwpid hrdata hd
  obtain ⟨common, hkept, hcommon⟩ := parseRequestJson_raw request lib.dpaRaw
  obtain ⟨j, hj, hjtask⟩ := createJson_rawDocument hlib others hraw hkept hcommon hrequest
  have hsize := length_headerBytes_append a p c h d
  have hmax : ((headerSize + d.length : ℕ) : ℤ) ≤ lib.maxDpaBuffer := by
    have hfits := hlib.data_fits
    push_cast
    omega
  have htake : (headerBytes a p c h ++ d).take lib.maxDpaBuffer.toNat = headerBytes a p c h ++ d :=
    List.take_of_length_le (by omega)
  have hmax' : ((0 + (headerBytes a p c h ++ d).length : ℕ) : ℤ) ≤ lib.maxDpaBuffer := by
    rw [zero_add, hsize]
    exact hmax
  rw [htake] at hjtask
  refine ⟨hdp, j, hhdp, hj, ?_, ?_⟩
  · rw [htask, hjtask, DpaTask.fill_length hlib _ hmax, DpaTask.fill_length hlib _ hmax', hsize,
      zero_add]
  · rw [htask, hjtask, DpaTask.fill_bytes hlib _ hmax, DpaTask.fill_bytes hlib _ hmax',
      withHeader_buffer hlib, List.range_zero, List.map_nil, List.nil_append]

def hdpJson : String :=
  "\x7b\"ctype\":\"dpa\",\"type\":\"raw-hdp\",\"nadr\":\"1\",\"pnum\":\"06\",\"pcmd\":\"3\"," ++
    "\"hwpid\":\"ffff\",\"rdata\":\"0a\"\x7d"

def packetJson : String :=
  "\x7b\"ctype\":\"dpa\",\"type\":\"raw\",\"request\":\"01.00.06.03.ff.ff.0a\"\x7d"

def packetTable : List (String × Value) :=
  [(hdpJson, hdpDocument "1" "06" "3" "ffff" "0a"),
    (packetJson, rawDocument "01.00.06.03.ff.ff.0a" [])]

theorem spellsNumber_digits {w : ℕ} {s : List Char} {v : BitVec w} (digits : List Char)
    (hfields : fields isSpace s = [digits]) (hne : digits ≠ [])
    (hdigits : ∀ c ∈ digits, isHexDigit c = true) (hvalue : (v.toNat : ℤ) = hexMagnitude digits) :
    SpellsNumber s v :=
  ⟨digits, hfields, [], digits, .none, hne, hdigits, rfl, hvalue⟩

theorem hexNotation_packet :
    HexNotation '.' (headerBytes 1 6 3 0xffff ++ [0x0a#8]) "01.00.06.03.ff.ff.0a".toList :=
  ⟨["01".toList, "00".toList, "06".toList, "03".toList, "ff".toList, "ff".toList, "0a".toList],
    by decide, by decide⟩

theorem hexNotation_data : HexNotation '.' [0x0a#8] "0a".toList :=
  ⟨["0a".toList], by decide, by decide⟩

theorem raw_hdp_agrees_ledr :
    ∃ (hdp j : JsonTask plainLibrary),
      createJson plainLibrary (noCreators plainLibrary) (parsesTo packetTable) hdpJson = .ok hdp ∧
        createJson plainLibrary (noCreators plainLibrary) (parsesTo packetTable) packetJson =
            .ok j ∧
          hdp.task.request.length = j.task.request.length ∧
            hdp.task.request.bytes = j.task.request.bytes := by
  have hnadr : SpellsNumber (cString "1").toList 0x0001#16 :=
    spellsNumber_digits "1".toList (by decide) (by decide) (by decide) (by decide)
  have hpnum : SpellsNumber (cString "06").toList 0x06#8 :=
    spellsNumber_digits "06".toList (by decide) (by decide) (by decide) (by decide)
  have hpcmd : SpellsNumber (cString "3").toList 0x03#8 :=
    spellsNumber_digits "3".toList (by decide) (by decide) (by decide) (by decide)
  have hhwpid : SpellsNumber (cString "ffff").toList 0xffff#16 :=
    spellsNumber_digits "ffff".toList (by decide) (by decide) (by decide) (by decide)
  have hrdata : SpellsBytes (cString "0a").toList [0x0a#8] := hexNotation_data.spells (.inl rfl)
  have hpacket : SpellsBytes (cString "01.00.06.03.ff.ff.0a").toList
      (headerBytes 0x0001#16 0x06#8 0x03#8 0xffff#16 ++ [0x0a#8]) :=
    hexNotation_packet.spells (.inl rfl)
  have hjson : parsesTo packetTable hdpJson = .ok (hdpDocument "1" "06" "3" "ffff" "0a") := rfl
  have hraw : parsesTo packetTable packetJson = .ok (rawDocument "01.00.06.03.ff.ff.0a" []) := rfl
  exact raw_hdp_agrees plainLibrary_documented _ _ hnadr hpnum hpcmd hhwpid hrdata (by decide)
    hpacket hjson hraw

end IqrfDaemon.Serializer
