import IqrfDaemon.Serializer.Agreement
import IqrfDaemon.Serializer.Encode

/-!
# What an answer says is read back

The encoders print numbers and bytes with a width and a separator of their own,
and the parsers read either notation.  What they print is read back, from the
texts alone and from the members of whole replies.
-/

namespace IqrfDaemon.Serializer

open Json Text

/-! ## Numbers -/

theorem hexDigit_digitChar :
    ∀ d : Fin 16, isHexDigit (Nat.digitChar d) = true ∧ hexDigit (Nat.digitChar d) = (d : ℕ) := by
  decide

theorem hexMagnitude_append_digit (digits : List Char) (c : Char) :
    hexMagnitude (digits ++ [c]) = 16 * hexMagnitude digits + hexDigit c := by
  simp [hexMagnitude]

theorem toDigits_spec (n : ℕ) :
    (∀ c ∈ Nat.toDigits 16 n, isHexDigit c = true) ∧ hexMagnitude (Nat.toDigits 16 n) = n := by
  induction n using Nat.strong_induction_on with
  | _ n ih =>
      by_cases hlt : n < 16
      · obtain ⟨hdigit, hvalue⟩ := hexDigit_digitChar ⟨n, hlt⟩
        rw [Nat.toDigits_of_lt_base hlt]
        exact ⟨by simpa using hdigit, by simpa [hexMagnitude] using hvalue⟩
      · have hmod : n % 16 < 16 := Nat.mod_lt n (by decide)
        obtain ⟨hdigits, hvalue⟩ := ih (n / 16) (by omega)
        obtain ⟨hlast, hlast'⟩ := hexDigit_digitChar ⟨n % 16, hmod⟩
        rw [Nat.toDigits_of_base_le (by decide) (by omega)]
        refine ⟨?_, ?_⟩
        · intro c hc
          rcases List.mem_append.mp hc with hc | hc
          · exact hdigits c hc
          · obtain rfl := List.mem_singleton.mp hc
            exact hlast
        · rw [hexMagnitude_append_digit, hvalue, hlast']
          dsimp only
          omega

/-- Leading zeros keep the value. -/
theorem hexMagnitude_zeros (k : ℕ) (digits : List Char) :
    hexMagnitude (List.replicate k '0' ++ digits) = hexMagnitude digits := by
  have hzeros : (List.replicate k '0').foldl (fun n c ↦ 16 * n + hexDigit c) 0 = 0 := by
    induction k with
    | zero => rfl
    | succ k ih => exact ih
  rw [hexMagnitude, List.foldl_append, hzeros, hexMagnitude]

theorem toList_encodeHexaNum (width n : ℕ) :
    (encodeHexaNum width n).toList =
      List.replicate (width - (Nat.toDigits 16 n).length) '0' ++ Nat.toDigits 16 n :=
  String.toList_ofList

theorem isHexDigit_encodeHexaNum (width n : ℕ) :
    ∀ c ∈ (encodeHexaNum width n).toList, isHexDigit c = true := by
  intro c hc
  rw [toList_encodeHexaNum] at hc
  rcases List.mem_append.mp hc with hc | hc
  · obtain rfl := List.eq_of_mem_replicate hc
    rfl
  · exact (toDigits_spec n).1 c hc

theorem hexMagnitude_encodeHexaNum (width n : ℕ) :
    hexMagnitude (encodeHexaNum width n).toList = n := by
  rw [toList_encodeHexaNum, hexMagnitude_zeros, (toDigits_spec n).2]

theorem length_encodeHexaNum {width n : ℕ} (hwidth : 0 < width) (hn : n < 16 ^ width) :
    (encodeHexaNum width n).toList.length = width := by
  have hle := (Nat.length_toDigits_le_iff (by decide) hwidth).mpr hn
  rw [toList_encodeHexaNum, List.length_append, List.length_replicate]
  omega

/-- A printed number is read back, whatever its width. -/
theorem parseHexaNum_encodeHexaNum {w : ℕ} (hw : w ≤ 31) (width : ℕ) (v : BitVec w) :
    parseHexaNum w (encodeHexaNum width v.toNat).toList = .ok v := by
  have hdigits := isHexDigit_encodeHexaNum width v.toNat
  have hne : (encodeHexaNum width v.toNat).toList ≠ [] := by
    rw [toList_encodeHexaNum]
    simp
  apply parseHexaNum_spelled hw
  refine ⟨_, fields_of_word hne fun c hc ↦ isSpace_eq_false_of_isHexDigit (hdigits c hc), ?_⟩
  exact ⟨[], _, .none, hne, hdigits, (List.nil_append _).symm,
    (hexMagnitude_encodeHexaNum width v.toNat).symm⟩

theorem twoDigits_encodeHexaNum (b : Byte) : TwoDigits (encodeHexaNum 2 b.toNat).toList b :=
  ⟨length_encodeHexaNum (by decide) b.isLt, isHexDigit_encodeHexaNum 2 b.toNat,
    hexMagnitude_encodeHexaNum 2 b.toNat⟩

/-! ## Bytes -/

/-- `TracerHexString` prints each byte as two hexadecimal digits and a blank. -/
def PrintsHex (p : Printers) : Prop :=
  ∀ bytes : List Byte, ∃ words, List.Forall₂ TwoDigits words bytes ∧
    (p.tracerHexString bytes).toList = words.flatMap fun w ↦ w ++ [' ']

theorem flatMap_eq_intercalate (c : Char) {words : List (List Char)} (hne : words ≠ []) :
    (words.flatMap fun w ↦ w ++ [c]) = List.intercalate [c] words ++ [c] := by
  induction words with
  | nil => exact absurd rfl hne
  | cons w words ih =>
      cases words with
      | nil => simp
      | cons v words =>
          rw [List.flatMap_cons, ih (by simp), intercalate_cons_cons]
          simp

theorem dropLast_append (s : List Char) (c : Char) : dropLast (s ++ [c]) c = s := by
  simp [dropLast]

/-- The dots of the dotted notation take the place of the blanks. -/
theorem map_blank_flatMap {words : List (List Char)}
    (hwords : ∀ w ∈ words, ∀ c ∈ w, isHexDigit c = true) :
    (words.flatMap fun w ↦ w ++ [' ']).map (fun c ↦ if c = ' ' then '.' else c) =
      words.flatMap fun w ↦ w ++ ['.'] := by
  rw [List.map_flatMap]
  apply List.flatMap_congr
  intro w hw
  have hword : w.map (fun c ↦ if c = ' ' then '.' else c) = w.map id := by
    apply List.map_congr_left
    intro c hc
    apply if_neg
    rintro rfl
    exact absurd (hwords w hw ' ' hc) (by decide)
  rw [List.map_append, hword, List.map_id]
  rfl

/-- Either way the text is two-digit words joined by dots or by blanks. -/
theorem hexNotation_encodeBinary {p : Printers} (hp : PrintsHex p) (dotNotation : Bool)
    (to_ : String) (from_ : List Byte) :
    ∃ sep, (sep = '.' ∨ sep = ' ') ∧
      HexNotation sep from_ (encodeBinary p dotNotation to_ from_).toList := by
  obtain ⟨words, hwords, htext⟩ := hp from_
  by_cases hnil : from_ = []
  · subst hnil
    exact ⟨'.', Or.inl rfl, [], .nil, by simp [encodeBinary]⟩
  · have hne : words ≠ [] := by
      rintro rfl
      cases hwords
      exact hnil rfl
    simp only [encodeBinary, if_neg hnil, htext]
    split
    · refine ⟨'.', Or.inl rfl, words, hwords, ?_⟩
      rw [map_blank_flatMap fun w hw ↦ (words_of_twoDigits hwords w hw).2,
        flatMap_eq_intercalate '.' hne, dropLast_append, String.toList_ofList]
    · refine ⟨' ', Or.inr rfl, words, hwords, ?_⟩
      rw [flatMap_eq_intercalate ' ' hne, dropLast_append, String.toList_ofList]

theorem parseBinary_encodeBinary {p : Printers} (hp : PrintsHex p) (dotNotation : Bool)
    (to_ : String) (from_ : List Byte) {maxlen : ℤ} (hlength : from_.length ≤ maxlen) :
    parseBinary (encodeBinary p dotNotation to_ from_).toList maxlen = .ok from_ := by
  obtain ⟨sep, hsep, hhex⟩ := hexNotation_encodeBinary hp dotNotation to_ from_
  exact parseBinary_spelled (hhex.spells hsep) hlength

theorem cString_encodeBinary {p : Printers} (hp : PrintsHex p) (dotNotation : Bool)
    (to_ : String) (from_ : List Byte) :
    cString (encodeBinary p dotNotation to_ from_) = encodeBinary p dotNotation to_ from_ := by
  obtain ⟨sep, hsep, hhex⟩ := hexNotation_encodeBinary hp dotNotation to_ from_
  exact cString_eq_self (hhex.nul_notMem hsep)

theorem cString_encodeHexaNum (width n : ℕ) :
    cString (encodeHexaNum width n) = encodeHexaNum width n := by
  apply cString_eq_self
  intro hmem
  exact absurd (isHexDigit_encodeHexaNum width n _ hmem) (by decide)

theorem plainPrinters_printsHex : PrintsHex plainPrinters := by
  intro bytes
  refine ⟨bytes.map fun b ↦ (encodeHexaNum 2 b.toNat).toList, ?_, ?_⟩
  · induction bytes with
    | nil => exact .nil
    | cons b bytes ih => exact .cons (twoDigits_encodeHexaNum b) ih
  · simp [plainPrinters, String.toList_join, List.flatMap_map]

/-! ## What is added to a document -/

/-- Every member that a step adds to the document has the property. -/
def AddsOnly (P : String × Value → Prop) (doc doc' : List (String × Value)) : Prop :=
  ∃ added, doc' = doc ++ added ∧ ∀ m ∈ added, P m

/-- Some member that a step adds has the property. -/
def AddsSome (P : String × Value → Prop) (doc doc' : List (String × Value)) : Prop :=
  ∃ added, doc' = doc ++ added ∧ ∃ m ∈ added, P m

section Members

variable {P Q : String × Value → Prop} {doc : List (String × Value)} {c : PrfCommonJson}

theorem AddsOnly.start {doc' : List (String × Value)} (h : doc' = doc) : AddsOnly P doc doc' :=
  ⟨[], by simp [h], by simp⟩

theorem AddsOnly.addMember (h : AddsOnly P doc c.doc) {name : String} {v : Value}
    (hP : P (name, v)) : AddsOnly P doc (c.addMember name v).doc := by
  obtain ⟨added, hdoc, hadded⟩ := h
  refine ⟨added ++ [(name, v)], ?_, ?_⟩
  · simp [PrfCommonJson.addMember, hdoc]
  · intro m hm
    rcases List.mem_append.mp hm with hm | hm
    · exact hadded m hm
    · obtain rfl := List.mem_singleton.mp hm
      exact hP

theorem AddsOnly.ite (h : AddsOnly P doc c.doc) {q : Prop} [Decidable q] {name : String}
    {v : Value} (hP : q → P (name, v)) :
    AddsOnly P doc (if q then c.addMember name v else c).doc := by
  split
  case isTrue hq => exact h.addMember (hP hq)
  case isFalse => exact h

theorem AddsOnly.put (h : AddsOnly P doc c.doc) {name : String} {k : Kept String}
    (hP : k.has = true → P (name, .string (cString k.value))) :
    AddsOnly P doc (c.put name k).doc :=
  h.ite hP

theorem AddsOnly.choice {c' : PrfCommonJson} (h : AddsOnly P doc c.doc) (q : Prop) [Decidable q]
    (hdoc : c'.doc = c.doc) : AddsOnly P doc (if q then c else c').doc := by
  split
  · exact h
  · rwa [hdoc]

theorem AddsOnly.prio1 (h : AddsOnly P doc c.doc) (tx : Transaction)
    (hP : ∀ name ∈ ["ctype", "type", "msgid", "timeout", "nadr"], ∀ v, P (name, v)) :
    AddsOnly P doc (c.addResponseJsonPrio1Params tx).doc := by
  unfold PrfCommonJson.addResponseJsonPrio1Params
  refine AddsOnly.put ?_ fun _ ↦ hP "nadr" (by simp) _
  refine AddsOnly.choice ?_ _ rfl
  refine AddsOnly.ite ?_ fun _ ↦ hP "timeout" (by simp) _
  refine AddsOnly.put ?_ fun _ ↦ hP "msgid" (by simp) _
  refine AddsOnly.put ?_ fun _ ↦ hP "type" (by simp) _
  exact h.put fun _ ↦ hP "ctype" (by simp) _

theorem AddsOnly.prio2 (h : AddsOnly P doc c.doc) (tx : Transaction)
    (hP : ∀ name ∈ ["cmd", "hwpid"], ∀ v, P (name, v)) :
    AddsOnly P doc (c.addResponseJsonPrio2Params tx).doc := by
  unfold PrfCommonJson.addResponseJsonPrio2Params
  refine AddsOnly.put ?_ fun _ ↦ hP "hwpid" (by simp) _
  refine AddsOnly.choice ?_ _ rfl
  refine AddsOnly.put ?_ fun _ ↦ hP "cmd" (by simp) _
  exact h.choice _ rfl

theorem AddsOnly.answer (h : AddsOnly P doc c.doc) (p : Printers) (tx : Transaction)
    (hP : ∀ name ∈ ["rcode", "dpaval", "rdata"], ∀ v, P (name, v)) :
    AddsOnly P doc (c.addAnswer p tx).doc := by
  unfold PrfCommonJson.addAnswer
  refine AddsOnly.put ?_ fun _ ↦ hP "rdata" (by simp) _
  refine AddsOnly.put ?_ fun _ ↦ hP "dpaval" (by simp) _
  refine AddsOnly.put ?_ fun _ ↦ hP "rcode" (by simp) _
  exact h

/-- A document only grows. -/
theorem AddsOnly.extend (h : AddsOnly (fun _ ↦ True) doc c.doc) (name : String)
    (k : Kept String) : AddsOnly (fun _ ↦ True) doc (c.put name k).doc :=
  h.put fun _ ↦ trivial

theorem AddsSome.of_addMember (h : AddsOnly Q doc c.doc) {name : String} {v : Value}
    (hP : P (name, v)) : AddsSome P doc (c.addMember name v).doc := by
  obtain ⟨added, hdoc, -⟩ := h
  exact ⟨added ++ [(name, v)], by simp [PrfCommonJson.addMember, hdoc], (name, v), by simp, hP⟩

theorem AddsSome.of_put (h : AddsOnly Q doc c.doc) {name : String} {k : Kept String}
    (hk : k.has = true) (hP : P (name, .string (cString k.value))) :
    AddsSome P doc (c.put name k).doc := by
  rw [PrfCommonJson.put, if_pos hk]
  exact .of_addMember h hP

theorem AddsSome.append {d d' : List (String × Value)} (h : AddsSome P doc d)
    (hd : AddsOnly Q d d') : AddsSome P doc d' := by
  obtain ⟨added, rfl, m, hm, hP⟩ := h
  obtain ⟨more, rfl, -⟩ := hd
  exact ⟨added ++ more, by simp, m, List.mem_append_left _ hm, hP⟩

/-- A member stays when another is put. -/
theorem AddsSome.put (h : AddsSome P doc c.doc) (name : String) (k : Kept String) :
    AddsSome P doc (c.put name k).doc :=
  h.append (AddsOnly.extend (.start rfl) name k)

end Members

/-! ## What an encoder leaves as it is -/

section Fields

variable {T : Type} {f : PrfCommonJson → T}

theorem put_field (hf : ∀ c doc, f { c with doc := doc } = f c) (c : PrfCommonJson)
    (name : String) (k : Kept String) : f (c.put name k) = f c := by
  unfold PrfCommonJson.put
  split
  · exact hf _ _
  · rfl

/-- The first members change the document and the address. -/
theorem prio1_field (hf : ∀ c doc nadr, f { c with doc := doc, nadr := nadr } = f c)
    (c : PrfCommonJson) (tx : Transaction) : f (c.addResponseJsonPrio1Params tx) = f c := by
  have hdoc : ∀ c doc, f { c with doc := doc } = f c := fun c doc ↦ hf c doc c.nadr
  have hnadr : ∀ c nadr, f { c with nadr := nadr } = f c := fun c nadr ↦ hf c c.doc nadr
  unfold PrfCommonJson.addResponseJsonPrio1Params
  rw [put_field hdoc]
  have hmsgid : f (((c.put "ctype" c.ctype).put "type" (c.put "ctype" c.ctype).type).put "msgid"
      ((c.put "ctype" c.ctype).put "type" (c.put "ctype" c.ctype).type).msgid) = f c := by
    rw [put_field hdoc, put_field hdoc, put_field hdoc]
  split <;> split
  · exact (hdoc _ _).trans hmsgid
  · exact hmsgid
  · exact (hnadr _ _).trans ((hdoc _ _).trans hmsgid)
  · exact (hnadr _ _).trans hmsgid

/-- The second members change the document, the command and the profile. -/
theorem prio2_field (hf : ∀ c doc cmdJ hwpid,
      f { c with doc := doc, cmdJ := cmdJ, hwpid := hwpid } = f c)
    (c : PrfCommonJson) (tx : Transaction) : f (c.addResponseJsonPrio2Params tx) = f c := by
  have hdoc : ∀ c doc, f { c with doc := doc } = f c := fun c doc ↦ hf c doc c.cmdJ c.hwpid
  have hcmd : ∀ c cmdJ, f { c with cmdJ := cmdJ } = f c := fun c cmdJ ↦ hf c c.doc cmdJ c.hwpid
  have hhwpid : ∀ c hwpid, f { c with hwpid := hwpid } = f c :=
    fun c hwpid ↦ hf c c.doc c.cmdJ hwpid
  unfold PrfCommonJson.addResponseJsonPrio2Params
  rw [put_field hdoc]
  split
  · exact put_field hdoc _ _ _
  · exact (hhwpid _ _).trans ((put_field hdoc _ _ _).trans (hcmd _ _))

/-- The answer changes the document and its own three texts. -/
theorem answer_field (hf : ∀ c doc rcodeJ dpavalJ rdataJ,
      f { c with doc := doc, rcodeJ := rcodeJ, dpavalJ := dpavalJ, rdataJ := rdataJ } = f c)
    (c : PrfCommonJson) (p : Printers) (tx : Transaction) : f (c.addAnswer p tx) = f c := by
  have hdoc : ∀ c doc, f { c with doc := doc } = f c :=
    fun c doc ↦ hf c doc c.rcodeJ c.dpavalJ c.rdataJ
  unfold PrfCommonJson.addAnswer
  rw [put_field hdoc]
  refine (hf _ _ _ _ _).trans ?_
  rw [put_field hdoc]
  refine (hf _ _ _ _ _).trans ?_
  rw [put_field hdoc]
  exact hf _ _ _ _ _

end Fields

/-! ## Messages in raw replies -/

/-- The value is a text that `parseBinary` reads back to the bytes. -/
def Decodes (v : Value) (bytes : List Byte) : Prop :=
  ∃ s, v = .string s ∧
    ∀ maxlen : ℤ, bytes.length ≤ maxlen → parseBinary s.toList maxlen = .ok bytes

theorem decodes_encodeBinary {p : Printers} (hp : PrintsHex p) (dotNotation : Bool)
    (to_ : String) (bytes : List Byte) :
    Decodes (.string (cString (encodeBinary p dotNotation to_ bytes))) bytes := by
  refine ⟨_, rfl, fun maxlen hlength ↦ ?_⟩
  rw [cString_encodeBinary hp]
  exact parseBinary_encodeBinary hp dotNotation to_ bytes hlength

/-- A member of one of the three messages decodes to its bytes. -/
def Faithful (request : DpaMessage) (tx : Transaction) (m : String × Value) : Prop :=
  (m.1 = "request" → Decodes m.2 request.bytes) ∧
    (m.1 = "confirmation" → Decodes m.2 tx.confirmation.bytes) ∧
      (m.1 = "response" → Decodes m.2 tx.response.bytes)

theorem faithful_of_other {request : DpaMessage} {tx : Transaction} {name : String}
    (h : name ∉ ["request", "confirmation", "response"]) (v : Value) :
    Faithful request tx (name, v) := by
  simp only [List.mem_cons, List.not_mem_nil, or_false, not_or] at h
  exact ⟨fun heq ↦ absurd heq h.1, fun heq ↦ absurd heq h.2.1, fun heq ↦ absurd heq h.2.2⟩

theorem refresh_has (k : Kept String) (v : String) : (PrfCommonJson.refresh k v).has = k.has := by
  unfold PrfCommonJson.refresh
  split
  case isTrue hk => exact hk.symm
  case isFalse => rfl

theorem refresh_value {k : Kept String} {v : String}
    (hk : (PrfCommonJson.refresh k v).has = true) : (PrfCommonJson.refresh k v).value = v := by
  rw [refresh_has] at hk
  rw [PrfCommonJson.refresh, if_pos hk]

section Messages

variable {p : Printers} {doc : List (String × Value)} {c : PrfCommonJson}
  (request : DpaMessage) (tx : Transaction)

theorem AddsOnly.messages (hp : PrintsHex p)
    (h : AddsOnly (Faithful request tx) doc c.doc) :
    AddsOnly (Faithful request tx) doc (c.addMessages p request tx).doc := by
  unfold PrfCommonJson.addMessages
  refine AddsOnly.put ?_ fun _ ↦ faithful_of_other (by decide) _
  refine AddsOnly.put ?_ fun hk ↦ ⟨by simp, by simp, fun _ ↦ ?_⟩
  · refine AddsOnly.put ?_ fun _ ↦ faithful_of_other (by decide) _
    refine AddsOnly.put ?_ fun hk ↦ ⟨by simp, fun _ ↦ ?_, by simp⟩
    · refine AddsOnly.put ?_ fun _ ↦ faithful_of_other (by decide) _
      refine AddsOnly.put ?_ fun hk ↦ ⟨fun _ ↦ ?_, by simp, by simp⟩
      · exact h
      · rw [refresh_value hk]
        exact decodes_encodeBinary hp _ _ _
    · rw [refresh_value hk]
      exact decodes_encodeBinary hp _ _ _
  · rw [refresh_value hk]
    exact decodes_encodeBinary hp _ _ _

theorem AddsOnly.mono {P Q : String × Value → Prop} {d d' : List (String × Value)}
    (h : AddsOnly P d d') (hPQ : ∀ m, P m → Q m) : AddsOnly Q d d' := by
  obtain ⟨added, hdoc, hadded⟩ := h
  exact ⟨added, hdoc, fun m hm ↦ hPQ m (hadded m hm)⟩

/-- A reply shows each of the messages that it is asked for. -/
theorem AddsSome.messages {P : String × Value → Prop} (h : AddsOnly P doc c.doc) :
    (c.requestJ.has = true →
        AddsSome (fun m ↦ m.1 = "request") doc (c.addMessages p request tx).doc) ∧
      (c.confirmationJ.has = true →
        AddsSome (fun m ↦ m.1 = "confirmation") doc (c.addMessages p request tx).doc) ∧
      (c.responseJ.has = true →
        AddsSome (fun m ↦ m.1 = "response") doc (c.addMessages p request tx).doc) := by
  have hplain : AddsOnly (fun _ ↦ True) doc c.doc := h.mono fun _ _ ↦ trivial
  have hdoc : ∀ (c : PrfCommonJson) (d : List (String × Value)),
      ({ c with doc := d } : PrfCommonJson).confirmationJ = c.confirmationJ ∧
        ({ c with doc := d } : PrfCommonJson).responseJ = c.responseJ := fun _ _ ↦ ⟨rfl, rfl⟩
  unfold PrfCommonJson.addMessages
  refine ⟨fun hhas ↦ ?_, fun hhas ↦ ?_, fun hhas ↦ ?_⟩
  · iterate 5 apply AddsSome.put
    dsimp only
    refine AddsSome.of_put (Q := fun _ ↦ True) ?_ ?_ ?_
    · exact hplain
    · rwa [refresh_has]
    · rfl
  · iterate 3 apply AddsSome.put
    dsimp only
    refine AddsSome.of_put (Q := fun _ ↦ True) ?_ ?_ ?_
    · iterate 2 apply AddsOnly.extend
      exact hplain
    · rw [refresh_has, put_field (f := PrfCommonJson.confirmationJ) fun c d ↦ (hdoc c d).1]
      dsimp only
      rwa [put_field (f := PrfCommonJson.confirmationJ) fun c d ↦ (hdoc c d).1]
    · rfl
  · apply AddsSome.put
    dsimp only
    refine AddsSome.of_put (Q := fun _ ↦ True) ?_ ?_ ?_
    · iterate 4 apply AddsOnly.extend
      exact hplain
    · rw [refresh_has, put_field (f := PrfCommonJson.responseJ) fun c d ↦ (hdoc c d).2]
      dsimp only
      rw [put_field (f := PrfCommonJson.responseJ) fun c d ↦ (hdoc c d).2]
      dsimp only
      rw [put_field (f := PrfCommonJson.responseJ) fun c d ↦ (hdoc c d).2]
      dsimp only
      rwa [put_field (f := PrfCommonJson.responseJ) fun c d ↦ (hdoc c d).2]
    · rfl

/-- A reply shows a message if it is asked for, and only as its bytes. -/
def Reports (has : Bool) (name : String) (bytes : List Byte) (added : List (String × Value)) :
    Prop :=
  (has = true → ∃ v, (name, v) ∈ added) ∧ ∀ v, (name, v) ∈ added → Decodes v bytes

theorem Reports.of_adds {has : Bool} {name : String} {bytes : List Byte}
    {d d' added : List (String × Value)} (hadded : d' = d ++ added)
    (hsome : has = true → AddsSome (fun m ↦ m.1 = name) d d')
    (honly : ∀ m ∈ added, m.1 = name → Decodes m.2 bytes) : Reports has name bytes added := by
  refine ⟨fun hhas ↦ ?_, fun v hv ↦ honly _ hv rfl⟩
  obtain ⟨added', hadded', m, hm, rfl⟩ := hsome hhas
  obtain rfl := List.append_cancel_left (hadded.symm.trans hadded')
  exact ⟨m.2, hm⟩

/-- The members before those of the messages. -/
def firstNames : List String :=
  ["ctype", "type", "msgid", "timeout", "nadr", "cmd", "hwpid", "rcode", "dpaval", "rdata"]

theorem AddsOnly.first {P : String × Value → Prop} (hP : ∀ name ∈ firstNames, ∀ v, P (name, v)) :
    AddsOnly P c.doc
      (((c.addResponseJsonPrio1Params tx).addResponseJsonPrio2Params tx).addAnswer p tx).doc := by
  have hsub : ∀ {names : List String}, (∀ name ∈ names, name ∈ firstNames) →
      ∀ name ∈ names, ∀ v, P (name, v) := fun hnames name hname ↦ hP name (hnames name hname)
  refine AddsOnly.answer (AddsOnly.prio2 (AddsOnly.prio1 (.start rfl) tx ?_) tx ?_) p tx ?_
  · exact hsub (by decide)
  · exact hsub (by decide)
  · exact hsub (by decide)

/-- What the members before those of the messages leave as it is. -/
theorem first_field {T : Type} {f : PrfCommonJson → T}
    (hf : ∀ c doc nadr cmdJ hwpid rcodeJ dpavalJ rdataJ,
      f { c with doc := doc, nadr := nadr, cmdJ := cmdJ, hwpid := hwpid, rcodeJ := rcodeJ,
                 dpavalJ := dpavalJ, rdataJ := rdataJ } = f c) :
    f (((c.addResponseJsonPrio1Params tx).addResponseJsonPrio2Params tx).addAnswer p tx) = f c := by
  rw [answer_field fun c doc rcodeJ dpavalJ rdataJ ↦ hf c doc _ _ _ rcodeJ dpavalJ rdataJ,
    prio2_field fun c doc cmdJ hwpid ↦ hf c doc _ cmdJ hwpid _ _ _,
    prio1_field fun c doc nadr ↦ hf c doc nadr _ _ _ _ _]

/-- Both replies of a raw object are made of the same parts. -/
theorem raw_reports (hp : PrintsHex p) (c : PrfCommonJson) :
    ∃ added, (((c.addResponseJsonPrio1Params tx).addResponseJsonPrio2Params
        tx).encodeResponseJsonFinal p request tx).2 = c.doc ++ added ∧
      Reports c.requestJ.has "request" request.bytes added ∧
      Reports c.confirmationJ.has "confirmation" tx.confirmation.bytes added ∧
      Reports c.responseJ.has "response" tx.response.bytes added := by
  have hfaithful : ∀ name ∈ firstNames, ∀ v, Faithful request tx (name, v) := by
    have hother : ∀ name ∈ firstNames, name ∉ ["request", "confirmation", "response"] := by decide
    exact fun name hname ↦ faithful_of_other (hother name hname)
  have honly := AddsOnly.messages request tx hp (AddsOnly.first (c := c) (p := p) tx hfaithful)
  have hsome := AddsSome.messages (p := p) request tx
    (AddsOnly.first (c := c) (p := p) tx (P := fun _ ↦ True) fun _ _ _ ↦ trivial)
  rw [first_field (f := PrfCommonJson.requestJ) tx fun _ _ _ _ _ _ _ _ ↦ rfl,
    first_field (f := PrfCommonJson.confirmationJ) tx fun _ _ _ _ _ _ _ _ ↦ rfl,
    first_field (f := PrfCommonJson.responseJ) tx fun _ _ _ _ _ _ _ _ ↦ rfl] at hsome
  obtain ⟨hrequest, hconfirmation, hresponse⟩ := hsome
  have hstatus : ∀ c : PrfCommonJson, AddsOnly (Faithful request tx) c.doc
      (c.addMember "status" (.string (cString c.statusJ))).doc :=
    fun c ↦ (AddsOnly.start rfl).addMember (faithful_of_other (by decide) _)
  have hclosed : AddsOnly (Faithful request tx) c.doc (((c.addResponseJsonPrio1Params
      tx).addResponseJsonPrio2Params tx).encodeResponseJsonFinal p request tx).2 :=
    honly.addMember (faithful_of_other (by decide) _)
  obtain ⟨added, hadded, hall⟩ := hclosed
  refine ⟨added, hadded, .of_adds hadded (fun h ↦ (hrequest h).append (hstatus _)) ?_,
    .of_adds hadded (fun h ↦ (hconfirmation h).append (hstatus _)) ?_,
    .of_adds hadded (fun h ↦ (hresponse h).append (hstatus _)) ?_⟩
  · exact fun m hm ↦ (hall m hm).1
  · exact fun m hm ↦ (hall m hm).2.1
  · exact fun m hm ↦ (hall m hm).2.2

end Messages

theorem lookup_of_mem {doc : List (String × Value)} (hnodup : (doc.map Prod.fst).Nodup)
    {name : String} {v : Value} (hmem : (name, v) ∈ doc) : doc.lookup name = some v := by
  obtain ⟨before, after, rfl⟩ := List.append_of_mem hmem
  rw [List.lookup_eq_some_iff]
  refine ⟨before, after, rfl, ?_⟩
  rw [List.map_append, List.map_cons, List.nodup_append] at hnodup
  intro m hm
  have hne := hnodup.2.2 m.1 (List.mem_map_of_mem hm) name (by simp)
  exact bne_iff_ne.mpr hne.symm

theorem getMemberAs_of_mem {doc : List (String × Value)} (hnodup : (doc.map Prod.fst).Nodup)
    {name s : String} (hmem : (name, .string s) ∈ doc) (hs : cString s = s) :
    Jutils.getMemberAs Jutils.assertIsString name (.object doc) = .ok s := by
  simp [Jutils.getMemberAs, Jutils.getMember, findMember, lookup_of_mem hnodup hmem,
    Jutils.assertIsString, hs]

section Answered

variable {p : Printers} {c : PrfCommonJson} {tx : Transaction} (htx : tx.responded = true)

include htx

theorem mem_hwpid_prio2 (hhwpid : c.hwpid.has = true) :
    ("hwpid", .string (cString c.hwpid.value)) ∈ (c.addResponseJsonPrio2Params tx).doc := by
  have hkept : (c.put "cmd" c.cmdJ).hwpid = c.hwpid :=
    put_field (f := PrfCommonJson.hwpid) (fun _ _ ↦ rfl) _ _ _
  have hprio2 : c.addResponseJsonPrio2Params tx =
      (c.put "cmd" c.cmdJ).put "hwpid" (c.put "cmd" c.cmdJ).hwpid := by
    simp [PrfCommonJson.addResponseJsonPrio2Params, htx]
  rw [hprio2, hkept, PrfCommonJson.put, if_pos hhwpid]
  simp [PrfCommonJson.addMember]

theorem doc_addAnswer (hrcode : c.rcodeJ.has = true) (hdpaval : c.dpavalJ.has = true)
    (hrdata : c.rdataJ.has = true) :
    (c.addAnswer p tx).doc = c.doc ++
      [("rcode", .string (encodeHexaNum 2 (tx.response.buffer responseCodeOffset).toNat)),
        ("dpaval", .string (encodeHexaNum 2 (tx.response.buffer dpaValueOffset).toNat)),
        ("rdata", .string (cString (PrfCommonJson.encodeData p c tx)))] := by
  simp [PrfCommonJson.addAnswer, PrfCommonJson.put, PrfCommonJson.refresh,
    PrfCommonJson.addMember, PrfCommonJson.encodeData, cString_encodeHexaNum, hrcode, hdpaval,
    hrdata, htx]

/-- Without an earlier answer the data is what this one has. -/
theorem encodeData_eq (hrdata : c.rdataJ.value = "") : PrfCommonJson.encodeData p c tx =
    encodeBinary p c.dotNotation "" (PrfCommonJson.responseData tx) := by
  rw [PrfCommonJson.encodeData, htx, hrdata]
  by_cases hnil : PrfCommonJson.responseData tx = []
  · simp [hnil, encodeBinary]
  · simp [hnil]

end Answered

theorem AddsOnly.subset {P : String × Value → Prop} {d d' : List (String × Value)}
    (h : AddsOnly P d d') : d ⊆ d' := by
  obtain ⟨added, rfl, -⟩ := h
  exact List.subset_append_left d added

/-- The messages and the status only add to the document. -/
theorem subset_final (c : PrfCommonJson) (p : Printers) (request : DpaMessage)
    (tx : Transaction) :
    (c.addAnswer p tx).doc ⊆ (c.encodeResponseJsonFinal p request tx).2 := by
  have hmessages : AddsOnly (fun _ ↦ True) (c.addAnswer p tx).doc
      ((c.addAnswer p tx).addMessages p request tx).doc := by
    unfold PrfCommonJson.addMessages
    iterate 6 apply AddsOnly.extend
    exact .start rfl
  have hstatus : AddsOnly (fun _ ↦ True) (c.addAnswer p tx).doc
      (c.encodeResponseJsonFinal p request tx).2 := hmessages.addMember trivial
  exact hstatus.subset

/-! ## Reading a raw-hdp reply -/

/-- What the members of a raw-hdp reply say. -/
structure HdpReply where
  pnum : Byte
  pcmd : Byte
  hwpid : Word
  rcode : Byte
  dpaval : Byte
  rdata : List Byte

/-- The members of a reply, read as those of a request are. -/
def readHdpReply (maxlen : ℤ) (reply : Value) : Except Failure HdpReply := do
  let pnum ← parseHexaNum 8 (← Jutils.getMemberAs Jutils.assertIsString "pnum" reply).toList
  let pcmd ← parseHexaNum 8 (← Jutils.getMemberAs Jutils.assertIsString "pcmd" reply).toList
  let hwpid ← parseHexaNum 16 (← Jutils.getMemberAs Jutils.assertIsString "hwpid" reply).toList
  let rcode ← parseHexaNum 8 (← Jutils.getMemberAs Jutils.assertIsString "rcode" reply).toList
  let dpaval ← parseHexaNum 8 (← Jutils.getMemberAs Jutils.assertIsString "dpaval" reply).toList
  let rdata ← parseBinary (← Jutils.getMemberAs Jutils.assertIsString "rdata" reply).toList maxlen
  return { pnum, pcmd, hwpid, rcode, dpaval, rdata }

/-- The bytes of a response from the peripheral number on. -/
def HdpReply.bytes (r : HdpReply) : List Byte :=
  [r.pnum, r.pcmd] ++ littleEndian r.hwpid ++ [r.rcode, r.dpaval] ++ r.rdata

/-- The header fields, the answer and the data of a response. -/
def Transaction.hdpReply (tx : Transaction) : HdpReply where
  pnum := tx.response.buffer pnumOffset
  pcmd := tx.response.buffer pcmdOffset
  hwpid := BitVec.ofNat 16 (wordAt tx.response hwpidOffset)
  rcode := tx.response.buffer responseCodeOffset
  dpaval := tx.response.buffer dpaValueOffset
  rdata := PrfCommonJson.responseData tx

theorem wordAt_lt (m : DpaMessage) (offset : ℕ) : wordAt m offset < 65536 := by
  have hlow := (m.buffer offset).isLt
  have hhigh := (m.buffer (offset + 1)).isLt
  unfold wordAt
  omega

theorem littleEndian_wordAt (m : DpaMessage) (offset : ℕ) :
    littleEndian (BitVec.ofNat 16 (wordAt m offset)) =
      [m.buffer offset, m.buffer (offset + 1)] := by
  have hlow := (m.buffer offset).isLt
  have hhigh := (m.buffer (offset + 1)).isLt
  have hword := wordAt_lt m offset
  have hnat : (BitVec.ofNat 16 (wordAt m offset)).toNat = wordAt m offset := by
    rw [BitVec.toNat_ofNat, Nat.mod_eq_of_lt hword]
  have hfirst : (BitVec.ofNat 16 (wordAt m offset)).setWidth 8 = m.buffer offset := by
    apply BitVec.eq_of_toNat_eq
    rw [BitVec.toNat_setWidth, hnat]
    unfold wordAt
    omega
  have hsecond : (BitVec.ofNat 16 (wordAt m offset) >>> 8).setWidth 8 = m.buffer (offset + 1) := by
    apply BitVec.eq_of_toNat_eq
    rw [BitVec.toNat_setWidth, BitVec.toNat_ushiftRight, hnat, Nat.shiftRight_eq_div_pow]
    unfold wordAt
    omega
  rw [littleEndian, hfirst, hsecond]

/-- Together they are the response from offset two on. -/
theorem bytes_hdpReply (tx : Transaction) (hlength : 8 ≤ tx.response.length) :
    tx.hdpReply.bytes = tx.response.bytes.drop 2 := by
  obtain ⟨k, hk⟩ : ∃ k : ℕ, tx.response.length = 8 + k := ⟨(tx.response.length - 8).toNat, by omega⟩
  have hdata : (tx.response.length - headerSize - 2).toNat = k := by
    rw [hk, headerSize]
    omega
  have htotal : tx.response.length.toNat = 8 + k := by omega
  simp only [HdpReply.bytes, Transaction.hdpReply, littleEndian_wordAt, DpaMessage.bytes,
    PrfCommonJson.responseData, hdata, htotal, List.range_add, List.map_append, List.map_map]
  rfl

/-- The six members of a reply that hold the response. -/
def hdpMembers (p : Printers) (dotNotation : Bool) (tx : Transaction) : List (String × Value) :=
  [("pnum", .string (encodeHexaNum 2 (tx.response.buffer pnumOffset).toNat)),
    ("pcmd", .string (encodeHexaNum 2 (tx.response.buffer pcmdOffset).toNat)),
    ("hwpid", .string (encodeHexaNum 4 (wordAt tx.response hwpidOffset))),
    ("rcode", .string (encodeHexaNum 2 (tx.response.buffer responseCodeOffset).toNat)),
    ("dpaval", .string (encodeHexaNum 2 (tx.response.buffer dpaValueOffset).toNat)),
    ("rdata", .string (encodeBinary p dotNotation "" (PrfCommonJson.responseData tx)))]

section Lossless

variable {p : Printers} {c : PrfCommonJson} {tx : Transaction}

/-- The members behind those of the header are in every reply that asks for them. -/
theorem answer_subset (hp : PrintsHex p) (htx : tx.responded = true) (request : DpaMessage)
    (hhwpid : c.hwpid.has = true) (hrcode : c.rcodeJ.has = true) (hdpaval : c.dpavalJ.has = true)
    (hrdata : c.rdataJ = ⟨true, ""⟩) :
    c.doc ++ [("hwpid", .string (cString c.hwpid.value)),
        ("rcode", .string (encodeHexaNum 2 (tx.response.buffer responseCodeOffset).toNat)),
        ("dpaval", .string (encodeHexaNum 2 (tx.response.buffer dpaValueOffset).toNat)),
        ("rdata", .string (encodeBinary p c.dotNotation "" (PrfCommonJson.responseData tx)))] ⊆
      ((c.addResponseJsonPrio2Params tx).encodeResponseJsonFinal p request tx).2 := by
  refine List.Subset.trans ?_ (subset_final _ p request tx)
  have hrcode' : (c.addResponseJsonPrio2Params tx).rcodeJ = c.rcodeJ :=
    prio2_field (fun _ _ _ _ ↦ rfl) c tx
  have hdpaval' : (c.addResponseJsonPrio2Params tx).dpavalJ = c.dpavalJ :=
    prio2_field (fun _ _ _ _ ↦ rfl) c tx
  have hrdata' : (c.addResponseJsonPrio2Params tx).rdataJ = c.rdataJ :=
    prio2_field (fun _ _ _ _ ↦ rfl) c tx
  have hdots : (c.addResponseJsonPrio2Params tx).dotNotation = c.dotNotation :=
    prio2_field (fun _ _ _ _ ↦ rfl) c tx
  have hprio2 : AddsOnly (fun _ ↦ True) c.doc (c.addResponseJsonPrio2Params tx).doc :=
    AddsOnly.prio2 (.start rfl) tx fun _ _ _ ↦ trivial
  rw [doc_addAnswer htx (by rw [hrcode', hrcode]) (by rw [hdpaval', hdpaval])
    (by rw [hrdata', hrdata]), encodeData_eq htx (by rw [hrdata', hrdata]), hdots,
    cString_encodeBinary hp]
  intro m hm
  rcases List.mem_append.mp hm with hm | hm
  · exact List.mem_append_left _ (hprio2.subset hm)
  · rcases List.mem_cons.mp hm with rfl | hm
    · exact List.mem_append_left _ (mem_hwpid_prio2 htx hhwpid)
    · exact List.mem_append_right _ hm

/-- The six members are in every reply of an object that has no data of an earlier one. -/
theorem hdpMembers_subset (hp : PrintsHex p) (hdata : c.rdataJ.value = "")
    (htx : tx.responded = true) (request : DpaMessage) :
    hdpMembers p c.dotNotation tx ⊆ (PrfRawHdpJson.encodeResponse p c request tx).2 := by
  have hheader : ∀ width n, headerText tx width n = encodeHexaNum width n := by
    simp [headerText, htx]
  have hprio1data : (c.addResponseJsonPrio1Params tx).rdataJ = c.rdataJ :=
    prio1_field (fun _ _ _ ↦ rfl) c tx
  have hprio1dots : (c.addResponseJsonPrio1Params tx).dotNotation = c.dotNotation :=
    prio1_field (fun _ _ _ ↦ rfl) c tx
  unfold PrfRawHdpJson.encodeResponse
  refine List.Subset.trans ?_ (answer_subset hp htx request rfl rfl rfl ?_)
  · intro m hm
    dsimp only [PrfCommonJson.addMember]
    rw [hheader, hheader, hheader, cString_encodeHexaNum, cString_encodeHexaNum,
      cString_encodeHexaNum, hprio1dots, List.append_assoc, List.append_assoc]
    exact List.mem_append_right _ hm
  · dsimp only [PrfCommonJson.addMember]
    rw [hprio1data, hdata]

/-- What the six members say, where a reply names each member once. -/
theorem readHdpReply_of_members (hp : PrintsHex p) {doc : List (String × Value)}
    {dotNotation : Bool} (hnodup : (doc.map Prod.fst).Nodup)
    (hmembers : hdpMembers p dotNotation tx ⊆ doc) {maxlen : ℤ}
    (hlength : (PrfCommonJson.responseData tx).length ≤ maxlen) :
    readHdpReply maxlen (.object doc) = .ok tx.hdpReply := by
  have hnumber : ∀ name width n, (name, Value.string (encodeHexaNum width n)) ∈ doc →
      Jutils.getMemberAs Jutils.assertIsString name (.object doc) =
        .ok (encodeHexaNum width n) :=
    fun name width n hmem ↦ getMemberAs_of_mem hnodup hmem (cString_encodeHexaNum width n)
  have hpnum := hnumber "pnum" 2 (tx.response.buffer pnumOffset).toNat
    (hmembers (by simp [hdpMembers]))
  have hpcmd := hnumber "pcmd" 2 (tx.response.buffer pcmdOffset).toNat
    (hmembers (by simp [hdpMembers]))
  have hhwpid := hnumber "hwpid" 4 (wordAt tx.response hwpidOffset)
    (hmembers (by simp [hdpMembers]))
  have hrcode := hnumber "rcode" 2 (tx.response.buffer responseCodeOffset).toNat
    (hmembers (by simp [hdpMembers]))
  have hdpaval := hnumber "dpaval" 2 (tx.response.buffer dpaValueOffset).toNat
    (hmembers (by simp [hdpMembers]))
  have hrdata : Jutils.getMemberAs Jutils.assertIsString "rdata" (.object doc) =
      .ok (encodeBinary p dotNotation "" (PrfCommonJson.responseData tx)) :=
    getMemberAs_of_mem hnodup (hmembers (by simp [hdpMembers])) (cString_encodeBinary hp _ _ _)
  have hword : (BitVec.ofNat 16 (wordAt tx.response hwpidOffset)).toNat =
      wordAt tx.response hwpidOffset := by
    rw [BitVec.toNat_ofNat, Nat.mod_eq_of_lt (wordAt_lt _ _)]
  have hparsed := parseHexaNum_encodeHexaNum (by decide) 4
    (BitVec.ofNat 16 (wordAt tx.response hwpidOffset))
  rw [hword] at hparsed
  unfold readHdpReply
  rw [hpnum, hpcmd, hhwpid, hrcode, hdpaval, hrdata]
  simp only [bind, Except.bind, hparsed, parseHexaNum_encodeHexaNum (show 8 ≤ 31 by decide),
    parseBinary_encodeBinary hp dotNotation "" _ hlength]
  rfl

end Lossless

variable {lib : DpaLibrary} {val : Value} {o : JsonTask lib}

/-- A parsed request has no document yet and no data of an answer. -/
theorem fresh_prfRawHdpJson (built : prfRawHdpJson lib val = .ok o) :
    o.common.doc = [] ∧ o.common.rdataJ = ⟨false, ""⟩ := by
  obtain ⟨⟨common, task⟩, hparsed, built⟩ := exists_ok_of_bind built
  repeat obtain ⟨_, -, built⟩ := exists_ok_of_bind built
  cases built
  exact parseRequestJson_fresh hparsed

/-- The reply to a request by its header fields gives the response back, from the
peripheral number to the last byte of the data. -/
theorem raw_hdp_lossless (p : Printers) (hp : PrintsHex p)
    (built : prfRawHdpJson lib val = .ok o) (tx : Transaction)
    (hlength : 8 ≤ tx.response.length) (maxlen : ℤ) (hmaxlen : tx.response.length - 8 ≤ maxlen) :
    ∃ r, readHdpReply maxlen
          (.object (PrfRawHdpJson.encodeResponse p o.common o.task.request tx).2) = .ok r ∧
      r.bytes = tx.response.bytes.drop 2 := by
  obtain ⟨hdoc, hrdata⟩ := fresh_prfRawHdpJson built
  have htx : tx.responded = true := by
    rw [Transaction.responded, decide_eq_true_eq]
    omega
  have hnodup : ((PrfRawHdpJson.encodeResponse p o.common o.task.request tx).2.map
      Prod.fst).Nodup := Closes.nodup (hdoc ▸ PrfRawHdpJson.closes p o.common o.task.request tx)
  have hmembers := hdpMembers_subset hp (by rw [hrdata]) htx o.task.request
  have hdata : ((PrfCommonJson.responseData tx).length : ℤ) ≤ maxlen := by
    rw [PrfCommonJson.responseData, List.length_map, List.length_range, headerSize]
    omega
  exact ⟨_, readHdpReply_of_members hp hnodup hmembers hdata, bytes_hdpReply tx hlength⟩

/-- A thermometer answers with three bytes of data: the whole degrees and the sixteenths. -/
def measured : Transaction where
  response :=
    ⟨fun i ↦ [0x01, 0x00, 0x0a, 0x80, 0xff, 0xff, 0x00, 0x3a, 0x17, 0x77, 0x01].getD i 0, 11⟩
  confirmation := ⟨fun _ ↦ 0, 0⟩
  requestTs := 0
  confirmationTs := 0
  responseTs := 0
  temperature := ""
  ledState := -1
  errStr := "STATUS_NO_ERROR"

theorem raw_hdp_lossless_measured :
    ∃ o : JsonTask plainLibrary,
      prfRawHdpJson plainLibrary (hdpDocument "1" "0a" "0" "ffff" "") = .ok o ∧
        ∃ r, readHdpReply 56
              (.object
                (PrfRawHdpJson.encodeResponse plainPrinters o.common o.task.request
                  measured).2) = .ok r ∧
          r.bytes = [0x0a, 0x80, 0xff, 0xff, 0x00, 0x3a, 0x17, 0x77, 0x01] := by
  have hnadr : SpellsNumber (cString "1").toList 0x0001#16 :=
    spellsNumber_digits "1".toList (by decide) (by decide) (by decide) (by decide)
  have hpnum : SpellsNumber (cString "0a").toList 0x0a#8 :=
    spellsNumber_digits "0a".toList (by decide) (by decide) (by decide) (by decide)
  have hpcmd : SpellsNumber (cString "0").toList 0x00#8 :=
    spellsNumber_digits "0".toList (by decide) (by decide) (by decide) (by decide)
  have hhwpid : SpellsNumber (cString "ffff").toList 0xffff#16 :=
    spellsNumber_digits "ffff".toList (by decide) (by decide) (by decide) (by decide)
  have hnone : HexNotation '.' [] (cString "").toList := ⟨[], .nil, by decide⟩
  have hrdata : SpellsBytes (cString "").toList [] := hnone.spells (.inl rfl)
  obtain ⟨o, built, -⟩ := @prfRawHdpJson_hdpDocument plainLibrary _ _ _ _ _ _ _ _ _ _ hnadr hpnum
    hpcmd hhwpid hrdata (by decide)
  obtain ⟨r, hread, hbytes⟩ := raw_hdp_lossless plainPrinters plainPrinters_printsHex built
    measured (by decide) 56 (by decide)
  have hdrop : measured.response.bytes.drop 2 =
      [0x0a, 0x80, 0xff, 0xff, 0x00, 0x3a, 0x17, 0x77, 0x01] := by decide
  exact ⟨o, built, r, hread, hbytes.trans hdrop⟩

end IqrfDaemon.Serializer
