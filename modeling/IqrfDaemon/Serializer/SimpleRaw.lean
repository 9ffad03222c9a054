import IqrfDaemon.Serializer.Agreement

/-!
# Raw requests as lines

The bytes of a raw request stand between dots and blanks, but dots are taken for blanks
only in a single token.  In any other token the number ends at its first dot, and what
follows is lost without a word.
-/

namespace IqrfDaemon.Serializer

open Json Text Scheduler

/-! ## The words that are read -/

/-- What is left of the words when each `timeout` and its value, a number, are taken out. -/
inductive WithoutTimeouts : List (List Char) → List (List Char) → Prop
  | nil : WithoutTimeouts [] []
  | word {w : List Char} {words kept : List (List Char)} (hword : w ≠ "timeout".toList)
      (h : WithoutTimeouts words kept) : WithoutTimeouts (w :: words) (w :: kept)
  | last : WithoutTimeouts ["timeout".toList] []
  | timeout {value : List Char} {words kept : List (List Char)} {r : ℤ × ℕ}
      (hvalue : stoi value = .ok r) (h : WithoutTimeouts words kept) :
      WithoutTimeouts ("timeout".toList :: value :: words) kept

/-- A single token is cut at its dots. -/
def wordsOf (istr : List Char) : List (List Char) :=
  if (fields isSpace istr).length = 1 then fields isSeparator istr else fields isSpace istr

/-- Neither name of an option that is spelled in capitals stands in the token. -/
def WithoutNames (token : List Char) : Prop :=
  contains token "TIMEOUT".toList = false ∧ contains token "CLID".toList = false

theorem withoutNames_of_not_isOption {token : List Char} (h : ¬ IsOption token) :
    WithoutNames token := by
  rw [IsOption, not_or, not_or, Bool.not_eq_true, Bool.not_eq_true] at h
  exact ⟨h.1, h.2.1⟩

theorem WithoutNames.infix {token part : List Char} (h : WithoutNames token)
    (hpart : part <:+: token) : WithoutNames part := by
  have hname : ∀ name : List Char, contains token name = false → contains part name = false := by
    intro name hnot
    rw [← Bool.not_eq_true, contains_iff_infix] at hnot ⊢
    exact fun hname ↦ hnot (hname.trans hpart)
  exact ⟨hname _ h.1, hname _ h.2⟩

section Words

variable {w value : List Char} {words kept : List (List Char)}

theorem withoutTimeouts_cons_iff (hword : w ≠ "timeout".toList) :
    WithoutTimeouts (w :: words) kept ↔ ∃ more, WithoutTimeouts words more ∧ kept = w :: more := by
  constructor
  · intro h
    cases h with
    | word _ h => exact ⟨_, h, rfl⟩
    | last => exact absurd rfl hword
    | timeout => exact absurd rfl hword
  · rintro ⟨more, h, rfl⟩
    exact .word hword h

theorem withoutTimeouts_last_iff :
    WithoutTimeouts ["timeout".toList] kept ↔ kept = [] := by
  constructor
  · intro h
    generalize htokens : ["timeout".toList] = tokens at h
    cases h with
    | nil => rfl
    | word hword _ => exact absurd (List.cons_eq_cons.mp htokens).1.symm hword
    | last => rfl
    | timeout => simp at htokens
  · rintro rfl
    exact .last

theorem withoutTimeouts_timeout_iff :
    WithoutTimeouts ("timeout".toList :: value :: words) kept ↔
      (∃ r, stoi value = .ok r) ∧ WithoutTimeouts words kept := by
  constructor
  · intro h
    generalize htokens : "timeout".toList :: value :: words = tokens at h
    cases h with
    | nil => cases htokens
    | word hword _ => exact absurd (List.cons_eq_cons.mp htokens).1.symm hword
    | last => simp at htokens
    | timeout hvalue h =>
        obtain ⟨-, htokens⟩ := List.cons_eq_cons.mp htokens
        obtain ⟨rfl, rfl⟩ := List.cons_eq_cons.mp htokens
        exact ⟨⟨_, hvalue⟩, h⟩
  · rintro ⟨⟨r, hvalue⟩, h⟩
    exact .timeout hvalue h

theorem withoutTimeouts_iff_eq (h : ∀ w ∈ words, w ≠ "timeout".toList) :
    WithoutTimeouts words kept ↔ kept = words := by
  induction words generalizing kept with
  | nil =>
      constructor
      · rintro ⟨⟩
        rfl
      · rintro rfl
        exact .nil
  | cons w words ih =>
      rw [withoutTimeouts_cons_iff (h w List.mem_cons_self)]
      simp only [ih fun v hv ↦ h v (List.mem_cons_of_mem w hv), exists_eq_left]

end Words

section Parse

variable {lib : DpaLibrary}

/-- Among words without the names in capitals only those of a timeout are taken out. -/
theorem parseTokens_iff_withoutTimeouts {words kept : List (List Char)}
    (h : ∀ w ∈ words, WithoutNames w) (task : DpaTask lib.Rest) :
    (∃ parsed, parseTokens lib task words = .ok (parsed, kept)) ↔
      WithoutTimeouts words kept := by
  -- a timeout takes its value along, so the induction is on the number of the words
  induction hlength : words.length using Nat.strong_induction_on generalizing words kept task with
  | _ n ih =>
      cases words with
      | nil =>
          rw [withoutTimeouts_iff_eq (by simp), parseTokens]
          simp [eq_comm]
      | cons w words =>
          have hrest : ∀ v ∈ words, WithoutNames v := fun v hv ↦ h v (List.mem_cons_of_mem w hv)
          rw [List.length_cons] at hlength
          by_cases hword : w = "timeout".toList
          · subst hword
            cases words with
            | nil =>
                rw [withoutTimeouts_last_iff, parseTokens_timeout_last]
                simp [eq_comm]
            | cons value words =>
                have hmore : ∀ v ∈ words, WithoutNames v := fun v hv ↦
                  hrest v (List.mem_cons_of_mem value hv)
                rw [List.length_cons] at hlength
                rw [withoutTimeouts_timeout_iff, parseTokens_timeout_word]
                cases hvalue : stoi value with
                | error e =>
                    constructor
                    · rintro ⟨parsed, hparsed⟩
                      cases hparsed
                    · rintro ⟨⟨r, hr⟩, -⟩
                      cases hr
                | ok r =>
                    have hcont : (∃ parsed, parseTokens lib (lib.setTimeout r.1 task) words =
                        .ok (parsed, kept)) ↔ WithoutTimeouts words kept :=
                      ih words.length (by omega) hmore (lib.setTimeout r.1 task) rfl
                    rw [and_iff_right ⟨r, rfl⟩]
                    exact hcont
          · have hoption : ¬ IsOption w := by
              rintro (hname | hname | hname)
              · exact absurd hname (Bool.eq_false_iff.mp (h w List.mem_cons_self).1)
              · exact absurd hname (Bool.eq_false_iff.mp (h w List.mem_cons_self).2)
              · exact hword hname
            rw [parseTokens_cons_of_not_isOption hoption, withoutTimeouts_cons_iff hword]
            constructor
            · rintro ⟨parsed, hparsed⟩
              cases hmore : parseTokens lib task words with
              | error e =>
                  rw [hmore] at hparsed
                  cases hparsed
              | ok r =>
                  rw [hmore] at hparsed
                  obtain ⟨-, rfl⟩ := Prod.mk.inj (Except.ok.inj hparsed)
                  exact ⟨r.2, (ih words.length (by omega) hrest task rfl).mp ⟨r.1, hmore⟩, rfl⟩
            · rintro ⟨more, hmore, rfl⟩
              obtain ⟨parsed, hparsed⟩ := (ih words.length (by omega) hrest task rfl).mpr hmore
              rw [hparsed]
              exact ⟨parsed, rfl⟩

/-- The tokens of a line without options, read again if there is only one. -/
theorem retokenize_iff_withoutTimeouts {istr : List Char} {kept : List (List Char)}
    (hoptions : ∀ w ∈ fields isSpace istr, ¬ IsOption w) (task : DpaTask lib.Rest) :
    (∃ parsed, retokenize lib task (fields isSpace istr) = .ok (parsed, kept)) ↔
      WithoutTimeouts (wordsOf istr) kept := by
  have hgroups : fields isSeparator istr = (fields isSpace istr).flatMap (fields isSeparator) :=
    fields_flatMap (fun c hc ↦ by rw [isSeparator, hc, Bool.or_true]) istr
  rw [wordsOf]
  by_cases hone : (fields isSpace istr).length = 1
  · obtain ⟨dotbuf, htokens⟩ := List.length_eq_one_iff.mp hone
    rw [htokens, List.flatMap_singleton] at hgroups
    rw [if_pos hone, htokens, retokenize, fields_undot, hgroups]
    refine parseTokens_iff_withoutTimeouts (fun group hgroup ↦ ?_) task
    have hnames := withoutNames_of_not_isOption (hoptions dotbuf (by simp [htokens]))
    exact hnames.infix (infix_of_mem_fields hgroup)
  · have htimeout : ∀ w ∈ fields isSpace istr, w ≠ "timeout".toList :=
      fun w hw hname ↦ hoptions w hw (.inr (.inr hname))
    rw [if_neg hone, withoutTimeouts_iff_eq htimeout]
    unfold retokenize
    split
    case h_1 dotbuf htokens => simp [htokens] at hone
    case h_2 => simp [eq_comm]

end Parse

/-! ## Reading in base sixteen -/

theorem exists_of_forall₂ {α β : Type} {R : α → β → Prop} {l : List α} {r : List β}
    (h : List.Forall₂ R l r) {a : α} (ha : a ∈ l) : ∃ b, R a b := by
  obtain ⟨i, hi, rfl⟩ := List.getElem_of_mem ha
  have hi' : i < r.length := h.length_eq ▸ hi
  exact ⟨r[i], h.get hi hi'⟩

theorem exists_mapM_ok {α β ε : Type} {f : α → Except ε β} {l : List α}
    (h : ∀ a ∈ l, ∃ b, f a = .ok b) : ∃ r, l.mapM f = .ok r := by
  induction l with
  | nil => exact ⟨[], rfl⟩
  | cons a l ih =>
      obtain ⟨b, hb⟩ := h a List.mem_cons_self
      obtain ⟨r, hr⟩ := ih fun c hc ↦ h c (List.mem_cons_of_mem a hc)
      exact ⟨b :: r, mapM_ok_iff.mpr (.cons hb (mapM_ok_iff.mp hr))⟩

theorem stoiHex_dot (s : List Char) : stoiHex ('.' :: s) = .error (.logicError "stoi") := by
  have hspace : isSpace '.' = false := by decide
  have hhex : isHexDigit '.' = false := by decide
  simp [stoiHex, signOf, afterPrefix, hspace, hhex]

/-- What is read of a token starts at its first group. -/
theorem exists_group_of_stoiHex {token : List Char} (hfree : ∀ c ∈ token, isSpace c = false)
    {v : ℤ} (hread : stoiHex token = .ok v) :
    ∃ group more rest, fields isSeparator token = group :: more ∧ token = group ++ rest ∧
      ∀ c ∈ rest.head?, isSeparator c = true := by
  have hdot : ∀ c more, token = c :: more → isSeparator c = false := by
    rintro c more rfl
    rw [isSeparator, hfree c List.mem_cons_self, Bool.or_false, decide_eq_false_iff_not]
    rintro rfl
    rw [stoiHex_dot] at hread
    cases hread
  cases hgroups : fields isSeparator token with
  | nil =>
      have hseparators := forall_sep_of_fields_eq_nil hgroups
      cases token with
      | nil =>
          have hnil : stoiHex [] = .error (.logicError "stoi") := by decide
          rw [hnil] at hread
          cases hread
      | cons c more =>
          have hc := hseparators c List.mem_cons_self
          rw [hdot c more rfl] at hc
          cases hc
  | cons group more =>
      obtain ⟨blanks, rest, htoken, hblanks, hrest, -⟩ := exists_of_fields_eq_cons hgroups
      cases blanks with
      | nil => exact ⟨group, more, rest, rfl, htoken, hrest⟩
      | cons c blanks =>
          have hc := hblanks c List.mem_cons_self
          rw [hdot c _ htoken] at hc
          cases hc

/-- The value of a token is that of its first group. -/
theorem stoiHex_eq_of_group {token group : List Char} {more : List (List Char)}
    (hfree : ∀ c ∈ token, isSpace c = false) (hgroups : fields isSeparator token = group :: more)
    {b : Byte} (hspells : Spells group b.toNat) {v : ℤ} (hread : stoiHex token = .ok v) :
    v = b.toNat := by
  obtain ⟨group', more', rest, hgroups', htoken, hrest⟩ := exists_group_of_stoiHex hfree hread
  obtain ⟨rfl, -⟩ := List.cons.inj (hgroups.symm.trans hgroups')
  have hlt := b.isLt
  have hvalue := stoiHex_spelled_append hspells (by omega) hrest
  rw [← htoken, hread] at hvalue
  exact Except.ok.inj hvalue

theorem not_spells_timeout (v : ℤ) : ¬ Spells "timeout".toList v := by
  rintro ⟨pre, digits, hpre, -, hdigits, htimeout, -⟩
  have hmem : 'm' ∈ pre ++ digits := by
    rw [← htimeout]
    decide
  rcases List.mem_append.mp hmem with hm | hm
  · cases hpre <;> simp at hm
  · exact absurd (hdigits 'm' hm) (by decide)

/-! ## The request -/

variable {lib : DpaLibrary} {istr : List Char}

/-- The bytes of a raw request are the numbers of the words that are read. -/
theorem prfRawSimple_bytes_iff (hlib : lib.Documented)
    (hoptions : ∀ w ∈ fields isSpace istr, ¬ IsOption w) {bytes : List Byte} :
    (∃ created, prfRawSimple lib istr = .ok created ∧ created.task.request.bytes = bytes) ↔
      ∃ kept values, WithoutTimeouts (wordsOf istr) kept ∧
        List.Forall₂ (fun w v ↦ stoiHex w = .ok v) (kept.take lib.maxDpaBuffer.toNat) values ∧
          bytes = values.map (BitVec.ofInt 8) := by
  have hread : prfRawSimple lib istr =
      (retokenize lib lib.dpaRaw (fields isSpace istr) >>= fun r ↦ do
        let values ← (r.2.take lib.maxDpaBuffer.toNat).mapM stoiHex
        return ⟨.raw, r.1.fill 0 (values.map (BitVec.ofInt 8))⟩) := by
    rw [prfRawSimple, parseTokens_words hoptions]
    rfl
  have hfilled : ∀ (task : DpaTask lib.Rest) {kept : List (List Char)} {values : List ℤ},
      (kept.take lib.maxDpaBuffer.toNat).mapM stoiHex = .ok values →
        (task.fill 0 (values.map (BitVec.ofInt 8))).request.bytes =
          values.map (BitVec.ofInt 8) := by
    intro task kept values hvalues
    have hlength := (mapM_ok_iff.mp hvalues).length_eq
    have hnonneg := hlib.buffer_nonneg
    rw [List.length_take] at hlength
    have hfits : ((0 + (values.map (BitVec.ofInt 8)).length : ℕ) : ℤ) ≤ lib.maxDpaBuffer := by
      rw [List.length_map]
      omega
    rw [DpaTask.fill_bytes hlib task hfits, List.range_zero, List.map_nil, List.nil_append]
  rw [hread]
  constructor
  · rintro ⟨created, hcreated, rfl⟩
    cases htokens : retokenize lib lib.dpaRaw (fields isSpace istr) with
    | error e =>
        rw [htokens] at hcreated
        cases hcreated
    | ok r =>
        obtain ⟨task, kept⟩ := r
        rw [htokens] at hcreated
        cases hvalues : (kept.take lib.maxDpaBuffer.toNat).mapM stoiHex with
        | error e =>
            change ((kept.take lib.maxDpaBuffer.toNat).mapM stoiHex >>= _) = _ at hcreated
            rw [hvalues] at hcreated
            cases hcreated
        | ok values =>
            change ((kept.take lib.maxDpaBuffer.toNat).mapM stoiHex >>= _) = _ at hcreated
            rw [hvalues] at hcreated
            obtain rfl := Except.ok.inj hcreated
            exact ⟨kept, values, (retokenize_iff_withoutTimeouts hoptions _).mp ⟨task, htokens⟩,
              mapM_ok_iff.mp hvalues, hfilled task hvalues⟩
  · rintro ⟨kept, values, hkept, hvalues, rfl⟩
    obtain ⟨task, htokens⟩ := (retokenize_iff_withoutTimeouts hoptions lib.dpaRaw).mpr hkept
    rw [← mapM_ok_iff] at hvalues
    rw [htokens]
    refine ⟨⟨.raw, task.fill 0 (values.map (BitVec.ofInt 8))⟩, ?_, hfilled task hvalues⟩
    change ((kept.take lib.maxDpaBuffer.toNat).mapM stoiHex >>= _) = _
    rw [hvalues]
    rfl

/-- A raw request is rejected, or its buffer holds the bytes of all groups of the line. -/
def KeepsBytes (lib : DpaLibrary) (istr : List Char) : Prop :=
  ∀ created, prfRawSimple lib istr = .ok created →
    ∃ bytes, SpellsBytes istr bytes ∧
      created.task.request.bytes = bytes.take lib.maxDpaBuffer.toNat

/-- One of the words that are read is no number. -/
def Unread (lib : DpaLibrary) (istr : List Char) : Prop :=
  ∀ kept, WithoutTimeouts (wordsOf istr) kept →
    ∃ w ∈ kept.take lib.maxDpaBuffer.toNat, ∃ e, stoiHex w = .error e

/-- The first groups of the tokens that fit have the values of the first groups of the line. -/
def HeadsAgree (lib : DpaLibrary) (istr : List Char) (bytes : List Byte) : Prop :=
  List.Forall₂ (fun token b ↦ ∃ group more,
      fields isSeparator token = group :: more ∧ Spells group b.toNat)
    ((fields isSpace istr).take lib.maxDpaBuffer.toNat) (bytes.take lib.maxDpaBuffer.toNat)

theorem map_ofInt_toNat (bytes : List Byte) :
    (bytes.map fun b ↦ (b.toNat : ℤ)).map (BitVec.ofInt 8) = bytes := by
  simp [Function.comp_def]

theorem mem_groups {token group : List Char} (htoken : token ∈ fields isSpace istr)
    (hgroup : group ∈ fields isSeparator token) : group ∈ fields isSeparator istr := by
  have hgroups : fields isSeparator istr = (fields isSpace istr).flatMap (fields isSeparator) :=
    fields_flatMap (fun c hc ↦ by rw [isSeparator, hc, Bool.or_true]) istr
  rw [hgroups]
  exact List.mem_flatMap.mpr ⟨token, htoken, hgroup⟩

theorem SpellsBytes.exists_byte {bytes : List Byte} (h : SpellsBytes istr bytes)
    {group : List Char} (hgroup : group ∈ fields isSeparator istr) :
    ∃ b : Byte, Spells group b.toNat :=
  exists_of_forall₂ h hgroup

/-- Tokens whose values are the bytes start with groups that spell them. -/
theorem headsAgree_of_values {bytes : List Byte} (hspells : SpellsBytes istr bytes)
    {values : List ℤ}
    (hvalues : List.Forall₂ (fun w v ↦ stoiHex w = .ok v)
      ((fields isSpace istr).take lib.maxDpaBuffer.toNat) values)
    (hbytes : values.map (BitVec.ofInt 8) = bytes.take lib.maxDpaBuffer.toNat) :
    HeadsAgree lib istr bytes := by
  rw [HeadsAgree, ← hbytes, List.forall₂_map_right_iff]
  have htokens : ∀ w ∈ (fields isSpace istr).take lib.maxDpaBuffer.toNat,
      w ∈ fields isSpace istr := fun w hw ↦ List.mem_of_mem_take hw
  refine ((List.forall₂_and_left _ _).mpr ⟨htokens, hvalues⟩).imp ?_
  rintro token v ⟨htoken, hread⟩
  have hfree : ∀ c ∈ token, isSpace c = false := fun c hc ↦ ((of_mem_fields htoken).2 c hc).2
  obtain ⟨group, more, -, hgroups, -, -⟩ := exists_group_of_stoiHex hfree hread
  have hgroup : group ∈ fields isSeparator istr := mem_groups htoken (by simp [hgroups])
  obtain ⟨b, hb⟩ := hspells.exists_byte hgroup
  obtain rfl := stoiHex_eq_of_group hfree hgroups hb hread
  refine ⟨group, more, hgroups, ?_⟩
  rwa [BitVec.ofInt_natCast, BitVec.ofNat_toNat, BitVec.setWidth_eq]

theorem HeadsAgree.values {bytes : List Byte} (h : HeadsAgree lib istr bytes) {values : List ℤ}
    (hvalues : List.Forall₂ (fun w v ↦ stoiHex w = .ok v)
      ((fields isSpace istr).take lib.maxDpaBuffer.toNat) values) :
    values.map (BitVec.ofInt 8) = bytes.take lib.maxDpaBuffer.toNat := by
  have htokens : ∀ w ∈ (fields isSpace istr).take lib.maxDpaBuffer.toNat,
      (∀ c ∈ w, isSpace c = false) ∧ ∃ v, stoiHex w = .ok v := fun w hw ↦
    ⟨fun c hc ↦ ((of_mem_fields (List.mem_of_mem_take hw)).2 c hc).2, exists_of_forall₂ hvalues hw⟩
  have hread : ((fields isSpace istr).take lib.maxDpaBuffer.toNat).mapM stoiHex =
      .ok ((bytes.take lib.maxDpaBuffer.toNat).map fun b ↦ (b.toNat : ℤ)) := by
    rw [mapM_ok_iff, List.forall₂_map_right_iff]
    refine ((List.forall₂_and_left _ _).mpr ⟨htokens, h⟩).imp ?_
    rintro token b ⟨⟨hfree, v, hv⟩, group, more, hgroups, hspells⟩
    rw [hv, stoiHex_eq_of_group hfree hgroups hspells hv]
  rw [mapM_ok_iff.mpr hvalues] at hread
  rw [Except.ok.inj hread, map_ofInt_toNat]

/-- The words of a single token are its groups, and no timeout is among groups that spell
bytes. -/
theorem values_of_single {bytes : List Byte} (hspells : SpellsBytes istr bytes)
    (hone : (fields isSpace istr).length = 1) {kept : List (List Char)}
    (hkept : WithoutTimeouts (wordsOf istr) kept) {values : List ℤ}
    (hvalues : List.Forall₂ (fun w v ↦ stoiHex w = .ok v)
      (kept.take lib.maxDpaBuffer.toNat) values) :
    values.map (BitVec.ofInt 8) = bytes.take lib.maxDpaBuffer.toNat := by
  have hwords : ∀ w ∈ fields isSeparator istr, w ≠ "timeout".toList := by
    rintro w hw rfl
    obtain ⟨b, hb⟩ := hspells.exists_byte hw
    exact not_spells_timeout _ hb
  rw [wordsOf, if_pos hone, withoutTimeouts_iff_eq hwords] at hkept
  subst hkept
  have hread := mapM_stoiHex (List.forall₂_take lib.maxDpaBuffer.toNat hspells)
  rw [mapM_ok_iff.mpr hvalues] at hread
  rw [Except.ok.inj hread, map_ofInt_toNat]

/-- A raw request is rejected or keeps all bytes of its line exactly if a word is unreadable, or
the groups are bytes and those at the front of the tokens are those of the line. -/
theorem prfRawSimple_keepsBytes_iff (hlib : lib.Documented)
    (hoptions : ∀ w ∈ fields isSpace istr, ¬ IsOption w) :
    KeepsBytes lib istr ↔
      Unread lib istr ∨ ∃ bytes, SpellsBytes istr bytes ∧
        ((fields isSpace istr).length = 1 ∨ HeadsAgree lib istr bytes) := by
  have htimeout : ∀ w ∈ fields isSpace istr, w ≠ "timeout".toList :=
    fun w hw hname ↦ hoptions w hw (.inr (.inr hname))
  constructor
  · intro hkeeps
    by_cases hunread : Unread lib istr
    · exact Or.inl hunread
    · right
      simp only [Unread, not_forall, not_exists, not_and, exists_prop] at hunread
      obtain ⟨kept, hkept, hread⟩ := hunread
      obtain ⟨values, hvalues⟩ := exists_mapM_ok (f := stoiHex) fun w hw ↦ by
        cases hword : stoiHex w with
        | error e => exact absurd hword (hread w hw e)
        | ok v => exact ⟨v, rfl⟩
      rw [mapM_ok_iff] at hvalues
      obtain ⟨created, hcreated, hbuffer⟩ :=
        (prfRawSimple_bytes_iff hlib hoptions).mpr ⟨kept, values, hkept, hvalues, rfl⟩
      obtain ⟨bytes, hspells, hbytes⟩ := hkeeps created hcreated
      refine ⟨bytes, hspells, ?_⟩
      -- only a single token is cut at its dots
      by_cases hone : (fields isSpace istr).length = 1
      · exact Or.inl hone
      · right
        rw [wordsOf, if_neg hone, withoutTimeouts_iff_eq htimeout] at hkept
        subst hkept
        exact headsAgree_of_values hspells hvalues (hbuffer.symm.trans hbytes)
  · intro h created hcreated
    obtain ⟨kept, values, hkept, hvalues, hbuffer⟩ :=
      (prfRawSimple_bytes_iff hlib hoptions).mp ⟨created, hcreated, rfl⟩
    rcases h with hunread | ⟨bytes, hspells, hone | hheads⟩
    · obtain ⟨w, hw, e, he⟩ := hunread kept hkept
      obtain ⟨v, hv⟩ := exists_of_forall₂ hvalues hw
      rw [he] at hv
      cases hv
    · exact ⟨bytes, hspells, hbuffer.trans (values_of_single hspells hone hkept hvalues)⟩
    · by_cases hone : (fields isSpace istr).length = 1
      · exact ⟨bytes, hspells, hbuffer.trans (values_of_single hspells hone hkept hvalues)⟩
      · rw [wordsOf, if_neg hone, withoutTimeouts_iff_eq htimeout] at hkept
        subst hkept
        exact ⟨bytes, hspells, hbuffer.trans (hheads.values hvalues)⟩

theorem prfRawSimple_keepsBytes_iff_dotted :
    KeepsBytes plainLibrary " 01.00.06.03.ff.ff".toList ↔
      Unread plainLibrary " 01.00.06.03.ff.ff".toList ∨
        ∃ bytes, SpellsBytes " 01.00.06.03.ff.ff".toList bytes ∧
          ((fields isSpace " 01.00.06.03.ff.ff".toList).length = 1 ∨
            HeadsAgree plainLibrary " 01.00.06.03.ff.ff".toList bytes) :=
  prfRawSimple_keepsBytes_iff plainLibrary_documented (by unfold IsOption; decide)

/-- Of `01.00 06.03` the bytes `01` and `06` are sent. -/
theorem prfRawSimple_loses_bytes :
    ¬ ∀ istr : List Char, (∀ w ∈ fields isSpace istr, ¬ IsOption w) →
      KeepsBytes plainLibrary istr := by
  intro hclaim
  have hoptions : ∀ w ∈ fields isSpace " 01.00 06.03".toList, ¬ IsOption w := by
    unfold IsOption
    decide
  have hwords : wordsOf " 01.00 06.03".toList = ["01.00".toList, "06.03".toList] := by decide
  have hkept : WithoutTimeouts (wordsOf " 01.00 06.03".toList)
      ["01.00".toList, "06.03".toList] := by
    rw [hwords, withoutTimeouts_iff_eq (by decide)]
  have hvalues : List.Forall₂ (fun w v ↦ stoiHex w = .ok v)
      (["01.00".toList, "06.03".toList].take plainLibrary.maxDpaBuffer.toNat) [1, 6] := by
    decide
  obtain ⟨created, hcreated, hbuffer⟩ := (prfRawSimple_bytes_iff plainLibrary_documented
    hoptions).mpr ⟨_, _, hkept, hvalues, rfl⟩
  obtain ⟨bytes, hspells, hbytes⟩ := hclaim _ hoptions created hcreated
  have hgroups : bytes.length = 4 := hspells.length_eq.symm
  rw [hbuffer] at hbytes
  have hlength := congrArg List.length hbytes
  rw [List.length_take, hgroups] at hlength
  exact absurd hlength (by decide)

end IqrfDaemon.Serializer
