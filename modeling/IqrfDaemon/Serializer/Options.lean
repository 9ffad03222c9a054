import IqrfDaemon.Serializer.Simple
import IqrfDaemon.Text.Decimal

/-!
# Option tokens

`encodeTokens` ends a response with the timeout, the client and a status, and
`parseTokens` reads them back.  It looks for the names of the options anywhere in a
token and for that of the timeout first, so a client with this name in its own is lost.
-/

namespace IqrfDaemon.Serializer

open Json Text Scheduler

/-! ## Options -/

def IsOption (token : List Char) : Prop :=
  contains token "TIMEOUT".toList = true ∨ contains token "CLID".toList = true ∨
    token = "timeout".toList

theorem contains_iff_infix {token word : List Char} :
    contains token word = true ↔ word <:+: token := by
  rw [contains, List.any_eq_true, List.infix_iff_prefix_suffix]
  simp only [List.mem_tails, List.isPrefixOf_iff_prefix]
  exact exists_congr fun t ↦ and_comm

theorem contains_cons (c : Char) (token word : List Char) :
    contains (c :: token) word = (word.isPrefixOf (c :: token) || contains token word) := by
  simp [contains]

theorem settingOf_append {name value : List Char} (hname : '=' ∉ name) (hvalue : value ≠ []) :
    settingOf (name ++ '=' :: value) = .ok value := by
  have hdrop : (name ++ '=' :: value).dropWhile (fun c ↦ c ≠ '=') = '=' :: value := by
    rw [dropWhile_append_of_stop name (by simp), List.dropWhile_eq_nil_iff.mpr ?_,
      List.nil_append]
    intro c hc
    rw [decide_eq_true_eq]
    rintro rfl
    exact hname hc
  obtain ⟨c, more, rfl⟩ := List.exists_cons_of_ne_nil hvalue
  rw [settingOf, hdrop]
  rfl

section ParseTokens

variable {lib : DpaLibrary}

theorem parseTokens_cons_of_not_isOption {token : List Char} (h : ¬ IsOption token)
    (task : DpaTask lib.Rest) (rest : List (List Char)) :
    parseTokens lib task (token :: rest) =
      (fun r ↦ (r.1, token :: r.2)) <$> parseTokens lib task rest := by
  rw [IsOption, not_or, not_or] at h
  rw [parseTokens.eq_def]
  dsimp only
  rw [if_neg h.1, if_neg h.2.1, if_neg h.2.2]
  cases parseTokens lib task rest <;> rfl

/-- Other tokens than options stay, whatever follows them. -/
theorem parseTokens_append {words : List (List Char)} (hwords : ∀ w ∈ words, ¬ IsOption w)
    (task : DpaTask lib.Rest) (rest : List (List Char)) :
    parseTokens lib task (words ++ rest) =
      (fun r ↦ (r.1, words ++ r.2)) <$> parseTokens lib task rest := by
  induction words with
  | nil => simp
  | cons w words ih =>
      rw [List.cons_append, parseTokens_cons_of_not_isOption (hwords w (by simp)),
        ih fun v hv ↦ hwords v (by simp [hv])]
      cases parseTokens lib task rest <;> rfl

theorem parseTokens_words {words : List (List Char)} (hwords : ∀ w ∈ words, ¬ IsOption w)
    (task : DpaTask lib.Rest) : parseTokens lib task words = .ok (task, words) := by
  have happend := parseTokens_append hwords task []
  rw [List.append_nil, parseTokens] at happend
  rw [happend]
  exact congrArg (fun l ↦ Except.ok (task, l)) (List.append_nil words)

theorem parseTokens_timeout_setting {token value : List Char}
    (htoken : contains token "TIMEOUT".toList = true) (hvalue : settingOf token = .ok value)
    (task : DpaTask lib.Rest) (rest : List (List Char)) :
    parseTokens lib task (token :: rest) =
      stoi value >>= fun r ↦ parseTokens lib (lib.setTimeout r.1 task) rest := by
  rw [parseTokens.eq_def]
  dsimp only
  rw [if_pos htoken, hvalue]
  rfl

theorem parseTokens_clid_setting {token value : List Char}
    (htimeout : contains token "TIMEOUT".toList = false)
    (htoken : contains token "CLID".toList = true) (hvalue : settingOf token = .ok value)
    (task : DpaTask lib.Rest) (rest : List (List Char)) :
    parseTokens lib task (token :: rest) =
      parseTokens lib (lib.setClid (String.ofList value) task) rest := by
  rw [parseTokens.eq_def]
  dsimp only
  rw [if_neg (Bool.eq_false_iff.mp htimeout), if_pos htoken, hvalue]
  rfl

/-- The word in lower case is none of the settings. -/
theorem timeout_not_setting : ¬contains "timeout".toList "TIMEOUT".toList = true ∧
    ¬contains "timeout".toList "CLID".toList = true := by
  decide

theorem parseTokens_timeout_last (task : DpaTask lib.Rest) :
    parseTokens lib task ["timeout".toList] = .ok (task, []) := by
  obtain ⟨htimeout, hclid⟩ := timeout_not_setting
  rw [parseTokens.eq_def]
  dsimp only
  rw [if_neg htimeout, if_neg hclid, if_pos rfl]

theorem parseTokens_timeout_word (task : DpaTask lib.Rest) (value : List Char)
    (words : List (List Char)) :
    parseTokens lib task ("timeout".toList :: value :: words) =
      stoi value >>= fun r ↦ parseTokens lib (lib.setTimeout r.1 task) words := by
  obtain ⟨htimeout, hclid⟩ := timeout_not_setting
  rw [parseTokens.eq_def]
  dsimp only
  rw [if_neg htimeout, if_neg hclid, if_pos rfl]

end ParseTokens

/-! ## Options of a response -/

/-- `encodeTokens`, with the client of a task. -/
def encodeTokens {lib : DpaLibrary} (getClid : DpaTask lib.Rest → String)
    (dpaTask : DpaTask lib.Rest) (errStr : String) : String :=
  (if 0 ≤ dpaTask.timeout then " " ++ "TIMEOUT=" ++ toString dpaTask.timeout else "") ++
    (if getClid dpaTask ≠ "" then " " ++ "CLID=" ++ getClid dpaTask else "") ++ " " ++ errStr

/-- The setters of the options set what they are called with and keep the other option. -/
structure DpaLibrary.KeepsOptions (lib : DpaLibrary) (getClid : DpaTask lib.Rest → String) :
    Prop where
  timeout_setTimeout : ∀ t task, (lib.setTimeout t task).timeout = t
  timeout_setClid : ∀ clid task, (lib.setClid clid task).timeout = task.timeout
  clid_setClid : ∀ clid task, getClid (lib.setClid clid task) = clid
  clid_setTimeout : ∀ t task, getClid (lib.setTimeout t task) = getClid task

def numeralOf (n : ℕ) : Numeral where
  digits := Nat.toDigits 10 n
  ne_nil := Nat.toDigits_ne_nil
  isDigit := isDigit_toDigits n

theorem numeralOf_value (n : ℕ) : (numeralOf n).value = n := by
  have hfold : ∀ (digits : List Char) (m : ℕ), (∀ c ∈ digits, c.isDigit = true) →
      digits.foldl (fun n c ↦ 10 * n + digitValue c) (m : ℤ) =
        (Nat.ofDigitChars 10 digits m : ℕ) := by
    intro digits
    induction digits with
    | nil => simp
    | cons c digits ih =>
        intro m hdigits
        have hc := hdigits c List.mem_cons_self
        simp only [Char.isDigit, Bool.and_eq_true, decide_eq_true_eq] at hc
        have hle : 48 ≤ c.toNat := hc.1
        have hstep : 10 * (m : ℤ) + digitValue c = (10 * m + (c.toNat - '0'.toNat) : ℕ) := by
          have hzero : '0'.toNat = 48 := rfl
          rw [digitValue, hzero]
          omega
        rw [List.foldl_cons, hstep, Nat.ofDigitChars_cons]
        exact ih _ fun d hd ↦ hdigits d (List.mem_cons_of_mem c hd)
  have hvalue := hfold (Nat.toDigits 10 n) 0 (isDigit_toDigits n)
  rwa [Nat.ofDigitChars_ten_toDigits] at hvalue

theorem stoi_toDigits {n : ℕ} (hn : n ≤ 2147483647) :
    stoi (Nat.toDigits 10 n) = .ok ((n : ℤ), (Nat.toDigits 10 n).length) := by
  have hstoi := stoi_numeral (numeralOf n) [] (by simp)
  rw [List.append_nil, numeralOf_value, if_neg (by omega)] at hstoi
  exact hstoi

section RoundTrip

variable {lib : DpaLibrary} {getClid : DpaTask lib.Rest → String} {dpaTask : DpaTask lib.Rest}

theorem isSpace_setting {name value : List Char} (hname : ∀ c ∈ name, isSpace c = false)
    (hvalue : ∀ c ∈ value, isSpace c = false) : ∀ c ∈ name ++ '=' :: value, isSpace c = false := by
  intro c hc
  rcases List.mem_append.mp hc with hc | hc
  · exact hname c hc
  · rcases List.mem_cons.mp hc with rfl | hc
    · decide
    · exact hvalue c hc

theorem fields_encodeTokens {t : ℕ} (htimeout : dpaTask.timeout = t)
    (hclid : getClid dpaTask ≠ "")
    (hblank : ∀ c ∈ (getClid dpaTask).toList, isSpace c = false) (errStr : String) :
    fields isSpace (encodeTokens getClid dpaTask errStr).toList =
      ("TIMEOUT".toList ++ '=' :: Nat.toDigits 10 t) ::
        ("CLID".toList ++ '=' :: (getClid dpaTask).toList) ::
          fields isSpace errStr.toList := by
  have htext : (encodeTokens getClid dpaTask errStr).toList =
      ' ' :: (("TIMEOUT".toList ++ '=' :: Nat.toDigits 10 t) ++
        ' ' :: (("CLID".toList ++ '=' :: (getClid dpaTask).toList) ++
          ' ' :: errStr.toList)) := by
    have hnonneg : (0 : ℤ) ≤ (t : ℤ) := by omega
    rw [encodeTokens, htimeout, if_pos hnonneg, if_pos hclid, ← toList_toString_natCast]
    simp
  have hdigits : ∀ c ∈ Nat.toDigits 10 t, isSpace c = false := fun c hc ↦
    Numeral.isSpace_eq_false (isDigit_toDigits t c hc)
  rw [htext, fields_cons_of_sep (by decide),
    fields_word_append (by simp) (isSpace_setting (by decide) hdigits) (by decide),
    fields_word_append (by simp) (isSpace_setting (by decide) hblank) (by decide)]

/-- What is read back of the options: the client's token is taken for a timeout if it has that
name in it. -/
theorem parseTokens_encodeTokens {t : ℕ} (ht : t ≤ 2147483647) (htimeout : dpaTask.timeout = t)
    (hclid : getClid dpaTask ≠ "")
    (hblank : ∀ c ∈ (getClid dpaTask).toList, isSpace c = false) {errStr : String}
    (hwords : ∀ w ∈ fields isSpace errStr.toList, ¬ IsOption w) (target : DpaTask lib.Rest) :
    parseTokens lib target (fields isSpace (encodeTokens getClid dpaTask errStr).toList) =
      if contains (getClid dpaTask).toList "TIMEOUT".toList = true then
        stoi (getClid dpaTask).toList >>= fun r ↦
          .ok (lib.setTimeout r.1 (lib.setTimeout t target), fields isSpace errStr.toList)
      else
        .ok (lib.setClid (getClid dpaTask) (lib.setTimeout t target),
          fields isSpace errStr.toList) := by
  have hne : (getClid dpaTask).toList ≠ [] := by simpa using hclid
  have hfirst : contains ("TIMEOUT".toList ++ '=' :: Nat.toDigits 10 t) "TIMEOUT".toList = true :=
    contains_iff_infix.mpr (List.prefix_append _ _).isInfix
  have hsecond : contains ("CLID".toList ++ '=' :: (getClid dpaTask).toList) "TIMEOUT".toList =
      contains (getClid dpaTask).toList "TIMEOUT".toList := by
    simp [contains_cons, List.isPrefixOf]
  have hthird : contains ("CLID".toList ++ '=' :: (getClid dpaTask).toList) "CLID".toList = true :=
    contains_iff_infix.mpr (List.prefix_append _ _).isInfix
  rw [fields_encodeTokens htimeout hclid hblank,
    parseTokens_timeout_setting hfirst (settingOf_append (by decide) Nat.toDigits_ne_nil),
    stoi_toDigits ht]
  change parseTokens lib (lib.setTimeout t target) _ = _
  split
  case isTrue hcontains =>
    rw [← hsecond] at hcontains
    rw [parseTokens_timeout_setting hcontains (settingOf_append (by decide) hne)]
    simp only [parseTokens_words hwords]
  case isFalse hcontains =>
    rw [← hsecond, Bool.not_eq_true] at hcontains
    rw [parseTokens_clid_setting hcontains hthird (settingOf_append (by decide) hne),
      parseTokens_words hwords, String.ofList_toList]

/-- The options of every response are read back into every task exactly if the client does not
have the name of the timeout in its own. -/
theorem encodeTokens_roundTrip_iff (hlib : lib.KeepsOptions getClid)
    (ht : 0 ≤ dpaTask.timeout) (hint : dpaTask.timeout ≤ 2147483647)
    (hclid : getClid dpaTask ≠ "")
    (hblank : ∀ c ∈ (getClid dpaTask).toList, isSpace c = false) {errStr : String}
    (hwords : ∀ w ∈ fields isSpace errStr.toList, ¬ IsOption w) :
    (∀ target, ∃ parsed,
        parseTokens lib target (fields isSpace (encodeTokens getClid dpaTask errStr).toList) =
            .ok (parsed, fields isSpace errStr.toList) ∧
          parsed.timeout = dpaTask.timeout ∧ getClid parsed = getClid dpaTask) ↔
      contains (getClid dpaTask).toList "TIMEOUT".toList = false := by
  obtain ⟨t, htimeout⟩ := Int.eq_ofNat_of_zero_le ht
  have hle : t ≤ 2147483647 := by omega
  simp only [parseTokens_encodeTokens hle htimeout hclid hblank hwords]
  constructor
  · intro hround
    rw [← Bool.not_eq_true]
    intro hcontains
    -- a task with another client keeps it
    obtain ⟨parsed, hparsed, -, hsame⟩ := hround (lib.setClid "" dpaTask)
    rw [if_pos hcontains] at hparsed
    cases hstoi : stoi (getClid dpaTask).toList with
    | error e =>
        rw [hstoi] at hparsed
        cases hparsed
    | ok r =>
        rw [hstoi] at hparsed
        obtain ⟨rfl, -⟩ := Prod.mk.inj (Except.ok.inj hparsed)
        rw [hlib.clid_setTimeout, hlib.clid_setTimeout, hlib.clid_setClid] at hsame
        exact hclid hsame.symm
  · intro hcontains target
    refine ⟨_, if_neg (Bool.eq_false_iff.mp hcontains), ?_, hlib.clid_setClid _ _⟩
    rw [hlib.timeout_setClid, hlib.timeout_setTimeout, htimeout]

/-- A library that keeps the client beside the request and the timeout. -/
def clientLibrary : DpaLibrary where
  Rest := String
  maxDpaBuffer := 64
  dpaMaxDataLength := 56
  rawName := "raw"
  thermometerName := "thermometer"
  ledGName := "ledg"
  ledRName := "ledr"
  frcName := "frc"
  ioName := "io"
  osName := "os"
  dpaRaw := ⟨⟨fun _ ↦ 0, 0⟩, -1, ""⟩
  prfThermometer := ⟨⟨fun _ ↦ 0, 0⟩, -1, ""⟩
  prfLedG := ⟨⟨fun _ ↦ 0, 0⟩, -1, ""⟩
  prfLedR := ⟨⟨fun _ ↦ 0, 0⟩, -1, ""⟩
  setAddress nadr task :=
    { task with request := task.request.store nadrOffset (littleEndian nadr) }
  setHwpid hwpid task :=
    { task with request := task.request.store hwpidOffset (littleEndian hwpid) }
  parseCommand _ task := .ok task
  setTimeout t task := { task with timeout := t }
  setClid clid task := { task with rest := clid }
  setLength n m := { m with length := n }

def clientOf (task : DpaTask clientLibrary.Rest) : String := task.rest

theorem clientLibrary_keepsOptions : clientLibrary.KeepsOptions clientOf where
  timeout_setTimeout _ _ := rfl
  timeout_setClid _ _ := rfl
  clid_setClid _ _ := rfl
  clid_setTimeout _ _ := rfl

def taskOf (timeout : ℤ) (clid : String) : DpaTask clientLibrary.Rest :=
  ⟨⟨fun _ ↦ 0, 0⟩, timeout, clid⟩

theorem encodeTokens_roundTrip_iff_client :
    (∀ target, ∃ parsed,
        parseTokens clientLibrary target (fields isSpace
              (encodeTokens clientOf (taskOf 1000 "id=7") "STATUS_NO_ERROR").toList) =
            .ok (parsed, fields isSpace "STATUS_NO_ERROR".toList) ∧
          parsed.timeout = (taskOf 1000 "id=7").timeout ∧
            clientOf parsed = clientOf (taskOf 1000 "id=7")) ↔
      contains (clientOf (taskOf 1000 "id=7")).toList "TIMEOUT".toList = false :=
  encodeTokens_roundTrip_iff clientLibrary_keepsOptions (by decide) (by decide) (by decide)
    (by decide) (by unfold IsOption; decide)

/-- The client `TIMEOUT1` is taken for a timeout, of which there is no number. -/
theorem encodeTokens_clid_lost :
    ¬ ∀ target, ∃ parsed,
        parseTokens clientLibrary target (fields isSpace
              (encodeTokens clientOf (taskOf 1000 "TIMEOUT1") "ok").toList) =
            .ok (parsed, fields isSpace "ok".toList) ∧
          parsed.timeout = (taskOf 1000 "TIMEOUT1").timeout ∧
            clientOf parsed = clientOf (taskOf 1000 "TIMEOUT1") := by
  intro hround
  obtain ⟨parsed, hparsed, -, -⟩ := hround (taskOf 0 "")
  have hbound : 1000 ≤ 2147483647 := by decide
  have hclid : clientOf (taskOf 1000 "TIMEOUT1") ≠ "" := by decide
  have hcontains : contains (clientOf (taskOf 1000 "TIMEOUT1")).toList "TIMEOUT".toList = true := by
    decide
  have hstoi : stoi (clientOf (taskOf 1000 "TIMEOUT1")).toList = .error (.logicError "stoi") := by
    decide
  rw [parseTokens_encodeTokens hbound rfl hclid (by decide) (by unfold IsOption; decide),
    if_pos hcontains, hstoi] at hparsed
  cases hparsed

end RoundTrip

end IqrfDaemon.Serializer
