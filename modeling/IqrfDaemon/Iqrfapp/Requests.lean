import IqrfDaemon.Iqrfapp.Replies
import IqrfDaemon.Scheduler.Table
import IqrfDaemon.Serializer.Agreement
import IqrfDaemon.Service.Selection
import IqrfDaemon.Service.Texts

/-!
# What the daemon does for the client

The client sends the words of a line, and the service for the message queue hands them to
the JSON and then to the simple serializer.  Over every session the lines `raw` and `conf`
and a document alone have the effect the user has asked for, with the timeout the client
waits for.  A document behind the word `json` has none, although the help offers it.
-/

namespace IqrfDaemon.Iqrfapp

open Json Json.Jutils Text Scheduler Serializer Transition Service Rapidjson

/-! ## Lines that are sent -/

section Sending

variable {parseString : String → Except Failure Value} {defaultTimeout : ℤ}
  {params : List (List Char)} {timeout : Option ℤ}

/-- What `sendParamsAsMessage` makes of the words of a line. -/
def message (params : List (List Char)) : List Char := params.flatMap fun par ↦ par ++ [' ']

/-- The words of a line that is sent, and the timeout the client sets before. -/
inductive Sending (parseString : String → Except Failure Value) (defaultTimeout : ℤ) :
    List (List Char) → Option ℤ → Prop
  | raw (hex : List Char) :
      Sending parseString defaultTimeout ["raw".toList, hex] (some defaultTimeout)
  | rawTimeout (hex value : List Char) (timeout : ℤ) (n : ℕ)
      (read : stoi value = .ok (timeout, n)) :
      Sending parseString defaultTimeout ["raw".toList, hex, "timeout".toList, value] (some timeout)
  | conf (mode : List Char) : Sending parseString defaultTimeout ["conf".toList, mode] none
  | document (json : List Char) (timeout : ℤ)
      (read : requestTimeout parseString defaultTimeout json = .ok timeout) :
      Sending parseString defaultTimeout [json] (some timeout)
  | behind (word json : List Char) (timeout : ℤ) (raw : word ≠ "raw".toList)
      (conf : word ≠ "conf".toList) :
      Sending parseString defaultTimeout [word, json] (some timeout)

theorem millis_eq_some {word value : List Char} {t : ℤ} (h : millis word value = some t) :
    word = "timeout".toList ∧ ∃ n, stoi value = .ok (t, n) := by
  rw [millis] at h
  split at h
  case isFalse => cases h
  case isTrue hword =>
    refine ⟨hword, ?_⟩
    cases hread : stoi value with
    | error e => simp [hread, Except.toOption] at h
    | ok r => exact ⟨r.2, by simpa [hread, Except.toOption, Prod.ext_iff] using h⟩

theorem sending_rawCmd (h : rawCmd defaultTimeout ("raw".toList :: params) = some (.send timeout)) :
    Sending parseString defaultTimeout ("raw".toList :: params) timeout := by
  rcases params with _ | ⟨hex, _ | ⟨word, _ | ⟨value, _ | ⟨more, rest⟩⟩⟩⟩
  · cases h
  · obtain rfl : some defaultTimeout = timeout := by simpa [rawCmd] using h
    exact .raw hex
  · cases h
  · obtain ⟨t, ht, hsend⟩ := Option.map_eq_some_iff.mp h
    obtain ⟨rfl, n, hread⟩ := millis_eq_some ht
    cases hsend
    exact .rawTimeout hex value t n hread
  · cases h

theorem sending_confCmd (h : confCmd ("conf".toList :: params) = some (.send timeout)) :
    Sending parseString defaultTimeout ("conf".toList :: params) timeout := by
  rcases params with _ | ⟨mode, _ | ⟨more, rest⟩⟩
  · cases h
  · obtain ⟨-, hsend⟩ := Option.ite_none_right_eq_some.mp h
    cases hsend
    exact .conf mode
  · cases h

theorem requestTimeout_of_map {json : List Char}
    (h : ((requestTimeout parseString defaultTimeout json).toOption.map fun t ↦
      Command.send (some t)) = some (.send timeout)) :
    ∃ t, requestTimeout parseString defaultTimeout json = .ok t ∧ timeout = some t := by
  obtain ⟨t, ht, hsend⟩ := Option.map_eq_some_iff.mp h
  cases hread : requestTimeout parseString defaultTimeout json with
  | error e => simp [hread, Except.toOption] at ht
  | ok t' =>
      obtain rfl : t' = t := by simpa [hread, Except.toOption] using ht
      cases hsend
      exact ⟨t', rfl, rfl⟩

theorem sending_jsonCmd {cmd : List Char} (hraw : cmd ≠ "raw".toList) (hconf : cmd ≠ "conf".toList)
    (h : jsonCmd parseString defaultTimeout (cmd :: params) = some (.send timeout)) :
    Sending parseString defaultTimeout (cmd :: params) timeout := by
  rcases params with _ | ⟨json, _ | ⟨more, rest⟩⟩
  · obtain ⟨t, hread, rfl⟩ := requestTimeout_of_map h
    exact .document cmd t hread
  · obtain ⟨t, -, rfl⟩ := requestTimeout_of_map h
    exact .behind cmd json t hraw hconf
  · cases h

theorem sending_of_runCmd (h : runCmd parseString defaultTimeout params = some (.send timeout)) :
    Sending parseString defaultTimeout params timeout ∧ params.head? ≠ some [] := by
  cases params with
  | nil => cases h
  | cons cmd rest =>
      rw [runCmd] at h
      split_ifs at h with hempty hhelp hreadonly hreadall hraw hconf hexit
      · cases h
      · cases h
      · rw [readonlyCmd.eq_def] at h
        split at h
        · cases h
        · obtain ⟨_, -, hsend⟩ := Option.map_eq_some_iff.mp h
          cases hsend
        · cases h
      · rw [readallCmd.eq_def] at h
        split at h <;> cases h
      · subst hraw
        exact ⟨sending_rawCmd h, by simp⟩
      · subst hconf
        exact ⟨sending_confCmd h, by simp⟩
      · cases h
      · exact ⟨sending_jsonCmd hraw hconf h, by simpa using hempty⟩

end Sending

/-! ## Words -/

def Words (params : List (List Char)) : Prop := ∀ w ∈ params, w ≠ [] ∧ ∀ c ∈ w, isSpace c = false

theorem words_fields (line : List Char) : Words (fields isSpace line) := fun _ hw ↦
  ⟨(of_mem_fields hw).1, fun c hc ↦ ((of_mem_fields hw).2 c hc).2⟩

/-- A word that is read twice at the end of a line is a word. -/
theorem words_readParams {line : List Char} (h : (readParams line).head? ≠ some []) :
    Words (readParams line) := by
  have hwords := words_fields line
  unfold readParams at h ⊢
  dsimp only at h ⊢
  split
  case h_1 hlast =>
      rw [hlast] at h
      exact absurd rfl h
  case h_2 c hlast =>
      rw [hlast] at h
      dsimp only at h
      split
      case isFalse => exact hwords
      case isTrue hc =>
        rw [if_pos hc] at h
        intro w hw
        rcases List.mem_append.mp hw with hw | hw
        · exact hwords w hw
        · obtain rfl := List.mem_singleton.mp hw
          cases hfields : fields isSpace line with
          | nil => simp [hfields] at h
          | cons v rest =>
              rw [← hfields, List.getLastD_eq_getLast?,
                List.getLast?_eq_some_getLast (by simp [hfields])]
              exact hwords _ (List.getLast_mem _)

/-- The daemon finds the words the client has sent. -/
theorem fields_message {params : List (List Char)} (h : Words params) :
    fields isSpace (message params) = params := by
  induction params with
  | nil => rfl
  | cons w rest ih =>
      obtain ⟨hne, hw⟩ := h w List.mem_cons_self
      have hmessage : message (w :: rest) = w ++ ' ' :: message rest := by simp [message]
      rw [hmessage, fields_word_append hne hw (by decide),
        ih fun v hv ↦ h v (List.mem_cons_of_mem w hv)]

/-! ## What a session sends -/

section Session

variable {parseString : String → Except Failure Value} {s t : State}

/-- Every text of a session is the message of a line that was accepted. -/
structure Requested (parseString : String → Except Failure Value) (s : State) : Prop where
  sent : ∀ text ∈ s.sent, ∃ line timeout,
    runCmd parseString s.defaultTimeout (readParams line) = some (.send timeout) ∧
      text = message (readParams line)
  pending : ∀ params, s.main = .sendParamsAsMessage params → ∃ line timeout,
    runCmd parseString s.defaultTimeout (readParams line) = some (.send timeout) ∧
      params = readParams line

/-- A step that neither sends nor gets ready for it. -/
theorem Requested.keep (h : Requested parseString s) (hsent : t.sent = s.sent)
    (htimeout : t.defaultTimeout = s.defaultTimeout)
    (hmain : ∀ params, t.main = .sendParamsAsMessage params →
      s.main = .sendParamsAsMessage params) : Requested parseString t where
  sent := by
    rw [hsent, htimeout]
    exact h.sent
  pending params hpc := by
    rw [htimeout]
    exact h.pending params (hmain params hpc)

theorem Requested.begin (h : Requested parseString s) (line : List Char) :
    Requested parseString
      (s.begin (readParams line) (runCmd parseString s.defaultTimeout (readParams line))) := by
  cases hrun : runCmd parseString s.defaultTimeout (readParams line) with
  | none => exact h
  | some command =>
      cases command with
      | nothing => exact h
      | exit | readonly _ | readall => exact h.keep rfl rfl fun _ hpc ↦ by cases hpc
      | send timeout =>
          have hpending : ∀ params, MainPc.sendParamsAsMessage (readParams line) =
              .sendParamsAsMessage params → ∃ line timeout,
                runCmd parseString s.defaultTimeout (readParams line) = some (.send timeout) ∧
                  params = readParams line := by
            rintro params ⟨⟩
            exact ⟨line, timeout, hrun, rfl⟩
          cases timeout with
          | none => exact ⟨h.sent, hpending⟩
          | some timeout => exact ⟨h.sent, hpending⟩

theorem Requested.step (h : Requested parseString s) {a : Action}
    (hstep : s.step parseString a = some t) : Requested parseString t := by
  by_cases hline : ∃ line, a = .line line
  · obtain ⟨line, rfl⟩ := hline
    rw [State.step] at hstep
    cases hpc : s.main <;> simp only [hpc] at hstep <;> cases hstep
    exact h.begin line
  · have hmoves := moves_of_step hstep
    cases hmoves with
    | line prompt => exact absurd ⟨_, rfl⟩ hline
    | arrive | take | handle => exact h.keep rfl rfl fun _ hpc ↦ hpc
    | @send params sending =>
        obtain ⟨line, timeout, hrun, rfl⟩ := h.pending params sending
        refine ⟨fun text htext ↦ ?_, fun _ hpc ↦ by cases hpc⟩
        rcases List.mem_append.mp htext with htext | htext
        · exact h.sent text htext
        · exact ⟨line, timeout, hrun, List.mem_singleton.mp htext⟩
    | wake | timeout => exact h.keep rfl rfl fun _ hpc ↦ by cases hpc
    | @showResult listener res showing =>
        cases listener <;> exact h.keep rfl rfl fun _ hpc ↦ by cases hpc

theorem requested_of_reachable (h : (session parseString).Reachable s) :
    Requested parseString s := by
  refine System.Reachable.invariant ?_ (fun s a t hs hstep ↦ hs.step hstep) h
  rintro s ⟨defaultTimeout, -, rfl⟩
  refine ⟨fun text htext ↦ absurd htext List.not_mem_nil, fun params hpc ↦ ?_⟩
  cases hpc

end Session

/-! ## Lines for the simple serializer -/

section Simple

variable {lib : DpaLibrary} {env : Environment lib} {word : List Char} {rest : List (List Char)}

theorem exists_stream (h : Words (word :: rest)) :
    ∃ istr, extract [] (some (message (word :: rest))) = (word, some istr) ∧
      fields isSpace istr = rest := by
  obtain ⟨istr, hextract, hfields⟩ :=
    extract_of_fields [] (t := []) (fields_message h) (by simp)
  simp only [List.append_nil] at hextract
  exact ⟨istr, hextract, hfields⟩

/-- Only a line that starts with a brace is an object for the JSON serializer. -/
theorem not_object (henv : env.Documented) (h : Words (word :: rest))
    (hbrace : word.head? ≠ some '\x7b') (members : List (String × Value)) :
    env.parseString (String.ofList (message (word :: rest))) ≠ .ok (.object members) := by
  intro hparse
  obtain ⟨tail, htail⟩ := henv.parse_object hparse
  rw [String.toList_ofList] at htail
  obtain ⟨hne, hword⟩ := h word List.mem_cons_self
  cases word with
  | nil => exact hne rfl
  | cons c word =>
      have hc := hword c List.mem_cons_self
      have hmessage : message ((c :: word) :: rest) = c :: (word ++ ' ' :: message rest) := by
        simp [message]
      rw [hmessage, List.dropWhile_cons_of_neg (by simp [hc])] at htail
      obtain ⟨rfl, -⟩ := List.cons.inj htail
      exact hbrace rfl

/-- The service asks the JSON serializer first, which declines. -/
theorem executedAfter_simple {format : String → Format} {json simple : String}
    (hjson : format json = .json) (hsimple : format simple = .simple) (henv : env.Documented)
    {msgs : String} (hobject : ∀ members, env.parseString msgs ≠ .ok (.object members))
    (last : LastErrors) : executedAfter env format [json, simple] last msgs =
      (simpleOutcome env msgs).map Handled.executed := by
  refine executedAfter_declined hjson henv hsimple (.category ?_ ?_) last
  · rintro ⟨members, hparse, -⟩
    exact hobject members hparse
  · rintro ⟨members, hparse, -⟩
    exact hobject members hparse

theorem simpleOutcome_conf {mode : List Char} (h : Words ["conf".toList, mode]) :
    (simpleOutcome env (String.ofList (message ["conf".toList, mode]))).map Handled.executed =
      .ok (some (.command (String.ofList mode))) := by
  obtain ⟨istr, hextract, hfields⟩ := exists_stream h
  obtain ⟨istr', hmode, -⟩ := extract_of_fields "unknown".toList (t := []) hfields (by simp)
  rw [List.append_nil] at hmode
  have hcategory : SimpleSerializer.parseCategory
      (String.ofList (message ["conf".toList, mode])) = catConf := by
    rw [SimpleSerializer.parseCategory, String.toList_ofList, hextract]
    exact if_pos String.ofList_toList
  have hcommand : SimpleSerializer.parseConfig env
      (String.ofList (message ["conf".toList, mode])) = (String.ofList mode, "OK") := by
    rw [SimpleSerializer.parseConfig, String.toList_ofList, hextract]
    dsimp only
    rw [hmode]
    exact if_pos String.ofList_toList
  have hne : String.ofList mode ≠ "" := by
    intro heq
    have hmode := (h mode (by simp)).1
    exact hmode (by simpa using congrArg String.toList heq)
  rw [simpleOutcome, hcategory, if_neg (by decide), handleConf, parseConfig, hcommand]
  change ((if String.ofList mode = "" then _ else _ : Except Failure _).map _).map _ = _
  rw [if_neg hne]
  rfl

/-- What the simple serializer makes of a request is executed. -/
theorem simpleOutcome_dpa (h : Words (word :: rest)) (hconf : word ≠ "conf".toList)
    {msgs : String} (hmsgs : msgs = String.ofList (message (word :: rest))) :
    simpleOutcome env msgs = (handleDpa env .simple "" msgs).map Prod.fst := by
  obtain ⟨istr, hextract, -⟩ := exists_stream h
  refine if_pos ?_
  rw [SimpleSerializer.parseCategory, hmsgs, String.toList_ofList, hextract]
  refine if_neg fun heq ↦ hconf ?_
  have hchars := congrArg String.toList heq
  rwa [String.toList_ofList] at hchars

theorem executed_of_created {msgs : String} {o : SimpleTask lib}
    (h : createSimple lib msgs = .ok o) :
    ((handleDpa env .simple "" msgs).map Prod.fst).map Handled.executed =
      .ok (some (.dpaTransaction o.task)) := by
  rw [handleDpa, parseRequest, h]
  rfl

theorem executed_of_refused {msgs : String} {e : Failure} (h : createSimple lib msgs = .error e)
    (he : e.isException = true) :
    ((handleDpa env .simple "" msgs).map Prod.fst).map Handled.executed = .ok none := by
  rw [handleDpa_simple_refused h he]
  rfl

/-- The request of a raw line whose tokens are the one dotted word, once the settings have been
taken out. -/
theorem prfRawSimple_dotted {istr hex : List Char} {bytes : List Byte} {task : DpaTask lib.Rest}
    (hhex : HexNotation '.' bytes hex) (hword : hex ≠ [] ∧ ∀ c ∈ hex, isSpace c = false)
    (htokens : parseTokens lib lib.dpaRaw (fields isSpace istr) = .ok (task, [hex])) :
    prfRawSimple lib istr = .ok ⟨.raw, task.fill 0 (bytes.take lib.maxDpaBuffer.toNat)⟩ := by
  have hfields : fields isSpace hex = [hex] := fields_of_word hword.1 hword.2
  have hvalues := mapM_stoiHex
    (List.forall₂_take lib.maxDpaBuffer.toNat (hhex.spells (.inl rfl)))
  have hbytes : (((bytes.take lib.maxDpaBuffer.toNat).map fun v ↦ (v.toNat : ℤ)).map
      (BitVec.ofInt 8)) = bytes.take lib.maxDpaBuffer.toNat := by
    simp [Function.comp_def]
  rw [prfRawSimple, htokens]
  change (retokenize lib task [hex] >>= _) = _
  rw [← hfields, retokenize_tokens (.inl rfl) hhex]
  change (List.mapM stoiHex _ >>= _) = _
  rw [hvalues]
  change Except.ok _ = _
  rw [hbytes]

theorem createSimple_raw (hlib : lib.Documented) (h : Words ("raw".toList :: rest))
    {o : SimpleTask lib}
    (hraw : ∀ istr, fields isSpace istr = rest → prfRawSimple lib istr = .ok o) :
    createSimple lib (String.ofList (message ("raw".toList :: rest))) = .ok o := by
  obtain ⟨istr, hextract, hfields⟩ := exists_stream h
  rw [createSimple, String.toList_ofList, hextract]
  dsimp only
  rw [String.ofList_toList, createObject, lookup_raw_simple hlib]
  exact hraw istr hfields

theorem not_isOption_of_hexNotation {hex : List Char} {bytes : List Byte}
    (hhex : HexNotation '.' bytes hex) (hword : hex ≠ [] ∧ ∀ c ∈ hex, isSpace c = false) :
    ¬ IsOption hex := by
  have hmem : hex ∈ fields isSpace hex := by
    rw [fields_of_word hword.1 hword.2]
    exact List.mem_singleton_self hex
  exact (hhex.plain (.inl rfl) (by decide) hex hmem).not_isOption

/-! Every creator of the simple serializer but that of raw requests asks for two tokens. -/

theorem logicOnly_settingOf (token : List Char) : LogicOnly (settingOf token) := by
  unfold settingOf
  split
  · exact .error rfl
  · exact .pure _

/-- One token is a setting that fails, or it leaves one token at most. -/
theorem parseTokens_token (task : DpaTask lib.Rest) (token : List Char) :
    (∃ e, parseTokens lib task [token] = .error e ∧ e.isException = true) ∨
      ∃ task' tokens, parseTokens lib task [token] = .ok (task', tokens) ∧ tokens.length ≤ 1 := by
  have hsetting := logicOnly_settingOf token
  rw [parseTokens.eq_def]
  dsimp only
  split_ifs with htimeout hclid hword
  · cases hset : settingOf token with
    | error e => exact .inl ⟨e, rfl, Failure.isException_of_isLogicError (hsetting e hset)⟩
    | ok value =>
        cases hread : stoi value with
        | error e =>
            refine .inl ⟨e, ?_, Failure.isException_of_isLogicError (logicOnly_stoi value e hread)⟩
            change (stoi value >>= _) = _
            rw [hread]
            rfl
        | ok r =>
            refine .inr ⟨lib.setTimeout r.1 task, [], ?_, Nat.zero_le 1⟩
            change (stoi value >>= _) = _
            rw [hread]
            exact parseTokens.eq_1 ..
  · cases hset : settingOf token with
    | error e => exact .inl ⟨e, rfl, Failure.isException_of_isLogicError (hsetting e hset)⟩
    | ok value => exact .inr ⟨_, [], parseTokens.eq_1 .., Nat.zero_le 1⟩
  · exact .inr ⟨task, [], rfl, Nat.zero_le 1⟩
  · refine .inr ⟨task, [token], ?_, le_rfl⟩
    rw [parseTokens.eq_1]
    rfl

theorem refused_of_token (kind : SimpleClass) (task : DpaTask lib.Rest) (token : List Char) :
    ∃ e, (do
      let (task, tokens) ← parseTokens lib task [token]
      return (⟨kind, ← parseRequestSimple lib task tokens⟩ : SimpleTask lib)) = .error e ∧
        e.isException = true := by
  rcases parseTokens_token task token with ⟨e, htokens, he⟩ | ⟨task', tokens, htokens, hlength⟩
  · rw [htokens]
    exact ⟨e, rfl, he⟩
  · rw [htokens]
    rcases tokens with _ | ⟨token', _ | ⟨more, tokens⟩⟩
    · exact ⟨_, rfl, rfl⟩
    · exact ⟨_, rfl, rfl⟩
    · simp at hlength

theorem createSimple_behind (hlib : lib.Documented) {token : List Char} (h : Words [word, token])
    (hraw : word ≠ "raw".toList) :
    ∃ e, createSimple lib (String.ofList (message [word, token])) = .error e ∧
      e.isException = true := by
  obtain ⟨istr, hextract, hfields⟩ := exists_stream h
  rw [createSimple, String.toList_ofList, hextract]
  dsimp only
  rw [createObject.eq_def]
  cases hlookup : (simpleCreators lib).lookup (String.ofList word) with
  | none => exact ⟨_, rfl, rfl⟩
  | some creator =>
      obtain ⟨before, after, hcreators, -⟩ := List.lookup_eq_some_iff.mp hlookup
      have hmem : (String.ofList word, creator) ∈ simpleCreators lib := by
        rw [hcreators]
        simp
      simp only [simpleCreators, List.mem_cons, List.not_mem_nil, or_false, Prod.mk.injEq] at hmem
      rcases hmem with ⟨-, rfl⟩ | ⟨-, rfl⟩ | ⟨-, rfl⟩ | ⟨hname, -⟩
      · have hrefused := refused_of_token .thermometer lib.prfThermometer token
        rwa [← hfields] at hrefused
      · have hrefused := refused_of_token .ledG lib.prfLedG token
        rwa [← hfields] at hrefused
      · have hrefused := refused_of_token .ledR lib.prfLedR token
        rwa [← hfields] at hrefused
      · refine absurd ?_ hraw
        rw [hlib.raw_name] at hname
        rw [← hname, String.toList_ofList]

end Simple

/-! ## Documents -/

section Documents

variable {lib : DpaLibrary} {env : Environment lib} {dbl : Doubles}

theorem isDocument_blank {text : List Char} {v : Value}
    (h : Grammar.IsDocument (Reads dbl) text v) :
    Grammar.IsDocument (Reads dbl) (text ++ [' ']) v := by
  obtain ⟨x, rfl, rfl, hx⟩ := h
  have hblank : Grammar.Blank (x.after ++ [' ']) :=
    x.blank_after.append (.cons (by decide) .nil)
  refine ⟨⟨x.before, x.text, x.after ++ [' '], x.value, x.blank_before, hblank⟩, ?_, rfl, hx⟩
  simp [Grammar.Element.padded]

/-- A blank behind a document changes nothing, within the text or behind its NUL character. -/
theorem parseDocument_blank {par : String → String → String} {json : List Char} {v : Value}
    (h : parseDocument dbl par (String.ofList json) = .ok v) :
    parseDocument dbl par (String.ofList (json ++ [' '])) = .ok v := by
  rw [parseDocument_of_parseText, parseText_eq_ok_iff, cString, String.toList_ofList,
    String.toList_ofList] at h ⊢
  rw [List.takeWhile_append]
  split
  case isTrue hlength =>
    rw [(List.takeWhile_prefix _).eq_of_length hlength] at h
    exact isDocument_blank h
  case isFalse => exact h

theorem parseString_message {json : List Char} {v : Value}
    (h : (env.withRapidjson dbl).parseString (String.ofList json) = .ok v) :
    (env.withRapidjson dbl).parseString (String.ofList (message [json])) = .ok v := by
  have hmessage : message [json] = json ++ [' '] := by simp [message]
  rw [withRapidjson_parseString] at h ⊢
  rw [hmessage]
  exact parseDocument_blank h

/-- What is executed depends on the document and not on its text. -/
theorem executedAfter_congr {format : String → Format} {json simple : String}
    (hjson : format json = .json) (hsimple : format simple = .simple) (henv : env.Documented)
    {msgs msgs' : String} {members : List (String × Value)}
    (h : env.parseString msgs = .ok (.object members))
    (h' : env.parseString msgs' = .ok (.object members)) (last : LastErrors) :
    executedAfter env format [json, simple] last msgs =
      executedAfter env format [json, simple] last msgs' := by
  have hsame : env.parseString msgs = env.parseString msgs' := h.trans h'.symm
  have hcategory : parseCategory env (format json) (last json) msgs =
      parseCategory env (format json) (last json) msgs' := by
    simp only [hjson, parseCategory, JsonSerializer.category, hsame]
  have hdpa (lastError : String) : handleDpa env (format json) lastError msgs =
      handleDpa env (format json) lastError msgs' := by
    simp only [hjson, handleDpa, parseRequest, createJson, hsame]
  have hconf (lastError : String) : handleConf env (format json) lastError msgs =
      handleConf env (format json) lastError msgs' := by
    simp only [hjson, handleConf, parseConfig, encodeConfig, JsonSerializer.command,
      JsonSerializer.addStatus, hsame]
  rw [executedAfter_eq, executedAfter_eq]
  cases hread : parseCategory env (format json) (last json) msgs with
  | error e => rw [handleLoop_abort hread, handleLoop_abort (hcategory ▸ hread)]
  | ok r =>
      obtain ⟨c, lastError⟩ := r
      have hread' := hcategory.symm.trans hread
      by_cases hc : c = catDpa
      · subst hc
        rw [handleLoop_dpa hread, handleLoop_dpa hread', hdpa]
      · by_cases hc' : c = catConf
        · subst hc'
          rw [handleLoop_conf hread, handleLoop_conf hread', hconf]
        · rw [handleLoop_next hread hc hc', handleLoop_next hread' hc hc',
            handleLoop_simple hsimple, handleLoop_simple hsimple,
            simpleOutcome_of_parse henv h, simpleOutcome_of_parse henv h']

theorem object_of_requestTimeout {parseString : String → Except Failure Value}
    {defaultTimeout t : ℤ} {json : List Char}
    (h : requestTimeout parseString defaultTimeout json = .ok t) :
    ∃ members, parseString (String.ofList json) = .ok (.object members) := by
  obtain ⟨doc, hparse, h⟩ := exists_ok_of_bind h
  obtain ⟨members, hobject, -⟩ := exists_ok_of_bind h
  cases doc with
  | object members => exact ⟨members, hparse⟩
  | _ => cases hobject

end Documents

/-! ## Every line of a session -/

section Served

variable {lib : DpaLibrary}

/-- What the daemon executes for a line, by its words and the timeout of the client.  For a
document behind another word nothing is known but that it is no request, unless both together
are an object for the parser. -/
inductive Served (e : Environment lib)
    (executed : List Char → Except Failure (Option (Executed lib))) :
    List (List Char) → Option ℤ → Prop
  | conf {mode : List Char}
      (command : executed (message ["conf".toList, mode]) =
        .ok (some (.command (String.ofList mode)))) :
      Served e executed ["conf".toList, mode] none
  | raw {hex : List Char} {defaultTimeout : ℤ}
      (transaction : ∀ bytes, HexNotation '.' bytes hex →
        executed (message ["raw".toList, hex]) = .ok (some (.dpaTransaction
          (lib.dpaRaw.fill 0 (bytes.take lib.maxDpaBuffer.toNat))))) :
      Served e executed ["raw".toList, hex] (some defaultTimeout)
  | rawTimeout {hex value : List Char} {timeout : ℤ}
      (transaction : ∀ bytes, HexNotation '.' bytes hex →
        executed (message ["raw".toList, hex, "timeout".toList, value]) =
          .ok (some (.dpaTransaction ((lib.setTimeout timeout lib.dpaRaw).fill 0
            (bytes.take lib.maxDpaBuffer.toNat))))) :
      Served e executed ["raw".toList, hex, "timeout".toList, value] (some timeout)
  | document {json : List Char} {timeout : ℤ} {members : List (String × Value)}
      (checked : e.parseString (String.ofList json) = .ok (.object members))
      (read : e.parseString (String.ofList (message [json])) = .ok (.object members))
      (same : executed (message [json]) = executed json) :
      Served e executed [json] (some timeout)
  | json {json : List Char} {timeout : ℤ}
      (nothing : executed (message ["json".toList, json]) = .ok none) :
      Served e executed ["json".toList, json] (some timeout)
  | behind {word json : List Char} {timeout : ℤ}
      (nothing : (∀ members, e.parseString (String.ofList (message [word, json])) ≠
        .ok (.object members)) → executed (message [word, json]) = .ok none) :
      Served e executed [word, json] (some timeout)

variable {env : Environment lib} {dbl : Doubles} {format : String → Format} {json simple : String}

theorem served_of_sending (hlib : lib.Documented) (henv : (env.withRapidjson dbl).Documented)
    (hjson : format json = .json) (hsimple : format simple = .simple) (last : LastErrors)
    {defaultTimeout : ℤ} {params : List (List Char)} {timeout : Option ℤ}
    (h : Sending (env.withRapidjson dbl).parseString defaultTimeout params timeout)
    (hwords : Words params) :
    Served (env.withRapidjson dbl)
      (fun text ↦ executedAfter (env.withRapidjson dbl) format [json, simple] last
        (String.ofList text)) params timeout := by
  have hraw : ∀ {rest} {task : DpaTask lib.Rest} {hex : List Char}, Words ("raw".toList :: rest) →
      (hex ≠ [] ∧ ∀ c ∈ hex, isSpace c = false) → ∀ bytes, HexNotation '.' bytes hex →
        parseTokens lib lib.dpaRaw rest = .ok (task, [hex]) →
          executedAfter (env.withRapidjson dbl) format [json, simple] last
            (String.ofList (message ("raw".toList :: rest))) = .ok (some (.dpaTransaction
              (task.fill 0 (bytes.take lib.maxDpaBuffer.toNat)))) := by
    intro rest task hex hwords hword bytes hhex htokens
    have hcreated := createSimple_raw hlib hwords fun istr hfields ↦
      prfRawSimple_dotted hhex hword (by rw [hfields, htokens])
    rw [executedAfter_simple hjson hsimple henv (not_object henv hwords (by decide)),
      simpleOutcome_dpa hwords (by decide) rfl]
    exact executed_of_created hcreated
  cases h with
  | raw hex =>
      have hword := hwords hex (by simp)
      refine .raw fun bytes hhex ↦ hraw hwords hword bytes hhex ?_
      refine parseTokens_words (fun w hw ↦ ?_) lib.dpaRaw
      obtain rfl := List.mem_singleton.mp hw
      exact not_isOption_of_hexNotation hhex hword
  | rawTimeout hex value t n hread =>
      have hword := hwords hex (by simp)
      refine .rawTimeout fun bytes hhex ↦ hraw hwords hword bytes hhex ?_
      have hoption := not_isOption_of_hexNotation hhex hword
      rw [parseTokens_cons_of_not_isOption hoption, parseTokens_timeout_word, hread]
      change (fun r ↦ (r.1, hex :: r.2)) <$> parseTokens lib (lib.setTimeout t lib.dpaRaw) [] = _
      rw [parseTokens.eq_1]
      rfl
  | conf mode =>
      refine .conf ?_
      rw [executedAfter_simple hjson hsimple henv (not_object henv hwords (by decide))]
      exact simpleOutcome_conf hwords
  | document text t hread =>
      obtain ⟨members, hparse⟩ := object_of_requestTimeout hread
      have hmessage := parseString_message hparse
      exact .document hparse hmessage (executedAfter_congr hjson hsimple henv hmessage hparse last)
  | behind word text t hraw' hconf =>
      obtain ⟨err, hrefused, herr⟩ := createSimple_behind hlib hwords hraw'
      have hnothing (hobject : ∀ members, (env.withRapidjson dbl).parseString
          (String.ofList (message [word, text])) ≠ .ok (.object members)) :
          executedAfter (env.withRapidjson dbl) format [json, simple] last
            (String.ofList (message [word, text])) = .ok none := by
        rw [executedAfter_simple hjson hsimple henv hobject, simpleOutcome_dpa hwords hconf rfl]
        exact executed_of_refused hrefused herr
      by_cases hword : word = "json".toList
      · subst hword
        exact .json (hnothing (not_object henv hwords (by decide)))
      · exact .behind hnothing

/-- Over every session with the client: each text it has sent is the message of a line that it
accepted, and the daemon executes for it what `Served` says, whatever came before. -/
theorem session_served (hlib : lib.Documented) (henv : (env.withRapidjson dbl).Documented)
    (hjson : format json = .json) (hsimple : format simple = .simple) {s : State}
    (h : (session (env.withRapidjson dbl).parseString).Reachable s) {text : List Char}
    (htext : text ∈ s.sent) (last : LastErrors) :
    ∃ line timeout,
      runCmd (env.withRapidjson dbl).parseString s.defaultTimeout (readParams line) =
          some (.send timeout) ∧
        text = message (readParams line) ∧
          Served (env.withRapidjson dbl)
            (fun text ↦ executedAfter (env.withRapidjson dbl) format [json, simple] last
              (String.ofList text)) (readParams line) timeout := by
  obtain ⟨line, timeout, hrun, rfl⟩ := (requested_of_reachable h).sent text htext
  obtain ⟨hsending, hhead⟩ := sending_of_runCmd hrun
  exact ⟨line, timeout, hrun, rfl,
    served_of_sending hlib henv hjson hsimple last hsending (words_readParams hhead)⟩

theorem plainEnvironment_withRapidjson :
    (plainEnvironment.withRapidjson plainDoubles).Documented :=
  documented_withRapidjson (fun _ ↦ rfl) plainEnvironment_documented.name_ne_empty
    plainEnvironment_documented.name_ne_brace plainEnvironment_documented.par_injective

def rawSent : State :=
  { State.start 5000 with
    actualTimeout := 1000
    main := .waitForMessageReceived (.command 0)
    sent := ["raw 01.ff timeout 1000 ".toList] }

theorem session_served_rawSent :
    ∃ line timeout,
      runCmd (plainEnvironment.withRapidjson plainDoubles).parseString 5000 (readParams line) =
          some (.send timeout) ∧
        "raw 01.ff timeout 1000 ".toList = message (readParams line) ∧
          Served (plainEnvironment.withRapidjson plainDoubles)
            (fun text ↦ executedAfter (plainEnvironment.withRapidjson plainDoubles) plainFormat
              ["JsonSerializer", "SimpleSerializer"] (fun _ ↦ "") (String.ofList text))
            (readParams line) timeout := by
  have hrun : (session (plainEnvironment.withRapidjson plainDoubles).parseString).run
      (.start 5000) [.line "raw 01.ff timeout 1000".toList, .sendParamsAsMessage] =
        some rawSent := rfl
  exact session_served plainLibrary_documented plainEnvironment_withRapidjson (by decide)
    (by decide) (System.reachable_of_run _ ⟨5000, by decide, rfl⟩ hrun)
    (List.mem_singleton_self _) (fun _ ↦ "")

end Served

end IqrfDaemon.Iqrfapp
