import IqrfDaemon.Rapidjson.RoundTrip
import IqrfDaemon.Serializer.RoundTrip
import IqrfDaemon.Service.Messages

/-!
# Replies as texts

The JSON serializer over the parser and the writer of the repository: what it replies
is a text, and the text is read back as the members it was written from.
-/

namespace IqrfDaemon.Service

open Json Json.Grammar Json.Jutils Rapidjson Serializer Text Scheduler

variable {lib : DpaLibrary}

/-! ## The serializer over rapidjson -/

/-- The writer never fails, so that what stands here for a failure is not met. -/
def Environment.withRapidjson (env : Environment lib) (dbl : Doubles) : Environment lib :=
  { env with
    parseString := parseDocument dbl env.par
    prettyWriter v := (Rapidjson.prettyWriter dbl v).toOption.getD "" }

variable {env : Environment lib} {dbl : Doubles}

@[simp]
theorem withRapidjson_parseString (env : Environment lib) (dbl : Doubles) :
    (env.withRapidjson dbl).parseString = parseDocument dbl env.par := by
  rw [Environment.withRapidjson]

@[simp]
theorem withRapidjson_printers (env : Environment lib) (dbl : Doubles) :
    (env.withRapidjson dbl).printers = env.printers := by
  rw [Environment.withRapidjson]

@[simp]
theorem withRapidjson_encoders (env : Environment lib) (dbl : Doubles) :
    (env.withRapidjson dbl).encoders = env.encoders := by
  rw [Environment.withRapidjson]

theorem prettyWriter_eq (env : Environment lib) (dbl : Doubles) (v : Value) :
    Rapidjson.prettyWriter dbl v = .ok ((env.withRapidjson dbl).prettyWriter v) := by
  have hne := accept_ne_abort dbl v
  change _ = Except.ok ((Rapidjson.prettyWriter dbl v).toOption.getD "")
  rw [Rapidjson.prettyWriter]
  split
  · rfl
  · rfl
  · exact absurd ‹_› hne

/-- What is written for a value is parsed as the value. -/
theorem parseString_prettyWriter (env : Environment lib) {v : Value} (h : Writable dbl v) :
    (env.withRapidjson dbl).parseString ((env.withRapidjson dbl).prettyWriter v) =
      .ok (reread dbl v) := by
  obtain ⟨text, htext, hnul, hdocument⟩ := isDocument_prettyWriter h
  rw [prettyWriter_eq env dbl v] at htext
  cases htext
  rw [withRapidjson_parseString]
  exact parseDocument_of_isDocument hnul hdocument env.par

theorem isSpace_of_isBlank {c : Char} (h : isBlank c = true) : isSpace c = true := by
  simp only [isBlank, Bool.or_eq_true, decide_eq_true_eq] at h
  rcases h with ((rfl | rfl) | rfl) | rfl <;> rfl

/-- The text of an object starts with its brace. -/
theorem brace_of_object {reads : Grammar.Numeral → Value → Prop} {t : List Char}
    {members : List (String × Value)} (h : IsValue reads t (.object members))
    (hreads : ∀ n v, reads n v → ∀ members, v ≠ .object members) : ∃ r, t = '{' :: r := by
  generalize hv : Value.object members = v at h
  cases h with
  | @number n v h => exact absurd hv.symm (hreads n v h members)
  | emptyObject | object => exact ⟨_, rfl⟩
  | _ => cases hv

theorem valueOf_ne_object {n : Grammar.Numeral} {v : Value} (h : Rapidjson.Reads dbl n v)
    (members : List (String × Value)) : v ≠ .object members := by
  rw [h.2, valueOf]
  split <;> exact fun h ↦ by cases h

/-- What the services rely on holds of the parser. -/
theorem documented_withRapidjson (hwhat : ∀ s, env.what (.logicError s) = s)
    (hempty : ∀ name ∈ (simpleCreators lib).map Prod.fst, name ≠ "")
    (hbrace : ∀ name ∈ (simpleCreators lib).map Prod.fst, name.toList.head? ≠ some '{')
    (hpar : ∀ {name a b}, env.par name a = env.par name b → a = b) :
    (env.withRapidjson dbl).Documented where
  parse_exception := by
    intro text e h
    rw [withRapidjson_parseString, parseDocument] at h
    split at h
    · cases h
    · cases h
      rfl
  parse_empty := by
    refine ⟨_, rfl, ?_⟩
    change env.what _ ≠ ""
    rw [hwhat]
    intro h
    have hlength := congrArg String.length h
    simp [String.length_append] at hlength
  parse_object := by
    intro text members h
    rw [withRapidjson_parseString] at h
    obtain ⟨x, htext, hvalue, hx⟩ := parseText_eq_ok_iff.mp (parseDocument_of_parseText.mp h)
    obtain ⟨r, hr⟩ := brace_of_object (hvalue ▸ hx) fun _ _ ↦ valueOf_ne_object
    obtain ⟨rest, hrest⟩ : ∃ rest, text.toList = (cString text).toList ++ rest :=
      ⟨_, by rw [cString, String.toList_ofList]; exact List.takeWhile_append_dropWhile.symm⟩
    refine ⟨r ++ (x.after ++ rest), ?_⟩
    rw [hrest, htext, Element.padded, hr, List.append_assoc, List.append_assoc,
      List.dropWhile_append_of_pos fun c hc ↦ isSpace_of_isBlank (x.blank_before c hc)]
    exact List.dropWhile_cons_of_neg (p := isSpace) (a := '{') (by decide)
  name_ne_empty := hempty
  name_ne_brace := hbrace
  par_injective := hpar

/-! ## Commands -/

theorem writable_append {members : List (String × Value)}
    (h : Writable dbl (.object members)) (name s : String) :
    Writable dbl (.object (members ++ [(name, .string s)])) := by
  cases h with
  | object h =>
      refine .object fun m hm ↦ ?_
      rcases List.mem_append.mp hm with hm | hm
      · exact h m hm
      · obtain rfl := List.mem_singleton.mp hm
        exact .string s

/-- A message that says its category is handled by the JSON serializer if that comes first. -/
theorem category_of_textMember {msgs c : String} {members : List (String × Value)}
    (hparse : env.parseString msgs = .ok (.object members))
    (hctype : textMember members "ctype" = some c) {format : String → Format} {ser : String}
    (hser : format ser = .json) (last : LastErrors) :
    parseCategory env (format ser) (last ser) msgs = .ok (c, last ser) :=
  parseCategory_json hser (category_eq_ok_iff.mpr ⟨members, hparse, hctype⟩)

/-- The reply to a command, of a service whose first serializer is the JSON one, is read as the
members of its message, followed by the status; only its doubles may be printed differently. -/
theorem command_reply_text (hprints : dbl.Prints) {msgs cmd : String}
    {members : List (String × Value)}
    (hparse : (env.withRapidjson dbl).parseString msgs = .ok (.object members))
    (hfinite : ¬HasInfinite dbl (.object members))
    (hctype : textMember members "ctype" = some catConf)
    (htype : textMember members "type" = some "mode")
    (hcmd : textMember members "cmd" = some cmd) (hne : cmd ≠ "") (format : String → Format)
    (ser : String) (hser : format ser = .json) (rest : List String) (last : LastErrors) :
    ∃ reply, handleMsgFromMessaging (env.withRapidjson dbl) format (ser :: rest) last msgs =
        .ok (⟨some (.command cmd), reply⟩, last) ∧
      (env.withRapidjson dbl).parseString reply = .ok (.object
        (rereadMembers dbl members ++ [("status", .string (cString (env.doCommand cmd)))])) := by
  have hcommand : JsonSerializer.command (env.withRapidjson dbl) msgs = .ok cmd := by
    refine command_eq_ok_iff.mpr ⟨"mode", ⟨members, hparse, htype⟩, ?_⟩
    rw [if_pos rfl]
    exact ⟨members, hparse, hcmd⟩
  have hdocument := hparse
  rw [withRapidjson_parseString] at hdocument
  have hwritable := writable_append (writable_of_parseDocument hprints hdocument hfinite) "status"
    (cString (env.doCommand cmd))
  have hstatus : JsonSerializer.addStatus (env.withRapidjson dbl) msgs (env.doCommand cmd) =
      .ok ((env.withRapidjson dbl).prettyWriter
        (.object (members ++ [("status", .string (cString (env.doCommand cmd)))]))) := by
    rw [JsonSerializer.addStatus, hparse]
    rfl
  have hread := parseString_prettyWriter env hwritable
  rw [reread, rereadMembers_eq_map, List.map_append, ← rereadMembers_eq_map] at hread
  have hconf : handleConf (env.withRapidjson dbl) .json (last ser) msgs =
      .ok (⟨some (.command cmd), (env.withRapidjson dbl).prettyWriter
        (.object (members ++ [("status", .string (cString (env.doCommand cmd)))]))⟩, last ser) := by
    rw [handleConf, parseConfig, hcommand]
    change (if cmd = "" then _ else _) = _
    rw [if_neg hne, encodeConfig]
    change (catching _ _ _ (JsonSerializer.addStatus _ msgs (env.doCommand cmd)) >>= _) = _
    rw [hstatus]
    rfl
  refine ⟨_, ?_, hread⟩
  rw [handleMsgFromMessaging, handleLoop_conf (category_of_textMember hparse hctype hser last),
    hser, hconf, Except.map, Function.update_eq_self]

def modeMembers : List (String × Value) :=
  [("ctype", .string "conf"), ("type", .string "mode"), ("cmd", .string "operational"),
    ("msgid", .int 7)]

theorem command_reply_text_operational :
    ∃ msgs reply, handleMsgFromMessaging (plainEnvironment.withRapidjson plainDoubles) plainFormat
        ["JsonSerializer", "SimpleSerializer"] (fun _ ↦ "") msgs =
          .ok (⟨some (.command "operational"), reply⟩, fun _ ↦ "") ∧
      (plainEnvironment.withRapidjson plainDoubles).parseString reply =
        .ok (.object (modeMembers ++ [("status", .string "OK")])) := by
  have hwritable : Writable plainDoubles (.object modeMembers) := by
    refine .object fun m hm ↦ ?_
    simp only [modeMembers, List.mem_cons, List.not_mem_nil, or_false] at hm
    rcases hm with rfl | rfl | rfl | rfl
    · exact .string _
    · exact .string _
    · exact .string _
    · exact .int ⟨by decide, by decide⟩
  have hfinite : ¬HasInfinite plainDoubles (.object modeMembers) := by
    rintro ⟨text, hinside, -⟩
    cases hinside with
    | member hmem hinside =>
        simp only [modeMembers, List.mem_cons, List.not_mem_nil, or_false] at hmem
        rcases hmem with rfl | rfl | rfl | rfl <;> cases hinside
  have hstatus : cString (plainEnvironment.doCommand "operational") = "OK" := by decide
  have hparse : (plainEnvironment.withRapidjson plainDoubles).parseString
      ((plainEnvironment.withRapidjson plainDoubles).prettyWriter (.object modeMembers)) =
        .ok (.object modeMembers) := parseString_prettyWriter plainEnvironment hwritable
  have htype : textMember modeMembers "type" = some "mode" := by decide
  have hcmd : textMember modeMembers "cmd" = some "operational" := by decide
  have hctype : textMember modeMembers "ctype" = some catConf := by decide
  have hreply := command_reply_text plainDoubles_prints hparse hfinite hctype htype hcmd
    (by decide) plainFormat "JsonSerializer" rfl ["SimpleSerializer"] (fun _ ↦ "")
  rw [hstatus] at hreply
  exact ⟨_, hreply⟩

/-! ## Transactions -/

/-- The members of a reply are texts, but for the timeout, and for the temperature of a
thermometer. -/
structure Covers (P : String × Value → Prop) : Prop where
  string : ∀ name s, P (name, .string s)
  timeout : ∀ n, -2147483648 ≤ n → n ≤ 2147483647 → P ("timeout", .int n)

section Covers

variable {P : String × Value → Prop} {tx : Transaction} {doc : List (String × Value)}
  {c : PrfCommonJson}

def TimeoutFits (c : PrfCommonJson) : Prop :=
  -2147483648 ≤ c.timeoutJ.value ∧ c.timeoutJ.value ≤ 2147483647

theorem Covers.prio1 (hP : Covers P) (tx : Transaction) (h : AddsOnly P doc c.doc)
    (hc : TimeoutFits c) :
    AddsOnly P doc (c.addResponseJsonPrio1Params tx).doc := by
  have hdoc : ∀ (c : PrfCommonJson) (d : List (String × Value)),
      ({ c with doc := d } : PrfCommonJson).timeoutJ = c.timeoutJ := fun _ _ ↦ rfl
  unfold PrfCommonJson.addResponseJsonPrio1Params
  refine AddsOnly.put ?_ fun _ ↦ hP.string _ _
  refine AddsOnly.choice ?_ _ rfl
  refine AddsOnly.ite ?_ fun _ ↦ ?_
  · refine AddsOnly.put ?_ fun _ ↦ hP.string _ _
    refine AddsOnly.put ?_ fun _ ↦ hP.string _ _
    exact h.put fun _ ↦ hP.string _ _
  · rw [put_field hdoc, put_field hdoc, put_field hdoc]
    exact hP.timeout _ hc.1 hc.2

theorem Covers.prio2 (hP : Covers P) (h : AddsOnly P doc c.doc) :
    AddsOnly P doc (c.addResponseJsonPrio2Params tx).doc := by
  unfold PrfCommonJson.addResponseJsonPrio2Params
  refine AddsOnly.put ?_ fun _ ↦ hP.string _ _
  refine AddsOnly.choice ?_ _ rfl
  refine AddsOnly.put ?_ fun _ ↦ hP.string _ _
  exact h.choice _ rfl

theorem Covers.final (hP : Covers P) (h : AddsOnly P doc c.doc) (p : Printers)
    (request : DpaMessage) : AddsOnly P doc (c.encodeResponseJsonFinal p request tx).2 := by
  refine AddsOnly.addMember ?_ (hP.string _ _)
  unfold PrfCommonJson.addMessages
  refine AddsOnly.put ?_ fun _ ↦ hP.string _ _
  refine AddsOnly.put ?_ fun _ ↦ hP.string _ _
  refine AddsOnly.put ?_ fun _ ↦ hP.string _ _
  refine AddsOnly.put ?_ fun _ ↦ hP.string _ _
  refine AddsOnly.put ?_ fun _ ↦ hP.string _ _
  refine AddsOnly.put ?_ fun _ ↦ hP.string _ _
  unfold PrfCommonJson.addAnswer
  refine AddsOnly.put ?_ fun _ ↦ hP.string _ _
  refine AddsOnly.put ?_ fun _ ↦ hP.string _ _
  refine AddsOnly.put ?_ fun _ ↦ hP.string _ _
  exact h

theorem Covers.common (hP : Covers P) (tx : Transaction) (h : AddsOnly P doc c.doc)
    (hc : TimeoutFits c) :
    AddsOnly P doc ((c.addResponseJsonPrio1Params tx).addResponseJsonPrio2Params tx).doc :=
  hP.prio2 (hP.prio1 tx h hc)

theorem Covers.raw (hP : Covers P) (hc : TimeoutFits c) (p : Printers) (request : DpaMessage) :
    AddsOnly P c.doc (PrfRawJson.encodeResponse p c request tx).2 := by
  unfold PrfRawJson.encodeResponse
  dsimp only
  split
  · refine hP.final (hP.common tx ?_ ?_) p request
    · exact .start rfl
    · exact hc
  · refine hP.final (hP.common tx ?_ ?_) p request
    · exact .start rfl
    · exact hc

theorem Covers.rawHdp (hP : Covers P) (hc : TimeoutFits c) (p : Printers)
    (request : DpaMessage) : AddsOnly P c.doc (PrfRawHdpJson.encodeResponse p c request tx).2 := by
  unfold PrfRawHdpJson.encodeResponse
  dsimp only
  refine hP.final (hP.prio2 ?_) p request
  have hfirst := hP.prio1 tx (.start rfl : AddsOnly P c.doc c.doc) hc
  generalize c.addResponseJsonPrio1Params tx = c' at hfirst ⊢
  exact (AddsOnly.addMember (c := { c' with hwpid := ⟨true, _⟩ }) hfirst (hP.string _ _)).addMember
    (hP.string _ _)

theorem Covers.thermometer (hP : Covers P) (htemperature : P ("temperature", .real tx.temperature))
    (hc : TimeoutFits c) (p : Printers) (request : DpaMessage) :
    AddsOnly P c.doc (PrfThermometerJson.encodeResponse p c request tx).2 := by
  have hcommon := (hP.common tx (.start rfl : AddsOnly P c.doc c.doc) hc).addMember htemperature
  unfold PrfThermometerJson.encodeResponse
  dsimp only
  generalize (c.addResponseJsonPrio1Params tx).addResponseJsonPrio2Params tx = c' at hcommon ⊢
  refine hP.final ?_ p request
  exact hcommon

theorem Covers.led (hP : Covers P) (hc : TimeoutFits c) (p : Printers) (request : DpaMessage) :
    AddsOnly P c.doc (PrfLedJson.encodeResponse p c request tx).2 := by
  have hcommon := hP.common tx (.start rfl : AddsOnly P c.doc c.doc) hc
  unfold PrfLedJson.encodeResponse
  dsimp only
  generalize (c.addResponseJsonPrio1Params tx).addResponseJsonPrio2Params tx = c' at hcommon ⊢
  have hled := hcommon.ite (q := 0 ≤ tx.ledState) fun _ ↦
    hP.string "led_state" (if tx.ledState = 0 then "off" else "on")
  refine hP.final ?_ p request
  exact hled

end Covers

section Built

variable {val : Value} {o : JsonTask lib}

theorem timeout_fits {k : Kept ℤ} (h : getMemberIfExistsAs assertIsInt "timeout" val 0 = .ok k) :
    -2147483648 ≤ k.value ∧ k.value ≤ 2147483647 := by
  unfold getMemberIfExistsAs at h
  split at h
  · cases h
    decide
  · next m _ =>
      obtain ⟨n, hn, hk⟩ := exists_ok_of_bind h
      cases hk
      unfold assertIsInt at hn
      split at hn
      · split at hn
        case isTrue hrange =>
          cases hn
          exact hrange
        case isFalse => cases hn
      · cases hn
  · cases h

theorem timeoutFits_parseRequestJson {dpaTask : DpaTask lib.Rest}
    {built : PrfCommonJson × DpaTask lib.Rest}
    (h : parseRequestJson lib val dpaTask = .ok built) : TimeoutFits built.1 := by
  unfold parseRequestJson at h
  obtain ⟨_, -, h⟩ := exists_ok_of_bind h
  obtain ⟨_, -, h⟩ := exists_ok_of_bind h
  obtain ⟨_, -, h⟩ := exists_ok_of_bind h
  obtain ⟨_, -, h⟩ := exists_ok_of_bind h
  obtain ⟨_, -, h⟩ := exists_ok_of_bind h
  obtain ⟨timeoutJ, htimeout, h⟩ := exists_ok_of_bind h
  have hrange := timeout_fits htimeout
  repeat obtain ⟨_, -, h⟩ := exists_ok_of_bind h
  -- the three setters that a member decides on
  dsimp only at h
  split at h <;> obtain ⟨_, -, h⟩ := exists_ok_of_bind h
  all_goals split at h <;> obtain ⟨_, -, h⟩ := exists_ok_of_bind h
  all_goals split at h <;> obtain ⟨_, -, h⟩ := exists_ok_of_bind h
  all_goals
    cases h
    exact hrange

/-- What is added to a reply, by the class of its object. -/
theorem adds_of_built {P : String × Value → Prop} (tx : Transaction)
    (built : BuiltFrom lib val o) (hP : Covers P)
    (htemperature : o.kind = .thermometer → P ("temperature", .real tx.temperature))
    (p : Printers) (other : OtherEncoders) :
    AddsOnly P o.common.doc (Serializer.encodeResponse p other o tx).2 := by
  cases built with
  | raw built =>
    obtain ⟨⟨common, task⟩, hparsed, built⟩ := exists_ok_of_bind built
    dsimp only at built
    split at built
    · cases built
    · obtain ⟨bytes, -, built⟩ := exists_ok_of_bind built
      cases built
      refine hP.raw ?_ p _
      exact timeoutFits_parseRequestJson hparsed
  | rawHdp built =>
    obtain ⟨⟨common, task⟩, hparsed, built⟩ := exists_ok_of_bind built
    repeat obtain ⟨_, -, built⟩ := exists_ok_of_bind built
    cases built
    refine hP.rawHdp ?_ p _
    exact timeoutFits_parseRequestJson hparsed
  | thermometer built =>
    obtain ⟨⟨common, task⟩, hparsed, built⟩ := exists_ok_of_bind built
    cases built
    exact hP.thermometer (htemperature rfl) (timeoutFits_parseRequestJson hparsed) p _
  | ledG built =>
    obtain ⟨⟨common, task⟩, hparsed, built⟩ := exists_ok_of_bind built
    cases built
    exact hP.led (timeoutFits_parseRequestJson hparsed) p _
  | ledR built =>
    obtain ⟨⟨common, task⟩, hparsed, built⟩ := exists_ok_of_bind built
    cases built
    exact hP.led (timeoutFits_parseRequestJson hparsed) p _

/-- A reply is a text of the members that were encoded. -/
theorem parseString_encodeResponse (env : Environment lib) (dbl : Doubles) (tx : Transaction)
    (built : BuiltFrom lib val o)
    (htemperature : o.kind = .thermometer → Writable dbl (.real tx.temperature)) :
    (env.withRapidjson dbl).parseString
        ((TaskObject.json o).encodeResponse (env.withRapidjson dbl) tx) =
      .ok (.object (rereadMembers dbl
        (Serializer.encodeResponse env.printers env.encoders o tx).2)) := by
  have hcovers : Covers fun m ↦ Writable dbl m.2 :=
    ⟨fun _ s ↦ .string s, fun n hmin hmax ↦ .int ⟨by omega, by omega⟩⟩
  obtain ⟨added, hdoc, hadded⟩ :=
    adds_of_built tx built hcovers htemperature env.printers env.encoders
  rw [built.encodes.doc, List.nil_append] at hdoc
  have hwritable : Writable dbl
      (.object (Serializer.encodeResponse env.printers env.encoders o tx).2) := by
    refine .object fun m hm ↦ hadded m ?_
    rw [← hdoc]
    exact hm
  rw [TaskObject.encodeResponse, withRapidjson_printers, withRapidjson_encoders]
  exact parseString_prettyWriter env hwritable

theorem rereadMembers_encodeResponse {tx : Transaction} (built : BuiltFrom lib val o)
    (hkind : o.kind ≠ .thermometer) (p : Printers) (other : OtherEncoders) :
    rereadMembers dbl (Serializer.encodeResponse p other o tx).2 =
      (Serializer.encodeResponse p other o tx).2 := by
  have hcovers : Covers fun m ↦ reread dbl m.2 = m.2 := ⟨fun _ _ ↦ rfl, fun _ _ _ ↦ rfl⟩
  obtain ⟨added, hdoc, hadded⟩ := adds_of_built tx built hcovers
    (fun h ↦ absurd h hkind) p other
  rw [built.encodes.doc, List.nil_append] at hdoc
  rw [rereadMembers_eq_map, hdoc]
  refine (List.map_congr_left fun m hm ↦ ?_).trans (List.map_id added)
  rw [hadded m hm]
  rfl

theorem createJson_of_type {members : List (String × Value)} {msgs type : String}
    {creator : Value → Except Failure (JsonTask lib)}
    (hparse : env.parseString msgs = .ok (.object members))
    (htype : textMember members "type" = some type)
    (hcreator : (jsonCreators lib env.others).lookup type = some creator) :
    createJson lib env.others env.parseString msgs = creator (.object members) := by
  rw [createJson, hparse]
  change (getMemberAs assertIsString "type" (.object members) >>= fun perif ↦
    createObject (jsonCreators lib env.others) perif (.object members)) = _
  rw [getMemberAs_object_iff.mpr htype]
  change createObject (jsonCreators lib env.others) type (.object members) = _
  rw [createObject, hcreator]

theorem handleDpa_created {msgs : String}
    (hcreate : createJson lib env.others env.parseString msgs = .ok o) (lastError : String) :
    handleDpa env .json lastError msgs = .ok (⟨some (.dpaTransaction o.task),
      (TaskObject.json o).encodeResponse env (env.executeDpaTransaction o.task)⟩, lastError) := by
  have hparse : parseRequest env .json lastError msgs = .ok (some (.json o), lastError) := by
    rw [parseRequest, hcreate]
    rfl
  rw [handleDpa, hparse]
  rfl

/-- A member of a document without repeated names. -/
theorem lookup_of_reports {doc : List (String × Value)} (hnodup : (doc.map Prod.fst).Nodup)
    {name : String} {bytes : List Byte} (h : Reports true name bytes doc) :
    ∃ v, doc.lookup name = some v ∧ Decodes v bytes := by
  obtain ⟨v, hv⟩ := h.1 rfl
  exact ⟨v, lookup_of_mem hnodup hv, h.2 v hv⟩

theorem has_of_prfRawJson (built : prfRawJson lib val = .ok o) :
    o.kind = .raw ∧ o.common.requestJ.has = true := by
  obtain ⟨⟨common, task⟩, -, built⟩ := exists_ok_of_bind built
  dsimp only at built
  split at built
  case isTrue => cases built
  case isFalse hhas =>
    obtain ⟨bytes, -, built⟩ := exists_ok_of_bind built
    cases built
    exact ⟨rfl, by simpa [PrfCommonJson.noteDots] using hhas⟩

theorem reports_encodeResponse {p : Printers} (hp : PrintsHex p) (c : PrfCommonJson)
    (request : DpaMessage) (tx : Transaction) :
    ∃ added, (PrfRawJson.encodeResponse p c request tx).2 = c.doc ++ added ∧
      Reports c.requestJ.has "request" request.bytes added ∧
      Reports true "response" tx.response.bytes added := by
  unfold PrfRawJson.encodeResponse
  dsimp only
  split
  · obtain ⟨added, hdoc, hrequest, -, hresponse⟩ := raw_reports request tx hp
      { c with responseJ := ⟨true, "."⟩, statusJ := tx.errStr }
    exact ⟨added, hdoc, hrequest, hresponse⟩
  · obtain ⟨added, hdoc, hrequest, -, hresponse⟩ := raw_reports request tx hp
      { c with responseJ := ⟨true, c.responseJ.value⟩, statusJ := tx.errStr }
    exact ⟨added, hdoc, hrequest, hresponse⟩

/-- The reply to a raw request, of a service whose first serializer is the JSON one, is a text,
from which the bytes of the request and those of the response are read back. -/
theorem raw_reply_text (hlib : lib.Documented) (hp : PrintsHex env.printers) {msgs : String}
    {members : List (String × Value)}
    (hparse : (env.withRapidjson dbl).parseString msgs = .ok (.object members))
    (hctype : textMember members "ctype" = some catDpa)
    (htype : textMember members "type" = some "raw")
    (built : prfRawJson lib (.object members) = .ok o) (format : String → Format)
    (ser : String) (hser : format ser = .json) (rest : List String) (last : LastErrors) :
    ∃ reply doc, handleMsgFromMessaging (env.withRapidjson dbl) format (ser :: rest) last msgs =
        .ok (⟨some (.dpaTransaction o.task), reply⟩, last) ∧
      (env.withRapidjson dbl).parseString reply = .ok (.object doc) ∧
      (∃ v, doc.lookup "request" = some v ∧ Decodes v o.task.request.bytes) ∧
      ∃ v, doc.lookup "response" = some v ∧
        Decodes v (env.executeDpaTransaction o.task).response.bytes := by
  have hbuilt : Serializer.BuiltFrom lib (.object members) o := .raw built
  obtain ⟨hkind, hhas⟩ := has_of_prfRawJson built
  have hthermometer : o.kind ≠ .thermometer := by simp [hkind]
  have hcreate : createJson lib (env.withRapidjson dbl).others
      (env.withRapidjson dbl).parseString msgs = .ok o :=
    (createJson_of_type hparse htype (lookup_raw_json hlib _)).trans built
  have hread := parseString_encodeResponse env dbl
    (env.executeDpaTransaction o.task) hbuilt fun h ↦ absurd h hthermometer
  rw [rereadMembers_encodeResponse hbuilt hthermometer] at hread
  have hnodup := hbuilt.encodes.first env.printers env.encoders (env.executeDpaTransaction o.task)
  obtain ⟨added, hdoc, hrequest, hresponse⟩ := reports_encodeResponse hp o.common o.task.request
    (env.executeDpaTransaction o.task)
  rw [hbuilt.encodes.doc, List.nil_append] at hdoc
  rw [hhas] at hrequest
  have hencoded : (Serializer.encodeResponse env.printers env.encoders o
      (env.executeDpaTransaction o.task)).2 = added := by
    rw [Serializer.encodeResponse, encodeWith.eq_def, hkind]
    exact hdoc
  rw [hencoded] at hnodup hread
  refine ⟨_, added, ?_, hread, lookup_of_reports hnodup hrequest,
    lookup_of_reports hnodup hresponse⟩
  rw [handleMsgFromMessaging, handleLoop_dpa (category_of_textMember hparse hctype hser last),
    hser, handleDpa_created hcreate, Except.map, Function.update_eq_self]
  rfl

theorem raw_reply_text_dotted :
    ∃ msgs reply doc, ∃ o : JsonTask plainLibrary,
      handleMsgFromMessaging (plainEnvironment.withRapidjson plainDoubles) plainFormat
          ["JsonSerializer", "SimpleSerializer"] (fun _ ↦ "") msgs =
            .ok (⟨some (.dpaTransaction o.task), reply⟩, fun _ ↦ "") ∧
        (plainEnvironment.withRapidjson plainDoubles).parseString reply = .ok (.object doc) ∧
        (∃ v, doc.lookup "request" = some v ∧ Decodes v o.task.request.bytes) ∧
        ∃ v, doc.lookup "response" = some v ∧
          Decodes v (plainEnvironment.executeDpaTransaction o.task).response.bytes := by
  obtain ⟨common, hrequest, hcommon⟩ := parseRequestJson_raw "01.fF" plainLibrary.dpaRaw
  have hspells : SpellsBytes (cString "01.fF").toList [0x01#8, 0xff#8] := by
    rw [cString_eq_self (by decide)]
    exact hexNotation_dotted.spells (.inl rfl)
  have built : ∃ o, prfRawJson plainLibrary (rawDocument "01.fF" []) = .ok o := by
    rw [prfRawJson, hcommon]
    change ∃ o, (if !common.requestJ.has then _ else _) = _
    rw [if_neg (by simp [hrequest]), hrequest, parseBinary_take hspells]
    exact ⟨_, rfl⟩
  obtain ⟨o, built⟩ := built
  have hwritable : Writable plainDoubles (rawDocument "01.fF" []) := by
    refine .object fun m hm ↦ ?_
    simp only [List.append_nil, List.cons_append, List.nil_append, List.mem_cons,
      List.not_mem_nil, or_false] at hm
    rcases hm with rfl | rfl | rfl <;> exact .string _
  have hparse : (plainEnvironment.withRapidjson plainDoubles).parseString
      ((plainEnvironment.withRapidjson plainDoubles).prettyWriter (rawDocument "01.fF" [])) =
        .ok (rawDocument "01.fF" []) := parseString_prettyWriter plainEnvironment hwritable
  obtain ⟨reply, doc, hreply⟩ := raw_reply_text plainLibrary_documented
    plainPrinters_printsHex hparse (by decide) (by decide) built plainFormat "JsonSerializer" rfl
    ["SimpleSerializer"] (fun _ ↦ "")
  exact ⟨_, reply, doc, o, hreply⟩

end Built

end IqrfDaemon.Service
