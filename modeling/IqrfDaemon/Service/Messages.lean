import Mathlib.Logic.Function.Basic
import IqrfDaemon.Serializer.Encode
import IqrfDaemon.Serializer.Simple

/-!
# Messages of a service

A service asks its configured serializers in order for the category of a message.
The first one that finds a category parses the message, and the service executes
the outcome and replies.  A serializer keeps the text of its last error, which
only some of its calls replace; the reply to a message that is not handled shows
this text.
-/

namespace IqrfDaemon.Service

open Json Json.Jutils Serializer Text Scheduler

/-- What the handling of messages calls: the parser and the printers, the text of an
exception, `PAR`, the transactions and commands of the daemon, and the encoders of the
simple tasks. -/
structure Environment (lib : DpaLibrary) where
  parseString : String → Except Failure Value
  prettyWriter : Value → String
  what : Failure → String
  par : String → String → String
  others : JsonCreators lib
  printers : Printers
  encoders : OtherEncoders
  encodeSimple : SimpleTask lib → Transaction → String
  executeDpaTransaction : DpaTask lib.Rest → Transaction
  doCommand : String → String

variable {lib : DpaLibrary} (env : Environment lib)

def catConf : String := "conf"
def catDpa : String := "dpa"

/-- A `try` block with a `catch (std::exception&)` that keeps the text, and the last error
after it. -/
def catching {T : Type} (lastError : String) (fallback : T) :
    Except Failure T → Except Failure (T × String)
  | .ok result => .ok (result, lastError)
  | .error e => if e.isException then .ok (fallback, env.what e) else .error e

variable {env} in
theorem catching_error {T : Type} {e : Failure} (he : e.isException = true) (lastError : String)
    (fallback : T) : catching env lastError fallback (.error e) = .ok (fallback, env.what e) :=
  if_pos he

variable {env} in
theorem catching_abort {T : Type} {e : Failure} (he : ¬e.isException = true) (lastError : String)
    (fallback : T) : catching env lastError fallback (.error e) = .error e :=
  if_neg he

/-! ## The serializers -/

namespace JsonSerializer

/-- The body of the `try` block of `parseCategory`. -/
def category (request : String) : Except Failure String := do
  let doc ← env.parseString request
  let _ ← assertIsObject "" doc
  getMemberAs assertIsString "ctype" doc

/-- The body of the `try` block of `parseConfig`. -/
def command (request : String) : Except Failure String := do
  let doc ← env.parseString request
  let _ ← assertIsObject "" doc
  let type ← getMemberAs assertIsString "type" doc
  if type = "mode" then getMemberAs assertIsString "cmd" doc else return ""

/-- The body of the `try` block of `encodeConfig`. -/
def addStatus (request response : String) : Except Failure String := do
  let doc ← env.parseString request
  let members ← assertIsObject "" doc
  return env.prettyWriter (.object (members ++ [("status", .string (cString response))]))

end JsonSerializer

namespace SimpleSerializer

def parseCategory (request : String) : String :=
  let (category, _) := extract [] (some request.toList)
  if String.ofList category = catConf then catConf else catDpa

/-- The command and the last error. -/
def parseConfig (request : String) : String × String :=
  let (category, istr) := extract [] (some request.toList)
  let (cmd, _) := extract "unknown".toList istr
  if String.ofList category = catConf then (String.ofList cmd, "OK")
  else ("", "Unexpected: " ++ env.par "category" (String.ofList category))

end SimpleSerializer

inductive Format
  | json
  | simple
  deriving DecidableEq

/-- A created task object. -/
inductive TaskObject (lib : DpaLibrary)
  | json (o : JsonTask lib)
  | simple (o : SimpleTask lib)

namespace TaskObject

def task : TaskObject lib → DpaTask lib.Rest
  | json o => o.task
  | simple o => o.task

def encodeResponse (tx : Transaction) : TaskObject lib → String
  | json o =>
      env.prettyWriter (.object (Serializer.encodeResponse env.printers env.encoders o tx).2)
  | simple o => env.encodeSimple o tx

end TaskObject

/-! Each call of a serializer gives its result and the last error after it. -/

def parseCategory (ser : Format) (lastError request : String) : Except Failure (String × String) :=
  match ser with
  | .json => catching env lastError "" (JsonSerializer.category env request)
  | .simple => .ok (SimpleSerializer.parseCategory request, lastError)

def parseRequest (ser : Format) (lastError request : String) :
    Except Failure (Option (TaskObject lib) × String) :=
  match ser with
  | .json => catching env lastError none
      ((createJson lib env.others env.parseString request).map (some ∘ TaskObject.json))
  | .simple => catching env "OK" none ((createSimple lib request).map (some ∘ TaskObject.simple))

def parseConfig (ser : Format) (lastError request : String) : Except Failure (String × String) :=
  match ser with
  | .json => catching env lastError "" (JsonSerializer.command env request)
  | .simple => .ok (SimpleSerializer.parseConfig env request)

def encodeConfig (ser : Format) (lastError request response : String) :
    Except Failure (String × String) :=
  match ser with
  | .json => catching env lastError "" (JsonSerializer.addStatus env request response)
  | .simple => .ok (request ++ " " ++ response, lastError)

/-! ## The service -/

/-- What the daemon is asked to do for a message. -/
inductive Executed (lib : DpaLibrary)
  | dpaTransaction (task : DpaTask lib.Rest)
  | command (cmd : String)

structure Handled (lib : DpaLibrary) where
  executed : Option (Executed lib)
  reply : String

/-- The last errors of the serializers, by their names. -/
abbrev LastErrors : Type := String → String

def parseError (ctype lastError : String) : Handled lib where
  executed := none
  reply := "PARSE ERROR: " ++ env.par "ctype" ctype ++ env.par "lastError" lastError

/-- A message of the category `dpa`. -/
def handleDpa (ser : Format) (lastError msgs : String) : Except Failure (Handled lib × String) := do
  let (dpaTask, lastError) ← parseRequest env ser lastError msgs
  match dpaTask with
  | some o =>
      let tx := env.executeDpaTransaction o.task
      return (⟨some (.dpaTransaction o.task), o.encodeResponse env tx⟩, lastError)
  | none => return (parseError env catDpa lastError, lastError)

/-- A message of the category `conf`. -/
def handleConf (ser : Format) (lastError msgs : String) :
    Except Failure (Handled lib × String) := do
  let (command, lastError) ← parseConfig env ser lastError msgs
  if command = "" then return (parseError env catConf lastError, lastError)
  else
    let response := env.doCommand command
    let (reply, lastError) ← encodeConfig env ser lastError msgs response
    return (⟨some (.command command), reply⟩, lastError)

variable (format : String → Format)

/-- The loop of `handleMsgFromMessaging`, with the category of the last round. -/
def handleLoop (msgs ctype : String) : List String → LastErrors →
    Except Failure (Handled lib × LastErrors)
  | [], last => .ok (parseError env ctype "Unknown ctype", last)
  | ser :: rest, last => do
      let (ctype, lastError) ← parseCategory env (format ser) (last ser) msgs
      if ctype = catDpa then
        let (handled, lastError) ← handleDpa env (format ser) lastError msgs
        return (handled, Function.update last ser lastError)
      else if ctype = catConf then
        let (handled, lastError) ← handleConf env (format ser) lastError msgs
        return (handled, Function.update last ser lastError)
      else handleLoop msgs ctype rest (Function.update last ser lastError)

def handleMsgFromMessaging (serializers : List String) (last : LastErrors) (msgs : String) :
    Except Failure (Handled lib × LastErrors) :=
  handleLoop env format msgs "" serializers last

/-- The last errors after a history of messages. -/
def handleAll (serializers : List String) : LastErrors → List String → Except Failure LastErrors
  | last, [] => .ok last
  | last, msgs :: history => do
      let (_, last) ← handleMsgFromMessaging env format serializers last msgs
      handleAll serializers last history

/-- The reply to a message after a history. -/
def replyAfter (serializers : List String) (last : LastErrors) (msgs : String) :
    Except Failure String :=
  (handleMsgFromMessaging env format serializers last msgs).map fun h ↦ h.1.reply

def executedAfter (serializers : List String) (last : LastErrors) (msgs : String) :
    Except Failure (Option (Executed lib)) :=
  (handleMsgFromMessaging env format serializers last msgs).map fun h ↦ h.1.executed

/-! ## What a message says -/

section Document

variable {env} {msgs : String}

/-- The text of a member of an object. -/
def textMember (members : List (String × Value)) (name : String) : Option String :=
  match members.lookup name with
  | some (.string s) => some (cString s)
  | _ => none

/-- The message is an object whose member `name` is a text. -/
def Says (env : Environment lib) (msgs name text : String) : Prop :=
  ∃ members, env.parseString msgs = .ok (.object members) ∧ textMember members name = some text

/-- The message is a command for the JSON serializer, but its type is not `mode`, or the command
is empty. -/
def ConfWithoutCommand (env : Environment lib) (msgs : String) : Prop :=
  Says env msgs "ctype" catConf ∧
    ∃ type, Says env msgs "type" type ∧ (type = "mode" → Says env msgs "cmd" "")

theorem getMemberAs_object_iff {members : List (String × Value)} {name text : String} :
    getMemberAs assertIsString name (.object members) = .ok text ↔
      textMember members name = some text := by
  unfold getMemberAs getMember findMember textMember
  dsimp only
  cases members.lookup name with
  | none => simp
  | some v => cases v <;> simp [assertIsString]

theorem category_eq_ok_iff {c : String} :
    JsonSerializer.category env msgs = .ok c ↔ Says env msgs "ctype" c := by
  constructor
  · intro h
    obtain ⟨doc, hparse, h⟩ := exists_ok_of_bind h
    obtain ⟨members, hobject, h⟩ := exists_ok_of_bind h
    cases doc with
    | object members => exact ⟨members, hparse, getMemberAs_object_iff.mp h⟩
    | _ => cases hobject
  · rintro ⟨members, hparse, hctype⟩
    rw [JsonSerializer.category, hparse]
    exact getMemberAs_object_iff.mpr hctype

theorem command_eq_ok_iff {cmd : String} :
    JsonSerializer.command env msgs = .ok cmd ↔
      ∃ type, Says env msgs "type" type ∧
        if type = "mode" then Says env msgs "cmd" cmd else cmd = "" := by
  constructor
  · intro h
    obtain ⟨doc, hparse, h⟩ := exists_ok_of_bind h
    obtain ⟨members, hobject, h⟩ := exists_ok_of_bind h
    obtain ⟨type, htype, h⟩ := exists_ok_of_bind h
    cases doc with
    | object members =>
      refine ⟨type, ⟨members, hparse, getMemberAs_object_iff.mp htype⟩, ?_⟩
      split
      case isTrue hmode =>
        rw [if_pos hmode] at h
        exact ⟨members, hparse, getMemberAs_object_iff.mp h⟩
      case isFalse hmode =>
        rw [if_neg hmode] at h
        exact (Except.ok.inj h).symm
    | _ => cases hobject
  · rintro ⟨type, ⟨members, hparse, htype⟩, hcmd⟩
    rw [JsonSerializer.command, hparse]
    change (getMemberAs assertIsString "type" (.object members) >>= _) = _
    rw [getMemberAs_object_iff.mpr htype]
    change (if type = "mode" then _ else _) = _
    split
    case isTrue hmode =>
      rw [if_pos hmode] at hcmd
      obtain ⟨members', hparse', hcmd⟩ := hcmd
      obtain rfl : members = members' := by simpa [hparse] using hparse'
      exact getMemberAs_object_iff.mpr hcmd
    case isFalse hmode =>
      rw [if_neg hmode] at hcmd
      rw [hcmd]
      rfl

theorem confWithoutCommand_iff :
    ConfWithoutCommand env msgs ↔
      JsonSerializer.category env msgs = .ok catConf ∧
        JsonSerializer.command env msgs = .ok "" := by
  rw [category_eq_ok_iff, command_eq_ok_iff, ConfWithoutCommand]
  refine and_congr_right fun _ ↦ exists_congr fun type ↦ and_congr_right fun _ ↦ ?_
  by_cases hmode : type = "mode"
  · simp [hmode]
  · simp [hmode]

end Document

/-! ## One round of the loop -/

section Round

variable {env} {format} {ser : String} {rest : List String} {last : LastErrors}
  {msgs ctype c lastError : String}

theorem handleLoop_dpa
    (h : parseCategory env (format ser) (last ser) msgs = .ok (catDpa, lastError)) :
    handleLoop env format msgs ctype (ser :: rest) last =
      (handleDpa env (format ser) lastError msgs).map
        fun handled ↦ (handled.1, Function.update last ser handled.2) := by
  rw [handleLoop, h]
  change (handleDpa env (format ser) lastError msgs) >>= _ = _
  cases handleDpa env (format ser) lastError msgs <;> rfl

theorem handleLoop_conf
    (h : parseCategory env (format ser) (last ser) msgs = .ok (catConf, lastError)) :
    handleLoop env format msgs ctype (ser :: rest) last =
      (handleConf env (format ser) lastError msgs).map
        fun handled ↦ (handled.1, Function.update last ser handled.2) := by
  rw [handleLoop, h]
  change (handleConf env (format ser) lastError msgs) >>= _ = _
  cases handleConf env (format ser) lastError msgs <;> rfl

theorem parseCategory_json (hser : format ser = .json)
    (h : JsonSerializer.category env msgs = .ok c) :
    parseCategory env (format ser) (last ser) msgs = .ok (c, last ser) := by
  rw [hser, parseCategory, h]
  rfl

theorem parseCategory_json_refused (hser : format ser = .json) {e : Failure}
    (h : JsonSerializer.category env msgs = .error e) (he : e.isException = true) :
    parseCategory env (format ser) (last ser) msgs = .ok ("", env.what e) := by
  rw [hser, parseCategory, h]
  exact catching_error he _ _

theorem parseCategory_json_abort (hser : format ser = .json) {e : Failure}
    (h : JsonSerializer.category env msgs = .error e) (he : ¬e.isException = true) :
    parseCategory env (format ser) (last ser) msgs = .error e := by
  rw [hser, parseCategory, h]
  exact catching_abort he _ _

theorem handleLoop_next
    (h : parseCategory env (format ser) (last ser) msgs = .ok (c, lastError)) (hdpa : c ≠ catDpa)
    (hconf : c ≠ catConf) :
    handleLoop env format msgs ctype (ser :: rest) last =
      handleLoop env format msgs c rest (Function.update last ser lastError) := by
  rw [handleLoop, h]
  change (if c = catDpa then _ else if c = catConf then _ else _) = _
  rw [if_neg hdpa, if_neg hconf]

theorem handleLoop_abort {e : Failure}
    (h : parseCategory env (format ser) (last ser) msgs = .error e) :
    handleLoop env format msgs ctype (ser :: rest) last = .error e := by
  rw [handleLoop, h]
  rfl

/-- What is done does not depend on where the last error is kept. -/
theorem fst_update (handled : Except Failure (Handled lib × String)) :
    (handled.map fun h ↦ (h.1, Function.update last ser h.2)).map Prod.fst =
      handled.map Prod.fst := by
  cases handled <;> rfl

end Round

/-! ## What a last error is good for -/

section Independence

variable {env} {msgs : String}

/-- The outcome for a message of the category `dpa` is its own: a failure replaces the last
error. -/
theorem handleDpa_fst (ser : Format) (e₁ e₂ : String) :
    (handleDpa env ser e₁ msgs).map Prod.fst = (handleDpa env ser e₂ msgs).map Prod.fst := by
  cases ser with
  | simple => rfl
  | json =>
    unfold handleDpa parseRequest
    dsimp only
    cases createJson lib env.others env.parseString msgs with
    | ok o => rfl
    | error e => cases e <;> rfl

/-- That for the category `conf` is, unless the JSON serializer is silent about it. -/
theorem handleConf_fst {ser : Format} (h : ser = .json → JsonSerializer.command env msgs ≠ .ok "")
    (e₁ e₂ : String) :
    (handleConf env ser e₁ msgs).map Prod.fst = (handleConf env ser e₂ msgs).map Prod.fst := by
  cases ser with
  | simple => rfl
  | json =>
    have hne := h rfl
    unfold handleConf parseConfig encodeConfig
    dsimp only
    cases hcommand : JsonSerializer.command env msgs with
    | error e => cases e <;> rfl
    | ok command =>
      have hcmd : command ≠ "" := fun heq ↦ hne (by rw [hcommand, heq])
      change ((if command = "" then _ else _) : Except Failure (Handled lib × String)).map _ =
        ((if command = "" then _ else _) : Except Failure (Handled lib × String)).map _
      rw [if_neg hcmd, if_neg hcmd]
      cases JsonSerializer.addStatus env msgs (env.doCommand command) with
      | ok reply => rfl
      | error e => cases e <;> rfl

/-- What a service does when its simple serializer has its turn. -/
def simpleOutcome (env : Environment lib) (msgs : String) : Except Failure (Handled lib) :=
  if SimpleSerializer.parseCategory msgs = catDpa then
    (handleDpa env .simple "" msgs).map Prod.fst
  else (handleConf env .simple "" msgs).map Prod.fst

/-- The simple serializer takes every message. -/
theorem handleLoop_simple {format} {ser : String} (hser : format ser = .simple)
    (rest : List String) (last : LastErrors) (ctype : String) :
    (handleLoop env format msgs ctype (ser :: rest) last).map Prod.fst =
      simpleOutcome env msgs := by
  have hcategory : parseCategory env (format ser) (last ser) msgs =
      .ok (SimpleSerializer.parseCategory msgs, last ser) := by
    rw [hser]
    rfl
  by_cases hconf : SimpleSerializer.parseCategory msgs = catConf
  · rw [hconf] at hcategory
    rw [handleLoop_conf hcategory, fst_update, simpleOutcome, hconf, if_neg (by decide), hser]
    exact handleConf_fst (fun h ↦ by cases h) _ _
  · have hdpa : SimpleSerializer.parseCategory msgs = catDpa := by
      unfold SimpleSerializer.parseCategory at hconf ⊢
      dsimp only at hconf ⊢
      split
      · rename_i heq
        exact absurd (if_pos heq) hconf
      · rfl
    rw [hdpa] at hcategory
    rw [handleLoop_dpa hcategory, fst_update, simpleOutcome, if_pos hdpa, hser]
    exact handleDpa_fst _ _ _

theorem handleLoop_fst {format} (hconf : ¬ConfWithoutCommand env msgs)
    (serializers : List String) (last₁ last₂ : LastErrors) (ctype : String) :
    (handleLoop env format msgs ctype serializers last₁).map Prod.fst =
      (handleLoop env format msgs ctype serializers last₂).map Prod.fst := by
  induction serializers generalizing last₁ last₂ ctype with
  | nil => rfl
  | cons ser rest ih =>
    cases hser : format ser with
    | simple => rw [handleLoop_simple hser, handleLoop_simple hser]
    | json =>
      cases hcat : JsonSerializer.category env msgs with
      | error e =>
        by_cases he : e.isException = true
        · rw [handleLoop_next (parseCategory_json_refused hser hcat he) (by decide) (by decide),
            handleLoop_next (parseCategory_json_refused hser hcat he) (by decide) (by decide)]
          exact ih _ _ _
        · rw [handleLoop_abort (parseCategory_json_abort hser hcat he),
            handleLoop_abort (parseCategory_json_abort hser hcat he)]
      | ok c =>
        have hcategory (last : LastErrors) :=
          @parseCategory_json _ env format ser last msgs c hser hcat
        by_cases hdpa : c = catDpa
        · subst hdpa
          rw [handleLoop_dpa (hcategory last₁), handleLoop_dpa (hcategory last₂), fst_update,
            fst_update]
          exact handleDpa_fst _ _ _
        · by_cases hc : c = catConf
          · subst hc
            rw [handleLoop_conf (hcategory last₁), handleLoop_conf (hcategory last₂), fst_update,
              fst_update]
            have hspoken : JsonSerializer.command env msgs ≠ .ok "" := fun hsilent ↦
              hconf (confWithoutCommand_iff.mpr ⟨hcat, hsilent⟩)
            exact handleConf_fst (fun _ ↦ hspoken) _ _
          · rw [handleLoop_next (hcategory last₁) hdpa hc,
              handleLoop_next (hcategory last₂) hdpa hc]
            exact ih _ _ _

end Independence

/-! ## What the services rely on -/

/-- Texts are refused with exceptions, the empty text is one of them, and the text of an
object starts with its brace.  No simple creator is registered under an empty name or one
that starts with a brace.  `PAR` shows its value. -/
structure Environment.Documented (env : Environment lib) : Prop where
  parse_exception : ∀ {text e}, env.parseString text = .error e → e.isException = true
  parse_empty : ∃ e, env.parseString "" = .error e ∧ env.what e ≠ ""
  parse_object : ∀ {text members}, env.parseString text = .ok (.object members) →
    ∃ tail, text.toList.dropWhile isSpace = '{' :: tail
  name_ne_empty : ∀ name ∈ (simpleCreators lib).map Prod.fst, name ≠ ""
  name_ne_brace : ∀ name ∈ (simpleCreators lib).map Prod.fst, name.toList.head? ≠ some '{'
  par_injective : ∀ {name a b}, env.par name a = env.par name b → a = b

theorem createSimple_unregistered {text perif : String} {stream : Option (List Char)}
    (htext : extract [] (some text.toList) = (perif.toList, stream))
    (hperif : perif ∉ (simpleCreators lib).map Prod.fst) :
    ∃ e, createSimple lib text = .error e ∧ e.isException = true := by
  have hlookup : (simpleCreators lib).lookup perif = none := by
    rw [List.lookup_eq_none_iff]
    rintro ⟨name, creator⟩ hmem
    rw [bne_iff_ne]
    rintro rfl
    exact hperif (List.mem_map.mpr ⟨_, hmem, rfl⟩)
  refine ⟨.logicError ("Unregistered creator for: " ++ perif), ?_, rfl⟩
  rw [createSimple, htext]
  dsimp only
  rw [String.ofList_toList, createObject, hlookup]

/-- A text the simple serializer refuses is not handled. -/
theorem handleDpa_simple_refused {env : Environment lib} {text : String} {e : Failure}
    (hrefused : createSimple lib text = .error e) (he : e.isException = true)
    (lastError : String) : handleDpa env .simple lastError text =
      .ok (parseError env catDpa (env.what e), env.what e) := by
  have hparse : parseRequest env .simple lastError text = .ok (none, env.what e) := by
    rw [parseRequest, hrefused]
    exact catching_error he _ _
  rw [handleDpa, hparse]
  rfl

/-- What is asked of the members of an object fails with an exception. -/
theorem Environment.Documented.members_exception {env : Environment lib} (henv : env.Documented)
    {T : Type} {text : String} {f : Value → Except Failure T}
    (hf : ∀ members, LogicOnly (f (.object members))) {e : Failure}
    (h : (do let doc ← env.parseString text; let _ ← assertIsObject "" doc; f doc) = .error e) :
    e.isException = true := by
  cases hparse : env.parseString text with
  | error e' =>
    rw [hparse] at h
    cases h
    exact henv.parse_exception hparse
  | ok doc =>
    rw [hparse] at h
    cases doc with
    | object members => exact Failure.isException_of_isLogicError (hf members e h)
    | _ =>
      cases h
      rfl

theorem Environment.Documented.category_exception {env : Environment lib} (henv : env.Documented)
    {text : String} {e : Failure} (h : JsonSerializer.category env text = .error e) :
    e.isException = true :=
  henv.members_exception (fun _ ↦ logicOnly_getMemberAs logicOnly_assertIsString _) h

theorem Environment.Documented.command_exception {env : Environment lib} (henv : env.Documented)
    {text : String} {e : Failure} (h : JsonSerializer.command env text = .error e) :
    e.isException = true := by
  refine henv.members_exception (fun members ↦ ?_) h
  apply (logicOnly_getMemberAs logicOnly_assertIsString "type").bind
  intro type
  split
  · exact logicOnly_getMemberAs logicOnly_assertIsString "cmd"
  · exact .pure ""

/-! ## A service with two serializers -/

def logMessage : String := "\x7b\"ctype\":\"conf\",\"type\":\"log\"\x7d"

def modeMessage : String :=
  "\x7b\"ctype\":\"conf\",\"type\":\"mode\",\"cmd\":\"operational\"\x7d"

def messageTable : List (String × Value) :=
  [(logMessage, .object [("ctype", .string "conf"), ("type", .string "log")]),
    (modeMessage, .object [("ctype", .string "conf"), ("type", .string "mode"),
      ("cmd", .string "operational")])]

/-- The lines of an object of texts. -/
def plainWriter : Value → String
  | .object members => "\x7b\n" ++ ",\n".intercalate (members.map member) ++ "\n\x7d"
  | _ => "null"
where
  member : String × Value → String
    | (name, .string s) => "    \"" ++ name ++ "\": \"" ++ s ++ "\""
    | (name, _) => "    \"" ++ name ++ "\": null"

def plainEnvironment : Environment plainLibrary where
  parseString := parsesTo messageTable
  prettyWriter := plainWriter
  what
    | .logicError what | .exception what => what
    | .abort => ""
  par name value := name ++ "=\"" ++ value ++ "\" "
  others := noCreators plainLibrary
  printers := plainPrinters
  encoders := plainEncoders
  encodeSimple _ tx := tx.errStr
  executeDpaTransaction _ := unanswered
  doCommand cmd := if cmd = "operational" then "OK" else "ERROR_UNKNOWN"

theorem plainEnvironment_documented : plainEnvironment.Documented where
  parse_exception := by
    intro text e h
    change parsesTo messageTable text = _ at h
    unfold parsesTo at h
    split at h
    · cases h
    · cases h
      rfl
  parse_empty := ⟨.logicError "Json parse error", rfl, by decide⟩
  parse_object := by
    intro text members h
    change parsesTo messageTable text = _ at h
    unfold parsesTo messageTable at h
    simp only [List.lookup_cons, List.lookup_nil] at h
    split at h <;> rename_i hlookup
    · split at hlookup <;> rename_i htext
      · rw [beq_iff_eq.mp htext]
        exact ⟨_, rfl⟩
      · split at hlookup <;> rename_i htext'
        · rw [beq_iff_eq.mp htext']
          exact ⟨_, rfl⟩
        · cases hlookup
    · cases h
  name_ne_empty := by decide
  name_ne_brace := by decide
  par_injective := by
    intro name a b h
    exact (String.append_right_inj _).mp ((String.append_left_inj _).mp h)

def plainFormat (name : String) : Format := if name = "JsonSerializer" then .json else .simple

end IqrfDaemon.Service
