import Mathlib.Data.List.Permutation
import IqrfDaemon.Service.Messages

/-!
# The order of the serializers

The simple serializer takes every message, also one that is a JSON document, of
which it can make nothing.  So the order in which the serializers are configured
decides what is executed, unless the JSON serializer makes nothing of the message
either.
-/

namespace IqrfDaemon.Service

open Json Json.Jutils Serializer Text Scheduler

variable {lib : DpaLibrary} {env : Environment lib} {format : String → Format}
  {msgs : String}

/-- The message has neither category for the JSON serializer, or no task is made of it, or it
has no command. -/
inductive JsonDeclines (env : Environment lib) (msgs : String) : Prop
  | category (hdpa : ¬Says env msgs "ctype" catDpa) (hconf : ¬Says env msgs "ctype" catConf)
  | request (h : Says env msgs "ctype" catDpa) {e : Failure}
      (refused : createJson lib env.others env.parseString msgs = .error e)
      (he : e.isException = true)
  | command (h : Says env msgs "ctype" catConf)
      (silent : ∀ cmd, Says env msgs "type" "mode" → Says env msgs "cmd" cmd → cmd = "")

theorem executedAfter_eq (serializers : List String) (last : LastErrors) :
    executedAfter env format serializers last msgs =
      ((handleLoop env format msgs "" serializers last).map Prod.fst).map Handled.executed := by
  unfold executedAfter handleMsgFromMessaging
  cases handleLoop env format msgs "" serializers last <;> rfl

/-- The first token of a JSON object starts with its brace. -/
theorem extract_object (henv : env.Documented) {members : List (String × Value)}
    (hparse : env.parseString msgs = .ok (.object members)) :
    ∃ token stream, extract [] (some msgs.toList) = ('\x7b' :: token, stream) := by
  obtain ⟨tail, htail⟩ := henv.parse_object hparse
  rw [extract, htail]
  exact ⟨tail.takeWhile fun d ↦ !isSpace d, _, rfl⟩

/-- The simple serializer makes nothing of an object. -/
theorem simpleOutcome_of_parse (henv : env.Documented) {members : List (String × Value)}
    (hparse : env.parseString msgs = .ok (.object members)) :
    (simpleOutcome env msgs).map Handled.executed = .ok none := by
  obtain ⟨token, stream, htoken⟩ := extract_object henv hparse
  have hdpa : SimpleSerializer.parseCategory msgs = catDpa := by
    rw [SimpleSerializer.parseCategory, htoken]
    refine if_neg fun heq ↦ ?_
    have hchars := congrArg String.toList heq
    rw [String.toList_ofList] at hchars
    have hhead := congrArg List.head? hchars
    rw [List.head?_cons] at hhead
    exact absurd hhead (by decide)
  have hunregistered : String.ofList ('\x7b' :: token) ∉ (simpleCreators lib).map Prod.fst := by
    intro hmem
    exact henv.name_ne_brace _ hmem (by rw [String.toList_ofList, List.head?_cons])
  have htext : extract [] (some msgs.toList) =
      ((String.ofList ('\x7b' :: token)).toList, stream) := by
    rw [htoken, String.toList_ofList]
  obtain ⟨e, hrefused, he⟩ := createSimple_unregistered htext hunregistered
  rw [simpleOutcome, if_pos hdpa, handleDpa_simple_refused hrefused he]
  rfl

theorem simpleOutcome_object (henv : env.Documented) {name text : String}
    (h : Says env msgs name text) :
    (simpleOutcome env msgs).map Handled.executed = .ok none := by
  obtain ⟨members, hparse, -⟩ := h
  exact simpleOutcome_of_parse henv hparse

section Order

variable {ser : String} (hser : format ser = .json)

include hser

/-- What the JSON serializer declines, the simple one decides. -/
theorem executedAfter_declined (henv : env.Documented) {simple : String}
    (hsimple : format simple = .simple) (h : JsonDeclines env msgs) (last : LastErrors) :
    executedAfter env format [ser, simple] last msgs =
      (simpleOutcome env msgs).map Handled.executed := by
  rw [executedAfter_eq]
  cases h with
  | category hdpa hconf =>
    cases hcat : JsonSerializer.category env msgs with
    | error e =>
      have hcategory := @parseCategory_json_refused _ _ _ _ last _ hser _ hcat
        (henv.category_exception hcat)
      rw [handleLoop_next hcategory (by decide) (by decide), handleLoop_simple hsimple]
    | ok c =>
      have hsaid := category_eq_ok_iff.mp hcat
      have hnotDpa : c ≠ catDpa := fun heq ↦ hdpa (heq ▸ hsaid)
      have hnotConf : c ≠ catConf := fun heq ↦ hconf (heq ▸ hsaid)
      rw [handleLoop_next (parseCategory_json hser hcat) hnotDpa hnotConf,
        handleLoop_simple hsimple]
  | @request hsaid e refused he =>
    have hdpa : handleDpa env .json (last ser) msgs =
        .ok (parseError env catDpa (env.what e), env.what e) := by
      rw [handleDpa, parseRequest, refused, Except.map, catching_error he]
      rfl
    rw [handleLoop_dpa (parseCategory_json hser (category_eq_ok_iff.mpr hsaid)), hser, hdpa,
      simpleOutcome_object henv hsaid]
    rfl
  | command hsaid silent =>
    have hconf : ∃ lastError, handleConf env .json (last ser) msgs =
        .ok (parseError env catConf lastError, lastError) := by
      rw [handleConf, parseConfig]
      cases hcommand : JsonSerializer.command env msgs with
      | ok cmd =>
        have hempty : cmd = "" := by
          obtain ⟨type, htype, hcmd⟩ := command_eq_ok_iff.mp hcommand
          by_cases hmode : type = "mode"
          · rw [if_pos hmode] at hcmd
            exact silent cmd (hmode ▸ htype) hcmd
          · rwa [if_neg hmode] at hcmd
        subst hempty
        exact ⟨_, rfl⟩
      | error e =>
        dsimp only
        rw [catching_error (henv.command_exception hcommand)]
        exact ⟨_, rfl⟩
    obtain ⟨lastError, hconf⟩ := hconf
    rw [handleLoop_conf (parseCategory_json hser (category_eq_ok_iff.mpr hsaid)), hser, hconf,
      simpleOutcome_object henv hsaid]
    rfl

/-- A created task is executed; what ends the daemon is no silence either. -/
theorem executedAfter_dpa (hsaid : Says env msgs "ctype" catDpa)
    (h : ∀ e, createJson lib env.others env.parseString msgs = .error e → ¬e.isException = true)
    (rest : List String) (last : LastErrors) :
    executedAfter env format (ser :: rest) last msgs ≠ .ok none := by
  rw [executedAfter_eq, handleLoop_dpa (parseCategory_json hser (category_eq_ok_iff.mpr hsaid)),
    fst_update, hser, handleDpa, parseRequest]
  cases hcreate : createJson lib env.others env.parseString msgs with
  | ok o =>
    rintro ⟨⟩
  | error e =>
    dsimp only
    rw [Except.map, catching_abort (h e hcreate)]
    rintro ⟨⟩

theorem executedAfter_conf (hsaid : Says env msgs "ctype" catConf) {cmd : String}
    (htype : Says env msgs "type" "mode") (hcmd : Says env msgs "cmd" cmd) (hne : cmd ≠ "")
    (rest : List String) (last : LastErrors) :
    executedAfter env format (ser :: rest) last msgs ≠ .ok none := by
  have hcommand : JsonSerializer.command env msgs = .ok cmd :=
    command_eq_ok_iff.mpr ⟨"mode", htype, by rwa [if_pos rfl]⟩
  rw [executedAfter_eq, handleLoop_conf (parseCategory_json hser (category_eq_ok_iff.mpr hsaid)),
    fst_update, hser, handleConf, parseConfig, hcommand]
  change ((if cmd = "" then _ else _ : Except Failure (Handled lib × String)).map _).map _ ≠ _
  rw [if_neg hne, encodeConfig]
  cases JsonSerializer.addStatus env msgs (env.doCommand cmd) with
  | ok reply => rintro ⟨⟩
  | error e =>
    by_cases he : e.isException = true
    · rw [catching_error he]
      rintro ⟨⟩
    · rw [catching_abort he]
      rintro ⟨⟩

/-- What it does not decline is executed, or ends the daemon. -/
theorem executedAfter_accepted (h : ¬JsonDeclines env msgs) (rest : List String)
    (last : LastErrors) :
    (∃ c, Says env msgs "ctype" c) ∧
      executedAfter env format (ser :: rest) last msgs ≠ .ok none := by
  by_cases hdpa : Says env msgs "ctype" catDpa
  · have hcreated : ∀ e, createJson lib env.others env.parseString msgs = .error e →
        ¬e.isException = true := fun e hcreate he ↦ h (.request hdpa hcreate he)
    exact ⟨⟨_, hdpa⟩, executedAfter_dpa hser hdpa hcreated rest last⟩
  · have hconf : Says env msgs "ctype" catConf := by
      by_contra hconf
      exact h (.category hdpa hconf)
    have hcommand : ¬∀ cmd, Says env msgs "type" "mode" → Says env msgs "cmd" cmd → cmd = "" :=
      fun hsilent ↦ h (.command hconf hsilent)
    simp only [not_forall] at hcommand
    obtain ⟨cmd, htype, hcmd, hne⟩ := hcommand
    exact ⟨⟨_, hconf⟩, executedAfter_conf hser hconf htype hcmd hne rest last⟩

end Order

/-- Every order of the two serializers executes the same exactly if the JSON serializer
declines the message. -/
theorem executed_same_iff (henv : env.Documented) {json simple : String}
    (hjson : format json = .json) (hsimple : format simple = .simple) (msgs : String) :
    (∀ order : List String, order.Perm [json, simple] → ∀ last last',
      executedAfter env format order last msgs =
        executedAfter env format [json, simple] last' msgs) ↔
      JsonDeclines env msgs := by
  have hfirst (rest : List String) (last : LastErrors) :
      executedAfter env format (simple :: rest) last msgs =
        (simpleOutcome env msgs).map Handled.executed := by
    rw [executedAfter_eq, handleLoop_simple hsimple]
  constructor
  · intro hsame
    by_contra haccepted
    obtain ⟨⟨c, hcat⟩, hexecuted⟩ :=
      executedAfter_accepted hjson haccepted [simple] (fun _ ↦ "")
    have hswapped := hsame [simple, json] (List.Perm.swap json simple []) (fun _ ↦ "") (fun _ ↦ "")
    rw [hfirst, simpleOutcome_object henv hcat] at hswapped
    exact hexecuted hswapped.symm
  · intro hdeclines order horder last last'
    rw [executedAfter_declined hjson henv hsimple hdeclines]
    rcases List.perm_pair.mp horder with rfl | rfl
    · exact executedAfter_declined hjson henv hsimple hdeclines last
    · exact hfirst [json] last

theorem executed_same_log :
    (∀ order : List String, order.Perm ["JsonSerializer", "SimpleSerializer"] → ∀ last last',
      executedAfter plainEnvironment plainFormat order last logMessage =
        executedAfter plainEnvironment plainFormat ["JsonSerializer", "SimpleSerializer"] last'
          logMessage) ↔
      JsonDeclines plainEnvironment logMessage :=
  executed_same_iff plainEnvironment_documented (by decide) (by decide) logMessage

/-- A mode command that is not executed if the simple serializer is asked first. -/
theorem executed_by_order :
    executedAfter plainEnvironment plainFormat ["JsonSerializer", "SimpleSerializer"] (fun _ ↦ "")
        modeMessage = .ok (some (.command "operational")) ∧
      executedAfter plainEnvironment plainFormat ["SimpleSerializer", "JsonSerializer"]
        (fun _ ↦ "") modeMessage = .ok none :=
  ⟨rfl, rfl⟩

end IqrfDaemon.Service
