import IqrfDaemon.Service.Messages

/-!
# Replies and earlier messages

A reply shows the last error of the serializer that took the message.  It is the
error of this message, except where the JSON serializer takes a message for a
command, finds none and does not say so.  There the error of an earlier message
is shown.
-/

namespace IqrfDaemon.Service

open Json Json.Jutils Serializer Text Scheduler

variable {lib : DpaLibrary} {env : Environment lib} {format : String → Format}

/-- A message for which the first serializer shows an error it did not find in it. -/
def ShowsEarlier (env : Environment lib) (format : String → Format) (serializers : List String)
    (msgs : String) : Prop :=
  ∃ ser rest, serializers = ser :: rest ∧ format ser = .json ∧ ConfWithoutCommand env msgs

theorem replyAfter_congr {serializers : List String} {last₁ last₂ : LastErrors} {msgs : String}
    (h : (handleLoop env format msgs "" serializers last₁).map Prod.fst =
      (handleLoop env format msgs "" serializers last₂).map Prod.fst) :
    replyAfter env format serializers last₁ msgs =
      replyAfter env format serializers last₂ msgs := by
  have hreply (last : LastErrors) : replyAfter env format serializers last msgs =
      ((handleLoop env format msgs "" serializers last).map Prod.fst).map Handled.reply := by
    unfold replyAfter handleMsgFromMessaging
    cases handleLoop env format msgs "" serializers last <;> rfl
  rw [hreply, hreply, h]

/-! ## An earlier message -/

theorem handleLoop_empty_json (henv : env.Documented) {e : Failure}
    (hparse : env.parseString "" = .error e) {ser : String} (hser : format ser = .json)
    (rest : List String) (last : LastErrors) (ctype : String) :
    handleLoop env format "" ctype (ser :: rest) last =
      handleLoop env format "" "" rest (Function.update last ser (env.what e)) := by
  have hcategory : JsonSerializer.category env "" = .error e := by
    rw [JsonSerializer.category, hparse]
    rfl
  exact handleLoop_next (parseCategory_json_refused hser hcategory (henv.parse_exception hparse))
    (by decide) (by decide)

/-- The empty text leaves every JSON serializer that was asked with the parser's error. -/
theorem handleLoop_empty (henv : env.Documented) {e : Failure}
    (hparse : env.parseString "" = .error e) (serializers : List String) (last : LastErrors)
    (ctype : String) :
    ∃ handled last', handleLoop env format "" ctype serializers last = .ok (handled, last') ∧
      ∀ ser, format ser = .json → last ser = env.what e → last' ser = env.what e := by
  induction serializers generalizing last ctype with
  | nil => exact ⟨_, _, rfl, fun _ _ h ↦ h⟩
  | cons ser rest ih =>
    cases hser : format ser with
    | simple =>
      have hunregistered : "" ∉ (simpleCreators lib).map Prod.fst :=
        fun hmem ↦ henv.name_ne_empty _ hmem rfl
      have hempty : extract [] (some "".toList) = ("".toList, none) := rfl
      obtain ⟨refusal, hrefused, hexception⟩ := createSimple_unregistered hempty hunregistered
      have hcategory : parseCategory env (format ser) (last ser) "" = .ok (catDpa, last ser) := by
        rw [hser]
        rfl
      rw [handleLoop_dpa hcategory, hser, handleDpa_simple_refused hrefused hexception]
      refine ⟨_, _, rfl, fun other hother hlast ↦ ?_⟩
      have hne : other ≠ ser := by
        rintro rfl
        rw [hser] at hother
        cases hother
      rw [Function.update_of_ne hne, hlast]
    | json =>
      rw [handleLoop_empty_json henv hparse hser]
      obtain ⟨handled, last', hrest, hkept⟩ := ih (Function.update last ser (env.what e)) ""
      refine ⟨handled, last', hrest, fun other hother hlast ↦ hkept other hother ?_⟩
      by_cases heq : other = ser
      · rw [heq, Function.update_self]
      · rw [Function.update_of_ne heq, hlast]

/-- What a JSON serializer that is silent about a message makes of it. -/
theorem replyAfter_silent {ser : String} (hser : format ser = .json) {rest : List String}
    {msgs : String} (hconf : ConfWithoutCommand env msgs) (last : LastErrors) :
    replyAfter env format (ser :: rest) last msgs =
      .ok (parseError env catConf (last ser)).reply := by
  obtain ⟨hcategory, hsilent⟩ := confWithoutCommand_iff.mp hconf
  have hcommand : handleConf env .json (last ser) msgs =
      .ok (parseError env catConf (last ser), last ser) := by
    rw [handleConf, parseConfig, hsilent]
    rfl
  rw [replyAfter, handleMsgFromMessaging, handleLoop_conf (parseCategory_json hser hcategory),
    hser, hcommand]
  rfl

theorem reply_injective (henv : env.Documented) {ctype e₁ e₂ : String}
    (h : (parseError env ctype e₁).reply = (parseError env ctype e₂).reply) : e₁ = e₂ :=
  henv.par_injective ((String.append_right_inj _).mp h)

/-- The replies to a message are the same after all histories exactly if the first serializer
does not show an earlier error for it. -/
theorem replies_independent_of_history_iff (henv : env.Documented) (serializers : List String)
    (msgs : String) :
    (∀ last h₁ h₂ last₁ last₂, handleAll env format serializers last h₁ = .ok last₁ →
      handleAll env format serializers last h₂ = .ok last₂ →
        replyAfter env format serializers last₁ msgs =
          replyAfter env format serializers last₂ msgs) ↔
      ¬ShowsEarlier env format serializers msgs := by
  constructor
  · rintro hsame ⟨ser, rest, rfl, hser, hconf⟩
    obtain ⟨e, hparse, hwhat⟩ := henv.parse_empty
    -- one message, which the parser refuses, against none at all
    obtain ⟨handled, last, hempty, hkept⟩ := handleLoop_empty henv hparse rest
      (Function.update (fun _ ↦ "") ser (env.what e)) ""
    have hlast : last ser = env.what e := hkept ser hser (Function.update_self ..)
    have hhistory : handleAll env format (ser :: rest) (fun _ ↦ "") [""] = .ok last := by
      rw [handleAll, handleMsgFromMessaging, handleLoop_empty_json henv hparse hser, hempty]
      rfl
    have hreply := hsame (fun _ ↦ "") [] [""] _ _ rfl hhistory
    rw [replyAfter_silent hser hconf, replyAfter_silent hser hconf, hlast] at hreply
    exact hwhat (reply_injective henv (Except.ok.inj hreply)).symm
  · intro hearlier last h₁ h₂ last₁ last₂ _ _
    apply replyAfter_congr
    by_cases hconf : ConfWithoutCommand env msgs
    · cases serializers with
      | nil => rfl
      | cons ser rest =>
        cases hser : format ser with
        | simple => rw [handleLoop_simple hser, handleLoop_simple hser]
        | json => exact absurd ⟨ser, rest, rfl, hser, hconf⟩ hearlier
    · exact handleLoop_fst hconf serializers last₁ last₂ ""

theorem replies_independent_of_history_log :
    (∀ last h₁ h₂ last₁ last₂,
      handleAll plainEnvironment plainFormat ["JsonSerializer"] last h₁ = .ok last₁ →
        handleAll plainEnvironment plainFormat ["JsonSerializer"] last h₂ = .ok last₂ →
          replyAfter plainEnvironment plainFormat ["JsonSerializer"] last₁ logMessage =
            replyAfter plainEnvironment plainFormat ["JsonSerializer"] last₂ logMessage) ↔
      ¬ShowsEarlier plainEnvironment plainFormat ["JsonSerializer"] logMessage :=
  replies_independent_of_history_iff plainEnvironment_documented _ _

/-- A message of the type `log` is answered with the error of the message before it. -/
theorem reply_shows_earlier_error :
    ∃ last, handleAll plainEnvironment plainFormat ["JsonSerializer", "SimpleSerializer"]
        (fun _ ↦ "") ["nonsense"] = .ok last ∧
      replyAfter plainEnvironment plainFormat ["JsonSerializer", "SimpleSerializer"] last
        logMessage = .ok "PARSE ERROR: ctype=\"conf\" lastError=\"Json parse error\" " ∧
      replyAfter plainEnvironment plainFormat ["JsonSerializer", "SimpleSerializer"]
        (fun _ ↦ "") logMessage = .ok "PARSE ERROR: ctype=\"conf\" lastError=\"\" " := by
  refine ⟨_, rfl, ?_, ?_⟩
  · rfl
  · rfl

end IqrfDaemon.Service
