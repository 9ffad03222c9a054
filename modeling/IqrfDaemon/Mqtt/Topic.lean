import IqrfDaemon.Topic.Filter

/-!
# Which MQTT messages are handled

`msgarrvd` compares the topic of a message with `m_mqttTopicRequest`, as characters.
For a filter that ends in `#` it looks for the text before the `#`, slash included, so
that the name in front of the slash, which the filter matches as well, is left out.
-/

namespace IqrfDaemon.Mqtt

open Topic

/-- The `std::string` made of `topicName`; without a length it ends at the first NUL. -/
def receivedTopic (topicName : List Char) (topicLen : ℤ) : List Char :=
  if 0 < topicLen then topicName.take topicLen.toNat else topicName.takeWhile (· ≠ '\x00')

/-- The message that `msgarrvd` passes to `handleMessageFromMqtt`. -/
def msgarrvd {Message : Type} (mqttTopicRequest topicName : List Char) (topicLen : ℤ)
    (msg : Message) : Option Message :=
  let topic := receivedTopic topicName topicLen
  let sz := mqttTopicRequest.length - 1
  -- wildcards in comparison - only # supported now
  if mqttTopicRequest[sz]? = some '#' then
    if mqttTopicRequest.take sz = topic.take sz then some msg else none
  else if mqttTopicRequest = topic then some msg
  else none

section Msgarrvd

variable {Message : Type} {request topicName : List Char} {topicLen : ℤ} {msg : Message}

theorem msgarrvd_of_plain (hhash : '#' ∉ request) :
    msgarrvd request topicName topicLen msg = some msg ↔
      request = receivedTopic topicName topicLen := by
  have hlast : request[request.length - 1]? ≠ some '#' :=
    fun h ↦ hhash (List.mem_of_getElem? h)
  simp [msgarrvd, if_neg hlast]

theorem msgarrvd_of_hash (before : List Char) :
    msgarrvd (before ++ ['#']) topicName topicLen msg = some msg ↔
      before <+: receivedTopic topicName topicLen := by
  have hlength : (before ++ ['#']).length - 1 = before.length := by simp
  have hlast : (before ++ ['#'])[before.length]? = some '#' := by simp
  simp only [msgarrvd, hlength, if_pos hlast, List.take_left, Option.ite_none_right_eq_some,
    and_true]
  exact List.prefix_iff_eq_take.symm

end Msgarrvd

/-- For a filter without `+` a message is passed on exactly if its topic matches the
filter, unless the filter is `#` below that very topic, or `#` alone and the topic starts
with a dollar. -/
theorem msgarrvd_iff_matches_iff {Message : Type} (request topicName : List Char) (topicLen : ℤ)
    (msg : Message) (hfilter : IsFilter request) (hplus : '+' ∉ request) :
    (msgarrvd request topicName topicLen msg = some msg ↔
        Matches request (receivedTopic topicName topicLen)) ↔
      request ≠ receivedTopic topicName topicLen ++ ['/', '#'] ∧
        ¬(request = ['#'] ∧ (receivedTopic topicName topicLen).head? = some '$') := by
  generalize htopic : receivedTopic topicName topicLen = topic
  rcases hfilter.cases with hhash | rfl | ⟨s, hhash, rfl⟩
  · rw [msgarrvd_of_plain hhash, htopic, matches_iff_of_plain hplus hhash]
    refine iff_of_true Iff.rfl ⟨?_, ?_⟩
    · rintro rfl
      simp at hhash
    · rintro ⟨rfl, -⟩
      simp at hhash
  · have hall : msgarrvd ['#'] topicName topicLen msg = some msg := by
      rw [← List.nil_append ['#'], msgarrvd_of_hash]
      exact List.nil_prefix
    have hlong : ['#'] ≠ topic ++ ['/', '#'] := by
      intro h
      simpa using congrArg List.length h
    simp [hall, matches_hash, hlong]
  · have hplus : '+' ∉ s := fun hmem ↦ hplus (List.mem_append_left _ hmem)
    have hsplit : s ++ ['/', '#'] = s ++ ['/'] ++ ['#'] := by simp
    have hlong : s ++ ['/', '#'] ≠ ['#'] := by
      intro h
      simpa using congrArg List.length h
    rw [hsplit, msgarrvd_of_hash, htopic, ← hsplit, matches_below hplus hhash]
    by_cases hsame : topic = s
    · subst hsame
      have hnot : ¬ topic ++ ['/'] <+: topic := fun h ↦ absurd h.length_le (by simp)
      simp [hnot]
    · simp [hsame, hlong, Ne.symm hsame]

theorem isFilter_below_iqrf : IsFilter "iqrf/#".toList := by
  refine ⟨?_, ?_, ?_, ?_⟩ <;> decide

theorem msgarrvd_iff_matches_iff_temperature :
    (msgarrvd "iqrf/#".toList "iqrf/temperature".toList 16 () = some () ↔
        Matches "iqrf/#".toList (receivedTopic "iqrf/temperature".toList 16)) ↔
      "iqrf/#".toList ≠ receivedTopic "iqrf/temperature".toList 16 ++ ['/', '#'] ∧
        ¬("iqrf/#".toList = ['#'] ∧
          (receivedTopic "iqrf/temperature".toList 16).head? = some '$') :=
  msgarrvd_iff_matches_iff "iqrf/#".toList "iqrf/temperature".toList 16 () isFilter_below_iqrf
    (by decide)

theorem msgarrvd_below_self :
    ¬(msgarrvd "iqrf/#".toList "iqrf".toList 4 () = some () ↔
      Matches "iqrf/#".toList (receivedTopic "iqrf".toList 4)) := by
  decide

end IqrfDaemon.Mqtt
