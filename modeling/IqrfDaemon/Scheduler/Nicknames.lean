import IqrfDaemon.Scheduler.Cron
import IqrfDaemon.Scheduler.Formats

/-!
# Nicknames and their instants

A nickname stands for a pattern, which the constructor reads like any other.  Two
of the patterns have a zero in the place of the day, where the days count from
one, and the record of such a nickname is never built.
-/

namespace IqrfDaemon.Scheduler

open Json Json.Jutils

/-- What a nickname names the first second of. -/
inductive Span
  | year
  | month
  | sunday
  | day
  | hour
  | minute
  deriving DecidableEq

/-- The local date-time is the first second of such a span; months count from zero and
weekdays from Sunday. -/
def Tm.Starts (tm : Tm) : Span → Prop
  | .year =>
      tm.tm_mon = 0 ∧ tm.tm_mday = 1 ∧ tm.tm_hour = 0 ∧ tm.tm_min = 0 ∧ tm.tm_sec = 0
  | .month => tm.tm_mday = 1 ∧ tm.tm_hour = 0 ∧ tm.tm_min = 0 ∧ tm.tm_sec = 0
  | .sunday => tm.tm_wday = 0 ∧ tm.tm_hour = 0 ∧ tm.tm_min = 0 ∧ tm.tm_sec = 0
  | .day => tm.tm_hour = 0 ∧ tm.tm_min = 0 ∧ tm.tm_sec = 0
  | .hour => tm.tm_min = 0 ∧ tm.tm_sec = 0
  | .minute => tm.tm_sec = 0

/-- The nicknames of a recurring instant, as they are documented. -/
def documentedSpans : List (String × Span) :=
  [("@yearly", .year),
    ("@annually", .year),
    ("@monthly", .month),
    ("@weekly", .sunday),
    ("@daily", .day),
    ("@hourly", .hour),
    ("@minutely", .minute)]

theorem documentedSpans_complete :
    documentedSpans.map Prod.fst = (nicknames.map Prod.fst).erase "@reboot" := by
  decide

/-- The record is due in exactly the first second of each such span. -/
def ScheduleRecord.FiresAt (r : ScheduleRecord) (span : Span) : Prop :=
  ∀ tm : Tm, tm.tm_sec ∈ r.secondsSet ∧ r.verifyTimePattern tm = true ↔ tm.Starts span

/-! ## The record of a JSON element -/

theorem ofJson_of_pattern (now rand : ℤ) {env : Env} {rec : Value} {time clientId task : String}
    (htime : getMemberAs assertIsString "time" rec = .ok time)
    (hservice : getMemberAs assertIsString "service" rec = .ok clientId)
    (hmessage : ScheduleRecord.messageText env rec = .ok task) {pattern : String}
    (hsolved : solveNickname time = .ok pattern) (hne : pattern ≠ "") :
    ScheduleRecord.ofJson env now rand rec = (do
      let (p, _) ← parsePattern pattern.toList
      return ScheduleRecord.ofPattern rand clientId task p) := by
  rw [ofJson_of_members htime hservice hmessage, hsolved]
  change (if pattern = "" then _ else _) = _
  rw [if_neg hne]

/-! ## Patterns of zeros and stars -/

@[simp] theorem verifyItem_zero (v : ℤ) : ScheduleRecord.verifyItem v [0] = true ↔ v = 0 := by
  simp [ScheduleRecord.verifyItem, eq_comm]

@[simp] theorem verifyItem_star (v : ℤ) : ScheduleRecord.verifyItem v [-1] = true := by
  simp [ScheduleRecord.verifyItem]

theorem secondsOk_zero : SecondsOk [0] := Or.inr ⟨by decide, by simp [Listed]⟩

/-- A pattern for second zero, with these vectors for the other fields. -/
def atSecondZero (vmin vhour vwday : List ℤ) : TimePattern where
  vsec := [0]
  vmin := vmin
  vhour := vhour
  vmday := [-1]
  vmon := [-1]
  vyear := [-1]
  vwday := vwday
  seconds_ok := secondsOk_zero

theorem due_atSecondZero {rand : ℤ} {clientId task : String} {vmin vhour vwday : List ℤ}
    {r : ScheduleRecord} (hr : r = .ofPattern rand clientId task (atSecondZero vmin vhour vwday))
    (tm : Tm) :
    tm.tm_sec ∈ r.secondsSet ∧ r.verifyTimePattern tm = true ↔
      tm.tm_sec = 0 ∧ ScheduleRecord.verifyItem tm.tm_min vmin = true ∧
        ScheduleRecord.verifyItem tm.tm_hour vhour = true ∧
          ScheduleRecord.verifyItem tm.tm_wday vwday = true := by
  subst hr
  simp [ScheduleRecord.secondsSet, ScheduleRecord.ofPattern, atSecondZero,
    ScheduleRecord.verifyTimePattern, and_assoc]

/-- The pattern of a span, where it is one that is read. -/
def Span.pattern : Span → TimePattern
  | .sunday => atSecondZero [0] [0] [0]
  | .day => atSecondZero [0] [0] [-1]
  | .hour => atSecondZero [0] [-1] [-1]
  | _ => atSecondZero [-1] [-1] [-1]

theorem fires_pattern (rand : ℤ) (clientId task : String) {span : Span}
    (hspan : span ≠ .year ∧ span ≠ .month) :
    (ScheduleRecord.ofPattern rand clientId task span.pattern).FiresAt span := by
  intro tm
  cases span with
  | year => exact absurd rfl hspan.1
  | month => exact absurd rfl hspan.2
  | sunday =>
      refine (due_atSecondZero rfl tm).trans ?_
      simp only [verifyItem_zero, Tm.Starts]
      tauto
  | day =>
      refine (due_atSecondZero rfl tm).trans ?_
      simp only [verifyItem_zero, verifyItem_star, Tm.Starts]
      tauto
  | hour =>
      refine (due_atSecondZero rfl tm).trans ?_
      simp only [verifyItem_zero, verifyItem_star, Tm.Starts]
      tauto
  | minute =>
      refine (due_atSecondZero rfl tm).trans ?_
      simp only [verifyItem_star, Tm.Starts, and_true]

/-! ## Which nicknames work -/

/-- What the constructor makes of the pattern of a nickname. -/
theorem parsePattern_nickname :
    ∀ entry ∈ documentedSpans, ∃ pattern, solveNickname entry.1 = .ok pattern ∧ pattern ≠ "" ∧
      ((entry.2 = .year ∨ entry.2 = .month) ∧ (∃ e, parsePattern pattern.toList = .error e) ∨
        (entry.2 ≠ .year ∧ entry.2 ≠ .month) ∧
          ∃ rest, parsePattern pattern.toList = .ok (entry.2.pattern, rest)) := by
  intro entry hentry
  simp only [documentedSpans, List.mem_cons, List.not_mem_nil, or_false] at hentry
  rcases hentry with rfl | rfl | rfl | rfl | rfl | rfl | rfl
  · exact ⟨_, rfl, by decide, .inl ⟨.inl rfl, _, rfl⟩⟩
  · exact ⟨_, rfl, by decide, .inl ⟨.inl rfl, _, rfl⟩⟩
  · exact ⟨_, rfl, by decide, .inl ⟨.inr rfl, _, rfl⟩⟩
  · exact ⟨_, rfl, by decide, .inr ⟨by decide, _, rfl⟩⟩
  · exact ⟨_, rfl, by decide, .inr ⟨by decide, _, rfl⟩⟩
  · exact ⟨_, rfl, by decide, .inr ⟨by decide, _, rfl⟩⟩
  · exact ⟨_, rfl, by decide, .inr ⟨by decide, _, rfl⟩⟩

/-- The nicknames of a year and of a month. -/
def dayZero : List String := ["@yearly", "@annually", "@monthly"]

theorem mem_dayZero_iff :
    ∀ entry ∈ documentedSpans, entry.1 ∈ dayZero ↔ entry.2 = .year ∨ entry.2 = .month := by
  decide

/-- A record built from a nickname fires at the documented instants unless its pattern
asks for day zero; then it is never built. -/
theorem nickname_fires_iff (env : Env) (now rand : ℤ) (rec : Value) (nickname : String)
    (span : Span) (clientId task : String) (hspan : (nickname, span) ∈ documentedSpans)
    (htime : getMemberAs assertIsString "time" rec = .ok nickname)
    (hservice : getMemberAs assertIsString "service" rec = .ok clientId)
    (hmessage : ScheduleRecord.messageText env rec = .ok task) :
    (∃ r, ScheduleRecord.ofJson env now rand rec = .ok r ∧ r.FiresAt span) ↔
      nickname ∉ dayZero := by
  rw [mem_dayZero_iff _ hspan]
  obtain ⟨pattern, hsolved, hne, hparse⟩ := parsePattern_nickname _ hspan
  have hjson := ofJson_of_pattern now rand htime hservice hmessage hsolved hne
  rcases hparse with ⟨hzero, e, he⟩ | ⟨hnonzero, rest, hok⟩
  · refine iff_of_false ?_ (not_not_intro hzero)
    rintro ⟨r, hr, -⟩
    rw [hjson, he] at hr
    cases hr
  · refine iff_of_true ?_ (by tauto)
    rw [hok] at hjson
    exact ⟨_, hjson, fires_pattern rand clientId task hnonzero⟩

theorem nickname_fires_iff_weekly :
    (∃ r, ScheduleRecord.ofJson epochDay 0 7 (element "@weekly" "client" "task") = .ok r ∧
        r.FiresAt .sunday) ↔ "@weekly" ∉ dayZero :=
  nickname_fires_iff epochDay 0 7 (element "@weekly" "client" "task") "@weekly" .sunday "client"
    "task" (by decide) (by rfl) (by rfl) (by rfl)

/-- A yearly task is refused. -/
theorem yearly_refused :
    ¬∃ r, ScheduleRecord.ofJson epochDay 0 7 (element "@yearly" "client" "task") = .ok r ∧
        r.FiresAt .year := by
  rintro ⟨r, hr, -⟩
  have herror : (ScheduleRecord.ofJson epochDay 0 7
      (element "@yearly" "client" "task")).isOk = false := by rfl
  rw [hr] at herror
  cases herror

end IqrfDaemon.Scheduler
