import IqrfDaemon.Scheduler.Token

/-!
# What a time pattern means

Seven tokens are read from a stream and turned into the seven vectors of a
record.  `verifyTimePattern` then compares these with the fields of `std::tm`:
the month token counts from one and is shifted, the year token is compared with
the years since 1900 as it stands.
-/

namespace IqrfDaemon.Scheduler

open Json Json.Jutils Text

/-- The second half of `parsePattern`: the items, once the tokens are read. -/
def parseItems (sec mnt hrs day mon yer dow : List Char) : Except Failure TimePattern :=
  match h : parseItem sec 0 59 [] 0 with
  | .error e => .error e
  | .ok (_, vsec) => do
      let (_, vmin) ← parseItem mnt 0 59 [] 0
      let (_, vhour) ← parseItem hrs 0 23 [] 0
      let (_, vmday) ← parseItem day 1 31 [] 0
      let (_, vmon) ← parseItem mon 1 12 [] (-1)
      let (_, vyear) ← parseItem yer 0 9000 [] 0
      let (_, vwday) ← parseItem dow 0 6 [] 0
      return { vsec, vmin, vhour, vmday, vmon, vyear, vwday,
               seconds_ok := secondsOk_of_parseItem h }

theorem extract_of_fields (dflt : List Char) {s t w : List Char} {ws : List (List Char)}
    (h : fields isSpace s = w :: ws) (ht : ∀ c ∈ t.head?, isSpace c = true) :
    ∃ s', extract dflt (some (s ++ t)) = (w, some (s' ++ t)) ∧ fields isSpace s' = ws := by
  cases hdrop : s.dropWhile isSpace with
  | nil =>
      rw [← fields_dropWhile, hdrop] at h
      simp at h
  | cons c rest =>
      rw [fields_of_dropWhile_eq_cons hdrop] at h
      obtain ⟨rfl, rfl⟩ := List.cons.inj h
      have hst : (s ++ t).dropWhile isSpace = c :: (rest ++ t) := by
        rw [List.dropWhile_append, hdrop]
        rfl
      have hstop : ∀ d ∈ t.head?, (!isSpace d) = false := by simpa using ht
      refine ⟨(c :: rest).dropWhile fun d ↦ !isSpace d, ?_, rfl⟩
      simp only [extract, hst]
      exact Prod.ext (takeWhile_append_of_stop (c :: rest) hstop)
        (congrArg some (dropWhile_append_of_stop (c :: rest) hstop))

theorem parsePattern_of_fields {sec mnt hrs day mon yer dow s t : List Char}
    {more : List (List Char)}
    (h : fields isSpace s = sec :: mnt :: hrs :: day :: mon :: yer :: dow :: more)
    (ht : ∀ c ∈ t.head?, isSpace c = true) :
    ∃ s', fields isSpace s' = more ∧ parsePattern (s ++ t) =
      (fun p ↦ (p, some (s' ++ t))) <$> parseItems sec mnt hrs day mon yer dow := by
  obtain ⟨s₁, h₁, hf₁⟩ := extract_of_fields ['*'] h ht
  obtain ⟨s₂, h₂, hf₂⟩ := extract_of_fields ['*'] hf₁ ht
  obtain ⟨s₃, h₃, hf₃⟩ := extract_of_fields ['*'] hf₂ ht
  obtain ⟨s₄, h₄, hf₄⟩ := extract_of_fields ['*'] hf₃ ht
  obtain ⟨s₅, h₅, hf₅⟩ := extract_of_fields ['*'] hf₄ ht
  obtain ⟨s₆, h₆, hf₆⟩ := extract_of_fields ['*'] hf₅ ht
  obtain ⟨s₇, h₇, hf₇⟩ := extract_of_fields ['*'] hf₆ ht
  refine ⟨s₇, hf₇, ?_⟩
  simp only [parsePattern, h₁, h₂, h₃, h₄, h₅, h₆, h₇]
  unfold parseItems
  split
  case h_1 e hsec =>
    split
    case h_1 e' hsec' =>
      rw [h₁, hsec'] at hsec
      obtain rfl := Except.error.inj hsec
      rfl
    case h_2 v vsec hsec' => simp [h₁, hsec'] at hsec
  case h_2 v vsec hsec =>
    split
    case h_1 e hsec' => simp [h₁, hsec'] at hsec
    case h_2 v' vsec' hsec' =>
      rw [h₁, hsec'] at hsec
      obtain ⟨rfl, rfl⟩ := Prod.mk.inj (Except.ok.inj hsec)
      simp only [map_bind, map_pure]

theorem of_parseItems {sec mnt hrs day mon yer dow : List Char} {p : TimePattern}
    (h : parseItems sec mnt hrs day mon yer dow = .ok p) :
    (∃ v, parseItem mnt 0 59 [] 0 = .ok (v, p.vmin)) ∧
      (∃ v, parseItem hrs 0 23 [] 0 = .ok (v, p.vhour)) ∧
        (∃ v, parseItem day 1 31 [] 0 = .ok (v, p.vmday)) ∧
          (∃ v, parseItem mon 1 12 [] (-1) = .ok (v, p.vmon)) ∧
            (∃ v, parseItem yer 0 9000 [] 0 = .ok (v, p.vyear)) ∧
              ∃ v, parseItem dow 0 6 [] 0 = .ok (v, p.vwday) := by
  unfold parseItems at h
  split at h
  case h_1 => simp at h
  case h_2 v vsec hsec =>
    obtain ⟨⟨v₁, vmin⟩, hmin, h⟩ := exists_ok_of_bind h
    obtain ⟨⟨v₂, vhour⟩, hhour, h⟩ := exists_ok_of_bind h
    obtain ⟨⟨v₃, vmday⟩, hmday, h⟩ := exists_ok_of_bind h
    obtain ⟨⟨v₄, vmon⟩, hmon, h⟩ := exists_ok_of_bind h
    obtain ⟨⟨v₅, vyear⟩, hyear, h⟩ := exists_ok_of_bind h
    obtain ⟨⟨v₆, vwday⟩, hwday, h⟩ := exists_ok_of_bind h
    obtain rfl := Except.ok.inj h
    exact ⟨⟨v₁, hmin⟩, ⟨v₂, hhour⟩, ⟨v₃, hmday⟩, ⟨v₄, hmon⟩, ⟨v₅, hyear⟩, ⟨v₆, hwday⟩⟩

/-! ## The seven tokens and the calendar -/

structure Tokens where
  sec : Token
  min : Token
  hour : Token
  day : Token
  mon : Token
  year : Token
  wday : Token

namespace Tokens

def texts (p : Tokens) : List (List Char) :=
  [p.sec.text, p.min.text, p.hour.text, p.day.text, p.mon.text, p.year.text, p.wday.text]

/-- Each token denotes at least one value of its field's range. -/
def Denoting (p : Tokens) : Prop :=
  p.sec.Denotes 0 59 ∧ p.min.Denotes 0 59 ∧ p.hour.Denotes 0 23 ∧ p.day.Denotes 1 31 ∧
    p.mon.Denotes 1 12 ∧ p.year.Denotes 0 9000 ∧ p.wday.Denotes 0 6

end Tokens

/-- A calendar date-time; the weekday counts from Sunday. -/
structure DateTime where
  year : ℤ
  month : ℤ
  day : ℤ
  hour : ℤ
  minute : ℤ
  second : ℤ
  wday : ℤ
  year_ge : 1900 ≤ year
  month_bounds : 1 ≤ month ∧ month ≤ 12
  day_bounds : 1 ≤ day ∧ day ≤ 31
  hour_bounds : 0 ≤ hour ∧ hour ≤ 23
  minute_bounds : 0 ≤ minute ∧ minute ≤ 59
  second_bounds : 0 ≤ second ∧ second ≤ 60
  wday_bounds : 0 ≤ wday ∧ wday ≤ 6

def DateTime.toTm (d : DateTime) : Tm where
  tm_sec := d.second
  tm_min := d.minute
  tm_hour := d.hour
  tm_mday := d.day
  tm_mon := d.month - 1
  tm_year := d.year - 1900
  tm_wday := d.wday
  sec_nonneg := d.second_bounds.1
  sec_le := d.second_bounds.2

namespace Tokens

def ContainBesidesYear (p : Tokens) (d : DateTime) : Prop :=
  p.min.Contains 0 59 d.minute ∧ p.hour.Contains 0 23 d.hour ∧ p.day.Contains 1 31 d.day ∧
    p.mon.Contains 1 12 d.month ∧ p.wday.Contains 0 6 d.wday

/-- What the pattern asks of a date: each token contains the value of its field. -/
def Contain (p : Tokens) (d : DateTime) : Prop :=
  p.ContainBesidesYear d ∧ p.year.Contains 0 9000 d.year

end Tokens

/-- The tokens are the first seven fields of a pattern text. -/
def PatternOf (tokens : Tokens) (pattern : String) : Prop :=
  (fields isSpace pattern.toList).take 7 = tokens.texts

/-- A record built from a line or from a JSON element with these tokens. -/
inductive BuiltFrom (tokens : Tokens) (r : ScheduleRecord) : Prop
  | text (now rand : ℤ) (rec pattern : String) (solved : solveNickname rec = .ok pattern)
      (tokens_eq : PatternOf tokens pattern) (built : ScheduleRecord.ofText now rand rec = .ok r)
  | json (env : Env) (now rand : ℤ) (rec : Value) (time pattern : String)
      (member : getMemberAs assertIsString "time" rec = .ok time)
      (solved : solveNickname time = .ok pattern) (tokens_eq : PatternOf tokens pattern)
      (built : ScheduleRecord.ofJson env now rand rec = .ok r)

/-- The vectors of a record, as `parseItem` makes them from the tokens. -/
def VectorsOf (tokens : Tokens) (r : ScheduleRecord) : Prop :=
  (∃ v, parseItem tokens.min.text 0 59 [] 0 = .ok (v, r.vmin)) ∧
    (∃ v, parseItem tokens.hour.text 0 23 [] 0 = .ok (v, r.vhour)) ∧
      (∃ v, parseItem tokens.day.text 1 31 [] 0 = .ok (v, r.vmday)) ∧
        (∃ v, parseItem tokens.mon.text 1 12 [] (-1) = .ok (v, r.vmon)) ∧
          (∃ v, parseItem tokens.year.text 0 9000 [] 0 = .ok (v, r.vyear)) ∧
            ∃ v, parseItem tokens.wday.text 0 6 [] 0 = .ok (v, r.vwday)

theorem of_parsePattern {tokens : Tokens} {pattern : String} (h : PatternOf tokens pattern)
    {p : TimePattern} {rest : Option (List Char)}
    (hparse : parsePattern pattern.toList = .ok (p, rest)) (rand : ℤ) (clientId task : String) :
    VectorsOf tokens (ScheduleRecord.ofPattern rand clientId task p) := by
  have hfields : fields isSpace pattern.toList =
      tokens.texts ++ (fields isSpace pattern.toList).drop 7 := by
    rw [← h, List.take_append_drop]
  obtain ⟨s', -, hpattern⟩ := parsePattern_of_fields (t := []) hfields (by simp)
  rw [List.append_nil, hparse] at hpattern
  cases hitems : parseItems tokens.sec.text tokens.min.text tokens.hour.text tokens.day.text
      tokens.mon.text tokens.year.text tokens.wday.text with
  | error e =>
      rw [hitems] at hpattern
      cases hpattern
  | ok q =>
      rw [hitems] at hpattern
      obtain ⟨rfl, -⟩ := Prod.mk.inj (Except.ok.inj hpattern)
      exact of_parseItems hitems

theorem PatternOf.ne_empty {tokens : Tokens} {pattern : String} (h : PatternOf tokens pattern) :
    pattern ≠ "" := by
  rintro rfl
  exact absurd (congrArg List.length h) (by simp [Tokens.texts])

/-- Both constructors build a cron record with the vectors of the tokens. -/
theorem BuiltFrom.cron {tokens : Tokens} {r : ScheduleRecord} (h : BuiltFrom tokens r) :
    r.isCron ∧ VectorsOf tokens r := by
  cases h with
  | text now rand rec pattern solved tokens_eq built =>
      simp only [ScheduleRecord.ofText, solved] at built
      obtain ⟨recStr, hrec, built⟩ := exists_ok_of_bind built
      obtain rfl := Except.ok.inj hrec
      rw [if_neg tokens_eq.ne_empty] at built
      obtain ⟨⟨p, rest⟩, hparse, built⟩ := exists_ok_of_bind built
      obtain rfl := Except.ok.inj built
      exact ⟨⟨rfl, rfl⟩, of_parsePattern tokens_eq hparse _ _ _⟩
  | json env now rand rec time pattern member solved tokens_eq built =>
      obtain ⟨time', htime, built⟩ := exists_ok_of_bind built
      obtain rfl := Except.ok.inj (member.symm.trans htime)
      obtain ⟨pattern', hsolved, built⟩ := exists_ok_of_bind built
      obtain rfl := Except.ok.inj (solved.symm.trans hsolved)
      rw [if_neg tokens_eq.ne_empty] at built
      obtain ⟨⟨p, rest⟩, hparse, built⟩ := exists_ok_of_bind built
      obtain ⟨clientId, -, built⟩ := exists_ok_of_bind built
      obtain ⟨task, -, built⟩ := exists_ok_of_bind built
      obtain rfl := Except.ok.inj built
      exact ⟨⟨rfl, rfl⟩, of_parsePattern tokens_eq hparse _ _ _⟩

namespace ScheduleRecord

/-- The check of the calendar fields, in terms of the tokens: the year token is asked
for the years since 1900. -/
theorem verifyTimePattern_iff {tokens : Tokens} {r : ScheduleRecord} (hbuilt : BuiltFrom tokens r)
    (hdenoting : tokens.Denoting) (d : DateTime) :
    r.verifyTimePattern d.toTm = true ↔
      tokens.ContainBesidesYear d ∧ tokens.year.Contains 0 9000 (d.year - 1900) := by
  obtain ⟨⟨hexact, hperiodic⟩, ⟨_, hmin⟩, ⟨_, hhour⟩, ⟨_, hday⟩, ⟨_, hmon⟩, ⟨_, hyear⟩,
    ⟨_, hwday⟩⟩ := hbuilt.cron
  obtain ⟨-, dmin, dhour, dday, dmon, dyear, dwday⟩ := hdenoting
  have hcalendar : r.verifyTimePattern d.toTm =
      (verifyItem d.minute r.vmin && verifyItem d.hour r.vhour && verifyItem d.day r.vmday &&
        verifyItem (d.month - 1) r.vmon && verifyItem (d.year - 1900) r.vyear &&
          verifyItem d.wday r.vwday) := by
    simp [verifyTimePattern, hexact, hperiodic, DateTime.toTm]
  rw [hcalendar]
  simp only [Bool.and_eq_true, Tokens.ContainBesidesYear,
    verifyItem_text (by decide) (by decide) dmin hmin,
    verifyItem_text (by decide) (by decide) dhour hhour,
    verifyItem_text (by decide) (by decide) dday hday,
    verifyItem_text (by decide) (by decide) dmon hmon,
    verifyItem_text (by decide) (by decide) dyear hyear,
    verifyItem_text (by decide) (by decide) dwday hwday,
    sub_zero, sub_neg_eq_add, sub_add_cancel]
  tauto

/-- The check agrees with the calendar unless the other tokens contain the date and
the year token tells the year from the years since 1900. -/
theorem verifyTimePattern_iff_contain {tokens : Tokens} {r : ScheduleRecord}
    (hbuilt : BuiltFrom tokens r) (hdenoting : tokens.Denoting) (d : DateTime) :
    (r.verifyTimePattern d.toTm = true ↔ tokens.Contain d) ↔
      (tokens.ContainBesidesYear d →
        (tokens.year.Contains 0 9000 d.year ↔ tokens.year.Contains 0 9000 (d.year - 1900))) := by
  rw [verifyTimePattern_iff hbuilt hdenoting d, Tokens.Contain]
  tauto

/-! ### The first day of 2018 -/

def one : Numeral := ⟨['1'], by decide, by decide⟩

def zero : Numeral := ⟨['0'], by decide, by decide⟩

def twentyEighteen : Numeral := ⟨['2', '0', '1', '8'], by decide, by decide⟩

/-- `0 0 0 1 1 2018 *` -/
def newYear : Tokens where
  sec := .list zero []
  min := .list zero []
  hour := .list zero []
  day := .list one []
  mon := .list one []
  year := .list twentyEighteen []
  wday := .star

def newYearRecord : ScheduleRecord where
  task := " ping"
  clientId := "svc"
  vsec := [0]
  vmin := [0]
  vhour := [0]
  vmday := [1]
  vmon := [0]
  vyear := [2018]
  vwday := [-1]
  exactTime := false
  periodic := false
  started := false
  period := 0
  startTime := 0
  taskHandle := 7
  seconds_ok := fun _ _ ↦ .inr (by simp [Listed])

def newYearMidnight : DateTime where
  year := 2018
  month := 1
  day := 1
  hour := 0
  minute := 0
  second := 0
  wday := 1
  year_ge := by decide
  month_bounds := by decide
  day_bounds := by decide
  hour_bounds := by decide
  minute_bounds := by decide
  second_bounds := by decide
  wday_bounds := by decide

theorem newYear_built : BuiltFrom newYear newYearRecord :=
  .text 0 7 "0 0 0 1 1 2018 * svc ping" "0 0 0 1 1 2018 * svc ping" (by decide)
    (by unfold PatternOf; decide) (by decide)

theorem newYear_denoting : newYear.Denoting := by
  refine ⟨⟨0, ?_⟩, ⟨0, ?_⟩, ⟨0, ?_⟩, ⟨1, ?_⟩, ⟨1, ?_⟩, ⟨2018, ?_⟩, ⟨0, ?_⟩⟩ <;>
    simp [newYear, Token.Contains, Numeral.value, zero, one, twentyEighteen, digitValue]

theorem newYear_contains : newYear.Contain newYearMidnight := by
  simp [newYear, newYearMidnight, Tokens.Contain, Tokens.ContainBesidesYear, Token.Contains,
    Numeral.value, zero, one, twentyEighteen, digitValue]

theorem verifyTimePattern_iff_contain_newYear :
    (newYearRecord.verifyTimePattern newYearMidnight.toTm = true ↔
        newYear.Contain newYearMidnight) ↔
      (newYear.ContainBesidesYear newYearMidnight →
        (newYear.year.Contains 0 9000 newYearMidnight.year ↔
          newYear.year.Contains 0 9000 (newYearMidnight.year - 1900))) :=
  verifyTimePattern_iff_contain newYear_built newYear_denoting newYearMidnight

/-- The pattern contains midnight of that day, and the check denies it. -/
theorem verifyTimePattern_misses_newYear :
    ¬∀ (tokens : Tokens) (r : ScheduleRecord), BuiltFrom tokens r → tokens.Denoting →
      ∀ d : DateTime, r.verifyTimePattern d.toTm = true ↔ tokens.Contain d := by
  intro hclaim
  have hverify := hclaim newYear newYearRecord newYear_built newYear_denoting newYearMidnight
  have htrue := hverify.mpr newYear_contains
  exact absurd htrue (by decide)

end ScheduleRecord

end IqrfDaemon.Scheduler
