import IqrfDaemon.Scheduler.Pattern

/-!
# The textual and the JSON form of a record

A record of the textual table is one line: the pattern, the client and the task.
A record of `TasksJson` has them as members.  Both constructors resolve nicknames
and read the same tokens, but the textual one resolves the whole line.
-/

namespace IqrfDaemon.Scheduler

open Json Json.Jutils Text

/-! ## The two forms -/

/-- The textual record of a time specification, a client and a message. -/
def line (s c m : String) : String := s ++ " " ++ c ++ " " ++ m

/-- The JSON record of the same. -/
def element (s c m : String) : Value :=
  .object [("time", .string s), ("service", .string c), ("message", .string m)]

/-- A line as `updateConfiguration` gets it from the member `Tasks`. -/
def ReadFromTasks (rec : String) : Prop :=
  ∃ cfg records, getMemberAsVector assertIsString "Tasks" cfg = .ok records ∧ rec ∈ records

def TimeSpec (s : String) : Prop :=
  s ∈ nicknames.map Prod.fst ∨ (fields isSpace s.toList).length = 7

def withoutBlanks (task : String) : List Char := task.toList.dropWhile (· = ' ')

/-- Both constructors throw, or both records say the same. -/
def Agree : Except Failure ScheduleRecord → Except Failure ScheduleRecord → Prop
  | .error _, .error _ => True
  | .ok a, .ok b =>
      a.vsec = b.vsec ∧ a.vmin = b.vmin ∧ a.vhour = b.vhour ∧ a.vmday = b.vmday ∧
        a.vmon = b.vmon ∧ a.vyear = b.vyear ∧ a.vwday = b.vwday ∧ a.exactTime = b.exactTime ∧
          a.clientId = b.clientId ∧ withoutBlanks a.task = withoutBlanks b.task
  | _, _ => False

/-! ## Lines have no NUL -/

theorem nul_notMem_of_mapM {name : String} {items : List Value} {records : List String}
    (h : items.mapM (assertIsString name) = .ok records) :
    ∀ rec ∈ records, '\x00' ∉ rec.toList := by
  induction items generalizing records with
  | nil =>
      obtain rfl := Except.ok.inj h
      simp
  | cons v items ih =>
      rw [List.mapM_cons] at h
      obtain ⟨first, hfirst, h⟩ := exists_ok_of_bind h
      obtain ⟨more, hmore, h⟩ := exists_ok_of_bind h
      obtain rfl := Except.ok.inj h
      intro rec hrec
      rcases List.mem_cons.mp hrec with rfl | hrec
      · cases v with
        | string s =>
            obtain rfl := Except.ok.inj hfirst
            exact nul_notMem_cString s
        | _ => cases hfirst
      · exact ih hmore rec hrec

theorem ReadFromTasks.nul_notMem {rec : String} (h : ReadFromTasks rec) :
    '\x00' ∉ rec.toList := by
  obtain ⟨cfg, records, hread, hmem⟩ := h
  rw [getMemberAsVector] at hread
  split at hread
  case h_1 m hm =>
    split at hread
    case h_1 items hitems => exact nul_notMem_of_mapM hread rec hmem
    case h_2 => cases hread
  case h_2 => cases hread

theorem toList_line (s c m : String) :
    (line s c m).toList = s.toList ++ ' ' :: c.toList ++ ' ' :: m.toList := by
  simp [line]

theorem toList_line_of_head {s : String} {first : Char} {rest : List Char}
    (h : s.toList = first :: rest) (c m : String) :
    (line s c m).toList = first :: (rest ++ ' ' :: c.toList ++ ' ' :: m.toList) := by
  rw [toList_line, h]
  rfl

/-- A line has blanks, whatever its parts. -/
theorem exists_blank_line (s c m : String) : ∃ d ∈ (line s c m).toList, isSpace d = true :=
  ⟨' ', by simp [toList_line], by decide⟩

/-! ## Nicknames -/

/-- A text with white space is no nickname, so behind an `@` it is refused. -/
theorem solveNickname_of_blank {rest : List Char} {rec : String} (hrec : rec.toList = '@' :: rest)
    (hblank : ∃ d ∈ rec.toList, isSpace d = true) : ∃ e, solveNickname rec = .error e := by
  rw [solveNickname, hrec]
  cases hlookup : nicknames.lookup rec with
  | none => exact ⟨_, rfl⟩
  | some found =>
      have hkeys : ∀ entry ∈ nicknames, ∀ d ∈ entry.1.toList, isSpace d = false := by decide
      obtain ⟨before, after, hsplit, -⟩ := List.lookup_eq_some_iff.mp hlookup
      obtain ⟨d, hd, hspace⟩ := hblank
      have hword := hkeys (rec, found) (by rw [hsplit]; simp) d hd
      simp [hspace] at hword

theorem solveNickname_of_head {c : Char} {rest : List Char} {s : String}
    (hs : s.toList = c :: rest) (hc : c ≠ '@') : solveNickname s = .ok s := by
  rw [solveNickname, hs]
  split
  case h_1 h => simp at h
  case h_2 h => exact absurd (List.cons.inj h).1 hc
  case h_3 => rfl

/-! ## The two constructors -/

theorem ofJson_of_members {env : Env} {now rand : ℤ} {rec : Value} {time clientId task : String}
    (htime : getMemberAs assertIsString "time" rec = .ok time)
    (hservice : getMemberAs assertIsString "service" rec = .ok clientId)
    (hmessage : ScheduleRecord.messageText env rec = .ok task) :
    ScheduleRecord.ofJson env now rand rec = (do
      let pattern ← solveNickname time
      if pattern = "" then return ScheduleRecord.atReboot now rand clientId task
      let (p, _) ← parsePattern pattern.toList
      return ScheduleRecord.ofPattern rand clientId task p) := by
  simp only [ScheduleRecord.ofJson, htime, hservice, hmessage]
  rfl

theorem ofJson_element (env : Env) (now rand : ℤ) {s c m : String} (hs : '\x00' ∉ s.toList)
    (hc : '\x00' ∉ c.toList) (hm : '\x00' ∉ m.toList) :
    ScheduleRecord.ofJson env now rand (element s c m) = (do
      let pattern ← solveNickname s
      if pattern = "" then return ScheduleRecord.atReboot now rand c m
      let (p, _) ← parsePattern pattern.toList
      return ScheduleRecord.ofPattern rand c m p) := by
  have htime : getMemberAs assertIsString "time" (element s c m) = .ok s := by
    have hmember : getMemberAs assertIsString "time" (element s c m) = .ok (cString s) := rfl
    rw [hmember, cString_eq_self hs]
  have hservice : getMemberAs assertIsString "service" (element s c m) = .ok c := by
    have hmember : getMemberAs assertIsString "service" (element s c m) = .ok (cString c) := rfl
    rw [hmember, cString_eq_self hc]
  have hmessage : ScheduleRecord.messageText env (element s c m) = .ok m := by
    have hmember : ScheduleRecord.messageText env (element s c m) = .ok (cString m) := rfl
    rw [hmember, cString_eq_self hm]
  exact ofJson_of_members htime hservice hmessage

theorem ofText_of_error {now rand : ℤ} {rec : String} {e : Failure}
    (h : solveNickname rec = .error e) : ScheduleRecord.ofText now rand rec = .error e := by
  rw [ScheduleRecord.ofText, h]
  rfl

/-- The client of a line, behind what is left of the pattern. -/
theorem extract_client {s' : List Char} (hs' : fields isSpace s' = []) {c : List Char}
    (hne : c ≠ []) (hc : ∀ d ∈ c, isSpace d = false) (m : List Char) :
    extract [] (some (s' ++ (' ' :: c ++ ' ' :: m))) = (c, some (' ' :: m)) := by
  have hblanks : ∀ d ∈ s' ++ [' '], isSpace d = true := by
    intro d hd
    rcases List.mem_append.mp hd with hd | hd
    · exact List.dropWhile_eq_nil_iff.mp (dropWhile_of_fields_eq_nil hs') d hd
    · obtain rfl := List.mem_singleton.mp hd
      rfl
  have hword : ∀ d ∈ c, (!isSpace d) = true := by simpa using hc
  have hstop : ∀ d ∈ (' ' :: m).head?, (!isSpace d) = false := by simp [isSpace]
  obtain ⟨d, c', rfl⟩ := List.exists_cons_of_ne_nil hne
  have hdrop : (s' ++ (' ' :: (d :: c') ++ ' ' :: m)).dropWhile isSpace =
      d :: (c' ++ ' ' :: m) := by
    have hsplit : s' ++ (' ' :: (d :: c') ++ ' ' :: m) =
        (s' ++ [' ']) ++ d :: (c' ++ ' ' :: m) := by simp
    rw [hsplit, List.dropWhile_append_of_pos hblanks, List.dropWhile_cons_of_neg]
    simp [hc d (by simp)]
  have htake := takeWhile_append_of_stop (d :: c') hstop
  have hrest := dropWhile_append_of_stop (d :: c') hstop
  rw [List.takeWhile_eq_self_iff.mpr hword] at htake
  rw [List.dropWhile_eq_nil_iff.mpr hword, List.nil_append] at hrest
  simp only [extract, hdrop]
  exact Prod.ext htake (congrArg some hrest)

/-- The textual record of seven tokens. -/
theorem ofText_line (now rand : ℤ) {s c m : String} {sec mnt hrs day mon yer dow : List Char}
    (hfields : fields isSpace s.toList = [sec, mnt, hrs, day, mon, yer, dow])
    (hsolved : solveNickname (line s c m) = .ok (line s c m)) (hne : c.toList ≠ [])
    (hc : ∀ d ∈ c.toList, isSpace d = false) (hm : '|' ∉ m.toList) :
    ScheduleRecord.ofText now rand (line s c m) =
      (fun p ↦ ScheduleRecord.ofPattern rand c (" " ++ m) p) <$>
        parseItems sec mnt hrs day mon yer dow := by
  have hline : line s c m ≠ "" := by
    intro h
    have hnil := congrArg String.toList h
    rw [toList_line] at hnil
    simp at hnil
  obtain ⟨s', hs', hparse⟩ := parsePattern_of_fields (t := ' ' :: c.toList ++ ' ' :: m.toList)
    hfields (by simp [isSpace])
  have hclient := extract_client hs' hne hc m.toList
  have htask : (' ' :: m.toList).takeWhile (· ≠ '|') = ' ' :: m.toList := by
    rw [List.takeWhile_eq_self_iff]
    intro d hd
    rcases List.mem_cons.mp hd with rfl | hd
    · rfl
    · have hpipe : d ≠ '|' := fun heq ↦ hm (heq ▸ hd)
      simpa using hpipe
  have htext : (line s c m).toList = s.toList ++ (' ' :: c.toList ++ ' ' :: m.toList) := by
    simp [line]
  have hmessage : String.ofList (' ' :: m.toList) = " " ++ m := by
    rw [← String.toList_inj]
    simp
  simp only [ScheduleRecord.ofText, hsolved]
  rw [← htext] at hparse
  cases hitems : parseItems sec mnt hrs day mon yer dow with
  | error e =>
      rw [hitems] at hparse
      change (if line s c m = "" then _ else _) = _
      rw [if_neg hline, hparse]
      rfl
  | ok p =>
      rw [hitems] at hparse
      change (if line s c m = "" then _ else _) = _
      rw [if_neg hline, hparse]
      change Except.ok (ScheduleRecord.ofPattern rand _ _ p) = _
      simp only [Option.getD_some, hclient, htask, hmessage, String.ofList_toList]
      rfl

/-! ## Agreement -/

def divergent : List String := ["@reboot", "@weekly", "@daily", "@hourly", "@minutely"]

/-- A nickname in a line is refused, as the line is not the nickname. -/
theorem ofText_nickname (now rand : ℤ) {s : String} (hs : s ∈ nicknames.map Prod.fst)
    (c m : String) : ∃ e, ScheduleRecord.ofText now rand (line s c m) = .error e := by
  have hat : ∀ s ∈ nicknames.map Prod.fst, s.toList = '@' :: s.toList.tail := by decide
  obtain ⟨e, he⟩ := solveNickname_of_blank (toList_line_of_head (hat s hs) c m)
    (exists_blank_line s c m)
  exact ⟨e, ofText_of_error he⟩

/-- Whether the pattern a time specification stands for is accepted. -/
def specAccepted (s : String) : Bool :=
  match solveNickname s with
  | .error _ => false
  | .ok pattern => pattern = "" || (parsePattern pattern.toList).isOk

/-- `@yearly`, `@annually` and `@monthly` ask for day zero. -/
theorem specAccepted_nickname :
    ∀ s ∈ nicknames.map Prod.fst, specAccepted s = true ↔ s ∈ divergent := by
  decide

theorem ofJson_isOk (env : Env) (now rand : ℤ) {s c m : String} (hs : '\x00' ∉ s.toList)
    (hc : '\x00' ∉ c.toList) (hm : '\x00' ∉ m.toList) :
    (ScheduleRecord.ofJson env now rand (element s c m)).isOk = specAccepted s := by
  rw [ofJson_element env now rand hs hc hm, specAccepted]
  cases hsolved : solveNickname s with
  | error e => rfl
  | ok pattern =>
      by_cases hempty : pattern = ""
      · subst hempty
        rfl
      · change (if pattern = "" then _ else _ : Except Failure ScheduleRecord).isOk = _
        have hright : (decide (pattern = "") || (parsePattern pattern.toList).isOk) =
            (parsePattern pattern.toList).isOk := by
          rw [decide_eq_false hempty, Bool.false_or]
        rw [if_neg hempty]
        refine Eq.trans ?_ hright.symm
        cases hparse : parsePattern pattern.toList with
        | error e => rfl
        | ok parsed => rfl

theorem Agree.error_left {e : Failure} {b : Except Failure ScheduleRecord} :
    Agree (.error e) b ↔ b.isOk = false := by
  cases b with
  | error e' => exact ⟨fun _ ↦ rfl, fun _ ↦ trivial⟩
  | ok r => exact ⟨False.elim, fun h ↦ absurd h (by simp [Except.isOk, Except.toBool])⟩

theorem exists_seven {β : Type} {ws : List β} (h : ws.length = 7) :
    ∃ sec mnt hrs day mon yer dow, ws = [sec, mnt, hrs, day, mon, yer, dow] := by
  rcases ws with _ | ⟨sec, _ | ⟨mnt, _ | ⟨hrs, _ | ⟨day, _ | ⟨mon, _ | ⟨yer, _ | ⟨dow, _ |
    ⟨extra, more⟩⟩⟩⟩⟩⟩⟩⟩ <;> simp at h ⊢

/-- Seven tokens behind an `@` are refused in both forms. -/
theorem refused_of_at (env : Env) (now rand now' rand' : ℤ) {s c m : String} {rest : List Char}
    (hs : 1 < (fields isSpace s.toList).length) (hat : s.toList = '@' :: rest)
    (hsnul : '\x00' ∉ s.toList) (hcnul : '\x00' ∉ c.toList) (hmnul : '\x00' ∉ m.toList) :
    Agree (ScheduleRecord.ofText now rand (line s c m))
      (ScheduleRecord.ofJson env now' rand' (element s c m)) := by
  obtain ⟨e, he⟩ := solveNickname_of_blank hat (exists_sep_of_length_fields hs)
  obtain ⟨e', he'⟩ := solveNickname_of_blank (toList_line_of_head hat c m) (exists_blank_line s c m)
  rw [ofText_of_error he', ofJson_element env now' rand' hsnul hcnul hmnul, he]
  trivial

/-- Seven tokens give the same record in both forms. -/
theorem agree_of_tokens (env : Env) (now rand now' rand' : ℤ) {s c m : String}
    (hs : (fields isSpace s.toList).length = 7) (hne : c.toList ≠ [])
    (hc : ∀ d ∈ c.toList, isSpace d = false) (hm : '|' ∉ m.toList)
    (hnul : '\x00' ∉ (line s c m).toList) :
    Agree (ScheduleRecord.ofText now rand (line s c m))
      (ScheduleRecord.ofJson env now' rand' (element s c m)) := by
  rw [toList_line] at hnul
  simp only [List.mem_append, List.mem_cons, not_or] at hnul
  obtain ⟨first, rest, hhead⟩ : ∃ first rest, s.toList = first :: rest := by
    apply List.exists_cons_of_ne_nil
    intro hnil
    simp [hnil] at hs
  by_cases hat : first = '@'
  · subst hat
    exact refused_of_at env now rand now' rand' (by omega) hhead hnul.1.1 hnul.1.2.2 hnul.2.2
  · have hsolved := solveNickname_of_head hhead hat
    have hline := solveNickname_of_head (toList_line_of_head hhead c m) hat
    obtain ⟨sec, mnt, hrs, day, mon, yer, dow, hfields⟩ := exists_seven hs
    have htext := ofText_line now rand hfields hline hne hc hm
    have hjson := ofJson_element env now' rand' hnul.1.1 hnul.1.2.2 hnul.2.2
    obtain ⟨s', -, hparse⟩ := parsePattern_of_fields (t := []) hfields (by simp)
    rw [List.append_nil] at hparse
    have hspec : s ≠ "" := by
      rintro rfl
      simp at hhead
    rw [htext, hjson, hsolved]
    change Agree _ (if s = "" then _ else _)
    rw [if_neg hspec, hparse]
    cases parseItems sec mnt hrs day mon yer dow with
    | error e => trivial
    | ok p =>
        refine ⟨rfl, rfl, rfl, rfl, rfl, rfl, rfl, rfl, rfl, ?_⟩
        change withoutBlanks (" " ++ m) = withoutBlanks m
        simp [withoutBlanks]

/-- The two forms agree on every specification but the nicknames with a pattern that
is accepted. -/
theorem formats_agree_iff (env : Env) (now rand now' rand' : ℤ) {s c m : String}
    (hs : TimeSpec s) (hne : c.toList ≠ []) (hc : ∀ d ∈ c.toList, isSpace d = false)
    (hm : '|' ∉ m.toList) (hread : ReadFromTasks (line s c m)) :
    Agree (ScheduleRecord.ofText now rand (line s c m))
        (ScheduleRecord.ofJson env now' rand' (element s c m)) ↔
      s ∉ divergent := by
  have hnul := hread.nul_notMem
  rcases hs with hs | hs
  · obtain ⟨e, he⟩ := ofText_nickname now rand hs c m
    rw [toList_line] at hnul
    simp only [List.mem_append, List.mem_cons, not_or] at hnul
    rw [he, Agree.error_left, ofJson_isOk env now' rand' hnul.1.1 hnul.1.2.2 hnul.2.2,
      ← specAccepted_nickname s hs, Bool.not_eq_true]
  · have hagree := agree_of_tokens env now rand now' rand' hs hne hc hm hnul
    refine iff_of_true hagree fun hmem ↦ ?_
    have hone : ∀ s ∈ divergent, (fields isSpace s.toList).length ≠ 7 := by decide
    exact hone s hmem hs

theorem readFromTasks_of_nul_notMem {rec : String} (h : '\x00' ∉ rec.toList) :
    ReadFromTasks rec := by
  refine ⟨.object [("Tasks", .array [.string rec])], [rec], ?_, by simp⟩
  have hread : getMemberAsVector assertIsString "Tasks"
      (.object [("Tasks", .array [.string rec])]) = .ok [cString rec] := rfl
  rw [hread, cString_eq_self h]

theorem formats_agree_iff_daily :
    Agree (ScheduleRecord.ofText 0 7 (line "@daily" "svc" "ping"))
        (ScheduleRecord.ofJson epochDay 0 7 (element "@daily" "svc" "ping")) ↔
      "@daily" ∉ divergent :=
  formats_agree_iff epochDay 0 7 0 7 (.inl (by decide)) (by decide) (by decide) (by decide)
    (readFromTasks_of_nul_notMem (by decide))

/-- `@daily` in a line is refused, in an element it is midnight of every day. -/
theorem formats_disagree_on_daily :
    ¬∀ (env : Env) (now rand now' rand' : ℤ) (s c m : String), TimeSpec s → c.toList ≠ [] →
      (∀ d ∈ c.toList, isSpace d = false) → '|' ∉ m.toList → ReadFromTasks (line s c m) →
        Agree (ScheduleRecord.ofText now rand (line s c m))
          (ScheduleRecord.ofJson env now' rand' (element s c m)) := by
  intro hclaim
  have hagree := hclaim epochDay 0 7 0 7 "@daily" "svc" "ping" (.inl (by decide)) (by decide)
    (by decide) (by decide) (readFromTasks_of_nul_notMem (by decide))
  obtain ⟨e, he⟩ := ofText_nickname 0 7 (s := "@daily") (by decide) "svc" "ping"
  have hjson := ofJson_isOk epochDay 0 7 (s := "@daily") (c := "svc") (m := "ping") (by decide)
    (by decide) (by decide)
  rw [he, Agree.error_left, hjson] at hagree
  exact absurd hagree (by decide)

end IqrfDaemon.Scheduler
