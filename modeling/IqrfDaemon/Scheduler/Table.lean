import Mathlib.Data.List.Perm.Basic
import IqrfDaemon.Scheduler.Timer

/-!
# Malformed entries of the task table

`updateConfiguration` constructs a record from every entry of the table and adds
those it has.  A line that cannot be parsed is skipped by itself, but the JSON
elements share one handler around their loop, and the lines share one check of
their types before it.
-/

namespace IqrfDaemon.Scheduler

open Json Json.Jutils Transition

/-! ## What an addition is -/

/-- The records `rs` join both indexes, each once and under a new position, and nothing
else changes. -/
structure Store.Adds (s : Store) (rs : List ScheduleRecord) (t : Store) : Prop where
  length : t.records.length = s.records.length + rs.length
  old : ∀ id < s.records.length, t.record id = s.record id
  new : ∀ i (h : i < rs.length), ∃ started handle,
    t.record (s.records.length + i) = ((rs.get ⟨i, h⟩).setStarted started).setHandle handle
  byTime : t.byTime.values.Perm (s.byTime.values ++ List.range' s.records.length rs.length)
  byHandle : (t.byHandle.entries.map Sigma.snd).Perm
    (s.byHandle.entries.map Sigma.snd ++ List.range' s.records.length rs.length)

namespace Store

theorem Adds.nil (s : Store) : s.Adds [] s where
  length := rfl
  old _ _ := rfl
  new _ h := absurd h (Nat.not_lt_zero _)
  byTime := by simp
  byHandle := by simp

theorem values_insertRecord (s : Store) (tp : ℤ) (r : ScheduleRecord) (handle : ℤ) :
    (s.insertRecord tp r handle).byTime.values.Perm (s.records.length :: s.byTime.values) :=
  Container.Multimap.values_insert_perm _ _ _

theorem handles_insertRecord {s : Store} {handle : ℤ} (hfree : s.byHandle.lookup handle = none)
    (tp : ℤ) (r : ScheduleRecord) :
    (s.insertRecord tp r handle).byHandle.entries.map Sigma.snd =
      s.records.length :: s.byHandle.entries.map Sigma.snd := by
  have hnew : handle ∉ s.byHandle := AList.lookup_eq_none.mp hfree
  rw [insertRecord, AList.entries_insert_of_notMem hnew, List.map_cons]

/-- One record enters, then the others. -/
theorem Adds.cons {s t : Store} {r : ScheduleRecord} {rs : List ScheduleRecord} {handle : ℤ}
    (hfree : s.byHandle.lookup handle = none) (tp : ℤ) (started : Bool)
    (h : (s.insertRecord tp (r.setStarted started) handle).Adds rs t) : s.Adds (r :: rs) t := by
  obtain ⟨hlength, hold, hnew, htime, hhandle⟩ := h
  rw [length_insertRecord] at hlength hold
  have hrange : List.range' s.records.length (r :: rs).length =
      s.records.length :: List.range' (s.records.length + 1) rs.length := by
    rw [List.length_cons, List.range'_succ]
  refine ⟨?_, ?_, ?_, ?_, ?_⟩
  · rw [hlength, List.length_cons]
    omega
  · intro id hid
    rw [hold id (by omega), record_insertRecord hid]
  · intro i hi
    cases i with
    | zero =>
        refine ⟨started, handle, ?_⟩
        rw [Nat.add_zero, hold _ (by omega), record_insertRecord_new]
        rfl
    | succ i =>
        obtain ⟨b, k, hk⟩ := hnew i (by simpa using hi)
        rw [length_insertRecord, Nat.add_right_comm, Nat.add_assoc] at hk
        exact ⟨b, k, hk⟩
  · rw [length_insertRecord] at htime
    rw [hrange]
    refine htime.trans (((values_insertRecord s tp _ handle).append_right _).trans ?_)
    exact List.perm_middle.symm
  · rw [length_insertRecord, handles_insertRecord hfree] at hhandle
    rw [hrange]
    exact hhandle.trans List.perm_middle.symm

theorem adds_of_addScheduleRecords {env : Env} {choices : List (ℤ × List ℤ)}
    {rs : List ScheduleRecord} {s t : Store} (h : addScheduleRecords env choices rs s = some t) :
    s.Adds rs t := by
  induction rs generalizing choices s with
  | nil =>
      obtain rfl : s = t := by simpa [addScheduleRecords, addScheduleRecordsWith] using h
      exact .nil s
  | cons r rest ih =>
      cases choices with
      | nil => cases h
      | cons choice choices =>
          obtain ⟨now, rands⟩ := choice
          obtain ⟨u, hu, hrest⟩ := Option.bind_eq_some_iff.mp h
          obtain ⟨tp, b, handle, hunique, rfl⟩ :=
            addScheduleRecordUnlocked_eq_some lawfulNext_getNext hu
          exact .cons (uniqueHandle_free hunique) tp b (ih hrest)

/-- Two lists of records added in the same step are equally long. -/
theorem Adds.length_eq {s t : Store} {rs rs' : List ScheduleRecord} (h : s.Adds rs t)
    (h' : s.Adds rs' t) : rs.length = rs'.length := by
  have hlength := h.length
  have hlength' := h'.length
  omega

end Store

/-! ## The entries of a table -/

/-- The array that a configuration document has for the scheduler: lines of text, or
JSON elements. -/
inductive Table
  | tasks (items : List Value)
  | tasksJson (items : List Value)

namespace Table

/-- The document has this table; `TasksJson` goes before `Tasks`. -/
def In (cfg : Value) : Table → Prop
  | tasks items => ∃ members, cfg = .object members ∧ members.lookup "TasksJson" = none ∧
      members.lookup "Tasks" = some (.array items)
  | tasksJson items => ∃ members, cfg = .object members ∧
      members.lookup "TasksJson" = some (.array items) ∧ ∀ v ∈ items, ∃ fields, v = .object fields

/-- The construction of a record from one entry alone. -/
def construct (env : Env) (now rand : ℤ) : Table → Value → Except Failure ScheduleRecord
  | tasks _, v => assertIsString "Tasks" v >>= ScheduleRecord.ofText now rand
  | tasksJson _, v => ScheduleRecord.ofJson env now rand v

def items : Table → List Value
  | tasks items => items
  | tasksJson items => items

/-- What becomes of each entry by itself. -/
def results (env : Env) (clock rand : ℕ → ℤ) (table : Table) :
    List (Except Failure ScheduleRecord) :=
  table.items.mapIdx fun n v ↦ table.construct env (clock n) (rand n) v

/-- The records of the entries whose own construction does not throw. -/
def ownRecords (env : Env) (clock rand : ℕ → ℤ) (table : Table) : List ScheduleRecord :=
  (table.results env clock rand).filterMap Except.toOption

end Table

/-! ## What the constructors throw -/

theorem logicOnly_stoi (s : List Char) : LogicOnly (stoi s) := by
  simp only [stoi]
  split_ifs <;> first | exact .error rfl | exact .pure _

theorem logicOnly_pushListed {mnm mxm offset : ℤ} (fuel : ℕ) (substr : List Char)
    (vec : List ℤ) : LogicOnly (pushListed mnm mxm offset fuel substr vec) := by
  induction fuel generalizing substr vec with
  | zero => exact .error rfl
  | succ fuel ih =>
      rw [pushListed]
      split
      case h_1 e hstoi => exact .error (logicOnly_stoi substr e hstoi)
      case h_2 val position hstoi =>
        split
        · exact .error rfl
        · split
          · exact .pure _
          · exact ih _ _

theorem logicOnly_parseItem (item : List Char) (mnm mxm : ℤ) (vec : List ℤ) (offset : ℤ) :
    LogicOnly (parseItem item mnm mxm vec offset) := by
  have hpush : LogicOnly (pushItem item mnm mxm vec offset) := by
    rw [pushItem]
    split
    · exact .pure _
    split
    · split
      · exact .error rfl
      · split
        case h_1 e hstoi => exact .error (logicOnly_stoi _ e hstoi)
        case h_2 =>
          split
          · exact .error rfl
          · exact .pure _
    split
    · split
      case h_1 e hlist => exact .error (logicOnly_pushListed _ _ _ e hlist)
      case h_2 => exact .pure _
    · split
      case h_1 e hstoi => exact .error (logicOnly_stoi _ e hstoi)
      case h_2 =>
        split
        · exact .error rfl
        · exact .pure _
  rw [parseItem]
  split
  case h_1 e he => exact .error (hpush e he)
  case h_2 => exact .pure _

theorem logicOnly_solveNickname (timeSpec : String) : LogicOnly (solveNickname timeSpec) := by
  rw [solveNickname]
  split
  · exact .error rfl
  · split
    · exact .pure _
    · exact .error rfl
  · exact .pure _

theorem logicOnly_parsePattern (input : List Char) : LogicOnly (parsePattern input) := by
  simp only [parsePattern]
  split
  case h_1 e he => exact .error (logicOnly_parseItem _ _ _ _ _ e he)
  case h_2 =>
    refine (logicOnly_parseItem _ _ _ _ _).bind fun _ ↦ ?_
    refine (logicOnly_parseItem _ _ _ _ _).bind fun _ ↦ ?_
    refine (logicOnly_parseItem _ _ _ _ _).bind fun _ ↦ ?_
    refine (logicOnly_parseItem _ _ _ _ _).bind fun _ ↦ ?_
    refine (logicOnly_parseItem _ _ _ _ _).bind fun _ ↦ ?_
    exact (logicOnly_parseItem _ _ _ _ _).bind fun _ ↦ .pure _

theorem logicOnly_ofText (now rand : ℤ) (rec : String) :
    LogicOnly (ScheduleRecord.ofText now rand rec) := by
  rw [ScheduleRecord.ofText]
  refine (logicOnly_solveNickname rec).bind fun recStr ↦ ?_
  split
  · exact .pure _
  · exact (logicOnly_parsePattern _).bind fun _ ↦ .pure _

theorem logicOnly_ofJson (env : Env) (now rand : ℤ) (fields : List (String × Value)) :
    LogicOnly (ScheduleRecord.ofJson env now rand (.object fields)) := by
  have hmessage : LogicOnly (ScheduleRecord.messageText env (.object fields)) := by
    rw [ScheduleRecord.messageText]
    refine LogicOnly.bind (.pure (fields.lookup "message")) fun found ↦ ?_
    split
    · exact .pure _
    · exact .pure _
    · exact .pure _
    · exact .error rfl
  rw [ScheduleRecord.ofJson]
  refine (logicOnly_getMemberAs logicOnly_assertIsString "time").bind fun tmr ↦ ?_
  refine (logicOnly_solveNickname tmr).bind fun pattern ↦ ?_
  split
  · refine (logicOnly_getMemberAs logicOnly_assertIsString "service").bind fun clientId ↦ ?_
    exact hmessage.bind fun _ ↦ .pure _
  · refine (logicOnly_parsePattern _).bind fun _ ↦ ?_
    refine (logicOnly_getMemberAs logicOnly_assertIsString "service").bind fun clientId ↦ ?_
    exact hmessage.bind fun _ ↦ .pure _

/-! ## What the loops keep -/

/-- The loop over the JSON elements keeps those before the first one that throws. -/
theorem jsonRecords_eq (env : Env) (clock rand : ℕ → ℤ) (n : ℕ) {items : List Value}
    (hobjects : ∀ v ∈ items, ∃ fields, v = .object fields) :
    jsonRecords env clock rand n items = .ok
      (((items.mapIdx fun k v ↦
        ScheduleRecord.ofJson env (clock (n + k)) (rand (n + k)) v).takeWhile
          Except.isOk).filterMap Except.toOption) := by
  induction items generalizing n with
  | nil => rfl
  | cons v rest ih =>
      obtain ⟨fields, rfl⟩ := hobjects v (by simp)
      have hrest := ih (n + 1) fun w hw ↦ hobjects w (by simp [hw])
      have hlogic := logicOnly_ofJson env (clock n) (rand n) fields
      rw [jsonRecords, List.mapIdx_cons, Nat.add_zero]
      cases hrec : ScheduleRecord.ofJson env (clock n) (rand n) (.object fields) with
      | ok r =>
          simp only [hrest, Nat.add_assoc, Nat.add_comm 1]
          rfl
      | error e =>
          cases e with
          | abort => cases hlogic _ hrec
          | logicError what => rfl
          | exception what => rfl

/-- The loop over the lines keeps those that do not throw. -/
theorem textRecords_eq (clock rand : ℕ → ℤ) (n : ℕ) (lines : List String) :
    textRecords clock rand n lines = .ok
      ((lines.mapIdx fun k rec ↦ ScheduleRecord.ofText (clock (n + k)) (rand (n + k)) rec).filterMap
        Except.toOption) := by
  induction lines generalizing n with
  | nil => rfl
  | cons rec rest ih =>
      have hrest := ih (n + 1)
      have hlogic := logicOnly_ofText (clock n) (rand n) rec
      rw [textRecords, List.mapIdx_cons, Nat.add_zero]
      simp only [Nat.add_assoc, Nat.add_comm 1] at hrest
      cases hrec : ScheduleRecord.ofText (clock n) (rand n) rec with
      | ok r =>
          simp only [hrest]
          rfl
      | error e =>
          cases e with
          | abort => cases hlogic _ hrec
          | logicError what =>
              simp only [hrest]
              rfl
          | exception what =>
              simp only [hrest]
              rfl

theorem mapM_assertIsString_iff (name : String) (items : List Value) :
    (∃ lines, items.mapM (assertIsString name) = .ok lines) ↔
      ∀ v ∈ items, ∃ s, v = .string s := by
  induction items with
  | nil => simp [pure, Except.pure]
  | cons v rest ih =>
      rw [List.mapM_cons]
      constructor
      · rintro ⟨lines, h⟩
        obtain ⟨first, hfirst, h⟩ := exists_ok_of_bind h
        obtain ⟨more, hmore, -⟩ := exists_ok_of_bind h
        intro w hw
        rcases List.mem_cons.mp hw with rfl | hw
        · cases w with
          | string s => exact ⟨s, rfl⟩
          | _ => cases hfirst
        · exact ih.mp ⟨more, hmore⟩ w hw
      · intro hall
        obtain ⟨s, rfl⟩ := hall v (by simp)
        obtain ⟨more, hmore⟩ := ih.mpr fun w hw ↦ hall w (by simp [hw])
        exact ⟨cString s :: more, by rw [hmore]; rfl⟩

theorem mapIdx_assertIsString {name : String} {items : List Value} {lines : List String}
    (h : items.mapM (assertIsString name) = .ok lines)
    (f : ℕ → String → Except Failure ScheduleRecord) :
    (items.mapIdx fun k v ↦ assertIsString name v >>= f k) = lines.mapIdx f := by
  induction items generalizing lines f with
  | nil =>
      obtain rfl := Except.ok.inj h
      rfl
  | cons v rest ih =>
      rw [List.mapM_cons] at h
      obtain ⟨first, hfirst, h⟩ := exists_ok_of_bind h
      obtain ⟨more, hmore, h⟩ := exists_ok_of_bind h
      obtain rfl := Except.ok.inj h
      rw [List.mapIdx_cons, List.mapIdx_cons, hfirst, ih hmore fun k ↦ f (k + 1)]
      rfl

namespace Table

variable {env : Env} {cfg : Value} (clock rand : ℕ → ℤ)

theorem configuredRecords_tasksJson {items : List Value} (hcfg : (tasksJson items).In cfg) :
    configuredRecords env cfg clock rand = .ok
      ((((tasksJson items).results env clock rand).takeWhile Except.isOk).filterMap
        Except.toOption) := by
  obtain ⟨members, rfl, hlookup, hobjects⟩ := hcfg
  have hjson := jsonRecords_eq env clock rand 0 hobjects
  simp only [Nat.zero_add] at hjson
  simp only [configuredRecords, findMember, hlookup]
  exact hjson

theorem configuredRecords_tasks {items : List Value} (hcfg : (tasks items).In cfg) :
    configuredRecords env cfg clock rand =
      items.mapM (assertIsString "Tasks") >>= textRecords clock rand 0 := by
  obtain ⟨members, rfl, hjson, htasks⟩ := hcfg
  have hvector : getMemberAsVector assertIsString "Tasks" (.object members) =
      items.mapM (assertIsString "Tasks") := by
    simp only [getMemberAsVector, getMember, findMember, htasks]
    rfl
  simp only [configuredRecords, findMember, hjson, hvector]
  rfl

/-- If every entry is a string, the records of the lines are the entries' own. -/
theorem configuredRecords_of_strings {items : List Value} (hcfg : (tasks items).In cfg)
    (hstrings : ∀ v ∈ items, ∃ s, v = .string s) :
    configuredRecords env cfg clock rand = .ok ((tasks items).ownRecords env clock rand) := by
  obtain ⟨lines, hlines⟩ := (mapM_assertIsString_iff "Tasks" items).mpr hstrings
  have htext := textRecords_eq clock rand 0 lines
  simp only [Nat.zero_add] at htext
  rw [configuredRecords_tasks clock rand hcfg, hlines]
  refine htext.trans ?_
  rw [← mapIdx_assertIsString hlines fun k ↦ ScheduleRecord.ofText (clock k) (rand k)]
  rfl

theorem configuredRecords_of_not_strings {items : List Value} (hcfg : (tasks items).In cfg)
    (hstrings : ¬∀ v ∈ items, ∃ s, v = .string s) :
    ∃ what, configuredRecords env cfg clock rand = .error (.logicError what) := by
  rw [configuredRecords_tasks clock rand hcfg]
  cases hlines : items.mapM (assertIsString "Tasks") with
  | ok lines => exact absurd ((mapM_assertIsString_iff "Tasks" items).mp ⟨lines, hlines⟩) hstrings
  | error e =>
      have hlogic := LogicOnly.mapM (logicOnly_assertIsString "Tasks") items e hlines
      cases e with
      | logicError what => exact ⟨what, rfl⟩
      | exception what => cases hlogic
      | abort => cases hlogic

end Table

/-! ## When malformed entries do not affect the others -/

/-- No entry that throws stands before one that does not, or, among lines, every entry
is a string if any of them has a record. -/
def Table.Isolates (env : Env) (clock rand : ℕ → ℤ) : Table → Prop
  | .tasks items => (∀ v ∈ items, ∃ s, v = .string s) ∨
      ∀ x ∈ (Table.tasks items).results env clock rand, x.isOk = false
  | .tasksJson items =>
      ∀ x ∈ ((Table.tasksJson items).results env clock rand).dropWhile Except.isOk, x.isOk = false

theorem filterMap_toOption_eq_nil_iff {results : List (Except Failure ScheduleRecord)} :
    results.filterMap Except.toOption = [] ↔ ∀ x ∈ results, x.isOk = false := by
  rw [List.filterMap_eq_nil_iff]
  refine forall₂_congr fun x _ ↦ ?_
  cases x with
  | error e => exact iff_of_true rfl rfl
  | ok r => exact iff_of_false (by simp [Except.toOption]) (by simp [Except.isOk, Except.toBool])

/-- What stands before the first failure is everything exactly if nothing but failures
follows. -/
theorem filterMap_takeWhile_iff (results : List (Except Failure ScheduleRecord)) :
    ((results.takeWhile Except.isOk).filterMap Except.toOption).length =
        (results.filterMap Except.toOption).length ↔
      ∀ x ∈ results.dropWhile Except.isOk, x.isOk = false := by
  have hsplit : results.filterMap Except.toOption =
      (results.takeWhile Except.isOk).filterMap Except.toOption ++
        (results.dropWhile Except.isOk).filterMap Except.toOption := by
    rw [← List.filterMap_append, List.takeWhile_append_dropWhile]
  rw [← filterMap_toOption_eq_nil_iff, hsplit, List.length_append, ← List.length_eq_zero_iff]
  omega

theorem adds_of_step {env : Env} {s t : State} {cfg : Value} {clock rand : ℕ → ℤ}
    {rands : List (List ℤ)} {rs : List ScheduleRecord}
    (hrecords : configuredRecords env cfg clock rand = .ok rs)
    (hstep : (system env).step s (.add (.updateConfiguration cfg clock rand) rands) = some t) :
    s.store.Adds rs t.store := by
  have hadd : s.addStep env (.updateConfiguration cfg clock rand) rands = some t := hstep
  rw [State.addStep, Option.ite_none_right_eq_some, Request.records, hrecords] at hadd
  obtain ⟨store, hadded, rfl⟩ := Option.map_eq_some_iff.mp hadd.2
  exact Store.adds_of_addScheduleRecords hadded

theorem eq_of_refused {env : Env} {s t : State} {cfg : Value} {clock rand : ℕ → ℤ}
    {rands : List (List ℤ)} {what : String}
    (hrecords : configuredRecords env cfg clock rand = .error (.logicError what))
    (hstep : (system env).step s (.add (.updateConfiguration cfg clock rand) rands) = some t) :
    t = s := by
  have hadd : s.addStep env (.updateConfiguration cfg clock rand) rands = some t := hstep
  rw [State.addStep, Option.ite_none_right_eq_some, Request.records, hrecords] at hadd
  exact (Option.some.inj hadd.2).symm

/-- `updateConfiguration` adds exactly the records of the entries whose own construction
does not throw, if no failure stands before a success in the JSON table and nothing
but strings in the textual one. -/
theorem updateConfiguration_adds_iff (env : Env) (s t : State) (cfg : Value) (table : Table)
    (hcfg : table.In cfg) (clock rand : ℕ → ℤ) (rands : List (List ℤ))
    (hstep : (system env).step s (.add (.updateConfiguration cfg clock rand) rands) = some t) :
    s.store.Adds (table.ownRecords env clock rand) t.store ↔ table.Isolates env clock rand := by
  cases table with
  | tasksJson items =>
      have hadds := adds_of_step (Table.configuredRecords_tasksJson clock rand hcfg) hstep
      have hiff := filterMap_takeWhile_iff ((Table.tasksJson items).results env clock rand)
      constructor
      · intro hown
        exact hiff.mp (hadds.length_eq hown)
      · intro hisolates
        have hgood : (((Table.tasksJson items).results env clock rand).takeWhile
            Except.isOk).filterMap Except.toOption =
              (Table.tasksJson items).ownRecords env clock rand :=
          ((List.takeWhile_prefix _).filterMap _).eq_of_length (hiff.mpr hisolates)
        rwa [hgood] at hadds
  | tasks items =>
      by_cases hstrings : ∀ v ∈ items, ∃ s, v = .string s
      · exact iff_of_true
          (adds_of_step (Table.configuredRecords_of_strings clock rand hcfg hstrings) hstep)
          (Or.inl hstrings)
      · obtain ⟨what, herror⟩ := Table.configuredRecords_of_not_strings clock rand hcfg hstrings
        obtain rfl := eq_of_refused herror hstep
        constructor
        · intro hown
          have hlength := hown.length
          refine Or.inr (filterMap_toOption_eq_nil_iff.mp (List.length_eq_zero_iff.mp ?_))
          change ((Table.tasks items).ownRecords env clock rand).length = 0
          omega
        · rintro (hall | hnone)
          · exact absurd hall hstrings
          · have hnil : (Table.tasks items).ownRecords env clock rand = [] :=
              filterMap_toOption_eq_nil_iff.mpr hnone
            rw [hnil]
            exact .nil _

/-! ### One good element and one without members -/

def everyHour : Value :=
  .object [("time", .string "@hourly"), ("service", .string "client"), ("message", .string "task")]

def everyHourRecord : ScheduleRecord :=
  .ofPattern 7 "client" "task"
    { vsec := [0], vmin := [0], vhour := [-1], vmday := [-1], vmon := [-1], vyear := [-1]
      vwday := [-1], seconds_ok := Or.inr ⟨by decide, by simp [Listed]⟩ }

/-- A document with these elements. -/
def tasksJson (items : List Value) : Value := .object [("TasksJson", .array items)]

/-- The outcomes of `rand()` give the handle seven. -/
def configure (items : List Value) : Request :=
  .updateConfiguration (tasksJson items) (fun _ ↦ 0) (fun _ ↦ 7)

theorem in_tasksJson {items : List Value} (h : ∀ v ∈ items, ∃ fields, v = .object fields) :
    (Table.tasksJson items).In (tasksJson items) :=
  ⟨_, rfl, rfl, h⟩

theorem everyHour_objects :
    ∀ v ∈ [everyHour, .object []], ∃ fields, v = Value.object fields := by
  simp [everyHour]

def withEveryHour : State :=
  { State.create epochDay 0 with
    store := Store.empty.insertRecord (seconds 60) everyHourRecord 7
    adder := some .inserted }

theorem everyHour_added :
    (system epochDay).step (State.create epochDay 0)
      (.add (configure [everyHour, .object []]) [[]]) = some withEveryHour := by
  have hrecords : (configure [everyHour, .object []]).records epochDay = .ok [everyHourRecord] := by
    rfl
  have hstep : (system epochDay).step (State.create epochDay 0)
      (.add (configure [everyHour, .object []]) [[]]) =
        (State.create epochDay 0).addStep epochDay (configure [everyHour, .object []]) [[]] := rfl
  rw [hstep, State.addStep, hrecords]
  rfl

/-- A malformed element behind a good one does no harm. -/
theorem updateConfiguration_adds_iff_everyHour :
    Store.empty.Adds
        ((Table.tasksJson [everyHour, .object []]).ownRecords epochDay (fun _ ↦ 0) fun _ ↦ 7)
        withEveryHour.store ↔
      (Table.tasksJson [everyHour, .object []]).Isolates epochDay (fun _ ↦ 0) fun _ ↦ 7 :=
  updateConfiguration_adds_iff epochDay (State.create epochDay 0) withEveryHour
    (tasksJson [everyHour, .object []]) (.tasksJson [everyHour, .object []])
    (in_tasksJson everyHour_objects) (fun _ ↦ 0) (fun _ ↦ 7) [[]] everyHour_added

/-- A malformed element in front of a good one keeps it from being added. -/
theorem malformed_hides_next :
    ∃ (s t : State) (items : List Value), (system epochDay).Reachable s ∧
      (Table.tasksJson items).In (tasksJson items) ∧
      (system epochDay).step s (.add (configure items) []) = some t ∧
      ¬s.store.Adds ((Table.tasksJson items).ownRecords epochDay (fun _ ↦ 0) fun _ ↦ 7)
        t.store := by
  refine ⟨State.create epochDay 0, { State.create epochDay 0 with adder := some .inserted },
    [.object [], everyHour], .of_init ⟨_, rfl⟩, in_tasksJson (by simp [everyHour]), rfl, ?_⟩
  intro hadds
  have hlength := hadds.length
  have hown : ((Table.tasksJson [.object [], everyHour]).ownRecords epochDay
      (fun _ ↦ 0) fun _ ↦ 7).length = 1 := by rfl
  rw [hown] at hlength
  exact absurd hlength (by decide)

end IqrfDaemon.Scheduler
