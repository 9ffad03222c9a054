import IqrfDaemon.Scheduler.Cron
import IqrfDaemon.Scheduler.Sole

/-!
# When the one task of a client is due

A client that keeps one periodic task, such as the watch dog of the daemon, has one entry in
the time index.  No step of the others moves it.  The timer takes it out when the clock is
past it, and stores it again one period behind the reading of the clock.
-/

namespace IqrfDaemon.Scheduler

open Container Transition

variable {env : Env} {s t : State} {B : String} {p : Periodic} {a : Action}

/-! ## The log of the timer -/

/-- The firings pushed to the queue, and the one in the timer's hand. -/
def State.log (s : State) : List Firing := s.dispatched ++ s.timer.inHand

/-- The firings of a client behind the first `n` of the log. -/
def State.firingsFrom (s : State) (clientId : String) (n : ℕ) : List Firing :=
  (s.log.drop n).filter fun f ↦ (s.store.record f.record).clientId = clientId

theorem log_of_idle (hs : s.timer.inHand = []) (ht : t.timer.inHand = [])
    (h : t.dispatched = s.dispatched) : t.log = s.log := by
  rw [State.log, State.log, hs, ht, h]

theorem log_innerSection (hpc : s.timer = .locked) :
    s.innerSection.log = s.log ++
      ((s.store.due s.timePoint).map fun e ↦ ⟨e.2, e.1, s.reading⟩).toList := by
  cases hdue : s.store.due s.timePoint with
  | none => simp [State.log, State.innerSection, hpc, TimerPc.inHand, hdue]
  | some e => simp [State.log, State.innerSection, hpc, TimerPc.inHand, hdue]

/-- A step keeps the log, or drops a firing that does not fit its pattern, or takes out a record
that is due. -/
theorem Moves.log (h : Moves env s a t) :
    t.log = s.log ∨
      (∃ f, s.timer = .dispatch f ∧ s.log = t.log ++ [f] ∧
        (s.store.record f.record).verifyTimePattern s.timeStr = false) ∨
      ∃ e, s.timer = .locked ∧ s.store.due s.timePoint = some e ∧ t = s.innerSection ∧
        t.log = s.log ++ [⟨e.2, e.1, s.reading⟩] := by
  cases h with
  | dispatch f at_pc =>
      cases hverify : (s.store.record f.record).verifyTimePattern s.timeStr with
      | true =>
          left
          simp [State.log, State.dispatchStep, at_pc, TimerPc.inHand, hverify]
      | false =>
          refine Or.inr (Or.inl ⟨f, at_pc, ?_, hverify⟩)
          simp [State.log, State.dispatchStep, at_pc, TimerPc.inHand, hverify]
  | innerSection at_pc free =>
      have hlog := log_innerSection at_pc
      cases hdue : s.store.due s.timePoint with
      | none =>
          rw [hdue] at hlog
          exact Or.inl (hlog.trans (List.append_nil _))
      | some e =>
          rw [hdue] at hlog
          exact Or.inr (Or.inr ⟨e, at_pc, rfl, rfl, hlog⟩)
  | flag a pc adder pendingStops is_flag at_pc =>
      left
      rcases at_pc with ⟨-, rfl⟩ | ⟨hblocked, rfl⟩
      · rfl
      · exact log_of_idle (TimerPc.inHand_of_waiting (Or.inr hblocked)) rfl rfl
  | woken at_pc => exact Or.inl (log_of_idle (TimerPc.inHand_of_waiting (Or.inr at_pc)) rfl rfl)
  | sleep at_pc _ | wake at_pc _ =>
      exact Or.inl (log_of_idle (TimerPc.inHand_of_waiting at_pc) rfl rfl)
  | start at_pc | readStart at_pc | enter at_pc _ | leave at_pc _ | clear at_pc | readTime at_pc
  | enterInner at_pc _ | leaveInner at_pc _ =>
      exact Or.inl (log_of_idle (by rw [at_pc]; rfl) rfl rfl)
  | stop | tick | add | refused | addUnlock | remove => exact Or.inl rfl

theorem Moves.dispatched_prefix (h : Moves env s a t) : s.dispatched <+: t.dispatched := by
  cases h with
  | dispatch f at_pc =>
      simp only [State.dispatchStep]
      split
      · exact List.prefix_append _ _
      · exact List.prefix_rfl
  | _ => exact List.prefix_rfl

theorem mem_firedOf_iff {id : ℕ} :
    id ∈ s.firedOf B ↔ id ∈ s.log.map Firing.record ∧ (s.store.record id).clientId = B := by
  rw [State.firedOf, List.mem_filter, decide_eq_true_eq]
  rfl

/-- What holds of the records of a client, whether they are started or not, holds of those that
were fired. -/
theorem Moves.forall_firedOf {P : ScheduleRecord → Prop} (hP : ∀ r b, P r → P (r.setStarted b))
    (h : Moves env s a t) (hs : s.Accounted)
    (hfired : ∀ id ∈ s.firedOf B, P (s.store.record id))
    (hown : ∀ id, s.store.PendingOf B id → P (s.store.record id)) :
    ∀ id ∈ t.firedOf B, P (t.store.record id) := by
  intro id hid
  obtain ⟨hmem, hclient⟩ := mem_firedOf_iff.mp hid
  have hvalid : id ∈ s.log.map Firing.record ∨ s.store.pending id → id < s.store.records.length :=
    fun hknown ↦ hknown.elim (hs.known id) (hs.wf.valid id)
  have hof : id ∈ s.log.map Firing.record ∨ s.store.pending id → P (t.store.record id) := by
    intro hknown
    obtain ⟨-, b, hb⟩ := h.record hs.wf (hvalid hknown)
    have hclient : (s.store.record id).clientId = B := by
      rw [← h.clientId_record hs.wf (hvalid hknown)]
      exact hclient
    rw [hb]
    refine hP _ b ?_
    rcases hknown with hlog | hpending
    · exact hfired id (mem_firedOf_iff.mpr ⟨hlog, hclient⟩)
    · exact hown id ⟨hpending, hclient⟩
  rcases h.log with hlog | ⟨f, -, hlog, -⟩ | ⟨e, -, hdue, -, hlog⟩
  · exact hof (Or.inl (hlog ▸ hmem))
  · refine hof (Or.inl ?_)
    rw [hlog, List.map_append]
    exact List.mem_append_left _ hmem
  · rw [hlog, List.map_append] at hmem
    rcases List.mem_append.mp hmem with hmem | hmem
    · exact hof (Or.inl hmem)
    · obtain rfl := List.mem_singleton.mp hmem
      exact hof (Or.inr (Store.Wf.pending_due hdue))

/-! ## Before the timer is started -/

/-- A timer that is not started fires nothing. -/
theorem Moves.notStarted (h : Moves env s a t) (hstart : a ≠ .start)
    (hpc : s.timer = .notStarted) : t.timer = .notStarted ∧ t.dispatched = s.dispatched := by
  cases h with
  | start at_pc => exact absurd rfl hstart
  | flag a pc adder pendingStops is_flag at_pc =>
      rcases at_pc with ⟨-, rfl⟩ | ⟨hblocked, -⟩
      · exact ⟨hpc, rfl⟩
      · rw [hpc] at hblocked
        cases hblocked
  | stop | tick d | add request rands rs store free ok added | refused | addUnlock | remove =>
      exact ⟨hpc, rfl⟩
  | woken at_pc =>
      rw [hpc] at at_pc
      cases at_pc
  | sleep at_pc _ | wake at_pc _ =>
      rw [hpc] at at_pc
      rcases at_pc with at_pc | at_pc <;> cases at_pc
  | readStart at_pc | enter at_pc _ | leave at_pc _ | clear at_pc | readTime at_pc
  | enterInner at_pc _ | leaveInner at_pc _ | innerSection at_pc _ | dispatch f at_pc =>
      rw [hpc] at at_pc
      cases at_pc

theorem Moves.started (h : Moves env s a t) (hpc : s.timer ≠ .notStarted) :
    t.timer ≠ .notStarted := by
  cases h with
  | flag a pc adder pendingStops is_flag at_pc =>
      rcases at_pc with ⟨-, rfl⟩ | ⟨-, rfl⟩
      · exact hpc
      · exact TimerPc.noConfusion
  | innerSection at_pc free =>
      rcases innerSection_timer s with h | ⟨f, h⟩
      · rw [h]
        exact TimerPc.noConfusion
      · rw [h]
        exact TimerPc.noConfusion
  | stop | tick d | add request rands rs store free ok added | refused | addUnlock | remove =>
      exact hpc
  | _ => exact TimerPc.noConfusion

theorem Moves.now_eq (h : Moves env s a t) (htick : ∀ d, a ≠ .tick d) : t.now = s.now := by
  cases h with
  | tick d => exact absurd rfl (htick d)
  | _ => rfl

/-! ## The firings behind a point of the log -/

/-- The clients of the records in the log stay. -/
theorem Moves.filter_log (h : Moves env s a t) (hs : s.Accounted) {fs : List Firing}
    (hknown : ∀ f ∈ fs, f ∈ s.log) :
    (fs.filter fun f ↦ (t.store.record f.record).clientId = B) =
      fs.filter fun f ↦ (s.store.record f.record).clientId = B := by
  refine List.filter_congr fun f hf ↦ ?_
  rw [h.clientId_record hs.wf (hs.known f.record (List.mem_map_of_mem (hknown f hf)))]

theorem Moves.firingsFrom_append (h : Moves env s a t) (hs : s.Accounted) {new : List Firing}
    (hlog : t.log = s.log ++ new) {n : ℕ} (hn : n ≤ s.log.length) :
    t.firingsFrom B n = s.firingsFrom B n ++
      new.filter fun f ↦ (t.store.record f.record).clientId = B := by
  rw [State.firingsFrom, hlog, List.drop_append_of_le_length hn, List.filter_append,
    h.filter_log hs fun f hf ↦ List.mem_of_mem_drop hf]
  rfl

/-- A firing of another client leaves the timer's hand. -/
theorem Moves.firingsFrom_drop (h : Moves env s a t) (hs : s.Accounted) {f : Firing}
    (hlog : s.log = t.log ++ [f]) (hother : (s.store.record f.record).clientId ≠ B) {n : ℕ}
    (hn : n ≤ t.log.length) : t.firingsFrom B n = s.firingsFrom B n := by
  have hold : ∀ g ∈ t.log.drop n, g ∈ s.log := by
    intro g hg
    rw [hlog]
    exact List.mem_append_left _ (List.mem_of_mem_drop hg)
  rw [State.firingsFrom, State.firingsFrom, h.filter_log hs hold, hlog,
    List.drop_append_of_le_length hn, List.filter_append]
  simp [hother]

/-! ## The entry of the task -/

/-- The client has its one task under this time, what was fired of it recurs, and in the inner
loop it is compared with the reading of the clock or is not due. -/
structure Planned (clientId : String) (p : Periodic) (s : State) (key : ℤ) (id : ℕ) : Prop where
  sole : s.store.Sole clientId (some p)
  entry : (key, id) ∈ s.store.byTime.entries
  client : (s.store.record id).clientId = clientId
  periodic : ∀ i ∈ s.firedOf clientId, (s.store.record i).periodic = true
  fresh : s.timer.inner = true → s.timePoint = s.reading ∨ s.timePoint ≤ key

theorem Planned.pendingOf {key : ℤ} {id : ℕ} (h : Planned B p s key id) :
    s.store.PendingOf B id :=
  ⟨Store.pending_of_mem h.entry, h.client⟩

theorem Planned.runs {key : ℤ} {id : ℕ} (h : Planned B p s key id) :
    (s.store.record id).Runs p ∧ ∀ k, s.store.PendingOf B k → k = id := by
  obtain ⟨i, honly, hruns⟩ := h.sole
  obtain rfl := (honly id).mp h.pendingOf
  exact ⟨hruns, fun k ↦ (honly k).mp⟩

/-- Every entry of the client is this one. -/
theorem Planned.key_eq {key k : ℤ} {id i : ℕ} (h : Planned B p s key id) (hs : s.store.Wf)
    (hentry : (k, i) ∈ s.store.byTime.entries) (hclient : (s.store.record i).clientId = B) :
    k = key := by
  obtain rfl := h.runs.2 i ⟨Store.pending_of_mem hentry, hclient⟩
  exact hs.key_unique hentry h.entry

theorem Planned.getNext {key : ℤ} {id : ℕ} (h : Planned B p s key id) (hs : s.store.Wf) :
    ((s.store.record id).getNext s.timePoint s.timeStr).1 = s.timePoint + seconds p.period := by
  have hruns := h.runs.1
  have hstarted := hs.started id (hs.valid id (Store.pending_of_mem h.entry)) hruns.exactTime
    hruns.periodic
  simp [ScheduleRecord.getNext, hruns.exactTime, hruns.periodic, hstarted, hruns.period]

/-- The section that takes out the task: it is stored again one period behind the reading. -/
theorem Planned.taken {key : ℤ} {id : ℕ} (h : Planned B p s key id) (hs : s.store.Wf)
    (hperiod : 0 ≤ p.period) (hpc : s.timer = .locked)
    (hdue : s.store.due s.timePoint = some (key, id)) :
    key < s.reading ∧
      (s.reading + seconds p.period, id) ∈ s.innerSection.store.byTime.entries := by
  obtain ⟨rest, -, hlt⟩ := Store.due_eq_some hdue
  have hlt : key < s.timePoint := hlt
  have hpoint : s.timePoint = s.reading := by
    rcases h.fresh (by rw [hpc]; rfl) with hpoint | hle
    · exact hpoint
    · omega
  refine ⟨hpoint ▸ hlt, (mem_innerSection hdue).mpr (Or.inl ⟨?_, ?_⟩)⟩
  · rw [h.getNext hs]
    dsimp only [seconds]
    omega
  · rw [h.getNext hs, hpoint]

/-- Every other step leaves its entry where it is. -/
theorem Planned.kept {key : ℤ} {id : ℕ} (h : Planned B p s key id) (hs : s.store.Wf)
    (hmove : Moves env s a t) (hforeign : Foreign env B a)
    (hother : s.timer = .locked → t = s.innerSection →
      s.store.due s.timePoint ≠ some (key, id)) :
    (key, id) ∈ t.store.byTime.entries ∧
      (t.timer.inner = true → t.timePoint = t.reading ∨ t.timePoint ≤ key) := by
  have hmine : (key, id) ∈ s.store.entriesOf B :=
    List.mem_filter.mpr ⟨h.entry, decide_eq_true h.client⟩
  have hsame : ∀ {u : Store}, Store.SameFor B s.store u → (key, id) ∈ u.byTime.entries := by
    intro u hu
    rw [← hu.entries] at hmine
    exact (List.mem_filter.mp hmine).1
  cases hmove.effect with
  | quiet a t hquiet =>
      refine ⟨hquiet.store ▸ h.entry, fun hinner ↦ ?_⟩
      rcases hquiet.inner hinner with ⟨hpoint, -⟩ | ⟨hinner', hpoint, hreading⟩
      · exact Or.inl hpoint
      · rw [hpoint, hreading]
        exact h.fresh hinner'
  | add request rands rs store ok added =>
      exact ⟨hsame (hs.sameFor_addScheduleRecords (hforeign rs ok) added), h.fresh⟩
  | remove removal => exact ⟨hsame (hs.sameFor_remove hforeign), h.fresh⟩
  | locked at_pc =>
      cases hdue : s.store.due s.timePoint with
      | none =>
          have hstore : s.innerSection.store = s.store := Store.timerSection_of_due_none hdue
          refine ⟨hstore ▸ h.entry, fun hinner ↦ ?_⟩
          simp [State.innerSection, hdue, TimerPc.inner] at hinner
      | some e =>
          obtain ⟨rest, hentries, -⟩ := Store.due_eq_some hdue
          have hne : (key, id) ≠ e := by
            rintro rfl
            exact hother at_pc rfl hdue
          have htail : (key, id) ∈ s.store.byTime.entries.tail := by
            have hentry := h.entry
            rw [hentries] at hentry ⊢
            exact List.mem_of_ne_of_mem hne hentry
          have hentry := (mem_innerSection hdue).mpr (Or.inr htail)
          exact ⟨hentry, fun _ ↦ Or.inr (Store.nextWakeup_le _ hentry)⟩

/-- What a step of the others or of the timer does to the task: its entry and the client's
firings stay, or the timer takes it out, past its time, and stores it a period later. -/
theorem Planned.move {key : ℤ} {id : ℕ} (h : Planned B p s key id) (hs : s.Accounted)
    (hperiod : 0 ≤ p.period) (hmove : Moves env s a t) (hforeign : Foreign env B a) :
    (Planned B p t key id ∧
      ∀ n ≤ s.dispatched.length, t.firingsFrom B n = s.firingsFrom B n) ∨
      (s.timer = .locked ∧ t = s.innerSection ∧ key < s.reading ∧
        Planned B p t (s.reading + seconds p.period) id ∧
        ∀ n ≤ s.dispatched.length, t.firingsFrom B n = s.firingsFrom B n ++
          [⟨id, key, s.reading⟩]) := by
  have hsole : t.store.Sole B (some p) :=
    hmove.sole hs.wf hforeign h.sole fun q hq ↦ Option.mem_some_iff.mp hq ▸ hperiod
  have hclient : (t.store.record id).clientId = B :=
    (hmove.clientId_record hs.wf (hs.wf.valid id (Store.pending_of_mem h.entry))).trans h.client
  have hperiodic : ∀ i ∈ t.firedOf B, (t.store.record i).periodic = true := by
    refine hmove.forall_firedOf (P := fun r ↦ r.periodic = true) (fun _ _ h ↦ h) hs h.periodic ?_
    intro i hi
    obtain rfl := h.runs.2 i hi
    exact h.runs.1.periodic
  have hlength : ∀ n ≤ s.dispatched.length, n ≤ s.log.length := fun n hn ↦ by
    rw [State.log, List.length_append]
    omega
  by_cases htaken : s.timer = .locked ∧ t = s.innerSection ∧
    s.store.due s.timePoint = some (key, id)
  · obtain ⟨hpc, rfl, hdue⟩ := htaken
    obtain ⟨hlt, hentry⟩ := h.taken hs.wf hperiod hpc hdue
    refine Or.inr ⟨hpc, rfl, hlt,
      ⟨hsole, hentry, hclient, hperiodic, fun _ ↦ Or.inr (Store.nextWakeup_le _ hentry)⟩,
      fun n hn ↦ ?_⟩
    have hlog := log_innerSection hpc
    rw [hdue] at hlog
    rw [hmove.firingsFrom_append hs hlog (hlength n hn)]
    simp [hclient]
  · obtain ⟨hentry, hfresh⟩ := h.kept hs.wf hmove hforeign
      fun hpc heq hdue ↦ htaken ⟨hpc, heq, hdue⟩
    refine Or.inl ⟨⟨hsole, hentry, hclient, hperiodic, hfresh⟩, fun n hn ↦ ?_⟩
    rcases hmove.log with hlog | ⟨f, hpc, hlog, hverify⟩ | ⟨e, hpc, hdue, rfl, hlog⟩
    · have hnothing : t.log = s.log ++ [] := hlog.trans (List.append_nil _).symm
      rw [hmove.firingsFrom_append hs hnothing (hlength n hn)]
      exact List.append_nil _
    · -- what is dropped is no firing of the client, as those fit at any time
      refine hmove.firingsFrom_drop hs hlog (fun hf ↦ ?_) ?_
      · have hmem : f.record ∈ s.firedOf B :=
          mem_firedOf_iff.mpr ⟨List.mem_map_of_mem (by simp [hlog]), hf⟩
        simp [ScheduleRecord.verifyTimePattern, h.periodic _ hmem] at hverify
      · have hlog' : s.dispatched = t.log := by
          rw [State.log, hpc] at hlog
          exact List.append_inj_left' hlog rfl
        exact hlog' ▸ hn
    · have hother : (s.innerSection.store.record e.2).clientId ≠ B := by
        rw [hmove.clientId_record hs.wf (hs.wf.valid _ (Store.Wf.pending_due hdue))]
        intro hclient
        obtain ⟨rest, hentries, -⟩ := Store.due_eq_some hdue
        have hmem : (e.1, e.2) ∈ s.store.byTime.entries := by simp [hentries]
        have hid := h.runs.2 e.2 ⟨Store.pending_of_mem hmem, hclient⟩
        have hkey := h.key_eq hs.wf hmem hclient
        exact htaken ⟨hpc, rfl, hdue.trans (congrArg some (Prod.ext hkey hid))⟩
      rw [hmove.firingsFrom_append hs hlog (hlength n hn)]
      simp [hother]

/-- A task that is added before the timer runs is planned for its start time. -/
theorem planned_of_added {task : String} {sec tp rand now : ℤ} {rands : List (List ℤ)}
    {store : Store} {adder : Option AdderPhase} (hsole : s.store.Sole B none) (hs : s.store.Wf)
    (hout : s.timer.inner = false) (hfired : s.log = [])
    (hadd : Store.addScheduleRecords env (rands.map fun r ↦ (now, r))
      [.everyPeriod rand B task sec tp] s.store = some store) :
    Planned B ⟨s.store.returnedHandle store, task, sec⟩ { s with store := store, adder := adder } tp
      s.store.records.length := by
  refine ⟨hsole.scheduleTaskPeriodic hs hadd, ?_, ?_, fun i hi ↦ ?_, fun hinner ↦ ?_⟩
  · obtain ⟨handle, rfl⟩ := Store.insertRecord_of_everyPeriod hadd
    exact Store.mem_insertRecord.mpr (Or.inl rfl)
  · obtain ⟨handle, rfl⟩ := Store.insertRecord_of_everyPeriod hadd
    rw [Store.record_insertRecord_new]
    rfl
  · have hmem := (mem_firedOf_iff.mp hi).1
    change i ∈ s.log.map Firing.record at hmem
    rw [hfired] at hmem
    cases hmem
  · have hinner : s.timer.inner = true := hinner
    rw [hout] at hinner
    cases hinner

end IqrfDaemon.Scheduler
