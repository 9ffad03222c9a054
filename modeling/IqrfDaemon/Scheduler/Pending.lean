import IqrfDaemon.Scheduler.Firings

/-!
# The account of fired and removed records

A one-shot record has its entry in the time index until the timer takes it out and
none afterwards, and a removed record has none again either.  Both hold of every
section, however the next time of a record is computed.
-/

namespace IqrfDaemon.Scheduler

open Json Container Transition

variable {env : Env} {s t : State}

/-! ## Records keep their rule -/

theorem Store.record_addScheduleRecords {next : NextTime} {choices : List (ℤ × List ℤ)}
    {rs : List ScheduleRecord} {u v : Store}
    (h : Store.addScheduleRecordsWith next env choices rs u = some v) :
    u.records.length ≤ v.records.length ∧
      ∀ id < u.records.length, v.record id = u.record id := by
  refine Store.addScheduleRecordsWith_induction (P := fun v ↦
    u.records.length ≤ v.records.length ∧ ∀ id < u.records.length, v.record id = u.record id)
    h ⟨le_rfl, fun _ _ ↦ rfl⟩ ?_
  rintro v now r handle _ _ _ ⟨hlength, hrecord⟩
  rw [Store.length_insertRecord]
  refine ⟨by omega, fun id hid ↦ ?_⟩
  rw [Store.record_insertRecord (by omega)]
  exact hrecord id hid

/-- A periodic record enters the time index under its start time, and counts as started. -/
theorem Store.insertRecord_of_everyPeriod {clientId task : String} {sec tp rand now : ℤ}
    {rands : List (List ℤ)} {u v : Store}
    (h : Store.addScheduleRecords env (rands.map fun r ↦ (now, r))
      [.everyPeriod rand clientId task sec tp] u = some v) :
    ∃ handle, v = u.insertRecord tp
      ((ScheduleRecord.everyPeriod rand clientId task sec tp).setStarted true) handle := by
  cases rands with
  | nil => cases h
  | cons r rands =>
    obtain ⟨v', hv, hrest⟩ := Option.bind_eq_some_iff.mp h
    obtain rfl : v' = v := by simpa [Store.addScheduleRecordsWith] using hrest
    obtain ⟨handle, -, rfl⟩ := Option.map_eq_some_iff.mp hv
    exact ⟨handle, rfl⟩

theorem Moves.record (hs : s.store.Wf) {a : Action} (h : Moves env s a t) {id : ℕ}
    (hid : id < s.store.records.length) :
    id < t.store.records.length ∧
      ∃ b, t.store.record id = (s.store.record id).setStarted b := by
  have hsame : ∃ b, s.store.record id = (s.store.record id).setStarted b :=
    ⟨(s.store.record id).started, rfl⟩
  cases h.effect with
  | quiet a t hquiet =>
      rw [hquiet.store]
      exact ⟨hid, hsame⟩
  | locked at_pc =>
      refine ⟨?_, hs.record_timerSection _ _ id⟩
      change id < (s.store.timerSectionWith _ _ _).records.length
      rwa [Store.length_timerSectionWith]
  | add request rands rs store ok added =>
      obtain ⟨hlength, hrecord⟩ := Store.record_addScheduleRecords added
      refine ⟨by change id < store.records.length; omega, ?_⟩
      change ∃ b, store.record id = _
      rw [hrecord id hid]
      exact hsame
  | remove removal =>
      have hrecords := s.store.records_remove removal
      refine ⟨by change id < (s.store.remove removal).records.length; rwa [hrecords], ?_⟩
      change ∃ b, (s.store.remove removal).records.getD id default = _
      rw [hrecords]
      exact hsame

/-! ## The account of a store, what was fired from it and what was removed -/

structure Accounted (store : Store) (fired removed : List ℕ) : Prop where
  wf : store.Wf
  taken : ∀ id ∈ removed, id < store.records.length ∧ ¬ store.pending id
  known : ∀ id ∈ fired, id < store.records.length
  once : ∀ id, (store.record id).exactTime = true → fired.count id ≤ 1
  gone : ∀ id ∈ fired, (store.record id).exactTime = true → ¬ store.pending id

section Account

variable {store : Store} {fired removed : List ℕ} {next : NextTime}

theorem accounted_empty : Accounted Store.empty [] [] where
  wf := Store.wf_empty
  taken := by simp
  known := by simp
  once := by simp
  gone := by simp

theorem Accounted.sublist (hs : Accounted store fired removed) {less : List ℕ}
    (h : less.Sublist fired) : Accounted store less removed where
  wf := hs.wf
  taken := hs.taken
  known := fun id hid ↦ hs.known id (h.subset hid)
  once := fun id hexact ↦ (h.count_le id).trans (hs.once id hexact)
  gone := fun id hid ↦ hs.gone id (h.subset hid)

theorem Accounted.insertRecord (hs : Accounted store fired removed) {tp : ℤ}
    {r : ScheduleRecord} {h : ℤ} (hwf : (store.insertRecord tp r h).Wf) :
    Accounted (store.insertRecord tp r h) fired removed := by
  -- The new record is the only one that becomes pending.
  have hpending : ∀ id < store.records.length, (store.insertRecord tp r h).pending id →
      store.pending id := by
    intro id hlt hp
    exact (Store.pending_insertRecord.mp hp).resolve_left (Nat.ne_of_lt hlt)
  refine ⟨hwf, ?_, ?_, ?_, ?_⟩
  · intro id hid
    obtain ⟨hlt, hnot⟩ := hs.taken id hid
    rw [Store.length_insertRecord]
    exact ⟨by omega, fun hp ↦ hnot (hpending id hlt hp)⟩
  · intro id hid
    have hlt := hs.known id hid
    rw [Store.length_insertRecord]
    omega
  · intro id hexact
    by_cases hid : id ∈ fired
    · rw [Store.record_insertRecord (hs.known id hid)] at hexact
      exact hs.once id hexact
    · rw [List.count_eq_zero_of_not_mem hid]
      omega
  · intro id hid hexact hp
    have hlt := hs.known id hid
    rw [Store.record_insertRecord hlt] at hexact
    exact hs.gone id hid hexact (hpending id hlt hp)

theorem Accounted.addScheduleRecords (hs : Accounted store fired removed)
    (hnext : Store.LawfulNext next) {choices : List (ℤ × List ℤ)} {rs : List ScheduleRecord}
    {after : Store} (h : Store.addScheduleRecordsWith next env choices rs store = some after) :
    Accounted after fired removed := by
  refine Store.addScheduleRecordsWith_induction (P := fun u ↦ Accounted u fired removed) h hs ?_
  intro u now r handle _ _ hfree hu
  exact hu.insertRecord (hu.wf.insertNext hnext env now r hfree)

theorem Store.record_remove (removal : Removal) (id : ℕ) :
    (store.remove removal).record id = store.record id := by
  rw [Store.record, store.records_remove removal, Store.record]

theorem Store.Wf.targets_lt (hs : store.Wf) {removal : Removal} {id : ℕ}
    (hid : id ∈ store.targets removal) : id < store.records.length := by
  cases removal with
  | removeTask clientId hndl =>
      have hfind : store.findMyTask clientId hndl = some id := by simpa [Store.targets] using hid
      exact (hs.keyed hndl id (Store.findMyTask_eq_some.mp hfind).1).1
  | removeTasks clientId hndls =>
      obtain ⟨hndl, -, hfind⟩ := List.mem_filterMap.mp hid
      exact (hs.keyed hndl id (Store.findMyTask_eq_some.mp hfind).1).1
  | removeAllMyTasks clientId => exact hs.valid id (Store.mem_myTasks.mp hid).1

theorem Accounted.remove (hs : Accounted store fired removed) (removal : Removal) :
    Accounted (store.remove removal) fired (removed ++ store.targets removal) := by
  have hpending : ∀ id, (store.remove removal).pending id → store.pending id :=
    fun id hp ↦ ((hs.wf.pending_remove removal id).mp hp).1
  refine ⟨hs.wf.remove removal, ?_, ?_, ?_, ?_⟩
  · intro id hid
    rw [store.records_remove removal]
    rcases List.mem_append.mp hid with hid | hid
    · obtain ⟨hlt, hnot⟩ := hs.taken id hid
      exact ⟨hlt, fun hp ↦ hnot (hpending id hp)⟩
    · refine ⟨hs.wf.targets_lt hid, fun hp ↦ ?_⟩
      exact ((hs.wf.pending_remove removal id).mp hp).2 hid
  · intro id hid
    rw [store.records_remove removal]
    exact hs.known id hid
  · intro id hexact
    rw [Store.record_remove] at hexact
    exact hs.once id hexact
  · intro id hid hexact hp
    rw [Store.record_remove] at hexact
    exact hs.gone id hid hexact (hpending id hp)

theorem Accounted.timerSection_none {timePoint : ℤ} {timeStr : Tm}
    (hs : Accounted store fired removed) (hdue : store.due timePoint = none) :
    Accounted (store.timerSectionWith next timePoint timeStr) fired removed := by
  rw [Store.timerSectionWith_of_due_none hdue]
  exact hs

/-- The timer's section moves one due record to the fired ones. -/
theorem Accounted.timerSection (hs : Accounted store fired removed)
    (hnext : Store.LawfulNext next) {timePoint : ℤ} {timeStr : Tm} {e : ℤ × ℕ}
    (hdue : store.due timePoint = some e) :
    Accounted (store.timerSectionWith next timePoint timeStr) (fired ++ [e.2]) removed := by
  have hp := Store.Wf.pending_due hdue
  have hpending : ∀ k, (store.timerSectionWith next timePoint timeStr).pending k ↔ _ :=
    hs.wf.pending_timerSectionWith hdue
  have hexact : ∀ id, ((store.timerSectionWith next timePoint timeStr).record id).exactTime =
      (store.record id).exactTime := by
    intro id
    obtain ⟨b, hb⟩ := hs.wf.record_timerSectionWith hnext id
    rw [hb, ScheduleRecord.setStarted_exactTime]
  refine ⟨hs.wf.timerSectionWith hnext, ?_, ?_, ?_, ?_⟩
  · intro id hid
    obtain ⟨hlt, hnot⟩ := hs.taken id hid
    rw [Store.length_timerSectionWith]
    exact ⟨hlt, fun hafter ↦ hnot ((hpending id).mp hafter).1⟩
  · intro id hid
    rw [Store.length_timerSectionWith]
    rcases List.mem_append.mp hid with hid | hid
    · exact hs.known id hid
    · rw [List.mem_singleton.mp hid]
      exact hs.wf.valid e.2 hp
  · intro id hid
    rw [hexact] at hid
    rw [List.count_append]
    by_cases heq : id = e.2
    · subst heq
      have hnot : e.2 ∉ fired := fun hmem ↦ hs.gone e.2 hmem hid hp
      rw [List.count_eq_zero_of_not_mem hnot]
      simp
    · have hzero : [e.2].count id = 0 :=
        List.count_eq_zero_of_not_mem fun hmem ↦ heq (List.mem_singleton.mp hmem)
      rw [hzero]
      exact hs.once id hid
  · intro id hid hex hafter
    rw [hexact] at hex
    obtain ⟨hbefore, hle⟩ := (hpending id).mp hafter
    rcases List.mem_append.mp hid with hid | hid
    · exact hs.gone id hid hex hbefore
    · obtain rfl := List.mem_singleton.mp hid
      exact absurd (hle rfl) (not_le.mpr (hs.wf.next_lt_of_exact hnext hdue hex))

end Account

/-! ## Whole runs -/

def State.fired (s : State) : List ℕ := (s.dispatched ++ s.timer.inHand).map Firing.record

def State.Accounted (s : State) : Prop := Scheduler.Accounted s.store s.fired s.removed

theorem State.create_accounted (env : Env) (now : ℤ) : (State.create env now).Accounted :=
  accounted_empty

theorem State.Accounted.quiet (hs : s.Accounted) (h : Quiet s t) : t.Accounted := by
  rw [State.Accounted, h.store, h.removed]
  exact Scheduler.Accounted.sublist hs (h.log.map _)

/-- The locked section puts the record it takes out into the timer's hand. -/
theorem fired_of_locked (hpc : s.timer = .locked) (hdispatched : t.dispatched = s.dispatched)
    (hhand : t.timer.inHand.map Firing.record = (s.store.due s.timePoint).toList.map Prod.snd) :
    t.fired = s.fired ++ (s.store.due s.timePoint).toList.map Prod.snd := by
  rw [State.fired, hdispatched, List.map_append, hhand]
  simp [State.fired, hpc, TimerPc.inHand]

theorem State.Accounted.locked (hs : s.Accounted) {next : NextTime}
    (hnext : Store.LawfulNext next)
    (hfired : t.fired = s.fired ++ (s.store.due s.timePoint).toList.map Prod.snd)
    (hstore : t.store = s.store.timerSectionWith next s.timePoint s.timeStr)
    (hremoved : t.removed = s.removed) : t.Accounted := by
  rw [State.Accounted, hfired, hstore, hremoved]
  cases hdue : s.store.due s.timePoint with
  | none => simpa using Scheduler.Accounted.timerSection_none hs hdue
  | some e => exact Scheduler.Accounted.timerSection hs hnext hdue

theorem inHand_innerSection (s : State) : s.innerSection.timer.inHand.map Firing.record =
    (s.store.due s.timePoint).toList.map Prod.snd := by
  unfold State.innerSection
  cases s.store.due s.timePoint <;> rfl

theorem State.Accounted.move (hs : s.Accounted) {a : Action} (h : Moves env s a t) :
    t.Accounted := by
  cases h.effect with
  | quiet a t hquiet => exact hs.quiet hquiet
  | locked at_pc =>
      exact hs.locked Store.lawfulNext_getNext
        (fired_of_locked at_pc rfl (inHand_innerSection s)) rfl rfl
  | add request rands rs store ok added =>
      exact Scheduler.Accounted.addScheduleRecords hs Store.lawfulNext_getNext added
  | remove removal => exact Scheduler.Accounted.remove hs removal

theorem accounted_of_reachable (h : (system env).Reachable s) : s.Accounted := by
  refine System.Reachable.invariant ?_ ?_ h
  · rintro s ⟨now, rfl⟩
    exact State.create_accounted env now
  · intro s a t hs hstep
    exact hs.move (moves_of_step hstep)

/-- A record that is not there yet was never fired. -/
theorem firedAt_eq_nil {id : ℕ} (hs : s.Accounted) (hid : s.store.records.length ≤ id) :
    s.firedAt id = [] := by
  rw [State.firedAt, List.map_eq_nil_iff, List.filter_eq_nil_iff]
  intro f hf
  have hlt := hs.known f.record (List.mem_map_of_mem hf)
  simp only [decide_eq_true_eq]
  omega

end IqrfDaemon.Scheduler
