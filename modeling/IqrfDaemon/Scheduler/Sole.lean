import IqrfDaemon.Scheduler.Handles
import IqrfDaemon.Scheduler.Isolation

/-!
# A client with one task

What a client sees that keeps at most one periodic task in the scheduler: it stays as it is
while the timer fires it and other clients add and remove theirs, a removal by its handle
takes it out, and so does one of all tasks.
-/

namespace IqrfDaemon.Scheduler

open Json Container Transition

/-- A periodic task by its handle, its text and its period in seconds. -/
structure Periodic where
  hndl : ℤ
  task : String
  period : ℤ

/-- The record of a periodic task. -/
structure ScheduleRecord.Runs (r : ScheduleRecord) (p : Periodic) : Prop where
  handle : r.taskHandle = p.hndl
  task : r.task = p.task
  exactTime : r.exactTime = false
  periodic : r.periodic = true
  period : r.period = p.period

theorem ScheduleRecord.Runs.setStarted {r : ScheduleRecord} {p : Periodic} (h : r.Runs p)
    (b : Bool) : (r.setStarted b).Runs p :=
  ⟨h.handle, h.task, h.exactTime, h.periodic, h.period⟩

theorem ScheduleRecord.Runs.recurring {r : ScheduleRecord} {p : Periodic} (h : r.Runs p)
    (hperiod : 0 ≤ p.period) : r.recurring :=
  ⟨h.exactTime, fun _ ↦ h.period ▸ hperiod⟩

namespace Store

variable {s t : Store} {A B : String} {p : Periodic} {own : Option Periodic} {k : ℕ}

/-- The record is in the time index and belongs to the client. -/
def PendingOf (s : Store) (clientId : String) (id : ℕ) : Prop :=
  s.pending id ∧ (s.record id).clientId = clientId

/-- All that a client has in the time index: nothing, or one periodic task. -/
def Sole (s : Store) (clientId : String) : Option Periodic → Prop
  | none => ∀ id, ¬s.PendingOf clientId id
  | some p => ∃ id, (∀ k, s.PendingOf clientId k ↔ k = id) ∧ (s.record id).Runs p

/-- A store with the same records of the client has the same task. -/
theorem Sole.congr (h : s.Sole B own) (hpending : ∀ k, t.PendingOf B k ↔ s.PendingOf B k)
    (hrecord : ∀ k, s.PendingOf B k → ∃ b, t.record k = (s.record k).setStarted b) :
    t.Sole B own := by
  cases own with
  | none => exact fun k hk ↦ h k ((hpending k).mp hk)
  | some p =>
      obtain ⟨id, hid, hruns⟩ := h
      obtain ⟨b, hb⟩ := hrecord id ((hid id).mpr rfl)
      refine ⟨id, fun k ↦ (hpending k).trans (hid k), ?_⟩
      rw [hb]
      exact hruns.setStarted b

theorem pendingOf_iff_mem_entriesOf :
    s.PendingOf B k ↔ ∃ tp, (tp, k) ∈ s.entriesOf B := by
  constructor
  · rintro ⟨hp, hclient⟩
    obtain ⟨tp, hmem⟩ := Multimap.mem_values.mp hp
    exact ⟨tp, List.mem_filter.mpr ⟨hmem, decide_eq_true hclient⟩⟩
  · rintro ⟨tp, hmem⟩
    obtain ⟨hmem, hclient⟩ := List.mem_filter.mp hmem
    exact ⟨pending_of_mem hmem, of_decide_eq_true hclient⟩

theorem Sole.of_sameFor (h : s.Sole B own) (hs : s.Wf) (hsame : SameFor B s t) : t.Sole B own := by
  refine h.congr (fun k ↦ ?_) fun k hk ↦ ⟨(s.record k).started, ?_⟩
  · rw [pendingOf_iff_mem_entriesOf, hsame.entries, ← pendingOf_iff_mem_entriesOf]
  · rw [hsame.record k (hs.valid k hk.1)]
    rfl

/-- The timer stores a periodic task again, so firing it changes nothing. -/
theorem Sole.timerSection (h : s.Sole B own) (hs : s.Wf) (hperiod : ∀ p ∈ own, 0 ≤ p.period)
    (timePoint : ℤ) (timeStr : Tm) : (s.timerSection timePoint timeStr).Sole B own := by
  have hclient : ∀ k, ((s.timerSection timePoint timeStr).record k).clientId =
      (s.record k).clientId := by
    intro k
    obtain ⟨b, hb⟩ := hs.record_timerSection timePoint timeStr k
    rw [hb]
    rfl
  have hrecurring : ∀ k, s.PendingOf B k → (s.record k).recurring := by
    intro k hk
    cases own with
    | none => exact absurd hk (h k)
    | some p =>
        obtain ⟨id, hid, hruns⟩ := h
        obtain rfl := (hid k).mp hk
        exact hruns.recurring (hperiod p rfl)
  refine h.congr (fun k ↦ ?_) fun k _ ↦ hs.record_timerSection timePoint timeStr k
  rw [PendingOf, hclient, PendingOf]
  cases hdue : s.due timePoint with
  | none => rw [timerSection_of_due_none hdue]
  | some e =>
      rw [hs.pending_timerSection hdue k]
      constructor
      · rintro ⟨⟨hp, -⟩, hB⟩
        exact ⟨hp, hB⟩
      · rintro ⟨hp, hB⟩
        refine ⟨⟨hp, ?_⟩, hB⟩
        rintro rfl
        exact hrecurring _ ⟨hp, hB⟩

/-! ## What the client does itself -/

theorem sole_removeAllMyTasks : (s.removeAllMyTasks B).Sole B none := by
  rintro k ⟨hp, hclient⟩
  obtain ⟨hp, hnot⟩ := (pending_removeAllMyTasks B k).mp hp
  exact hnot (mem_myTasks.mpr ⟨hp, hclient⟩)

/-- A handle that is out of date removes nothing, as nothing is there. -/
theorem Sole.removeTask_none (h : s.Sole B none) (hs : s.Wf) (hndl : ℤ) :
    (s.removeTask B hndl).Sole B none := by
  rintro k ⟨hp, hclient⟩
  have hrecord : (s.removeTask B hndl).record k = s.record k :=
    congrArg (fun records ↦ records.getD k default)
      (s.records_remove (.removeTask B hndl))
  rw [hrecord] at hclient
  exact h k ⟨((hs.pending_removeTask B hndl k).mp hp).1, hclient⟩

theorem Sole.removeTask (h : s.Sole B (some p)) (hs : s.Wf) :
    (s.removeTask B p.hndl).Sole B none := by
  obtain ⟨id, hid, hruns⟩ := h
  rintro k ⟨hp, hclient⟩
  have hrecord : (s.removeTask B p.hndl).record k = s.record k :=
    congrArg (fun records ↦ records.getD k default)
      (s.records_remove (.removeTask B p.hndl))
  rw [hrecord] at hclient
  obtain ⟨hp, hnot⟩ := (hs.pending_removeTask B p.hndl k).mp hp
  obtain rfl := (hid k).mp ⟨hp, hclient⟩
  refine hnot (findMyTask_eq_some.mpr ⟨?_, hclient⟩)
  rw [← hruns.handle]
  exact hs.listed k hp

/-- A periodic task enters a store in which the client has none. -/
theorem Sole.scheduleTaskPeriodic (h : s.Sole B none) (hs : s.Wf) {env : Env} {task : String}
    {sec tp rand now : ℤ} {rands : List (List ℤ)}
    (hadd : addScheduleRecords env (rands.map fun r ↦ (now, r))
      [.everyPeriod rand B task sec tp] s = some t) :
    t.Sole B (some ⟨s.returnedHandle t, task, sec⟩) := by
  obtain ⟨handle, rfl⟩ := insertRecord_of_everyPeriod hadd
  have hnew : (s.insertRecord tp ((ScheduleRecord.everyPeriod rand B task sec tp).setStarted true)
      handle).record s.records.length =
        ((ScheduleRecord.everyPeriod rand B task sec tp).setStarted true).setHandle handle :=
    record_insertRecord_new
  refine ⟨s.records.length, fun k ↦ ?_, ?_⟩
  · rw [PendingOf, pending_insertRecord]
    constructor
    · rintro ⟨rfl | hp, hclient⟩
      · rfl
      · rw [record_insertRecord (hs.valid k hp)] at hclient
        exact absurd ⟨hp, hclient⟩ (h k)
    · rintro rfl
      refine ⟨Or.inl rfl, ?_⟩
      rw [hnew]
      rfl
  · rw [returnedHandle, handleOf, hnew]
    exact ⟨rfl, rfl, rfl, rfl, rfl⟩

/-! ## What the client can ask for -/

theorem Sole.myTasks_none (h : s.Sole B none) : s.myTasks B = [] := by
  rw [List.eq_nil_iff_forall_not_mem]
  exact fun k hk ↦ h k (mem_myTasks.mp hk)

theorem Sole.myTasks_some (h : s.Sole B (some p)) (hs : s.Wf) :
    ∃ id, s.myTasks B = [id] ∧ (s.record id).Runs p := by
  obtain ⟨id, hid, hruns⟩ := h
  refine ⟨id, ?_, hruns⟩
  have hnodup : (s.myTasks B).Nodup := hs.nodup.sublist List.filter_sublist
  have hmem : ∀ k, k ∈ s.myTasks B ↔ k ∈ [id] := fun k ↦ by
    rw [mem_myTasks, List.mem_singleton]
    exact hid k
  exact List.perm_singleton.mp
    ((List.perm_ext_iff_of_nodup hnodup (List.nodup_singleton id)).mpr hmem)

theorem Sole.getMyTasks (h : s.Sole B own) (hs : s.Wf) :
    s.getMyTasks B = (own.map Periodic.task).toList := by
  cases own with
  | none =>
      rw [Store.getMyTasks, h.myTasks_none]
      rfl
  | some p =>
      obtain ⟨id, hid, hruns⟩ := h.myTasks_some hs
      rw [Store.getMyTasks, hid, List.map_singleton, hruns.task]
      rfl

theorem Sole.getMyTask (h : s.Sole B (some p)) (hs : s.Wf) : s.getMyTask B p.hndl = p.task := by
  obtain ⟨id, hid, hruns⟩ := h
  obtain ⟨hp, hclient⟩ := (hid id).mpr rfl
  have hlookup : s.byHandle.lookup p.hndl = some id := by
    rw [← hruns.handle]
    exact hs.listed id hp
  rw [Store.getMyTask, findMyTask_eq_some.mpr ⟨hlookup, hclient⟩]
  exact hruns.task

end Store

/-! ## Steps of the others -/

def Removal.clientId : Removal → String
  | removeTask clientId _ => clientId
  | removeTasks clientId _ => clientId
  | removeAllMyTasks clientId => clientId

/-- The step neither adds nor removes a task under the given name. -/
def Foreign (env : Env) (clientId : String) : Action → Prop
  | .add request _ => ∀ rs, request.records env = .ok rs → ∀ r ∈ rs, r.clientId ≠ clientId
  | .remove removal => removal.clientId ≠ clientId
  | _ => True

section Foreign

variable {env : Env} {s t : State} {B : String} {own : Option Periodic} {a : Action}

theorem Store.Wf.sameFor_remove {u : Store} (hu : u.Wf) {removal : Removal}
    (hne : removal.clientId ≠ B) : Store.SameFor B u (u.remove removal) := by
  cases removal with
  | removeTask clientId hndl => exact hu.sameFor_removeTask hne hndl
  | removeTasks clientId hndls => exact hu.sameFor_removeTasks hne hndls
  | removeAllMyTasks clientId => exact hu.sameFor_removeAllMyTasks hne

theorem Moves.sole (h : Moves env s a t) (hs : s.store.Wf) (hforeign : Foreign env B a)
    (hsole : s.store.Sole B own) (hperiod : ∀ p ∈ own, 0 ≤ p.period) : t.store.Sole B own := by
  cases h.effect with
  | quiet a t hquiet =>
      rw [hquiet.store]
      exact hsole
  | locked at_pc => exact hsole.timerSection hs hperiod _ _
  | add request rands rs store ok added =>
      exact hsole.of_sameFor hs (hs.sameFor_addScheduleRecords (hforeign rs ok) added)
  | remove removal => exact hsole.of_sameFor hs (hs.sameFor_remove hforeign)

/-- The firings of a client, the one in the timer's hand included. -/
def State.firedOf (s : State) (clientId : String) : List ℕ :=
  s.fired.filter fun id ↦ (s.store.record id).clientId = clientId

theorem fired_innerSection (hpc : s.timer = .locked) :
    s.innerSection.fired = s.fired ++ ((s.store.due s.timePoint).map Prod.snd).toList := by
  have hbefore : s.fired = s.dispatched.map Firing.record := by
    simp [State.fired, hpc, TimerPc.inHand]
  rw [hbefore]
  cases hdue : s.store.due s.timePoint with
  | none => simp [State.fired, State.innerSection, hdue, TimerPc.inHand]
  | some e => simp [State.fired, State.innerSection, hdue, TimerPc.inHand]

theorem Moves.clientId_record (h : Moves env s a t) (hs : s.store.Wf) {id : ℕ}
    (hid : id < s.store.records.length) :
    (t.store.record id).clientId = (s.store.record id).clientId := by
  obtain ⟨-, b, hb⟩ := h.record hs hid
  rw [hb]
  rfl

theorem Moves.firedOf_of_fired (h : Moves env s a t) (hs : s.Accounted)
    (hfired : t.fired.Sublist s.fired) : (t.firedOf B).Sublist (s.firedOf B) := by
  have hclient : t.firedOf B = t.fired.filter fun id ↦ (s.store.record id).clientId = B := by
    refine List.filter_congr fun id hid ↦ ?_
    rw [h.clientId_record hs.wf (hs.known id (hfired.subset hid))]
  rw [hclient]
  exact hfired.filter _

/-- Without a task of the client in the time index nothing more of it is fired. -/
theorem Moves.firedOf_sublist (h : Moves env s a t) (hs : s.Accounted)
    (hsole : s.store.Sole B none) : (t.firedOf B).Sublist (s.firedOf B) := by
  cases h.effect with
  | quiet a t hquiet => exact h.firedOf_of_fired hs (hquiet.log.map _)
  | add request rands rs store ok added => exact h.firedOf_of_fired hs (List.Sublist.refl _)
  | remove removal => exact h.firedOf_of_fired hs (List.Sublist.refl _)
  | locked at_pc =>
      have hafter := fired_innerSection at_pc
      cases hdue : s.store.due s.timePoint with
      | none =>
          rw [hdue] at hafter
          refine h.firedOf_of_fired hs ?_
          rw [hafter]
          simp
      | some e =>
          rw [hdue] at hafter
          have hp : s.store.pending e.2 := Store.Wf.pending_due hdue
          have hother : (s.innerSection.store.record e.2).clientId ≠ B := by
            rw [h.clientId_record hs.wf (hs.wf.valid _ hp)]
            exact fun hclient ↦ hsole e.2 ⟨hp, hclient⟩
          have hsame : s.innerSection.firedOf B = s.firedOf B := by
            rw [State.firedOf, hafter, List.filter_append]
            simp only [Option.map_some, Option.toList_some, List.filter_singleton,
              decide_eq_false hother, cond_false, List.append_nil]
            refine List.filter_congr fun id hid ↦ ?_
            rw [h.clientId_record hs.wf (hs.known id hid)]
          rw [hsame]

end Foreign

end IqrfDaemon.Scheduler
