import IqrfDaemon.Scheduler.Pending

/-!
# What a handle identifies

`scheduleTaskAt` and `scheduleTaskPeriodic` return the handle of the record they have
added, after it has been shuffled until it is free.  No later step changes the handle,
the client or the text of a record, and the handle leads to the record until it is
removed through the interface.
-/

namespace IqrfDaemon.Scheduler

open Json Container Transition

variable {env : Env} {s t u : State}

/-- `TASK_HANDLE_INVALID`. -/
def taskHandleInvalid : ℤ := 0

theorem getTaskHandle_ne_invalid (rand : ℤ) : getTaskHandle rand ≠ taskHandleInvalid := by
  unfold getTaskHandle taskHandleInvalid
  split <;> omega

/-- The handle is the given one or drawn by the generator. -/
theorem Store.uniqueHandle_drawn {m : AList fun _ : ℤ ↦ ℕ} {rands : List ℤ} {handle h : ℤ}
    (hu : uniqueHandle m handle rands = some h) :
    h = handle ∨ ∃ rand ∈ rands, h = getTaskHandle rand := by
  induction rands generalizing handle with
  | nil =>
      obtain ⟨-, hh⟩ := Option.ite_none_right_eq_some.mp hu
      exact .inl (Option.some.inj hh).symm
  | cons rand rest ih =>
      rw [uniqueHandle] at hu
      split at hu
      case isTrue => exact .inl (Option.some.inj hu).symm
      case isFalse =>
        rcases ih hu with rfl | ⟨rand', hmem, rfl⟩
        · exact .inr ⟨rand, List.mem_cons_self, rfl⟩
        · exact .inr ⟨rand', List.mem_cons_of_mem _ hmem, rfl⟩

/-! ## Adding one task -/

/-- The client and the task of a request that adds one record. -/
def Request.scheduled : Request → Option (String × String)
  | scheduleTaskAt clientId task _ _ => some (clientId, task)
  | scheduleTaskPeriodic clientId task _ _ _ => some (clientId, task)
  | updateConfiguration .. => none

/-- What `addScheduleRecord` returns: the handle of the record it has added. -/
def Store.returnedHandle (before after : Store) : ℤ := after.handleOf before.records.length

theorem Request.records_of_scheduled (env : Env) {request : Request} {clientId task : String}
    (h : request.scheduled = some (clientId, task)) :
    ∃ r, request.records env = .ok [r] ∧ r.clientId = clientId ∧ r.task = task ∧
      r.taskHandle ≠ taskHandleInvalid := by
  cases request with
  | scheduleTaskAt c k tp rand =>
      obtain ⟨rfl, rfl⟩ := Prod.mk.inj (Option.some.inj h)
      exact ⟨_, rfl, rfl, rfl, getTaskHandle_ne_invalid rand⟩
  | scheduleTaskPeriodic c k sec tp rand =>
      obtain ⟨rfl, rfl⟩ := Prod.mk.inj (Option.some.inj h)
      exact ⟨_, rfl, rfl, rfl, getTaskHandle_ne_invalid rand⟩
  | updateConfiguration cfg clock rand => cases h

theorem Store.addScheduleRecords_single {choices : List (ℤ × List ℤ)} {r : ScheduleRecord}
    {s t : Store} (h : addScheduleRecords env choices [r] s = some t) :
    ∃ tp b handle rands, uniqueHandle s.byHandle r.taskHandle rands = some handle ∧
      t = s.insertRecord tp (r.setStarted b) handle := by
  match choices, h with
  | (now, rands) :: choices, h =>
      obtain ⟨u, hu, hrest⟩ := Option.bind_eq_some_iff.mp h
      obtain ⟨tp, b, handle, hunique, hinsert⟩ :=
        addScheduleRecordUnlocked_eq_some lawfulNext_getNext hu
      have hlast : u = t := by simpa [addScheduleRecordsWith] using hrest
      exact ⟨tp, b, handle, rands, hunique, hlast ▸ hinsert⟩

/-- One record enters the store, under a handle that was free and is valid. -/
theorem added_of_scheduled {request : Request} {rands : List (List ℤ)} {clientId task : String}
    (hscheduled : request.scheduled = some (clientId, task))
    (hstep : (system env).step s (.add request rands) = some t) :
    ∃ tp r handle, r.clientId = clientId ∧ r.task = task ∧ handle ≠ taskHandleInvalid ∧
      s.store.byHandle.lookup handle = none ∧
        t.store = s.store.insertRecord tp r handle ∧ t.removed = s.removed := by
  obtain ⟨r, hrecords, hclient, htask, hvalid⟩ :=
    Request.records_of_scheduled env hscheduled
  have hadd : s.addStep env request rands = some t := hstep
  rw [State.addStep, Option.ite_none_right_eq_some, hrecords] at hadd
  obtain ⟨store, hadded, rfl⟩ := Option.map_eq_some_iff.mp hadd.2
  obtain ⟨tp, b, handle, drawn, hunique, rfl⟩ := Store.addScheduleRecords_single hadded
  refine ⟨tp, r.setStarted b, handle, hclient, htask, ?_, Store.uniqueHandle_free hunique, rfl,
    rfl⟩
  rcases Store.uniqueHandle_drawn hunique with rfl | ⟨rand, -, rfl⟩
  · exact hvalid
  · exact getTaskHandle_ne_invalid rand

/-! ## The record afterwards -/

/-- The record under a position keeps its client, its task and its handle, and the
handle leads to it unless it was removed. -/
structure Identifies (id : ℕ) (hndl : ℤ) (clientId text : String) (s : State) : Prop where
  valid : id < s.store.records.length
  client : (s.store.record id).clientId = clientId
  task : (s.store.record id).task = text
  handle : s.store.handleOf id = hndl
  listed : id ∉ s.removed → s.store.byHandle.lookup hndl = some id

namespace Store

variable {s t : Store} {id : ℕ} {h : ℤ}

theorem lookup_addScheduleRecords {choices : List (ℤ × List ℤ)} {rs : List ScheduleRecord}
    (hadd : addScheduleRecords env choices rs s = some t) (hid : s.byHandle.lookup h = some id) :
    t.byHandle.lookup h = some id := by
  refine addScheduleRecords_induction (P := fun u ↦ u.byHandle.lookup h = some id) hadd hid ?_
  intro u now r handle _ _ hfree hu
  have hne : h ≠ handle := by
    rintro rfl
    rw [hfree] at hu
    cases hu
  rw [lookup_insertRecord, if_neg hne]
  exact hu

theorem Wf.lookup_removeTask_of_not_target (hs : s.Wf) {clientId : String} {hndl : ℤ}
    (hid : s.byHandle.lookup h = some id) (hnot : s.findMyTask clientId hndl ≠ some id) :
    (s.removeTask clientId hndl).byHandle.lookup h = some id := by
  unfold Store.removeTask
  cases hfind : s.findMyTask clientId hndl with
  | none => exact hid
  | some k =>
      have hk := (findMyTask_eq_some.mp hfind).1
      have hne : h ≠ hndl := by
        rintro rfl
        rw [hk] at hid
        rw [hfind] at hnot
        exact hnot hid
      change (s.removeScheduleRecordUnlocked k).byHandle.lookup h = some id
      rw [lookup_removeScheduleRecordUnlocked, (hs.keyed hndl k hk).2, if_neg hne]
      exact hid

theorem Wf.lookup_remove_of_not_target (hs : s.Wf) {removal : Removal}
    (hid : s.byHandle.lookup h = some id) (hnot : id ∉ s.targets removal) :
    (s.remove removal).byHandle.lookup h = some id := by
  cases removal with
  | removeTask clientId hndl =>
      exact hs.lookup_removeTask_of_not_target hid (by simpa [targets, eq_comm] using hnot)
  | removeTasks clientId hndls =>
      have hall : ∀ hndl ∈ hndls, s.findMyTask clientId hndl ≠ some id := by
        simpa [targets] using hnot
      clear hnot
      simp only [Store.remove]
      induction hndls generalizing s with
      | nil => exact hid
      | cons hndl rest ih =>
          obtain ⟨hfirst, hrest⟩ := List.forall_mem_cons.mp hall
          refine ih (hs.removeTask clientId hndl) (hs.lookup_removeTask_of_not_target hid hfirst) ?_
          intro k hk hfind
          rw [hs.findMyTask_removeTask] at hfind
          split at hfind
          · cases hfind
          · exact hrest k hk hfind
  | removeAllMyTasks clientId =>
      rw [Store.remove, lookup_removeAllMyTasks, if_neg]
      · exact hid
      · intro hmem
        obtain ⟨k, hk, rfl⟩ := List.mem_map.mp hmem
        rw [hs.listed k (mem_myTasks.mp hk).1] at hid
        exact hnot (Option.some.inj hid ▸ hk)

end Store

theorem Identifies.move {id : ℕ} {handle : ℤ} {clientId task : String}
    (hs : Identifies id handle clientId task s) (hwf : s.store.Wf) {a : Action}
    (h : Moves env s a t) : Identifies id handle clientId task t := by
  obtain ⟨hvalid, b, hb⟩ := h.record hwf hs.valid
  refine ⟨hvalid, ?_, ?_, ?_, ?_⟩
  · rw [hb]
    exact hs.client
  · rw [hb]
    exact hs.task
  · rw [Store.handleOf, hb]
    exact hs.handle
  · cases h with
    | add request rands rs store free ok added =>
        exact fun hremoved ↦ Store.lookup_addScheduleRecords added (hs.listed hremoved)
    | remove removal free =>
        intro hremoved
        obtain ⟨hremoved, hnot⟩ := not_or.mp (mt List.mem_append.mpr hremoved)
        exact hwf.lookup_remove_of_not_target (hs.listed hremoved) hnot
    | innerSection at_pc free =>
        intro hremoved
        change (s.store.timerSection _ _).byHandle.lookup handle = some id
        rw [Store.byHandle_timerSection]
        exact hs.listed hremoved
    | _ => exact hs.listed

theorem Identifies.reaches {id : ℕ} {handle : ℤ} {clientId task : String}
    (h : (system env).Reachable s) (hs : Identifies id handle clientId task s)
    (hreach : (system env).Reaches System.AnyStep s t) : Identifies id handle clientId task t := by
  have hall : (system env).Reachable t ∧ Identifies id handle clientId task t := by
    refine hreach.preserves
      (I := fun t ↦ (system env).Reachable t ∧ Identifies id handle clientId task t) ?_ ⟨h, hs⟩
    rintro t a u ⟨ht, hid⟩ - hstep
    exact ⟨ht.step hstep, hid.move (store_wf ht) (moves_of_step hstep)⟩
  exact hall.2

theorem Identifies.getMyTask {id : ℕ} {handle : ℤ} {clientId task : String}
    (hs : Identifies id handle clientId task s) (hwf : s.store.Wf)
    (h : s.store.pending id ∨ id ∉ s.removed) : s.store.getMyTask clientId handle = task := by
  have hlookup : s.store.byHandle.lookup handle = some id := by
    rcases h with hp | hremoved
    · rw [← hs.handle]
      exact hwf.listed id hp
    · exact hs.listed hremoved
  have hfind := Store.findMyTask_eq_some.mpr ⟨hlookup, hs.client⟩
  rw [Store.getMyTask, hfind]
  exact hs.task

/-- The handle that a task is scheduled under is valid and was free, no other record's
handle has changed, and it leads to the task of its client in every later state in
which the task is pending, and even in every one before it is removed. -/
theorem handle_identifies_task (env : Env) (s t : State) (request : Request)
    (rands : List (List ℤ)) (clientId task : String) (h : (system env).Reachable s)
    (hscheduled : request.scheduled = some (clientId, task))
    (hstep : (system env).step s (.add request rands) = some t) :
    let id := s.store.records.length
    let handle := s.store.returnedHandle t.store
    handle ≠ taskHandleInvalid ∧ s.store.byHandle.lookup handle = none ∧
      (∀ k < s.store.records.length, t.store.handleOf k = s.store.handleOf k) ∧
        ∀ u, (system env).Reaches System.AnyStep t u →
          u.store.pending id ∨ id ∉ u.removed → u.store.getMyTask clientId handle = task := by
  obtain ⟨tp, r, handle, hclient, htask, hvalid, hfree, hstore, hremoved⟩ :=
    added_of_scheduled hscheduled hstep
  have hrecord : t.store.record s.store.records.length = r.setHandle handle := by
    rw [hstore, Store.record_insertRecord_new]
  have hhandle : s.store.returnedHandle t.store = handle := by
    rw [Store.returnedHandle, Store.handleOf, hrecord, ScheduleRecord.setHandle_taskHandle]
  rw [hhandle]
  refine ⟨hvalid, hfree, fun k hk ↦ ?_, fun u hreach hlive ↦ ?_⟩
  · rw [hstore, Store.handleOf, Store.record_insertRecord hk, Store.handleOf]
  · have ht : (system env).Reachable t := h.step hstep
    have hid : Identifies s.store.records.length handle clientId task t := by
      refine ⟨?_, ?_, ?_, hhandle, fun _ ↦ ?_⟩
      · rw [hstore, Store.length_insertRecord]
        omega
      · rw [hrecord]
        exact hclient
      · rw [hrecord]
        exact htask
      · rw [hstore, Store.lookup_insertRecord, if_pos rfl]
    exact (hid.reaches ht hreach).getMyTask (store_wf (ht.reaches hreach)) hlive

def pulseAdded : State :=
  { State.create epochDay 3 with
    store := Store.empty.insertRecord 9
      (.setStarted (.everyPeriod 7 "client" "pulse" 5 9) true) 7
    adder := some .inserted }

theorem handle_identifies_task_pulse :
    let handle := (State.create epochDay 3).store.returnedHandle pulseAdded.store
    handle ≠ taskHandleInvalid ∧ (State.create epochDay 3).store.byHandle.lookup handle = none ∧
      (∀ k < (State.create epochDay 3).store.records.length,
        pulseAdded.store.handleOf k = (State.create epochDay 3).store.handleOf k) ∧
        ∀ u, (system epochDay).Reaches System.AnyStep pulseAdded u →
          u.store.pending 0 ∨ 0 ∉ u.removed → u.store.getMyTask "client" handle = "pulse" :=
  handle_identifies_task epochDay (State.create epochDay 3) pulseAdded
    (.scheduleTaskPeriodic "client" "pulse" 5 9 7) [[]] "client" "pulse" (.of_init ⟨3, rfl⟩) rfl rfl

end IqrfDaemon.Scheduler
