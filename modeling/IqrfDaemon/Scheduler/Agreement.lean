import IqrfDaemon.Scheduler.Overflow

/-!
# When a handle leads to a pending task

The claim of `IScheduler.h` that a fired one-shot task is released holds of the
time index only: the timer leaves the handle behind, as its own remark says.  It
does the same with a periodic task whose next time is over, because its period is
negative or so long that the time point wraps.  Over the runs in which every record
the timer takes out is scheduled again, the two indexes agree, and the first step
that drops a record ends the agreement.
-/

namespace IqrfDaemon.Scheduler

open Json Container Transition

namespace Store

variable {s : Store}

/-- The two indexes hold the same records, each once and under its own handle. -/
structure Agree (s : Store) : Prop where
  same : ∀ id, (∃ h, s.byHandle.lookup h = some id) ↔ s.pending id
  once_by_time : s.byTime.values.Nodup
  once_by_handle : ∀ h k id, s.byHandle.lookup h = some id → s.byHandle.lookup k = some id → h = k
  key : ∀ h id, s.byHandle.lookup h = some id → s.handleOf id = h

/-- Of a well-formed store only one inclusion is open. -/
theorem Wf.agree_iff (hs : s.Wf) :
    s.Agree ↔ ∀ h id, s.byHandle.lookup h = some id → s.pending id := by
  constructor
  · intro hagree h id hid
    exact (hagree.same id).mp ⟨h, hid⟩
  · intro hback
    refine ⟨?_, hs.nodup, ?_, fun h id hid ↦ (hs.keyed h id hid).2⟩
    · intro id
      constructor
      · rintro ⟨h, hid⟩
        exact hback h id hid
      · intro hp
        exact ⟨s.handleOf id, hs.listed id hp⟩
    · intro h k id hh hk
      have hhandle := (hs.keyed h id hh).2
      rw [← hhandle]
      exact (hs.keyed k id hk).2

theorem Agree.findMyTask_iff (hagree : s.Agree) (hs : s.Wf) (clientId : String) (h : ℤ) (id : ℕ) :
    s.findMyTask clientId h = some id ↔ id ∈ s.myTasks clientId ∧ s.handleOf id = h := by
  rw [findMyTask_eq_some, mem_myTasks]
  constructor
  · rintro ⟨hid, hclient⟩
    exact ⟨⟨(hagree.same id).mp ⟨h, hid⟩, hclient⟩, hagree.key h id hid⟩
  · rintro ⟨⟨hp, hclient⟩, rfl⟩
    exact ⟨hs.listed id hp, hclient⟩

theorem Agree.findMyTask_removeAllMyTasks (hagree : s.Agree) (clientId : String) (h : ℤ) :
    (s.removeAllMyTasks clientId).findMyTask clientId h = none := by
  rw [Option.eq_none_iff_forall_ne_some]
  intro id hfind
  obtain ⟨hid, hclient⟩ := findMyTask_eq_some.mp hfind
  rw [lookup_removeAllMyTasks] at hid
  split at hid
  case isTrue => simp at hid
  case isFalse hnot =>
    have hmine : id ∈ s.myTasks clientId :=
      mem_myTasks.mpr ⟨(hagree.same id).mp ⟨h, hid⟩, hclient⟩
    apply hnot
    rw [← hagree.key h id hid]
    exact List.mem_map_of_mem hmine

/-! ## The sections one by one -/

theorem Agree.addScheduleRecords {env : Env} {choices : List (ℤ × List ℤ)}
    {rs : List ScheduleRecord} {t : Store} (hagree : s.Agree) (hs : s.Wf)
    (h : addScheduleRecords64 env choices rs s = some t) : t.Agree := by
  rw [(hs.addScheduleRecordsWith lawfulNext_getNext64 h).agree_iff]
  refine addScheduleRecordsWith_induction
    (P := fun u ↦ ∀ k id, u.byHandle.lookup k = some id → u.pending id) h
    (hs.agree_iff.mp hagree) ?_
  intro u now r handle _ _ _ hu k id hid
  rw [lookup_insertRecord] at hid
  rw [pending_insertRecord]
  split at hid
  case isTrue => exact Or.inl (Option.some.inj hid).symm
  case isFalse => exact Or.inr (hu k id hid)

theorem Wf.lookup_removeTask (hs : s.Wf) {clientId : String} {hndl h : ℤ} {id : ℕ}
    (hid : (s.removeTask clientId hndl).byHandle.lookup h = some id) :
    s.byHandle.lookup h = some id ∧ s.findMyTask clientId hndl ≠ some id := by
  unfold Store.removeTask at hid
  cases hfind : s.findMyTask clientId hndl with
  | none => simpa [hfind] using hid
  | some k =>
      simp only [hfind, lookup_removeScheduleRecordUnlocked] at hid
      split at hid
      case isTrue => simp at hid
      case isFalse hne =>
        refine ⟨hid, ?_⟩
        rintro heq
        obtain rfl := Option.some.inj heq
        exact hne (hs.keyed h k hid).2.symm

theorem Wf.lookup_removeTasks (hs : s.Wf) {clientId : String} {hndls : List ℤ} {h : ℤ} {id : ℕ}
    (hid : (s.removeTasks clientId hndls).byHandle.lookup h = some id) :
    s.byHandle.lookup h = some id ∧ ∀ hndl ∈ hndls, s.findMyTask clientId hndl ≠ some id := by
  induction hndls generalizing s with
  | nil => exact ⟨hid, by simp⟩
  | cons hndl rest ih =>
      obtain ⟨hid, hrest⟩ := ih (hs.removeTask clientId hndl) hid
      obtain ⟨hid, hfirst⟩ := hs.lookup_removeTask hid
      refine ⟨hid, ?_⟩
      rw [List.forall_mem_cons]
      refine ⟨hfirst, fun k hk ↦ ?_⟩
      have hk' := hrest k hk
      rw [hs.findMyTask_removeTask] at hk'
      by_cases heq : k = hndl
      · rw [heq]
        exact hfirst
      · rwa [if_neg heq] at hk'

/-- After a removal no handle leads to one of its targets. -/
theorem Wf.lookup_remove (hs : s.Wf) {removal : Removal} {h : ℤ} {id : ℕ}
    (hid : (s.remove removal).byHandle.lookup h = some id) :
    s.byHandle.lookup h = some id ∧ id ∉ s.targets removal := by
  cases removal with
  | removeTask clientId hndl =>
      simpa [targets, eq_comm] using hs.lookup_removeTask hid
  | removeTasks clientId hndls =>
      simpa [targets] using hs.lookup_removeTasks hid
  | removeAllMyTasks clientId =>
      have hid' := hid
      rw [Store.remove, lookup_removeAllMyTasks] at hid'
      split at hid'
      case isTrue => simp at hid'
      case isFalse hnot =>
        refine ⟨hid', fun hmine ↦ hnot ?_⟩
        rw [← (hs.keyed h id hid').2]
        exact List.mem_map_of_mem hmine

theorem Agree.remove (hagree : s.Agree) (hs : s.Wf) (removal : Removal) :
    (s.remove removal).Agree := by
  rw [(hs.remove removal).agree_iff]
  intro h id hid
  obtain ⟨hid, hnot⟩ := hs.lookup_remove hid
  exact (hs.pending_remove removal id).mpr ⟨(hagree.same id).mp ⟨h, hid⟩, hnot⟩

/-- The timer keeps the agreement exactly where it drops no record. -/
theorem Agree.timerSection_iff (hagree : s.Agree) (hs : s.Wf) (timePoint : ℤ) (timeStr : Tm) :
    (s.timerSection64 timePoint timeStr).Agree ↔
      ∀ e, s.due timePoint = some e → (s.record e.2).recursAt timePoint timeStr := by
  have hwf : (s.timerSection64 timePoint timeStr).Wf := hs.timerSectionWith lawfulNext_getNext64
  have hhandles : (s.timerSection64 timePoint timeStr).byHandle = s.byHandle :=
    byHandle_timerSectionWith
  rw [hwf.agree_iff, hhandles]
  constructor
  · intro hback e hdue
    have hp := Wf.pending_due hdue
    have hafter := hback _ e.2 (hs.listed e.2 hp)
    exact ((hs.pending_timerSection64 hdue e.2).mp hafter).2 rfl
  · intro hrecurs h id hid
    have hp := (hagree.same id).mp ⟨h, hid⟩
    cases hdue : s.due timePoint with
    | none =>
        rw [timerSection64, timerSectionWith_of_due_none hdue]
        exact hp
    | some e => exact (hs.pending_timerSection64 hdue id).mpr ⟨hp, fun _ ↦ hrecurs e hdue⟩

end Store

/-! ## Whole runs -/

/-- One section under `m_scheduledTasksMutex`.  The timer's time point and calendar
time are free, as the clock is. -/
inductive Operation
  | add (request : Request) (choices : List (ℤ × List ℤ))
  | remove (removal : Removal)
  | timer (timePoint : ℤ) (timeStr : Tm)

/-- A request that throws leaves the indexes alone, and one that aborts ends the
program. -/
def Store.step (env : Env) (s : Store) : Operation → Option Store
  | .add request choices =>
      match request.records env with
      | .ok rs => Store.addScheduleRecords64 env choices rs s
      | .error .abort => none
      | .error _ => some s
  | .remove removal => some (s.remove removal)
  | .timer timePoint timeStr => some (s.timerSection64 timePoint timeStr)

def storeSystem (env : Env) : System Store Operation where
  init s := s = Store.empty
  step := Store.step env

/-- The step takes out no record that the timer does not schedule again. -/
def dropsNothing (s : Store) : Operation → Prop
  | .timer timePoint timeStr =>
      ∀ e, s.due timePoint = some e → (s.record e.2).recursAt timePoint timeStr
  | _ => True

variable {env : Env} {s t : Store}

theorem Store.Wf.step (hs : s.Wf) {op : Operation} (h : s.step env op = some t) : t.Wf := by
  cases op with
  | add request choices =>
      simp only [Store.step] at h
      split at h
      · exact hs.addScheduleRecordsWith Store.lawfulNext_getNext64 h
      · simp at h
      · obtain rfl := Option.some.inj h
        exact hs
  | remove removal =>
      obtain rfl := Option.some.inj h
      exact hs.remove removal
  | timer timePoint timeStr =>
      obtain rfl := Option.some.inj h
      exact hs.timerSectionWith Store.lawfulNext_getNext64

theorem Store.Agree.step_iff (hagree : s.Agree) (hs : s.Wf) {op : Operation}
    (h : s.step env op = some t) : t.Agree ↔ dropsNothing s op := by
  cases op with
  | add request choices =>
      simp only [Store.step] at h
      refine iff_of_true ?_ trivial
      split at h
      · exact hagree.addScheduleRecords hs h
      · simp at h
      · obtain rfl := Option.some.inj h
        exact hagree
  | remove removal =>
      obtain rfl := Option.some.inj h
      exact iff_of_true (hagree.remove hs removal) trivial
  | timer timePoint timeStr =>
      obtain rfl := Option.some.inj h
      exact hagree.timerSection_iff hs timePoint timeStr

theorem wf_of_reachable (h : (storeSystem env).Reachable s) : s.Wf := by
  refine System.Reachable.invariant ?_ ?_ h
  · rintro s rfl
    exact Store.wf_empty
  · intro s op t hs hstep
    exact hs.step hstep

theorem agree_of_reachableVia (h : (storeSystem env).ReachableVia dropsNothing s) : s.Agree := by
  have hboth : s.Wf ∧ s.Agree := by
    refine System.ReachableVia.invariant (I := fun s ↦ s.Wf ∧ s.Agree) ?_ ?_ h
    · rintro s rfl
      exact ⟨Store.wf_empty, Store.wf_empty.agree_iff.mpr (by simp [Store.empty])⟩
    · rintro s op t ⟨hs, hagree⟩ hkeeps hstep
      exact ⟨hs.step hstep, (hagree.step_iff hs hstep).mpr hkeeps⟩
  exact hboth.2

/-- In every run in which the timer drops no record, the indexes agree, a handle
lookup succeeds exactly for the pending tasks of the client, and none succeeds
after `removeAllMyTasks`.  The next step keeps the agreement if and only if it
drops no record either. -/
theorem indexes_agree_while_recurring (env : Env) (s : Store)
    (h : (storeSystem env).ReachableVia dropsNothing s) :
    s.Agree ∧
      (∀ clientId hndl id, s.findMyTask clientId hndl = some id ↔
        id ∈ s.myTasks clientId ∧ s.handleOf id = hndl) ∧
      (∀ clientId hndl, (s.removeAllMyTasks clientId).findMyTask clientId hndl = none) ∧
      ∀ op t, (storeSystem env).step s op = some t → (t.Agree ↔ dropsNothing s op) := by
  have hs := wf_of_reachable h.any
  have hagree := agree_of_reachableVia h
  refine ⟨hagree, hagree.findMyTask_iff hs, hagree.findMyTask_removeAllMyTasks, ?_⟩
  intro op t hstep
  exact hagree.step_iff hs hstep

def oneTask : Store :=
  Store.empty.insertRecord 5 (.atTime epochDay 7 "client" "task" 5) 7

theorem indexes_agree_while_recurring_oneTask : oneTask.findMyTask "client" 7 = some 0 := by
  have hstep : (storeSystem epochDay).step Store.empty
      (.add (.scheduleTaskAt "client" "task" 5 7) [(0, [])]) = some oneTask := rfl
  have hreach : (storeSystem epochDay).ReachableVia dropsNothing oneTask :=
    System.ReachableVia.step (a := .add (.scheduleTaskAt "client" "task" 5 7) [(0, [])])
      (.of_init rfl) trivial hstep
  have hfind := (indexes_agree_while_recurring epochDay oneTask hreach).2.1 "client" 7 0
  exact hfind.mpr (by decide)

/-- A one-shot task after its firing: nothing is pending, and its handle still leads
to it. -/
theorem fired_task_keeps_handle :
    ∃ s, (storeSystem epochDay).Reachable s ∧ ¬ s.Agree ∧ s.getMyTasks "client" = [] ∧
      s.getMyTask "client" 7 = "task" := by
  let fired := oneTask.timerSection64 6 (epochDay.localtime 0)
  refine ⟨fired, ?_, ?_, by decide, by decide⟩
  · exact System.reachable_of_run [.add (.scheduleTaskAt "client" "task" 5 7) [(0, [])],
      .timer 6 (epochDay.localtime 0)] rfl rfl
  · intro hagree
    have hpending := (hagree.same 0).mp ⟨7, by decide⟩
    exact absurd hpending (by decide)

end IqrfDaemon.Scheduler
