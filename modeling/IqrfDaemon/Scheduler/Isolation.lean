import IqrfDaemon.Scheduler.Timer

/-!
# What one client does to the tasks of another

Handles are one name space for all clients, and a removal scans the time index by
handle.  As no two records of the indexes share a handle and a new record only ever
changes its own, the operations of a client leave everything as it was that another
client can see of its own tasks.
-/

namespace IqrfDaemon.Scheduler

open Json Container Transition

namespace Store

variable {s t u : Store} {id : ℕ} {A B : String}

/-- The entries of a client in the time index: the time and the record. -/
def entriesOf (s : Store) (clientId : String) : List (ℤ × ℕ) :=
  s.byTime.entries.filter fun e ↦ (s.record e.2).clientId = clientId

theorem getMyTasks_eq_map (clientId : String) :
    s.getMyTasks clientId = (s.entriesOf clientId).map fun e ↦ (s.record e.2).task := by
  simp only [getMyTasks, myTasks, Multimap.values, entriesOf, List.filter_map, List.map_map]
  rfl

/-- What a client can see of its tasks is the same in the second store. -/
structure SameFor (clientId : String) (s t : Store) : Prop where
  entries : t.entriesOf clientId = s.entriesOf clientId
  found : ∀ h, t.findMyTask clientId h = s.findMyTask clientId h
  length : s.records.length ≤ t.records.length
  record : ∀ id < s.records.length, t.record id = s.record id

theorem SameFor.refl (clientId : String) (s : Store) : SameFor clientId s s :=
  ⟨rfl, fun _ ↦ rfl, le_rfl, fun _ _ ↦ rfl⟩

theorem SameFor.trans (h : SameFor B s t) (h' : SameFor B t u) : SameFor B s u where
  entries := h'.entries.trans h.entries
  found k := (h'.found k).trans (h.found k)
  length := h.length.trans h'.length
  record id hid := (h'.record id (hid.trans_le h.length)).trans (h.record id hid)

theorem SameFor.getMyTasks (h : SameFor B s t) (hs : s.Wf) : t.getMyTasks B = s.getMyTasks B := by
  rw [getMyTasks_eq_map, getMyTasks_eq_map, h.entries]
  refine List.map_congr_left fun e he ↦ ?_
  have hp : s.pending e.2 := pending_of_mem (List.mem_of_mem_filter he)
  rw [h.record e.2 (hs.valid e.2 hp)]

theorem SameFor.getMyTask (h : SameFor B s t) (hs : s.Wf) (hndl : ℤ) :
    t.getMyTask B hndl = s.getMyTask B hndl := by
  rw [Store.getMyTask, Store.getMyTask, h.found]
  cases hfind : s.findMyTask B hndl with
  | none => rfl
  | some id =>
      have hid := (hs.keyed hndl id (findMyTask_eq_some.mp hfind).1).1
      exact congrArg ScheduleRecord.task (h.record id hid)

/-! ## Adding -/

theorem Wf.sameFor_insertRecord (hs : s.Wf) {tp : ℤ} {r : ScheduleRecord} {h : ℤ}
    (hfree : s.byHandle.lookup h = none) (hne : r.clientId ≠ B) :
    SameFor B s (s.insertRecord tp r h) := by
  have hnew : ((s.insertRecord tp r h).record s.records.length).clientId ≠ B := by
    rw [record_insertRecord_new]
    exact hne
  refine ⟨?_, fun k ↦ Option.ext fun id ↦ ?_, ?_, fun id hid ↦ record_insertRecord hid⟩
  · have hentries : (s.insertRecord tp r h).entriesOf B = s.byTime.entries.filter fun e ↦
        ((s.insertRecord tp r h).record e.2).clientId = B :=
      Multimap.filter_entries_insert s.byTime (decide_eq_false hnew)
    rw [hentries]
    refine List.filter_congr fun e he ↦ ?_
    rw [record_insertRecord (hs.valid e.2 (pending_of_mem he))]
  · rw [findMyTask_eq_some, findMyTask_eq_some, lookup_insertRecord]
    by_cases hk : k = h
    · -- the new handle leads to the new record, which is another client's
      rw [if_pos hk, hk, hfree]
      refine iff_of_false ?_ (by simp)
      rintro ⟨hid, hclient⟩
      rw [← Option.some.inj hid] at hclient
      exact hnew hclient
    · rw [if_neg hk]
      refine and_congr_right fun hid ↦ ?_
      rw [record_insertRecord (hs.keyed k id hid).1]
  · rw [length_insertRecord]
    omega

theorem Wf.sameFor_addScheduleRecords (hs : s.Wf) {env : Env} {choices : List (ℤ × List ℤ)}
    {rs : List ScheduleRecord} (hne : ∀ r ∈ rs, r.clientId ≠ B)
    (h : Store.addScheduleRecords env choices rs s = some t) : SameFor B s t := by
  refine (addScheduleRecords_induction (P := fun u ↦ u.Wf ∧ SameFor B s u) h
    ⟨hs, SameFor.refl B s⟩ ?_).2
  rintro u now r handle _ hr hfree ⟨hu, hsame⟩
  have hwf := hu.insertNext lawfulNext_getNext env now r hfree
  refine ⟨hwf, hsame.trans (hu.sameFor_insertRecord hfree ?_)⟩
  obtain ⟨b, hb⟩ := getNext_record r now (env.localtime (toTimeT now))
  rw [hb]
  exact hne r hr

/-! ## Removing -/

/-- A removal that leaves the entries of a client in the time index, and the handles
that lead to its records, is not noticed by that client. -/
theorem sameFor_of_removed (hrecords : t.records = s.records)
    (hentries : ∀ e ∈ s.byTime.entries, (s.record e.2).clientId = B → e ∈ t.byTime.entries)
    (hfilter : ∃ p, t.byTime.entries = s.byTime.entries.filter p)
    (hlookup : ∀ h id, (s.record id).clientId = B →
      (t.byHandle.lookup h = some id ↔ s.byHandle.lookup h = some id)) : SameFor B s t := by
  have hrecord : ∀ id, t.record id = s.record id := by
    intro id
    rw [record, hrecords, record]
  refine ⟨?_, fun h ↦ Option.ext fun id ↦ ?_, hrecords ▸ le_rfl, fun id _ ↦ hrecord id⟩
  · obtain ⟨p, hp⟩ := hfilter
    simp only [entriesOf, hrecord, hp, List.filter_filter]
    refine List.filter_congr fun e he ↦ ?_
    by_cases hclient : (s.record e.2).clientId = B
    · have hmem := hentries e he hclient
      rw [hp] at hmem
      simp [hclient, (List.mem_filter.mp hmem).2]
    · simp [hclient]
  · rw [findMyTask_eq_some, findMyTask_eq_some, hrecord]
    exact and_congr_left fun hclient ↦ hlookup h id hclient

theorem Wf.sameFor_removeTask (hs : s.Wf) (hne : A ≠ B) (hndl : ℤ) :
    SameFor B s (s.removeTask A hndl) := by
  unfold Store.removeTask
  cases hfind : s.findMyTask A hndl with
  | none => exact SameFor.refl B s
  | some id =>
      obtain ⟨hid, hclient⟩ := findMyTask_eq_some.mp hfind
      have hother : ∀ k, (s.record k).clientId = B → k ≠ id := by
        rintro k hk rfl
        exact hne (hclient.symm.trans hk)
      refine sameFor_of_removed rfl ?_ ⟨_, rfl⟩ ?_
      · intro e he hB
        refine List.mem_filter.mpr ⟨he, ?_⟩
        have hhandle : s.handleOf e.2 ≠ s.handleOf id := fun heq ↦
          hother e.2 hB (hs.handleOf_inj (pending_of_mem he) hid heq)
        simpa using hhandle
      · intro h k hB
        rw [lookup_removeScheduleRecordUnlocked, (hs.keyed hndl id hid).2]
        split
        case isTrue hh =>
          rw [hh, hid]
          exact iff_of_false (by simp) fun heq ↦ hother k hB (Option.some.inj heq).symm
        case isFalse => exact Iff.rfl

theorem Wf.sameFor_removeTasks (hs : s.Wf) (hne : A ≠ B) (hndls : List ℤ) :
    SameFor B s (s.removeTasks A hndls) := by
  induction hndls generalizing s with
  | nil => exact SameFor.refl B s
  | cons hndl rest ih =>
      exact (hs.sameFor_removeTask hne hndl).trans (ih (hs.removeTask A hndl))

theorem Wf.sameFor_removeAllMyTasks (hs : s.Wf) (hne : A ≠ B) :
    SameFor B s (s.removeAllMyTasks A) := by
  refine sameFor_of_removed rfl ?_ ⟨_, rfl⟩ ?_
  · intro e he hB
    refine List.mem_filter.mpr ⟨he, ?_⟩
    simpa [hB] using hne.symm
  · intro h k hB
    rw [lookup_removeAllMyTasks]
    split
    case isTrue hmine =>
      refine iff_of_false (by simp) fun hk ↦ ?_
      obtain ⟨n, hn, rfl⟩ := List.mem_map.mp hmine
      obtain ⟨hp, hclient⟩ := mem_myTasks.mp hn
      rw [hs.listed n hp] at hk
      rw [← Option.some.inj hk, hclient] at hB
      exact hne hB
    case isFalse => exact Iff.rfl

end Store

/-! ## Operations of a client -/

/-- The operations that run under a client id, with the rest of an addition once the
record is in. -/
def Action.issuedBy : Action → String → Prop
  | .add (.scheduleTaskAt clientId _ _ _) _, A => clientId = A
  | .add (.scheduleTaskPeriodic clientId _ _ _ _) _, A => clientId = A
  | .remove (.removeTask clientId _), A => clientId = A
  | .remove (.removeTasks clientId _), A => clientId = A
  | .remove (.removeAllMyTasks clientId), A => clientId = A
  | .addFlag, _ | .addUnlock, _ => True
  | _, _ => False

theorem Moves.sameFor {env : Env} {s t : State} {a : Action} {A B : String} (hs : s.store.Wf)
    (hissued : a.issuedBy A) (hne : A ≠ B) (h : Moves env s a t) :
    Store.SameFor B s.store t.store := by
  cases h with
  | add request rands rs store free ok added =>
      refine hs.sameFor_addScheduleRecords (fun r hr ↦ ?_) added
      have hclient : r.clientId = A := by
        cases request with
        | scheduleTaskAt clientId task tp rand =>
            obtain rfl := Except.ok.inj ok
            rw [List.mem_singleton.mp hr]
            exact hissued
        | scheduleTaskPeriodic clientId task sec tp rand =>
            obtain rfl := Except.ok.inj ok
            rw [List.mem_singleton.mp hr]
            exact hissued
        | updateConfiguration cfg clock rand => exact hissued.elim
      rw [hclient]
      exact hne
  | remove removal free =>
      cases removal with
      | removeTask clientId hndl =>
          obtain rfl : clientId = A := hissued
          exact hs.sameFor_removeTask hne hndl
      | removeTasks clientId hndls =>
          obtain rfl : clientId = A := hissued
          exact hs.sameFor_removeTasks hne hndls
      | removeAllMyTasks clientId =>
          obtain rfl : clientId = A := hissued
          exact hs.sameFor_removeAllMyTasks hne
  | refused request rands | addUnlock held => exact Store.SameFor.refl B s.store
  | flag a pc adder pendingStops is_flag at_pc => exact Store.SameFor.refl B s.store
  | _ => exact hissued.elim

/-- An operation under one client id leaves the tasks of every other client, as it can
list them, look them up by any handle, and as they are stored in time, as they were. -/
theorem clients_isolated (env : Env) (s t : State) (a : Action) (A B : String)
    (h : (system env).Reachable s) (hissued : a.issuedBy A) (hne : B ≠ A)
    (hstep : (system env).step s a = some t) :
    t.store.getMyTasks B = s.store.getMyTasks B ∧
      (∀ hndl, t.store.getMyTask B hndl = s.store.getMyTask B hndl) ∧
        t.store.entriesOf B = s.store.entriesOf B := by
  have hs := store_wf h
  have hsame := (moves_of_step hstep).sameFor hs hissued hne.symm
  exact ⟨hsame.getMyTasks hs, hsame.getMyTask hs, hsame.entries⟩

/-- After a client has scheduled a task under the handle 7. -/
def scheduled : State :=
  { State.create epochDay 0 with
    store := Store.empty.insertRecord 5 (.atTime epochDay 7 "owner" "task" 5) 7
    scheduledTaskPushed := true }

/-- Another client schedules a task whose first handle is taken. -/
def foreignRequest : Action := .add (.scheduleTaskAt "other" "task" 6 7) [[9]]

theorem clients_isolated_foreignRequest :
    ∃ t, (system epochDay).step scheduled foreignRequest = some t ∧
      t.store.getMyTasks "owner" = scheduled.store.getMyTasks "owner" ∧
        (∀ hndl, t.store.getMyTask "owner" hndl = scheduled.store.getMyTask "owner" hndl) ∧
          t.store.entriesOf "owner" = scheduled.store.entriesOf "owner" := by
  have hreach : (system epochDay).Reachable scheduled :=
    System.reachable_of_run
      [.add (.scheduleTaskAt "owner" "task" 5 7) [[]], .addFlag, .addUnlock] ⟨0, rfl⟩ rfl
  exact ⟨_, rfl, clients_isolated epochDay scheduled _ foreignRequest "other" "owner" hreach rfl
    (by decide) rfl⟩

end IqrfDaemon.Scheduler
