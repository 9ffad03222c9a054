import IqrfDaemon.Transition.System
import IqrfDaemon.Scheduler.Store

/-!
# Agreement of the two indexes

Every section under `m_scheduledTasksMutex` keeps the time index free of
duplicates and pointing back through the handle index.  The converse, that a
handle leads to a pending record, is lost where the timer drops a record from
the time index only.
-/

namespace IqrfDaemon.Scheduler

open Json Container Transition

namespace Store

variable {s : Store} {id : ℕ}

def pending (s : Store) (id : ℕ) : Prop := id ∈ s.byTime.values

instance (s : Store) (id : ℕ) : Decidable (s.pending id) :=
  inferInstanceAs (Decidable (id ∈ s.byTime.values))

/-- What every section keeps, for all kinds of records and every reading of the
clock. -/
structure Wf (s : Store) : Prop where
  valid : ∀ id, s.pending id → id < s.records.length
  nodup : s.byTime.values.Nodup
  listed : ∀ id, s.pending id → s.byHandle.lookup (s.handleOf id) = some id
  keyed : ∀ h id, s.byHandle.lookup h = some id → id < s.records.length ∧ s.handleOf id = h
  started : ∀ id < s.records.length, (s.record id).exactTime = false →
    (s.record id).periodic = true → (s.record id).started = true
  exact_at : ∀ tp id, (tp, id) ∈ s.byTime.entries → (s.record id).exactTime = true →
    tp = (s.record id).startTime

theorem pending_of_mem {k : ℤ} (h : (k, id) ∈ s.byTime.entries) : s.pending id :=
  Multimap.mem_values.mpr ⟨k, h⟩

theorem wf_empty : empty.Wf where
  valid := by simp [pending, empty]
  nodup := by simp [empty]
  listed := by simp [pending, empty]
  keyed := by simp [empty]
  started := by simp [empty]
  exact_at := by simp [empty]

/-! ## Adding a record -/

theorem uniqueHandle_free {m : AList fun _ : ℤ ↦ ℕ} {rands : List ℤ}
    {handle h : ℤ} (hu : uniqueHandle m handle rands = some h) : m.lookup h = none := by
  induction rands generalizing handle with
  | nil =>
      simp only [uniqueHandle] at hu
      split at hu
      case isTrue hfree =>
        obtain rfl : handle = h := by simpa using hu
        simpa using hfree
      case isFalse => simp at hu
  | cons rand rest ih =>
      simp only [uniqueHandle] at hu
      split at hu
      case isTrue hfree =>
        obtain rfl : handle = h := by simpa using hu
        simpa using hfree
      case isFalse => exact ih hu

section Insert

variable {tp : ℤ} {r : ScheduleRecord} {h : ℤ}

theorem record_insertRecord (hid : id < s.records.length) :
    (s.insertRecord tp r h).record id = s.record id := by
  simp [record, insertRecord, List.getD_eq_getElem?_getD, List.getElem?_append_left hid]

theorem record_insertRecord_new :
    (s.insertRecord tp r h).record s.records.length = r.setHandle h := by
  simp [record, insertRecord, List.getD_eq_getElem?_getD]

theorem length_insertRecord : (s.insertRecord tp r h).records.length = s.records.length + 1 := by
  simp [insertRecord]

theorem pending_insertRecord :
    (s.insertRecord tp r h).pending id ↔ id = s.records.length ∨ s.pending id := by
  simp [pending, insertRecord]

theorem mem_insertRecord {e : ℤ × ℕ} : e ∈ (s.insertRecord tp r h).byTime.entries ↔
    e = (tp, s.records.length) ∨ e ∈ s.byTime.entries :=
  Multimap.mem_entries_insert

theorem lookup_insertRecord {k : ℤ} :
    (s.insertRecord tp r h).byHandle.lookup k =
      if k = h then some s.records.length else s.byHandle.lookup k := by
  by_cases hk : k = h
  · subst hk
    simp [insertRecord]
  · simp [insertRecord, AList.lookup_insert_ne hk, hk]

theorem Wf.insertRecord (hs : s.Wf) (hfree : s.byHandle.lookup h = none)
    (hstarted : r.exactTime = false → r.periodic = true → r.started = true)
    (hexact : r.exactTime = true → tp = r.startTime) : (s.insertRecord tp r h).Wf := by
  have hrecord : ∀ id, s.pending id → (s.insertRecord tp r h).record id = s.record id :=
    fun id hp ↦ record_insertRecord (hs.valid id hp)
  refine ⟨?_, ?_, ?_, ?_, ?_, ?_⟩
  · intro id hp
    rw [length_insertRecord]
    rcases pending_insertRecord.mp hp with rfl | hp
    · omega
    · have := hs.valid id hp
      omega
  · have hperm := s.byTime.values_insert_perm tp s.records.length
    refine hperm.nodup_iff.mpr (List.nodup_cons.mpr ⟨?_, hs.nodup⟩)
    intro hmem
    exact absurd (hs.valid _ hmem) (lt_irrefl _)
  · intro id hp
    rw [lookup_insertRecord]
    rcases pending_insertRecord.mp hp with rfl | hp
    · simp [handleOf, record_insertRecord_new]
    · have hlisted := hs.listed id hp
      have hne : s.handleOf id ≠ h := by
        rintro rfl
        simp [hfree] at hlisted
      have hhandle : (s.insertRecord tp r h).handleOf id = s.handleOf id := by
        rw [handleOf, hrecord id hp, handleOf]
      rw [hhandle, if_neg hne]
      exact hlisted
  · intro k id hk
    rw [lookup_insertRecord] at hk
    rw [length_insertRecord]
    by_cases hkh : k = h
    · obtain rfl : s.records.length = id := by simpa [hkh] using hk
      exact ⟨by omega, by simp [handleOf, record_insertRecord_new, hkh]⟩
    · rw [if_neg hkh] at hk
      obtain ⟨hlt, heq⟩ := hs.keyed k id hk
      exact ⟨by omega, by rw [handleOf, record_insertRecord hlt]; exact heq⟩
  · intro id hid
    rw [length_insertRecord] at hid
    rcases Nat.lt_succ_iff_lt_or_eq.mp hid with hlt | rfl
    · rw [record_insertRecord hlt]
      exact hs.started id hlt
    · rw [record_insertRecord_new]
      exact hstarted
  · intro k id hmem
    rcases Multimap.mem_entries_insert.mp hmem with heq | hmem
    · obtain ⟨rfl, rfl⟩ := Prod.mk.inj heq
      rw [record_insertRecord_new]
      exact hexact
    · rw [hrecord id (pending_of_mem hmem)]
      exact hs.exact_at k id hmem

end Insert

theorem getNext_started (r : ScheduleRecord) (timePoint : ℤ) (timeStr : Tm)
    (hexact : (r.getNext timePoint timeStr).2.exactTime = false)
    (hperiodic : (r.getNext timePoint timeStr).2.periodic = true) :
    (r.getNext timePoint timeStr).2.started = true := by
  unfold ScheduleRecord.getNext at *
  split_ifs at * with h₁ h₂ h₃
  · exact absurd h₁ (by simpa using hexact)
  · exact absurd hperiodic (by simpa using h₂)
  · exact h₃
  · rfl

theorem getNext_exact {r : ScheduleRecord} (hexact : r.exactTime = true) (timePoint : ℤ)
    (timeStr : Tm) : r.getNext timePoint timeStr = (r.startTime, r) := by
  simp [ScheduleRecord.getNext, hexact]

theorem getNext_cron {r : ScheduleRecord} (hcron : r.isCron) (timePoint : ℤ) (timeStr : Tm) :
    r.getNext timePoint timeStr =
      (timePoint + seconds (ScheduleRecord.remainingSeconds r.vsec timeStr.tm_sec), r) := by
  simp [ScheduleRecord.getNext, hcron.1, hcron.2]

/-- Apart from `m_started`, `getNext` leaves the record as it is. -/
theorem getNext_record (r : ScheduleRecord) (timePoint : ℤ) (timeStr : Tm) :
    ∃ b, (r.getNext timePoint timeStr).2 = r.setStarted b := by
  unfold ScheduleRecord.getNext
  split_ifs
  · exact ⟨r.started, rfl⟩
  · exact ⟨r.started, rfl⟩
  · exact ⟨r.started, rfl⟩
  · exact ⟨true, rfl⟩

/-- What the sections need of the function for the next time. -/
structure LawfulNext (next : NextTime) : Prop where
  record : ∀ r timePoint timeStr, ∃ b, (next r timePoint timeStr).2 = r.setStarted b
  started : ∀ r timePoint timeStr, (next r timePoint timeStr).2.exactTime = false →
    (next r timePoint timeStr).2.periodic = true → (next r timePoint timeStr).2.started = true
  exact : ∀ r timePoint timeStr, r.exactTime = true →
    (next r timePoint timeStr).1 = r.startTime

theorem lawfulNext_getNext : LawfulNext ScheduleRecord.getNext where
  record := getNext_record
  started := getNext_started
  exact r timePoint timeStr hexact := by rw [getNext_exact hexact]

variable {next : NextTime}

/-- One insertion, under an unused handle. -/
theorem addScheduleRecordUnlocked_eq_some (hnext : LawfulNext next) {env : Env} {now : ℤ}
    {rands : List ℤ} {r : ScheduleRecord} {s t : Store}
    (h : s.addScheduleRecordUnlockedWith next env now rands r = some t) :
    ∃ tp b handle, uniqueHandle s.byHandle r.taskHandle rands = some handle ∧
      t = s.insertRecord tp (r.setStarted b) handle := by
  obtain ⟨b, hb⟩ := hnext.record r now (env.localtime (toTimeT now))
  have hpair : next r now (env.localtime (toTimeT now)) =
      ((next r now (env.localtime (toTimeT now))).1, r.setStarted b) := Prod.ext rfl hb
  rw [addScheduleRecordUnlockedWith, hpair] at h
  obtain ⟨handle, hunique, hinsert⟩ := Option.map_eq_some_iff.mp h
  exact ⟨_, b, handle, hunique, hinsert.symm⟩

/-- The induction rule for `addScheduleRecords`: it suffices to look at one insertion
under a free handle. -/
theorem addScheduleRecordsWith_induction {env : Env} {P : Store → Prop}
    {choices : List (ℤ × List ℤ)} {rs : List ScheduleRecord} {s t : Store}
    (h : addScheduleRecordsWith next env choices rs s = some t) (hs : P s)
    (hstep : ∀ u now r handle, now ∈ choices.map Prod.fst → r ∈ rs →
      u.byHandle.lookup handle = none → P u →
      P (u.insertRecord (next r now (env.localtime (toTimeT now))).1
        (next r now (env.localtime (toTimeT now))).2 handle)) : P t := by
  induction rs generalizing choices s with
  | nil =>
      obtain rfl : s = t := by simpa [addScheduleRecordsWith] using h
      exact hs
  | cons r rest ih =>
      match choices, h with
      | (now, rands) :: choices, h =>
          obtain ⟨u, hu, hrest⟩ := Option.bind_eq_some_iff.mp h
          obtain ⟨handle, hunique, rfl⟩ := Option.map_eq_some_iff.mp hu
          apply ih hrest
          · exact hstep s now r handle (by simp) (by simp) (uniqueHandle_free hunique) hs
          · intro u now' r' handle' hnow hr
            exact hstep u now' r' handle' (List.mem_cons_of_mem _ hnow)
              (List.mem_cons_of_mem _ hr)

theorem addScheduleRecords_induction {env : Env} {P : Store → Prop}
    {choices : List (ℤ × List ℤ)} {rs : List ScheduleRecord} {s t : Store}
    (h : addScheduleRecords env choices rs s = some t) (hs : P s)
    (hstep : ∀ u now r handle, now ∈ choices.map Prod.fst → r ∈ rs →
      u.byHandle.lookup handle = none → P u →
      P (u.insertRecord (r.getNext now (env.localtime (toTimeT now))).1
        (r.getNext now (env.localtime (toTimeT now))).2 handle)) : P t :=
  addScheduleRecordsWith_induction h hs hstep

/-- A record enters a well-formed store under its next time. -/
theorem Wf.insertNext (hs : s.Wf) (hnext : LawfulNext next) (env : Env) (now : ℤ)
    (r : ScheduleRecord) {handle : ℤ} (hfree : s.byHandle.lookup handle = none) :
    (s.insertRecord (next r now (env.localtime (toTimeT now))).1
      (next r now (env.localtime (toTimeT now))).2 handle).Wf := by
  obtain ⟨b, hb⟩ := hnext.record r now (env.localtime (toTimeT now))
  apply hs.insertRecord hfree
  · exact hnext.started r _ _
  · intro hexact
    have hr : r.exactTime = true := by simpa [hb] using hexact
    rw [hb, ScheduleRecord.setStarted_startTime]
    exact hnext.exact r _ _ hr

theorem Wf.addScheduleRecordsWith (hnext : LawfulNext next) {env : Env}
    {choices : List (ℤ × List ℤ)} {rs : List ScheduleRecord} {s t : Store} (hs : s.Wf)
    (h : addScheduleRecordsWith next env choices rs s = some t) : t.Wf := by
  refine addScheduleRecordsWith_induction h hs ?_
  intro u now r handle _ _ hfree hu
  exact hu.insertNext hnext env now r hfree

theorem Wf.addScheduleRecords {env : Env} {choices : List (ℤ × List ℤ)}
    {rs : List ScheduleRecord} {s t : Store} (hs : s.Wf)
    (h : addScheduleRecords env choices rs s = some t) : t.Wf :=
  Wf.addScheduleRecordsWith lawfulNext_getNext hs h

/-! ## Removing records -/

theorem findMyTask_eq_some {clientId : String} {hndl : ℤ} :
    s.findMyTask clientId hndl = some id ↔
      s.byHandle.lookup hndl = some id ∧ (s.record id).clientId = clientId := by
  rw [findMyTask, Option.filter_eq_some_iff, decide_eq_true_iff, eq_comm (a := clientId)]

/-- A pending record shares its handle with no other record the handle index holds. -/
theorem Wf.handleOf_inj (hs : s.Wf) {k : ℕ} {h : ℤ} (hk : s.pending k)
    (hid : s.byHandle.lookup h = some id) (heq : s.handleOf k = s.handleOf id) : k = id := by
  have hlisted := hs.listed k hk
  rw [heq, (hs.keyed h id hid).2, hid] at hlisted
  exact (Option.some.inj hlisted).symm

theorem Wf.pending_removeScheduleRecordUnlocked (hs : s.Wf) {h : ℤ}
    (hid : s.byHandle.lookup h = some id) (k : ℕ) :
    (s.removeScheduleRecordUnlocked id).pending k ↔ s.pending k ∧ k ≠ id := by
  have hhandle : s.pending k → (s.handleOf k ≠ s.handleOf id ↔ k ≠ id) := by
    intro hk
    refine not_congr ⟨hs.handleOf_inj hk hid, ?_⟩
    rintro rfl
    rfl
  constructor
  · intro hp
    obtain ⟨tp, hmem⟩ := Multimap.mem_values.mp hp
    obtain ⟨hmem, hne⟩ := List.mem_filter.mp hmem
    have hk := pending_of_mem hmem
    exact ⟨hk, (hhandle hk).mp (by simpa using hne)⟩
  · rintro ⟨hk, hne⟩
    obtain ⟨tp, hmem⟩ := Multimap.mem_values.mp hk
    apply pending_of_mem (k := tp)
    refine List.mem_filter.mpr ⟨hmem, ?_⟩
    simpa using (hhandle hk).mpr hne

theorem lookup_removeScheduleRecordUnlocked (k : ℤ) :
    (s.removeScheduleRecordUnlocked id).byHandle.lookup k =
      if k = s.handleOf id then none else s.byHandle.lookup k := by
  by_cases hk : k = s.handleOf id
  · subst hk
    simp [removeScheduleRecordUnlocked, AList.lookup_erase]
  · simp [removeScheduleRecordUnlocked, AList.lookup_erase_ne hk, hk]

theorem Wf.removeScheduleRecordUnlocked (hs : s.Wf) {h : ℤ}
    (hid : s.byHandle.lookup h = some id) : (s.removeScheduleRecordUnlocked id).Wf := by
  have hpending := hs.pending_removeScheduleRecordUnlocked hid
  refine ⟨?_, ?_, ?_, ?_, hs.started, ?_⟩
  · intro k hk
    exact hs.valid k ((hpending k).mp hk).1
  · exact hs.nodup.sublist (List.filter_sublist.map Prod.snd)
  · intro k hk
    obtain ⟨hk, hne⟩ := (hpending k).mp hk
    have hhandle : s.handleOf k ≠ s.handleOf id := fun heq ↦ hne (hs.handleOf_inj hk hid heq)
    rw [lookup_removeScheduleRecordUnlocked]
    exact (if_neg hhandle).trans (hs.listed k hk)
  · intro k n hk
    rw [lookup_removeScheduleRecordUnlocked] at hk
    split at hk
    case isTrue => simp at hk
    case isFalse => exact hs.keyed k n hk
  · intro tp k hmem
    exact hs.exact_at tp k (List.mem_of_mem_filter hmem)

theorem Wf.removeTask (hs : s.Wf) (clientId : String) (hndl : ℤ) :
    (s.removeTask clientId hndl).Wf := by
  unfold Store.removeTask
  cases hfind : s.findMyTask clientId hndl with
  | none => exact hs
  | some id => exact hs.removeScheduleRecordUnlocked (findMyTask_eq_some.mp hfind).1

theorem Wf.pending_removeTask (hs : s.Wf) (clientId : String) (hndl : ℤ) (k : ℕ) :
    (s.removeTask clientId hndl).pending k ↔
      s.pending k ∧ s.findMyTask clientId hndl ≠ some k := by
  unfold Store.removeTask
  cases hfind : s.findMyTask clientId hndl with
  | none => simp
  | some id =>
      have hid := (findMyTask_eq_some.mp hfind).1
      simpa [eq_comm] using hs.pending_removeScheduleRecordUnlocked hid k

theorem Wf.findMyTask_removeTask (hs : s.Wf) (clientId : String) (hndl k : ℤ) :
    (s.removeTask clientId hndl).findMyTask clientId k =
      if k = hndl then none else s.findMyTask clientId k := by
  unfold Store.removeTask
  cases hfind : s.findMyTask clientId hndl with
  | none =>
      by_cases hk : k = hndl
      · simp [hk, hfind]
      · simp [hk]
  | some id =>
      have hhandle := (hs.keyed hndl id (findMyTask_eq_some.mp hfind).1).2
      have hlookup : (s.removeScheduleRecordUnlocked id).byHandle.lookup k = _ :=
        lookup_removeScheduleRecordUnlocked k
      rw [hhandle] at hlookup
      by_cases hk : k = hndl
      · simp [findMyTask, hlookup, hk]
      · simp only [findMyTask, hlookup, if_neg hk]
        rfl

theorem Wf.removeTasks (hs : s.Wf) (clientId : String) (hndls : List ℤ) :
    (s.removeTasks clientId hndls).Wf := by
  induction hndls generalizing s with
  | nil => exact hs
  | cons hndl rest ih => exact ih (hs.removeTask clientId hndl)

theorem Wf.pending_removeTasks (hs : s.Wf) (clientId : String) (hndls : List ℤ) (k : ℕ) :
    (s.removeTasks clientId hndls).pending k ↔
      s.pending k ∧ ∀ hndl ∈ hndls, s.findMyTask clientId hndl ≠ some k := by
  induction hndls generalizing s with
  | nil => simp [Store.removeTasks]
  | cons hndl rest ih =>
      have hrest := ih (hs.removeTask clientId hndl)
      rw [hs.pending_removeTask, and_assoc] at hrest
      refine hrest.trans (and_congr_right fun _ ↦ ?_)
      rw [List.forall_mem_cons]
      refine and_congr_right fun hne ↦ forall₂_congr fun h _ ↦ ?_
      rw [hs.findMyTask_removeTask]
      by_cases hh : h = hndl
      · subst hh
        simp [hne]
      · rw [if_neg hh]

theorem lookup_foldl_erase (f : ℕ → ℤ) (ids : List ℕ) (m : AList fun _ : ℤ ↦ ℕ) (k : ℤ) :
    (ids.foldl (fun m id ↦ m.erase (f id)) m).lookup k =
      if k ∈ ids.map f then none else m.lookup k := by
  induction ids generalizing m with
  | nil => simp
  | cons id rest ih =>
      rw [List.foldl_cons, ih]
      by_cases hk : k = f id
      · subst hk
        simp [AList.lookup_erase]
      · simp [AList.lookup_erase_ne hk, hk]

theorem mem_myTasks {clientId : String} {k : ℕ} :
    k ∈ s.myTasks clientId ↔ s.pending k ∧ (s.record k).clientId = clientId := by
  simp [myTasks, pending]

theorem pending_removeAllMyTasks (clientId : String) (k : ℕ) :
    (s.removeAllMyTasks clientId).pending k ↔ s.pending k ∧ k ∉ s.myTasks clientId := by
  have hmem : k ∉ s.myTasks clientId ∧ s.pending k ↔
      s.pending k ∧ (s.record k).clientId ≠ clientId := by
    rw [mem_myTasks]
    tauto
  rw [and_comm (b := k ∉ _), hmem]
  constructor
  · intro hp
    obtain ⟨tp, he⟩ := Multimap.mem_values.mp hp
    obtain ⟨he, hne⟩ := List.mem_filter.mp he
    exact ⟨pending_of_mem he, by simpa using hne⟩
  · rintro ⟨hp, hne⟩
    obtain ⟨tp, he⟩ := Multimap.mem_values.mp hp
    apply pending_of_mem (k := tp)
    exact List.mem_filter.mpr ⟨he, by simpa using hne⟩

theorem lookup_removeAllMyTasks (clientId : String) (k : ℤ) :
    (s.removeAllMyTasks clientId).byHandle.lookup k =
      if k ∈ (s.myTasks clientId).map s.handleOf then none else s.byHandle.lookup k :=
  lookup_foldl_erase s.handleOf _ _ k

theorem Wf.removeAllMyTasks (hs : s.Wf) (clientId : String) :
    (s.removeAllMyTasks clientId).Wf := by
  refine ⟨?_, ?_, ?_, ?_, hs.started, ?_⟩
  · intro k hk
    exact hs.valid k ((pending_removeAllMyTasks clientId k).mp hk).1
  · exact hs.nodup.sublist (List.filter_sublist.map Prod.snd)
  · intro k hk
    obtain ⟨hk, hnot⟩ := (pending_removeAllMyTasks clientId k).mp hk
    have hhandle : s.handleOf k ∉ (s.myTasks clientId).map s.handleOf := by
      rw [List.mem_map]
      rintro ⟨n, hn, heq⟩
      have hn' := (mem_myTasks.mp hn).1
      obtain rfl := hs.handleOf_inj hk (hs.listed n hn') heq.symm
      exact hnot hn
    rw [lookup_removeAllMyTasks]
    exact (if_neg hhandle).trans (hs.listed k hk)
  · intro k n hk
    rw [lookup_removeAllMyTasks] at hk
    split at hk
    case isTrue => simp at hk
    case isFalse => exact hs.keyed k n hk
  · intro tp k hmem
    exact hs.exact_at tp k (List.mem_of_mem_filter hmem)

/-- The records a removal is about: those its handles lead to, or all pending ones of
the client. -/
def targets (s : Store) : Removal → List ℕ
  | .removeTask clientId hndl => (s.findMyTask clientId hndl).toList
  | .removeTasks clientId hndls => hndls.filterMap (s.findMyTask clientId)
  | .removeAllMyTasks clientId => s.myTasks clientId

theorem Wf.remove (hs : s.Wf) (removal : Removal) : (s.remove removal).Wf := by
  cases removal with
  | removeTask clientId hndl => exact hs.removeTask clientId hndl
  | removeTasks clientId hndls => exact hs.removeTasks clientId hndls
  | removeAllMyTasks clientId => exact hs.removeAllMyTasks clientId

/-- A removal takes out its targets and nothing else. -/
theorem Wf.pending_remove (hs : s.Wf) (removal : Removal) (k : ℕ) :
    (s.remove removal).pending k ↔ s.pending k ∧ k ∉ s.targets removal := by
  cases removal with
  | removeTask clientId hndl =>
      simpa [Store.remove, targets, eq_comm] using hs.pending_removeTask clientId hndl k
  | removeTasks clientId hndls =>
      simpa [Store.remove, targets] using hs.pending_removeTasks clientId hndls k
  | removeAllMyTasks clientId => exact pending_removeAllMyTasks clientId k

theorem mem_of_mem_remove {removal : Removal} {e : ℤ × ℕ}
    (he : e ∈ (s.remove removal).byTime.entries) : e ∈ s.byTime.entries := by
  have hone : ∀ {u : Store} {clientId : String} {hndl : ℤ},
      e ∈ (u.removeTask clientId hndl).byTime.entries → e ∈ u.byTime.entries := by
    intro u clientId hndl hmem
    unfold Store.removeTask at hmem
    split at hmem
    · exact hmem
    · exact List.mem_of_mem_filter hmem
  cases removal with
  | removeTask clientId hndl => exact hone he
  | removeTasks clientId hndls =>
      simp only [Store.remove] at he
      induction hndls generalizing s with
      | nil => exact he
      | cons hndl rest ih => exact hone (ih he)
  | removeAllMyTasks clientId => exact List.mem_of_mem_filter he

theorem records_remove (removal : Removal) : (s.remove removal).records = s.records := by
  have hone : ∀ (u : Store) (clientId : String) (hndl : ℤ),
      (u.removeTask clientId hndl).records = u.records := by
    intro u clientId hndl
    unfold Store.removeTask
    split <;> rfl
  cases removal with
  | removeTask clientId hndl => exact hone s clientId hndl
  | removeTasks clientId hndls =>
      simp only [Store.remove]
      induction hndls generalizing s with
      | nil => rfl
      | cons hndl rest ih =>
          exact (ih (s := s.removeTask clientId hndl)).trans (hone s clientId hndl)
  | removeAllMyTasks clientId => rfl

/-! ## The timer -/

theorem due_eq_some {timePoint : ℤ} {e : ℤ × ℕ} (h : s.due timePoint = some e) :
    ∃ rest, s.byTime.entries = e :: rest ∧ e.1 < timePoint := by
  obtain ⟨hhead, hlt⟩ := Option.filter_eq_some_iff.mp h
  obtain ⟨rest, hrest⟩ := List.head?_eq_some_iff.mp hhead
  exact ⟨rest, hrest, by simpa using hlt⟩

section Reschedule

variable {next : NextTime} {timePoint : ℤ} {timeStr : Tm}

theorem record_reschedule (hid : id < s.records.length) (k : ℕ) :
    (s.rescheduleWith next id timePoint timeStr).record k =
      if k = id then (next (s.record id) timePoint timeStr).2 else s.record k := by
  by_cases hk : k = id
  · subst hk
    simp [record, rescheduleWith, List.getD_eq_getElem?_getD, hid]
  · simp [record, rescheduleWith, List.getD_eq_getElem?_getD, List.getElem?_set_ne (Ne.symm hk), hk]

theorem record_reschedule_eq (hnext : LawfulNext next) (hid : id < s.records.length) (k : ℕ) :
    ∃ b, (s.rescheduleWith next id timePoint timeStr).record k = (s.record k).setStarted b := by
  rw [record_reschedule hid]
  split
  case isTrue hk =>
    subst hk
    exact hnext.record _ _ _
  case isFalse => exact ⟨(s.record k).started, rfl⟩

theorem length_reschedule :
    (s.rescheduleWith next id timePoint timeStr).records.length = s.records.length := by
  simp [rescheduleWith]

theorem mem_reschedule (e : ℤ × ℕ) :
    e ∈ (s.rescheduleWith next id timePoint timeStr).byTime.entries ↔
      (timePoint ≤ (next (s.record id) timePoint timeStr).1 ∧
        e = ((next (s.record id) timePoint timeStr).1, id)) ∨ e ∈ s.byTime.entries.tail := by
  by_cases hle : timePoint ≤ (next (s.record id) timePoint timeStr).1
  · simp [rescheduleWith, hle]
  · simp [rescheduleWith, hle]

end Reschedule

section Due

variable {next : NextTime} {timePoint : ℤ} {timeStr : Tm} {e : ℤ × ℕ}

theorem Wf.pending_due (hdue : s.due timePoint = some e) : s.pending e.2 := by
  obtain ⟨rest, hentries, -⟩ := due_eq_some hdue
  apply pending_of_mem (k := e.1)
  simp [hentries]

/-- A due one-shot record is not inserted again. -/
theorem Wf.next_lt_of_exact (hs : s.Wf) (hnext : LawfulNext next) (hdue : s.due timePoint = some e)
    (hexact : (s.record e.2).exactTime = true) :
    (next (s.record e.2) timePoint timeStr).1 < timePoint := by
  obtain ⟨rest, hentries, hlt⟩ := due_eq_some hdue
  have hmem : (e.1, e.2) ∈ s.byTime.entries := by simp [hentries]
  rw [hnext.exact _ _ _ hexact, ← hs.exact_at e.1 e.2 hmem hexact]
  exact hlt

/-- A due periodic record has been started. -/
theorem Wf.started_of_due (hs : s.Wf) (hdue : s.due timePoint = some e)
    (hexact : (s.record e.2).exactTime = false) (hperiodic : (s.record e.2).periodic = true) :
    (s.record e.2).started = true :=
  hs.started e.2 (hs.valid e.2 (Wf.pending_due hdue)) hexact hperiodic

/-- A due record stays pending if and only if its next time is not over. -/
theorem Wf.pending_timerSectionWith (hs : s.Wf) (hdue : s.due timePoint = some e) (k : ℕ) :
    (s.timerSectionWith next timePoint timeStr).pending k ↔
      s.pending k ∧ (k = e.2 → timePoint ≤ (next (s.record e.2) timePoint timeStr).1) := by
  obtain ⟨rest, hentries, hlt⟩ := due_eq_some hdue
  have hnodup : e.2 ∉ rest.map Prod.snd := by
    have := hs.nodup
    rw [Multimap.values, hentries] at this
    exact (List.nodup_cons.mp this).1
  have hpending : s.pending k ↔ k = e.2 ∨ k ∈ rest.map Prod.snd := by
    simp [pending, Multimap.values, hentries]
  have hafter : (s.timerSectionWith next timePoint timeStr).pending k ↔
      timePoint ≤ (next (s.record e.2) timePoint timeStr).1 ∧ k = e.2 ∨
        k ∈ rest.map Prod.snd := by
    simp only [timerSectionWith, hdue, pending, Multimap.mem_values, mem_reschedule, hentries,
      List.tail_cons, List.mem_map, Prod.exists, exists_eq_right]
    constructor
    · rintro ⟨tp, ⟨hle, heq⟩ | hmem⟩
      · exact Or.inl ⟨hle, (Prod.mk.inj heq).2⟩
      · exact Or.inr ⟨tp, hmem⟩
    · rintro (⟨hle, rfl⟩ | ⟨tp, hmem⟩)
      · exact ⟨_, Or.inl ⟨hle, rfl⟩⟩
      · exact ⟨tp, Or.inr hmem⟩
  rw [hafter, hpending]
  constructor
  · rintro (⟨hle, rfl⟩ | hmem)
    · exact ⟨Or.inl rfl, fun _ ↦ hle⟩
    · refine ⟨Or.inr hmem, ?_⟩
      rintro rfl
      exact absurd hmem hnodup
  · rintro ⟨rfl | hmem, hle⟩
    · exact Or.inl ⟨hle rfl, rfl⟩
    · exact Or.inr hmem

end Due

section TimerSection

variable {next : NextTime} {timePoint : ℤ} {timeStr : Tm}

theorem timerSectionWith_of_due_none (h : s.due timePoint = none) :
    s.timerSectionWith next timePoint timeStr = s := by
  simp [timerSectionWith, h]

theorem byHandle_timerSectionWith :
    (s.timerSectionWith next timePoint timeStr).byHandle = s.byHandle := by
  unfold timerSectionWith
  cases s.due timePoint <;> rfl

theorem length_timerSectionWith :
    (s.timerSectionWith next timePoint timeStr).records.length = s.records.length := by
  unfold timerSectionWith
  cases s.due timePoint with
  | none => rfl
  | some e => exact length_reschedule

theorem Wf.record_timerSectionWith (hs : s.Wf) (hnext : LawfulNext next) (k : ℕ) :
    ∃ b, (s.timerSectionWith next timePoint timeStr).record k = (s.record k).setStarted b := by
  cases hdue : s.due timePoint with
  | none => exact ⟨(s.record k).started, by rw [timerSectionWith_of_due_none hdue]; rfl⟩
  | some e =>
      have hvalid := hs.valid e.2 (Wf.pending_due hdue)
      simpa [timerSectionWith, hdue] using record_reschedule_eq hnext hvalid k

theorem Wf.handleOf_timerSectionWith (hs : s.Wf) (hnext : LawfulNext next) (k : ℕ) :
    (s.timerSectionWith next timePoint timeStr).handleOf k = s.handleOf k := by
  obtain ⟨b, hb⟩ := hs.record_timerSectionWith hnext k
  rw [handleOf, hb, handleOf, ScheduleRecord.setStarted_taskHandle]

theorem Wf.timerSectionWith (hs : s.Wf) (hnext : LawfulNext next) :
    (s.timerSectionWith next timePoint timeStr).Wf := by
  cases hdue : s.due timePoint with
  | none =>
      rw [timerSectionWith_of_due_none hdue]
      exact hs
  | some e =>
      obtain ⟨rest, hentries, hlt⟩ := due_eq_some hdue
      have hvalid := hs.valid e.2 (Wf.pending_due hdue)
      have hpending : ∀ k, (s.timerSectionWith next timePoint timeStr).pending k → _ :=
        fun k ↦ (hs.pending_timerSectionWith hdue k).mp
      refine ⟨?_, ?_, ?_, ?_, ?_, ?_⟩
      · intro k hk
        rw [length_timerSectionWith]
        exact hs.valid k (hpending k hk).1
      · have hnodup := hs.nodup
        simp only [Multimap.values, hentries, List.map_cons, List.nodup_cons] at hnodup
        have htail : s.byTime.eraseBegin.values = rest.map Prod.snd := by
          simp [Multimap.values, hentries]
        simp only [Store.timerSectionWith, hdue, rescheduleWith]
        split
        case isTrue =>
          refine (Multimap.values_insert_perm _ _ _).nodup_iff.mpr ?_
          rw [htail]
          exact List.nodup_cons.mpr hnodup
        case isFalse =>
          rw [htail]
          exact hnodup.2
      · intro k hk
        rw [byHandle_timerSectionWith, hs.handleOf_timerSectionWith hnext]
        exact hs.listed k (hpending k hk).1
      · intro h k hk
        rw [byHandle_timerSectionWith] at hk
        rw [length_timerSectionWith, hs.handleOf_timerSectionWith hnext]
        exact hs.keyed h k hk
      · intro k hk
        rw [length_timerSectionWith] at hk
        simp only [Store.timerSectionWith, hdue, record_reschedule hvalid]
        split
        case isTrue => exact hnext.started _ _ _
        case isFalse => exact hs.started k hk
      · intro tp k hmem
        obtain ⟨b, hb⟩ := hs.record_timerSectionWith hnext k
        rw [hb]
        simp only [Store.timerSectionWith, hdue] at hmem
        rcases (mem_reschedule (tp, k)).mp hmem with ⟨hle, heq⟩ | hmem
        · intro hexact
          obtain ⟨rfl, rfl⟩ := Prod.mk.inj heq
          rw [ScheduleRecord.setStarted_startTime]
          exact hnext.exact _ _ _ (by simpa using hexact)
        · exact hs.exact_at tp k (List.mem_of_mem_tail hmem)

end TimerSection

end Store

/-- The records the timer schedules again after a firing: all but the one-shot ones
and those with a negative period. -/
def ScheduleRecord.recurring (r : ScheduleRecord) : Prop :=
  r.exactTime = false ∧ (r.periodic = true → 0 ≤ r.period)

instance (r : ScheduleRecord) : Decidable r.recurring := inferInstanceAs (Decidable (_ ∧ _))

namespace Store

variable {s : Store} {timePoint : ℤ}

/-! ## The timer over the integers -/

theorem Wf.le_getNext_iff (hs : s.Wf) {e : ℤ × ℕ} (hdue : s.due timePoint = some e)
    (timeStr : Tm) :
    timePoint ≤ ((s.record e.2).getNext timePoint timeStr).1 ↔ (s.record e.2).recurring := by
  cases hexact : (s.record e.2).exactTime with
  | true =>
      have hlt : ((s.record e.2).getNext timePoint timeStr).1 < timePoint :=
        hs.next_lt_of_exact lawfulNext_getNext hdue hexact
      refine iff_of_false (not_le.mpr hlt) ?_
      simp [ScheduleRecord.recurring, hexact]
  | false =>
      cases hperiodic : (s.record e.2).periodic with
      | true =>
          have hstarted := hs.started_of_due hdue hexact hperiodic
          simp only [ScheduleRecord.getNext, ScheduleRecord.recurring, hexact, hperiodic, hstarted,
            seconds]
          simp only [Bool.false_eq_true, if_false, Bool.not_true, if_true, true_and, true_implies]
          omega
      | false =>
          have hnext := ScheduleRecord.remainingSeconds_nonneg
            ((s.record e.2).seconds_ok hexact hperiodic) timeStr
          have hle : timePoint ≤ ((s.record e.2).getNext timePoint timeStr).1 := by
            simp only [ScheduleRecord.getNext, hexact, hperiodic, seconds]
            simp only [Bool.false_eq_true, if_false, Bool.not_false, if_true]
            omega
          simp [hle, ScheduleRecord.recurring, hexact, hperiodic]

/-- A due record stays pending if and only if it is a recurring one. -/
theorem Wf.pending_timerSection (hs : s.Wf) {timeStr : Tm} {e : ℤ × ℕ}
    (hdue : s.due timePoint = some e) (k : ℕ) :
    (s.timerSection timePoint timeStr).pending k ↔
      s.pending k ∧ (k = e.2 → (s.record e.2).recurring) := by
  rw [← hs.le_getNext_iff hdue timeStr]
  exact hs.pending_timerSectionWith hdue k

theorem Wf.timerSection (hs : s.Wf) (timePoint : ℤ) (timeStr : Tm) :
    (s.timerSection timePoint timeStr).Wf :=
  hs.timerSectionWith lawfulNext_getNext

theorem timerSection_of_due_none {timeStr : Tm} (h : s.due timePoint = none) :
    s.timerSection timePoint timeStr = s :=
  timerSectionWith_of_due_none h

theorem timerSection_of_due_some {timeStr : Tm} {e : ℤ × ℕ} (h : s.due timePoint = some e) :
    s.timerSection timePoint timeStr =
      s.rescheduleWith ScheduleRecord.getNext e.2 timePoint timeStr := by
  rw [timerSection, timerSectionWith, h]

theorem byHandle_timerSection (timePoint : ℤ) (timeStr : Tm) :
    (s.timerSection timePoint timeStr).byHandle = s.byHandle :=
  byHandle_timerSectionWith

theorem Wf.record_timerSection (hs : s.Wf) (timePoint : ℤ) (timeStr : Tm) (k : ℕ) :
    ∃ b, (s.timerSection timePoint timeStr).record k = (s.record k).setStarted b :=
  hs.record_timerSectionWith lawfulNext_getNext k

end Store

end IqrfDaemon.Scheduler
