import IqrfDaemon.Scheduler.Overflow
import IqrfDaemon.Scheduler.Pending

/-!
# No loss and no duplication of pending tasks

The timer thread among its callers once more, with time points of 64 bits.  No
record ever has two entries in the time index, and a one-shot record is pushed at
most once.  A recurring record that was not removed has its entry as long as the
timer finds none whose next time wraps.  Runs in which no time point wraps are runs
of the system over the integers.
-/

namespace IqrfDaemon.Scheduler

open Json Container Transition

namespace State

/-- The locked part of the inner loop. -/
def innerSection64 (s : State) : State :=
  let store := s.store.timerSection64 s.timePoint s.timeStr
  { s with
    store := store
    timePoint := store.nextWakeup64 s.timePoint
    timer :=
      match s.store.due s.timePoint with
      | none => .testRun
      | some e => .dispatch ⟨e.2, e.1, s.reading⟩ }

def addStep64 (env : Env) (s : State) (request : Request) (rands : List (List ℤ)) :
    Option State :=
  if s.adder = none then
    match request.records env with
    | .ok rs =>
        (Store.addScheduleRecords64 env (rands.map fun r ↦ (s.now, r)) rs s.store).map
          fun store ↦ { s with store := store, adder := some .inserted }
    | .error .abort => none
    | .error _ => some s
  else none

/-- The other steps compute no time point. -/
def step64 (env : Env) (s : State) : Action → Option State
  | .add request rands => s.addStep64 env request rands
  | .timer =>
      if s.timer = .locked then
        if s.adder = none then some s.innerSection64 else none
      else s.timerStep env
  | a => s.step env a

end State

def system64 (env : Env) : System State Action where
  init s := ∃ now, s = State.create env now
  step := State.step64 env

variable {env : Env} {s t : State}

/-! ## What one step can do -/

/-- A step does not touch the records, or it is one of the three that do. -/
inductive Moves64 (env : Env) (s : State) : Action → State → Prop
  | quiet (a : Action) (t : State) (h : Quiet s t) (log : s.dispatched ⊆ t.dispatched)
      (unlocked : a = .timer → s.timer ≠ .locked) (same : s.step env a = some t) :
      Moves64 env s a t
  | locked (at_pc : s.timer = .locked) (free : s.adder = none) :
      Moves64 env s .timer s.innerSection64
  | add (request : Request) (rands : List (List ℤ)) (rs : List ScheduleRecord) (store : Store)
      (free : s.adder = none) (ok : request.records env = .ok rs)
      (added :
        Store.addScheduleRecords64 env (rands.map fun r ↦ (s.now, r)) rs s.store = some store) :
      Moves64 env s (.add request rands) { s with store := store, adder := some .inserted }
  | remove (removal : Removal) (free : s.adder = none) :
      Moves64 env s (.remove removal)
        { s with
          store := s.store.remove removal
          removed := s.removed ++ s.store.targets removal }

theorem Moves.dispatched {a : Action} (h : Moves env s a t) : s.dispatched ⊆ t.dispatched := by
  cases h with
  | dispatch f at_pc =>
      simp only [State.dispatchStep]
      split
      · exact List.subset_append_left _ _
      · exact List.Subset.refl _
  | _ => exact List.Subset.refl _

/-- The steps that both systems share. -/
theorem moves64_of_moves {a : Action} (hstep : s.step env a = some t)
    (hadd : ∀ request rands, a ≠ .add request rands)
    (hunlocked : a = .timer → s.timer ≠ .locked) : Moves64 env s a t := by
  have hmove := moves_of_step hstep
  have hlog := hmove.dispatched
  cases hmove.effect with
  | quiet a t h => exact .quiet a t h hlog hunlocked hstep
  | locked at_pc => exact absurd at_pc (hunlocked rfl)
  | add request rands rs store ok added => exact absurd rfl (hadd request rands)
  | remove removal =>
      simp only [State.step, Option.ite_none_right_eq_some] at hstep
      exact .remove removal hstep.1

theorem moves64_of_step {a : Action} (h : s.step64 env a = some t) : Moves64 env s a t := by
  cases a with
  | add request rands =>
      simp only [State.step64, State.addStep64, Option.ite_none_right_eq_some] at h
      obtain ⟨hfree, h⟩ := h
      split at h
      case h_1 rs hok =>
        obtain ⟨store, hadded, rfl⟩ := Option.map_eq_some_iff.mp h
        exact .add request rands rs store hfree hok hadded
      case h_2 => simp at h
      case h_3 e hne hok =>
        obtain rfl := Option.some.inj h
        refine .quiet _ _ (.of_same rfl rfl le_rfl rfl rfl rfl rfl) (List.Subset.refl _)
          (by simp) ?_
        simp only [State.step, State.addStep, if_pos hfree, hok]
  | timer =>
      simp only [State.step64] at h
      split at h
      case isTrue hpc =>
        rw [Option.ite_none_right_eq_some] at h
        obtain ⟨hfree, h⟩ := h
        obtain rfl := Option.some.inj h
        exact .locked hpc hfree
      case isFalse hpc => exact moves64_of_moves h (by simp) fun _ ↦ hpc
  | _ => exact moves64_of_moves h (by simp) (by simp)

/-! ## Runs in which no time point wraps -/

/-- Every time point the step computes is in range. -/
def InRange (env : Env) (s : State) : Action → Prop
  | .add request _ => ∀ rs, request.records env = .ok rs → ∀ r ∈ rs,
      Representable (r.getNext s.now (env.localtime (toTimeT s.now))).1
  | .timer => s.timer = .locked →
      Representable (s.timePoint + seconds 10) ∧ ∀ e, s.store.due s.timePoint = some e →
        Representable ((s.store.record e.2).getNext s.timePoint s.timeStr).1
  | _ => True

theorem Store.addScheduleRecordsWith_congr {next next' : NextTime} {choices : List (ℤ × List ℤ)}
    {rs : List ScheduleRecord} {store : Store}
    (h : ∀ now ∈ choices.map Prod.fst, ∀ r ∈ rs, next r now (env.localtime (toTimeT now)) =
      next' r now (env.localtime (toTimeT now))) :
    Store.addScheduleRecordsWith next env choices rs store =
      Store.addScheduleRecordsWith next' env choices rs store := by
  induction rs generalizing choices store with
  | nil => simp [Store.addScheduleRecordsWith]
  | cons r rest ih =>
      cases choices with
      | nil => rfl
      | cons choice choices =>
          have hfirst := h choice.1 (by simp) r (by simp)
          have hrest : ∀ u : Store, Store.addScheduleRecordsWith next env choices rest u =
              Store.addScheduleRecordsWith next' env choices rest u := fun u ↦
            ih fun now hnow r hr ↦ h now (List.mem_cons_of_mem _ hnow) r (List.mem_cons_of_mem _ hr)
          simp only [Store.addScheduleRecordsWith, Store.addScheduleRecordUnlockedWith, hfirst]
          exact congrArg _ (funext hrest)

theorem innerSection64_eq (hpc : s.timer = .locked) (h : InRange env s .timer) :
    s.innerSection64 = s.innerSection := by
  obtain ⟨hwake, hnext⟩ := h hpc
  have hstore : s.store.timerSection64 s.timePoint s.timeStr =
      s.store.timerSection s.timePoint s.timeStr := by
    rw [Store.timerSection64, Store.timerSection, Store.timerSectionWith, Store.timerSectionWith]
    cases hdue : s.store.due s.timePoint with
    | none => rfl
    | some e =>
        simp only [Store.rescheduleWith, ScheduleRecord.getNext64_eq (hnext e hdue)]
  have hpoint : ∀ store : Store, store.nextWakeup64 s.timePoint = store.nextWakeup s.timePoint := by
    intro store
    unfold Store.nextWakeup64 Store.nextWakeup
    cases store.byTime.entries.head? with
    | none => exact wrap_of_representable hwake
    | some e => rfl
  unfold State.innerSection64 State.innerSection
  cases hdue : s.store.due s.timePoint with
  | none => simp only [hstore, hpoint]
  | some e => simp only [hstore, hpoint]

theorem step64_eq_step {a : Action} (h : InRange env s a) : s.step64 env a = s.step env a := by
  cases a with
  | add request rands =>
      have hadd : ∀ rs, request.records env = .ok rs →
          Store.addScheduleRecords64 env (rands.map fun r ↦ (s.now, r)) rs s.store =
            Store.addScheduleRecords env (rands.map fun r ↦ (s.now, r)) rs s.store := by
        intro rs hok
        apply Store.addScheduleRecordsWith_congr
        intro now hnow r hr
        obtain rfl : s.now = now := by
          rw [List.map_map, List.mem_map] at hnow
          exact hnow.choose_spec.2
        exact ScheduleRecord.getNext64_eq (h rs hok r hr)
      simp only [State.step64, State.addStep64, State.step, State.addStep]
      cases hok : request.records env with
      | ok rs => simp only [hadd rs hok]
      | error e => cases e <;> rfl
  | timer =>
      simp only [State.step64, State.step]
      split
      case isTrue hpc => simp only [innerSection64_eq hpc h, State.timerStep, hpc]
      case isFalse => rfl
  | _ => rfl

/-- A run in which no time point wraps is a run over the integers. -/
theorem reachable_of_inRange (h : (system64 env).ReachableVia (InRange env) s) :
    (system env).Reachable s := by
  have hinit : ∀ s, (system64 env).init s → (system env).init (id s) := fun s hs ↦ hs
  refine System.ReachableVia.map id hinit ?_ h
  intro s a t _ hrange hstep
  exact System.Reaches.step .refl trivial ((step64_eq_step hrange).symm.trans hstep)

/-! ## The account of every run -/

theorem inHand_innerSection64 (s : State) : s.innerSection64.timer.inHand.map Firing.record =
    (s.store.due s.timePoint).toList.map Prod.snd := by
  unfold State.innerSection64
  cases s.store.due s.timePoint <;> rfl

theorem State.Accounted.move64 (hs : s.Accounted) {a : Action} (h : Moves64 env s a t) :
    t.Accounted := by
  cases h with
  | quiet a t h => exact hs.quiet h
  | locked at_pc =>
      exact hs.locked Store.lawfulNext_getNext64
        (fired_of_locked at_pc rfl (inHand_innerSection64 s)) rfl rfl
  | add request rands rs store free ok added =>
      exact Scheduler.Accounted.addScheduleRecords hs Store.lawfulNext_getNext64 added
  | remove removal => exact Scheduler.Accounted.remove hs removal

theorem accounted_of_reachable64 (h : (system64 env).Reachable s) : s.Accounted := by
  refine System.Reachable.invariant ?_ ?_ h
  · rintro s ⟨now, rfl⟩
    exact State.create_accounted env now
  · intro s a t hs hstep
    exact hs.move64 (moves64_of_step hstep)

/-- A record that exists stays what it is, up to `m_started`. -/
theorem Moves64.record (hs : s.store.Wf) {a : Action} (h : Moves64 env s a t) {id : ℕ}
    (hid : id < s.store.records.length) :
    ∃ b, t.store.record id = (s.store.record id).setStarted b := by
  have hsame : ∃ b, s.store.record id = (s.store.record id).setStarted b :=
    ⟨(s.store.record id).started, rfl⟩
  cases h with
  | quiet a t h =>
      rw [h.store]
      exact hsame
  | locked at_pc => exact hs.record_timerSectionWith Store.lawfulNext_getNext64 id
  | add request rands rs store free ok added =>
      obtain ⟨-, hrecord⟩ := Store.record_addScheduleRecords added
      change ∃ b, store.record id = _
      rw [hrecord id hid]
      exact hsame
  | remove removal =>
      change ∃ b, (s.store.remove removal).record id = _
      rw [Store.record_remove]
      exact hsame

theorem Moves64.dispatched {a : Action} (h : Moves64 env s a t) :
    s.dispatched ⊆ t.dispatched := by
  cases h with
  | quiet a t h log => exact log
  | _ => exact List.Subset.refl _

/-- Once pushed, a one-shot record is never pending again. -/
theorem not_pending_of_dispatched (h : (system64 env).Reachable s) {id : ℕ}
    (hexact : (s.store.record id).exactTime = true)
    (hid : id ∈ s.dispatched.map Firing.record)
    (hreach : (system64 env).Reaches System.AnyStep s t) : ¬ t.store.pending id := by
  have hfired : ∀ {r : State}, id ∈ r.dispatched.map Firing.record → id ∈ r.fired := by
    intro r hr
    rw [State.fired, List.map_append]
    exact List.mem_append_left _ hr
  have hall : (system64 env).Reachable t ∧ (t.store.record id).exactTime = true ∧
      id ∈ t.dispatched.map Firing.record := by
    refine hreach.preserves (I := fun t ↦ (system64 env).Reachable t ∧
      (t.store.record id).exactTime = true ∧ id ∈ t.dispatched.map Firing.record) ?_
      ⟨h, hexact, hid⟩
    rintro t a r ⟨ht, hexact, hid⟩ - hstep
    have hmove := moves64_of_step hstep
    have hs := accounted_of_reachable64 ht
    obtain ⟨b, hb⟩ := hmove.record hs.wf (hs.known id (hfired hid))
    refine ⟨ht.step hstep, ?_, List.map_subset _ hmove.dispatched hid⟩
    rw [hb, ScheduleRecord.setStarted_exactTime]
    exact hexact
  obtain ⟨ht, hexact, hid⟩ := hall
  exact (accounted_of_reachable64 ht).gone id (hfired hid) hexact

/-! ## The runs that lose no recurring record -/

/-- Every recurring record that was not removed is pending. -/
def Kept (store : Store) (removed : List ℕ) : Prop :=
  ∀ id < store.records.length, (store.record id).recurring → id ∉ removed → store.pending id

section Kept

variable {store : Store} {fired removed : List ℕ}

theorem Kept.addScheduleRecords (hs : Kept store removed) {choices : List (ℤ × List ℤ)}
    {rs : List ScheduleRecord} {after : Store}
    (h : Store.addScheduleRecords64 env choices rs store = some after) : Kept after removed := by
  refine Store.addScheduleRecordsWith_induction (P := fun u ↦ Kept u removed) h hs ?_
  intro u now r handle _ _ _ hu id hid hrecurring hremoved
  rw [Store.length_insertRecord] at hid
  rw [Store.pending_insertRecord]
  rcases Nat.lt_succ_iff_lt_or_eq.mp hid with hlt | rfl
  · rw [Store.record_insertRecord hlt] at hrecurring
    exact Or.inr (hu id hlt hrecurring hremoved)
  · exact Or.inl rfl

theorem Kept.remove (hs : Kept store removed) (hwf : store.Wf) (removal : Removal) :
    Kept (store.remove removal) (removed ++ store.targets removal) := by
  intro id hid hrecurring hremoved
  rw [store.records_remove] at hid
  rw [Store.record_remove] at hrecurring
  rw [List.mem_append, not_or] at hremoved
  exact (hwf.pending_remove removal id).mpr ⟨hs id hid hrecurring hremoved.1, hremoved.2⟩

/-- The timer loses the record it takes out if and only if that is a recurring one whose
next time wraps below the present one. -/
theorem Kept.timerSection_iff (hs : Kept store removed) (hacc : Accounted store fired removed)
    {timePoint : ℤ} {timeStr : Tm} {e : ℤ × ℕ} (hdue : store.due timePoint = some e) :
    Kept (store.timerSection64 timePoint timeStr) removed ↔
      ((store.record e.2).recurring → (store.record e.2).recursAt timePoint timeStr) := by
  have hwf := hacc.wf
  have hp := Store.Wf.pending_due hdue
  have hlength : (store.timerSection64 timePoint timeStr).records.length = store.records.length :=
    Store.length_timerSectionWith
  have hrecurring : ∀ id, ((store.timerSection64 timePoint timeStr).record id).recurring ↔
      (store.record id).recurring := by
    intro id
    have hrecord : ∃ b, (store.timerSection64 timePoint timeStr).record id =
        (store.record id).setStarted b :=
      hwf.record_timerSectionWith Store.lawfulNext_getNext64 id
    obtain ⟨b, hb⟩ := hrecord
    rw [hb]
    exact Iff.rfl
  constructor
  · intro hafter hrec
    have hnot : e.2 ∉ removed := fun hremoved ↦ (hacc.taken e.2 hremoved).2 hp
    have hstays := hafter e.2 (by rw [hlength]; exact hwf.valid e.2 hp)
      ((hrecurring e.2).mpr hrec) hnot
    exact ((hwf.pending_timerSection64 hdue e.2).mp hstays).2 rfl
  · intro hrecurs id hid hrec hremoved
    rw [hlength] at hid
    rw [hrecurring] at hrec
    refine (hwf.pending_timerSection64 hdue id).mpr ⟨hs id hid hrec hremoved, ?_⟩
    rintro rfl
    exact hrecurs hrec

end Kept

def State.Kept (s : State) : Prop := Scheduler.Kept s.store s.removed

/-- The step takes out no recurring record whose next time wraps below the present one. -/
def losesNothing (s : State) : Action → Prop
  | .timer =>
      s.timer = .locked → ∀ e ∈ s.store.due s.timePoint, (s.store.record e.2).recurring →
        (s.store.record e.2).recursAt s.timePoint s.timeStr
  | _ => True

instance (s : State) : DecidablePred (losesNothing s)
  | .timer => inferInstanceAs (Decidable (s.timer = .locked → ∀ e ∈ s.store.due s.timePoint, _))
  | .start | .stop | .stopFlag | .tick _ | .add _ _ | .addFlag | .addUnlock | .remove _
  | .spuriousWakeup => isTrue trivial

theorem losesNothing_of_unlocked {a : Action} (h : a = .timer → s.timer ≠ .locked) :
    losesNothing s a := by
  cases a with
  | timer => exact fun hpc ↦ absurd hpc (h rfl)
  | _ => trivial

theorem State.Kept.move_iff (hs : s.Kept) (hacc : s.Accounted) {a : Action}
    (h : Moves64 env s a t) : t.Kept ↔ losesNothing s a := by
  cases h with
  | quiet a t h log unlocked =>
      refine iff_of_true ?_ (losesNothing_of_unlocked unlocked)
      rw [State.Kept, h.store, h.removed]
      exact hs
  | locked at_pc =>
      change Scheduler.Kept (s.store.timerSection64 s.timePoint s.timeStr) s.removed ↔ _
      cases hdue : s.store.due s.timePoint with
      | none =>
          rw [Store.timerSection64, Store.timerSectionWith_of_due_none hdue]
          refine iff_of_true hs ?_
          simp [losesNothing, hdue]
      | some e =>
          rw [Scheduler.Kept.timerSection_iff hs hacc hdue]
          simp [losesNothing, hdue, at_pc]
  | add request rands rs store free ok added =>
      exact iff_of_true (Scheduler.Kept.addScheduleRecords hs added) trivial
  | remove removal => exact iff_of_true (Scheduler.Kept.remove hs hacc.wf removal) trivial

theorem kept_of_reachableVia (h : (system64 env).ReachableVia losesNothing s) : s.Kept := by
  have hboth : s.Accounted ∧ s.Kept := by
    refine System.ReachableVia.invariant (I := fun s ↦ s.Accounted ∧ s.Kept) ?_ ?_ h
    · rintro s ⟨now, rfl⟩
      refine ⟨State.create_accounted env now, fun id hid ↦ ?_⟩
      simp [State.create, Store.empty] at hid
    · rintro s a t ⟨hacc, hs⟩ hloses hstep
      have hmove := moves64_of_step hstep
      exact ⟨hacc.move64 hmove, (hs.move_iff hacc hmove).mpr hloses⟩
  exact hboth.2

/-- Every recurring record that was added and not removed has exactly one entry. -/
def State.RecurringOnce (s : State) : Prop :=
  ∀ id < s.store.records.length, (s.store.record id).recurring → id ∉ s.removed →
    s.store.byTime.values.count id = 1

theorem State.kept_iff (hacc : s.Accounted) : s.RecurringOnce ↔ s.Kept := by
  refine forall₂_congr fun id _ ↦ forall₂_congr fun _ _ ↦ ?_
  constructor
  · intro hone
    exact List.count_pos_iff.mp (by omega)
  · exact List.count_eq_one_of_mem hacc.wf.nodup

/-- Nothing pending is doubled: in every reachable state a record has at most one entry in
the time index, and a one-shot record is pushed at most once and has no entry in any
state after that.  Nothing recurring is lost in the runs that take out no recurring
record whose next time wraps, and the next step keeps it so if and only if it takes out
none either. -/
theorem pending_exactly_once (env : Env) (s : State) (h : (system64 env).Reachable s) :
    (∀ id, s.store.byTime.values.count id ≤ 1) ∧
      (∀ id, (s.store.record id).exactTime = true →
        (s.dispatched.map Firing.record).count id ≤ 1 ∧
          (id ∈ s.dispatched.map Firing.record → ∀ t,
            (system64 env).Reaches System.AnyStep s t → t.store.byTime.values.count id = 0)) ∧
      ((system64 env).ReachableVia losesNothing s → s.RecurringOnce ∧
        ∀ a t, (system64 env).step s a = some t → (t.RecurringOnce ↔ losesNothing s a)) := by
  have hacc := accounted_of_reachable64 h
  refine ⟨List.nodup_iff_count_le_one.mp hacc.wf.nodup, ?_, ?_⟩
  · intro id hexact
    refine ⟨?_, fun hid t hreach ↦ ?_⟩
    · have hsub : (s.dispatched.map Firing.record).Sublist s.fired := by
        rw [State.fired, List.map_append]
        exact List.sublist_append_left _ _
      exact (hsub.count_le id).trans (hacc.once id hexact)
    · exact List.count_eq_zero_of_not_mem (not_pending_of_dispatched h hexact hid hreach)
  · intro hvia
    have hkept := kept_of_reachableVia hvia
    refine ⟨(State.kept_iff hacc).mpr hkept, fun a t hstep ↦ ?_⟩
    have hmove := moves64_of_step hstep
    rw [State.kept_iff (hacc.move64 hmove)]
    exact hkept.move_iff hacc hmove

/-- The timer about to take out a periodic task, 100 nanoseconds after the request. -/
def taskDue (period : ℤ) : State :=
  { State.create epochDay 103 with
    store := Store.empty.insertRecord 9
      (.setStarted (.everyPeriod 7 "client" "task" period 9) true) 7
    runTimerThread := true
    timer := .locked }

def untilTaskDue (period : ℤ) : List Action :=
  [.add (.scheduleTaskPeriodic "client" "task" period 9 7) [[]], .addFlag, .addUnlock, .start,
    .timer, .timer, .timer, .timer, .timer, .tick 100, .timer, .timer]

theorem pending_exactly_once_taskDue :
    (taskDue 5).innerSection64.store.byTime.values.count 0 = 1 := by
  have hrun : (system64 epochDay).runIf (fun s a ↦ decide (losesNothing s a))
      (State.create epochDay 3) (untilTaskDue 5 ++ [.timer]) =
        some (taskDue 5).innerSection64 := rfl
  have hvia : (system64 epochDay).ReachableVia losesNothing (taskDue 5).innerSection64 :=
    ⟨State.create epochDay 3, ⟨3, rfl⟩, System.reaches_of_runIf _ (by simp) hrun⟩
  exact ((pending_exactly_once epochDay _ hvia.any).2.2 hvia).1 0 (by decide) (by decide)
    (by decide)

/-- With a period of 10 000 000 000 seconds the task is lost at its first firing. -/
theorem long_period_lost :
    ∃ s, (system64 epochDay).Reachable s ∧ 0 < s.store.records.length ∧
      (s.store.record 0).recurring ∧ s.removed = [] ∧ s.store.byTime.values = [] :=
  ⟨(taskDue 10000000000).innerSection64,
    System.reachable_of_run (untilTaskDue 10000000000 ++ [.timer]) ⟨3, rfl⟩ rfl,
    by decide, by decide, rfl, by decide⟩

end IqrfDaemon.Scheduler
