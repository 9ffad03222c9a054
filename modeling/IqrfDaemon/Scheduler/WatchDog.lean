import Mathlib.Algebra.Order.Group.Int
import IqrfDaemon.Calendar.Spaced
import IqrfDaemon.Scheduler.Cron

/-!
# The pace of recurring records

`startScheduler` schedules a periodic record that pets the watch dog, with a
period computed from the time-out.  The records that recur, this one and the cron
records, have to be stored again later than the clock reading at which they were
taken out.  Otherwise the timer takes them out again at once and floods the
dispatch queue.
-/

namespace IqrfDaemon.Scheduler

open Json Container Transition Calendar

/-- Half the time-out, cast to seconds. -/
def watchDogPeriod (watchDogTimeoutMilis : ℤ) : ℤ := (watchDogTimeoutMilis.tdiv 2).tdiv 1000

def watchDogPet (watchDogTimeoutMilis tp rand : ℤ) : Request :=
  .scheduleTaskPeriodic "WatchDogPet" "WatchDogPet" (watchDogPeriod watchDogTimeoutMilis) tp rand

/-- What `startScheduler` leaves: record `pet` is added, with a start time of the present or
of a moment ago.  Records of the configuration may be there already, and the timer does not
run yet. -/
def PetScheduled (env : Env) (watchDogTimeoutMilis : ℤ) (pet : ℕ) (s : State) : Prop :=
  ∃ s₀ tp rand rands, (system env).Reachable s₀ ∧ s₀.timer = .notStarted ∧ tp ≤ s₀.now ∧
    s₀.store.records.length = pet ∧
      (system env).step s₀ (.add (watchDogPet watchDogTimeoutMilis tp rand) rands) = some s

/-- The records that have to recur: those of cron and the one that pets the watch dog. -/
def Store.Recurs (store : Store) (pet id : ℕ) : Prop := (store.record id).isCron ∨ id = pet

/-- The clock readings at which record `id` was taken out and pushed. -/
def State.pushedAt (s : State) (id : ℕ) : List ℤ :=
  (s.dispatched.filter fun f ↦ f.record = id).map Firing.reading

/-- A recurring record that is taken out is stored again, later than the clock reading; within
`n` seconds it is pushed at most `n + 1` times, by the clock readings of the firings, and as
well by the clock at the pushes themselves, which may be late. -/
structure Progress (env : Env) (pet : ℕ) (s : State) : Prop where
  reinserted : ∀ t key id, s.timer = .locked → s.store.due s.timePoint = some (key, id) →
    s.store.Recurs pet id → (system env).step s .timer = some t →
      ∃ next, (next, id) ∈ t.store.byTime.entries ∧ s.reading < next
  rate : ∀ id, s.store.Recurs pet id → ∀ (first : ℤ) (n : ℕ),
    ((s.pushedAt id).countP fun r ↦ first ≤ r ∧ r ≤ first + seconds n) ≤ n + 1
  pushes : ∀ t id (n : ℕ), 1 ≤ n → (system env).Reaches System.AnyStep s t →
    t.now ≤ s.now + seconds n → t.store.Recurs pet id →
      (t.pushedAt id).length ≤ (s.pushedAt id).length + n + 1

/-! ## The pace of a record -/

/-- Record `id` was taken out with more than a second between two readings, and is stored a
second after the last of them.  In the inner loop its turn comes only with a `timePoint` that
is the reading of the clock, unless it is new. -/
structure Paced (s : State) (id : ℕ) : Prop where
  fresh : ∀ key, (key, id) ∈ s.store.byTime.entries → s.timer.inner = true →
    s.timePoint = s.reading ∨ s.timePoint ≤ key ∨ s.reading < key ∧ s.firedAt id = []
  ahead : ∀ key, (key, id) ∈ s.store.byTime.entries → ∀ r ∈ s.firedAt id, r + seconds 1 ≤ key
  spaced : Spaced (seconds 1) (s.firedAt id)
  past : ∀ r ∈ s.firedAt id, r ≤ s.reading

variable {env : Env} {pet id : ℕ} {s t : State}

theorem Paced.frame (hs : Paced s id)
    (hentries : ∀ key, (key, id) ∈ t.store.byTime.entries → (key, id) ∈ s.store.byTime.entries)
    (hfired : (t.firedAt id).Sublist (s.firedAt id)) (hreading : s.reading ≤ t.reading)
    (hfresh : t.timer.inner = true → t.timePoint = t.reading ∨
      s.timer.inner = true ∧ t.timePoint = s.timePoint ∧ t.reading = s.reading) :
    Paced t id where
  fresh key hkey hinner := by
    rcases hfresh hinner with h | ⟨hinner', htp, hr⟩
    · exact Or.inl h
    · rw [htp, hr]
      rcases hs.fresh key (hentries key hkey) hinner' with h | h | ⟨h, hnone⟩
      · exact Or.inl h
      · exact Or.inr (Or.inl h)
      · exact Or.inr (Or.inr ⟨h, List.eq_nil_of_sublist_nil (hnone ▸ hfired)⟩)
  ahead key hkey r hr := hs.ahead key (hentries key hkey) r (hfired.subset hr)
  spaced := hs.spaced.sublist hfired
  past r hr := (hs.past r (hfired.subset hr)).trans hreading

/-- A record that was never taken out. -/
theorem Paced.of_never (hnone : s.firedAt id = [])
    (hfresh : ∀ key, (key, id) ∈ s.store.byTime.entries → s.timer.inner = true →
      s.reading < key) : Paced s id where
  fresh key hkey hinner := Or.inr (Or.inr ⟨hfresh key hkey hinner, hnone⟩)
  ahead key _ r hr := by simp [hnone] at hr
  spaced := by
    rw [hnone]
    exact List.Pairwise.nil
  past r hr := by simp [hnone] at hr

/-! ## The records of a run -/

/-- A run in which record `pet` has the period `period`, and every recurring record its pace. -/
structure Pacing (env : Env) (period : ℤ) (pet : ℕ) (s : State) : Prop where
  reachable : (system env).Reachable s
  hand : ∀ f ∈ s.timer.inHand, f.reading = s.reading
  added : pet < s.store.records.length
  exactTime : (s.store.record pet).exactTime = false
  periodic : (s.store.record pet).periodic = true
  period_eq : (s.store.record pet).period = period
  paced : ∀ id, s.store.Recurs pet id → Paced s id

variable {period : ℤ}

theorem Pacing.wf (hs : Pacing env period pet s) : s.store.Wf := store_wf hs.reachable

/-- A recurring record is planned a second after the time it is compared with, at least. -/
theorem Pacing.le_getNext (hs : Pacing env period pet s)
    (hsec : ∀ t, (env.localtime t).tm_sec = t % 60) (hperiod : 1 ≤ period)
    (hrecurs : s.store.Recurs pet id) :
    s.timePoint + seconds 1 ≤ ((s.store.record id).getNext s.timePoint s.timeStr).1 := by
  rcases hrecurs with hcron | rfl
  · have hpos := (remainingSeconds_spec hcron (toTimeT s.reading)).pos
    rw [← hsec, ← (clockRead_of_reachable hs.reachable).timeStr] at hpos
    rw [Store.getNext_cron hcron]
    dsimp only [seconds]
    omega
  · have hstarted := hs.wf.started id hs.added hs.exactTime hs.periodic
    have hnext : ((s.store.record id).getNext s.timePoint s.timeStr).1 =
        s.timePoint + seconds period := by
      simp [ScheduleRecord.getNext, hs.exactTime, hs.periodic, hstarted, hs.period_eq]
    rw [hnext]
    dsimp only [seconds]
    omega

/-- In its turn it is compared with the reading of the clock, or with a later time. -/
theorem Paced.reading_le (hs : Paced s id) (hpc : s.timer = .locked) {key : ℤ}
    (hdue : s.store.due s.timePoint = some (key, id)) : s.reading ≤ s.timePoint := by
  obtain ⟨rest, hentries, hlt⟩ := Store.due_eq_some hdue
  have hkey : (key, id) ∈ s.store.byTime.entries := by rw [hentries]; exact List.mem_cons_self
  have hlt : key < s.timePoint := hlt
  rcases hs.fresh key hkey (by rw [hpc]; rfl) with h | h | ⟨h, -⟩
  · exact h.ge
  · omega
  · omega

/-- Its last turn was more than a second ago. -/
theorem Paced.lt_reading (hs : Paced s id) (hpc : s.timer = .locked) {key : ℤ}
    (hdue : s.store.due s.timePoint = some (key, id)) :
    ∀ r ∈ s.firedAt id, r + seconds 1 < s.reading := by
  intro r hr
  obtain ⟨rest, hentries, hlt⟩ := Store.due_eq_some hdue
  have hkey : (key, id) ∈ s.store.byTime.entries := by rw [hentries]; exact List.mem_cons_self
  have hlt : key < s.timePoint := hlt
  have hahead := hs.ahead key hkey r hr
  rcases hs.fresh key hkey (by rw [hpc]; rfl) with h | h | ⟨-, hnone⟩
  · omega
  · omega
  · rw [hnone] at hr
    cases hr

/-- The section that takes out a recurring record: it is stored again, later. -/
theorem Pacing.reinserted (hs : Pacing env period pet s)
    (hsec : ∀ t, (env.localtime t).tm_sec = t % 60) (hperiod : 1 ≤ period)
    (hrecurs : s.store.Recurs pet id) (hpc : s.timer = .locked) {key : ℤ}
    (hdue : s.store.due s.timePoint = some (key, id)) :
    ∃ next, (next, id) ∈ s.innerSection.store.byTime.entries ∧ s.reading + seconds 1 ≤ next := by
  have hnext := hs.le_getNext hsec hperiod hrecurs
  have hreading := (hs.paced id hrecurs).reading_le hpc hdue
  refine ⟨_, (mem_innerSection hdue).mpr (Or.inl ⟨?_, rfl⟩), ?_⟩
  · dsimp only [seconds] at *
    omega
  · dsimp only [seconds] at *
    omega

/-- The section that takes out record `id`. -/
theorem Pacing.fire (hs : Pacing env period pet s)
    (hsec : ∀ t, (env.localtime t).tm_sec = t % 60) (hperiod : 1 ≤ period)
    (hrecurs : s.store.Recurs pet id) (hpc : s.timer = .locked) {key : ℤ}
    (hdue : s.store.due s.timePoint = some (key, id)) : Paced s.innerSection id := by
  have hid := hs.paced id hrecurs
  have hgap := hid.lt_reading hpc hdue
  obtain ⟨next, hentry, hnext⟩ := hs.reinserted hsec hperiod hrecurs hpc hdue
  have hfired : s.innerSection.firedAt id = s.firedAt id ++ [s.reading] := by
    rw [firedAt_innerSection hpc hdue, if_pos rfl]
  have hwf : s.innerSection.store.Wf := hs.wf.timerSection _ _
  refine ⟨?_, ?_, ?_, ?_⟩
  · intro k hk _
    exact Or.inr (Or.inl (Store.nextWakeup_le _ hk))
  · intro k hk r hr
    rw [hwf.key_unique hk hentry]
    rw [hfired, List.mem_append, List.mem_singleton] at hr
    rcases hr with hr | rfl
    · have hlt := hgap r hr
      dsimp only [seconds] at *
      omega
    · exact hnext
  · rw [hfired]
    exact hid.spaced.append hgap
  · intro r hr
    rw [hfired, List.mem_append, List.mem_singleton] at hr
    rcases hr with hr | rfl
    · exact hid.past r hr
    · exact le_rfl

/-- The section that takes out another one. -/
theorem Paced.section_ne (hs : Paced s id) (hpc : s.timer = .locked) {e : ℤ × ℕ}
    (hdue : s.store.due s.timePoint = some e) (hne : e.2 ≠ id) : Paced s.innerSection id := by
  have hentries : ∀ key, (key, id) ∈ s.innerSection.store.byTime.entries →
      (key, id) ∈ s.store.byTime.entries := by
    intro key hkey
    rcases (mem_innerSection hdue).mp hkey with ⟨-, heq⟩ | hmem
    · exact absurd (congrArg Prod.snd heq).symm hne
    · exact List.mem_of_mem_tail hmem
  have hfired : s.innerSection.firedAt id = s.firedAt id := by
    rw [firedAt_innerSection hpc hdue, if_neg hne, List.append_nil]
  refine ⟨?_, ?_, ?_, ?_⟩
  · intro key hkey _
    exact Or.inr (Or.inl (Store.nextWakeup_le _ hkey))
  · intro key hkey
    rw [hfired]
    exact hs.ahead key (hentries key hkey)
  · rw [hfired]
    exact hs.spaced
  · rw [hfired]
    exact hs.past

theorem Pacing.innerSection (hs : Pacing env period pet s)
    (hsec : ∀ t, (env.localtime t).tm_sec = t % 60) (hperiod : 1 ≤ period)
    (hpc : s.timer = .locked) (hrecurs : s.store.Recurs pet id) : Paced s.innerSection id := by
  have hid := hs.paced id hrecurs
  cases hdue : s.store.due s.timePoint with
  | none =>
    have hstore : s.innerSection.store = s.store := Store.timerSection_of_due_none hdue
    have htimer : s.innerSection.timer = .testRun := by simp [State.innerSection, hdue]
    refine hid.frame (fun key hkey ↦ by rwa [hstore] at hkey) ?_ le_rfl ?_
    · rw [firedAt_innerSection_none hpc hdue]
    · intro hinner
      rw [htimer] at hinner
      cases hinner
  | some e =>
    obtain ⟨key, n⟩ := e
    by_cases hn : n = id
    · subst hn
      exact hs.fire hsec hperiod hrecurs hpc hdue
    · exact hid.section_ne hpc hdue hn

/-! ## New records -/

theorem entry_of_addScheduleRecords_old {choices : List (ℤ × List ℤ)} {rs : List ScheduleRecord}
    {u v : Store} (h : Store.addScheduleRecords env choices rs u = some v) {key : ℤ}
    (hid : id < u.records.length) (hkey : (key, id) ∈ v.byTime.entries) :
    (key, id) ∈ u.byTime.entries := by
  have hall : u.records.length ≤ v.records.length ∧
      ((key, id) ∈ v.byTime.entries → (key, id) ∈ u.byTime.entries) := by
    refine Store.addScheduleRecords_induction (P := fun v ↦ u.records.length ≤ v.records.length ∧
      ((key, id) ∈ v.byTime.entries → (key, id) ∈ u.byTime.entries)) h ⟨le_rfl, fun h ↦ h⟩ ?_
    rintro v now r handle _ _ _ ⟨hle, hold⟩
    rw [Store.length_insertRecord, Store.mem_insertRecord]
    refine ⟨by omega, ?_⟩
    rintro (heq | hmem)
    · have hnew : id = v.records.length := congrArg Prod.snd heq
      omega
    · exact hold hmem
  exact hall.2 hkey

theorem lt_length_of_isCron {store : Store} (h : (store.record id).isCron) :
    id < store.records.length := by
  by_contra hnot
  have hdefault : store.record id = default := List.getD_eq_default _ _ (not_lt.mp hnot)
  rw [hdefault] at h
  exact absurd h.2 (by decide)

/-- A new cron record is planned for later than the present. -/
theorem Pacing.add (hs : Pacing env period pet s)
    (hsec : ∀ t, (env.localtime t).tm_sec = t % 60) {rands : List (List ℤ)}
    {rs : List ScheduleRecord} {store : Store}
    (added : Store.addScheduleRecords env (rands.map fun r ↦ (s.now, r)) rs s.store = some store)
    (hrecurs : store.Recurs pet id) :
    Paced { s with store := store, adder := some .inserted } id := by
  obtain ⟨-, hold⟩ := Store.record_addScheduleRecords added
  rcases Nat.lt_or_ge id s.store.records.length with hlt | hge
  · have hrecurs' : s.store.Recurs pet id := by
      rwa [Store.Recurs, ← hold id hlt]
    exact (hs.paced id hrecurs').frame
      (fun key hkey ↦ entry_of_addScheduleRecords_old added hlt hkey) (List.Sublist.refl _) le_rfl
      fun hinner ↦ Or.inr ⟨hinner, rfl, rfl⟩
  · have hcron : (store.record id).isCron := by
      rcases hrecurs with h | rfl
      · exact h
      · exact absurd hs.added (not_lt.mpr hge)
    have hnone : s.firedAt id = [] := firedAt_eq_nil (accounted_of_reachable hs.reachable) hge
    have hentry := entry_of_addScheduleRecords s.now (by simp) added id hge
      (lt_length_of_isCron hcron) hcron
    have hpos := (remainingSeconds_spec hcron (toTimeT s.now)).pos
    rw [← hsec] at hpos
    have hpast := (clockRead_of_reachable hs.reachable).past
    have hwf : store.Wf := hs.wf.addScheduleRecords added
    refine Paced.of_never hnone fun key hkey _ ↦ ?_
    rw [hwf.key_unique hkey hentry]
    dsimp only [seconds]
    omega

/-! ## Steps -/

theorem Recurs.of_innerSection (hs : Pacing env period pet s)
    (h : s.innerSection.store.Recurs pet id) : s.store.Recurs pet id := by
  obtain ⟨b, hb⟩ := hs.wf.record_timerSection s.timePoint s.timeStr id
  change ((s.store.timerSection s.timePoint s.timeStr).record id).isCron ∨ id = pet at h
  rw [hb] at h
  exact h

theorem Pacing.paced_move (hs : Pacing env period pet s)
    (hsec : ∀ t, (env.localtime t).tm_sec = t % 60) (hperiod : 1 ≤ period) {a : Action}
    (h : Moves env s a t) (hrecurs : t.store.Recurs pet id) : Paced t id := by
  cases h.effect with
  | quiet a t hquiet =>
    have hpast := (clockRead_of_reachable hs.reachable).past
    rw [hquiet.store] at hrecurs
    refine (hs.paced id hrecurs).frame (fun key hkey ↦ by rwa [hquiet.store] at hkey)
      (hquiet.fired id) ?_ fun hinner ↦ (hquiet.inner hinner).imp_left And.left
    rcases hquiet.reading with heq | heq
    · exact heq.ge
    · exact hpast.trans heq.ge
  | locked at_pc => exact hs.innerSection hsec hperiod at_pc (Recurs.of_innerSection hs hrecurs)
  | add request rands rs store ok added => exact hs.add hsec added hrecurs
  | remove removal =>
    have hrecurs' : s.store.Recurs pet id := by
      have hrecord : (s.store.remove removal).record id = s.store.record id := by
        rw [Store.record, s.store.records_remove, Store.record]
      rwa [Store.Recurs, hrecord] at hrecurs
    exact (hs.paced id hrecurs').frame (fun _ h ↦ Store.mem_of_mem_remove h)
      (List.Sublist.refl _) le_rfl fun h ↦ Or.inr ⟨h, rfl, rfl⟩

/-- The record in hand was taken out at the last reading of the clock. -/
theorem hand_move (hs : ∀ f ∈ s.timer.inHand, f.reading = s.reading) {a : Action}
    (h : Moves env s a t) : ∀ f ∈ t.timer.inHand, f.reading = t.reading := by
  cases h.effect with
  | quiet a t hquiet =>
    rcases hquiet.hand with hnone | ⟨hhand, hreading⟩
    · rw [hnone]
      intro f hf
      cases hf
    · rwa [hhand, hreading]
  | add request rands rs store ok added => exact hs
  | remove removal => exact hs
  | locked at_pc =>
    intro f hf
    cases hdue : s.store.due s.timePoint with
    | none =>
      simp [State.innerSection, hdue, TimerPc.inHand] at hf
    | some e =>
      have heq : f = ⟨e.2, e.1, s.reading⟩ := by
        simpa [State.innerSection, hdue, TimerPc.inHand] using hf
      rw [heq]
      rfl

theorem Pacing.step (hs : Pacing env period pet s)
    (hsec : ∀ t, (env.localtime t).tm_sec = t % 60) (hperiod : 1 ≤ period) {a : Action}
    (h : (system env).step s a = some t) : Pacing env period pet t := by
  have hmove : Moves env s a t := moves_of_step h
  obtain ⟨hadded, b, hrule⟩ := hmove.record hs.wf hs.added
  refine ⟨hs.reachable.step h, hand_move hs.hand hmove, hadded, ?_, ?_, ?_,
    fun id hrecurs ↦ hs.paced_move hsec hperiod hmove hrecurs⟩
  · rw [hrule, ScheduleRecord.setStarted_exactTime]
    exact hs.exactTime
  · rw [hrule]
    exact hs.periodic
  · rw [hrule]
    exact hs.period_eq

theorem Pacing.reaches (hs : Pacing env period pet s)
    (hsec : ∀ t, (env.localtime t).tm_sec = t % 60) (hperiod : 1 ≤ period)
    (h : (system env).Reaches System.AnyStep s t) : Pacing env period pet t :=
  h.preserves (I := Pacing env period pet) (fun _ _ _ hs _ hstep ↦ hs.step hsec hperiod hstep) hs

/-! ## The start of the daemon -/

theorem dispatched_of_notStarted (h : (system env).Reachable s) (hpc : s.timer = .notStarted) :
    s.dispatched = [] := by
  have hall : s.timer = .notStarted → s.dispatched = [] := by
    refine System.Reachable.invariant
      (I := fun s ↦ s.timer = .notStarted → s.dispatched = []) ?_ ?_ h
    · rintro s ⟨now, rfl⟩ -
      rfl
    · intro s a t ih hstep
      cases moves_of_step hstep with
      | stop | tick d | add request rands rs store free ok added | refused request rands
      | addUnlock held | remove removal free => exact ih
      | flag a pc adder pendingStops is_flag at_pc =>
        rcases at_pc with ⟨-, rfl⟩ | ⟨-, rfl⟩
        · exact ih
        · intro hpc
          cases hpc
      | innerSection at_pc free =>
        intro hpc
        rcases innerSection_timer s with h | ⟨f, h⟩
        · rw [h] at hpc
          cases hpc
        · rw [h] at hpc
          cases hpc
      | _ =>
        intro hpc
        cases hpc
  exact hall hpc

theorem pacing_of_petScheduled {w : ℤ} (h : PetScheduled env w pet s) :
    Pacing env (watchDogPeriod w) pet s := by
  obtain ⟨s₀, tp, rand, rands, hreach, hpc, -, rfl, hstep⟩ := h
  have hreachable := hreach.step hstep
  change s₀.addStep env (watchDogPet w tp rand) rands = some s at hstep
  rw [State.addStep, Option.ite_none_right_eq_some] at hstep
  obtain ⟨store, hadded, rfl⟩ := Option.map_eq_some_iff.mp hstep.2
  obtain ⟨handle, rfl⟩ := Store.insertRecord_of_everyPeriod hadded
  have hnone : s₀.dispatched = [] := dispatched_of_notStarted hreach hpc
  have hfired (id : ℕ) (store : Store) :
      State.firedAt { s₀ with store := store, adder := some .inserted } id = [] := by
    rw [State.firedAt, hnone, hpc]
    rfl
  refine ⟨hreachable, ?_, ?_, ?_, ?_, ?_, ?_⟩
  · rw [hpc]
    intro f hf
    cases hf
  · rw [Store.length_insertRecord]
    exact Nat.lt_succ_self _
  · rw [Store.record_insertRecord_new]
    rfl
  · rw [Store.record_insertRecord_new]
    rfl
  · rw [Store.record_insertRecord_new]
    rfl
  · intro id _
    refine Paced.of_never (hfired id _) fun key _ hinner ↦ ?_
    rw [hpc] at hinner
    cases hinner

/-! ## Pushes in an interval -/

theorem pushedAt_sublist (s : State) (id : ℕ) : (s.pushedAt id).Sublist (s.firedAt id) :=
  List.Sublist.map _ (List.Sublist.filter _ (List.sublist_append_left _ _))

theorem length_le_of_within {log : List ℤ} (h : Spaced (seconds 1) log) {first last : ℤ} {n : ℕ}
    (hwithin : ∀ r ∈ log, first ≤ r ∧ r ≤ last) (hn : 1 ≤ n) (hlast : last ≤ first + seconds n) :
    log.length ≤ n := by
  refine h.length_le hwithin hn (hlast.trans (le_of_eq ?_))
  simp [seconds]

theorem Paced.countP_le (hs : Paced s id) (first : ℤ) (n : ℕ) :
    ((s.pushedAt id).countP fun r ↦ first ≤ r ∧ r ≤ first + seconds n) ≤ n + 1 := by
  rw [List.countP_eq_length_filter]
  have hwithin : ∀ r ∈ (s.pushedAt id).filter fun r ↦ first ≤ r ∧ r ≤ first + seconds n,
      first ≤ r ∧ r ≤ first + seconds n := by
    intro r hr
    simpa using (List.mem_filter.mp hr).2
  have hspaced := hs.spaced.sublist ((List.filter_sublist (l := s.pushedAt id)
    (p := fun r ↦ first ≤ r ∧ r ≤ first + seconds n)).trans (pushedAt_sublist s id))
  refine length_le_of_within hspaced hwithin (Nat.le_add_left 1 n) ?_
  dsimp only [seconds]
  push_cast
  omega

/-- What happens after state `s`: the clock is read again at `s.now` or later. -/
structure Later (s t : State) : Prop where
  now : s.now ≤ t.now
  reading : t.reading = s.reading ∨ s.now ≤ t.reading
  dispatched : ∃ new, t.dispatched = s.dispatched ++ new ∧
    ∀ f ∈ new, f.reading = s.reading ∨ s.now ≤ f.reading

theorem Later.move {u : State} (h : Later s t) (hhand : ∀ f ∈ t.timer.inHand, f.reading = t.reading)
    {a : Action} (hmove : Moves env t a u) : Later s u := by
  obtain ⟨hnow, hreading, new, hnew, hafter⟩ := h
  cases hmove with
  | tick d =>
    refine ⟨?_, hreading, new, hnew, hafter⟩
    change s.now ≤ t.now + d
    omega
  | readStart at_pc | readTime at_pc => exact ⟨hnow, Or.inr hnow, new, hnew, hafter⟩
  | dispatch f at_pc =>
    refine ⟨hnow, hreading, ?_⟩
    have hf : f.reading = t.reading := hhand f (by rw [at_pc]; exact List.mem_singleton_self f)
    simp only [State.dispatchStep]
    split
    · refine ⟨new ++ [f], by rw [hnew, List.append_assoc], ?_⟩
      intro g hg
      rcases List.mem_append.mp hg with hg | hg
      · exact hafter g hg
      · rw [List.mem_singleton.mp hg, hf]
        exact hreading
    · exact ⟨new, hnew, hafter⟩
  | _ => exact ⟨hnow, hreading, new, hnew, hafter⟩

theorem Pacing.later (hs : Pacing env period pet s)
    (hsec : ∀ t, (env.localtime t).tm_sec = t % 60) (hperiod : 1 ≤ period)
    (h : (system env).Reaches System.AnyStep s t) : Later s t := by
  have hboth : Pacing env period pet t ∧ Later s t := by
    refine h.preserves (I := fun t ↦ Pacing env period pet t ∧ Later s t) ?_
      ⟨hs, le_rfl, Or.inl rfl, [], by rw [List.append_nil], fun f hf ↦ by cases hf⟩
    rintro t a u ⟨ht, hlater⟩ - hstep
    exact ⟨ht.step hsec hperiod hstep, hlater.move ht.hand (moves_of_step hstep)⟩
  exact hboth.2

/-- At most one of the pushes belongs to a reading from before. -/
theorem Pacing.pushes (hs : Pacing env period pet s)
    (hsec : ∀ t, (env.localtime t).tm_sec = t % 60) (hperiod : 1 ≤ period)
    (h : (system env).Reaches System.AnyStep s t) (hrecurs : t.store.Recurs pet id) {n : ℕ}
    (hn : 1 ≤ n) (hnow : t.now ≤ s.now + seconds n) :
    (t.pushedAt id).length ≤ (s.pushedAt id).length + n + 1 := by
  have ht := hs.reaches hsec hperiod h
  have hid := ht.paced id hrecurs
  obtain ⟨-, -, new, hnew, hafter⟩ := hs.later hsec hperiod h
  have hpast := (clockRead_of_reachable hs.reachable).past
  have hpast' := (clockRead_of_reachable ht.reachable).past
  have hsplit : t.pushedAt id =
      s.pushedAt id ++ (new.filter fun f ↦ f.record = id).map Firing.reading := by
    rw [State.pushedAt, hnew, List.filter_append, List.map_append]
    rfl
  have hspaced := hid.spaced.sublist (pushedAt_sublist t id)
  have hreadings : ∀ r ∈ (new.filter fun f ↦ f.record = id).map Firing.reading,
      (r = s.reading ∨ s.now ≤ r) ∧ r ≤ s.now + seconds n := by
    intro r hr
    have hmem : r ∈ t.pushedAt id := by rw [hsplit]; exact List.mem_append_right _ hr
    have hle := hid.past r ((pushedAt_sublist t id).subset hmem)
    obtain ⟨f, hf, rfl⟩ := List.mem_map.mp hr
    exact ⟨hafter f (List.mem_of_mem_filter hf), by omega⟩
  rw [hsplit] at hspaced ⊢
  have hlater := hspaced.sublist (List.sublist_append_right _ _)
  rw [List.length_append]
  generalize (new.filter fun f ↦ f.record = id).map Firing.reading = log at hreadings hlater
  cases log with
  | nil =>
    rw [List.length_nil]
    omega
  | cons first log =>
    obtain ⟨hgap, hlog⟩ := List.pairwise_cons.mp hlater
    have hfirst := (hreadings first List.mem_cons_self).1
    have hwithin : ∀ r ∈ log, s.now ≤ r ∧ r ≤ s.now + seconds n := by
      intro r hr
      obtain ⟨hr', hle⟩ := hreadings r (List.mem_cons_of_mem first hr)
      have hafter := hgap r hr
      dsimp only [seconds] at *
      omega
    have hlength := length_le_of_within hlog hwithin hn le_rfl
    rw [List.length_cons]
    omega

theorem Pacing.progress (hs : Pacing env period pet s)
    (hsec : ∀ t, (env.localtime t).tm_sec = t % 60) (hperiod : 1 ≤ period) :
    Progress env pet s where
  reinserted t key id hpc hdue hrecurs hstep := by
    change s.timerStep env = some t at hstep
    rw [State.timerStep, hpc] at hstep
    obtain ⟨-, heq⟩ := Option.ite_none_right_eq_some.mp hstep
    cases heq
    obtain ⟨next, hentry, hnext⟩ := hs.reinserted hsec hperiod hrecurs hpc hdue
    refine ⟨next, hentry, ?_⟩
    dsimp only [seconds] at hnext
    omega
  rate id hrecurs first n := (hs.paced id hrecurs).countP_le first n
  pushes _ _ _ hn hrun hnow hrecurs := hs.pushes hsec hperiod hrun hrecurs hn hnow

theorem watchDogPeriod_of_nonneg {w : ℤ} (h : 0 ≤ w) : watchDogPeriod w = w / 2 / 1000 := by
  rw [watchDogPeriod, Int.tdiv_eq_ediv_of_nonneg h, Int.tdiv_eq_ediv_of_nonneg (by omega)]

theorem one_le_watchDogPeriod {w : ℤ} (h : 2000 ≤ w) : 1 ≤ watchDogPeriod w := by
  rw [watchDogPeriod_of_nonneg (by omega)]
  omega

/-- Below two seconds nothing is left of the period. -/
theorem watchDogPeriod_nonpos {w : ℤ} (h : w < 2000) : watchDogPeriod w ≤ 0 := by
  rcases Int.le_total 0 w with hw | hw
  · rw [watchDogPeriod_of_nonneg hw]
    omega
  · obtain ⟨m, rfl⟩ : ∃ m, w = -m := ⟨-w, (neg_neg w).symm⟩
    rw [watchDogPeriod, Int.neg_tdiv, Int.neg_tdiv]
    have hnonneg : 0 ≤ (m.tdiv 2).tdiv 1000 :=
      Int.tdiv_nonneg (Int.tdiv_nonneg (by omega) (by decide)) (by decide)
    omega

/-! ## The first firing -/

/-- The record is the only one, added at time zero. -/
def withPet (env : Env) (w : ℤ) : State :=
  { State.create env 0 with
    store := Store.empty.insertRecord 0
      (.setStarted (.everyPeriod 7 "WatchDogPet" "WatchDogPet" (watchDogPeriod w) 0) true) 7
    adder := some .inserted }

theorem withPet_scheduled (env : Env) (w : ℤ) : PetScheduled env w 0 (withPet env w) :=
  ⟨State.create env 0, 0, 7, [[]], .of_init ⟨0, rfl⟩, rfl, le_rfl, rfl, rfl⟩

/-- The timer is started and takes its first turn a nanosecond later. -/
def firstTurn : List Action :=
  [.addFlag, .addUnlock, .start, .tick 1, .timer, .timer, .timer, .timer, .timer, .timer, .timer]

def petLocked (env : Env) (w : ℤ) : State :=
  { withPet env w with
    runTimerThread := true
    timer := .locked
    timePoint := 1
    timeStr := env.localtime (toTimeT 1)
    adder := none
    now := 1
    reading := 1 }

theorem reaches_petLocked (env : Env) (w : ℤ) :
    (system env).Reaches System.AnyStep (withPet env w) (petLocked env w) :=
  System.reaches_of_run firstTurn (fun _ _ _ ↦ trivial) rfl

theorem due_petLocked (env : Env) (w : ℤ) :
    (petLocked env w).store.due (petLocked env w).timePoint = some (0, 0) := rfl

/-- Where the first firing stores the record, if it stores it again. -/
theorem mem_petLocked {w next : ℤ}
    (h : (next, 0) ∈ (petLocked env w).innerSection.store.byTime.entries) :
    next = 1 + seconds (watchDogPeriod w) := by
  rcases (mem_innerSection (due_petLocked env w)).mp h with ⟨-, heq⟩ | hmem
  · exact congrArg Prod.fst heq
  · cases hmem

/-- Recurring records make progress in every run of the scheduler exactly if the time-out of
the watch dog is at least two seconds. -/
theorem recurring_progress_iff (env : Env) (hsec : ∀ t, (env.localtime t).tm_sec = t % 60)
    (watchDogTimeoutMilis : ℤ) :
    (∀ pet s₁, PetScheduled env watchDogTimeoutMilis pet s₁ → ∀ s,
      (system env).Reaches System.AnyStep s₁ s → Progress env pet s) ↔
      2000 ≤ watchDogTimeoutMilis := by
  constructor
  · intro hall
    by_contra hlt
    have hperiod := watchDogPeriod_nonpos (not_le.mp hlt)
    have hprogress := hall 0 _ (withPet_scheduled env watchDogTimeoutMilis) _
      (reaches_petLocked env watchDogTimeoutMilis)
    obtain ⟨next, hentry, hnext⟩ := hprogress.reinserted _ 0 0 rfl
      (due_petLocked env watchDogTimeoutMilis) (Or.inr rfl) rfl
    rw [mem_petLocked hentry] at hnext
    change 1 < 1 + seconds (watchDogPeriod watchDogTimeoutMilis) at hnext
    dsimp only [seconds] at hnext
    omega
  · intro hle pet s₁ hscheduled s hrun
    have hperiod := one_le_watchDogPeriod hle
    exact ((pacing_of_petScheduled hscheduled).reaches hsec hperiod hrun).progress hsec hperiod

theorem recurring_progress_tenSeconds :
    (∀ pet s₁, PetScheduled epochDay 10000 pet s₁ → ∀ s,
      (system epochDay).Reaches System.AnyStep s₁ s → Progress epochDay pet s) ↔
      (2000 : ℤ) ≤ 10000 :=
  recurring_progress_iff epochDay (fun _ ↦ rfl) 10000

/-- With the watch dog disabled, the record is stored again at the reading of the clock. -/
theorem disabled_watchDog_busy :
    PetScheduled epochDay 0 0 (withPet epochDay 0) ∧
      (system epochDay).Reaches System.AnyStep (withPet epochDay 0) (petLocked epochDay 0) ∧
      (petLocked epochDay 0).store.due (petLocked epochDay 0).timePoint = some (0, 0) ∧
      (petLocked epochDay 0).reading = 1 ∧
      (system epochDay).step (petLocked epochDay 0) .timer =
        some (petLocked epochDay 0).innerSection ∧
      (petLocked epochDay 0).innerSection.store.byTime.entries = [(1, 0)] :=
  ⟨withPet_scheduled epochDay 0, reaches_petLocked epochDay 0, rfl, rfl, rfl, rfl⟩

end IqrfDaemon.Scheduler
