import IqrfDaemon.Thermometer.Service

/-!
# The one reading that is scheduled

Whatever the timer, the other clients and the worker do in between, the scheduler holds at most
one reading of the service, the one under the handle that the service keeps.  Once the caller
is through, it has the period of the last message, and there is none if that period is zero.
Then nothing more is read but what had been taken out before.
-/

namespace IqrfDaemon.Thermometer

open Json Container Scheduler Transition

variable {env : Environment} {name : String} {cfg : Configuration} {s t : State}

/-! ## What one step can do -/

/-- The calls of the scheduler by the caller, with the program point behind them. -/
inductive Calls (name : String) (s : State) (scheduler : Scheduler.State) :
    Scheduler.Action → CallerPc → Prop
  | removeAllMyTasks (at_pc : s.caller = .removeAllMyTasks) :
      Calls name s scheduler (.remove (.removeAllMyTasks name)) .registerMessageHandler
  | removeTask (at_pc : s.caller = .removeTask) :
      Calls name s scheduler (.remove (.removeTask name s.schdTaskHandle)) .testPeriod
  | schedule (tp rand : ℤ) (rands : List (List ℤ)) (at_pc : s.caller = .scheduleTaskPeriodic tp) :
      Calls name s scheduler
        (.add (.scheduleTaskPeriodic name sendThermometersRead s.readPeriod tp rand) rands)
        (.notifyTimer (s.scheduler.store.returnedHandle scheduler.store))
  | notify (hndl : ℤ) (at_pc : s.caller = .notifyTimer hndl) :
      Calls name s scheduler .addFlag (.unlockTasks hndl)
  | unlock (hndl : ℤ) (at_pc : s.caller = .unlockTasks hndl) :
      Calls name s scheduler .addUnlock (.setHandle hndl)

/-- The steps, each with the program point it starts from. -/
inductive Moves (env : Environment) (name : String) (s : State) : Action → State → Prop
  | scheduler (a : Scheduler.Action) (scheduler : Scheduler.State) (allowed : s.allows a = true)
      (stepped : (Scheduler.system env.scheduler).step s.scheduler a = some scheduler) :
      Moves env name s (.scheduler a) { s with scheduler := scheduler }
  | call (rand : ℤ) (rands : List (List ℤ)) (a : Scheduler.Action) (scheduler : Scheduler.State)
      (next : CallerPc) (calls : Calls name s scheduler a next)
      (stepped : (Scheduler.system env.scheduler).step s.scheduler a = some scheduler) :
      Moves env name s (.caller rand rands) { s with scheduler := scheduler, caller := next }
  | register (rand : ℤ) (rands : List (List ℤ)) (at_pc : s.caller = .registerMessageHandler) :
      Moves env name s (.caller rand rands) { s with registered := true, caller := .lock }
  | lock (rand : ℤ) (rands : List (List ℤ)) (at_pc : s.caller = .lock)
      (free : s.worker.locked = false) :
      Moves env name s (.caller rand rands) { s with caller := .removeTask }
  | period (rand : ℤ) (rands : List (List ℤ)) (at_pc : s.caller = .testPeriod)
      (min : 1 ≤ s.readPeriod) :
      Moves env name s (.caller rand rands)
        { s with caller := .scheduleTaskPeriodic s.scheduler.now }
  | noPeriod (rand : ℤ) (rands : List (List ℤ)) (at_pc : s.caller = .testPeriod)
      (zero : s.readPeriod = 0) : Moves env name s (.caller rand rands) { s with caller := .idle }
  | setHandle (rand : ℤ) (rands : List (List ℤ)) (hndl : ℤ) (at_pc : s.caller = .setHandle hndl) :
      Moves env name s (.caller rand rands) { s with schdTaskHandle := hndl, caller := .idle }
  | receive (smsg response : String) (readPeriod : ℕ) (at_pc : s.caller = .idle)
      (handled : handleMsgFromMessaging env smsg = .ok (response, readPeriod)) :
      Moves env name s (.message smsg)
        { s with
          sent := s.sent ++ [.status response]
          received := s.received ++ [smsg]
          readPeriod := readPeriod
          caller := .lock }
  | take (outcome : Outcome) (f : Firing) (at_pc : s.worker = .waiting)
      (next : s.scheduler.dispatched[s.handled]? = some f) :
      Moves env name s (.worker outcome)
        { s with worker := .handle f.record, handled := s.handled + 1 }
  | handle (outcome : Outcome) (id : ℕ) (at_pc : s.worker = .handle id) :
      Moves env name s (.worker outcome)
        { s with worker := if s.reads name id then .lock else .waiting }
  | workerLock (outcome : Outcome) (at_pc : s.worker = .lock) (free : s.caller.locked = false) :
      Moves env name s (.worker outcome) { s with worker := .reading [] s.thermometers.keys }
  | read (outcome : Outcome) (done : List (ℤ × Val)) (node : ℤ) (rest : List ℤ)
      (at_pc : s.worker = .reading done (node :: rest)) :
      Moves env name s (.worker outcome)
        { s with
          thermometers := s.thermometers.modify node fun _ ↦ outcome.map tempi
          worker := .reading (done ++ [(node, outcome.map tempi)]) rest }
  | send (outcome : Outcome) (done : List (ℤ × Val)) (at_pc : s.worker = .reading done []) :
      Moves env name s (.worker outcome)
        { s with
          sent := s.sent ++
            [.thermometers (env.prettyWriter (response name s.thermometers.entries))]
          rounds := s.rounds ++ [done]
          worker := .waiting }

theorem moves_of_call {rand : ℤ} {rands : List (List ℤ)} {a : Scheduler.Action}
    {next : Scheduler.State → CallerPc} (h : s.call env a next = some t)
    (calls : ∀ scheduler, Calls name s scheduler a (next scheduler)) :
    Moves env name s (.caller rand rands) t := by
  obtain ⟨scheduler, hstep, rfl⟩ := Option.map_eq_some_iff.mp h
  exact .call rand rands a scheduler _ (calls scheduler) hstep

theorem moves_of_callerStep {rand : ℤ} {rands : List (List ℤ)}
    (h : s.callerStep env name rand rands = some t) : Moves env name s (.caller rand rands) t := by
  unfold State.callerStep at h
  cases hpc : s.caller with
  | removeAllMyTasks =>
      simp only [hpc] at h
      exact moves_of_call h fun _ ↦ .removeAllMyTasks hpc
  | registerMessageHandler =>
      simp only [hpc] at h
      obtain rfl := Option.some.inj h
      exact .register rand rands hpc
  | lock =>
      simp only [hpc] at h
      cases hfree : s.worker.locked with
      | true => simp [hfree] at h
      | false =>
          obtain rfl : { s with caller := .removeTask } = t := by simpa [hfree] using h
          exact .lock rand rands hpc hfree
  | removeTask =>
      simp only [hpc] at h
      exact moves_of_call h fun _ ↦ .removeTask hpc
  | testPeriod =>
      simp only [hpc] at h
      obtain rfl := Option.some.inj h
      split
      case isTrue hmin => exact .period rand rands hpc hmin
      case isFalse hzero => exact .noPeriod rand rands hpc (by omega)
  | scheduleTaskPeriodic tp =>
      simp only [hpc] at h
      exact moves_of_call h fun _ ↦ .schedule tp rand rands hpc
  | notifyTimer hndl =>
      simp only [hpc] at h
      exact moves_of_call h fun _ ↦ .notify hndl hpc
  | unlockTasks hndl =>
      simp only [hpc] at h
      exact moves_of_call h fun _ ↦ .unlock hndl hpc
  | setHandle hndl =>
      simp only [hpc] at h
      obtain rfl := Option.some.inj h
      exact .setHandle rand rands hndl hpc
  | idle => simp [hpc] at h

theorem moves_of_workerStep {outcome : Outcome} (h : s.workerStep env name outcome = some t) :
    Moves env name s (.worker outcome) t := by
  unfold State.workerStep at h
  cases hpc : s.worker with
  | waiting =>
      simp only [hpc] at h
      obtain ⟨f, hf, rfl⟩ := Option.map_eq_some_iff.mp h
      exact .take outcome f hpc hf
  | handle id =>
      simp only [hpc] at h
      obtain rfl := Option.some.inj h
      exact .handle outcome id hpc
  | lock =>
      simp only [hpc] at h
      cases hfree : s.caller.locked with
      | true => simp [hfree] at h
      | false =>
          obtain rfl : { s with worker := .reading [] s.thermometers.keys } = t := by
            simpa [hfree] using h
          exact .workerLock outcome hpc hfree
  | reading done rest =>
      cases rest with
      | nil =>
          simp only [hpc] at h
          obtain rfl := Option.some.inj h
          exact .send outcome done hpc
      | cons node rest =>
          simp only [hpc] at h
          obtain rfl := Option.some.inj h
          exact .read outcome done node rest hpc

theorem moves_of_step {a : Action} (h : s.step env name a = some t) : Moves env name s a t := by
  cases a with
  | scheduler a =>
      rw [State.step, Option.ite_none_right_eq_some] at h
      obtain ⟨hallowed, h⟩ := h
      obtain ⟨scheduler, hstep, rfl⟩ := Option.map_eq_some_iff.mp h
      exact .scheduler a scheduler hallowed hstep
  | caller rand rands => exact moves_of_callerStep h
  | message smsg =>
      rw [State.step, State.receive, Option.ite_none_right_eq_some] at h
      obtain ⟨hpc, h⟩ := h
      cases hhandled : handleMsgFromMessaging env smsg with
      | error e => simp [hhandled] at h
      | ok r =>
          obtain ⟨response, readPeriod⟩ := r
          simp only [hhandled] at h
          obtain rfl := Option.some.inj h
          exact .receive smsg response readPeriod hpc hhandled
  | worker outcome => exact moves_of_workerStep h

/-! ## The scheduler below -/

/-- A step is one of the scheduler or leaves it as it is. -/
theorem Moves.scheduler_step {a : Action} (h : Moves env name s a t) :
    t.scheduler = s.scheduler ∨
      ∃ b, (Scheduler.system env.scheduler).step s.scheduler b = some t.scheduler := by
  cases h with
  | scheduler a scheduler allowed stepped => exact Or.inr ⟨a, stepped⟩
  | call rand rands a scheduler next calls stepped => exact Or.inr ⟨a, stepped⟩
  | _ => exact Or.inl rfl

theorem scheduler_reachable {G : State → Action → Prop}
    (h : (system env name cfg).ReachableVia G s) :
    (Scheduler.system env.scheduler).Reachable s.scheduler := by
  refine System.ReachableVia.invariant
    (I := fun s ↦ (Scheduler.system env.scheduler).Reachable s.scheduler) ?_ ?_ h
  · rintro s ⟨now, rfl⟩
    exact .of_init ⟨now, rfl⟩
  · intro s a t hs _ hstep
    rcases (moves_of_step hstep).scheduler_step with heq | ⟨b, hb⟩
    · exact heq ▸ hs
    · exact hs.step hb

/-! ## The task that the service expects to have -/

/-- The reading under a handle, in a period. -/
def reading (hndl : ℤ) (period : ℕ) : Periodic := ⟨hndl, sendThermometersRead, period⟩

/-- From the end of `removeAllMyTasks` on, by the program point of the caller: what the
scheduler holds of the service.  Before the removal the period may be that of an earlier
message. -/
def State.Expects (s : State) (own : Option Periodic) : Prop :=
  match s.caller with
  | .removeAllMyTasks => False
  | .registerMessageHandler | .testPeriod => own = none
  | .lock | .removeTask => own = none ∨ ∃ period, own = some (reading s.schdTaskHandle period)
  | .scheduleTaskPeriodic _ => own = none ∧ 1 ≤ s.readPeriod
  | .notifyTimer hndl | .unlockTasks hndl | .setHandle hndl =>
      own = some (reading hndl s.readPeriod) ∧ 1 ≤ s.readPeriod
  | .idle => own = if s.readPeriod = 0 then none else some (reading s.schdTaskHandle s.readPeriod)

theorem State.Expects.eq_reading {own : Option Periodic} (h : s.Expects own) :
    ∀ p ∈ own, ∃ hndl period, p = reading hndl period := by
  have hsome : ∀ hndl period, own = some (reading hndl period) →
      ∀ p ∈ own, ∃ hndl period, p = reading hndl period := by
    rintro hndl period rfl p hp
    exact ⟨hndl, period, (Option.mem_some_iff.mp hp).symm⟩
  have hnone : own = none → ∀ p ∈ own, ∃ hndl period, p = reading hndl period := by
    rintro rfl p hp
    cases hp
  unfold State.Expects at h
  cases hpc : s.caller with
  | removeAllMyTasks => simp [hpc] at h
  | registerMessageHandler | testPeriod =>
      simp only [hpc] at h
      exact hnone h
  | lock | removeTask =>
      simp only [hpc] at h
      rcases h with h | ⟨period, h⟩
      · exact hnone h
      · exact hsome _ period h
  | scheduleTaskPeriodic tp =>
      simp only [hpc] at h
      exact hnone h.1
  | notifyTimer hndl | unlockTasks hndl | setHandle hndl =>
      simp only [hpc] at h
      exact hsome _ _ h.1
  | idle =>
      simp only [hpc] at h
      split at h
      · exact hnone h
      · exact hsome _ _ h

theorem State.Expects.period_nonneg {own : Option Periodic} (h : s.Expects own) :
    ∀ p ∈ own, 0 ≤ p.period := by
  intro p hp
  obtain ⟨hndl, period, rfl⟩ := h.eq_reading p hp
  exact Int.natCast_nonneg period

/-- The scheduler holds what the caller expects, once it has removed the old tasks. -/
def Tended (name : String) (s : State) : Prop :=
  s.caller ≠ .removeAllMyTasks → ∃ own, s.Expects own ∧ s.scheduler.store.Sole name own

/-- A call leaves the store with what is expected behind it. -/
theorem Tended.call (h : Tended name s) (hwf : s.scheduler.store.Wf) {a : Scheduler.Action}
    {scheduler : Scheduler.State} {next : CallerPc} (calls : Calls name s scheduler a next)
    (stepped : (Scheduler.system env.scheduler).step s.scheduler a = some scheduler) :
    Tended name { s with scheduler := scheduler, caller := next } := by
  intro _
  have hmove : Scheduler.Moves env.scheduler s.scheduler a scheduler :=
    Scheduler.moves_of_step stepped
  cases calls with
  | removeAllMyTasks at_pc =>
      refine ⟨none, rfl, ?_⟩
      cases hmove with
      | flag a pc adder pendingStops is_flag at_pc => simp at is_flag
      | remove removal free => exact Store.sole_removeAllMyTasks
  | removeTask at_pc =>
      obtain ⟨own, hexpects, hsole⟩ := h (by rw [at_pc]; exact CallerPc.noConfusion)
      refine ⟨none, rfl, ?_⟩
      simp only [State.Expects, at_pc] at hexpects
      cases hmove with
      | flag a pc adder pendingStops is_flag at_pc => simp at is_flag
      | remove removal free =>
          rcases hexpects with rfl | ⟨period, rfl⟩
          · exact hsole.removeTask_none hwf _
          · exact hsole.removeTask hwf
  | schedule tp rand rands at_pc =>
      obtain ⟨own, hexpects, hsole⟩ := h (by rw [at_pc]; exact CallerPc.noConfusion)
      simp only [State.Expects, at_pc] at hexpects
      obtain ⟨rfl, hmin⟩ := hexpects
      refine ⟨some (reading _ s.readPeriod), ⟨rfl, hmin⟩, ?_⟩
      have hadd : s.scheduler.addStep env.scheduler
          (.scheduleTaskPeriodic name sendThermometersRead s.readPeriod tp rand) rands =
            some scheduler := stepped
      rw [Scheduler.State.addStep, Option.ite_none_right_eq_some] at hadd
      obtain ⟨store, hadded, rfl⟩ := Option.map_eq_some_iff.mp hadd.2
      exact hsole.scheduleTaskPeriodic hwf hadded
  | notify hndl at_pc =>
      obtain ⟨own, hexpects, hsole⟩ := h (by rw [at_pc]; exact CallerPc.noConfusion)
      have hperiod := hexpects.period_nonneg
      simp only [State.Expects, at_pc] at hexpects
      exact ⟨own, hexpects, hmove.sole hwf trivial hsole hperiod⟩
  | unlock hndl at_pc =>
      obtain ⟨own, hexpects, hsole⟩ := h (by rw [at_pc]; exact CallerPc.noConfusion)
      have hperiod := hexpects.period_nonneg
      simp only [State.Expects, at_pc] at hexpects
      exact ⟨own, hexpects, hmove.sole hwf trivial hsole hperiod⟩

theorem Tended.move (h : Tended name s) (hwf : s.scheduler.store.Wf) {a : Action}
    (hforeign : Foreign env name s a) (hmove : Moves env name s a t) : Tended name t := by
  cases hmove with
  | scheduler a scheduler allowed stepped =>
      intro hpc
      obtain ⟨own, hexpects, hsole⟩ := h hpc
      exact ⟨own, hexpects, (Scheduler.moves_of_step stepped).sole hwf (hforeign hpc) hsole
        hexpects.period_nonneg⟩
  | call rand rands a scheduler next calls stepped => exact h.call hwf calls stepped
  | register rand rands at_pc =>
      intro _
      obtain ⟨own, hexpects, hsole⟩ := h (by rw [at_pc]; exact CallerPc.noConfusion)
      simp only [State.Expects, at_pc] at hexpects
      exact ⟨own, Or.inl hexpects, hsole⟩
  | lock rand rands at_pc free =>
      intro _
      obtain ⟨own, hexpects, hsole⟩ := h (by rw [at_pc]; exact CallerPc.noConfusion)
      simp only [State.Expects, at_pc] at hexpects
      exact ⟨own, hexpects, hsole⟩
  | period rand rands at_pc min =>
      intro _
      obtain ⟨own, hexpects, hsole⟩ := h (by rw [at_pc]; exact CallerPc.noConfusion)
      simp only [State.Expects, at_pc] at hexpects
      exact ⟨own, ⟨hexpects, min⟩, hsole⟩
  | noPeriod rand rands at_pc zero =>
      intro _
      obtain ⟨own, hexpects, hsole⟩ := h (by rw [at_pc]; exact CallerPc.noConfusion)
      simp only [State.Expects, at_pc] at hexpects
      refine ⟨own, ?_, hsole⟩
      simp only [State.Expects, zero, if_true]
      exact hexpects
  | setHandle rand rands hndl at_pc =>
      intro _
      obtain ⟨own, hexpects, hsole⟩ := h (by rw [at_pc]; exact CallerPc.noConfusion)
      simp only [State.Expects, at_pc] at hexpects
      refine ⟨own, ?_, hsole⟩
      have hne : s.readPeriod ≠ 0 := Nat.one_le_iff_ne_zero.mp hexpects.2
      simp only [State.Expects, if_neg hne]
      exact hexpects.1
  | receive smsg response readPeriod at_pc handled =>
      intro _
      obtain ⟨own, hexpects, hsole⟩ := h (by rw [at_pc]; exact CallerPc.noConfusion)
      simp only [State.Expects, at_pc] at hexpects
      refine ⟨own, ?_, hsole⟩
      split at hexpects
      · exact Or.inl hexpects
      · exact Or.inr ⟨s.readPeriod, hexpects⟩
  | take | handle | workerLock | read | send => exact h

theorem tended_of_reachable
    (h : (system env name cfg).ReachableVia (Foreign env name) s) : Tended name s := by
  have hboth : (Scheduler.system env.scheduler).Reachable s.scheduler ∧ Tended name s := by
    refine System.ReachableVia.invariant
      (I := fun s ↦ (Scheduler.system env.scheduler).Reachable s.scheduler ∧ Tended name s) ?_ ?_ h
    · rintro s ⟨now, rfl⟩
      exact ⟨.of_init ⟨now, rfl⟩, fun hpc ↦ absurd rfl hpc⟩
    · rintro s a t ⟨hreach, htended⟩ hforeign hstep
      have hmove := moves_of_step hstep
      refine ⟨?_, htended.move (store_wf hreach) hforeign hmove⟩
      rcases hmove.scheduler_step with heq | ⟨b, hb⟩
      · exact heq ▸ hreach
      · exact hreach.step hb
  exact hboth.2

/-! ## The period in force -/

theorem readPeriod_eq (h : (system env name cfg).ReachableVia (Foreign env name) s) :
    s.readPeriod = periodAfter env cfg s.received := by
  refine System.ReachableVia.invariant
    (I := fun s ↦ s.readPeriod = periodAfter env cfg s.received) ?_ ?_ h
  · rintro s ⟨now, rfl⟩
    rfl
  · intro s a t hs _ hstep
    cases moves_of_step hstep with
    | receive smsg response readPeriod at_pc handled =>
        simp [periodAfter, handled]
    | _ => exact hs

/-- Over every run, whatever the timer, the other clients and the worker do in between: the
scheduler never holds more than one task of the service once it is started; and when the
caller is through, it holds none if the period in force is zero, and else the one reading
with this period, under the handle that the service keeps.  The period in force is that of the
last message, as a `uint16_t`. -/
theorem reading_scheduled (env : Environment) (name : String) (cfg : Configuration) (s : State)
    (h : (system env name cfg).ReachableVia (Foreign env name) s) :
    (s.caller ≠ .removeAllMyTasks → (s.scheduler.store.getMyTasks name).length ≤ 1) ∧
      (s.caller = .idle → s.readPeriod = periodAfter env cfg s.received ∧
        (s.readPeriod = 0 → s.scheduler.store.getMyTasks name = []) ∧
          (s.readPeriod ≠ 0 → ∃ id, s.scheduler.store.myTasks name = [id] ∧
            (s.scheduler.store.record id).Runs (reading s.schdTaskHandle s.readPeriod) ∧
              s.scheduler.store.getMyTask name s.schdTaskHandle = sendThermometersRead)) := by
  have hwf := store_wf (scheduler_reachable h)
  have htended := tended_of_reachable h
  refine ⟨fun hpc ↦ ?_, fun hidle ↦ ⟨readPeriod_eq h, fun hzero ↦ ?_, fun hne ↦ ?_⟩⟩
  · obtain ⟨own, -, hsole⟩ := htended hpc
    rw [hsole.getMyTasks hwf]
    cases own with
    | none => exact Nat.zero_le 1
    | some p => exact le_rfl
  · obtain ⟨own, hexpects, hsole⟩ := htended (by rw [hidle]; exact CallerPc.noConfusion)
    simp only [State.Expects, hidle, if_pos hzero] at hexpects
    subst hexpects
    rw [hsole.getMyTasks hwf]
    rfl
  · obtain ⟨own, hexpects, hsole⟩ := htended (by rw [hidle]; exact CallerPc.noConfusion)
    simp only [State.Expects, hidle, if_neg hne] at hexpects
    subst hexpects
    obtain ⟨id, hid, hruns⟩ := hsole.myTasks_some hwf
    exact ⟨id, hid, hruns, hsole.getMyTask hwf⟩

/-- Every message asks for the period zero. -/
def plainEnvironment : Environment where
  scheduler := epochDay
  parseString _ := .ok (.object [("service", .string thermometerService), ("period", .int 0)])
  prettyWriter _ := ""
  what _ := ""
  par _ _ := ""

def twoThermometers : Configuration where
  readPeriod := 5
  thermometers := (Map.empty.insert 2 none).insert 1 none

/-- The state behind a sequence of steps, all of which are possible. -/
def after (env : Environment) (labels : List Action) : State :=
  ((system env "thermometers" twoThermometers).run
    (State.create env twoThermometers 0) labels).getD (State.create env twoThermometers 0)

/-- The step is none by which another client adds or removes a task. -/
def ours : Action → Bool
  | .scheduler (.add _ _) | .scheduler (.remove _) => false
  | _ => true

theorem foreign_of_ours {a : Action} (h : ours a = true) (s : State) : Foreign env name s a := by
  cases a with
  | scheduler a =>
      intro _
      cases a with
      | add request rands => cases h
      | remove removal => cases h
      | _ => trivial
  | _ => trivial

theorem reachable_after {labels : List Action} (hours : labels.all ours = true)
    (hrun : (system env "thermometers" twoThermometers).run
      (State.create env twoThermometers 0) labels = some (after env labels)) :
    (system env "thermometers" twoThermometers).ReachableVia (Foreign env "thermometers")
      (after env labels) :=
  ⟨_, ⟨0, rfl⟩, System.reaches_of_run labels
    (fun a ha s ↦ foreign_of_ours (List.all_eq_true.mp hours a ha) s) hrun⟩

/-- The steps of `start`. -/
def start : List Action := List.replicate 9 (.caller 7 [[]])

theorem reading_scheduled_start :
    (after plainEnvironment start).scheduler.store.getMyTask "thermometers"
      (after plainEnvironment start).schdTaskHandle = sendThermometersRead := by
  have hscheduled := (reading_scheduled plainEnvironment "thermometers" twoThermometers
    (after plainEnvironment start) (reachable_after rfl rfl)).2 rfl
  obtain ⟨id, -, -, htask⟩ := hscheduled.2.2 (by decide)
  exact htask

end IqrfDaemon.Thermometer
