import IqrfDaemon.Calendar.Renewal
import IqrfDaemon.Controller.Petting

/-!
# Which timeouts a healthy daemon survives

Each pet is planned one period behind the reading at which the one before was taken out, so
pets are duties that renew the lease of the watch dog.  The first one is due when `start` has
started the timer.  The watch dog stays silent in every run that keeps the latencies exactly if
the timeout exceeds the longer of the period and the latency of `start` by more than the
latency of a pet.
-/

namespace IqrfDaemon.Controller.Petting

open Calendar Scheduler Transition

variable {env : Env} {watchDogTimeoutMilis startLatency petLatency : ℤ} {s t : State}

/-! ## The main thread at work -/

/-- The main thread is in `start` or in the loop, or has left it upon a request. -/
def AtWork (controller : Running.State) : Prop :=
  match controller.main with
  | .loading | .stopping _ => False
  | .unlocked _ => controller.running = false
  | _ => True

/-- As long as the last refresh is fresh, the main thread leaves the loop only upon a request. -/
theorem AtWork.move {limit : ℤ} {c c' : Running.State} {a : Running.Action} (h : AtWork c)
    (hmove : Running.Moves limit c a c') (htick : ∀ d, a ≠ .tick d)
    (hfresh : limit = 0 ∨ c.now < c.lastRefreshTime + limit) :
    c'.now = c.now ∧ (c'.lastRefreshTime = c.lastRefreshTime ∨ c'.lastRefreshTime = c.now) ∧
      (AtWork c' ∨ c'.main = .stopping false) := by
  cases hmove with
  | tick d hd => exact absurd rfl (htick d)
  | pet free => exact ⟨rfl, Or.inr rfl, Or.inl h⟩
  | flag free =>
      refine ⟨rfl, Or.inl rfl, Or.inl ?_⟩
      unfold AtWork at h ⊢
      cases hpc : c.main with
      | loading | stopping => simp [hpc] at h
      | _ => simp [Running.State.exitFlag, hpc]
  | notify pending =>
      refine ⟨rfl, Or.inl rfl, Or.inl ?_⟩
      unfold AtWork at h ⊢
      cases hpc : c.main with
      | loading | stopping => simp [hpc] at h
      | unlocked since => simpa [Running.State.notify, Running.Pc.notify, hpc] using h
      | _ => simp [Running.State.notify, Running.Pc.notify, hpc]
  | launch at_pc => simp [AtWork, at_pc] at h
  | enter at_pc | lock since at_pc | sleep since at_pc | wake a deadline notified at_pc =>
      exact ⟨rfl, Or.inl rfl, Or.inl trivial⟩
  | leave since at_pc expired =>
      refine ⟨rfl, Or.inl rfl, Or.inl ?_⟩
      change c.running = false
      refine eq_false_of_ne_true fun hrunning ↦ ?_
      obtain ⟨hne, hlate⟩ := expired hrunning
      rcases hfresh with hzero | hfresh
      · exact hne hzero
      · exact absurd hlate (not_le.mpr hfresh)
  | report since at_pc =>
      refine ⟨rfl, Or.inl rfl, Or.inr ?_⟩
      simp only [AtWork, at_pc] at h
      exact congrArg Running.Pc.stopping h

/-- Before the loop the other callers leave the main thread where it is. -/
theorem moves_before {limit : ℤ} {c c' : Running.State} {a : Running.Action}
    (hmove : Running.Moves limit c a c') (hallowed : State.allowsController a = true)
    (hpc : c.main = .loading ∨ c.main = .starting) :
    c'.now = c.now ∧ c'.main = c.main ∧
      (c'.lastRefreshTime = c.lastRefreshTime ∨ c'.lastRefreshTime = c.now) := by
  cases hmove with
  | tick d hd => cases hallowed
  | pet free => exact ⟨rfl, rfl, Or.inr rfl⟩
  | flag free => exact ⟨rfl, rfl, Or.inl rfl⟩
  | notify pending =>
      refine ⟨rfl, ?_, Or.inl rfl⟩
      rcases hpc with hpc | hpc <;> simp [Running.State.notify, Running.Pc.notify, hpc]
  | launch | enter | lock | sleep | leave | report => cases hallowed
  | wake a deadline notified at_pc =>
      rw [at_pc] at hpc
      rcases hpc with hpc | hpc <;> cases hpc

theorem now_of_moves {limit : ℤ} {c c' : Running.State} {a : Running.Action}
    (hmove : Running.Moves limit c a c') (htick : ∀ d, a ≠ .tick d) : c'.now = c.now := by
  cases hmove with
  | tick d hd => exact absurd rfl (htick d)
  | _ => rfl

/-- A main thread that stops the daemon makes no further step. -/
theorem stopping_of_moves {limit : ℤ} {c c' : Running.State} {a : Running.Action} {wdog : Bool}
    (hmove : Running.Moves limit c a c') (hpc : c.main = .stopping wdog) :
    c'.main = .stopping wdog := by
  cases hmove with
  | tick | pet | flag => exact hpc
  | notify pending => simp [Running.State.notify, Running.Pc.notify, hpc]
  | launch at_pc | enter at_pc | lock since at_pc | sleep since at_pc | leave since at_pc
  | wake a deadline notified at_pc | report since at_pc =>
      rw [hpc] at at_pc
      cases at_pc

/-! ## Before the timer is started -/

/-- The task as it is scheduled, under some handle. -/
def pet (watchDogTimeoutMilis hndl : ℤ) : Periodic :=
  ⟨hndl, watchDogPetName, watchDogPeriod watchDogTimeoutMilis⟩

/-- What `start` has done so far. -/
def Prepared (watchDogTimeoutMilis : ℤ) (s : State) : Prop :=
  match s.start with
  | .readTime => s.scheduler.store.Sole watchDogPetName none
  | .scheduleTaskPeriodic tp =>
      s.scheduler.store.Sole watchDogPetName none ∧ tp ≤ s.scheduler.now
  | .notifyTimer | .unlockTasks | .startServices =>
      ∃ hndl key id, Planned watchDogPetName (pet watchDogTimeoutMilis hndl) s.scheduler key id ∧
        key ≤ s.scheduler.now
  | .started => False

/-- The timer is not started, and `start` takes no longer than it may. -/
structure Starting (watchDogTimeoutMilis startLatency : ℤ) (s : State) : Prop where
  timer : s.scheduler.timer = .notStarted
  quiet : s.scheduler.dispatched = []
  worker : s.worker = .waiting
  handled : s.handled = 0
  main : s.controller.main = .loading ∧ s.start = .readTime ∨ s.controller.main = .starting
  inTime : s.controller.main = .starting → s.launchedAt ≤ s.controller.lastRefreshTime ∧
    s.controller.now ≤ s.launchedAt + startLatency
  refreshed : s.controller.lastRefreshTime ≤ s.controller.now
  prepared : Prepared watchDogTimeoutMilis s

theorem Starting.log (h : Starting watchDogTimeoutMilis startLatency s) :
    s.scheduler.log = [] := by
  rw [Scheduler.State.log, h.quiet, h.timer]
  rfl

/-- A step of the scheduler keeps what `start` has done. -/
theorem Starting.schedule (h : Starting watchDogTimeoutMilis startLatency s)
    (hperiod : 0 ≤ watchDogPeriod watchDogTimeoutMilis)
    (hreach : (Scheduler.system env).Reachable s.scheduler) {a : Scheduler.Action}
    {u : Scheduler.State} (hmove : Scheduler.Moves env s.scheduler a u) (hstart : a ≠ .start)
    (hforeign : Scheduler.Foreign env watchDogPetName a) (hnow : s.scheduler.now ≤ u.now) :
    Starting watchDogTimeoutMilis startLatency { s with scheduler := u } := by
  obtain ⟨htimer, hdispatched⟩ := hmove.notStarted hstart h.timer
  refine ⟨htimer, hdispatched.trans h.quiet, h.worker, h.handled, h.main, h.inTime, h.refreshed, ?_⟩
  have hwf := store_wf hreach
  have hprepared := h.prepared
  have hplanned : (∃ hndl key id,
      Planned watchDogPetName (pet watchDogTimeoutMilis hndl) s.scheduler key id ∧
        key ≤ s.scheduler.now) → ∃ hndl key id,
      Planned watchDogPetName (pet watchDogTimeoutMilis hndl) u key id ∧ key ≤ u.now := by
    rintro ⟨hndl, key, id, hplanned, hkey⟩
    rcases hplanned.move (accounted_of_reachable hreach) hperiod hmove hforeign with
      ⟨hplanned, -⟩ | ⟨hpc, -⟩
    · exact ⟨hndl, key, id, hplanned, hkey.trans hnow⟩
    · rw [h.timer] at hpc
      cases hpc
  have hsole : s.scheduler.store.Sole watchDogPetName none →
      u.store.Sole watchDogPetName none :=
    fun hsole ↦ hmove.sole hwf hforeign hsole fun _ hp ↦ by cases hp
  unfold Prepared at hprepared ⊢
  cases hpc : s.start with
  | readTime =>
      simp only [hpc] at hprepared ⊢
      exact hsole hprepared
  | scheduleTaskPeriodic tp =>
      simp only [hpc] at hprepared ⊢
      exact ⟨hsole hprepared.1, hprepared.2.trans hnow⟩
  | notifyTimer | unlockTasks | startServices =>
      simp only [hpc] at hprepared ⊢
      exact hplanned hprepared
  | started => simp [hpc] at hprepared

/-! ## The pets as duties -/

/-- The pets that are not served, and the one that is planned. -/
def State.agenda (s : State) (key : ℤ) (id : ℕ) : List Firing :=
  s.outstanding ++ [⟨id, key, key⟩]

/-- The timer runs and the main thread is at work; the pets renew the lease of the watch dog, and
none of them is late. -/
structure Serving (watchDogTimeoutMilis bound petLatency : ℤ) (s : State) (key : ℤ) (id : ℕ) :
    Prop where
  start : s.start = .started
  timer : s.scheduler.timer ≠ .notStarted
  work : AtWork s.controller
  planned : ∃ hndl, Planned watchDogPetName (pet watchDogTimeoutMilis hndl) s.scheduler key id
  handled : s.handled ≤ s.scheduler.dispatched.length
  clock : s.startedAt ≤ s.scheduler.now
  read : s.scheduler.timer.inner = true → s.startedAt ≤ s.scheduler.reading
  refreshed : s.controller.lastRefreshTime ≤ s.controller.now
  past : ∀ f ∈ s.outstanding, f.reading ≤ s.controller.now
  renewal : Renewal s.due Firing.reading bound s.controller.lastRefreshTime (s.agenda key id)
  inTime : ∀ f ∈ s.agenda key id, s.controller.now ≤ s.due f + petLatency

namespace Serving

variable {bound key : ℤ} {id : ℕ}

theorem fresh (h : Serving watchDogTimeoutMilis bound petLatency s key id) :
    s.controller.now ≤ s.controller.lastRefreshTime + bound + petLatency :=
  h.renewal.fresh (by simp [State.agenda]) h.inTime

/-- A step of the main thread or of another caller of the controller. -/
theorem control (h : Serving watchDogTimeoutMilis bound petLatency s key id)
    {c : Running.State} (hwork : AtWork c) (hnow : c.now = s.controller.now)
    (hlast : c.lastRefreshTime = s.controller.lastRefreshTime ∨
      c.lastRefreshTime = s.controller.now) :
    Serving watchDogTimeoutMilis bound petLatency { s with controller := c } key id := by
  have hlater : s.controller.lastRefreshTime ≤ c.lastRefreshTime := by
    rcases hlast with hlast | hlast
    · exact hlast.ge
    · exact hlast ▸ h.refreshed
  refine ⟨h.start, h.timer, hwork, h.planned, h.handled, h.clock, h.read, ?_, ?_,
    h.renewal.later hlater, ?_⟩
  · rcases hlast with hlast | hlast
    · exact (hlast.trans_le h.refreshed).trans hnow.ge
    · exact hlast.le.trans hnow.ge
  · exact fun f hf ↦ (h.past f hf).trans hnow.ge
  · exact fun f hf ↦ hnow.le.trans (h.inTime f hf)

theorem tick (h : Serving watchDogTimeoutMilis bound petLatency s key id) {d : ℕ}
    (houtstanding : ∀ f ∈ s.outstanding, s.controller.now + d ≤ s.due f + petLatency)
    (hnext : s.controller.now + d ≤ max key s.startedAt + petLatency) :
    Serving watchDogTimeoutMilis bound petLatency
      { s with
        scheduler := { s.scheduler with now := s.scheduler.now + d }
        controller := { s.controller with now := s.controller.now + d } } key id := by
  obtain ⟨hndl, hplanned⟩ := h.planned
  have hlater : s.controller.now ≤ s.controller.now + d := by omega
  refine ⟨h.start, h.timer, h.work, ⟨hndl, hplanned.sole, hplanned.entry, hplanned.client,
    hplanned.periodic, hplanned.fresh⟩, h.handled, ?_, h.read, h.refreshed.trans hlater,
    fun f hf ↦ (h.past f hf).trans hlater, h.renewal, fun f hf ↦ ?_⟩
  · have hclock := h.clock
    change s.startedAt ≤ s.scheduler.now + d
    omega
  · rcases List.mem_append.mp hf with hf | hf
    · exact houtstanding f hf
    · obtain rfl := List.mem_singleton.mp hf
      exact hnext

/-- In the inner loop the clock has been read since the timer was started. -/
theorem read_of_moves (h : Serving watchDogTimeoutMilis bound petLatency s key id)
    {a : Scheduler.Action} {u : Scheduler.State} (hmove : Scheduler.Moves env s.scheduler a u) :
    u.timer.inner = true → s.startedAt ≤ u.reading := by
  intro hinner
  cases hmove.effect with
  | quiet a u hquiet =>
      rcases hquiet.inner hinner with ⟨-, hreading⟩ | ⟨hinner', -, hreading⟩
      · exact h.clock.trans hreading.ge
      · exact (h.read hinner').trans hreading.ge
  | locked at_pc => exact h.read (by rw [at_pc]; rfl)
  | add request rands rs store ok added => exact h.read hinner
  | remove removal => exact h.read hinner

/-- A step of the timer or of another client: the plan stays, or the next pet is taken out and
planned again. -/
theorem schedule (h : Serving watchDogTimeoutMilis bound petLatency s key id)
    (hreach : (Scheduler.system env).Reachable s.scheduler)
    (hclock : s.controller.now = s.scheduler.now)
    (hperiod : 0 ≤ watchDogPeriod watchDogTimeoutMilis)
    (hbound : seconds (watchDogPeriod watchDogTimeoutMilis) ≤ bound) {a : Scheduler.Action}
    {u : Scheduler.State} (hmove : Scheduler.Moves env s.scheduler a u)
    (hforeign : Scheduler.Foreign env watchDogPetName a) (hnow : u.now = s.scheduler.now) :
    ∃ next, Serving watchDogTimeoutMilis bound petLatency { s with scheduler := u } next id := by
  obtain ⟨hndl, hplanned⟩ := h.planned
  have hlength := hmove.dispatched_prefix.length_le
  have hread := h.read_of_moves hmove
  rcases hplanned.move (accounted_of_reachable hreach) hperiod hmove hforeign with
    ⟨hplanned', hfirings⟩ | ⟨hpc, -, hlt, hplanned', hfirings⟩
  · have hsame : ({ s with scheduler := u } : State).outstanding = s.outstanding :=
      congrArg (_ ++ ·) (hfirings _ h.handled)
    refine ⟨key, h.start, hmove.started h.timer, h.work, ⟨hndl, hplanned'⟩,
      h.handled.trans hlength, hnow ▸ h.clock, hread, h.refreshed, ?_, ?_, ?_⟩
    · rw [hsame]
      exact h.past
    · rw [State.agenda, hsame]
      exact h.renewal
    · rw [State.agenda, hsame]
      exact h.inTime
  · obtain ⟨next, hnext⟩ :
        ∃ next, next = s.scheduler.reading + seconds (watchDogPeriod watchDogTimeoutMilis) :=
      ⟨_, rfl⟩
    have hplanned' : Planned watchDogPetName (pet watchDogTimeoutMilis hndl) u next id :=
      hnext ▸ hplanned'
    have hpositive : 0 ≤ seconds (watchDogPeriod watchDogTimeoutMilis) := by
      dsimp only [seconds]
      omega
    have hnew : ({ s with scheduler := u } : State).outstanding =
        s.outstanding ++ [⟨id, key, s.scheduler.reading⟩] := by
      rw [State.outstanding, State.outstanding, List.append_assoc]
      exact congrArg (_ ++ ·) (hfirings _ h.handled)
    have hagenda : ({ s with scheduler := u } : State).agenda next id =
        s.outstanding ++ [⟨id, key, s.scheduler.reading⟩, ⟨id, next, next⟩] := by
      rw [State.agenda, hnew, List.append_assoc]
      rfl
    have hpast := (clockRead_of_reachable hreach).past
    have hstarted : s.startedAt ≤ s.scheduler.reading := h.read (by rw [hpc]; rfl)
    have hlast : s.controller.now ≤ max key s.startedAt + petLatency :=
      h.inTime ⟨id, key, key⟩ (by simp [State.agenda])
    refine ⟨next, h.start, hmove.started h.timer, h.work, ⟨hndl, hplanned'⟩,
      h.handled.trans hlength, hnow ▸ h.clock, hread, h.refreshed, ?_, ?_, ?_⟩
    · rw [hnew]
      intro f hf
      rcases List.mem_append.mp hf with hf | hf
      · exact h.past f hf
      · obtain rfl := List.mem_singleton.mp hf
        exact hpast.trans hclock.ge
    · rw [hagenda]
      refine h.renewal.plan rfl (max_le ?_ ?_)
      · change next ≤ s.scheduler.reading + bound
        omega
      · change s.startedAt ≤ s.scheduler.reading + bound
        omega
    · rw [hagenda]
      intro f hf
      rcases List.mem_append.mp hf with hf | hf
      · exact h.inTime f (List.mem_append_left _ hf)
      · rcases List.mem_cons.mp hf with rfl | hf
        · exact hlast
        · obtain rfl := List.mem_singleton.mp hf
          have hmax : max key s.startedAt ≤ max next s.startedAt := max_le_max (by omega) le_rfl
          exact hlast.trans (Int.add_le_add_right hmax _)

/-- The worker takes the next record; if it is a pet, it stays outstanding. -/
theorem take (h : Serving watchDogTimeoutMilis bound petLatency s key id) {f : Firing}
    (hworker : s.worker = .waiting) (hnext : s.scheduler.dispatched[s.handled]? = some f) :
    Serving watchDogTimeoutMilis bound petLatency
      { s with
        worker := .handle f (s.scheduler.store.record f.record).clientId
        handled := s.handled + 1 } key id := by
  obtain ⟨hlt, hf⟩ := List.getElem?_eq_some_iff.mp hnext
  have hlog : s.scheduler.log.drop s.handled = f :: s.scheduler.log.drop (s.handled + 1) := by
    have hmem : s.scheduler.log[s.handled]? = some f := by
      rw [Scheduler.State.log, List.getElem?_append_left hlt]
      exact hnext
    obtain ⟨hlt', hf'⟩ := List.getElem?_eq_some_iff.mp hmem
    rw [List.drop_eq_getElem_cons hlt', hf']
  have hsame : ({ s with
      worker := .handle f (s.scheduler.store.record f.record).clientId
      handled := s.handled + 1 } : State).outstanding = s.outstanding := by
    simp only [State.outstanding, hworker, Scheduler.State.firingsFrom, hlog, List.filter_cons,
      decide_eq_true_eq]
    split
    case isTrue => rfl
    case isFalse => rfl
  refine ⟨h.start, h.timer, h.work, h.planned, hlt, h.clock, h.read, h.refreshed, ?_, ?_, ?_⟩
  · rw [hsame]
    exact h.past
  · rw [State.agenda, hsame]
    exact h.renewal
  · rw [State.agenda, hsame]
    exact h.inTime

/-- A record of another client has no part in the lease. -/
theorem skip (h : Serving watchDogTimeoutMilis bound petLatency s key id) {f : Firing}
    {clientId : String} (hworker : s.worker = .handle f clientId)
    (hother : clientId ≠ watchDogPetName) :
    Serving watchDogTimeoutMilis bound petLatency { s with worker := .waiting } key id := by
  have hsame : ({ s with worker := .waiting } : State).outstanding = s.outstanding := by
    simp only [State.outstanding, hworker, if_neg hother]
  refine ⟨h.start, h.timer, h.work, h.planned, h.handled, h.clock, h.read, h.refreshed, ?_, ?_, ?_⟩
  · rw [hsame]
    exact h.past
  · rw [State.agenda, hsame]
    exact h.renewal
  · rw [State.agenda, hsame]
    exact h.inTime

/-- The handler of the pet renews the lease, and the pet is the first duty. -/
theorem refresh (h : Serving watchDogTimeoutMilis bound petLatency s key id) {f : Firing}
    (hworker : s.worker = .handle f watchDogPetName) :
    Serving watchDogTimeoutMilis bound petLatency
      { s with controller := s.controller.watchDogPet, worker := .waiting } key id := by
  have hfirst : s.outstanding = f :: ({ s with
      controller := s.controller.watchDogPet
      worker := .waiting } : State).outstanding := by
    simp only [State.outstanding, hworker, if_pos, List.singleton_append, List.nil_append]
  have hagenda : s.agenda key id = f ::
      ({ s with controller := s.controller.watchDogPet, worker := .waiting } : State).agenda
        key id := by
    rw [State.agenda, hfirst]
    rfl
  have hpast := h.past
  have hrenewal := h.renewal
  have hinTime := h.inTime
  rw [hfirst] at hpast
  rw [hagenda] at hrenewal hinTime
  exact ⟨h.start, h.timer, h.work, h.planned, h.handled, h.clock, h.read, le_rfl,
    fun g hg ↦ hpast g (List.mem_cons_of_mem f hg),
    hrenewal.done (hpast f List.mem_cons_self), fun g hg ↦ hinTime g (List.mem_cons_of_mem f hg)⟩

end Serving

/-- When the timer is started, the pet that is planned is due at once. -/
theorem Starting.startTimer (h : Starting watchDogTimeoutMilis startLatency s) {bound : ℤ}
    (hreach : (Scheduler.system env).Reachable s.scheduler)
    (hclock : s.controller.now = s.scheduler.now)
    (hperiod : 0 ≤ watchDogPeriod watchDogTimeoutMilis) (hbound : startLatency ≤ bound)
    (hlatency : 0 ≤ petLatency) (hpc : s.controller.main = .starting)
    (hstart : s.start = .startServices) {u : Scheduler.State}
    (hmove : Scheduler.Moves env s.scheduler .start u) :
    ∃ key id, Serving watchDogTimeoutMilis bound petLatency
      { s with scheduler := u, start := .started, startedAt := s.scheduler.now } key id := by
  have hprepared := h.prepared
  simp only [Prepared, hstart] at hprepared
  obtain ⟨hndl, key, id, hplanned, hkey⟩ := hprepared
  have hnow : u.now = s.scheduler.now := hmove.now_eq fun d ↦ Scheduler.Action.noConfusion
  have htimer : u.timer ≠ .notStarted ∧ u.timer.inner = false := by
    cases hmove with
    | start at_pc => exact ⟨TimerPc.noConfusion, rfl⟩
    | flag a pc adder pendingStops is_flag at_pc => simp at is_flag
  rcases hplanned.move (accounted_of_reachable hreach) hperiod hmove trivial with
    ⟨hplanned', hfirings⟩ | ⟨hlocked, -⟩
  · obtain ⟨hlaunched, hinTime⟩ := h.inTime hpc
    have hnone : ({ s with
        scheduler := u
        start := .started
        startedAt := s.scheduler.now } : State).outstanding = [] := by
      simp only [State.outstanding, h.worker, List.nil_append]
      rw [hfirings _ (by rw [h.handled]; exact Nat.zero_le _), Scheduler.State.firingsFrom, h.log]
      simp
    have hwork : AtWork s.controller := by
      simp [AtWork, hpc]
    refine ⟨key, id, rfl, htimer.1, hwork, ⟨hndl, hplanned'⟩, ?_, hnow.ge, ?_, h.refreshed, ?_, ?_,
      ?_⟩
    · change s.handled ≤ u.dispatched.length
      rw [h.handled]
      exact Nat.zero_le _
    · intro hinner
      have hinner : u.timer.inner = true := hinner
      rw [htimer.2] at hinner
      cases hinner
    · rw [hnone]
      intro f hf
      cases hf
    · rw [State.agenda, hnone]
      refine .singleton (max_le ?_ ?_)
      · change key ≤ s.controller.lastRefreshTime + bound
        omega
      · change s.scheduler.now ≤ s.controller.lastRefreshTime + bound
        omega
    · rw [State.agenda, hnone]
      intro f hf
      obtain rfl := List.mem_singleton.mp hf
      have hmax : s.scheduler.now ≤ max key s.scheduler.now := le_max_right _ _
      change s.controller.now ≤ max key s.scheduler.now + petLatency
      omega
  · rw [h.timer] at hlocked
    cases hlocked

/-! ## Whole runs -/

/-- The daemon starts, or serves the watch dog, or stops upon a request. -/
structure Invariant (env : Env) (watchDogTimeoutMilis startLatency petLatency : ℤ) (s : State) :
    Prop where
  reachable : (Scheduler.system env).Reachable s.scheduler
  clock : s.controller.now = s.scheduler.now
  phase : Starting watchDogTimeoutMilis startLatency s ∨
    (∃ key id, Serving watchDogTimeoutMilis
      (max (seconds (watchDogPeriod watchDogTimeoutMilis)) startLatency) petLatency s key id) ∨
      s.controller.main = .stopping false

/-- The timeout is the time between two sure refreshes, with something to spare. -/
structure Suffices (watchDogTimeoutMilis startLatency petLatency : ℤ) : Prop where
  start : 0 ≤ startLatency
  pet : 0 ≤ petLatency
  period : 0 ≤ watchDogPeriod watchDogTimeoutMilis
  timeout : timeout watchDogTimeoutMilis = 0 ∨
    max (seconds (watchDogPeriod watchDogTimeoutMilis)) startLatency + petLatency <
      timeout watchDogTimeoutMilis

theorem Moves.scheduler_step {a : Action} (h : Moves env watchDogTimeoutMilis s a t) :
    t.scheduler = s.scheduler ∨
      ∃ b, (Scheduler.system env).step s.scheduler b = some t.scheduler := by
  cases h with
  | tick d => exact Or.inr ⟨.tick d, rfl⟩
  | scheduler a scheduler allowed stepped => exact Or.inr ⟨a, stepped⟩
  | call rand rands a scheduler next at_pc calls stepped => exact Or.inr ⟨a, stepped⟩
  | startTimer rand rands scheduler at_pc at_start stepped => exact Or.inr ⟨.start, stepped⟩
  | _ => exact Or.inl rfl

theorem ne_tick_of_allows {a : Scheduler.Action} (h : s.allowsScheduler a = true) (d : ℕ) :
    a ≠ .tick d := by
  rintro rfl
  cases h

theorem Moves.clock {a : Action} (h : Moves env watchDogTimeoutMilis s a t)
    (hclock : s.controller.now = s.scheduler.now) : t.controller.now = t.scheduler.now := by
  cases h with
  | tick d => exact congrArg (· + (d : ℤ)) hclock
  | scheduler a scheduler allowed stepped =>
      have hnow := (Scheduler.moves_of_step stepped).now_eq (ne_tick_of_allows allowed)
      exact hclock.trans hnow.symm
  | controller a controller allowed moves =>
      refine (now_of_moves moves ?_).trans hclock
      rintro d rfl
      cases allowed
  | call rand rands a scheduler next at_pc calls stepped =>
      have hnow := (Scheduler.moves_of_step stepped).now_eq (by rintro d rfl; cases calls)
      exact hclock.trans hnow.symm
  | startTimer rand rands scheduler at_pc at_start stepped =>
      have hmove : Scheduler.Moves env s.scheduler .start scheduler :=
        Scheduler.moves_of_step stepped
      exact hclock.trans (hmove.now_eq fun _ ↦ Scheduler.Action.noConfusion).symm
  | run rand rands controller at_pc started moves =>
      exact (now_of_moves moves fun _ ↦ Running.Action.noConfusion).trans hclock
  | _ => exact hclock

/-- The calls of `start` in front of the timer. -/
theorem Starting.call (h : Starting watchDogTimeoutMilis startLatency s)
    (hperiod : 0 ≤ watchDogPeriod watchDogTimeoutMilis)
    (hreach : (Scheduler.system env).Reachable s.scheduler) (hpc : s.controller.main = .starting)
    {a : Scheduler.Action} {next : StartPc} (calls : Calls watchDogTimeoutMilis s a next)
    {u : Scheduler.State} (stepped : (Scheduler.system env).step s.scheduler a = some u) :
    Starting watchDogTimeoutMilis startLatency { s with scheduler := u, start := next } := by
  have hmove : Scheduler.Moves env s.scheduler a u := Scheduler.moves_of_step stepped
  have hprepared := h.prepared
  have hstart : a ≠ .start := by
    rintro rfl
    cases calls
  have hnow : u.now = s.scheduler.now := hmove.now_eq (by rintro d rfl; cases calls)
  cases calls with
  | schedule tp rand rands at_start =>
      simp only [Prepared, at_start] at hprepared
      obtain ⟨hsole, htp⟩ := hprepared
      obtain ⟨htimer, hdispatched⟩ := hmove.notStarted hstart h.timer
      refine ⟨htimer, hdispatched.trans h.quiet, h.worker, h.handled, Or.inr hpc, h.inTime,
        h.refreshed, ?_⟩
      have hadd : s.scheduler.addStep env (watchDogPet watchDogTimeoutMilis tp rand) rands =
          some u := stepped
      rw [Scheduler.State.addStep, Option.ite_none_right_eq_some] at hadd
      obtain ⟨store, hadded, rfl⟩ := Option.map_eq_some_iff.mp hadd.2
      exact ⟨_, tp, _, planned_of_added hsole (store_wf hreach) (by rw [h.timer]; rfl) h.log hadded,
        htp⟩
  | notify at_start =>
      have hs := h.schedule hperiod hreach hmove hstart trivial hnow.ge
      have hprepared := hs.prepared
      simp only [Prepared, at_start] at hprepared
      exact ⟨hs.timer, hs.quiet, hs.worker, hs.handled, Or.inr hpc, hs.inTime, hs.refreshed,
        hprepared⟩
  | unlock at_start =>
      have hs := h.schedule hperiod hreach hmove hstart trivial hnow.ge
      have hprepared := hs.prepared
      simp only [Prepared, at_start] at hprepared
      exact ⟨hs.timer, hs.quiet, hs.worker, hs.handled, Or.inr hpc, hs.inTime, hs.refreshed,
        hprepared⟩

/-- The next phase of a daemon that starts. -/
theorem Invariant.of_starting (h : Invariant env watchDogTimeoutMilis startLatency petLatency s)
    (hs : Starting watchDogTimeoutMilis startLatency s)
    (hsuffices : Suffices watchDogTimeoutMilis startLatency petLatency) {a : Action}
    (hhealthy : Healthy env startLatency petLatency s a)
    (hmove : Moves env watchDogTimeoutMilis s a t) :
    Starting watchDogTimeoutMilis startLatency t ∨ ∃ key id, Serving watchDogTimeoutMilis
      (max (seconds (watchDogPeriod watchDogTimeoutMilis)) startLatency) petLatency t key id := by
  have hprepared := hs.prepared
  cases hmove with
  | tick d =>
      have hlater : s.controller.now ≤ s.controller.now + d := by omega
      have ht := hs.schedule hsuffices.period h.reachable (.tick d) Scheduler.Action.noConfusion
        trivial (by change s.scheduler.now ≤ s.scheduler.now + d; omega)
      refine Or.inl ⟨ht.timer, ht.quiet, ht.worker, ht.handled, hs.main, fun hpc ↦ ?_,
        hs.refreshed.trans hlater, ht.prepared⟩
      exact ⟨(hs.inTime hpc).1, hhealthy.starts d rfl hpc hs.timer⟩
  | scheduler a u allowed stepped =>
      have hmove : Scheduler.Moves env s.scheduler a u := Scheduler.moves_of_step stepped
      refine Or.inl (hs.schedule hsuffices.period h.reachable hmove ?_ (hhealthy.foreign a rfl)
        (hmove.now_eq (ne_tick_of_allows allowed)).ge)
      rintro rfl
      cases allowed
  | controller a c allowed moves =>
      have hpc : s.controller.main = .loading ∨ s.controller.main = .starting :=
        hs.main.imp And.left id
      obtain ⟨hnow, hmain, hlast⟩ := moves_before moves allowed hpc
      have hlater : s.controller.lastRefreshTime ≤ c.lastRefreshTime := by
        rcases hlast with hlast | hlast
        · exact hlast.ge
        · exact hlast ▸ hs.refreshed
      refine Or.inl ⟨hs.timer, hs.quiet, hs.worker, hs.handled, hmain.symm ▸ hs.main, fun hpc ↦ ?_,
        ?_, hs.prepared⟩
      · obtain ⟨hlaunched, hinTime⟩ := hs.inTime (hmain ▸ hpc)
        exact ⟨hlaunched.trans hlater, hnow.le.trans hinTime⟩
      · rcases hlast with hlast | hlast
        · exact (hlast.trans_le hs.refreshed).trans hnow.ge
        · exact hlast.le.trans hnow.ge
  | launch rand rands at_pc =>
      refine Or.inl ⟨hs.timer, hs.quiet, hs.worker, hs.handled, Or.inr rfl, fun _ ↦ ⟨le_rfl, ?_⟩,
        le_rfl, hs.prepared⟩
      change s.controller.now ≤ s.controller.now + startLatency
      have := hsuffices.start
      omega
  | readTime rand rands at_pc at_start =>
      simp only [Prepared, at_start] at hprepared
      exact Or.inl ⟨hs.timer, hs.quiet, hs.worker, hs.handled, Or.inr at_pc, hs.inTime,
        hs.refreshed, hprepared, le_rfl⟩
  | call rand rands a u next at_pc calls stepped =>
      exact Or.inl (hs.call hsuffices.period h.reachable at_pc calls stepped)
  | startTimer rand rands u at_pc at_start stepped =>
      exact Or.inr (hs.startTimer h.reachable h.clock hsuffices.period (le_max_right _ _)
        hsuffices.pet at_pc at_start (Scheduler.moves_of_step stepped))
  | run rand rands c at_pc started moves =>
      rcases hs.main with ⟨hpc, -⟩ | hpc
      · exact absurd hpc at_pc
      · simp [Prepared, started hpc] at hprepared
  | take f at_worker next => simp [hs.quiet] at next
  | pet f at_worker free => simp [hs.worker] at at_worker
  | skip f clientId at_worker other => simp [hs.worker] at at_worker

/-- The next phase of a daemon that serves the watch dog. -/
theorem Invariant.of_serving (h : Invariant env watchDogTimeoutMilis startLatency petLatency s)
    {key : ℤ} {id : ℕ} (hs : Serving watchDogTimeoutMilis
      (max (seconds (watchDogPeriod watchDogTimeoutMilis)) startLatency) petLatency s key id)
    (hsuffices : Suffices watchDogTimeoutMilis startLatency petLatency) {a : Action}
    (hhealthy : Healthy env startLatency petLatency s a)
    (hmove : Moves env watchDogTimeoutMilis s a t) :
    (∃ key id, Serving watchDogTimeoutMilis
      (max (seconds (watchDogPeriod watchDogTimeoutMilis)) startLatency) petLatency t key id) ∨
        t.controller.main = .stopping false := by
  have hwork := hs.work
  have hfresh : timeout watchDogTimeoutMilis = 0 ∨ s.controller.now <
      s.controller.lastRefreshTime + timeout watchDogTimeoutMilis := by
    refine hsuffices.timeout.imp_right fun htimeout ↦ ?_
    have hnow := hs.fresh
    omega
  -- a step of the main thread or of another caller of the controller
  have hcontrol : ∀ {b : Running.Action} {c : Running.State}, (∀ d, b ≠ .tick d) →
      Running.Moves (timeout watchDogTimeoutMilis) s.controller b c →
      (∃ key id, Serving watchDogTimeoutMilis
        (max (seconds (watchDogPeriod watchDogTimeoutMilis)) startLatency) petLatency
        { s with controller := c } key id) ∨ c.main = .stopping false := by
    intro b c htick moves
    obtain ⟨hnow, hlast, hphase⟩ := hwork.move moves htick hfresh
    exact hphase.imp_left fun hwork ↦ ⟨key, id, hs.control hwork hnow hlast⟩
  cases hmove with
  | tick d =>
      obtain ⟨hndl, hplanned⟩ := hs.planned
      obtain ⟨houtstanding, hentries⟩ := hhealthy.pets d rfl (fun wdog hpc ↦ by
        simp [AtWork, hpc] at hwork) hs.timer
      exact Or.inl ⟨key, id, hs.tick houtstanding (hentries (key, id)
        (List.mem_filter.mpr ⟨hplanned.entry, decide_eq_true hplanned.client⟩))⟩
  | scheduler a u allowed stepped =>
      have hmove : Scheduler.Moves env s.scheduler a u := Scheduler.moves_of_step stepped
      obtain ⟨next, ht⟩ := hs.schedule h.reachable h.clock hsuffices.period (le_max_left _ _) hmove
        (hhealthy.foreign a rfl) (hmove.now_eq (ne_tick_of_allows allowed))
      exact Or.inl ⟨next, id, ht⟩
  | controller a c allowed moves =>
      refine hcontrol ?_ moves
      rintro d rfl
      cases allowed
  | launch rand rands at_pc => simp [AtWork, at_pc] at hwork
  | readTime rand rands at_pc at_start =>
      rw [hs.start] at at_start
      cases at_start
  | call rand rands a u next at_pc calls stepped =>
      cases calls with
      | schedule tp rand rands at_start =>
          rw [hs.start] at at_start
          cases at_start
      | notify at_start =>
          rw [hs.start] at at_start
          cases at_start
      | unlock at_start =>
          rw [hs.start] at at_start
          cases at_start
  | startTimer rand rands u at_pc at_start stepped =>
      rw [hs.start] at at_start
      cases at_start
  | run rand rands c at_pc started moves =>
      exact hcontrol (fun _ ↦ Running.Action.noConfusion) moves
  | take f at_worker next => exact Or.inl ⟨key, id, hs.take at_worker next⟩
  | pet f at_worker free => exact Or.inl ⟨key, id, hs.refresh at_worker⟩
  | skip f clientId at_worker other => exact Or.inl ⟨key, id, hs.skip at_worker other⟩

theorem Moves.stopping {a : Action} (h : Moves env watchDogTimeoutMilis s a t) {wdog : Bool}
    (hpc : s.controller.main = .stopping wdog) : t.controller.main = .stopping wdog := by
  cases h with
  | controller a c allowed moves => exact stopping_of_moves moves hpc
  | run rand rands c at_pc started moves => exact stopping_of_moves moves hpc
  | launch rand rands at_pc =>
      rw [hpc] at at_pc
      cases at_pc
  | _ => exact hpc

theorem invariant_of_reachable
    (hsuffices : Suffices watchDogTimeoutMilis startLatency petLatency)
    (h : (system env watchDogTimeoutMilis).ReachableVia
      (Healthy env startLatency petLatency) s) :
    Invariant env watchDogTimeoutMilis startLatency petLatency s := by
  refine System.ReachableVia.invariant
    (I := Invariant env watchDogTimeoutMilis startLatency petLatency) ?_ ?_ h
  · rintro s rfl
    refine ⟨.of_init ⟨0, rfl⟩, rfl, Or.inl ⟨rfl, rfl, rfl, rfl, Or.inl ⟨rfl, rfl⟩,
      fun hpc ↦ (by cases hpc), le_rfl, ?_⟩⟩
    rintro id ⟨hpending, -⟩
    simp [State.create, Scheduler.State.create, Store.pending, Store.empty] at hpending
  · intro s a t hs hhealthy hstep
    have hmove := moves_of_step hstep
    refine ⟨?_, hmove.clock hs.clock, ?_⟩
    · rcases hmove.scheduler_step with heq | ⟨b, hb⟩
      · exact heq ▸ hs.reachable
      · exact hs.reachable.step hb
    · rcases hs.phase with hstarting | ⟨key, id, hserving⟩ | hstopping
      · exact (hs.of_starting hstarting hsuffices hhealthy hmove).imp id Or.inl
      · exact Or.inr (hs.of_serving hserving hsuffices hhealthy hmove)
      · exact Or.inr (Or.inr (hmove.stopping hstopping))

/-- The watch dog stops no daemon whose timeout suffices for its latencies. -/
theorem silent_of_suffices (hsuffices : Suffices watchDogTimeoutMilis startLatency petLatency)
    (h : (system env watchDogTimeoutMilis).ReachableVia
      (Healthy env startLatency petLatency) s) : s.controller.main ≠ .stopping true := by
  intro hpc
  rcases (invariant_of_reachable hsuffices h).phase with hstarting | ⟨key, id, hserving⟩ | hstop
  · rcases hstarting.main with ⟨hmain, -⟩ | hmain
    · rw [hpc] at hmain
      cases hmain
    · rw [hpc] at hmain
      cases hmain
  · have hwork := hserving.work
    simp [AtWork, hpc] at hwork
  · rw [hpc] at hstop
    cases hstop

/-! ## Where the timeout is too short -/

theorem healthy_of_untimed {a : Action} (hscheduler : ∀ b, a = .scheduler b → b = .timer)
    (htick : ∀ d, a ≠ .tick d) : Healthy env startLatency petLatency s a := by
  refine ⟨fun b hb ↦ ?_, fun d hd ↦ absurd hd (htick d), fun d hd ↦ absurd hd (htick d)⟩
  obtain rfl := hscheduler b hb
  trivial

theorem healthy_main (rand : ℤ) (rands : List (List ℤ)) :
    Healthy env startLatency petLatency s (.main rand rands) :=
  healthy_of_untimed (fun _ ↦ Action.noConfusion) fun _ ↦ Action.noConfusion

/-- A main thread that finds the refresh too old reports the watch dog. -/
theorem exists_stopping {since : ℤ} (hpc : s.controller.main = .relocking since)
    (hrunning : s.controller.running = true) (hne : timeout watchDogTimeoutMilis ≠ 0)
    (hlate : s.controller.lastRefreshTime + timeout watchDogTimeoutMilis ≤ s.controller.now) :
    ∃ t, (system env watchDogTimeoutMilis).Reaches (Healthy env startLatency petLatency) s t ∧
      t.controller.main = .stopping true := by
  have hcontinues : ({ s.controller with main := .testing s.controller.now } :
      Running.State).continues (timeout watchDogTimeoutMilis) = false := by
    have hnot : ¬s.controller.now - s.controller.lastRefreshTime <
        timeout watchDogTimeoutMilis := by omega
    simp [Running.State.continues, hne, hnot]
  have hlock : (system env watchDogTimeoutMilis).step s (.main 7 [[]]) =
      some { s with controller := { s.controller with main := .testing s.controller.now } } := by
    simp [system, State.step, State.mainStep, State.control, Running.system, Running.State.step,
      Running.State.runStep, hpc]
  have htest : (system env watchDogTimeoutMilis).step
      { s with controller := { s.controller with main := .testing s.controller.now } }
      (.main 7 [[]]) =
        some { s with
          controller := { s.controller with main := .unlocked s.controller.now } } := by
    simp [system, State.step, State.mainStep, State.control, Running.system, Running.State.step,
      Running.State.runStep, hcontinues]
  have hreport : (system env watchDogTimeoutMilis).step
      { s with controller := { s.controller with main := .unlocked s.controller.now } }
      (.main 7 [[]]) =
        some { s with controller := { s.controller with main := .stopping true } } := by
    simp [system, State.step, State.mainStep, State.control, Running.system, Running.State.step,
      Running.State.runStep, hrunning]
  have hstart : (system env watchDogTimeoutMilis).Reaches (Healthy env startLatency petLatency)
      s s := .refl
  exact ⟨_, ((hstart.step (healthy_main 7 [[]]) hlock).step (healthy_main 7 [[]]) htest).step
    (healthy_main 7 [[]]) hreport, rfl⟩

section Late

variable (env : Env) (watchDogTimeoutMilis startLatency petLatency : ℤ)

/-- `start` has come to the services in no time. -/
def prepared : State :=
  { State.create env with
    scheduler :=
      { withPet env watchDogTimeoutMilis with scheduledTaskPushed := true, adder := none }
    controller := Running.State.create.launch
    start := .startServices }

theorem reachable_prepared :
    (system env watchDogTimeoutMilis).ReachableVia (Healthy env startLatency petLatency)
      (prepared env watchDogTimeoutMilis) :=
  ⟨State.create env, rfl, System.reaches_of_run (List.replicate 5 (.main 7 [[]]))
    (fun _ ha _ ↦ List.eq_of_mem_replicate ha ▸ healthy_main 7 [[]]) rfl⟩

/-- `start` has returned after `d` nanoseconds, and the timer has not moved yet. -/
def started (d : ℕ) : State :=
  { prepared env watchDogTimeoutMilis with
    scheduler :=
      { withPet env watchDogTimeoutMilis with
        runTimerThread := true, timer := .readStart, adder := none, now := 0 + d }
    controller :=
      { Running.State.create.launch with
        now := 0 + d, main := .relocking (0 + d), enteredAt := 0 + d }
    start := .started
    startedAt := 0 + d }

theorem reachable_started {d : ℕ} (hd : d ≤ startLatency) :
    (system env watchDogTimeoutMilis).ReachableVia (Healthy env startLatency petLatency)
      (started env watchDogTimeoutMilis d) := by
  have htick : Healthy env startLatency petLatency (prepared env watchDogTimeoutMilis)
      (.tick d) := by
    refine ⟨fun _ ↦ Action.noConfusion, fun d' hd' _ _ ↦ ?_, fun _ _ _ htimer ↦ absurd rfl htimer⟩
    obtain rfl := Action.tick.inj hd'
    change 0 + (d : ℤ) ≤ 0 + startLatency
    omega
  exact (((reachable_prepared env watchDogTimeoutMilis startLatency petLatency).step htick rfl).step
    (healthy_main 7 [[]]) rfl).step (healthy_main 7 [[]]) rfl

/-- The timer has not moved for as long as it may. -/
theorem healthy_started {d d' : ℕ} (hd : d' ≤ petLatency) :
    Healthy env startLatency petLatency (started env watchDogTimeoutMilis d) (.tick d') := by
  refine ⟨fun _ ↦ Action.noConfusion, fun _ _ hpc ↦ (by cases hpc), fun k hk _ _ ↦ ⟨?_, ?_⟩⟩
  · intro f hf
    cases hf
  · obtain rfl := Action.tick.inj hk
    intro e he
    obtain rfl : e = (0, 0) := List.mem_singleton.mp (List.mem_of_mem_filter he)
    change 0 + (d : ℤ) + d' ≤ max 0 (0 + (d : ℤ)) + petLatency
    omega

/-- `start` has taken all its time, and then the first pet all of its. -/
theorem reachable_lateStart (hstart : 0 ≤ startLatency) (hpet : 0 ≤ petLatency) :
    ∃ s, (system env watchDogTimeoutMilis).ReachableVia (Healthy env startLatency petLatency) s ∧
      s.controller.main = .relocking (0 + startLatency.toNat) ∧ s.controller.running = true ∧
        s.controller.lastRefreshTime = 0 ∧ s.controller.now = startLatency + petLatency := by
  have hready := reachable_started env watchDogTimeoutMilis startLatency petLatency
    (Int.toNat_of_nonneg hstart).le
  refine ⟨_, hready.step (healthy_started env watchDogTimeoutMilis startLatency petLatency
    (Int.toNat_of_nonneg hpet).le) rfl, rfl, rfl, rfl, ?_⟩
  change 0 + (startLatency.toNat : ℤ) + petLatency.toNat = startLatency + petLatency
  omega

/-- The timer has taken out the first pet a nanosecond after `start`, and it is served. -/
def petted : State :=
  { started env watchDogTimeoutMilis 0 with
    scheduler := (petLocked env watchDogTimeoutMilis).innerSection.dispatchStep ⟨0, 0, 1⟩
    controller :=
      { Running.State.create.launch with
        now := 1, lastRefreshTime := 1, main := .relocking 0, refreshes := [0, 1] }
    handled := 1 }

/-- The steps of the timer and of the worker for the first pet. -/
def serve : List Action :=
  List.replicate 9 (.scheduler .timer) ++ [.worker, .worker]

theorem reachable_petted (hstart : 0 ≤ startLatency) (hpet : 1 ≤ petLatency) :
    (system env watchDogTimeoutMilis).ReachableVia (Healthy env startLatency petLatency)
      (petted env watchDogTimeoutMilis) := by
  have htick : Healthy env startLatency petLatency (started env watchDogTimeoutMilis 0)
      (.tick 1) :=
    healthy_started env watchDogTimeoutMilis startLatency petLatency (by exact_mod_cast hpet)
  have hready := (reachable_started env watchDogTimeoutMilis startLatency petLatency
    (d := 0) (by exact_mod_cast hstart)).step htick rfl
  refine hready.reaches (System.reaches_of_run serve (fun a ha _ ↦ ?_) rfl)
  have hserve : a = .scheduler .timer ∨ a = .worker := by
    simpa [serve, List.mem_replicate] using ha
  rcases hserve with rfl | rfl
  · exact healthy_of_untimed (fun _ hb ↦ (Action.scheduler.inj hb).symm) fun _ ↦ Action.noConfusion
  · exact healthy_of_untimed (fun _ ↦ Action.noConfusion) fun _ ↦ Action.noConfusion

/-- Behind the first pet a period has passed, and then the next pet has taken all its time. -/
theorem reachable_latePet (hstart : 0 ≤ startLatency) (hpet : 1 ≤ petLatency)
    (hperiod : 0 ≤ seconds (watchDogPeriod watchDogTimeoutMilis)) :
    ∃ s, (system env watchDogTimeoutMilis).ReachableVia (Healthy env startLatency petLatency) s ∧
      s.controller.main = .relocking 0 ∧ s.controller.running = true ∧
        s.controller.lastRefreshTime = 1 ∧ s.controller.now =
          1 + (seconds (watchDogPeriod watchDogTimeoutMilis) + petLatency) := by
  obtain ⟨d, hd⟩ := Int.eq_ofNat_of_zero_le
    (show 0 ≤ seconds (watchDogPeriod watchDogTimeoutMilis) + petLatency by omega)
  have hlate : Healthy env startLatency petLatency (petted env watchDogTimeoutMilis)
      (.tick d) := by
    refine ⟨fun _ ↦ Action.noConfusion, fun _ _ hpc ↦ (by cases hpc), fun k hk _ _ ↦ ⟨?_, ?_⟩⟩
    · intro f hf
      cases hf
    · obtain rfl := Action.tick.inj hk
      intro e he
      change 1 + (d : ℤ) ≤ max e.1 0 + petLatency
      have hentry := (mem_innerSection (due_petLocked env watchDogTimeoutMilis)).mp
        (List.mem_of_mem_filter he)
      rcases hentry with ⟨-, rfl⟩ | htail
      · change 1 + (d : ℤ) ≤
          max (1 + seconds (watchDogPeriod watchDogTimeoutMilis)) 0 + petLatency
        omega
      · cases htail
  refine ⟨_, (reachable_petted env watchDogTimeoutMilis startLatency petLatency hstart hpet).step
    hlate rfl, rfl, rfl, rfl, ?_⟩
  change 1 + (d : ℤ) = 1 + (seconds (watchDogPeriod watchDogTimeoutMilis) + petLatency)
  rw [hd]

end Late

/-! ## The exact condition -/

/-- Over every run in which `start` and the pets take no longer than their latencies, the watch
dog stops no daemon, exactly if it is off or its timeout is longer than the latency of a pet
behind the longer one of the period and the latency of `start`.  A pet has a latency, as the
timer fires only what lies before the reading of its clock. -/
theorem watchDog_silent_iff (env : Env) (watchDogTimeoutMilis startLatency petLatency : ℤ)
    (hstart : 0 ≤ startLatency) (hpet : 1 ≤ petLatency) :
    (∀ s, (system env watchDogTimeoutMilis).ReachableVia (Healthy env startLatency petLatency) s →
      s.controller.main ≠ .stopping true) ↔
      watchDogTimeoutMilis = 0 ∨
        max (seconds (watchDogPeriod watchDogTimeoutMilis)) startLatency + petLatency <
          timeout watchDogTimeoutMilis := by
  constructor
  · intro hsilent
    by_contra hnot
    obtain ⟨hne, hshort⟩ := not_or.mp hnot
    have hne : timeout watchDogTimeoutMilis ≠ 0 := by
      dsimp only [timeout]
      omega
    -- it is enough that the main thread can find the last refresh too old
    have hstop : ∀ {since : ℤ} {s : State}, (system env watchDogTimeoutMilis).ReachableVia
        (Healthy env startLatency petLatency) s → s.controller.main = .relocking since →
        s.controller.running = true → ¬s.controller.lastRefreshTime +
          timeout watchDogTimeoutMilis ≤ s.controller.now := by
      intro since s hs hpc hrunning hlate
      obtain ⟨t, hreach, hmain⟩ := exists_stopping hpc hrunning hne hlate
      exact hsilent t (hs.reaches hreach) hmain
    rcases le_total startLatency (seconds (watchDogPeriod watchDogTimeoutMilis)) with hle | hle
    · obtain ⟨s, hs, hpc, hrunning, hlast, hnow⟩ := reachable_latePet env watchDogTimeoutMilis
        startLatency petLatency hstart hpet (hstart.trans hle)
      refine hstop hs hpc hrunning ?_
      rw [max_eq_left hle] at hshort
      omega
    · obtain ⟨s, hs, hpc, hrunning, hlast, hnow⟩ := reachable_lateStart env watchDogTimeoutMilis
        startLatency petLatency hstart (by omega)
      refine hstop hs hpc hrunning ?_
      rw [max_eq_right hle] at hshort
      omega
  · intro hcondition s hs
    refine silent_of_suffices ⟨hstart, by omega, ?_, hcondition.imp_left fun hzero ↦ ?_⟩ hs
    · have hpositive : 0 ≤ watchDogTimeoutMilis := by
        rcases hcondition with hzero | hlong
        · exact hzero.ge
        · have hmax := le_max_right (seconds (watchDogPeriod watchDogTimeoutMilis)) startLatency
          dsimp only [timeout] at hlong
          omega
      rw [watchDogPeriod_of_nonneg hpositive]
      omega
    · rw [hzero]
      rfl

/-- A minute suffices for a start of forty seconds and pets of ten, forty seconds do not. -/
theorem watchDog_silent_iff_minute :
    (∀ s, (system epochDay 60000).ReachableVia (Healthy epochDay (seconds 40) (seconds 10)) s →
      s.controller.main ≠ .stopping true) ∧
    ¬∀ s, (system epochDay 40000).ReachableVia (Healthy epochDay (seconds 40) (seconds 10)) s →
      s.controller.main ≠ .stopping true := by
  constructor
  · exact (watchDog_silent_iff epochDay 60000 (seconds 40) (seconds 10) (by decide)
      (by decide)).mpr (Or.inr (by decide))
  · intro hsilent
    have hlong := (watchDog_silent_iff epochDay 40000 (seconds 40) (seconds 10) (by decide)
      (by decide)).mp hsilent
    exact absurd hlong (by decide)

end IqrfDaemon.Controller.Petting
