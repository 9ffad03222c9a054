import IqrfDaemon.Controller.Running
import IqrfDaemon.Scheduler.Planned
import IqrfDaemon.Scheduler.WatchDog

/-!
# A daemon whose watch dog is petted

The main thread in `run`, the scheduler that `startScheduler` gives the task `WatchDogPet`, and
the worker of the scheduler's queue, whose handler of this task refreshes the watch dog.  If
`start` and the service of a task that is due take no longer than given bounds, the watch dog
stops no daemon with a timeout that is large enough, and otherwise it can stop one in which
nothing is wrong.
-/

namespace IqrfDaemon.Controller.Petting

open Scheduler Transition

/-! ## The system -/

/-- The client and the task that `startScheduler` schedules. -/
def watchDogPetName : String := "WatchDogPet"

/-- The timeout in nanoseconds. -/
def timeout (watchDogTimeoutMilis : ℤ) : ℤ := watchDogTimeoutMilis * 1000000

/-- Where the main thread is in `start`: in `startScheduler`, whose `scheduleTaskPeriodic` has
three parts behind the reading of the clock, in `startServices`, which starts the scheduler at
its end, or behind it. -/
inductive StartPc
  | readTime
  | scheduleTaskPeriodic (tp : ℤ)
  | notifyTimer
  | unlockTasks
  | startServices
  | started

def StartPc.adding : StartPc → Bool
  | notifyTimer | unlockTasks => true
  | _ => false

/-- The worker in `handleScheduledRecord`, with the client of its copy of the record. -/
inductive WorkerPc
  | waiting
  | handle (f : Firing) (clientId : String)

/-- The threads, how many of the records pushed the worker has taken, and the history: the
times at which `run` came to `start` and at which the timer was started. -/
structure State where
  scheduler : Scheduler.State
  controller : Running.State
  start : StartPc
  worker : WorkerPc
  handled : ℕ
  launchedAt : ℤ
  startedAt : ℤ

/-- Time passes for all; `scheduler` stands for the timer and the other clients, `controller`
for the other callers of the controller; `main` has the outcomes of `rand()`. -/
inductive Action
  | tick (d : ℕ)
  | scheduler (a : Scheduler.Action)
  | controller (a : Running.Action)
  | main (rand : ℤ) (rands : List (List ℤ))
  | worker

namespace State

/-- Time is counted from the call of `run`. -/
def create (env : Env) : State where
  scheduler := Scheduler.State.create env 0
  controller := Running.State.create
  start := .readTime
  worker := .waiting
  handled := 0
  launchedAt := 0
  startedAt := 0

/-- The main thread starts the scheduler, does its own steps of the addition, and stops the
scheduler behind its loop. -/
def allowsScheduler (s : State) : Scheduler.Action → Bool
  | .start | .tick _ => false
  | .addFlag | .addUnlock => !s.start.adding
  | .stop =>
      match s.controller.main with
      | .stopping _ => true
      | _ => false
  | _ => true

def allowsController : Running.Action → Bool
  | .tick _ | .run => false
  | _ => true

section Steps

variable (env : Env) (watchDogTimeoutMilis : ℤ) (s : State)

def schedule (a : Scheduler.Action) (next : StartPc) : Option State :=
  ((Scheduler.system env).step s.scheduler a).map fun scheduler ↦
    { s with scheduler := scheduler, start := next }

def control (a : Running.Action) : Option State :=
  ((Running.system (timeout watchDogTimeoutMilis)).step s.controller a).map fun controller ↦
    { s with controller := controller }

def startStep (rand : ℤ) (rands : List (List ℤ)) : Option State :=
  match s.start with
  | .readTime => some { s with start := .scheduleTaskPeriodic s.scheduler.now }
  | .scheduleTaskPeriodic tp =>
      s.schedule env (.add (watchDogPet watchDogTimeoutMilis tp rand) rands) .notifyTimer
  | .notifyTimer => s.schedule env .addFlag .unlockTasks
  | .unlockTasks => s.schedule env .addUnlock .startServices
  | .startServices =>
      (s.schedule env .start .started).map fun t ↦ { t with startedAt := s.scheduler.now }
  | .started => s.control watchDogTimeoutMilis .run

def mainStep (rand : ℤ) (rands : List (List ℤ)) : Option State :=
  match s.controller.main with
  | .loading =>
      (s.control watchDogTimeoutMilis .run).map fun t ↦ { t with launchedAt := s.controller.now }
  | .starting => s.startStep env watchDogTimeoutMilis rand rands
  | _ => s.control watchDogTimeoutMilis .run

def workerStep : Option State :=
  match s.worker with
  | .waiting =>
      (s.scheduler.dispatched[s.handled]?).map fun f ↦
        { s with
          worker := .handle f (s.scheduler.store.record f.record).clientId
          handled := s.handled + 1 }
  | .handle _ clientId =>
      if clientId = watchDogPetName then
        (s.control watchDogTimeoutMilis .watchDogPet).map fun t ↦ { t with worker := .waiting }
      else some { s with worker := .waiting }

def step : Action → Option State
  | .tick d =>
      (s.schedule env (.tick d) s.start).bind fun t ↦ t.control watchDogTimeoutMilis (.tick d)
  | .scheduler a => if s.allowsScheduler a then s.schedule env a s.start else none
  | .controller a => if allowsController a then s.control watchDogTimeoutMilis a else none
  | .main rand rands => s.mainStep env watchDogTimeoutMilis rand rands
  | .worker => s.workerStep watchDogTimeoutMilis

end Steps

end State

def system (env : Env) (watchDogTimeoutMilis : ℤ) : System State Action where
  init s := s = State.create env
  step := State.step env watchDogTimeoutMilis

/-! ## The bounds -/

/-- The pets that were taken out and that the worker has not served yet. -/
def State.outstanding (s : State) : List Firing :=
  (match s.worker with
    | .waiting => []
    | .handle f clientId => if clientId = watchDogPetName then [f] else []) ++
    s.scheduler.firingsFrom watchDogPetName s.handled

/-- When a pet was due: at the time it was stored under, or when the timer was started. -/
def State.due (s : State) (f : Firing) : ℤ := max f.stored s.startedAt

/-- Until the daemon stops, `startLatency` is not exceeded from the beginning of `start` to the
start of the timer, nor `petLatency` from the time at which a pet is due to the refresh, and no
other client uses the name of the task. -/
structure Healthy (env : Env) (startLatency petLatency : ℤ) (s : State) (a : Action) : Prop where
  foreign : ∀ b, a = .scheduler b → Scheduler.Foreign env watchDogPetName b
  starts : ∀ d : ℕ, a = .tick d → s.controller.main = .starting →
    s.scheduler.timer = .notStarted → s.controller.now + d ≤ s.launchedAt + startLatency
  pets : ∀ d : ℕ, a = .tick d → (∀ wdog, s.controller.main ≠ .stopping wdog) →
    s.scheduler.timer ≠ .notStarted →
      (∀ f ∈ s.outstanding, s.controller.now + d ≤ s.due f + petLatency) ∧
        ∀ e ∈ s.scheduler.store.entriesOf watchDogPetName,
          s.controller.now + d ≤ max e.1 s.startedAt + petLatency

variable {env : Env} {watchDogTimeoutMilis : ℤ} {s t : State}

/-! ## What one step can do -/

/-- The steps of the main thread in `start` that call the scheduler, with where they lead. -/
inductive Calls (watchDogTimeoutMilis : ℤ) (s : State) : Scheduler.Action → StartPc → Prop
  | schedule (tp rand : ℤ) (rands : List (List ℤ)) (at_start : s.start = .scheduleTaskPeriodic tp) :
      Calls watchDogTimeoutMilis s (.add (watchDogPet watchDogTimeoutMilis tp rand) rands)
        .notifyTimer
  | notify (at_start : s.start = .notifyTimer) : Calls watchDogTimeoutMilis s .addFlag .unlockTasks
  | unlock (at_start : s.start = .unlockTasks) :
      Calls watchDogTimeoutMilis s .addUnlock .startServices

/-- The steps, each with the program point it starts from. -/
inductive Moves (env : Env) (watchDogTimeoutMilis : ℤ) (s : State) : Action → State → Prop
  | tick (d : ℕ) :
      Moves env watchDogTimeoutMilis s (.tick d)
        { s with
          scheduler := { s.scheduler with now := s.scheduler.now + d }
          controller := { s.controller with now := s.controller.now + d } }
  | scheduler (a : Scheduler.Action) (scheduler : Scheduler.State)
      (allowed : s.allowsScheduler a = true)
      (stepped : (Scheduler.system env).step s.scheduler a = some scheduler) :
      Moves env watchDogTimeoutMilis s (.scheduler a) { s with scheduler := scheduler }
  | controller (a : Running.Action) (controller : Running.State)
      (allowed : State.allowsController a = true)
      (moves : Running.Moves (timeout watchDogTimeoutMilis) s.controller a controller) :
      Moves env watchDogTimeoutMilis s (.controller a) { s with controller := controller }
  | launch (rand : ℤ) (rands : List (List ℤ)) (at_pc : s.controller.main = .loading) :
      Moves env watchDogTimeoutMilis s (.main rand rands)
        { s with controller := s.controller.launch, launchedAt := s.controller.now }
  | readTime (rand : ℤ) (rands : List (List ℤ)) (at_pc : s.controller.main = .starting)
      (at_start : s.start = .readTime) :
      Moves env watchDogTimeoutMilis s (.main rand rands)
        { s with start := .scheduleTaskPeriodic s.scheduler.now }
  | call (rand : ℤ) (rands : List (List ℤ)) (a : Scheduler.Action) (scheduler : Scheduler.State)
      (next : StartPc) (at_pc : s.controller.main = .starting)
      (calls : Calls watchDogTimeoutMilis s a next)
      (stepped : (Scheduler.system env).step s.scheduler a = some scheduler) :
      Moves env watchDogTimeoutMilis s (.main rand rands)
        { s with scheduler := scheduler, start := next }
  | startTimer (rand : ℤ) (rands : List (List ℤ)) (scheduler : Scheduler.State)
      (at_pc : s.controller.main = .starting) (at_start : s.start = .startServices)
      (stepped : (Scheduler.system env).step s.scheduler .start = some scheduler) :
      Moves env watchDogTimeoutMilis s (.main rand rands)
        { s with scheduler := scheduler, start := .started, startedAt := s.scheduler.now }
  | run (rand : ℤ) (rands : List (List ℤ)) (controller : Running.State)
      (at_pc : s.controller.main ≠ .loading)
      (started : s.controller.main = .starting → s.start = .started)
      (moves : Running.Moves (timeout watchDogTimeoutMilis) s.controller .run controller) :
      Moves env watchDogTimeoutMilis s (.main rand rands) { s with controller := controller }
  | take (f : Firing) (at_worker : s.worker = .waiting)
      (next : s.scheduler.dispatched[s.handled]? = some f) :
      Moves env watchDogTimeoutMilis s .worker
        { s with
          worker := .handle f (s.scheduler.store.record f.record).clientId
          handled := s.handled + 1 }
  | pet (f : Firing) (at_worker : s.worker = .handle f watchDogPetName)
      (free : s.controller.main.holdsMutex = false) :
      Moves env watchDogTimeoutMilis s .worker
        { s with controller := s.controller.watchDogPet, worker := .waiting }
  | skip (f : Firing) (clientId : String) (at_worker : s.worker = .handle f clientId)
      (other : clientId ≠ watchDogPetName) :
      Moves env watchDogTimeoutMilis s .worker { s with worker := .waiting }

theorem State.schedule_eq_some {a : Scheduler.Action} {next : StartPc}
    (h : s.schedule env a next = some t) :
    ∃ scheduler, (Scheduler.system env).step s.scheduler a = some scheduler ∧
      t = { s with scheduler := scheduler, start := next } := by
  obtain ⟨scheduler, hstep, rfl⟩ := Option.map_eq_some_iff.mp h
  exact ⟨scheduler, hstep, rfl⟩

theorem State.control_eq_some {a : Running.Action}
    (h : s.control watchDogTimeoutMilis a = some t) :
    ∃ controller, Running.Moves (timeout watchDogTimeoutMilis) s.controller a controller ∧
      t = { s with controller := controller } := by
  obtain ⟨controller, hstep, rfl⟩ := Option.map_eq_some_iff.mp h
  exact ⟨controller, Running.moves_of_step hstep, rfl⟩

theorem moves_of_startStep {rand : ℤ} {rands : List (List ℤ)}
    (hpc : s.controller.main = .starting)
    (h : s.startStep env watchDogTimeoutMilis rand rands = some t) :
    Moves env watchDogTimeoutMilis s (.main rand rands) t := by
  unfold State.startStep at h
  cases hstart : s.start with
  | readTime =>
      simp only [hstart] at h
      obtain rfl := Option.some.inj h
      exact .readTime rand rands hpc hstart
  | scheduleTaskPeriodic tp =>
      simp only [hstart] at h
      obtain ⟨scheduler, hstep, rfl⟩ := State.schedule_eq_some h
      exact .call rand rands _ scheduler _ hpc (.schedule tp rand rands hstart) hstep
  | notifyTimer =>
      simp only [hstart] at h
      obtain ⟨scheduler, hstep, rfl⟩ := State.schedule_eq_some h
      exact .call rand rands _ scheduler _ hpc (.notify hstart) hstep
  | unlockTasks =>
      simp only [hstart] at h
      obtain ⟨scheduler, hstep, rfl⟩ := State.schedule_eq_some h
      exact .call rand rands _ scheduler _ hpc (.unlock hstart) hstep
  | startServices =>
      simp only [hstart] at h
      obtain ⟨u, hu, rfl⟩ := Option.map_eq_some_iff.mp h
      obtain ⟨scheduler, hstep, rfl⟩ := State.schedule_eq_some hu
      exact .startTimer rand rands scheduler hpc hstart hstep
  | started =>
      simp only [hstart] at h
      obtain ⟨controller, hmoves, rfl⟩ := State.control_eq_some h
      exact .run rand rands controller (by rw [hpc]; exact Running.Pc.noConfusion)
        (fun _ ↦ hstart) hmoves

theorem moves_of_mainStep {rand : ℤ} {rands : List (List ℤ)}
    (h : s.mainStep env watchDogTimeoutMilis rand rands = some t) :
    Moves env watchDogTimeoutMilis s (.main rand rands) t := by
  have hrun : s.controller.main ≠ .loading → s.controller.main ≠ .starting →
      s.control watchDogTimeoutMilis .run = some t →
      Moves env watchDogTimeoutMilis s (.main rand rands) t := by
    intro hloading hstarting h
    obtain ⟨controller, hmoves, rfl⟩ := State.control_eq_some h
    exact .run rand rands controller hloading (fun hpc ↦ absurd hpc hstarting) hmoves
  unfold State.mainStep at h
  cases hpc : s.controller.main with
  | loading =>
      simp only [hpc] at h
      have hlaunch : s.control watchDogTimeoutMilis .run =
          some { s with controller := s.controller.launch } := by
        simp [State.control, Running.system, Running.State.step, Running.State.runStep, hpc]
      rw [hlaunch] at h
      obtain rfl := Option.some.inj h
      exact .launch rand rands hpc
  | starting =>
      simp only [hpc] at h
      exact moves_of_startStep hpc h
  | relocking | testing | waiting | unlocked | stopping =>
      simp only [hpc] at h
      exact hrun (by simp [hpc]) (by simp [hpc]) h

theorem moves_of_workerStep (h : s.workerStep watchDogTimeoutMilis = some t) :
    Moves env watchDogTimeoutMilis s .worker t := by
  unfold State.workerStep at h
  cases hpc : s.worker with
  | waiting =>
      simp only [hpc] at h
      obtain ⟨f, hf, rfl⟩ := Option.map_eq_some_iff.mp h
      exact .take f hpc hf
  | handle f clientId =>
      simp only [hpc] at h
      split at h
      case isTrue hpet =>
        subst hpet
        cases hfree : s.controller.main.holdsMutex with
        | true =>
            simp [State.control, Running.system, Running.State.step, hfree] at h
        | false =>
            have hrefresh : s.control watchDogTimeoutMilis .watchDogPet =
                some { s with controller := s.controller.watchDogPet } := by
              simp [State.control, Running.system, Running.State.step, hfree]
            rw [hrefresh] at h
            obtain rfl := Option.some.inj h
            exact .pet f hpc hfree
      case isFalse hother =>
        obtain rfl := Option.some.inj h
        exact .skip f clientId hpc hother

theorem moves_of_step {a : Action} (h : s.step env watchDogTimeoutMilis a = some t) :
    Moves env watchDogTimeoutMilis s a t := by
  cases a with
  | tick d =>
      have htick : s.step env watchDogTimeoutMilis (.tick d) = some
          { s with
            scheduler := { s.scheduler with now := s.scheduler.now + d }
            controller := { s.controller with now := s.controller.now + d } } := by
        simp [State.step, State.schedule, State.control, Scheduler.system, Scheduler.State.step,
          Running.system, Running.State.step]
      rw [htick] at h
      obtain rfl := Option.some.inj h
      exact .tick d
  | scheduler a =>
      rw [State.step, Option.ite_none_right_eq_some] at h
      obtain ⟨hallowed, h⟩ := h
      obtain ⟨scheduler, hstep, rfl⟩ := State.schedule_eq_some h
      exact .scheduler a scheduler hallowed hstep
  | controller a =>
      rw [State.step, Option.ite_none_right_eq_some] at h
      obtain ⟨hallowed, h⟩ := h
      obtain ⟨controller, hmoves, rfl⟩ := State.control_eq_some h
      exact .controller a controller hallowed hmoves
  | main rand rands => exact moves_of_mainStep h
  | worker => exact moves_of_workerStep h

end IqrfDaemon.Controller.Petting
