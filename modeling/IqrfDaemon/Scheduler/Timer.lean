import IqrfDaemon.Scheduler.Index

/-!
# The timer thread among its callers

The scheduler as a transition system: the timer thread, callers that add and
remove, `start` and `stop`, and a wall clock that never goes back.  A section
under `m_scheduledTasksMutex` is one step, except that an adder, which takes
`m_conditionVariableMutex` as well before it lets go, first inserts, then raises
the flag and then releases both.
-/

namespace IqrfDaemon.Scheduler

open Json Transition

/-- Program points of `timer()`.  `readStart` is its first `getTime`; `lock` to
`clearPushed` are the wait, where only `clearPushed` holds the mutex between two
steps; `testInner` to `dispatch` are the inner loop, and `dispatch` carries the
record taken out, not yet checked and pushed. -/
inductive TimerPc
  | notStarted
  | readStart
  | testRun
  | lock
  | blocked (notified : Bool)
  | clearPushed
  | readTime
  | testInner
  | locked
  | dispatch (f : Firing)
  | exited
  deriving DecidableEq

namespace TimerPc

def isBlocked : TimerPc → Bool
  | blocked _ => true
  | _ => false

def inner : TimerPc → Bool
  | testInner | locked | dispatch _ => true
  | _ => false

def inHand : TimerPc → List Firing
  | dispatch f => [f]
  | _ => []

theorem inHand_of_waiting {pc : TimerPc} (h : pc = .lock ∨ pc.isBlocked = true) :
    pc.inHand = [] := by
  cases pc with
  | dispatch f => simp [isBlocked] at h
  | _ => rfl

theorem eq_dispatch_of_inHand {pc : TimerPc} {f : Firing} (h : pc.inHand = [f]) :
    pc = dispatch f := by
  cases pc with
  | dispatch g => rw [List.singleton_inj.mp h]
  | _ => cases h

end TimerPc

/-- An adder that holds `m_scheduledTasksMutex`, and from `flagged` on
`m_conditionVariableMutex` as well. -/
inductive AdderPhase
  | inserted
  | flagged
  deriving DecidableEq

/-- The members of `Scheduler`, the local variables of `timer()`, the wall clock,
its last reading by the timer, and the history of pushes to the dispatch queue
and of the records removed through the interface. -/
structure State where
  store : Store
  scheduledTaskPushed : Bool
  runTimerThread : Bool
  timer : TimerPc
  timePoint : ℤ
  timeStr : Tm
  adder : Option AdderPhase
  pendingStops : ℕ
  now : ℤ
  reading : ℤ
  dispatched : List Firing
  removed : List ℕ

/-- `stop` and `stopFlag` are the two halves of `Scheduler::stop`; `add`, `addFlag`
and `addUnlock` the parts of `addScheduleRecord(s)`, with the outcomes of `rand()`
for each record. -/
inductive Action
  | start
  | stop
  | stopFlag
  | tick (d : ℕ)
  | add (request : Request) (rands : List (List ℤ))
  | addFlag
  | addUnlock
  | remove (removal : Removal)
  | spuriousWakeup
  | timer

namespace State

def create (env : Env) (now : ℤ) : State where
  store := Store.empty
  scheduledTaskPushed := false
  runTimerThread := false
  timer := .notStarted
  timePoint := now
  timeStr := env.localtime (toTimeT now)
  adder := none
  pendingStops := 0
  now := now
  reading := now
  dispatched := []
  removed := []

/-- Whether `m_conditionVariableMutex` is free. -/
def cvFree (s : State) : Bool :=
  s.timer ≠ .clearPushed && s.adder ≠ some .flagged

def notify (s : State) : State :=
  match s.timer with
  | .blocked _ => { s with timer := .blocked true }
  | _ => s

/-- `ScheduleRecord::getTime` into the variables of `timer()`. -/
def getTime (env : Env) (s : State) : State :=
  { s with
    timePoint := s.now
    timeStr := env.localtime (toTimeT s.now)
    reading := s.now }

/-- The locked part of the inner loop, which ends in `nextWakeupAndUnlock`. -/
def innerSection (s : State) : State :=
  let store := s.store.timerSection s.timePoint s.timeStr
  { s with
    store := store
    timePoint := store.nextWakeup s.timePoint
    timer :=
      match s.store.due s.timePoint with
      | none => .testRun
      | some e => .dispatch ⟨e.2, e.1, s.reading⟩ }

/-- The push to the dispatch queue, if the calendar time fits the pattern. -/
def dispatchStep (s : State) (f : Firing) : State :=
  { s with
    timer := .testInner
    dispatched :=
      if (s.store.record f.record).verifyTimePattern s.timeStr then s.dispatched ++ [f]
      else s.dispatched }

def timerStep (env : Env) (s : State) : Option State :=
  match s.timer with
  | .notStarted => none
  | .readStart => some { s.getTime env with timer := .testRun }
  | .testRun => some { s with timer := if s.runTimerThread then .lock else .exited }
  | .lock =>
      if s.cvFree then
        some { s with timer := if s.scheduledTaskPushed then .clearPushed else .blocked false }
      else none
  | .blocked notified =>
      if s.cvFree then
        if s.timePoint ≤ s.now then some { s with timer := .clearPushed }
        else if notified then
          some { s with timer := if s.scheduledTaskPushed then .clearPushed else .blocked false }
        else none
      else none
  | .clearPushed => some { s with scheduledTaskPushed := false, timer := .readTime }
  | .readTime => some { s.getTime env with timer := .testInner }
  | .testInner => some { s with timer := if s.runTimerThread then .locked else .testRun }
  | .locked => if s.adder = none then some s.innerSection else none
  | .dispatch f => some (s.dispatchStep f)
  | .exited => none

/-- Every record of the request is added under the present time. -/
def addStep (env : Env) (s : State) (request : Request) (rands : List (List ℤ)) : Option State :=
  if s.adder = none then
    match request.records env with
    | .ok rs =>
        (Store.addScheduleRecords env (rands.map fun r ↦ (s.now, r)) rs s.store).map fun store ↦
          { s with store := store, adder := some .inserted }
    | .error .abort => none
    | .error _ => some s
  else none

def step (env : Env) (s : State) : Action → Option State
  | .start =>
      if s.timer = .notStarted then
        some { s with scheduledTaskPushed := false, runTimerThread := true, timer := .readStart }
      else none
  | .stop => some { s with runTimerThread := false, pendingStops := s.pendingStops + 1 }
  | .stopFlag =>
      if s.cvFree && 0 < s.pendingStops then
        some { s.notify with scheduledTaskPushed := true, pendingStops := s.pendingStops - 1 }
      else none
  | .tick d => some { s with now := s.now + d }
  | .add request rands => s.addStep env request rands
  | .addFlag =>
      if s.adder = some .inserted && s.cvFree then
        some { s.notify with scheduledTaskPushed := true, adder := some .flagged }
      else none
  | .addUnlock => if s.adder = some .flagged then some { s with adder := none } else none
  | .remove removal =>
      if s.adder = none then
        some { s with
          store := s.store.remove removal
          removed := s.removed ++ s.store.targets removal }
      else none
  | .spuriousWakeup => if s.timer.isBlocked then some s.notify else none
  | .timer => s.timerStep env

end State

def system (env : Env) : System State Action where
  init s := ∃ now, s = State.create env now
  step := State.step env

/-! ## What one step can do -/

/-- The steps, each with the program point it starts from.  A wake-up by notification
and a spurious one are the same, and so are the two ways to raise the flag. -/
inductive Moves (env : Env) (s : State) : Action → State → Prop
  | start (at_pc : s.timer = .notStarted) :
      Moves env s .start
        { s with scheduledTaskPushed := false, runTimerThread := true, timer := .readStart }
  | stop :
      Moves env s .stop { s with runTimerThread := false, pendingStops := s.pendingStops + 1 }
  | flag (a : Action) (pc : TimerPc) (adder : Option AdderPhase) (pendingStops : ℕ)
      (is_flag : a = .stopFlag ∨ a = .addFlag)
      (at_pc : s.timer.isBlocked = false ∧ pc = s.timer ∨
        s.timer.isBlocked = true ∧ pc = .blocked true) :
      Moves env s a
        { s with
          scheduledTaskPushed := true, timer := pc, adder := adder, pendingStops := pendingStops }
  | tick (d : ℕ) : Moves env s (.tick d) { s with now := s.now + d }
  | add (request : Request) (rands : List (List ℤ)) (rs : List ScheduleRecord) (store : Store)
      (free : s.adder = none) (ok : request.records env = .ok rs)
      (added :
        Store.addScheduleRecords env (rands.map fun r ↦ (s.now, r)) rs s.store = some store) :
      Moves env s (.add request rands) { s with store := store, adder := some .inserted }
  | refused (request : Request) (rands : List (List ℤ)) : Moves env s (.add request rands) s
  | addUnlock (held : s.adder = some .flagged) : Moves env s .addUnlock { s with adder := none }
  | remove (removal : Removal) (free : s.adder = none) :
      Moves env s (.remove removal)
        { s with
          store := s.store.remove removal
          removed := s.removed ++ s.store.targets removal }
  | woken (at_pc : s.timer.isBlocked = true) :
      Moves env s .spuriousWakeup { s with timer := .blocked true }
  | readStart (at_pc : s.timer = .readStart) :
      Moves env s .timer { s.getTime env with timer := .testRun }
  | enter (at_pc : s.timer = .testRun) (run : s.runTimerThread = true) :
      Moves env s .timer { s with timer := .lock }
  | leave (at_pc : s.timer = .testRun) (run : s.runTimerThread = false) :
      Moves env s .timer { s with timer := .exited }
  | sleep (at_pc : s.timer = .lock ∨ s.timer.isBlocked = true)
      (flag : s.scheduledTaskPushed = false) :
      Moves env s .timer { s with timer := .blocked false }
  | wake (at_pc : s.timer = .lock ∨ s.timer.isBlocked = true)
      (awake : s.scheduledTaskPushed = true ∨ s.timePoint ≤ s.now) :
      Moves env s .timer { s with timer := .clearPushed }
  | clear (at_pc : s.timer = .clearPushed) :
      Moves env s .timer { s with scheduledTaskPushed := false, timer := .readTime }
  | readTime (at_pc : s.timer = .readTime) :
      Moves env s .timer { s.getTime env with timer := .testInner }
  | enterInner (at_pc : s.timer = .testInner) (run : s.runTimerThread = true) :
      Moves env s .timer { s with timer := .locked }
  | leaveInner (at_pc : s.timer = .testInner) (run : s.runTimerThread = false) :
      Moves env s .timer { s with timer := .testRun }
  | innerSection (at_pc : s.timer = .locked) (free : s.adder = none) :
      Moves env s .timer s.innerSection
  | dispatch (f : Firing) (at_pc : s.timer = .dispatch f) :
      Moves env s .timer (s.dispatchStep f)

variable {env : Env} {s t : State}

theorem moves_of_timerStep (h : s.timerStep env = some t) : Moves env s .timer t := by
  unfold State.timerStep at h
  cases hpc : s.timer with
  | notStarted => simp [hpc] at h
  | readStart =>
      obtain rfl : { s.getTime env with timer := .testRun } = t := by simpa [hpc] using h
      exact .readStart hpc
  | testRun =>
      cases hrun : s.runTimerThread with
      | false =>
          obtain rfl : { s with timer := .exited } = t := by simpa [hpc, hrun] using h
          exact .leave hpc hrun
      | true =>
          obtain rfl : { s with timer := .lock } = t := by simpa [hpc, hrun] using h
          exact .enter hpc hrun
  | lock =>
      simp only [hpc, Option.ite_none_right_eq_some] at h
      obtain ⟨-, h⟩ := h
      cases hflag : s.scheduledTaskPushed with
      | false =>
          obtain rfl : { s with timer := .blocked false } = t := by simpa [hflag] using h
          exact .sleep (Or.inl hpc) hflag
      | true =>
          obtain rfl : { s with timer := .clearPushed } = t := by simpa [hflag] using h
          exact .wake (Or.inl hpc) (Or.inl hflag)
  | blocked notified =>
      have hblocked : s.timer = .lock ∨ s.timer.isBlocked = true := by
        simp [hpc, TimerPc.isBlocked]
      simp only [hpc, Option.ite_none_right_eq_some] at h
      obtain ⟨-, h⟩ := h
      by_cases hover : s.timePoint ≤ s.now
      · obtain rfl : { s with timer := .clearPushed } = t := by simpa [hover] using h
        exact .wake hblocked (Or.inr hover)
      · rw [if_neg hover, Option.ite_none_right_eq_some] at h
        obtain ⟨-, h⟩ := h
        cases hflag : s.scheduledTaskPushed with
        | false =>
            obtain rfl : { s with timer := .blocked false } = t := by simpa [hflag] using h
            exact .sleep hblocked hflag
        | true =>
            obtain rfl : { s with timer := .clearPushed } = t := by simpa [hflag] using h
            exact .wake hblocked (Or.inl hflag)
  | clearPushed =>
      obtain rfl : { s with scheduledTaskPushed := false, timer := .readTime } = t := by
        simpa [hpc] using h
      exact .clear hpc
  | readTime =>
      obtain rfl : { s.getTime env with timer := .testInner } = t := by simpa [hpc] using h
      exact .readTime hpc
  | testInner =>
      cases hrun : s.runTimerThread with
      | false =>
          obtain rfl : { s with timer := .testRun } = t := by simpa [hpc, hrun] using h
          exact .leaveInner hpc hrun
      | true =>
          obtain rfl : { s with timer := .locked } = t := by simpa [hpc, hrun] using h
          exact .enterInner hpc hrun
  | locked =>
      simp only [hpc, Option.ite_none_right_eq_some] at h
      obtain ⟨hfree, h⟩ := h
      obtain rfl := Option.some.inj h
      exact .innerSection hpc hfree
  | dispatch f =>
      obtain rfl : s.dispatchStep f = t := by simpa [hpc] using h
      exact .dispatch f hpc
  | exited => simp [hpc] at h

theorem notify_timer (s : State) :
    s.timer.isBlocked = false ∧ s.notify.timer = s.timer ∨
      s.timer.isBlocked = true ∧ s.notify.timer = .blocked true := by
  unfold State.notify
  cases hpc : s.timer <;> simp [hpc, TimerPc.isBlocked]

theorem notify_eq (s : State) : s.notify = { s with timer := s.notify.timer } := by
  unfold State.notify
  cases s.timer <;> rfl

theorem innerSection_timer (s : State) :
    s.innerSection.timer = .testRun ∨ ∃ f, s.innerSection.timer = .dispatch f := by
  simp only [State.innerSection]
  cases s.store.due s.timePoint with
  | none => exact Or.inl rfl
  | some e => exact Or.inr ⟨_, rfl⟩

theorem moves_of_addStep {request : Request} {rands : List (List ℤ)}
    (h : s.addStep env request rands = some t) : Moves env s (.add request rands) t := by
  unfold State.addStep at h
  rw [Option.ite_none_right_eq_some] at h
  obtain ⟨hfree, h⟩ := h
  split at h
  case h_1 rs hok =>
    obtain ⟨store, hadded, rfl⟩ := Option.map_eq_some_iff.mp h
    exact .add request rands rs store hfree hok hadded
  case h_2 => simp at h
  case h_3 =>
    obtain rfl := Option.some.inj h
    exact .refused request rands

theorem moves_of_step {a : Action} (h : s.step env a = some t) : Moves env s a t := by
  cases a with
  | start =>
      simp only [State.step, Option.ite_none_right_eq_some] at h
      obtain ⟨hpc, h⟩ := h
      obtain rfl := Option.some.inj h
      exact .start hpc
  | stop =>
      obtain rfl := Option.some.inj h
      exact .stop
  | stopFlag =>
      simp only [State.step, Option.ite_none_right_eq_some] at h
      obtain ⟨-, h⟩ := h
      obtain rfl := Option.some.inj h
      rw [notify_eq]
      exact .flag .stopFlag _ _ _ (Or.inl rfl) (notify_timer s)
  | tick d =>
      obtain rfl := Option.some.inj h
      exact .tick d
  | add request rands => exact moves_of_addStep h
  | addFlag =>
      simp only [State.step, Option.ite_none_right_eq_some] at h
      obtain ⟨-, h⟩ := h
      obtain rfl := Option.some.inj h
      rw [notify_eq]
      exact .flag .addFlag _ _ _ (Or.inr rfl) (notify_timer s)
  | addUnlock =>
      simp only [State.step, Option.ite_none_right_eq_some] at h
      obtain ⟨hheld, h⟩ := h
      obtain rfl := Option.some.inj h
      exact .addUnlock hheld
  | remove removal =>
      simp only [State.step, Option.ite_none_right_eq_some] at h
      obtain ⟨hfree, h⟩ := h
      obtain rfl := Option.some.inj h
      exact .remove removal hfree
  | spuriousWakeup =>
      simp only [State.step, Option.ite_none_right_eq_some] at h
      obtain ⟨hblocked, h⟩ := h
      obtain rfl := Option.some.inj h
      have hpc : s.notify = { s with timer := .blocked true } := by
        unfold State.notify
        cases hs : s.timer <;> simp_all [TimerPc.isBlocked]
      rw [hpc]
      exact .woken hblocked
  | timer => exact moves_of_timerStep h

/-! ## The indexes under the timer -/

theorem Moves.wf (hs : s.store.Wf) {a : Action} (h : Moves env s a t) : t.store.Wf := by
  cases h with
  | add request rands rs store free ok added => exact hs.addScheduleRecords added
  | remove removal free => exact hs.remove removal
  | innerSection at_pc free => exact hs.timerSection s.timePoint s.timeStr
  | _ => exact hs

theorem store_wf (h : (system env).Reachable s) : s.store.Wf := by
  refine System.Reachable.invariant (I := fun s ↦ s.store.Wf) ?_ ?_ h
  · rintro s ⟨now, rfl⟩
    exact Store.wf_empty
  · intro s a t hs hstep
    exact (moves_of_step hstep).wf hs

end IqrfDaemon.Scheduler
