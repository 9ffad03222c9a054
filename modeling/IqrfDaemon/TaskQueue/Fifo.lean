import IqrfDaemon.TaskQueue.Model

/-!
# First in, first out, without a lost wake-up

The pushes, in lock order, split at every moment into the tasks handed to the
processing function, the task in the worker's hand and the queue.  An empty
flag outside the draining loop means an empty queue, which is the absence of
lost wake-ups.  After a stop request the handed tasks and the one in hand no
longer change, and the worker does not fall asleep again.
-/

namespace IqrfDaemon.TaskQueue

open Transition

variable {T : Type*}

/-- What one step can do, with the program point it starts from. -/
inductive Moves (s : State T) : Action T → State T → Prop
  | push (task : T) (free : s.worker.owns = false) :
      Moves s (.pushToQueue task) (s.pushToQueue task)
  | stop (free : s.worker.owns = false) : Moves s .stopQueue s.stopQueue
  | notifyBlocked (b : Bool) (at_pc : s.worker = .blocked b) (pending : 0 < s.pendingNotify) :
      Moves s .notifyAll { s with worker := .blocked true, pendingNotify := s.pendingNotify - 1 }
  | notifyAwake (at_pc : s.worker.isBlocked = false) (pending : 0 < s.pendingNotify) :
      Moves s .notifyAll { s with pendingNotify := s.pendingNotify - 1 }
  | spurious (b : Bool) (at_pc : s.worker = .blocked b) :
      Moves s .spuriousWakeup { s with worker := .blocked true }
  | enter (at_pc : s.worker = .testRun false) (run : s.runWorkerThread = true) :
      Moves s .worker { s with worker := .lock }
  | lockTwice (at_pc : s.worker = .testRun true) (run : s.runWorkerThread = true) :
      Moves s .worker { s with worker := .lockFailed }
  | leave (owns : Bool) (at_pc : s.worker = .testRun owns) (run : s.runWorkerThread = false) :
      Moves s .worker { s with worker := .exited }
  | lock (at_pc : s.worker = .lock) : Moves s .worker { s with worker := .testPushed }
  | wake (at_pc : s.worker = .testPushed ∨ s.worker = .blocked true)
      (flag : s.taskPushed = true) : Moves s .worker { s with worker := .clearPushed }
  | sleep (at_pc : s.worker = .testPushed ∨ s.worker = .blocked true)
      (flag : s.taskPushed = false) : Moves s .worker { s with worker := .blocked false }
  | clear (at_pc : s.worker = .clearPushed) :
      Moves s .worker { s with taskPushed := false, worker := .drain }
  | drained (at_pc : s.worker = .drain) (run : s.runWorkerThread = true)
      (empty : s.taskQueue = []) : Moves s .worker { s with worker := .testRun false }
  | take (task : T) (rest : List T) (at_pc : s.worker = .drain)
      (run : s.runWorkerThread = true) (front : s.taskQueue = task :: rest) :
      Moves s .worker { s with taskQueue := rest, worker := .taken task }
  | stopped (at_pc : s.worker = .drain) (run : s.runWorkerThread = false) :
      Moves s .worker { s with worker := .testRun true }
  | hand (task : T) (at_pc : s.worker = .taken task) :
      Moves s .worker { s with handed := s.handed ++ [task], worker := .processing task }
  | processed (task : T) (at_pc : s.worker = .processing task) :
      Moves s .processed { s with processed := s.processed ++ [task], worker := .relock }
  | relock (at_pc : s.worker = .relock) : Moves s .worker { s with worker := .drain }

theorem moves_of_workerStep {s t : State T} (h : s.workerStep = some t) :
    Moves s .worker t := by
  unfold State.workerStep at h
  cases hpc : s.worker with
  | testRun owns =>
      cases hrun : s.runWorkerThread with
      | false =>
          obtain rfl : { s with worker := .exited } = t := by simpa [hpc, hrun] using h
          exact .leave owns hpc hrun
      | true =>
          cases owns with
          | false =>
              obtain rfl : { s with worker := .lock } = t := by simpa [hpc, hrun] using h
              exact .enter hpc hrun
          | true =>
              obtain rfl : { s with worker := .lockFailed } = t := by simpa [hpc, hrun] using h
              exact .lockTwice hpc hrun
  | lock =>
      obtain rfl : { s with worker := .testPushed } = t := by simpa [hpc] using h
      exact .lock hpc
  | testPushed =>
      cases hflag : s.taskPushed with
      | false =>
          obtain rfl : { s with worker := .blocked false } = t := by simpa [hpc, hflag] using h
          exact .sleep (.inl hpc) hflag
      | true =>
          obtain rfl : { s with worker := .clearPushed } = t := by simpa [hpc, hflag] using h
          exact .wake (.inl hpc) hflag
  | blocked notified =>
      cases notified with
      | false => simp [hpc] at h
      | true =>
          cases hflag : s.taskPushed with
          | false =>
              obtain rfl : { s with worker := .blocked false } = t := by
                simpa [hpc, hflag] using h
              exact .sleep (.inr hpc) hflag
          | true =>
              obtain rfl : { s with worker := .clearPushed } = t := by simpa [hpc, hflag] using h
              exact .wake (.inr hpc) hflag
  | clearPushed =>
      obtain rfl : { s with taskPushed := false, worker := .drain } = t := by simpa [hpc] using h
      exact .clear hpc
  | drain =>
      cases hrun : s.runWorkerThread with
      | false =>
          obtain rfl : { s with worker := .testRun true } = t := by
            simpa [hpc, State.drain, hrun] using h
          exact .stopped hpc hrun
      | true =>
          cases hq : s.taskQueue with
          | nil =>
              obtain rfl : { s with worker := .testRun false } = t := by
                simpa [hpc, State.drain, hrun, hq] using h
              exact .drained hpc hrun hq
          | cons task rest =>
              obtain rfl : { s with taskQueue := rest, worker := .taken task } = t := by
                simpa [hpc, State.drain, hrun, hq] using h
              exact .take task rest hpc hrun hq
  | taken task =>
      obtain rfl : { s with handed := s.handed ++ [task], worker := .processing task } = t := by
        simpa [hpc] using h
      exact .hand task hpc
  | processing task => simp [hpc] at h
  | relock =>
      obtain rfl : { s with worker := .drain } = t := by simpa [hpc] using h
      exact .relock hpc
  | exited => simp [hpc] at h
  | lockFailed => simp [hpc] at h

theorem moves_of_step {s t : State T} {a : Action T} (h : s.step a = some t) :
    Moves s a t := by
  cases a with
  | pushToQueue task =>
      obtain ⟨hfree, rfl⟩ : s.worker.owns = false ∧ s.pushToQueue task = t := by
        simpa [State.step] using h
      exact .push task hfree
  | stopQueue =>
      obtain ⟨hfree, rfl⟩ : s.worker.owns = false ∧ s.stopQueue = t := by
        simpa [State.step] using h
      exact .stop hfree
  | notifyAll =>
      obtain ⟨hpending, rfl⟩ : s.pendingNotify ≠ 0 ∧
          { s.notify with pendingNotify := s.pendingNotify - 1 } = t := by
        simpa [State.step] using h
      have hpos := Nat.pos_of_ne_zero hpending
      cases hpc : s.worker with
      | blocked b => simpa [State.notify, hpc] using Moves.notifyBlocked b hpc hpos
      | _ => simpa [State.notify, hpc] using Moves.notifyAwake (by rw [hpc]; rfl) hpos
  | spuriousWakeup =>
      obtain ⟨hblocked, rfl⟩ : s.worker.isBlocked = true ∧ s.notify = t := by
        simpa [State.step] using h
      cases hpc : s.worker with
      | blocked b => simpa [State.notify, hpc] using Moves.spurious b hpc
      | _ => simp [hpc, WorkerPc.isBlocked] at hblocked
  | worker => exact moves_of_workerStep h
  | processed =>
      cases hpc : s.worker with
      | processing task =>
          obtain rfl :
              { s with processed := s.processed ++ [task], worker := .relock } = t := by
            simpa [State.step, State.processedStep, hpc] using h
          exact .processed task hpc
      | _ => simp [State.step, State.processedStep, hpc] at h

/-! ## What a step adds to the history -/

/-- The task a step pushes. -/
def Action.pushes : Action T → List T
  | pushToQueue task => [task]
  | _ => []

theorem Moves.pushed_eq {s t : State T} {a : Action T} (h : Moves s a t) :
    t.pushed = s.pushed ++ a.pushes := by
  cases h with
  | push task free => rfl
  | _ => exact (List.append_nil _).symm

/-- Neither callers nor wake-ups touch the task being processed. -/
theorem Moves.of_caller {s t : State T} {a : Action T} (h : Moves s a t) (hworker : a ≠ .worker)
    (hprocessed : a ≠ .processed) :
    t.worker.running = s.worker.running ∧ t.processed = s.processed := by
  cases h with
  | push | stop | notifyAwake => exact ⟨rfl, rfl⟩
  | notifyBlocked _ at_pc _ | spurious _ at_pc =>
      rw [at_pc]
      exact ⟨rfl, rfl⟩
  | processed task at_pc => exact absurd rfl hprocessed
  | _ => exact absurd rfl hworker

/-- The worker moves only while it processes nothing, and hands over what it holds. -/
theorem Moves.of_worker {s t : State T} (h : Moves s .worker t) :
    s.worker.running = [] ∧ t.worker.running = s.worker.inHand ∧ t.processed = s.processed := by
  cases h with
  | wake at_pc flag | sleep at_pc flag =>
      rcases at_pc with at_pc | at_pc <;> rw [at_pc] <;> exact ⟨rfl, rfl, rfl⟩
  | enter at_pc | lockTwice at_pc | leave _ at_pc | lock at_pc | clear at_pc | drained at_pc
  | take _ _ at_pc | stopped at_pc | hand _ at_pc | relock at_pc =>
      rw [at_pc]
      exact ⟨rfl, rfl, rfl⟩

theorem Moves.of_processed {s t : State T} (h : Moves s .processed t) :
    t.worker.running = [] ∧ t.processed = s.processed ++ s.worker.running := by
  cases h with
  | processed task at_pc =>
      rw [at_pc]
      exact ⟨rfl, rfl⟩

/-- What holds of the queue, its flags and its history in every state: the pushes
split into handed tasks, the task in hand and the queue; with the flag down only
the draining loop may leave tasks behind; a stop request keeps the flag up until
the worker has passed the wait; a raised flag has notified the sleeper or will. -/
structure Consistent (s : State T) : Prop where
  pushed_eq : s.pushed = s.handed ++ s.worker.inHand ++ s.taskQueue
  handed_eq : s.handed = s.processed ++ s.worker.running
  drained : s.taskPushed = false → s.runWorkerThread = true → s.worker.draining = false →
    s.taskQueue = []
  stop_flag : s.runWorkerThread = false → s.worker.waiting = true → s.taskPushed = true
  wake : s.worker = .blocked false → s.taskPushed = true → 0 < s.pendingNotify
  kept_lock : s.worker = .testRun true → s.runWorkerThread = false
  cleared : s.worker = .clearPushed → s.taskPushed = true
  lock_ok : s.worker ≠ .lockFailed
  exited_stop : s.worker = .exited → s.runWorkerThread = false

theorem consistent_create : Consistent (State.create : State T) := by
  constructor <;> simp [State.create, WorkerPc.inHand, WorkerPc.running, WorkerPc.waiting]

theorem Consistent.move {s t : State T} {a : Action T} (hs : Consistent s) (h : Moves s a t) :
    Consistent t := by
  obtain ⟨hpushed, hhanded, hdrained, hstop, hwake, hkept, hcleared, hlock, hexited⟩ := hs
  cases h with
  | push task free =>
      refine ⟨?_, hhanded, ?_, ?_, ?_, hkept, ?_, hlock, hexited⟩
      · simp [State.pushToQueue, hpushed]
      all_goals simp [State.pushToQueue]
  | stop free => constructor <;> simp_all [State.stopQueue]
  | notifyAwake at_pc pending =>
      refine ⟨hpushed, hhanded, hdrained, hstop, ?_, hkept, hcleared, hlock, hexited⟩
      intro hb
      simp [show s.worker = .blocked false from hb, WorkerPc.isBlocked] at at_pc
  -- a held lock means that the draining loop was left by a stop request
  | lockTwice at_pc run => simp [hkept at_pc] at run
  | wake at_pc flag =>
      rcases at_pc with at_pc | at_pc <;>
        constructor <;> simp_all [WorkerPc.inHand, WorkerPc.running]
  | sleep at_pc flag =>
      rcases at_pc with at_pc | at_pc <;>
        constructor <;> simp_all [WorkerPc.inHand, WorkerPc.running, WorkerPc.draining,
          WorkerPc.waiting]
  | notifyBlocked _ at_pc pending | spurious _ at_pc | enter at_pc run | leave _ at_pc run
  | lock at_pc | clear at_pc | drained at_pc run empty | take _ _ at_pc run front
  | stopped at_pc run | hand _ at_pc | processed _ at_pc | relock at_pc =>
      constructor <;> simp_all [WorkerPc.inHand, WorkerPc.running, WorkerPc.draining,
        WorkerPc.waiting]

theorem consistent_of_reachable {s : State T} (h : (system T).Reachable s) : Consistent s := by
  refine System.Reachable.invariant ?_ ?_ h
  · rintro s rfl
    exact consistent_create
  · intro s a t hs hstep
    exact hs.move (moves_of_step hstep)

/-! ## After a stop request -/

theorem Moves.runWorkerThread_eq {s t : State T} {a : Action T} (h : Moves s a t)
    (ha : a ≠ .stopQueue) : t.runWorkerThread = s.runWorkerThread := by
  cases h with
  | stop free => exact absurd rfl ha
  | _ => rfl

theorem Moves.stop_stays {s t : State T} {a : Action T} (h : Moves s a t)
    (hs : s.runWorkerThread = false) : t.runWorkerThread = false := by
  cases h <;> first | exact hs | rfl

/-- Once stopped, the queue never gets shorter. -/
theorem Moves.taskQueue_eq {s t : State T} {a : Action T} (h : Moves s a t)
    (hs : s.runWorkerThread = false) : t.taskQueue = s.taskQueue ++ a.pushes := by
  cases h with
  | push task free => rfl
  | take task rest at_pc run front => simp [hs] at run
  | _ => exact (List.append_nil _).symm

/-- Once stopped, the worker takes no task from the queue. -/
theorem Moves.handed_inHand {s t : State T} {a : Action T} (h : Moves s a t)
    (hs : s.runWorkerThread = false) :
    t.handed ++ t.worker.inHand = s.handed ++ s.worker.inHand := by
  cases h with
  | take _ _ _ run | enter _ run | lockTwice _ run | drained _ run => simp [hs] at run
  | wake at_pc flag | sleep at_pc flag =>
      rcases at_pc with at_pc | at_pc <;> simp [at_pc, WorkerPc.inHand]
  | push | stop | notifyAwake => rfl
  | notifyBlocked _ at_pc _ | spurious _ at_pc | leave _ at_pc | lock at_pc | clear at_pc
  | stopped at_pc | hand _ at_pc | processed _ at_pc | relock at_pc =>
      simp [at_pc, WorkerPc.inHand]

def stoppedWhileRunning : State ℕ where
  taskQueue := [2]
  taskPushed := true
  runWorkerThread := false
  worker := .processing 1
  pendingNotify := 3
  pushed := [1, 2]
  handed := [1]
  processed := []

end IqrfDaemon.TaskQueue
