import IqrfDaemon.TaskQueue.Fifo
import IqrfDaemon.Transition.Settling

/-!
# The worker gets its work done

Callers apart, the worker, the processing function and the notifications that are still to
come can take a bounded number of steps.  Then the worker of a running queue sleeps, and all
that was pushed is processed; the worker of a stopped queue has left over the tasks that it
had not taken, so the destructor can join it.
-/

namespace IqrfDaemon.TaskQueue

open Transition

variable {T : Type*} {s t : State T} {a : Action T}

/-- The steps that need neither a new call nor a spurious wake-up. -/
def Action.Own : Action T → Prop
  | notifyAll | worker | processed => True
  | pushToQueue _ | stopQueue | spuriousWakeup => False

theorem Action.Own.pushes_eq (h : a.Own) : a.pushes = [] := by
  cases a with
  | pushToQueue task => exact h.elim
  | _ => rfl

theorem Action.Own.ne_stopQueue (h : a.Own) : a ≠ .stopQueue := by
  rintro rfl
  exact h

/-- The worker's way to the next test of the flag; with a task in hand the way back to the
queue is part of it. -/
def WorkerPc.remaining : WorkerPc T → ℕ
  | blocked false | clearPushed | exited | lockFailed => 0
  | blocked true | testPushed => 1
  | lock => 2
  | testRun _ => 3
  | drain => 4
  | relock => 5
  | processing _ => 6
  | taken _ => 7

/-- How many steps are left at most: four for a task, five for the loop that a raised flag
starts, and a notification together with the test it causes. -/
def State.remaining (s : State T) : ℕ :=
  4 * s.taskQueue.length + (if s.taskPushed then 5 else 0) + 2 * s.pendingNotify +
    s.worker.remaining

theorem Consistent.remaining_lt (hs : Consistent s) (h : Moves s a t) (ha : a.Own) :
    t.remaining < s.remaining := by
  cases h with
  | push | stop | spurious => exact ha.elim
  | notifyBlocked b at_pc pending =>
      simp only [State.remaining, at_pc, WorkerPc.remaining]
      omega
  | notifyAwake at_pc pending =>
      simp only [State.remaining]
      omega
  | wake at_pc flag | sleep at_pc flag =>
      rcases at_pc with at_pc | at_pc <;> simp [State.remaining, at_pc, WorkerPc.remaining]
  -- the worker clears a raised flag only
  | clear at_pc =>
      simp only [State.remaining, at_pc, WorkerPc.remaining, hs.cleared at_pc, if_true,
        Bool.false_eq_true, if_false]
      omega
  | take task rest at_pc run front =>
      simp only [State.remaining, at_pc, WorkerPc.remaining, front, List.length_cons]
      omega
  | enter at_pc | lockTwice at_pc | leave _ at_pc | lock at_pc | drained at_pc | stopped at_pc
  | hand _ at_pc | processed _ at_pc | relock at_pc =>
      simp [State.remaining, at_pc, WorkerPc.remaining]

/-- What the steps leave as it was in `s₀`. -/
structure Continues (s₀ s : State T) : Prop where
  consistent : Consistent s
  pushed_eq : s.pushed = s₀.pushed
  run_eq : s.runWorkerThread = s₀.runWorkerThread
  handed_eq : s₀.runWorkerThread = false →
    s.handed ++ s.worker.inHand = s₀.handed ++ s₀.worker.inHand

theorem Continues.move {s₀ : State T} (hs : Continues s₀ s) (h : Moves s a t) (ha : a.Own) :
    Continues s₀ t where
  consistent := hs.consistent.move h
  pushed_eq := by rw [h.pushed_eq, ha.pushes_eq, List.append_nil, hs.pushed_eq]
  run_eq := (h.runWorkerThread_eq ha.ne_stopQueue).trans hs.run_eq
  handed_eq hstop := (h.handed_inHand (hs.run_eq.trans hstop)).trans (hs.handed_eq hstop)

theorem Consistent.continues (hs : Consistent s) : Continues s s := ⟨hs, rfl, rfl, fun _ ↦ rfl⟩

theorem settles (s₀ : State T) :
    System.Settles (system T) Action.Own (Continues s₀) State.remaining where
  keeps _ _ _ hs ha hstep := hs.move (moves_of_step hstep) ha
  lt _ _ _ hs ha hstep := hs.consistent.remaining_lt (moves_of_step hstep) ha

/-- Without a further call the worker ends up in the wait or behind its outer loop. -/
theorem Consistent.settled_cases (hs : Consistent s) (h : (system T).Settled Action.Own s) :
    s.worker = .blocked false ∧ s.runWorkerThread = true ∧ s.taskPushed = false ∨
      s.worker = .exited ∧ s.runWorkerThread = false := by
  have hpending : s.pendingNotify = 0 := by
    by_contra hne
    simpa [system, State.step, hne] using h .notifyAll trivial
  have hworker : s.workerStep = none := h .worker trivial
  have hprocessed : s.processedStep = none := h .processed trivial
  cases hpc : s.worker with
  | exited => exact .inr ⟨rfl, hs.exited_stop hpc⟩
  | lockFailed => exact absurd hpc hs.lock_ok
  | processing task => simp [State.processedStep, hpc] at hprocessed
  | blocked notified =>
      cases notified with
      | true => simp [State.workerStep, hpc] at hworker
      | false =>
          -- a raised flag would still have its notification
          have hflag : s.taskPushed = false := by
            by_contra hflag
            have := hs.wake hpc (by simpa using hflag)
            omega
          refine .inl ⟨rfl, ?_, hflag⟩
          by_contra hstop
          have hraised := hs.stop_flag (by simpa using hstop) (by simp [hpc, WorkerPc.waiting])
          simp [hflag] at hraised
  | testRun owns => cases hrun : s.runWorkerThread <;> simp [State.workerStep, hpc, hrun] at hworker
  | _ => simp [State.workerStep, hpc] at hworker

theorem Continues.settled_running {s₀ : State T} (ht : Continues s₀ t)
    (hsettled : (system T).Settled Action.Own t) (hrun : s₀.runWorkerThread = true) :
    t.worker = .blocked false ∧ t.processed = s₀.pushed := by
  rcases ht.consistent.settled_cases hsettled with ⟨hpc, htrun, hflag⟩ | ⟨-, htstop⟩
  · refine ⟨hpc, ?_⟩
    have hempty := ht.consistent.drained hflag htrun (by simp [hpc, WorkerPc.draining])
    have hpushed := ht.consistent.pushed_eq
    have hhanded := ht.consistent.handed_eq
    simp only [hpc, WorkerPc.running, WorkerPc.inHand, hempty, List.append_nil]
      at hhanded hpushed
    rw [← ht.pushed_eq, hpushed, hhanded]
  · rw [ht.run_eq, hrun] at htstop
    cases htstop

theorem Continues.settled_stopped {s₀ : State T} (ht : Continues s₀ t)
    (hsettled : (system T).Settled Action.Own t) (hstop : s₀.runWorkerThread = false) :
    t.worker = .exited ∧ t.processed = s₀.handed ++ s₀.worker.inHand := by
  rcases ht.consistent.settled_cases hsettled with ⟨-, htrun, -⟩ | ⟨hpc, -⟩
  · rw [ht.run_eq, hstop] at htrun
    exact nomatch htrun
  · refine ⟨hpc, ?_⟩
    have hkept := ht.handed_eq hstop
    have hhanded := ht.consistent.handed_eq
    simp only [hpc, WorkerPc.running, List.append_nil] at hhanded
    rw [← hkept, ← hhanded, hpc]
    exact (List.append_nil _).symm

/-- Left to itself, the queue comes to rest from every state, whichever of its steps are
taken: a running queue has then processed all that was pushed, and the worker of a stopped
queue has left and has processed what it had already taken. -/
theorem worked_off (T : Type*) (s : State T) (h : (system T).Reachable s) :
    (∀ labels t, (∀ a ∈ labels, Action.Own a) → (system T).run s labels = some t →
      labels.length + t.remaining ≤ s.remaining ∧
        ((system T).Settled Action.Own t →
          (s.runWorkerThread = true → t.worker = .blocked false ∧ t.processed = s.pushed) ∧
            (s.runWorkerThread = false →
              t.worker = .exited ∧ t.processed = s.handed ++ s.worker.inHand))) ∧
      ∃ labels t, (∀ a ∈ labels, Action.Own a) ∧ (system T).run s labels = some t ∧
        (system T).Settled Action.Own t := by
  have hs := (consistent_of_reachable h).continues
  refine ⟨fun labels t hown hrun ↦ ⟨(settles s).length_add_le hs hown hrun, fun hsettled ↦ ?_⟩,
    (settles s).exists_settled hs⟩
  have ht : Continues s t := (settles s).invariant hs hown hrun
  exact ⟨ht.settled_running hsettled, ht.settled_stopped hsettled⟩

/-- The worker is asked to stop while it processes the first of two tasks. -/
theorem worked_off_stoppedWhileRunning :
    ∃ labels t, (∀ a ∈ labels, Action.Own a) ∧
      (system ℕ).run stoppedWhileRunning labels = some t ∧ (system ℕ).Settled Action.Own t :=
  (worked_off ℕ stoppedWhileRunning
    (System.reachable_of_run [.pushToQueue 1, .pushToQueue 2, .worker, .worker, .worker,
      .worker, .worker, .worker, .stopQueue] (s := State.create) rfl (by decide))).2

end IqrfDaemon.TaskQueue
