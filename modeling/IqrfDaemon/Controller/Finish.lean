import IqrfDaemon.Controller.Model
import Mathlib.Data.List.Nodup

/-!
# How often a transaction is finished

The controller's queue runs as a task queue of its own, so what the queue hands
over and processes is known from there.  Each call of `executeDpaTransactionFunc`
finishes its transaction once in every mode and on every error path.  What is
left is the queue itself: `stopQueue` lets the worker exit over the transactions
that are still queued, and nothing else finishes them.
-/

namespace IqrfDaemon.Controller

open Transition

variable {s t : State}

theorem processFinish_forward (n : ℕ) :
    (getDpaTransactionForward (.client n)).processFinish = [n] := rfl

/-! ## The queue of the controller is a task queue -/

/-- A step leaves the queue alone or is one of its steps. -/
theorem Moves.queue_step {a : Action} (h : Moves s a t) :
    t.queue = s.queue ∨ ∃ b, s.queue.step b = some t.queue := by
  cases h with
  | push queue _ moved => exact Or.inr ⟨_, moved⟩
  | signal _ b queue _ moved => exact Or.inr ⟨b, moved⟩
  | hand n queue _ moved => exact Or.inr ⟨_, moved⟩
  | returned n queue _ moved => exact Or.inr ⟨_, moved⟩
  | submit _ mode queue _ moved => exact Or.inr ⟨_, moved⟩
  | stopQueue queue _ moved => exact Or.inr ⟨_, moved⟩
  | destroyQueue queue _ moved => exact Or.inr ⟨_, moved⟩
  | _ => exact Or.inl rfl

theorem queue_reachable (h : system.Reachable s) : (TaskQueue.system ℕ).Reachable s.queue := by
  refine System.ReachableVia.map (K := System.AnyStep) State.queue ?_ ?_ h
  · rintro s ⟨_, _, _, rfl⟩
    rfl
  · intro s a t _ _ hstep
    have hmove : Moves s a t := moves_of_step hstep
    rcases hmove.queue_step with hqueue | ⟨b, hb⟩
    · rw [hqueue]
      exact .refl
    · exact System.Reaches.step .refl trivial hb

theorem queue_consistent (h : system.Reachable s) : TaskQueue.Consistent s.queue :=
  TaskQueue.consistent_of_reachable (queue_reachable h)

/-! ## One finish a call -/

/-- The transactions finished are those the queue has processed, and that of the
present call once it is finished. -/
structure Finishing (s : State) : Prop where
  running_eq : s.queue.worker.running = s.exec.task
  finished_eq : s.finished = s.queue.processed ++ s.exec.done
  tickets : s.queue.pushed = List.range s.ticket
  target_eq : ∀ n locked target finished, s.exec = .executing n locked target finished →
    target.processFinish = [n]

theorem Finishing.exec_step (hs : Finishing s) {u : State} (hqueue : u.queue = s.queue)
    (htask : u.exec.task = s.exec.task)
    (hfinished : ∃ new, u.finished = s.finished ++ new ∧ u.exec.done = s.exec.done ++ new)
    (htarget : ∀ n locked target finished, u.exec = .executing n locked target finished →
      target.processFinish = [n]) : Finishing u where
  running_eq := by rw [hqueue, htask, hs.running_eq]
  finished_eq := by
    obtain ⟨new, hnew, hdone⟩ := hfinished
    rw [hnew, hdone, hqueue, hs.finished_eq, List.append_assoc]
  tickets := by
    rw [State.ticket, hqueue]
    exact hs.tickets
  target_eq := htarget

/-- A step of the call that finishes nothing. -/
theorem Finishing.quiet_step (hs : Finishing s) {u : State} (hqueue : u.queue = s.queue)
    (htask : u.exec.task = s.exec.task) (hdone : u.exec.done = s.exec.done)
    (hfinished : u.finished = s.finished)
    (htarget : ∀ n locked target finished, u.exec = .executing n locked target finished →
      target.processFinish = [n]) : Finishing u := by
  refine hs.exec_step hqueue htask ⟨[], ?_, ?_⟩ htarget
  · rw [hfinished, List.append_nil]
  · rw [hdone, List.append_nil]

theorem Finishing.queue_step (hs : Finishing s) {u : State} (hexec : u.exec = s.exec)
    (hfinished : u.finished = s.finished)
    (hrunning : u.queue.worker.running = s.queue.worker.running)
    (hprocessed : u.queue.processed = s.queue.processed)
    (htickets : u.queue.pushed = List.range u.ticket) : Finishing u where
  running_eq := by rw [hrunning, hexec, hs.running_eq]
  finished_eq := by rw [hfinished, hexec, hprocessed, hs.finished_eq]
  tickets := htickets
  target_eq := by
    rw [hexec]
    exact hs.target_eq

theorem Finishing.tickets_of_no_push (hs : Finishing s) {u : State} {b : TaskQueue.Action ℕ}
    (hmoved : TaskQueue.Moves s.queue b u.queue) (hpushes : b.pushes = []) :
    u.queue.pushed = List.range u.ticket := by
  have hpushed : u.queue.pushed = s.queue.pushed := by
    rw [hmoved.pushed_eq, hpushes, List.append_nil]
  rw [State.ticket, hpushed]
  exact hs.tickets

/-- A step of the queue that is neither a push nor an end of the processing function. -/
theorem Finishing.signal_step (hs : Finishing s) {u : State} {b : TaskQueue.Action ℕ}
    (hmoved : TaskQueue.Moves s.queue b u.queue) (hexec : u.exec = s.exec)
    (hfinished : u.finished = s.finished) (hpushes : b.pushes = []) (hprocessed : b ≠ .processed)
    (hworker : b = .worker → ∀ n, s.queue.worker ≠ .taken n) : Finishing u := by
  have htickets := hs.tickets_of_no_push hmoved hpushes
  by_cases hb : b = .worker
  · subst hb
    obtain ⟨hidle, hrunning, hprocessed⟩ := hmoved.of_worker
    have hempty : s.queue.worker.inHand = [] := by
      cases hpc : s.queue.worker with
      | taken n => exact absurd hpc (hworker rfl n)
      | _ => rfl
    exact hs.queue_step hexec hfinished (by rw [hrunning, hempty, hidle]) hprocessed htickets
  · obtain ⟨hrunning, hdone⟩ := hmoved.of_caller hb hprocessed
    exact hs.queue_step hexec hfinished hrunning hdone htickets

/-- A transaction gets the next ticket when it is pushed. -/
theorem Finishing.push_step (hs : Finishing s) {u : State}
    (hmoved : TaskQueue.Moves s.queue (.pushToQueue s.ticket) u.queue) (hexec : u.exec = s.exec)
    (hfinished : u.finished = s.finished) : Finishing u := by
  have hpushed : u.queue.pushed = List.range (s.ticket + 1) := by
    rw [hmoved.pushed_eq, List.range_succ, hs.tickets]
    rfl
  obtain ⟨hrunning, hdone⟩ := hmoved.of_caller (by simp) (by simp)
  refine hs.queue_step hexec hfinished hrunning hdone ?_
  rw [State.ticket, hpushed, List.length_range]

theorem execute_task (n : ℕ) (locked : Bool) (mode : Mode) :
    (s.execute n locked mode).task = [n] ∧ (s.execute n locked mode).done = [] := by
  cases mode <;> simp only [State.execute]
  · split <;> exact ⟨rfl, rfl⟩
  · split <;> exact ⟨rfl, rfl⟩
  · exact ⟨rfl, rfl⟩

/-- The worker hands its own transaction to the DPA handler, or the wrapper of it. -/
theorem execute_target {n m : ℕ} {locked owned : Bool} {mode : Mode} {target : DpaTransaction}
    {finished : Bool} (h : s.execute n locked mode = .executing m owned target finished) :
    target.processFinish = [m] := by
  cases mode with
  | operational =>
      rw [State.execute] at h
      split at h
      · cases h
        rfl
      · cases h
  | forwarding =>
      rw [State.execute] at h
      split at h
      · cases h
        exact processFinish_forward _
      · cases h
  | service => cases h

theorem Finishing.move (hs : Finishing s) {a : Action} (h : Moves s a t) : Finishing t := by
  cases h with
  | push _ _ moved | submit _ _ _ _ moved =>
      exact hs.push_step (TaskQueue.moves_of_step moved) rfl rfl
  | stopQueue _ _ moved | destroyQueue _ _ moved =>
      exact hs.signal_step (TaskQueue.moves_of_step moved) rfl rfl rfl (by simp) (by simp)
  | signal _ b queue is_signal moved =>
      have hmoved := TaskQueue.moves_of_step moved
      rcases is_signal with ⟨rfl, rfl⟩ | ⟨rfl, rfl⟩ | ⟨rfl, rfl, hnot⟩
      · exact hs.signal_step hmoved rfl rfl rfl (by simp) (by simp)
      · exact hs.signal_step hmoved rfl rfl rfl (by simp) (by simp)
      · exact hs.signal_step hmoved rfl rfl rfl (by simp) (fun _ ↦ hnot)
  | hand n queue at_pc moved =>
      have hmoved := TaskQueue.moves_of_step moved
      obtain ⟨hidle, hrunning, hprocessed⟩ := hmoved.of_worker
      have hdone : s.exec.done = [] := by
        have htask := hs.running_eq
        rw [hidle] at htask
        cases hpc : s.exec with
        | idle => rfl
        | _ => simp [hpc, ExecPc.task] at htask
      refine ⟨by rw [hrunning, at_pc]; rfl, ?_, ?_, by simp⟩
      · rw [hprocessed, hs.finished_eq, hdone]
        rfl
      · exact hs.tickets_of_no_push hmoved rfl
  | returned n queue at_pc moved =>
      have hmoved := TaskQueue.moves_of_step moved
      obtain ⟨hrunning, hprocessed⟩ := hmoved.of_processed
      refine ⟨hrunning, ?_, ?_, by simp⟩
      · rw [hprocessed, hs.finished_eq, hs.running_eq, at_pc]
        simp [ExecPc.task, ExecPc.done]
      · exact hs.tickets_of_no_push hmoved rfl
  | lock _ at_pc | lockFails _ at_pc | readMode _ _ at_pc | watchDogPet _ at_pc
  | unlock _ _ at_pc | dpaReturn _ _ _ at_pc | dpaThrow _ _ _ at_pc =>
      exact hs.quiet_step rfl (by rw [at_pc]; rfl) (by rw [at_pc]; rfl) rfl (by simp)
  | finishError n locked at_pc =>
      exact hs.exec_step rfl (by rw [at_pc]; rfl) ⟨[n], rfl, by rw [at_pc]; rfl⟩ (by simp)
  | switch n locked mode at_pc =>
      obtain ⟨htask, hdone⟩ := execute_task (s := s) n locked mode
      refine hs.quiet_step rfl (by rw [htask, at_pc]; rfl) (by rw [hdone, at_pc]; rfl) rfl ?_
      intro m owned target finished h
      exact execute_target h
  | dpaFinish n locked target at_pc =>
      have htarget := hs.target_eq n locked target false at_pc
      refine hs.exec_step rfl (by rw [at_pc]; rfl) ⟨[n], by rw [htarget], by rw [at_pc]; rfl⟩ ?_
      intro m owned target' finished h
      cases h
      exact htarget
  | _ => exact ⟨hs.running_eq, hs.finished_eq, hs.tickets, hs.target_eq⟩

theorem finishing_of_reachable (h : system.Reachable s) : Finishing s := by
  refine System.Reachable.invariant ?_ ?_ h
  · rintro s ⟨_, _, _, rfl⟩
    exact ⟨rfl, rfl, rfl, by simp [State.create]⟩
  · intro s a t hs hstep
    exact hs.move (moves_of_step hstep)

/-! ## Once the worker has exited -/

theorem finished_of_exited (h : system.Reachable s) (hexited : s.queue.worker = .exited) :
    s.queue.pushed = s.finished ++ s.queue.taskQueue := by
  have hs := finishing_of_reachable h
  have hqueue := queue_consistent h
  have htask : s.exec.task = [] := by rw [← hs.running_eq, hexited]; rfl
  have hdone : s.exec.done = [] := by
    cases hpc : s.exec with
    | idle => rfl
    | _ => simp [hpc, ExecPc.task] at htask
  rw [hqueue.pushed_eq, hqueue.handed_eq, hs.finished_eq, hdone, hexited]
  simp [TaskQueue.WorkerPc.inHand, TaskQueue.WorkerPc.running]

/-- The worker has finished each transaction once, unless it left some in the queue. -/
theorem finished_once_iff_empty (h : system.Reachable s) (hexited : s.queue.worker = .exited) :
    (∀ n ∈ s.queue.pushed, s.finished.count n = 1) ↔ s.queue.taskQueue = [] := by
  have hpushed := finished_of_exited h hexited
  have hnodup : s.queue.pushed.Nodup := by
    rw [(finishing_of_reachable h).tickets]
    exact List.nodup_range
  rw [hpushed] at hnodup ⊢
  constructor
  · intro honce
    by_contra hne
    obtain ⟨n, hn⟩ := List.exists_mem_of_ne_nil _ hne
    have hcount := honce n (List.mem_append_right _ hn)
    have hfinished : n ∈ s.finished := List.count_pos_iff.mp (by omega)
    exact (List.disjoint_of_nodup_append hnodup) hfinished hn
  · intro hempty n hn
    rw [hempty, List.append_nil] at hnodup hn
    exact List.count_eq_one_of_mem hnodup hn

/-! ## Stopping a drained queue -/

/-- `stopQueue` finds no transaction queued, and none is pushed after it, neither by a
client nor by a mode switch. -/
def stopsDrained (s : State) : Action → Prop
  | .executeDpaTransaction => s.queue.runWorkerThread = true
  | .setter _ => (∃ mode, s.setter = .submit mode) → s.queue.runWorkerThread = true
  | .stop => s.stop = .running → s.queue.taskQueue = []
  | _ => True

/-- Once `stop` has begun the queue does not run, and then it is empty. -/
structure Drained (s : State) : Prop where
  stopped : s.stop ≠ .running → s.queue.runWorkerThread = false
  empty : s.queue.runWorkerThread = false → s.queue.taskQueue = []

/-- A step of the queue that pushes nothing and does not stop it. -/
theorem Drained.queue_step (hs : Drained s) {u : State} {b : TaskQueue.Action ℕ}
    (hmoved : TaskQueue.Moves s.queue b u.queue) (hpushes : b.pushes = []) (hstop : b ≠ .stopQueue)
    (hsame : u.stop = s.stop) : Drained u where
  stopped hne := hmoved.stop_stays (hs.stopped (hsame ▸ hne))
  empty hrun := by
    have hbefore : s.queue.runWorkerThread = false := by
      rw [← hmoved.runWorkerThread_eq hstop]
      exact hrun
    rw [hmoved.taskQueue_eq hbefore, hs.empty hbefore, hpushes]
    rfl

/-- A push into a queue that still runs. -/
theorem Drained.push_step (hs : Drained s) {u : State} {n : ℕ}
    (hmoved : TaskQueue.Moves s.queue (.pushToQueue n) u.queue)
    (hrun : s.queue.runWorkerThread = true) (hsame : u.stop = s.stop) : Drained u where
  stopped hne := by
    have hstopped := hs.stopped (hsame ▸ hne)
    simp [hrun] at hstopped
  empty hstopped := by
    rw [hmoved.runWorkerThread_eq (by simp), hrun] at hstopped
    cases hstopped

theorem Drained.move (hs : Drained s) {a : Action} (h : Moves s a t) (hG : stopsDrained s a) :
    Drained t := by
  cases h with
  | push queue _ moved => exact hs.push_step (TaskQueue.moves_of_step moved) hG rfl
  | submit _ mode queue at_pc moved =>
      exact hs.push_step (TaskQueue.moves_of_step moved) (hG ⟨mode, at_pc⟩) rfl
  | signal _ b queue is_signal moved =>
      have hmoved := TaskQueue.moves_of_step moved
      rcases is_signal with ⟨-, rfl⟩ | ⟨-, rfl⟩ | ⟨-, rfl, -⟩
      all_goals exact hs.queue_step hmoved rfl (by simp) rfl
  | hand _ _ _ moved | returned _ _ _ moved =>
      exact hs.queue_step (TaskQueue.moves_of_step moved) rfl (by simp) rfl
  | stopQueue queue at_pc moved =>
      cases TaskQueue.moves_of_step moved with
      | stop free => exact ⟨fun _ ↦ rfl, fun _ ↦ hG at_pc⟩
  | destroyQueue queue at_pc moved =>
      have hrun := hs.stopped (by simp [at_pc])
      cases TaskQueue.moves_of_step moved with
      | stop free => exact ⟨fun _ ↦ rfl, fun _ ↦ hs.empty hrun⟩
  | deleteHandler at_pc | join at_pc =>
      exact ⟨fun _ ↦ hs.stopped (by simp [at_pc]), hs.empty⟩
  | _ => exact ⟨hs.stopped, hs.empty⟩

theorem drained_of_reachable (h : system.ReachableVia stopsDrained s) : Drained s := by
  refine System.ReachableVia.invariant ?_ ?_ h
  · rintro s ⟨_, _, _, rfl⟩
    exact ⟨fun hne ↦ absurd rfl hne, fun hrun ↦ by cases hrun⟩
  · intro s a t hs hG hstep
    exact hs.move (moves_of_step hstep) hG

/-- Some transaction is queued that no worker will ever take. -/
def Stranded (s : State) : Prop :=
  s.queue.runWorkerThread = false ∧ s.queue.taskQueue ≠ []

theorem Stranded.move (hs : Stranded s) {a : Action} (h : Moves s a t) : Stranded t := by
  obtain ⟨hrun, hne⟩ := hs
  rcases h.queue_step with hqueue | ⟨b, hb⟩
  · rw [Stranded, hqueue]
    exact ⟨hrun, hne⟩
  · have hmoved := TaskQueue.moves_of_step hb
    refine ⟨hmoved.stop_stays hrun, ?_⟩
    rw [hmoved.taskQueue_eq hrun]
    exact List.append_ne_nil_of_left_ne_nil hne _

/-- The steps that the condition excludes strand a transaction. -/
theorem stranded_of_not_drained {a : Action} (h : Moves s a t) (hG : ¬ stopsDrained s a) :
    Stranded t := by
  cases h with
  | push queue _ moved =>
      have hrun : s.queue.runWorkerThread = false := by simpa [stopsDrained] using hG
      cases TaskQueue.moves_of_step moved with
      | push task free => exact ⟨hrun, by simp [TaskQueue.State.pushToQueue]⟩
  | submit _ mode queue at_pc moved =>
      have hrun : s.queue.runWorkerThread = false := by simpa [stopsDrained, at_pc] using hG
      cases TaskQueue.moves_of_step moved with
      | push task free => exact ⟨hrun, by simp [TaskQueue.State.pushToQueue]⟩
  | stopQueue queue at_pc moved =>
      have hne : s.queue.taskQueue ≠ [] := by simpa [stopsDrained, at_pc] using hG
      cases TaskQueue.moves_of_step moved with
      | stop free => exact ⟨rfl, hne⟩
  | signal _ b queue is_signal moved =>
      rcases is_signal with ⟨rfl, -⟩ | ⟨rfl, -⟩ | ⟨rfl, -, -⟩ <;> exact absurd trivial hG
  | _ => simp_all [stopsDrained]

theorem drained_or_stranded (h : system.Reachable s) :
    system.ReachableVia stopsDrained s ∨ Stranded s := by
  refine System.Reachable.invariant (fun s hs ↦ Or.inl (.of_init hs)) ?_ h
  intro s a t hs hstep
  have hmove : Moves s a t := moves_of_step hstep
  rcases hs with hs | hs
  · by_cases hG : stopsDrained s a
    · exact Or.inl (hs.step hG hstep)
    · exact Or.inr (stranded_of_not_drained hmove hG)
  · exact Or.inr (hs.move hmove)

/-- When the worker has exited, every pushed transaction was finished exactly once if
and only if the queue was drained when it was stopped and nothing was pushed later. -/
theorem finished_once_iff_drained (s : State) (h : system.Reachable s)
    (hexited : s.queue.worker = .exited) :
    (∀ n ∈ s.queue.pushed, s.finished.count n = 1) ↔ system.ReachableVia stopsDrained s := by
  rw [finished_once_iff_empty h hexited]
  constructor
  · intro hempty
    rcases drained_or_stranded h with hs | hs
    · exact hs
    · exact absurd hempty hs.2
  · intro hs
    have hrun := (queue_consistent h).exited_stop hexited
    exact (drained_of_reachable hs).empty hrun

/-- The daemon is stopped while its only transaction is being processed. -/
def stoppedDrained : State :=
  { State.create true true true with
    queue :=
      { TaskQueue.State.create with
        taskPushed := true
        runWorkerThread := false
        worker := .exited
        pendingNotify := 2
        pushed := [0]
        handed := [0]
        processed := [0] }
    stop := .queueStopped
    finished := [0] }

theorem finished_once_iff_drained_stoppedDrained :
    (∀ n ∈ stoppedDrained.queue.pushed, stoppedDrained.finished.count n = 1) ↔
      system.ReachableVia stopsDrained stoppedDrained :=
  finished_once_iff_drained stoppedDrained
    (System.reachable_of_run [.executeDpaTransaction, .worker, .worker, .worker, .worker, .worker,
      .worker, .stop, .exec, .exec, .exec, .dpaFinish, .dpaReturn, .exec, .exec, .exec, .worker,
      .worker, .worker] ⟨true, true, true, rfl⟩ (by decide))
    rfl

/-- The same stop with a second transaction queued. -/
def stoppedStranded : State :=
  { stoppedDrained with
    queue := { stoppedDrained.queue with taskQueue := [1], pendingNotify := 3, pushed := [0, 1] } }

theorem queued_at_stop_never_finished :
    ∃ s, system.Reachable s ∧ s.queue.worker = .exited ∧
      ∃ n ∈ s.queue.pushed, s.finished.count n ≠ 1 := by
  refine ⟨stoppedStranded, ?_, rfl, 1, by decide, by decide⟩
  exact System.reachable_of_run [.executeDpaTransaction, .executeDpaTransaction, .worker, .worker,
    .worker, .worker, .worker, .worker, .stop, .exec, .exec, .exec, .dpaFinish, .dpaReturn, .exec,
    .exec, .exec, .worker, .worker, .worker] ⟨true, true, true, rfl⟩ (by decide)

end IqrfDaemon.Controller
