import IqrfDaemon.TaskQueue.Progress

/-!
# Stopping a messaging

The queue of `UdpMessaging` and of `MqMessaging` sends its messages on a channel.  Their
`stop` deletes the channel first and the queue behind it, so in between the worker still
takes what has been pushed.  The channel is left alone after its deletion, however the two
threads interleave, exactly if everything pushed had been sent by then.
-/

namespace IqrfDaemon.TaskQueue.Closing

open Transition

variable {T : Type*}

inductive Messaging
  | udpMessaging
  | mqMessaging

/-- Program points of `stop`: its three deletions, the last in two steps, which are the
locked section of the destructor and its `join`. -/
inductive StopPc
  | started
  | deleteTransaction
  | deleteChannel
  | deleteQueue
  | join
  | stopped
  deriving DecidableEq

/-- Where `stop` begins: only `UdpMessaging` has a transaction of its own. -/
def Messaging.stop : Messaging → StopPc
  | udpMessaging => .deleteTransaction
  | mqMessaging => .deleteChannel

/-- The queue, whether the channel still exists, the thread that calls `stop`, and whether
a deleted channel has been used. -/
structure State (T : Type*) where
  queue : TaskQueue.State T
  channel : Bool
  stop : StopPc
  misused : Bool

/-- A step of the queue with its callers, and the next step of `stop`. -/
inductive Action (T : Type*)
  | queue (a : TaskQueue.Action T)
  | stop

/-- The state behind `start`. -/
def State.create : State T where
  queue := TaskQueue.State.create
  channel := true
  stop := .started
  misused := false

namespace State

/-- The worker calls `sendTo` of the channel with the task in its hand. -/
def sends (s : State T) : TaskQueue.Action T → Bool
  | .worker => !s.queue.worker.inHand.isEmpty
  | _ => false

/-- Only the destructor stops the queue, and nothing moves a queue that has been deleted. -/
def queueStep (s : State T) : TaskQueue.Action T → Option (State T)
  | .stopQueue => none
  | a =>
      if s.stop = .stopped then none
      else (s.queue.step a).map fun queue ↦
        { s with queue := queue, misused := s.misused || !s.channel && s.sends a }

/-- The channel is deleted under a call of `sendTo` as well. -/
def deleteChannel (s : State T) : State T :=
  { s with
    channel := false
    stop := .deleteQueue
    misused := s.misused || !s.queue.worker.running.isEmpty }

def stopStep (m : Messaging) (s : State T) : Option (State T) :=
  match s.stop with
  | .started => some { s with stop := m.stop }
  | .deleteTransaction => some { s with stop := .deleteChannel }
  | .deleteChannel => some s.deleteChannel
  | .deleteQueue =>
      (s.queue.step .stopQueue).map fun queue ↦ { s with queue := queue, stop := .join }
  | .join =>
      match s.queue.worker with
      | .exited => some { s with stop := .stopped }
      | _ => none
  | .stopped => none

def step (m : Messaging) (s : State T) : Action T → Option (State T)
  | .queue a => s.queueStep a
  | .stop => s.stopStep m

end State

def system (m : Messaging) (T : Type*) : System (State T) (Action T) where
  init s := s = State.create
  step := State.step m

/-- Nobody pushes any more. -/
def NoPush (_ : State T) (a : Action T) : Prop := ∀ task, a ≠ .queue (.pushToQueue task)

inductive Moves (m : Messaging) (s : State T) : Action T → State T → Prop
  | queue (a : TaskQueue.Action T) (queue : TaskQueue.State T) (goes_on : a ≠ .stopQueue)
      (moved : TaskQueue.Moves s.queue a queue) :
      Moves m s (.queue a)
        { s with queue := queue, misused := s.misused || !s.channel && s.sends a }
  | start (at_pc : s.stop = .started) : Moves m s .stop { s with stop := m.stop }
  | deleteTransaction (at_pc : s.stop = .deleteTransaction) :
      Moves m s .stop { s with stop := .deleteChannel }
  | deleteChannel (at_pc : s.stop = .deleteChannel) : Moves m s .stop s.deleteChannel
  | deleteQueue (queue : TaskQueue.State T) (at_pc : s.stop = .deleteQueue)
      (moved : TaskQueue.Moves s.queue .stopQueue queue) :
      Moves m s .stop { s with queue := queue, stop := .join }
  | join (at_pc : s.stop = .join) (left : s.queue.worker = .exited) :
      Moves m s .stop { s with stop := .stopped }

variable {m : Messaging} {s t : State T} {a : Action T}

theorem queueStep_eq_some {a : TaskQueue.Action T} :
    s.queueStep a = some t ↔ a ≠ .stopQueue ∧ s.stop ≠ .stopped ∧
      ∃ queue, s.queue.step a = some queue ∧
        { s with queue := queue, misused := s.misused || !s.channel && s.sends a } = t := by
  cases a <;> simp [State.queueStep]

theorem moves_of_step (h : s.step m a = some t) : Moves m s a t := by
  cases a with
  | queue a =>
      obtain ⟨hgoes, -, queue, hmoved, rfl⟩ := queueStep_eq_some.mp h
      exact .queue a queue hgoes (TaskQueue.moves_of_step hmoved)
  | stop =>
      change s.stopStep m = some t at h
      unfold State.stopStep at h
      cases hpc : s.stop with
      | started =>
          obtain rfl : { s with stop := m.stop } = t := by simpa [hpc] using h
          exact .start hpc
      | deleteTransaction =>
          obtain rfl : { s with stop := .deleteChannel } = t := by simpa [hpc] using h
          exact .deleteTransaction hpc
      | deleteChannel =>
          obtain rfl : s.deleteChannel = t := by simpa [hpc] using h
          exact .deleteChannel hpc
      | deleteQueue =>
          rw [hpc] at h
          obtain ⟨queue, hmoved, rfl⟩ := Option.map_eq_some_iff.mp h
          exact .deleteQueue queue hpc (TaskQueue.moves_of_step hmoved)
      | join =>
          cases hworker : s.queue.worker with
          | exited =>
              obtain rfl : { s with stop := .stopped } = t := by simpa [hpc, hworker] using h
              exact .join hpc hworker
          | _ => simp [hpc, hworker] at h
      | stopped => simp [hpc] at h

/-! ## Up to the deletion -/

/-- The queue runs until its destructor stops it, and a channel that exists has not been
misused. -/
structure Orderly (s : State T) : Prop where
  consistent : Consistent s.queue
  running : s.stop ≠ .join → s.stop ≠ .stopped → s.queue.runWorkerThread = true
  channel : s.stop = .started ∨ s.stop = .deleteTransaction ∨ s.stop = .deleteChannel →
    s.channel = true
  unused : s.channel = true → s.misused = false

theorem Orderly.move (hs : Orderly s) (h : Moves m s a t) : Orderly t := by
  cases h with
  | queue a queue goes_on moved =>
      refine ⟨hs.consistent.move moved, fun hjoin hstopped ↦ ?_, hs.channel, fun hchannel ↦ ?_⟩
      · exact (moved.runWorkerThread_eq goes_on).trans (hs.running hjoin hstopped)
      · have hchannel : s.channel = true := hchannel
        simp [hs.unused hchannel, hchannel]
  | start at_pc =>
      exact ⟨hs.consistent, fun _ _ ↦ hs.running (by simp [at_pc]) (by simp [at_pc]),
        fun _ ↦ hs.channel (.inl at_pc), hs.unused⟩
  | deleteTransaction at_pc =>
      exact ⟨hs.consistent, fun _ _ ↦ hs.running (by simp [at_pc]) (by simp [at_pc]),
        fun _ ↦ hs.channel (.inr (.inl at_pc)), hs.unused⟩
  | deleteChannel at_pc =>
      refine ⟨hs.consistent, fun _ _ ↦ hs.running (by simp [at_pc]) (by simp [at_pc]), ?_, ?_⟩
      · simp [State.deleteChannel]
      · simp [State.deleteChannel]
  | deleteQueue queue at_pc moved =>
      exact ⟨hs.consistent.move moved, fun hjoin ↦ absurd rfl hjoin, by simp, hs.unused⟩
  | join at_pc left =>
      exact ⟨hs.consistent, fun _ hstopped ↦ absurd rfl hstopped, by simp, hs.unused⟩

theorem orderly_of_reachable (h : (system m T).Reachable s) : Orderly s := by
  refine System.Reachable.invariant ?_ (fun s a t hs hstep ↦ hs.move (moves_of_step hstep)) h
  rintro s rfl
  exact ⟨consistent_create, fun _ _ ↦ rfl, fun _ ↦ rfl, fun _ ↦ rfl⟩

/-! ## Behind the deletion -/

/-- The channel is deleted, and as long as it has not been used since, the worker has not
called the processing function and is not in it. -/
structure Spared (handed : List T) (s : State T) : Prop where
  deleted : s.channel = false
  handed_eq : s.misused = false → s.queue.handed = handed
  idle : s.misused = false → s.queue.worker.running = []

/-- A step of the queue that hands nothing over. -/
theorem handed_of_not_sends {queue : TaskQueue.State T} {a : TaskQueue.Action T}
    (h : TaskQueue.Moves s.queue a queue) (hsends : s.sends a = false)
    (hidle : s.queue.worker.running = []) :
    queue.handed = s.queue.handed ∧ queue.worker.running = [] := by
  cases h with
  | hand task at_pc => simp [State.sends, at_pc, WorkerPc.inHand] at hsends
  | processed task at_pc => simp [at_pc, WorkerPc.running] at hidle
  | push | stop | notifyAwake => exact ⟨rfl, hidle⟩
  | _ => exact ⟨rfl, rfl⟩

theorem Spared.move {handed : List T} (hs : Spared handed s) (h : Moves m s a t) :
    Spared handed t := by
  cases h with
  | queue a queue goes_on moved =>
      have hunused (hmisused : (s.misused || !s.channel && s.sends a) = false) :
          queue.handed = handed ∧ queue.worker.running = [] := by
        simp only [hs.deleted, Bool.not_false, Bool.true_and, Bool.or_eq_false_iff] at hmisused
        obtain ⟨hhanded, hidle⟩ :=
          handed_of_not_sends moved hmisused.2 (hs.idle hmisused.1)
        exact ⟨hhanded.trans (hs.handed_eq hmisused.1), hidle⟩
      exact ⟨hs.deleted, fun hmisused ↦ (hunused hmisused).1,
        fun hmisused ↦ (hunused hmisused).2⟩
  | start | deleteTransaction | join => exact ⟨hs.deleted, hs.handed_eq, hs.idle⟩
  | deleteChannel at_pc =>
      refine ⟨rfl, fun hmisused ↦ ?_, fun hmisused ↦ ?_⟩ <;>
        simp only [State.deleteChannel, Bool.or_eq_false_iff] at hmisused
      · exact hs.handed_eq hmisused.1
      · exact hs.idle hmisused.1
  | deleteQueue queue at_pc moved =>
      cases moved with
      | stop free => exact ⟨hs.deleted, hs.handed_eq, hs.idle⟩

theorem spared_deleteChannel (s : State T) : Spared s.queue.handed s.deleteChannel where
  deleted := rfl
  handed_eq _ := rfl
  idle hmisused := by
    simp only [State.deleteChannel, Bool.or_eq_false_iff] at hmisused
    change s.queue.worker.running = []
    simpa using hmisused.2

/-- What the queue does on its own it does in the messaging. -/
theorem exists_reaches_of_run {labels : List (TaskQueue.Action T)} {queue : TaskQueue.State T}
    (hown : ∀ a ∈ labels, TaskQueue.Action.Own a) (hstop : s.stop ≠ .stopped)
    (hrun : (TaskQueue.system T).run s.queue labels = some queue) :
    ∃ t, (system m T).Reaches NoPush s t ∧ t.queue = queue := by
  induction labels generalizing s with
  | nil => exact ⟨s, .refl, by simpa [System.run] using hrun⟩
  | cons a rest ih =>
      obtain ⟨next, hstep, hrest⟩ := System.run_cons_eq_some.mp hrun
      have ha : TaskQueue.Action.Own a := hown a List.mem_cons_self
      have hmoved := queueStep_eq_some.mpr ⟨ha.ne_stopQueue, hstop, next, hstep, rfl⟩
      obtain ⟨t, hreach, hqueue⟩ :=
        ih (s := { s with queue := next, misused := s.misused || !s.channel && s.sends a })
          (fun b hb ↦ hown b (List.mem_cons_of_mem a hb)) hstop hrest
      have hnoPush : NoPush s (.queue a) := by
        rintro task ⟨⟩
        exact ha
      exact ⟨t, .head (System.stepVia_of_step (a := .queue a) hnoPush hmoved) hreach, hqueue⟩

/-! ## Everything sent -/

/-- All that was pushed has been sent. -/
structure Finished (s : State T) : Prop where
  consistent : Consistent s.queue
  sent : s.queue.processed = s.queue.pushed
  unused : s.misused = false

theorem Finished.empty (hs : Finished s) :
    s.queue.worker.running = [] ∧ s.queue.worker.inHand = [] := by
  have hpushed := hs.consistent.pushed_eq
  rw [hs.consistent.handed_eq, ← hs.sent, List.append_assoc, List.append_assoc,
    List.self_eq_append_right, List.append_eq_nil_iff, List.append_eq_nil_iff] at hpushed
  exact ⟨hpushed.1, hpushed.2.1⟩

theorem processed_prefix {q r : TaskQueue.State T} {a : TaskQueue.Action T}
    (h : TaskQueue.Moves q a r) : q.processed <+: r.processed := by
  cases h with
  | processed task at_pc => exact List.prefix_append _ _
  | _ => exact List.prefix_refl _

theorem sent_of_move {q r : TaskQueue.State T} {a : TaskQueue.Action T}
    (h : TaskQueue.Moves q a r) (hr : Consistent r) (hpushes : a.pushes = [])
    (hsent : q.processed = q.pushed) : r.processed = r.pushed := by
  have hprefix := processed_prefix h
  rw [hsent] at hprefix
  have hpushed : r.pushed = q.pushed := by rw [h.pushed_eq, hpushes, List.append_nil]
  refine List.IsPrefix.eq_of_length_le ?_ ?_
  · rw [hr.pushed_eq, hr.handed_eq, List.append_assoc, List.append_assoc]
    exact List.prefix_append _ _
  · rw [hpushed]
    exact hprefix.length_le

theorem Finished.move (hs : Finished s) (h : Moves m s a t) (ha : NoPush s a) : Finished t := by
  obtain ⟨hrunning, hinHand⟩ := hs.empty
  cases h with
  | queue a queue goes_on moved =>
      have hpushes : a.pushes = [] := by
        cases a with
        | pushToQueue task => exact absurd rfl (ha task)
        | _ => rfl
      have hconsistent := hs.consistent.move moved
      refine ⟨hconsistent, sent_of_move moved hconsistent hpushes hs.sent, ?_⟩
      have hsends : s.sends a = false := by cases a <;> simp [State.sends, hinHand]
      simp [hs.unused, hsends]
  | start | deleteTransaction | join => exact ⟨hs.consistent, hs.sent, hs.unused⟩
  | deleteChannel at_pc =>
      refine ⟨hs.consistent, hs.sent, ?_⟩
      simp [State.deleteChannel, hs.unused, hrunning]
  | deleteQueue queue at_pc moved =>
      have hconsistent := hs.consistent.move moved
      exact ⟨hconsistent, sent_of_move moved hconsistent rfl hs.sent, hs.unused⟩

/-- At the deletion of the channel: no schedule in which nobody pushes any more ends in a
use of the deleted channel if and only if everything pushed has been sent. -/
theorem stop_safe_iff (m : Messaging) (h : (system m T).Reachable s)
    (hstop : s.stop = .deleteChannel) :
    (∀ t, (system m T).Reaches NoPush s t → t.misused = false) ↔
      s.queue.processed = s.queue.pushed := by
  have hs := orderly_of_reachable h
  constructor
  · intro hsafe
    have hdelete : (system m T).Reaches NoPush s s.deleteChannel := by
      refine System.Reaches.step (a := .stop) .refl (fun task ↦ by simp) ?_
      simp [system, State.step, State.stopStep, hstop]
    -- left alone, the queue would send all that was pushed
    obtain ⟨labels, queue, hown, hrun, hsettled⟩ :=
      (settles s.queue).exists_settled hs.consistent.continues
    obtain ⟨t, hreach, rfl⟩ := exists_reaches_of_run (m := m) (s := s.deleteChannel) hown
      (by simp [State.deleteChannel]) hrun
    have ht := (settles s.queue).invariant hs.consistent.continues hown hrun
    have hrunning := hs.running (by simp [hstop]) (by simp [hstop])
    have hsent := (ht.settled_running hsettled hrunning).2
    -- and it would do that without the channel
    have hspared : Spared s.queue.handed t := hreach.preserves
      (fun s a t hs _ hstep ↦ hs.move (moves_of_step hstep)) (spared_deleteChannel s)
    have hunused : t.misused = false := hsafe t (hdelete.trans hreach)
    have hidle : s.queue.worker.running = [] :=
      (spared_deleteChannel s).idle (hsafe _ hdelete)
    have hhanded := ht.consistent.handed_eq
    rw [hspared.handed_eq hunused, hspared.idle hunused, hsent, List.append_nil,
      hs.consistent.handed_eq, hidle, List.append_nil] at hhanded
    exact hhanded
  · intro hsent
    have hfinished : Finished s :=
      ⟨hs.consistent, hsent, hs.unused (hs.channel (.inr (.inr hstop)))⟩
    intro t hreach
    exact (hreach.preserves (fun s a t hs ha hstep ↦ hs.move (moves_of_step hstep) ha)
      hfinished).unused

/-- A message is pushed right before `stop` is called. -/
def pushedAtStop : State ℕ where
  queue := State.create.queue.pushToQueue 5
  channel := true
  stop := .deleteChannel
  misused := false

theorem stop_safe_iff_pushedAtStop :
    ¬ ∀ t, (system .udpMessaging ℕ).Reaches NoPush pushedAtStop t → t.misused = false := by
  intro hsafe
  have hreachable : (system .udpMessaging ℕ).Reachable pushedAtStop :=
    System.reachable_of_run [.queue (.pushToQueue 5), .stop, .stop] (s := State.create) rfl rfl
  have hsent := (stop_safe_iff .udpMessaging hreachable rfl).mp hsafe
  simp [pushedAtStop, State.create, TaskQueue.State.create, TaskQueue.State.pushToQueue] at hsent

end IqrfDaemon.TaskQueue.Closing
