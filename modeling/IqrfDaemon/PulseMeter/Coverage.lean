import IqrfDaemon.PulseMeter.Service

/-!
# No pulse meter is lost

Both threads call `removeSchedule` of a meter without a lock, so one of them may remove a
handle that the other has removed already and that the scheduler has given to the FRC task
since.  As long as the FRC task gets no handle that is still held, only `setFrc` removes it and
it is scheduled exactly while FRC is active.  FRC is stopped when every meter is synchronised
or waits for the queue's thread, which leaves none behind, and a meter that is lost starts it
again before the scheduler's thread takes the next task.
-/

namespace IqrfDaemon.PulseMeter

open Serializer Transition

variable {watched : List Word} {s t : State} {handle old : TaskHandle}

/-! ## Steps -/

/-- What one step does, with the program point it starts from. -/
inductive Moves (watched : List Word) (s : State) : Action → State → Prop
  | fire (task : Task) (at_pc : s.handler = .idle) :
      Moves watched s (.fire task)
        { s with handler := State.handleTaskFromScheduler watched task }
  | frcFinished (error : ℤ) (bit2 : Word → Bool) (at_pc : s.handler = .frcTransaction) :
      Moves watched s (.frcFinished error bit2)
        { s with handler := if error = 0 then .frcLoop bit2 0 true else .idle }
  | readFinished (result : ℤ) {i : ℕ} (at_pc : s.handler = .readTransaction i) :
      Moves watched s (.readFinished result)
        { s with handler := if result = 0 then .idle else .removeSchedule i (result = -1) }
  | synced {handle : TaskHandle} {bit2 : Word → Bool} {i : ℕ} {stopFrc : Bool}
      (at_pc : s.handler = .frcLoop bit2 i stopFrc) (sync : (s.pm i).sync = true) :
      Moves watched s (.handler handle) { s with handler := .frcLoop bit2 (i + 1) stopFrc }
  | alive {handle : TaskHandle} {bit2 : Word → Bool} {i : ℕ} {stopFrc : Bool}
      (at_pc : s.handler = .frcLoop bit2 i stopFrc) :
      Moves watched s (.handler handle) { s with handler := .pushToQueue bit2 i stopFrc }
  | silent {handle : TaskHandle} {bit2 : Word → Bool} {i : ℕ} {stopFrc : Bool}
      (at_pc : s.handler = .frcLoop bit2 i stopFrc) :
      Moves watched s (.handler handle) { s with handler := .frcLoop bit2 (i + 1) false }
  | looped {handle : TaskHandle} {bit2 : Word → Bool} {i : ℕ} {stopFrc : Bool}
      (at_pc : s.handler = .frcLoop bit2 i stopFrc) (last : watched.length ≤ i) :
      Moves watched s (.handler handle) { s with handler := .setFrc !stopFrc }
  | pushToQueue {handle : TaskHandle} {bit2 : Word → Bool} {i : ℕ} {stopFrc : Bool}
      (at_pc : s.handler = .pushToQueue bit2 i stopFrc) :
      Moves watched s (.handler handle)
        { s with taskQueue := s.taskQueue ++ [i], handler := .frcLoop bit2 (i + 1) stopFrc }
  | setFrc {handle : TaskHandle} {val : Bool} (at_pc : s.handler = .setFrc val) :
      Moves watched s (.handler handle) { s.setFrc val handle with handler := .idle }
  | handlerReads {handle : TaskHandle} {i : ℕ} {lost : Bool}
      (at_pc : s.handler = .removeSchedule i lost) :
      Moves watched s (.handler handle)
        { s with handler := .removeTask i (s.pm i).taskHandle lost }
  | handlerRemoves {handle old : TaskHandle} {i : ℕ} {lost : Bool}
      (at_pc : s.handler = .removeTask i old lost) :
      Moves watched s (.handler handle)
        { s with schedule := s.schedule.removeTask old, handler := .resetHandle i lost }
  | handlerResets {handle : TaskHandle} {i : ℕ} {lost : Bool}
      (at_pc : s.handler = .resetHandle i lost) :
      Moves watched s (.handler handle)
        { s.setTaskHandle i taskHandleInvalid with
          handler := if lost then .resetSync i else .idle }
  | resetSync {handle : TaskHandle} {i : ℕ} (at_pc : s.handler = .resetSync i) :
      Moves watched s (.handler handle) { s.setSync i false with handler := .setFrc true }
  | take {handle : TaskHandle} {i : ℕ} {rest : List ℕ} (at_pc : s.worker = .idle)
      (front : s.taskQueue = i :: rest) :
      Moves watched s (.worker handle) { s with taskQueue := rest, worker := .testSync i }
  | drop {handle : TaskHandle} {i : ℕ} (at_pc : s.worker = .testSync i)
      (sync : (s.pm i).sync = true) : Moves watched s (.worker handle) { s with worker := .idle }
  | found {handle : TaskHandle} {i : ℕ} (at_pc : s.worker = .testSync i) :
      Moves watched s (.worker handle) { s with worker := .setSync i }
  | setSync {handle : TaskHandle} {i : ℕ} (at_pc : s.worker = .setSync i) :
      Moves watched s (.worker handle) { s.setSync i true with worker := .removeSchedule i }
  | workerReads {handle : TaskHandle} {i : ℕ} (at_pc : s.worker = .removeSchedule i) :
      Moves watched s (.worker handle) { s with worker := .removeTask i (s.pm i).taskHandle }
  | workerRemoves {handle old : TaskHandle} {i : ℕ} (at_pc : s.worker = .removeTask i old) :
      Moves watched s (.worker handle)
        { s with schedule := s.schedule.removeTask old, worker := .resetHandle i }
  | workerResets {handle : TaskHandle} {i : ℕ} (at_pc : s.worker = .resetHandle i) :
      Moves watched s (.worker handle)
        { s.setTaskHandle i taskHandleInvalid with worker := .scheduleTask i }
  | scheduleTask {handle : TaskHandle} {i : ℕ} (at_pc : s.worker = .scheduleTask i) :
      Moves watched s (.worker handle)
        { s with
          schedule := s.schedule.scheduleTaskPeriodic handle (.sendPmt (State.address watched i))
          worker := .storeHandle i handle }
  | storeHandle {handle new : TaskHandle} {i : ℕ} (at_pc : s.worker = .storeHandle i new) :
      Moves watched s (.worker handle) { s.setTaskHandle i new with worker := .idle }

theorem moves_of_handlerStep (hstep : s.handlerStep watched handle = some t) :
    Moves watched s (.handler handle) t := by
  rw [State.handlerStep] at hstep
  cases hpc : s.handler <;> simp only [hpc] at hstep
  case idle | frcTransaction | readTransaction => cases hstep
  case frcLoop bit2 i stopFrc =>
    split_ifs at hstep with hi hsync <;> obtain rfl := Option.some.inj hstep
    · exact .synced hpc hsync
    · exact .alive hpc
    · exact .silent hpc
    · exact .looped hpc (by omega)
  all_goals obtain rfl := Option.some.inj hstep
  case pushToQueue bit2 i stopFrc => exact .pushToQueue hpc
  case setFrc val => exact .setFrc hpc
  case removeSchedule i lost => exact .handlerReads hpc
  case removeTask i old lost => exact .handlerRemoves hpc
  case resetHandle i lost => exact .handlerResets hpc
  case resetSync i => exact .resetSync hpc

theorem moves_of_workerStep (hstep : s.workerStep watched handle = some t) :
    Moves watched s (.worker handle) t := by
  rw [State.workerStep] at hstep
  cases hpc : s.worker <;> simp only [hpc] at hstep
  case idle =>
    cases hqueue : s.taskQueue <;> simp only [hqueue] at hstep <;> cases hstep
    exact .take hpc hqueue
  all_goals obtain rfl := Option.some.inj hstep
  case testSync i =>
    split
    case isTrue hsync => exact .drop hpc hsync
    case isFalse => exact .found hpc
  case setSync i => exact .setSync hpc
  case removeSchedule i => exact .workerReads hpc
  case removeTask i old => exact .workerRemoves hpc
  case resetHandle i => exact .workerResets hpc
  case scheduleTask i => exact .scheduleTask hpc
  case storeHandle i new => exact .storeHandle hpc

theorem moves_of_step {a : Action} (hstep : s.step watched a = some t) : Moves watched s a t := by
  cases a with
  | handler handle => exact moves_of_handlerStep hstep
  | worker handle => exact moves_of_workerStep hstep
  | fire task =>
      rw [State.step] at hstep
      cases hpc : s.handler <;> simp only [hpc] at hstep <;> cases hstep
      exact .fire task hpc
  | frcFinished error bit2 =>
      rw [State.step] at hstep
      cases hpc : s.handler <;> simp only [hpc] at hstep <;> cases hstep
      exact .frcFinished error bit2 hpc
  | readFinished result =>
      rw [State.step] at hstep
      cases hpc : s.handler <;> simp only [hpc] at hstep <;> cases hstep
      exact .readFinished result hpc

/-- A handler begins with its transaction, if it has any. -/
theorem handleTaskFromScheduler_cases (watched : List Word) (task : Task) :
    State.handleTaskFromScheduler watched task = .idle ∨
      State.handleTaskFromScheduler watched task = .frcTransaction ∨
        ∃ i, State.handleTaskFromScheduler watched task = .readTransaction i := by
  cases task with
  | sendFrc => exact Or.inr (Or.inl rfl)
  | sendPmt adr =>
      rw [State.handleTaskFromScheduler]
      split
      · exact Or.inl rfl
      · cases watched.findIdx? (· = adr) with
        | none => exact Or.inl rfl
        | some i => exact Or.inr (Or.inr ⟨i, rfl⟩)

/-! ## Handles -/

def HandlerPc.inHand : HandlerPc → Option TaskHandle
  | removeTask _ handle _ => some handle
  | _ => none

def WorkerPc.inHand : WorkerPc → Option TaskHandle
  | removeTask _ handle | storeHandle _ handle => some handle
  | _ => none

/-- The handle is that of a meter, or one that a thread is about to remove or to store. -/
def State.Holds (s : State) (handle : TaskHandle) : Prop :=
  (∃ i, (s.pm i).taskHandle = handle) ∨ s.handler.inHand = some handle ∨
    s.worker.inHand = some handle

/-- FRC is not scheduled under a handle that is still held. -/
def KeepsApart (s : State) : Action → Prop
  | .handler handle =>
      match s.handler with
      | .setFrc val => val = true → s.frcActive = false → ¬ s.Holds handle
      | _ => True
  | _ => True

/-- The scheduler keeps its contract, and the FRC task gets no handle that is held. -/
def Guard (s : State) (a : Action) : Prop := Contract s a ∧ KeepsApart s a

theorem State.holds_setTaskHandle {i : ℕ} {x : TaskHandle}
    (h : (s.setTaskHandle i handle).Holds x) : x = handle ∨ s.Holds x := by
  rcases h with ⟨j, hj⟩ | hthread
  · by_cases hij : j = i
    · subst hij
      exact Or.inl (by simpa [State.setTaskHandle] using hj.symm)
    · exact Or.inr (Or.inl ⟨j, by simpa [State.setTaskHandle, hij] using hj⟩)
  · exact Or.inr (Or.inr hthread)

theorem State.holds_setSync {i : ℕ} {val : Bool} {x : TaskHandle}
    (h : (s.setSync i val).Holds x) : s.Holds x := by
  rcases h with ⟨j, hj⟩ | hthread
  · refine Or.inl ⟨j, ?_⟩
    by_cases hij : j = i
    · subst hij
      simpa [State.setSync] using hj
    · simpa [State.setSync, hij] using hj
  · exact Or.inr hthread

def Schedule.frcTasks (c : Schedule) : List (TaskHandle × Task) :=
  c.tasks.filter fun entry ↦ entry.2 = .sendFrc

theorem Schedule.frcTasks_removeTask (c : Schedule) (old : TaskHandle) :
    (c.removeTask old).frcTasks = c.frcTasks.filter fun entry ↦ entry.1 ≠ old := by
  rw [frcTasks, removeTask, List.filter_comm]
  rfl

structure Handles (s : State) : Prop where
  frcTasks : s.schedule.frcTasks = if s.frcActive then [(s.frcHandle, .sendFrc)] else []
  valid : s.frcActive = true → s.frcHandle ≠ taskHandleInvalid
  held : s.frcActive = true → ∀ x, s.Holds x → x ≠ s.frcHandle

namespace Handles

theorem quiet (h : Handles s) (hschedule : t.schedule = s.schedule)
    (hhandle : t.frcHandle = s.frcHandle) (hactive : t.frcActive = s.frcActive)
    (hholds : ∀ x, t.Holds x → x = taskHandleInvalid ∨ s.Holds x) : Handles t := by
  refine ⟨?_, fun htrue ↦ ?_, fun htrue x hx ↦ ?_⟩ <;> rw [hhandle]
  · rw [hschedule, hactive]
    exact h.frcTasks
  · exact h.valid (hactive ▸ htrue)
  · have htrue : s.frcActive = true := hactive ▸ htrue
    rcases hholds x hx with rfl | hx
    · exact (h.valid htrue).symm
    · exact h.held htrue x hx

theorem mem_tasks (h : Handles s) (hactive : s.frcActive = true) :
    (s.frcHandle, .sendFrc) ∈ s.schedule.tasks := by
  have hmem : (s.frcHandle, Task.sendFrc) ∈ s.schedule.frcTasks := by
    rw [h.frcTasks, if_pos hactive]
    exact List.mem_singleton_self _
  exact (List.mem_filter.mp hmem).1

theorem removeTask (h : Handles s) (hold : s.Holds old) :
    Handles { s with schedule := s.schedule.removeTask old } where
  frcTasks := by
    rw [Schedule.frcTasks_removeTask, h.frcTasks]
    split
    case isTrue hactive => simp [(h.held hactive old hold).symm]
    case isFalse => rfl
  valid := h.valid
  held hactive x hx := h.held hactive x hx

/-- While the FRC task is scheduled the scheduler gives its handle to no other task. -/
theorem scheduleTask (h : Handles s) (hfresh : s.schedule.Fresh handle) {adr : Word} {i : ℕ} :
    Handles { s with
      schedule := s.schedule.scheduleTaskPeriodic handle (.sendPmt adr)
      worker := .storeHandle i handle } where
  frcTasks := h.frcTasks
  valid := h.valid
  held hactive x hx := by
    rcases hx with hstored | hhandler | hworker
    · exact h.held hactive x (Or.inl hstored)
    · exact h.held hactive x (Or.inr (Or.inl hhandler))
    · obtain rfl : handle = x := Option.some.inj hworker
      have hmem := List.mem_map_of_mem (f := Prod.fst) (h.mem_tasks hactive)
      exact fun heq : handle = s.frcHandle ↦ hfresh.2 (heq ▸ hmem)

theorem setFrc (h : Handles s) (hfresh : s.schedule.Fresh handle) {val : Bool}
    (hapart : val = true → s.frcActive = false → ¬ s.Holds handle) :
    Handles (s.setFrc val handle) := by
  rw [State.setFrc]
  split_ifs with hsame hval
  · exact h
  · have hinactive : s.frcActive = false :=
      Bool.eq_false_iff.mpr fun hactive ↦ hsame (hval.trans hactive.symm)
    have hnone := h.frcTasks
    rw [hinactive] at hnone
    refine ⟨congrArg (List.cons (handle, Task.sendFrc)) hnone, fun _ ↦ hfresh.1, ?_⟩
    rintro - x hx rfl
    exact hapart hval hinactive hx
  · have hactive : s.frcActive = true :=
      eq_true_of_ne_false fun hinactive ↦ hsame ((Bool.eq_false_iff.mpr hval).trans hinactive.symm)
    refine ⟨?_, fun hfalse ↦ (by cases hfalse), fun hfalse ↦ (by cases hfalse)⟩
    rw [Schedule.frcTasks_removeTask, h.frcTasks, hactive]
    simp

theorem setTaskHandle (h : Handles s) {i : ℕ}
    (hvalue : handle = taskHandleInvalid ∨ s.Holds handle) :
    Handles (s.setTaskHandle i handle) := by
  refine h.quiet rfl rfl rfl fun x hx ↦ ?_
  rcases State.holds_setTaskHandle hx with rfl | hx
  · exact hvalue
  · exact Or.inr hx

/-- The scheduler's thread goes on; only the handle that it now has in hand is looked at. -/
theorem at_handler (h : Handles s) {pc : HandlerPc} (hpc : ∀ x, pc.inHand = some x → s.Holds x) :
    Handles { s with handler := pc } := by
  refine h.quiet rfl rfl rfl fun x hx ↦ Or.inr ?_
  rcases hx with hstored | hhandler | hworker
  · exact Or.inl hstored
  · exact hpc x hhandler
  · exact Or.inr (Or.inr hworker)

theorem at_worker (h : Handles s) {pc : WorkerPc} (hpc : ∀ x, pc.inHand = some x → s.Holds x) :
    Handles { s with worker := pc } := by
  refine h.quiet rfl rfl rfl fun x hx ↦ Or.inr ?_
  rcases hx with hstored | hhandler | hworker
  · exact Or.inl hstored
  · exact Or.inr (Or.inl hhandler)
  · exact hpc x hworker

theorem setTaskQueue (h : Handles s) (queue : List ℕ) : Handles { s with taskQueue := queue } :=
  h.quiet rfl rfl rfl fun _ hx ↦ Or.inr hx

theorem setSync (h : Handles s) (i : ℕ) (val : Bool) : Handles (s.setSync i val) :=
  h.quiet rfl rfl rfl fun _ hx ↦ Or.inr (State.holds_setSync hx)

theorem handler_none (h : Handles s) {pc : HandlerPc} (hpc : pc.inHand = none) :
    Handles { s with handler := pc } :=
  h.at_handler fun x hx ↦ by simp [hpc] at hx

theorem worker_none (h : Handles s) {pc : WorkerPc} (hpc : pc.inHand = none) :
    Handles { s with worker := pc } :=
  h.at_worker fun x hx ↦ by simp [hpc] at hx

theorem step (h : Handles s) {a : Action} (hguard : Guard s a)
    (hmoves : Moves watched s a t) : Handles t := by
  obtain ⟨hcontract, hapart⟩ := hguard
  cases hmoves with
  | fire task at_pc =>
      refine h.handler_none ?_
      rcases handleTaskFromScheduler_cases watched task with htask | htask | ⟨i, htask⟩ <;>
        rw [htask] <;> rfl
  | frcFinished | readFinished => exact h.handler_none (by split <;> rfl)
  | synced | alive | silent | looped => exact h.handler_none rfl
  | @pushToQueue _ _ i => exact handler_none (h.setTaskQueue (s.taskQueue ++ [i])) rfl
  | setFrc at_pc =>
      rw [KeepsApart, at_pc] at hapart
      exact handler_none (h.setFrc hcontract hapart) rfl
  | @handlerReads _ i => exact h.at_handler fun x hx ↦ Or.inl ⟨i, Option.some.inj hx⟩
  | @handlerRemoves _ old i lost at_pc =>
      have hold : s.Holds old := Or.inr (Or.inl (by rw [at_pc]; rfl))
      exact handler_none (h.removeTask hold) rfl
  | handlerResets => exact handler_none (h.setTaskHandle (Or.inl rfl)) (by split <;> rfl)
  | @resetSync _ i => exact handler_none (h.setSync i false) rfl
  | @take _ _ rest => exact worker_none (h.setTaskQueue rest) rfl
  | drop | found => exact h.worker_none rfl
  | @setSync _ i => exact worker_none (h.setSync i true) rfl
  | @workerReads _ i => exact h.at_worker fun x hx ↦ Or.inl ⟨i, Option.some.inj hx⟩
  | @workerRemoves _ old i at_pc =>
      have hold : s.Holds old := Or.inr (Or.inr (by rw [at_pc]; rfl))
      exact worker_none (h.removeTask hold) rfl
  | workerResets => exact worker_none (h.setTaskHandle (Or.inl rfl)) rfl
  | scheduleTask => exact h.scheduleTask hcontract
  | @storeHandle _ new i at_pc =>
      have hnew : s.Holds new := Or.inr (Or.inr (by rw [at_pc]; rfl))
      exact worker_none (h.setTaskHandle (Or.inr hnew)) rfl

end Handles

/-! ## Meters that wait -/

/-- The meter whose flag will be set unless it is set already. -/
def WorkerPc.unsynced : WorkerPc → Option ℕ
  | testSync i | setSync i => some i
  | _ => none

theorem WorkerPc.meter_of_unsynced {pc : WorkerPc} {i : ℕ} (h : pc.unsynced = some i) :
    pc.meter = some i := by
  cases pc <;> first | exact h | cases h

namespace State

def Waits (s : State) (i : ℕ) : Prop := i ∈ s.taskQueue ∨ s.worker.unsynced = some i

def Awaited (s : State) (n : ℕ) : Prop := ∀ i < n, (s.pm i).sync = false → s.Waits i

/-- No flag is reset, and a meter that waits goes on or has its flag set. -/
def Advances (s t : State) : Prop :=
  ∀ i, (t.pm i).sync = false → (s.pm i).sync = false ∧ (s.Waits i → t.Waits i)

theorem Awaited.advances {n : ℕ} (h : s.Awaited n) (hadvances : Advances s t) : t.Awaited n :=
  fun i hi hsync ↦ (hadvances i hsync).2 (h i hi (hadvances i hsync).1)

theorem setTaskHandle_sync (i j : ℕ) : ((s.setTaskHandle i handle).pm j).sync = (s.pm j).sync := by
  by_cases hij : j = i
  · subst hij
    simp [setTaskHandle]
  · simp [setTaskHandle, hij]

/-- Once the flag is set the meter has left. -/
theorem advances_of_left {pc : WorkerPc} (hleft : s.worker.unsynced = none)
    (hsync : ∀ i, (t.pm i).sync = (s.pm i).sync) (hqueue : t.taskQueue = s.taskQueue) :
    Advances s { t with worker := pc } := by
  refine fun i hi ↦ ⟨(hsync i).symm.trans hi, fun hwaits ↦ Or.inl ?_⟩
  have hmem : i ∈ s.taskQueue := by simpa [Waits, hleft] using hwaits
  exact hqueue ▸ hmem

/-- The queue's thread drops a meter only if its flag is set, and otherwise sets it. -/
theorem advances_of_worker (hmoves : Moves watched s (.worker handle) t) : Advances s t := by
  cases hmoves with
  | @take _ i rest at_pc front =>
      refine fun j hsync ↦ ⟨hsync, fun hwaits ↦ ?_⟩
      have hmem : j ∈ i :: rest := by simpa [Waits, at_pc, front, WorkerPc.unsynced] using hwaits
      rcases List.mem_cons.mp hmem with rfl | hmem
      · exact Or.inr rfl
      · exact Or.inl hmem
  | @drop _ i at_pc sync =>
      refine fun j hsync ↦ ⟨hsync, fun hwaits ↦ ?_⟩
      have hcases : j ∈ s.taskQueue ∨ i = j := by
        simpa [Waits, at_pc, WorkerPc.unsynced] using hwaits
      refine Or.inl (hcases.resolve_right ?_)
      rintro rfl
      exact Bool.eq_false_iff.mp hsync sync
  | @found _ i at_pc =>
      refine fun j hsync ↦ ⟨hsync, fun hwaits ↦ hwaits.imp_right fun hworker ↦ ?_⟩
      rwa [at_pc] at hworker
  | @setSync _ i at_pc =>
      intro j hsync
      have hne : j ≠ i := by
        rintro rfl
        simp [State.setSync] at hsync
      refine ⟨by simpa [State.setSync, hne] using hsync, fun hwaits ↦ ?_⟩
      have hcases : j ∈ s.taskQueue ∨ i = j := by
        simpa [Waits, at_pc, WorkerPc.unsynced] using hwaits
      exact Or.inl (hcases.resolve_right fun heq ↦ hne heq.symm)
  | workerReads at_pc =>
      exact advances_of_left (t := s) (by rw [at_pc]; rfl) (fun _ ↦ rfl) rfl
  | workerRemoves at_pc | scheduleTask at_pc =>
      exact advances_of_left (t := { s with schedule := _ }) (by rw [at_pc]; rfl) (fun _ ↦ rfl) rfl
  | @workerResets _ i at_pc | @storeHandle _ _ i at_pc =>
      exact advances_of_left (by rw [at_pc]; rfl) (fun j ↦ setTaskHandle_sync i j) rfl

theorem frcActive_of_worker (hmoves : Moves watched s (.worker handle) t) :
    t.frcActive = s.frcActive ∧ t.handler = s.handler := by
  cases hmoves <;> exact ⟨rfl, rfl⟩

theorem setFrc_frcActive (s : State) (val : Bool) (handle : TaskHandle) :
    (s.setFrc val handle).frcActive = val := by
  rw [setFrc]
  split_ifs with hsame hval
  · exact hsame.symm
  · exact hval.symm
  · exact (Bool.eq_false_iff.mpr hval).symm

theorem setFrc_awaited {n : ℕ} {val : Bool} :
    (s.setFrc val handle).Awaited n ↔ s.Awaited n := by
  rw [setFrc]
  split_ifs <;> rfl

/-! ## Coverage -/

def Safe (s : State) (n : ℕ) : Prop := s.frcActive = true ∨ s.Awaited n

/-- In the loop over the meters the flag says what is known of those before, and `setFrc` stops
FRC only if none is left. -/
def Covered (s : State) (n : ℕ) : Prop :=
  match s.handler with
  | .frcLoop _ i stopFrc | .pushToQueue _ i stopFrc =>
      s.Safe n ∧ (stopFrc = true → s.Awaited i)
  | .setFrc val => val = false → s.Awaited n
  | _ => s.Safe n

variable {n : ℕ}

theorem Safe.advances (h : s.Safe n) (hadvances : Advances s t)
    (hactive : t.frcActive = s.frcActive) : t.Safe n :=
  h.imp hactive.trans fun hawaited ↦ hawaited.advances hadvances

theorem Covered.advances (h : s.Covered n) (hadvances : Advances s t)
    (hactive : t.frcActive = s.frcActive) (hhandler : t.handler = s.handler) : t.Covered n := by
  rw [Covered] at h ⊢
  rw [hhandler]
  cases hpc : s.handler <;> simp only [hpc] at h ⊢
  case frcLoop bit2 i stopFrc | pushToQueue bit2 i stopFrc =>
    exact ⟨h.1.advances hadvances hactive, fun hstop ↦ (h.2 hstop).advances hadvances⟩
  case setFrc val => exact fun hval ↦ (h hval).advances hadvances
  all_goals exact h.advances hadvances hactive

theorem Awaited.succ {i : ℕ} (h : s.Awaited i) (hi : (s.pm i).sync = false → s.Waits i) :
    s.Awaited (i + 1) := by
  intro j hj hsync
  rcases Nat.lt_succ_iff_lt_or_eq.mp hj with hlt | rfl
  · exact h j hlt hsync
  · exact hi hsync

/-- The steps of the scheduler's thread, along its program points. -/
theorem Covered.handler (h : s.Covered watched.length)
    (hmoves : Moves watched s (.handler handle) t) : t.Covered watched.length := by
  rw [Covered] at h
  cases hmoves with
  | @synced _ _ i _ at_pc sync =>
      rw [at_pc] at h
      refine ⟨h.1, fun hstop ↦ (h.2 hstop).succ fun hunsync ↦ ?_⟩
      rw [sync] at hunsync
      cases hunsync
  | alive at_pc =>
      rw [at_pc] at h
      exact h
  | silent at_pc =>
      rw [at_pc] at h
      exact ⟨h.1, fun hstop ↦ by cases hstop⟩
  | @looped _ _ i stopFrc at_pc last =>
      rw [at_pc] at h
      intro hval j hj hunsync
      have hstop : stopFrc = true := by simpa using hval
      exact h.2 hstop j (hj.trans_le last) hunsync
  | @pushToQueue _ bit2 i stopFrc at_pc =>
      rw [at_pc] at h
      have hpushed : Advances s { s with
          taskQueue := s.taskQueue ++ [i], handler := .frcLoop bit2 (i + 1) stopFrc } :=
        fun j hsync ↦ ⟨hsync, fun hwaits ↦ hwaits.imp_left (List.mem_append_left _)⟩
      refine ⟨h.1.advances hpushed rfl, fun hstop ↦ ?_⟩
      exact ((h.2 hstop).advances hpushed).succ fun _ ↦ Or.inl (by simp)
  | @setFrc _ val at_pc =>
      rw [at_pc] at h
      cases val with
      | true => exact Or.inl (setFrc_frcActive s true handle)
      | false => exact Or.inr (setFrc_awaited.mpr (h rfl))
  | handlerReads at_pc | handlerRemoves at_pc =>
      rw [at_pc] at h
      exact h
  | @handlerResets _ i lost at_pc =>
      rw [at_pc] at h
      have hsafe : (s.setTaskHandle i taskHandleInvalid).Safe watched.length :=
        h.advances (fun j hsync ↦ ⟨(setTaskHandle_sync i j).symm.trans hsync, id⟩) rfl
      cases lost <;> exact hsafe
  | resetSync => exact fun hval ↦ by cases hval

theorem Covered.step (h : s.Covered watched.length) {a : Action} (hmoves : Moves watched s a t) :
    t.Covered watched.length := by
  cases a with
  | handler handle => exact h.handler hmoves
  | worker handle =>
      obtain ⟨hactive, hhandler⟩ := frcActive_of_worker hmoves
      exact h.advances (advances_of_worker hmoves) hactive hhandler
  | fire task =>
      cases hmoves with
      | fire _ at_pc =>
          rw [Covered, at_pc] at h
          rcases handleTaskFromScheduler_cases watched task with htask | htask | ⟨i, htask⟩ <;>
            rw [htask] <;> exact h
  | frcFinished error bit2 =>
      cases hmoves with
      | frcFinished _ _ at_pc =>
          rw [Covered, at_pc] at h
          split
          · exact ⟨h, fun _ i hi ↦ absurd hi (Nat.not_lt_zero i)⟩
          · exact h
  | readFinished result =>
      cases hmoves with
      | readFinished _ at_pc =>
          rw [Covered, at_pc] at h
          split <;> exact h

end State

/-! ## Runs -/

structure Invariant (watched : List Word) (s : State) : Prop where
  handles : Handles s
  covered : s.Covered watched.length

theorem Invariant.start {schedule : Schedule} (hfresh : schedule.removeAllMyTasks.Fresh handle) :
    Invariant watched ((State.create schedule).start handle) where
  handles :=
    { frcTasks := rfl
      valid := fun _ ↦ hfresh.1
      held := by
        rintro - x (⟨i, rfl⟩ | hhandler | hworker)
        · exact hfresh.1.symm
        · cases hhandler
        · cases hworker }
  covered := Or.inl rfl

theorem Invariant.step {a : Action} (h : Invariant watched s) (hguard : Guard s a)
    (hstep : s.step watched a = some t) : Invariant watched t :=
  ⟨h.handles.step hguard (moves_of_step hstep), h.covered.step (moves_of_step hstep)⟩

theorem invariant_of_reachableVia (h : (service watched).ReachableVia Guard s) :
    Invariant watched s := by
  refine h.invariant ?_ fun s a t hs hguard hstep ↦ hs.step hguard hstep
  rintro s ⟨schedule, handle, hfresh, rfl⟩
  exact .start hfresh

/-- In every run in which FRC is never scheduled under a handle that is still held: between two
handlers a meter that is not synchronised is asked for by the scheduled FRC task, or is in the
queue or in the hands of its thread; and the FRC task is scheduled, once, exactly while FRC is
active. -/
theorem no_meter_lost (h : (service watched).ReachableVia Guard s) (hidle : s.handler = .idle) :
    (∀ i < watched.length, (s.pm i).sync = false →
      (s.frcActive = true ∧ (s.frcHandle, .sendFrc) ∈ s.schedule.tasks) ∨
        i ∈ s.taskQueue ∨ s.worker.meter = some i) ∧
      (s.schedule.tasks.filter fun entry ↦ entry.2 = .sendFrc).length =
        if s.frcActive then 1 else 0 := by
  obtain ⟨hhandles, hcovered⟩ := invariant_of_reachableVia h
  rw [State.Covered, hidle] at hcovered
  constructor
  · intro i hi hsync
    rcases hcovered with hactive | hawaited
    · exact Or.inl ⟨hactive, hhandles.mem_tasks hactive⟩
    · exact Or.inr ((hawaited i hi hsync).imp_right WorkerPc.meter_of_unsynced)
  · rw [← Schedule.frcTasks, hhandles.frcTasks]
    split <;> rfl

/-- The only meter was alive: FRC is stopped, and the meter is in the queue. -/
def meterAlive : State where
  pm _ := {}
  frcHandle := 1
  frcActive := false
  taskQueue := [0]
  schedule := ⟨[]⟩
  handler := .idle
  worker := .idle

/-- The contract is kept, and FRC is not scheduled at all. -/
def contractWithoutFrc (s : State) (a : Action) : Bool :=
  decide (Contract s a) &&
    match s.handler with
    | .setFrc val => !val
    | _ => true

theorem guard_of_contractWithoutFrc {a : Action} (h : contractWithoutFrc s a = true) :
    Guard s a := by
  obtain ⟨hcontract, hfrc⟩ := Bool.and_eq_true_iff.mp h
  refine ⟨of_decide_eq_true hcontract, ?_⟩
  cases a with
  | handler handle =>
      rw [KeepsApart]
      cases hpc : s.handler with
      | setFrc val =>
          rw [hpc] at hfrc
          exact fun hval ↦ absurd hfrc (by simp [hval])
      | _ => exact trivial
  | _ => exact trivial

theorem meterAlive_reachableVia : (service [1]).ReachableVia Guard meterAlive := by
  have hrun : (service [1]).runIf contractWithoutFrc ((State.create ⟨[]⟩).start 1)
      [.fire .sendFrc, .frcFinished 0 fun _ ↦ true, .handler 2, .handler 2, .handler 2,
        .handler 2] = some meterAlive := rfl
  refine ⟨(State.create ⟨[]⟩).start 1, ⟨⟨[]⟩, 1, by decide, rfl⟩, ?_⟩
  exact System.reaches_of_runIf _ (fun _ _ ↦ guard_of_contractWithoutFrc) hrun

theorem no_meter_lost_alive :
    (∀ i < [(1 : Word)].length, (meterAlive.pm i).sync = false →
      (meterAlive.frcActive = true ∧
          (meterAlive.frcHandle, .sendFrc) ∈ meterAlive.schedule.tasks) ∨
        i ∈ meterAlive.taskQueue ∨ meterAlive.worker.meter = some i) ∧
      (meterAlive.schedule.tasks.filter fun entry ↦ entry.2 = .sendFrc).length =
        if meterAlive.frcActive then 1 else 0 :=
  no_meter_lost meterAlive_reachableVia rfl

/-! ## A handle that comes again -/

/-- The FRC command finds the meter alive, and FRC is stopped. -/
def alive : List Action :=
  [.fire .sendFrc, .frcFinished 0 fun _ ↦ true, .handler 9, .handler 9, .handler 9, .handler 9]

/-- A reading runs into the timeout, and FRC is scheduled under this handle. -/
def lost (handle : TaskHandle) : List Action :=
  [.fire (.sendPmt 1), .readFinished (-1), .handler 9, .handler 9, .handler 9, .handler 9,
    .handler handle]

/-- The first time the meter is lost before the queue's thread stores its handle 2, so the meter
has this handle without being synchronised.  The second time the queue's thread already has it
in hand when the other one removes it, and the scheduler gives it to the FRC task. -/
def handleReused : List Action :=
  alive ++ [.worker 9, .worker 9, .worker 9, .worker 9, .worker 9, .worker 9, .worker 2] ++
    lost 3 ++ [.worker 9] ++ alive ++ [.worker 9, .worker 9, .worker 9, .worker 9] ++
    lost 2 ++ [.worker 9, .worker 9, .worker 5, .worker 9]

/-- The meter is not synchronised, FRC is active and its task is gone. -/
def meterLost : State :=
  ((service [1]).run ((State.create ⟨[]⟩).start 1) handleReused).getD (State.create ⟨[]⟩)

theorem meterLost_reachableVia : (service [1]).ReachableVia Contract meterLost := by
  have hrun : (service [1]).runIf (fun s a ↦ decide (Contract s a))
      ((State.create ⟨[]⟩).start 1) handleReused = some meterLost := rfl
  refine ⟨(State.create ⟨[]⟩).start 1, ⟨⟨[]⟩, 1, by decide, rfl⟩, ?_⟩
  exact System.reaches_of_runIf _ (fun _ _ h ↦ of_decide_eq_true h) hrun

theorem meter_lost :
    ¬ ∀ s, (service [1]).ReachableVia Contract s → s.handler = .idle →
      (∀ i < [(1 : Word)].length, (s.pm i).sync = false →
        (s.frcActive = true ∧ (s.frcHandle, .sendFrc) ∈ s.schedule.tasks) ∨
          i ∈ s.taskQueue ∨ s.worker.meter = some i) ∧
        (s.schedule.tasks.filter fun entry ↦ entry.2 = .sendFrc).length =
          if s.frcActive then 1 else 0 := by
  intro h
  have hcount := (h meterLost meterLost_reachableVia rfl).2
  exact absurd hcount (by decide)

end IqrfDaemon.PulseMeter
