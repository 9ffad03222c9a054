import IqrfDaemon.TaskQueue.Fifo

/-!
# The controller's transaction worker among mode switches

`DaemonController` owns the queue of DPA transactions, whose worker runs
`executeDpaTransactionFunc` on each of them.  Mode switches hold `m_modeMtx`
from entry to exit and may delete the DPA handler or create it anew, in which
case they submit a transaction of their own and wait for it.  Therefore the
worker only tries to lock that mutex and goes on without it.  The DPA handler
is outside the daemon: it finishes its argument once and returns, or throws.
-/

namespace IqrfDaemon.Controller

open Transition

inductive Mode
  | operational
  | forwarding
  | service
  deriving DecidableEq

/-- A transaction of a client, the one `UdpMessaging` owns, or the wrapper that
`UdpMessaging` puts around a transaction to forward its messages. -/
inductive DpaTransaction
  | client (ticket : ℕ)
  | operational
  | sniffer (forwarded : DpaTransaction)
  deriving DecidableEq

/-- The clients whose transactions a call of `processFinish` finishes. -/
def DpaTransaction.processFinish : DpaTransaction → List ℕ
  | client ticket => [ticket]
  | operational => []
  | sniffer forwarded => forwarded.processFinish

/-- `UdpMessaging::getDpaTransactionForward`; its own transaction is only copied. -/
def getDpaTransactionForward (forwarded : DpaTransaction) : DpaTransaction :=
  if forwarded = .operational then .operational else .sniffer forwarded

/-- Program points of `executeDpaTransactionFunc`.  `switch` has read `m_mode`;
`executing` is inside `m_dpaHandler->ExecuteDpaTransaction`, before or after it has
finished its argument; `finishError` is about to finish with an error. -/
inductive ExecPc
  | idle
  | tryLock (n : ℕ)
  | readMode (n : ℕ) (locked : Bool)
  | switch (n : ℕ) (locked : Bool) (mode : Mode)
  | executing (n : ℕ) (locked : Bool) (target : DpaTransaction) (finished : Bool)
  | finishError (n : ℕ) (locked : Bool)
  | unlock (n : ℕ) (locked : Bool)
  | watchDogPet (n : ℕ)
  | returned (n : ℕ)
  deriving DecidableEq

namespace ExecPc

def inside : ExecPc → Bool
  | executing .. => true
  | _ => false

/-- Whether this call owns `m_modeMtx`. -/
def owns : ExecPc → Bool
  | readMode _ locked | switch _ locked _ | executing _ locked _ _ | finishError _ locked
  | unlock _ locked => locked
  | _ => false

/-- The transaction of the present call. -/
def task : ExecPc → List ℕ
  | idle => []
  | tryLock n | readMode n _ | switch n _ _ | executing n _ _ _ | finishError n _ | unlock n _
  | watchDogPet n | returned n => [n]

/-- The transaction of the present call, once it is finished. -/
def done : ExecPc → List ℕ
  | executing n _ _ true | unlock n _ | watchDogPet n | returned n => [n]
  | _ => []

end ExecPc

/-- Program points of `setMode`, which holds `m_modeMtx` at all of them but `idle`.
`newHandler` to `waitFinish` are `startDpa`. -/
inductive SetterPc
  | idle
  | switch (mode : Mode)
  | resetExclusive (mode : Mode)
  | storeMode (mode : Mode)
  | newHandler (mode : Mode)
  | submit (mode : Mode)
  | waitFinish (mode : Mode) (ticket : ℕ)
  | storeService
  | stopDpa
  | setExclusive
  | finalMode (mode : Mode)
  | unlock
  deriving DecidableEq

/-- How far `DaemonController::stop` has come. -/
inductive StopPc
  | running
  | queueStopped
  | handlerDeleted
  | joining
  | queueDeleted
  deriving DecidableEq

inductive Owner
  | worker
  | setter
  deriving DecidableEq

/-- The members of `DaemonController` that transactions and mode switches touch, where
a Boolean tells whether a pointer is set, and the history of `processFinish`.
Tickets number the pushed transactions. -/
structure State where
  queue : TaskQueue.State ℕ
  mode : Mode
  modeMtx : Option Owner
  dpaHandler : Bool
  dpaExclusiveAccess : Bool
  dpaMessageForwarding : Bool
  exclusiveChannel : Bool
  exec : ExecPc
  setter : SetterPc
  stop : StopPc
  finished : List ℕ
  deriving DecidableEq

/-- `exec` is the worker's next step in `executeDpaTransactionFunc`, and `dpaFinish`,
`dpaReturn` and `dpaThrow` are what the DPA handler does while it is executing.
`setter` is the next step of the mode switch, where the DPA handler is created or
not. -/
inductive Action
  | executeDpaTransaction
  | notifyAll
  | spuriousWakeup
  | worker
  | exec
  | dpaFinish
  | dpaReturn
  | dpaThrow
  | setMode (mode : Mode)
  | setter (created : Bool)
  | stop

namespace State

def create (dpaHandler dpaExclusiveAccess dpaMessageForwarding : Bool) : State where
  queue := .create
  mode := .operational
  modeMtx := none
  dpaHandler := dpaHandler
  dpaExclusiveAccess := dpaExclusiveAccess
  dpaMessageForwarding := dpaMessageForwarding
  exclusiveChannel := false
  exec := .idle
  setter := .idle
  stop := .running
  finished := []

def ticket (s : State) : ℕ := s.queue.pushed.length

/-- A step of the queue, with the program points the other parties go to. -/
def queueStep (s : State) (a : TaskQueue.Action ℕ) (exec : ExecPc) (setter : SetterPc)
    (stop : StopPc) : Option State :=
  (s.queue.step a).map fun queue ↦
    { s with queue := queue, exec := exec, setter := setter, stop := stop }

def workerStep (s : State) : Option State :=
  match s.queue.worker with
  | .taken n => s.queueStep .worker (.tryLock n) s.setter s.stop
  | _ => s.queueStep .worker s.exec s.setter s.stop

/-- What the worker does with a transaction in the mode it has read. -/
def execute (s : State) (n : ℕ) (locked : Bool) : Mode → ExecPc
  | .operational =>
      if s.dpaHandler then .executing n locked (.client n) false else .finishError n locked
  | .forwarding =>
      if s.dpaHandler && s.dpaMessageForwarding then
        .executing n locked (getDpaTransactionForward (.client n)) false
      else .finishError n locked
  | .service => .finishError n locked

def execStep (s : State) : Option State :=
  match s.exec with
  | .tryLock n =>
      if s.modeMtx = none then some { s with modeMtx := some .worker, exec := .readMode n true }
      else some { s with exec := .readMode n false }
  | .readMode n locked => some { s with exec := .switch n locked s.mode }
  | .switch n locked mode => some { s with exec := s.execute n locked mode }
  | .finishError n locked => some { s with finished := s.finished ++ [n], exec := .unlock n locked }
  | .unlock n locked =>
      some { s with modeMtx := if locked then none else s.modeMtx, exec := .watchDogPet n }
  | .watchDogPet n => some { s with exec := .returned n }
  | .returned _ => s.queueStep .processed .idle s.setter s.stop
  | _ => none

def dpaStep (s : State) (act : ℕ → Bool → DpaTransaction → Bool → Option State) : Option State :=
  match s.exec with
  | .executing n locked target finished => act n locked target finished
  | _ => none

/-- The branches of `setMode` before its first effect. -/
def setterSwitch (s : State) : Mode → SetterPc
  | .operational =>
      if s.dpaExclusiveAccess && s.mode = .service then .resetExclusive .operational
      else .finalMode .operational
  | .forwarding =>
      if s.dpaExclusiveAccess then
        if s.mode = .service then .resetExclusive .forwarding else .finalMode .forwarding
      else .unlock
  | .service => if s.dpaExclusiveAccess then .storeService else .unlock

def setterStep (s : State) (created : Bool) : Option State :=
  match s.setter with
  | .idle => none
  | .switch mode => some { s with setter := s.setterSwitch mode }
  | .resetExclusive mode => some { s with exclusiveChannel := false, setter := .storeMode mode }
  | .storeMode mode => some { s with mode := mode, setter := .newHandler mode }
  | .newHandler mode =>
      if created then some { s with dpaHandler := true, setter := .submit mode }
      else some { s with setter := .finalMode mode }
  | .submit mode => s.queueStep (.pushToQueue s.ticket) s.exec (.waitFinish mode s.ticket) s.stop
  | .waitFinish mode n =>
      if n ∈ s.finished then some { s with setter := .finalMode mode } else none
  | .storeService => some { s with mode := .service, setter := .stopDpa }
  | .stopDpa => some { s with dpaHandler := false, setter := .setExclusive }
  | .setExclusive => some { s with exclusiveChannel := true, setter := .finalMode .service }
  | .finalMode mode => some { s with mode := mode, setter := .unlock }
  | .unlock => some { s with modeMtx := none, setter := .idle }

/-- `DaemonController::stop`: stop the queue, delete the DPA handler, and delete the
queue, which stops it once more and joins its worker. -/
def stopStep (s : State) : Option State :=
  match s.stop with
  | .running => s.queueStep .stopQueue s.exec s.setter .queueStopped
  | .queueStopped => some { s with dpaHandler := false, stop := .handlerDeleted }
  | .handlerDeleted => s.queueStep .stopQueue s.exec s.setter .joining
  | .joining => if s.queue.worker = .exited then some { s with stop := .queueDeleted } else none
  | .queueDeleted => none

def step (s : State) : Action → Option State
  | .executeDpaTransaction =>
      if s.stop = .queueDeleted then none
      else s.queueStep (.pushToQueue s.ticket) s.exec s.setter s.stop
  | .notifyAll => s.queueStep .notifyAll s.exec s.setter s.stop
  | .spuriousWakeup => s.queueStep .spuriousWakeup s.exec s.setter s.stop
  | .worker => s.workerStep
  | .exec => s.execStep
  | .dpaFinish => s.dpaStep fun n locked target finished ↦
      if finished then none
      else some { s with
        finished := s.finished ++ target.processFinish
        exec := .executing n locked target true }
  | .dpaReturn => s.dpaStep fun n locked _ finished ↦
      if finished then some { s with exec := .unlock n locked } else none
  | .dpaThrow => s.dpaStep fun n locked _ finished ↦
      if finished then none else some { s with exec := .finishError n locked }
  | .setMode mode =>
      if s.modeMtx = none then some { s with modeMtx := some .setter, setter := .switch mode }
      else none
  | .setter created => s.setterStep created
  | .stop => s.stopStep

end State

def system : System State Action where
  init s := ∃ dpaHandler dpaExclusiveAccess dpaMessageForwarding,
    s = State.create dpaHandler dpaExclusiveAccess dpaMessageForwarding
  step := State.step

/-! ## What one step can do -/

/-- The steps, each with the program point it starts from. -/
inductive Moves (s : State) : Action → State → Prop
  | push (queue : TaskQueue.State ℕ) (alive : s.stop ≠ .queueDeleted)
      (moved : s.queue.step (.pushToQueue s.ticket) = some queue) :
      Moves s .executeDpaTransaction { s with queue := queue }
  | signal (a : Action) (b : TaskQueue.Action ℕ) (queue : TaskQueue.State ℕ)
      (is_signal : a = .notifyAll ∧ b = .notifyAll ∨ a = .spuriousWakeup ∧ b = .spuriousWakeup ∨
        a = .worker ∧ b = .worker ∧ ∀ n, s.queue.worker ≠ .taken n)
      (moved : s.queue.step b = some queue) : Moves s a { s with queue := queue }
  | hand (n : ℕ) (queue : TaskQueue.State ℕ) (at_pc : s.queue.worker = .taken n)
      (moved : s.queue.step .worker = some queue) :
      Moves s .worker { s with queue := queue, exec := .tryLock n }
  | lock (n : ℕ) (at_pc : s.exec = .tryLock n) (free : s.modeMtx = none) :
      Moves s .exec { s with modeMtx := some .worker, exec := .readMode n true }
  | lockFails (n : ℕ) (at_pc : s.exec = .tryLock n) (held : s.modeMtx ≠ none) :
      Moves s .exec { s with exec := .readMode n false }
  | readMode (n : ℕ) (locked : Bool) (at_pc : s.exec = .readMode n locked) :
      Moves s .exec { s with exec := .switch n locked s.mode }
  | switch (n : ℕ) (locked : Bool) (mode : Mode) (at_pc : s.exec = .switch n locked mode) :
      Moves s .exec { s with exec := s.execute n locked mode }
  | finishError (n : ℕ) (locked : Bool) (at_pc : s.exec = .finishError n locked) :
      Moves s .exec { s with finished := s.finished ++ [n], exec := .unlock n locked }
  | unlock (n : ℕ) (locked : Bool) (at_pc : s.exec = .unlock n locked) :
      Moves s .exec
        { s with modeMtx := if locked then none else s.modeMtx, exec := .watchDogPet n }
  | watchDogPet (n : ℕ) (at_pc : s.exec = .watchDogPet n) :
      Moves s .exec { s with exec := .returned n }
  | returned (n : ℕ) (queue : TaskQueue.State ℕ) (at_pc : s.exec = .returned n)
      (moved : s.queue.step .processed = some queue) :
      Moves s .exec { s with queue := queue, exec := .idle }
  | dpaFinish (n : ℕ) (locked : Bool) (target : DpaTransaction)
      (at_pc : s.exec = .executing n locked target false) :
      Moves s .dpaFinish
        { s with
          finished := s.finished ++ target.processFinish
          exec := .executing n locked target true }
  | dpaReturn (n : ℕ) (locked : Bool) (target : DpaTransaction)
      (at_pc : s.exec = .executing n locked target true) :
      Moves s .dpaReturn { s with exec := .unlock n locked }
  | dpaThrow (n : ℕ) (locked : Bool) (target : DpaTransaction)
      (at_pc : s.exec = .executing n locked target false) :
      Moves s .dpaThrow { s with exec := .finishError n locked }
  | setMode (mode : Mode) (free : s.modeMtx = none) :
      Moves s (.setMode mode) { s with modeMtx := some .setter, setter := .switch mode }
  | setterSwitch (created : Bool) (mode : Mode) (at_pc : s.setter = .switch mode) :
      Moves s (.setter created) { s with setter := s.setterSwitch mode }
  | resetExclusive (created : Bool) (mode : Mode) (at_pc : s.setter = .resetExclusive mode) :
      Moves s (.setter created) { s with exclusiveChannel := false, setter := .storeMode mode }
  | storeMode (created : Bool) (mode : Mode) (at_pc : s.setter = .storeMode mode) :
      Moves s (.setter created) { s with mode := mode, setter := .newHandler mode }
  | newHandler (mode : Mode) (at_pc : s.setter = .newHandler mode) :
      Moves s (.setter true) { s with dpaHandler := true, setter := .submit mode }
  | noHandler (mode : Mode) (at_pc : s.setter = .newHandler mode) :
      Moves s (.setter false) { s with setter := .finalMode mode }
  | submit (created : Bool) (mode : Mode) (queue : TaskQueue.State ℕ)
      (at_pc : s.setter = .submit mode)
      (moved : s.queue.step (.pushToQueue s.ticket) = some queue) :
      Moves s (.setter created) { s with queue := queue, setter := .waitFinish mode s.ticket }
  | waitFinish (created : Bool) (mode : Mode) (n : ℕ) (at_pc : s.setter = .waitFinish mode n)
      (finished : n ∈ s.finished) :
      Moves s (.setter created) { s with setter := .finalMode mode }
  | storeService (created : Bool) (at_pc : s.setter = .storeService) :
      Moves s (.setter created) { s with mode := .service, setter := .stopDpa }
  | stopDpa (created : Bool) (at_pc : s.setter = .stopDpa) :
      Moves s (.setter created) { s with dpaHandler := false, setter := .setExclusive }
  | setExclusive (created : Bool) (at_pc : s.setter = .setExclusive) :
      Moves s (.setter created)
        { s with exclusiveChannel := true, setter := .finalMode .service }
  | finalMode (created : Bool) (mode : Mode) (at_pc : s.setter = .finalMode mode) :
      Moves s (.setter created) { s with mode := mode, setter := .unlock }
  | setterUnlock (created : Bool) (at_pc : s.setter = .unlock) :
      Moves s (.setter created) { s with modeMtx := none, setter := .idle }
  | stopQueue (queue : TaskQueue.State ℕ) (at_pc : s.stop = .running)
      (moved : s.queue.step .stopQueue = some queue) :
      Moves s .stop { s with queue := queue, stop := .queueStopped }
  | deleteHandler (at_pc : s.stop = .queueStopped) :
      Moves s .stop { s with dpaHandler := false, stop := .handlerDeleted }
  | destroyQueue (queue : TaskQueue.State ℕ) (at_pc : s.stop = .handlerDeleted)
      (moved : s.queue.step .stopQueue = some queue) :
      Moves s .stop { s with queue := queue, stop := .joining }
  | join (at_pc : s.stop = .joining) (exited : s.queue.worker = .exited) :
      Moves s .stop { s with stop := .queueDeleted }

variable {s t : State}

theorem queueStep_eq_some {a : TaskQueue.Action ℕ} {exec : ExecPc} {setter : SetterPc}
    {stop : StopPc} (h : s.queueStep a exec setter stop = some t) :
    ∃ queue, s.queue.step a = some queue ∧
      t = { s with queue := queue, exec := exec, setter := setter, stop := stop } := by
  obtain ⟨queue, hmoved, rfl⟩ := Option.map_eq_some_iff.mp h
  exact ⟨queue, hmoved, rfl⟩

theorem moves_of_workerStep (h : s.workerStep = some t) : Moves s .worker t := by
  unfold State.workerStep at h
  split at h
  case h_1 n hpc =>
    obtain ⟨queue, hmoved, rfl⟩ := queueStep_eq_some h
    exact .hand n queue hpc hmoved
  case h_2 hpc =>
    obtain ⟨queue, hmoved, rfl⟩ := queueStep_eq_some h
    exact .signal .worker .worker queue (Or.inr (Or.inr ⟨rfl, rfl, hpc⟩)) hmoved

theorem moves_of_execStep (h : s.execStep = some t) : Moves s .exec t := by
  unfold State.execStep at h
  cases hpc : s.exec with
  | idle => simp [hpc] at h
  | tryLock n =>
      by_cases hfree : s.modeMtx = none
      · obtain rfl : { s with modeMtx := some .worker, exec := .readMode n true } = t := by
          simpa [hpc, hfree] using h
        exact .lock n hpc hfree
      · obtain rfl : { s with exec := .readMode n false } = t := by simpa [hpc, hfree] using h
        exact .lockFails n hpc hfree
  | readMode n locked =>
      obtain rfl : { s with exec := .switch n locked s.mode } = t := by simpa [hpc] using h
      exact .readMode n locked hpc
  | switch n locked mode =>
      obtain rfl : { s with exec := s.execute n locked mode } = t := by simpa [hpc] using h
      exact .switch n locked mode hpc
  | executing n locked target finished => simp [hpc] at h
  | finishError n locked =>
      obtain rfl : { s with finished := s.finished ++ [n], exec := .unlock n locked } = t := by
        simpa [hpc] using h
      exact .finishError n locked hpc
  | unlock n locked =>
      obtain rfl : { s with
          modeMtx := if locked then none else s.modeMtx
          exec := .watchDogPet n } = t := by
        simpa only [hpc, Option.some.injEq] using h
      exact .unlock n locked hpc
  | watchDogPet n =>
      obtain rfl : { s with exec := .returned n } = t := by simpa [hpc] using h
      exact .watchDogPet n hpc
  | returned n =>
      simp only [hpc] at h
      obtain ⟨queue, hmoved, rfl⟩ := queueStep_eq_some h
      exact .returned n queue hpc hmoved

theorem dpaStep_eq_some {act : ℕ → Bool → DpaTransaction → Bool → Option State}
    (h : s.dpaStep act = some t) :
    ∃ n locked target finished, s.exec = .executing n locked target finished ∧
      act n locked target finished = some t := by
  unfold State.dpaStep at h
  split at h
  case h_1 n locked target finished hpc => exact ⟨n, locked, target, finished, hpc, h⟩
  case h_2 => simp at h

theorem moves_of_setterStep {created : Bool} (h : s.setterStep created = some t) :
    Moves s (.setter created) t := by
  unfold State.setterStep at h
  cases hpc : s.setter with
  | idle => simp [hpc] at h
  | switch mode =>
      obtain rfl : { s with setter := s.setterSwitch mode } = t := by simpa [hpc] using h
      exact .setterSwitch created mode hpc
  | resetExclusive mode =>
      obtain rfl : { s with exclusiveChannel := false, setter := .storeMode mode } = t := by
        simpa [hpc] using h
      exact .resetExclusive created mode hpc
  | storeMode mode =>
      obtain rfl : { s with mode := mode, setter := .newHandler mode } = t := by
        simpa [hpc] using h
      exact .storeMode created mode hpc
  | newHandler mode =>
      cases created with
      | true =>
          obtain rfl : { s with dpaHandler := true, setter := .submit mode } = t := by
            simpa [hpc] using h
          exact .newHandler mode hpc
      | false =>
          obtain rfl : { s with setter := .finalMode mode } = t := by simpa [hpc] using h
          exact .noHandler mode hpc
  | submit mode =>
      simp only [hpc] at h
      obtain ⟨queue, hmoved, rfl⟩ := queueStep_eq_some h
      exact .submit created mode queue hpc hmoved
  | waitFinish mode n =>
      simp only [hpc, Option.ite_none_right_eq_some] at h
      obtain ⟨hfinished, h⟩ := h
      obtain rfl := Option.some.inj h
      exact .waitFinish created mode n hpc hfinished
  | storeService =>
      obtain rfl : { s with mode := .service, setter := .stopDpa } = t := by simpa [hpc] using h
      exact .storeService created hpc
  | stopDpa =>
      obtain rfl : { s with dpaHandler := false, setter := .setExclusive } = t := by
        simpa [hpc] using h
      exact .stopDpa created hpc
  | setExclusive =>
      obtain rfl : { s with exclusiveChannel := true, setter := .finalMode .service } = t := by
        simpa [hpc] using h
      exact .setExclusive created hpc
  | finalMode mode =>
      obtain rfl : { s with mode := mode, setter := .unlock } = t := by simpa [hpc] using h
      exact .finalMode created mode hpc
  | unlock =>
      obtain rfl : { s with modeMtx := none, setter := .idle } = t := by simpa [hpc] using h
      exact .setterUnlock created hpc

theorem moves_of_stopStep (h : s.stopStep = some t) : Moves s .stop t := by
  unfold State.stopStep at h
  cases hpc : s.stop with
  | running =>
      simp only [hpc] at h
      obtain ⟨queue, hmoved, rfl⟩ := queueStep_eq_some h
      exact .stopQueue queue hpc hmoved
  | queueStopped =>
      obtain rfl : { s with dpaHandler := false, stop := .handlerDeleted } = t := by
        simpa [hpc] using h
      exact .deleteHandler hpc
  | handlerDeleted =>
      simp only [hpc] at h
      obtain ⟨queue, hmoved, rfl⟩ := queueStep_eq_some h
      exact .destroyQueue queue hpc hmoved
  | joining =>
      simp only [hpc, Option.ite_none_right_eq_some] at h
      obtain ⟨hexited, h⟩ := h
      obtain rfl := Option.some.inj h
      exact .join hpc hexited
  | queueDeleted => simp [hpc] at h

theorem moves_of_step {a : Action} (h : s.step a = some t) : Moves s a t := by
  cases a with
  | executeDpaTransaction =>
      simp only [State.step, Option.ite_none_left_eq_some] at h
      obtain ⟨halive, h⟩ := h
      obtain ⟨queue, hmoved, rfl⟩ := queueStep_eq_some h
      exact .push queue halive hmoved
  | notifyAll =>
      obtain ⟨queue, hmoved, rfl⟩ := queueStep_eq_some h
      exact .signal .notifyAll .notifyAll queue (Or.inl ⟨rfl, rfl⟩) hmoved
  | spuriousWakeup =>
      obtain ⟨queue, hmoved, rfl⟩ := queueStep_eq_some h
      exact .signal .spuriousWakeup .spuriousWakeup queue (Or.inr (Or.inl ⟨rfl, rfl⟩)) hmoved
  | worker => exact moves_of_workerStep h
  | exec => exact moves_of_execStep h
  | dpaFinish =>
      obtain ⟨n, locked, target, finished, hpc, h⟩ := dpaStep_eq_some h
      rw [Option.ite_none_left_eq_some] at h
      obtain ⟨hfinished, h⟩ := h
      obtain rfl := Option.some.inj h
      rw [Bool.not_eq_true] at hfinished
      exact .dpaFinish n locked target (by rw [hpc, hfinished])
  | dpaReturn =>
      obtain ⟨n, locked, target, finished, hpc, h⟩ := dpaStep_eq_some h
      rw [Option.ite_none_right_eq_some] at h
      obtain ⟨hfinished, h⟩ := h
      obtain rfl := Option.some.inj h
      exact .dpaReturn n locked target (by rw [hpc, hfinished])
  | dpaThrow =>
      obtain ⟨n, locked, target, finished, hpc, h⟩ := dpaStep_eq_some h
      rw [Option.ite_none_left_eq_some] at h
      obtain ⟨hfinished, h⟩ := h
      obtain rfl := Option.some.inj h
      rw [Bool.not_eq_true] at hfinished
      exact .dpaThrow n locked target (by rw [hpc, hfinished])
  | setMode mode =>
      simp only [State.step, Option.ite_none_right_eq_some] at h
      obtain ⟨hfree, h⟩ := h
      obtain rfl := Option.some.inj h
      exact .setMode mode hfree
  | setter created => exact moves_of_setterStep h
  | stop => exact moves_of_stopStep h

end IqrfDaemon.Controller
