import IqrfDaemon.Transition.System

/-!
# Stopping the MQTT connection

`MqttMessagingImpl` runs a thread that tries to connect until it is connected or
told to stop.  `start()` begins it; so does `connlost`, which the library calls
from a thread of its own, at any time while the client exists.  `stop()` sets the
flag the loop looks at, and then joins the thread.
-/

namespace IqrfDaemon.Mqtt

open Transition

/-- Program points of `connect()`, in the order of its statements. -/
inductive ConnectPc
  | resetStop
  | resetConnected
  | testJoinable
  | join
  | startThread
  deriving DecidableEq

/-- Program points of `connectThread()`: before `MQTTAsync_connect`, before the first look
at the predicate, and blocked in `wait_for`. -/
inductive LoopPc
  | connecting
  | enterWait
  | waiting
  | left
  deriving DecidableEq

/-- Program points of the thread that calls `start()` and later `stop()`. -/
inductive MainPc
  | starting (pc : ConnectPc)
  | started
  | setStop
  | connectFailure
  | testJoinable
  | join
  | disconnect
  | waitDisconnect
  | destroy
  | stopped
  deriving DecidableEq

/-- Whether `stop()` has set `m_stopAutoConnect`. -/
def MainPc.stopSet : MainPc → Bool
  | starting _ | started | setStop => false
  | _ => true

/-- Whether the library calls back. -/
def MainPc.hasClient : MainPc → Bool
  | starting _ | stopped => false
  | _ => true

/-- The flags, the thread in `m_connectThread` if it is joinable, the `connect()` that a
connection loss has begun, and how many threads have been started. -/
structure State where
  stopAutoConnect : Bool
  connected : Bool
  connectThread : Option LoopPc
  main : MainPc
  connlost : Option ConnectPc
  threads : ℕ
  deriving DecidableEq

def State.create : State where
  stopAutoConnect := false
  connected := false
  connectThread := none
  main := .starting .resetStop
  connlost := none
  threads := 0

/-- The next step of `start()` and `stop()`, the call of `stop()`, the report of a lost
connection and the next step of its `connect()`, the outcomes of a connection attempt, and
the steps of the connect thread: an attempt, the first look at the predicate, a look after
a wake-up and the one after the time is over. -/
inductive Action
  | main
  | stop
  | connlost
  | reconnect
  | onConnect
  | onConnectFailure
  | tryConnect
  | enterWait
  | wakeup
  | timeout
  deriving DecidableEq

namespace State

/-- A step of `connect()` and where it goes on.  The thread is joined when it has left its
loop.  A join without a thread and an assignment over a joinable one end the process. -/
def connectStep (s : State) : ConnectPc → Option (Option ConnectPc × State)
  | .resetStop => some (some .resetConnected, { s with stopAutoConnect := false })
  | .resetConnected => some (some .testJoinable, { s with connected := false })
  | .testJoinable =>
      some (if s.connectThread.isSome then some .join else some .startThread, s)
  | .join =>
      if s.connectThread = some .left then
        some (some .startThread, { s with connectThread := none })
      else none
  | .startThread =>
      if s.connectThread.isSome then none
      else some (none, { s with connectThread := some .connecting, threads := s.threads + 1 })

def mainStep (s : State) : Option State :=
  match s.main with
  | .starting pc => (s.connectStep pc).map fun next ↦
      { next.2 with main := next.1.elim .started .starting }
  | .started => none
  | .setStop => some { s with stopAutoConnect := true, main := .connectFailure }
  | .connectFailure => some { s with connected := false, main := .testJoinable }
  | .testJoinable =>
      some { s with main := if s.connectThread.isSome then .join else .disconnect }
  | .join =>
      if s.connectThread = some .left then
        some { s with connectThread := none, main := .disconnect }
      else none
  | .disconnect => some { s with main := .waitDisconnect }
  | .waitDisconnect => some { s with main := .destroy }
  | .destroy => some { s with main := .stopped }
  | .stopped => none

def reconnectStep (s : State) : Option State :=
  match s.connlost with
  | none => none
  | some pc => (s.connectStep pc).map fun next ↦ { next.2 with connlost := next.1 }

/-- The predicate of `wait_for`. -/
def predicate (s : State) : Bool := s.connected || s.stopAutoConnect

/-- A look at the predicate leaves the loop or goes on. -/
def check (s : State) (goOn : LoopPc) : State :=
  { s with connectThread := some (if s.predicate then .left else goOn) }

def step (s : State) : Action → Option State
  | .main => s.mainStep
  | .stop => if s.main = .started then some { s with main := .setStop } else none
  | .connlost =>
      if s.main.hasClient ∧ s.connlost = none then some { s with connlost := some .resetStop }
      else none
  | .reconnect => s.reconnectStep
  | .onConnect => if s.main.hasClient then some { s with connected := true } else none
  | .onConnectFailure => if s.main.hasClient then some { s with connected := false } else none
  | .tryConnect =>
      if s.connectThread = some .connecting then some { s with connectThread := some .enterWait }
      else none
  | .enterWait => if s.connectThread = some .enterWait then some (s.check .waiting) else none
  | .wakeup => if s.connectThread = some .waiting then some (s.check .waiting) else none
  | .timeout => if s.connectThread = some .waiting then some (s.check .connecting) else none

end State

/-- All interleavings of `stop()`, the callbacks and the connect thread. -/
def system : System State Action where
  init s := s = State.create
  step := State.step

/-- No connection loss is being handled when `stop()` sets the flag, and none is reported
afterwards. -/
def Undisturbed (s : State) : Action → Prop
  | .main => s.main = .setStop → s.connlost = none
  | .connlost => s.main.stopSet = false
  | _ => True

instance (s : State) (a : Action) : Decidable (Undisturbed s a) :=
  match a with
  | .main => inferInstanceAs (Decidable (s.main = .setStop → s.connlost = none))
  | .connlost => inferInstanceAs (Decidable (s.main.stopSet = false))
  | .stop | .reconnect | .onConnect | .onConnectFailure | .tryConnect | .enterWait | .wakeup
  | .timeout => inferInstanceAs (Decidable True)

/-- The looks at the predicate. -/
def Action.looks : Action → Bool
  | enterWait | wakeup | timeout => true
  | _ => false

/-! ## After the flag is set -/

/-- `stop()` has set the flag, the flag is still set, and nobody is about to reset it. -/
structure Stopping (s : State) : Prop where
  set : s.main.stopSet = true
  flag : s.stopAutoConnect = true
  calm : s.connlost = none

variable {s t : State} {a : Action}

/-- The steps of `stop()` behind the one that sets the flag. -/
theorem Stopping.main_step (hs : Stopping s) (h : s.mainStep = some t) :
    Stopping t ∧ t.threads = s.threads := by
  obtain ⟨hset, hflag, hcalm⟩ := hs
  unfold State.mainStep at h
  split at h
  case h_1 pc hmain =>
    rw [hmain] at hset
    cases hset
  case h_2 hmain => cases h
  case h_3 hmain =>
    rw [hmain] at hset
    cases hset
  case h_4 =>
    cases h
    exact ⟨⟨rfl, hflag, hcalm⟩, rfl⟩
  case h_5 =>
    cases h
    refine ⟨⟨?_, hflag, hcalm⟩, rfl⟩
    dsimp only
    split <;> rfl
  case h_6 =>
    split at h
    · cases h
      exact ⟨⟨rfl, hflag, hcalm⟩, rfl⟩
    · cases h
  case h_10 => cases h
  all_goals
    cases h
    exact ⟨⟨rfl, hflag, hcalm⟩, rfl⟩

theorem Stopping.step (hs : Stopping s) (hundisturbed : Undisturbed s a)
    (h : s.step a = some t) : Stopping t ∧ t.threads = s.threads := by
  obtain ⟨hset, hflag, hcalm⟩ := hs
  cases a with
  | main => exact Stopping.main_step ⟨hset, hflag, hcalm⟩ h
  | stop =>
    obtain ⟨hmain, -⟩ := Option.ite_none_right_eq_some.mp h
    rw [hmain] at hset
    cases hset
  | connlost =>
    have hunset : s.main.stopSet = false := hundisturbed
    rw [hset] at hunset
    cases hunset
  | reconnect =>
    change s.reconnectStep = some t at h
    rw [State.reconnectStep, hcalm] at h
    cases h
  | _ =>
    obtain ⟨-, heq⟩ := Option.ite_none_right_eq_some.mp h
    cases heq
    exact ⟨⟨hset, hflag, hcalm⟩, rfl⟩

theorem connectStep_main {pc : ConnectPc} {next : Option ConnectPc × State}
    (h : s.connectStep pc = some next) : next.2.main = s.main := by
  cases pc with
  | join | startThread =>
    dsimp only [State.connectStep] at h
    split at h
    · cases h <;> rfl
    · cases h <;> rfl
  | _ =>
    cases h
    rfl

/-- The flag is set by the step that says so. -/
theorem stopping_of_main_step (hunset : s.main.stopSet = false) (hcalm : s.main = .setStop →
    s.connlost = none) (h : s.mainStep = some t) (hset : t.main.stopSet = true) : Stopping t := by
  unfold State.mainStep at h
  split at h
  case h_1 pc hmain =>
    obtain ⟨next, -, rfl⟩ := Option.map_eq_some_iff.mp h
    cases hnext : next.1 with
    | none =>
      rw [hnext] at hset
      cases hset
    | some pc =>
      rw [hnext] at hset
      cases hset
  case h_2 hmain => cases h
  case h_3 hmain =>
    cases h
    exact ⟨rfl, rfl, hcalm hmain⟩
  all_goals
    rename_i hmain
    rw [hmain] at hunset
    cases hunset

theorem stopping_of_step (hunset : s.main.stopSet = false) (hundisturbed : Undisturbed s a)
    (h : s.step a = some t) (hset : t.main.stopSet = true) : Stopping t := by
  have hother (hmain : t.main = s.main) : Stopping t := by
    rw [hmain, hunset] at hset
    cases hset
  cases a with
  | main => exact stopping_of_main_step hunset hundisturbed h hset
  | stop =>
    obtain ⟨-, heq⟩ := Option.ite_none_right_eq_some.mp h
    cases heq
    cases hset
  | reconnect =>
    change s.reconnectStep = some t at h
    unfold State.reconnectStep at h
    split at h
    · cases h
    · obtain ⟨next, hnext, rfl⟩ := Option.map_eq_some_iff.mp h
      exact hother (connectStep_main hnext)
  | _ =>
    obtain ⟨-, heq⟩ := Option.ite_none_right_eq_some.mp h
    cases heq
    exact hother rfl

/-- In an undisturbed run the flag holds from the step that sets it on. -/
theorem stopping_of_reachable (h : system.ReachableVia Undisturbed s)
    (hset : s.main.stopSet = true) : Stopping s := by
  have hinvariant : s.main.stopSet = true → Stopping s := by
    refine System.ReachableVia.invariant (I := fun s ↦ s.main.stopSet = true → Stopping s) ?_ ?_ h
    · rintro s rfl hset
      cases hset
    · intro s a t ih hundisturbed hstep hset
      cases hunset : s.main.stopSet with
      | true => exact ((ih hunset).step hundisturbed hstep).1
      | false => exact stopping_of_step hunset hundisturbed hstep hset
  exact hinvariant hset

/-- A look at the predicate leaves the loop. -/
theorem Stopping.leaves (hs : Stopping s) (hlooks : a.looks = true) (h : s.step a = some t) :
    t.connectThread = some .left := by
  have hpredicate : s.predicate = true := by rw [State.predicate, hs.flag, Bool.or_true]
  cases a with
  | enterWait | wakeup | timeout =>
    obtain ⟨-, heq⟩ := Option.ite_none_right_eq_some.mp h
    cases heq
    exact congrArg some (if_pos hpredicate)
  | _ => cases hlooks

/-- In a run whose steps are undisturbed, the flag `stop()` has set is never reset, no connect
thread is started any more, and every look at the predicate leaves the loop. -/
theorem stop_is_final (h : system.ReachableVia Undisturbed s) (hset : s.main.stopSet = true)
    (hrun : system.Reaches Undisturbed s t) :
    t.stopAutoConnect = true ∧ t.threads = s.threads ∧
      ∀ a u, a.looks = true → system.step t a = some u → u.connectThread = some .left := by
  have hstopping : Stopping t ∧ t.threads = s.threads := by
    refine hrun.preserves (I := fun t ↦ Stopping t ∧ t.threads = s.threads) ?_
      ⟨stopping_of_reachable h hset, rfl⟩
    rintro t a u ⟨ht, hthreads⟩ hundisturbed hstep
    obtain ⟨hu, heq⟩ := ht.step hundisturbed hstep
    exact ⟨hu, heq.trans hthreads⟩
  exact ⟨hstopping.1.flag, hstopping.2, fun a u hlooks hstep ↦ hstopping.1.leaves hlooks hstep⟩

/-! ## A run of `stop()` -/

/-- `start()`, a connection, and the loop is left. -/
def connectRun : List Action :=
  [.main, .main, .main, .main, .tryConnect, .onConnect, .enterWait]

def connectedState : State where
  stopAutoConnect := false
  connected := true
  connectThread := some .left
  main := .started
  connlost := none
  threads := 1

/-- `stop()` has set the flag. -/
def stoppingState : State :=
  { connectedState with main := .connectFailure, stopAutoConnect := true }

theorem reaches_stopping : system.ReachableVia Undisturbed stoppingState :=
  ⟨State.create, rfl, System.reaches_of_runIf (connectRun ++ [.stop, .main])
    (fun _ _ h ↦ of_decide_eq_true h) (by decide)⟩

theorem stop_is_final_joined :
    let t : State := { stoppingState with connected := false, connectThread := none,
                                          main := .disconnect }
    t.stopAutoConnect = true ∧ t.threads = stoppingState.threads ∧
      ∀ a u, a.looks = true → system.step t a = some u → u.connectThread = some .left :=
  stop_is_final reaches_stopping rfl (System.reaches_of_runIf [.main, .main, .main]
    (fun _ _ h ↦ of_decide_eq_true h) (by decide))

/-- The rest of `stop()`, with a connection loss reported behind the join. -/
def lostRun : List Action :=
  [.main, .main, .main, .connlost, .reconnect, .reconnect, .reconnect, .reconnect, .main, .main,
    .main]

/-- `stop()` returns, and a new connect thread tries to connect the destroyed client. -/
theorem stop_is_undone :
    ∃ t, system.Reachable stoppingState ∧ stoppingState.main.stopSet = true ∧
      system.Reaches System.AnyStep stoppingState t ∧ t.main = .stopped ∧
        t.stopAutoConnect = false ∧ t.threads = stoppingState.threads + 1 ∧
          t.connectThread = some .connecting := by
  refine ⟨{ stoppingState with connected := false, connectThread := some .connecting,
                               stopAutoConnect := false, main := .stopped, threads := 2 },
    reaches_stopping.any, rfl, ?_, rfl, rfl, rfl, rfl⟩
  exact System.reaches_of_run lostRun (fun _ _ _ ↦ trivial) (by decide)

end IqrfDaemon.Mqtt
