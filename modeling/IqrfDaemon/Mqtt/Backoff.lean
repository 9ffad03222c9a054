import Mathlib.Algebra.Order.Ring.Int
import IqrfDaemon.Json.Value
import IqrfDaemon.Mqtt.Connect

/-!
# The waiting times of the connect thread

After each attempt the connect thread waits, and doubles the time when it is over.  The
comparison with the upper bound is made before the doubling, so the time may pass the
bound once, unless the doubled lower bound meets it exactly.
-/

namespace IqrfDaemon.Mqtt

open Json Transition

/-- `m_mqttMinReconnect` and `m_mqttMaxReconnect`, in seconds. -/
structure Reconnect where
  mqttMinReconnect : ℤ
  mqttMaxReconnect : ℤ

namespace Reconnect

def default : Reconnect := ⟨1, 64⟩

def update (cfg : Value) (r : Reconnect) : Except Failure Reconnect := do
  let minReconnect ←
    Jutils.getPossibleMemberAs Jutils.assertIsInt "MinReconnect" cfg r.mqttMinReconnect
  let maxReconnect ←
    Jutils.getPossibleMemberAs Jutils.assertIsInt "MaxReconnect" cfg r.mqttMaxReconnect
  return ⟨minReconnect, maxReconnect⟩

end Reconnect

/-- What is read is a value of `int`. -/
theorem Reconnect.update_le {cfg : Value} {r s : Reconnect} (h : r.update cfg = .ok s)
    (hr : r.mqttMaxReconnect ≤ 2147483647) : s.mqttMaxReconnect ≤ 2147483647 := by
  obtain ⟨minReconnect, -, h⟩ := exists_ok_of_bind h
  obtain ⟨maxReconnect, hmax, h⟩ := exists_ok_of_bind h
  obtain rfl := Except.ok.inj h
  rw [Jutils.getPossibleMemberAs] at hmax
  split at hmax
  case h_1 m _ =>
    cases m with
    | int n =>
        rw [Jutils.assertIsInt] at hmax
        split at hmax
        case isTrue hrange =>
          obtain rfl := Except.ok.inj hmax
          exact hrange.2
        case isFalse => cases hmax
    | _ => cases hmax
  case h_2 =>
    obtain rfl := Except.ok.inj hmax
    exact hr
  case h_3 => cases hmax

/-- The doubled value, if an `int` holds it; otherwise the overflow is undefined. -/
def doubled (seconds : ℤ) : Option ℤ :=
  if -2147483648 ≤ seconds * 2 ∧ seconds * 2 ≤ 2147483647 then some (seconds * 2) else none

/-- `seconds = seconds < seconds_max ? seconds * 2 : seconds_max` -/
def nextSeconds (secondsMax seconds : ℤ) : Option ℤ :=
  if seconds < secondsMax then doubled seconds else some secondsMax

/-- The connection, the time that the present connect thread waits after its attempt, and
how many attempts it has made before in vain. -/
structure Timed where
  base : State
  seconds : Option ℤ
  failed : ℕ

/-- A new thread starts with the lower bound.  When the time is over and the predicate does
not hold, there is a next attempt. -/
def Timed.step (r : Reconnect) (s : Timed) (a : Action) : Option Timed :=
  (s.base.step a).map fun t ↦
    if t.threads ≠ s.base.threads then ⟨t, some r.mqttMinReconnect, 0⟩
    else if a = .timeout ∧ t.connectThread = some .connecting then
      ⟨t, s.seconds.bind (nextSeconds r.mqttMaxReconnect), s.failed + 1⟩
    else { s with base := t }

/-- All interleavings of the connection, with the waiting times. -/
def timed (r : Reconnect) : System Timed Action where
  init s := s = ⟨State.create, some r.mqttMinReconnect, 0⟩
  step := Timed.step r

def Reconnect.waiting (r : Reconnect) (failed : ℕ) : ℤ :=
  min (r.mqttMinReconnect * 2 ^ failed) r.mqttMaxReconnect

variable {r : Reconnect} {s t : Timed} {a : Action}

/-- The waiting times change nothing of the connection. -/
theorem timed_base (h : (timed r).Reachable s) : system.Reachable s.base := by
  refine System.Reachable.invariant (I := fun s ↦ system.Reachable s.base) ?_ ?_ h
  · rintro s rfl
    exact .of_init rfl
  · intro s a t hs hstep
    obtain ⟨u, hu, rfl⟩ := Option.map_eq_some_iff.mp hstep
    have hbase := System.Reachable.step hs hu
    split_ifs <;> exact hbase

/-! ## Bounds that are met -/

theorem doubled_of_le {seconds : ℤ} (hpos : 0 ≤ seconds) (hle : seconds * 2 ≤ 2147483647) :
    doubled seconds = some (seconds * 2) :=
  if_pos ⟨by omega, hle⟩

theorem doublings_pos (hmin : 1 ≤ r.mqttMinReconnect) (k : ℕ) :
    0 < r.mqttMinReconnect * 2 ^ k :=
  mul_pos (by omega) (pow_pos two_pos k)

theorem doublings_mono (hmin : 1 ≤ r.mqttMinReconnect) {j k : ℕ} (h : j ≤ k) :
    r.mqttMinReconnect * 2 ^ j ≤ r.mqttMinReconnect * 2 ^ k :=
  mul_le_mul_of_nonneg_left (pow_le_pow_right₀ one_le_two h) (by omega)

theorem doublings_succ (k : ℕ) :
    r.mqttMinReconnect * 2 ^ (k + 1) = r.mqttMinReconnect * 2 ^ k * 2 := by
  rw [pow_succ, mul_assoc]

/-- If the doubled lower bound meets the upper one, no doubling passes it. -/
theorem nextSeconds_waiting (hmin : 1 ≤ r.mqttMinReconnect)
    (hmax : r.mqttMaxReconnect ≤ 2147483647) {j : ℕ}
    (hj : r.mqttMaxReconnect = r.mqttMinReconnect * 2 ^ j) (k : ℕ) :
    nextSeconds r.mqttMaxReconnect (r.waiting k) = some (r.waiting (k + 1)) := by
  rcases lt_or_ge k j with hlt | hge
  · have hle : r.mqttMinReconnect * 2 ^ k * 2 ≤ r.mqttMaxReconnect := by
      rw [← doublings_succ, hj]
      exact doublings_mono hmin hlt
    have hpos := doublings_pos hmin k
    have hbelow : r.mqttMinReconnect * 2 ^ k < r.mqttMaxReconnect := by omega
    rw [Reconnect.waiting, Reconnect.waiting, doublings_succ, min_eq_left hbelow.le,
      min_eq_left hle, nextSeconds, if_pos hbelow, doubled_of_le hpos.le (by omega)]
  · have hover : ∀ m, j ≤ m → r.mqttMaxReconnect ≤ r.mqttMinReconnect * 2 ^ m := by
      intro m hm
      rw [hj]
      exact doublings_mono hmin hm
    rw [Reconnect.waiting, Reconnect.waiting, min_eq_right (hover k hge),
      min_eq_right (hover (k + 1) (by omega)), nextSeconds, if_neg (lt_irrefl _)]

theorem seconds_eq_waiting (hmin : 1 ≤ r.mqttMinReconnect)
    (hle : r.mqttMinReconnect ≤ r.mqttMaxReconnect) (hmax : r.mqttMaxReconnect ≤ 2147483647)
    {j : ℕ} (hj : r.mqttMaxReconnect = r.mqttMinReconnect * 2 ^ j) (h : (timed r).Reachable s) :
    s.seconds = some (r.waiting s.failed) := by
  have hstart : some r.mqttMinReconnect = some (r.waiting 0) := by
    rw [Reconnect.waiting, pow_zero, mul_one, min_eq_left hle]
  refine System.Reachable.invariant (I := fun s ↦ s.seconds = some (r.waiting s.failed)) ?_ ?_ h
  · rintro s rfl
    exact hstart
  · intro s a t hs hstep
    obtain ⟨u, -, rfl⟩ := Option.map_eq_some_iff.mp hstep
    split_ifs
    · exact hstart
    · rw [hs]
      exact nextSeconds_waiting hmin hmax hj s.failed
    · exact hs

/-! ## Attempts in vain -/

/-- The thread is about to make an attempt, and nothing ends its loop. -/
structure AboutToTry (s : Timed) : Prop where
  connecting : s.base.connectThread = some .connecting
  predicate : s.base.predicate = false

theorem AboutToTry.next (hs : AboutToTry s) (h : (timed r).Reachable s) :
    ∃ t, (timed r).Reachable t ∧ AboutToTry t ∧ t.failed = s.failed + 1 ∧
      t.seconds = s.seconds.bind (nextSeconds r.mqttMaxReconnect) := by
  obtain ⟨⟨stop, connected, thread, main, connlost, threads⟩, seconds, failed⟩ := s
  obtain ⟨hconnecting, hpredicate⟩ := hs
  obtain rfl : thread = some .connecting := hconnecting
  obtain ⟨rfl, rfl⟩ : connected = false ∧ stop = false := Bool.or_eq_false_iff.mp hpredicate
  let t : Timed := ⟨⟨false, false, some .connecting, main, connlost, threads⟩,
    seconds.bind (nextSeconds r.mqttMaxReconnect), failed + 1⟩
  have hrun : (timed r).run ⟨⟨false, false, some .connecting, main, connlost, threads⟩, seconds,
      failed⟩ [.tryConnect, .enterWait, .timeout] = some t := by
    simp [System.run, timed, Timed.step, State.step, State.check, State.predicate, t]
  exact ⟨t, h.reaches (System.reaches_of_run _ (fun _ _ _ ↦ trivial) hrun), ⟨rfl, rfl⟩, rfl, rfl⟩

theorem exists_aboutToTry (r : Reconnect) (k : ℕ) :
    ∃ s, (timed r).Reachable s ∧ AboutToTry s ∧ s.failed = k := by
  induction k with
  | zero =>
      let s : Timed := ⟨⟨false, false, some .connecting, .started, none, 1⟩,
        some r.mqttMinReconnect, 0⟩
      have hrun : (timed r).run ⟨State.create, some r.mqttMinReconnect, 0⟩
          [.main, .main, .main, .main] = some s := by
        simp [System.run, timed, Timed.step, State.step, State.mainStep, State.connectStep,
          State.create, s]
      exact ⟨s, System.reachable_of_run _ rfl hrun, ⟨rfl, rfl⟩, rfl⟩
  | succ k ih =>
      obtain ⟨s, h, hs, rfl⟩ := ih
      obtain ⟨t, ht, hnext, hfailed, -⟩ := hs.next h
      exact ⟨t, ht, hnext, hfailed⟩

/-- Attempts in vain go on from one waiting time to the next. -/
theorem nextSeconds_of_forall
    (h : ∀ s, (timed r).Reachable s → s.seconds = some (r.waiting s.failed)) (k : ℕ) :
    nextSeconds r.mqttMaxReconnect (r.waiting k) = some (r.waiting (k + 1)) := by
  obtain ⟨s, hreach, hs, rfl⟩ := exists_aboutToTry r k
  obtain ⟨t, ht, -, hfailed, hseconds⟩ := hs.next hreach
  rw [h s hreach, h t ht, hfailed] at hseconds
  exact hseconds.symm

theorem exists_doublings_ge (hmin : 1 ≤ r.mqttMinReconnect) (bound : ℤ) :
    ∃ k : ℕ, bound ≤ r.mqttMinReconnect * 2 ^ k := by
  refine ⟨bound.toNat, ?_⟩
  have hlt : (bound.toNat : ℤ) < 2 ^ bound.toNat := by exact_mod_cast Nat.lt_two_pow_self
  have hone : (2 : ℤ) ^ bound.toNat ≤ r.mqttMinReconnect * 2 ^ bound.toNat :=
    le_mul_of_one_le_left (pow_pos two_pos _).le hmin
  omega

/-- The last doubling has to meet the upper bound. -/
theorem exists_doubling (hmin : 1 ≤ r.mqttMinReconnect)
    (hle : r.mqttMinReconnect ≤ r.mqttMaxReconnect)
    (h : ∀ s, (timed r).Reachable s → s.seconds = some (r.waiting s.failed)) :
    ∃ j : ℕ, r.mqttMaxReconnect = r.mqttMinReconnect * 2 ^ j := by
  by_contra hmissed
  have hne : ∀ j, r.mqttMaxReconnect ≠ r.mqttMinReconnect * 2 ^ j :=
    fun j hj ↦ hmissed ⟨j, hj⟩
  -- then every doubling stays below it
  have hbelow : ∀ k, r.mqttMinReconnect * 2 ^ k < r.mqttMaxReconnect := by
    intro k
    induction k with
    | zero =>
        have hzero := hne 0
        rw [pow_zero, mul_one] at hzero ⊢
        omega
    | succ k ih =>
        have hnext := nextSeconds_of_forall h k
        rw [Reconnect.waiting, min_eq_left ih.le, nextSeconds, if_pos ih, doubled,
          Option.ite_none_right_eq_some, ← doublings_succ] at hnext
        have hle : r.mqttMinReconnect * 2 ^ (k + 1) ≤ r.mqttMaxReconnect := by
          rw [Option.some.inj hnext.2]
          exact min_le_right _ _
        exact lt_of_le_of_ne hle (hne (k + 1)).symm
  obtain ⟨k, hk⟩ := exists_doublings_ge hmin r.mqttMaxReconnect
  exact absurd hk (not_le.mpr (hbelow k))

/-- In all runs the thread waits for the doubled lower bound, up to the upper one, if and only
if some doubling of the lower bound meets the upper one. -/
theorem waiting_bounded_iff (r : Reconnect) (hmin : 1 ≤ r.mqttMinReconnect)
    (hle : r.mqttMinReconnect ≤ r.mqttMaxReconnect) (hmax : r.mqttMaxReconnect ≤ 2147483647) :
    (∀ s, (timed r).Reachable s →
      s.seconds = some (min (r.mqttMinReconnect * 2 ^ s.failed) r.mqttMaxReconnect)) ↔
      ∃ j : ℕ, r.mqttMaxReconnect = r.mqttMinReconnect * 2 ^ j := by
  constructor
  · exact exists_doubling hmin hle
  · rintro ⟨j, hj⟩ s hs
    exact seconds_eq_waiting hmin hle hmax hj hs

theorem waiting_bounded_iff_default :
    (∀ s, (timed Reconnect.default).Reachable s →
      s.seconds = some (min (Reconnect.default.mqttMinReconnect * 2 ^ s.failed)
        Reconnect.default.mqttMaxReconnect)) ↔
      ∃ j : ℕ, Reconnect.default.mqttMaxReconnect = Reconnect.default.mqttMinReconnect * 2 ^ j :=
  waiting_bounded_iff Reconnect.default (by decide) (by decide) (by decide)

/-- From one second, bounded by three, the third wait takes four. -/
theorem waiting_passes_bound :
    ∃ s, (timed ⟨1, 3⟩).Reachable s ∧ s.failed = 2 ∧ s.seconds = some 4 ∧
      s.seconds ≠ some (min (1 * 2 ^ s.failed) 3) := by
  let s : Timed := ⟨⟨false, false, some .connecting, .started, none, 1⟩, some 4, 2⟩
  have hrun : (timed ⟨1, 3⟩).run ⟨State.create, some 1, 0⟩ [.main, .main, .main, .main,
      .tryConnect, .enterWait, .timeout, .tryConnect, .enterWait, .timeout] = some s := rfl
  exact ⟨s, System.reachable_of_run _ rfl hrun, rfl, rfl, by decide⟩

end IqrfDaemon.Mqtt
