import IqrfDaemon.Transition.System
import Mathlib.Algebra.Order.Ring.Int

/-!
# The watch dog in `run`

Once the daemon has started, the main thread waits in `run` until `exit` takes the run flag
down or the last refresh lies the timeout back.  It sleeps for the whole timeout between two
tests, while other threads refresh the watch dog or request the exit.  The reports it makes
are justified over every run; if it moves within a fixed latency, it leaves the loop within
twice the timeout after the last refresh, and within two latencies after an exit request.
-/

namespace IqrfDaemon.Controller.Running

open Transition

/-! ## The system -/

/-- Program points of `run`, with the time at which the thread came to them.  From `relocking`
to `waiting` the thread is at the loop: it holds `m_stopConditionMutex` while it tests the
condition; it waits until a deadline, and keeps the time of the first notification. -/
inductive Pc
  | loading
  | starting
  | relocking (since : ℤ)
  | testing (since : ℤ)
  | waiting (deadline : ℤ) (notified : Option ℤ)
  | unlocked (since : ℤ)
  | stopping (wdog : Bool)
  deriving DecidableEq

def Pc.holdsMutex : Pc → Bool
  | testing _ => true
  | _ => false

/-- A waiting thread keeps the time of the first notification. -/
def Pc.notify (now : ℤ) : Pc → Pc
  | waiting deadline notified => waiting deadline (notified.or (some now))
  | main => main

def Pc.inLoop : Pc → Bool
  | relocking _ | testing _ | waiting _ _ => true
  | _ => false

/-- The clock, the members of the controller, the thread of `run` and the callers of `exit`
that have not yet called `notify_all`.  The history has the times of all refreshes and of the
exit requests since `run` was called, the time at which `start` returned and that of the first
notification of an exit request. -/
structure State where
  now : ℤ
  lastRefreshTime : ℤ
  running : Bool
  main : Pc
  pendingNotify : ℕ
  refreshes : List ℤ
  requests : List ℤ
  enteredAt : ℤ
  notifiedAt : Option ℤ
  deriving DecidableEq

/-- Time passes; a thread calls `watchDogPet`; the locked section of `exit` and the
notification behind it; the next step of `run`; a spurious wake-up. -/
inductive Action
  | tick (d : ℤ)
  | watchDogPet
  | exitFlag
  | exitNotify
  | run
  | spuriousWakeup

/-- Time is counted from the call of `run`. -/
def State.create : State where
  now := 0
  lastRefreshTime := 0
  running := false
  main := .loading
  pendingNotify := 0
  refreshes := []
  requests := []
  enteredAt := 0
  notifiedAt := none

namespace State

def watchDogPet (s : State) : State :=
  { s with lastRefreshTime := s.now, refreshes := s.refreshes ++ [s.now] }

/-- The assignments of `run` in front of `start`. -/
def launch (s : State) : State :=
  { s.watchDogPet with running := true, main := .starting, requests := [], notifiedAt := none }

def exitFlag (s : State) : State :=
  { s with
    running := false
    pendingNotify := s.pendingNotify + 1
    requests := s.requests ++ [s.now] }

def notify (s : State) : State :=
  { s with
    pendingNotify := s.pendingNotify - 1
    main := s.main.notify s.now
    notifiedAt := if s.running then s.notifiedAt else s.notifiedAt.or (some s.now) }

/-- The condition of the loop. -/
def continues (timeout : ℤ) (s : State) : Bool :=
  s.running && (timeout = 0 || s.now - s.lastRefreshTime < timeout)

/-- `m_timeout` is the sleep between two tests, `m_watchDogTimeoutMilis` the same in the
condition of the loop. -/
def runStep (timeout : ℤ) (s : State) : Option State :=
  match s.main with
  | .loading => some s.launch
  | .starting => some { s with main := .relocking s.now, enteredAt := s.now }
  | .relocking _ => some { s with main := .testing s.now }
  | .testing _ =>
      if s.continues timeout then some { s with main := .waiting (s.now + timeout) none }
      else some { s with main := .unlocked s.now }
  | .waiting deadline notified =>
      if notified.isSome || deadline ≤ s.now then some { s with main := .testing s.now } else none
  | .unlocked _ => some { s with main := .stopping s.running }
  | .stopping _ => none

def step (timeout : ℤ) (s : State) : Action → Option State
  | .tick d => if 0 ≤ d then some { s with now := s.now + d } else none
  | .watchDogPet => if s.main.holdsMutex then none else some s.watchDogPet
  | .exitFlag => if s.main.holdsMutex then none else some s.exitFlag
  | .exitNotify => if s.pendingNotify = 0 then none else some s.notify
  | .run => s.runStep timeout
  | .spuriousWakeup =>
      match s.main with
      | .waiting _ _ => some { s with main := .testing s.now }
      | _ => none

end State

/-- The threads of a daemon with this timeout, in ticks of the clock. -/
def system (timeout : ℤ) : System State Action where
  init s := s = State.create
  step := State.step timeout

/-! ## What a step does -/

/-- What one step can do, with the program point it starts from. -/
inductive Moves (timeout : ℤ) (s : State) : Action → State → Prop
  | tick (d : ℤ) (hd : 0 ≤ d) : Moves timeout s (.tick d) { s with now := s.now + d }
  | pet (free : s.main.holdsMutex = false) : Moves timeout s .watchDogPet s.watchDogPet
  | flag (free : s.main.holdsMutex = false) : Moves timeout s .exitFlag s.exitFlag
  | notify (pending : 0 < s.pendingNotify) : Moves timeout s .exitNotify s.notify
  | launch (at_pc : s.main = .loading) : Moves timeout s .run s.launch
  | enter (at_pc : s.main = .starting) :
      Moves timeout s .run { s with main := .relocking s.now, enteredAt := s.now }
  | lock (since : ℤ) (at_pc : s.main = .relocking since) :
      Moves timeout s .run { s with main := .testing s.now }
  | sleep (since : ℤ) (at_pc : s.main = .testing since) (running : s.running = true)
      (fresh : timeout = 0 ∨ s.now - s.lastRefreshTime < timeout) :
      Moves timeout s .run { s with main := .waiting (s.now + timeout) none }
  | leave (since : ℤ) (at_pc : s.main = .testing since)
      (expired : s.running = true → timeout ≠ 0 ∧ s.lastRefreshTime + timeout ≤ s.now) :
      Moves timeout s .run { s with main := .unlocked s.now }
  | wake (a : Action) (deadline : ℤ) (notified : Option ℤ)
      (at_pc : s.main = .waiting deadline notified) :
      Moves timeout s a { s with main := .testing s.now }
  | report (since : ℤ) (at_pc : s.main = .unlocked since) :
      Moves timeout s .run { s with main := .stopping s.running }

/-- A notification moves no thread but a waiting one. -/
theorem Pc.eq_of_notify {now : ℤ} {p q : Pc} (h : p.notify now = q)
    (hq : ∀ deadline notified, q ≠ .waiting deadline notified) : p = q := by
  cases p with
  | waiting deadline notified => exact absurd h.symm (hq _ _)
  | _ => exact h

theorem ne_loading_of_notify {s : State} (h : s.notify.main ≠ .loading) : s.main ≠ .loading := by
  intro hpc
  exact h ((congrArg (Pc.notify s.now) hpc).trans rfl)

theorem moves_of_runStep {timeout : ℤ} {s t : State} (h : s.runStep timeout = some t) :
    Moves timeout s .run t := by
  unfold State.runStep at h
  cases hpc : s.main with
  | loading =>
      obtain rfl : s.launch = t := by simpa [hpc] using h
      exact .launch hpc
  | starting =>
      obtain rfl : { s with main := .relocking s.now, enteredAt := s.now } = t := by
        simpa [hpc] using h
      exact .enter hpc
  | relocking since =>
      obtain rfl : { s with main := .testing s.now } = t := by simpa [hpc] using h
      exact .lock since hpc
  | testing since =>
      cases hcontinues : s.continues timeout with
      | true =>
          obtain rfl : { s with main := .waiting (s.now + timeout) none } = t := by
            simpa [hpc, hcontinues] using h
          simp only [State.continues, Bool.and_eq_true, Bool.or_eq_true, decide_eq_true_eq]
            at hcontinues
          exact .sleep since hpc hcontinues.1 hcontinues.2
      | false =>
          obtain rfl : { s with main := .unlocked s.now } = t := by simpa [hpc, hcontinues] using h
          refine .leave since hpc fun hrunning ↦ ?_
          simp only [State.continues, hrunning, Bool.true_and, Bool.or_eq_false_iff,
            decide_eq_false_iff_not] at hcontinues
          exact ⟨hcontinues.1, by omega⟩
  | waiting deadline notified =>
      by_cases hwake : (notified.isSome || decide (deadline ≤ s.now)) = true
      · obtain rfl : { s with main := .testing s.now } = t := by simpa [hpc, hwake] using h
        exact .wake .run deadline notified hpc
      · simp [hpc, hwake] at h
  | unlocked since =>
      obtain rfl : { s with main := .stopping s.running } = t := by simpa [hpc] using h
      exact .report since hpc
  | stopping wdog => simp [hpc] at h

theorem moves_of_step {timeout : ℤ} {s t : State} {a : Action}
    (h : s.step timeout a = some t) : Moves timeout s a t := by
  cases a with
  | tick d =>
      obtain ⟨hd, rfl⟩ : 0 ≤ d ∧ { s with now := s.now + d } = t := by
        simpa [State.step] using h
      exact .tick d hd
  | watchDogPet =>
      obtain ⟨hfree, rfl⟩ : s.main.holdsMutex = false ∧ s.watchDogPet = t := by
        simpa [State.step] using h
      exact .pet hfree
  | exitFlag =>
      obtain ⟨hfree, rfl⟩ : s.main.holdsMutex = false ∧ s.exitFlag = t := by
        simpa [State.step] using h
      exact .flag hfree
  | exitNotify =>
      obtain ⟨hpending, rfl⟩ : s.pendingNotify ≠ 0 ∧ s.notify = t := by
        simpa [State.step] using h
      exact .notify (Nat.pos_of_ne_zero hpending)
  | run => exact moves_of_runStep h
  | spuriousWakeup =>
      cases hpc : s.main with
      | waiting deadline notified =>
          obtain rfl : { s with main := .testing s.now } = t := by
            simpa [State.step, hpc] using h
          exact .wake .spuriousWakeup deadline notified hpc
      | _ => simp [State.step, hpc] at h

variable {timeout : ℤ} {s t : State} {a : Action}

/-! ## The reports -/

/-- Behind some refresh none came for the timeout. -/
def Lapsed (timeout : ℤ) (s : State) : Prop :=
  ∃ earlier r later, s.refreshes = earlier ++ r :: later ∧ r + timeout ≤ later.head?.getD s.now

theorem Lapsed.tick (h : Lapsed timeout s) {d : ℤ} (hd : 0 ≤ d) :
    Lapsed timeout { s with now := s.now + d } := by
  obtain ⟨earlier, r, later, hrefreshes, hlate⟩ := h
  refine ⟨earlier, r, later, hrefreshes, hlate.trans ?_⟩
  cases later with
  | nil => exact le_add_of_nonneg_right hd
  | cons r' later => exact le_rfl

theorem Lapsed.pet (h : Lapsed timeout s) : Lapsed timeout s.watchDogPet := by
  obtain ⟨earlier, r, later, hrefreshes, hlate⟩ := h
  refine ⟨earlier, r, later ++ [s.now], ?_, ?_⟩
  · simp [State.watchDogPet, hrefreshes]
  · cases later with
    | nil => exact hlate
    | cons r' later => exact hlate

/-- The last refresh and a request that has taken the run flag down are on record, and what the
thread has found at the last test still holds. -/
structure Justified (timeout : ℤ) (s : State) : Prop where
  last : s.main ≠ .loading → ∃ earlier, s.refreshes = earlier ++ [s.lastRefreshTime]
  requested : s.main ≠ .loading → s.running = false → s.requests ≠ []
  expired : ∀ since, s.main = .unlocked since → s.running = true → timeout ≠ 0 ∧ Lapsed timeout s
  watchDog : s.main = .stopping true → timeout ≠ 0 ∧ Lapsed timeout s
  normal : s.main = .stopping false → s.requests ≠ []

theorem Justified.move (h : Justified timeout s) (hmoves : Moves timeout s a t) :
    Justified timeout t := by
  obtain ⟨hlast, hrequested, hexpired, hwatchDog, hnormal⟩ := h
  cases hmoves with
  | tick d hd =>
      refine ⟨hlast, hrequested, fun since hpc hrunning ↦ ?_, fun hpc ↦ ?_, hnormal⟩
      · exact ⟨(hexpired since hpc hrunning).1, (hexpired since hpc hrunning).2.tick hd⟩
      · exact ⟨(hwatchDog hpc).1, (hwatchDog hpc).2.tick hd⟩
  | pet free =>
      refine ⟨fun _ ↦ ⟨s.refreshes, rfl⟩, hrequested, fun since hpc hrunning ↦ ?_, fun hpc ↦ ?_,
        hnormal⟩
      · exact ⟨(hexpired since hpc hrunning).1, (hexpired since hpc hrunning).2.pet⟩
      · exact ⟨(hwatchDog hpc).1, (hwatchDog hpc).2.pet⟩
  | flag free =>
      have hlisted : s.exitFlag.requests ≠ [] := List.append_ne_nil_of_right_ne_nil _ (by simp)
      exact ⟨hlast, fun _ _ ↦ hlisted, fun _ _ hrunning ↦ (by cases hrunning), hwatchDog,
        fun _ ↦ hlisted⟩
  | notify pending =>
      refine ⟨fun hpc ↦ hlast (ne_loading_of_notify hpc),
        fun hpc ↦ hrequested (ne_loading_of_notify hpc), fun since hpc ↦ ?_, fun hpc ↦ ?_,
        fun hpc ↦ ?_⟩
      · exact hexpired since (Pc.eq_of_notify hpc nofun)
      · exact hwatchDog (Pc.eq_of_notify hpc nofun)
      · exact hnormal (Pc.eq_of_notify hpc nofun)
  | launch at_pc =>
      exact ⟨fun _ ↦ ⟨s.refreshes, rfl⟩, fun _ hrunning ↦ (by cases hrunning), nofun, nofun, nofun⟩
  | enter at_pc | lock since at_pc | sleep since at_pc running fresh
  | wake a deadline notified at_pc =>
      have hne : s.main ≠ .loading := by simp [at_pc]
      exact ⟨fun _ ↦ hlast hne, fun _ ↦ hrequested hne, nofun, nofun, nofun⟩
  | leave since at_pc expired =>
      have hne : s.main ≠ .loading := by simp [at_pc]
      obtain ⟨earlier, hearlier⟩ := hlast hne
      refine ⟨fun _ ↦ ⟨earlier, hearlier⟩, fun _ ↦ hrequested hne, fun _ _ hrunning ↦ ?_, nofun,
        nofun⟩
      obtain ⟨htimeout, hlate⟩ := expired hrunning
      exact ⟨htimeout, earlier, s.lastRefreshTime, [], hearlier, hlate⟩
  | report since at_pc =>
      have hne : s.main ≠ .loading := by simp [at_pc]
      refine ⟨fun _ ↦ hlast hne, fun _ ↦ hrequested hne, nofun, fun hpc ↦ ?_, fun hpc ↦ ?_⟩
      · exact hexpired since at_pc (Pc.stopping.inj hpc)
      · exact hrequested hne (Pc.stopping.inj hpc)

/-- Over every run the watch dog's exit is reported only if it is enabled and behind some
refresh none came for the timeout, and a normal exit only if one has been requested since
`run` was called. -/
theorem reports_justified (h : (system timeout).Reachable s) :
    (s.main = .stopping true → timeout ≠ 0 ∧ Lapsed timeout s) ∧
      (s.main = .stopping false → s.requests ≠ []) := by
  have hs : Justified timeout s := by
    refine System.Reachable.invariant ?_ (fun s a t hs hstep ↦ hs.move (moves_of_step hstep)) h
    rintro s rfl
    exact ⟨fun hpc ↦ absurd rfl hpc, fun hpc ↦ absurd rfl hpc, nofun, nofun, nofun⟩
  exact ⟨hs.watchDog, hs.normal⟩

/-- `start` takes twelve ticks of ten, and nothing refreshes the watch dog. -/
def slowStart : State where
  now := 12
  lastRefreshTime := 0
  running := true
  main := .stopping true
  pendingNotify := 0
  refreshes := [0]
  requests := []
  enteredAt := 12
  notifiedAt := none

theorem reports_justified_slowStart : (10 : ℤ) ≠ 0 ∧ Lapsed 10 slowStart :=
  (reports_justified (System.reachable_of_run
    [.run, .tick 12, .run, .run, .run, .run] (s := State.create) rfl (by decide))).1 rfl

/-! ## The loop is left in time -/

/-- The time by which the thread moves, if it moves within `δ` once it can. -/
def Pc.due (δ : ℤ) : Pc → Option ℤ
  | relocking since | testing since | unlocked since => some (since + δ)
  | waiting deadline none => some (deadline + δ)
  | waiting deadline (some notified) => some (min deadline notified + δ)
  | _ => none

/-- Time does not pass the moment at which the thread moves. -/
def Latency (δ : ℤ) (s : State) : Action → Prop
  | .tick d => ∀ due ∈ s.main.due δ, s.now + d ≤ due
  | _ => True

instance (δ : ℤ) (s : State) : (a : Action) → Decidable (Latency δ s a)
  | .tick d => inferInstanceAs (Decidable (∀ due ∈ s.main.due δ, s.now + d ≤ due))
  | .watchDogPet | .exitFlag | .exitNotify | .run | .spuriousWakeup => isTrue trivial

/-- What is known of the thread at its program point: at a test, that it has come from `start`
or within twice the timeout after the last refresh, and not long after the notification of a
request; in the wait, that the deadline lies within twice the timeout after the last refresh,
and that a notified request has woken it. -/
def OnTime (timeout δ : ℤ) (s : State) : Pc → Prop
  | .relocking since => since = s.enteredAt
  | .testing since => since ≤ s.now ∧
      (timeout ≠ 0 → since ≤ s.enteredAt + δ ∨ since < s.lastRefreshTime + 2 * timeout + δ) ∧
      ∀ n ∈ s.notifiedAt, since ≤ max s.enteredAt n + δ
  | .waiting deadline notified =>
      (timeout ≠ 0 → deadline < s.lastRefreshTime + 2 * timeout) ∧
      (∀ n ∈ notified, n ≤ s.now) ∧ ∀ n ∈ s.notifiedAt, ∃ n' ∈ notified, n' ≤ n
  | _ => True

/-- The thread keeps its latency, and a request that it has not noticed is notified or still
to be. -/
structure Paced (timeout δ : ℤ) (s : State) : Prop where
  refreshed : s.lastRefreshTime ≤ s.now
  due : ∀ due ∈ s.main.due δ, s.now ≤ due
  onTime : OnTime timeout δ s s.main
  requested : s.main ≠ .loading → s.running = false → s.notifiedAt = none → 0 < s.pendingNotify
  notRequested : s.main ≠ .loading → s.running = true → s.notifiedAt = none
  notified_le : ∀ n ∈ s.notifiedAt, n ≤ s.now

variable {δ : ℤ}

theorem paced_create : Paced timeout δ State.create where
  refreshed := le_rfl
  due := nofun
  onTime := trivial
  requested hpc := absurd rfl hpc
  notRequested hpc := absurd rfl hpc
  notified_le := nofun

/-- A waiting thread has not slept past its deadline, nor past a notification. -/
theorem le_of_due_waiting {now deadline : ℤ} {notified : Option ℤ}
    (h : ∀ due ∈ (Pc.waiting deadline notified).due δ, now ≤ due) :
    now ≤ deadline + δ ∧ ∀ n ∈ notified, now ≤ n + δ := by
  cases notified with
  | none => exact ⟨h _ rfl, nofun⟩
  | some n =>
      have hboth := h _ rfl
      have hleft := min_le_left deadline n
      have hright := min_le_right deadline n
      refine ⟨by omega, fun n' hn' ↦ ?_⟩
      obtain rfl : n = n' := Option.some.inj hn'
      omega

theorem Paced.tick (h : Paced timeout δ s) {d : ℤ} (hd : 0 ≤ d)
    (hlatency : ∀ due ∈ s.main.due δ, s.now + d ≤ due) :
    Paced timeout δ { s with now := s.now + d } := by
  have hlater : s.now ≤ s.now + d := le_add_of_nonneg_right hd
  refine ⟨h.refreshed.trans hlater, hlatency, ?_, h.requested, h.notRequested,
    fun n hn ↦ (h.notified_le n hn).trans hlater⟩
  have honTime := h.onTime
  change OnTime timeout δ _ s.main
  cases hpc : s.main with
  | testing since =>
      rw [hpc] at honTime
      exact ⟨honTime.1.trans hlater, honTime.2⟩
  | waiting deadline notified =>
      rw [hpc] at honTime
      exact ⟨honTime.1, fun n hn ↦ (honTime.2.1 n hn).trans hlater, honTime.2.2⟩
  | relocking since =>
      rw [hpc] at honTime
      exact honTime
  | _ => exact trivial

theorem Paced.pet (h : Paced timeout δ s) (free : s.main.holdsMutex = false) :
    Paced timeout δ s.watchDogPet := by
  refine ⟨le_rfl, h.due, ?_, h.requested, h.notRequested, h.notified_le⟩
  have honTime := h.onTime
  have hrefreshed := h.refreshed
  change OnTime timeout δ s.watchDogPet s.main
  cases hpc : s.main with
  | testing since => simp [hpc, Pc.holdsMutex] at free
  | waiting deadline notified =>
      rw [hpc] at honTime
      refine ⟨fun hne ↦ ?_, honTime.2⟩
      have hdeadline := honTime.1 hne
      change deadline < s.now + 2 * timeout
      omega
  | relocking since =>
      rw [hpc] at honTime
      exact honTime
  | _ => exact trivial

theorem Paced.notify (h : Paced timeout δ s) (hδ : 0 ≤ δ) : Paced timeout δ s.notify := by
  have hnotified : ∀ n ∈ s.notify.notifiedAt, n ∈ s.notifiedAt ∨ n = s.now := by
    intro n hn
    unfold State.notify at hn
    cases hrunning : s.running with
    | true => exact .inl (by simpa [hrunning] using hn)
    | false =>
        cases hat : s.notifiedAt with
        | none => exact .inr (by simpa [hrunning, hat, eq_comm] using hn)
        | some n' => exact .inl (by simpa [hrunning, hat] using hn)
  refine ⟨h.refreshed, ?_, ?_, fun hne hrunning hnone ↦ ?_, fun hne hrunning ↦ ?_, fun n hn ↦ ?_⟩
  · have hdue := h.due
    change ∀ due ∈ (s.main.notify s.now).due δ, s.now ≤ due
    cases hpc : s.main with
    | waiting deadline notified =>
        rw [hpc] at hdue
        cases notified with
        | none =>
            intro due hmem
            obtain rfl : min deadline s.now + δ = due := Option.some.inj hmem
            have hdeadline := hdue _ rfl
            rcases min_choice deadline s.now with hmin | hmin <;> omega
        | some n => exact hdue
    | _ =>
        rw [hpc] at hdue
        exact hdue
  · have honTime := h.onTime
    change OnTime timeout δ s.notify (s.main.notify s.now)
    cases hpc : s.main with
    | testing since =>
        rw [hpc] at honTime
        refine ⟨honTime.1, honTime.2.1, fun n hn ↦ ?_⟩
        rcases hnotified n hn with hn | rfl
        · exact honTime.2.2 n hn
        · have hsince := honTime.1
          have hmax := le_max_right s.enteredAt s.now
          change since ≤ max s.enteredAt s.now + δ
          omega
    | waiting deadline notified =>
        rw [hpc] at honTime
        refine ⟨honTime.1, fun n hn ↦ ?_, fun n hn ↦ ?_⟩
        · cases notified with
          | none => exact (Option.some.inj hn).ge
          | some n' => exact honTime.2.1 n hn
        · rcases hnotified n hn with hn | rfl
          · obtain ⟨n', hn', hle⟩ := honTime.2.2 n hn
            obtain rfl : notified = some n' := hn'
            exact ⟨n', rfl, hle⟩
          · cases notified with
            | none => exact ⟨s.now, rfl, le_rfl⟩
            | some n' => exact ⟨n', rfl, honTime.2.1 n' rfl⟩
    | relocking since =>
        rw [hpc] at honTime
        exact honTime
    | _ => exact trivial
  · have hrunning' : s.running = false := hrunning
    have hsome : s.notify.notifiedAt = s.notifiedAt.or (some s.now) := by
      simp [State.notify, hrunning']
    rw [hsome] at hnone
    cases hat : s.notifiedAt <;> simp [hat] at hnone
  · unfold State.notify
    have hnone := h.notRequested (ne_loading_of_notify hne) hrunning
    have hrunning' : s.running = true := hrunning
    simp [hrunning', hnone]
  · rcases hnotified n hn with hn | rfl
    · exact h.notified_le n hn
    · exact le_rfl

/-- The thread starts to test: it has just got the mutex, or has just been woken. -/
theorem Paced.test (h : Paced timeout δ s) (hδ : 0 ≤ δ)
    (hpc : (∃ since, s.main = .relocking since) ∨
      ∃ deadline notified, s.main = .waiting deadline notified) :
    Paced timeout δ { s with main := .testing s.now } := by
  have hdue := h.due
  have honTime := h.onTime
  have hne : s.main ≠ .loading := by rcases hpc with ⟨_, hpc⟩ | ⟨_, _, hpc⟩ <;> simp [hpc]
  refine ⟨h.refreshed, fun due hmem ↦ ?_, ?_, fun _ ↦ h.requested hne, fun _ ↦ h.notRequested hne,
    h.notified_le⟩
  · obtain rfl : s.now + δ = due := Option.some.inj hmem
    exact le_add_of_nonneg_right hδ
  · rcases hpc with ⟨since, hpc⟩ | ⟨deadline, notified, hpc⟩
    · rw [hpc] at hdue honTime
      have hnow : s.now ≤ s.enteredAt + δ := honTime ▸ hdue _ rfl
      refine ⟨le_rfl, fun _ ↦ .inl hnow, fun n hn ↦ ?_⟩
      have hmax := le_max_left s.enteredAt n
      change s.now ≤ max s.enteredAt n + δ
      omega
    · rw [hpc] at hdue honTime
      obtain ⟨hdeadline, hnotified⟩ := le_of_due_waiting hdue
      refine ⟨le_rfl, fun hne ↦ .inr ?_, fun n hn ↦ ?_⟩
      · have hlate := honTime.1 hne
        change s.now < s.lastRefreshTime + 2 * timeout + δ
        omega
      · obtain ⟨n', hn', hle⟩ := honTime.2.2 n hn
        have hnow := hnotified n' hn'
        have hmax := le_max_right s.enteredAt n
        change s.now ≤ max s.enteredAt n + δ
        omega

theorem Paced.move (h : Paced timeout δ s) (hδ : 0 ≤ δ) (hlatency : Latency δ s a)
    (hmoves : Moves timeout s a t) : Paced timeout δ t := by
  have hfresh : ∀ due ∈ some (s.now + δ), s.now ≤ due := by
    intro due hmem
    obtain rfl : s.now + δ = due := Option.some.inj hmem
    exact le_add_of_nonneg_right hδ
  cases hmoves with
  | tick d hd => exact h.tick hd hlatency
  | pet free => exact h.pet free
  | flag free =>
      exact ⟨h.refreshed, h.due, h.onTime, fun _ _ _ ↦ Nat.succ_pos _,
        fun _ hrunning ↦ (by cases hrunning), h.notified_le⟩
  | notify pending => exact h.notify hδ
  | launch at_pc =>
      exact ⟨le_rfl, nofun, trivial, fun _ hrunning ↦ (by cases hrunning), fun _ _ ↦ rfl, nofun⟩
  | enter at_pc =>
      have hne : s.main ≠ .loading := by simp [at_pc]
      exact ⟨h.refreshed, hfresh, rfl, fun _ ↦ h.requested hne, fun _ ↦ h.notRequested hne,
        h.notified_le⟩
  | lock since at_pc => exact h.test hδ (.inl ⟨since, at_pc⟩)
  | wake a deadline notified at_pc => exact h.test hδ (.inr ⟨deadline, notified, at_pc⟩)
  | sleep since at_pc running fresh =>
      have hne : s.main ≠ .loading := by simp [at_pc]
      have hrefreshed := h.refreshed
      have hnone := h.notRequested hne running
      refine ⟨h.refreshed, fun due hmem ↦ ?_, ⟨fun hne' ↦ ?_, nofun, ?_⟩, fun _ ↦ h.requested hne,
        fun _ ↦ h.notRequested hne, h.notified_le⟩
      · obtain rfl : s.now + timeout + δ = due := Option.some.inj hmem
        change s.now ≤ s.now + timeout + δ
        omega
      · change s.now + timeout < s.lastRefreshTime + 2 * timeout
        omega
      · change ∀ n ∈ s.notifiedAt, _
        rw [hnone]
        nofun
  | leave since at_pc expired =>
      have hne : s.main ≠ .loading := by simp [at_pc]
      exact ⟨h.refreshed, hfresh, trivial, fun _ ↦ h.requested hne, fun _ ↦ h.notRequested hne,
        h.notified_le⟩
  | report since at_pc =>
      have hne : s.main ≠ .loading := by simp [at_pc]
      exact ⟨h.refreshed, nofun, trivial, fun _ ↦ h.requested hne, fun _ ↦ h.notRequested hne,
        h.notified_le⟩

theorem paced_of_reachable (hδ : 0 ≤ δ) (h : (system timeout).ReachableVia (Latency δ) s) :
    Paced timeout δ s := by
  refine h.invariant ?_ fun s a t hs hlatency hstep ↦ hs.move hδ hlatency (moves_of_step hstep)
  rintro s rfl
  exact paced_create

/-- While the thread is at the loop and the watch dog is enabled, the last refresh lies less
than twice the timeout and two latencies back, or `start` has just returned.  While it is there
after a request to exit, the request is still to be notified, or it has been within two
latencies, or `start` has just returned. -/
theorem loop_left_in_time (hδ : 0 ≤ δ) (h : (system timeout).ReachableVia (Latency δ) s)
    (hloop : s.main.inLoop = true) :
    (timeout ≠ 0 → s.now ≤ s.enteredAt + 2 * δ ∨
      s.now < s.lastRefreshTime + 2 * timeout + 2 * δ) ∧
      (s.running = false → s.notifiedAt = none ∧ 0 < s.pendingNotify ∨
        ∃ n, s.notifiedAt = some n ∧ s.now ≤ max s.enteredAt n + 2 * δ) := by
  have hs := paced_of_reachable hδ h
  have hdue := hs.due
  have honTime := hs.onTime
  have hne : s.main ≠ .loading := fun hloading ↦ by simp [hloading, Pc.inLoop] at hloop
  -- a request that has been notified bounds the time at every point of the loop
  suffices hbounds : (timeout ≠ 0 → s.now ≤ s.enteredAt + 2 * δ ∨
      s.now < s.lastRefreshTime + 2 * timeout + 2 * δ) ∧
      ∀ n ∈ s.notifiedAt, s.now ≤ max s.enteredAt n + 2 * δ by
    refine ⟨hbounds.1, fun hrunning ↦ ?_⟩
    cases hat : s.notifiedAt with
    | none => exact .inl ⟨rfl, hs.requested hne hrunning hat⟩
    | some n => exact .inr ⟨n, rfl, hbounds.2 n hat⟩
  cases hpc : s.main with
  | relocking since =>
      rw [hpc] at hdue honTime
      have hnow : s.now ≤ s.enteredAt + δ := honTime ▸ hdue _ rfl
      refine ⟨fun _ ↦ .inl (by omega), fun n hn ↦ ?_⟩
      have hmax := le_max_left s.enteredAt n
      omega
  | testing since =>
      rw [hpc] at hdue honTime
      have hnow : s.now ≤ since + δ := hdue _ rfl
      refine ⟨fun hne ↦ ?_, fun n hn ↦ ?_⟩
      · rcases honTime.2.1 hne with hsince | hsince <;> omega
      · have hsince := honTime.2.2 n hn
        omega
  | waiting deadline notified =>
      rw [hpc] at hdue honTime
      obtain ⟨hdeadline, hnotified⟩ := le_of_due_waiting hdue
      refine ⟨fun hne ↦ .inr ?_, fun n hn ↦ ?_⟩
      · have hlate := honTime.1 hne
        omega
      · obtain ⟨n', hn', hle⟩ := honTime.2.2 n hn
        have hnow := hnotified n' hn'
        have hmax := le_max_right s.enteredAt n
        omega
  | _ => simp [hpc, Pc.inLoop] at hloop

/-- The first test comes just before the timeout, so the thread sleeps once more. -/
def lastSleep : State where
  now := 19
  lastRefreshTime := 0
  running := true
  main := .waiting 19 none
  pendingNotify := 0
  refreshes := [0]
  requests := []
  enteredAt := 9
  notifiedAt := none

theorem loop_left_in_time_lastSleep :
    lastSleep.now ≤ lastSleep.enteredAt + 2 * 0 ∨
      lastSleep.now < lastSleep.lastRefreshTime + 2 * 10 + 2 * 0 := by
  have hreach : (system 10).ReachableVia (Latency 0) lastSleep :=
    ⟨State.create, rfl, System.reaches_of_runIf [.run, .tick 9, .run, .run, .run, .tick 10]
      (fun s a ↦ of_decide_eq_true (p := Latency 0 s a)) (by decide)⟩
  exact (loop_left_in_time le_rfl hreach rfl).1 (by decide)

end IqrfDaemon.Controller.Running
