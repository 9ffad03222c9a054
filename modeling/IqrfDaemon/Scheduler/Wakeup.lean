import IqrfDaemon.Scheduler.Firings

/-!
# The timer is woken in time, and mostly not too early

While the timer waits, every entry is due no earlier than the wake-up, unless the
flag is up, the wait is over or an adder is about to raise the flag.  After a
firing `timePoint` is the next wake-up and no longer the present, so an entry
added between the two before the next test is taken out early.
-/

namespace IqrfDaemon.Scheduler

open Json Container Transition

variable {env : Env} {s t : State}

theorem Store.nextWakeup_le {store : Store} {e : ℤ × ℕ} (timePoint : ℤ)
    (he : e ∈ store.byTime.entries) : store.nextWakeup timePoint ≤ e.1 := by
  unfold Store.nextWakeup
  cases hentries : store.byTime.entries with
  | nil => simp [hentries] at he
  | cons first rest => exact Multimap.begin_le hentries he

/-! ## No lost wake-up -/

/-- A wait for `timePoint` misses nothing: the flag is up, the wait is over, no entry
is due before, or the adder that has just inserted will raise the flag. -/
def Covered (s : State) : Prop :=
  s.scheduledTaskPushed = true ∨ s.timePoint ≤ s.now ∨
    (∀ e ∈ s.store.byTime.entries, s.timePoint ≤ e.1) ∨ s.adder = some .inserted

/-- The wait is covered from the outer loop test on, unless the run flag is down and
the test fails. -/
structure Watchful (s : State) : Prop where
  test : s.timer = .testRun → Covered s ∨ s.runTimerThread = false
  wait : s.timer = .lock ∨ s.timer.isBlocked = true → Covered s
  asleep : s.timer = .blocked false → s.scheduledTaskPushed = false

theorem Covered.mono (hs : Covered s) (hflag : s.scheduledTaskPushed = t.scheduledTaskPushed)
    (hpoint : s.timePoint = t.timePoint) (hnow : s.now ≤ t.now)
    (hentries : ∀ e ∈ t.store.byTime.entries, e ∈ s.store.byTime.entries)
    (hadder : s.adder = some .inserted → t.adder = some .inserted) : Covered t := by
  rcases hs with h | h | h | h
  · exact Or.inl (hflag ▸ h)
  · exact Or.inr (Or.inl (by omega))
  · exact Or.inr (Or.inr (Or.inl fun e he ↦ hpoint ▸ h e (hentries e he)))
  · exact Or.inr (Or.inr (Or.inr (hadder h)))

theorem watchful_create (now : ℤ) : Watchful (State.create env now) := by
  constructor <;> simp [State.create, TimerPc.isBlocked]

theorem Watchful.move (hs : Watchful s) {a : Action} (h : Moves env s a t) : Watchful t := by
  obtain ⟨htest, hwait, hasleep⟩ := hs
  cases h with
  | stop => exact ⟨fun _ ↦ Or.inr rfl, hwait, hasleep⟩
  | flag a pc adder pendingStops is_flag at_pc =>
      refine ⟨fun _ ↦ Or.inl (Or.inl rfl), fun _ ↦ Or.inl rfl, ?_⟩
      rintro rfl
      rcases at_pc with ⟨hawake, heq⟩ | ⟨-, heq⟩
      · simp [← heq, TimerPc.isBlocked] at hawake
      · simp at heq
  | tick d =>
      have hmono : Covered s → Covered { s with now := s.now + d } := fun hc ↦
        hc.mono rfl rfl (by simp) (fun _ he ↦ he) id
      exact ⟨fun hpc ↦ (htest hpc).imp hmono id, fun hpc ↦ hmono (hwait hpc), hasleep⟩
  | add request rands rs store free ok added =>
      have hcovered : Covered { s with store := store, adder := some .inserted } :=
        Or.inr (Or.inr (Or.inr rfl))
      exact ⟨fun _ ↦ Or.inl hcovered, fun _ ↦ hcovered, hasleep⟩
  | refused request rands => exact ⟨htest, hwait, hasleep⟩
  | addUnlock held =>
      have hmono : Covered s → Covered { s with adder := none } := fun hc ↦
        hc.mono rfl rfl le_rfl (fun _ he ↦ he) (by simp [held])
      exact ⟨fun hpc ↦ (htest hpc).imp hmono id, fun hpc ↦ hmono (hwait hpc), hasleep⟩
  | remove removal free =>
      have hmono : ∀ removed, Covered s →
          Covered { s with store := s.store.remove removal, removed := removed } := fun _ hc ↦
        hc.mono rfl rfl le_rfl (fun _ he ↦ Store.mem_of_mem_remove he) id
      exact ⟨fun hpc ↦ (htest hpc).imp (hmono _) id, fun hpc ↦ hmono _ (hwait hpc), hasleep⟩
  | woken at_pc =>
      have hcovered := hwait (Or.inr at_pc)
      exact ⟨by simp, fun _ ↦ hcovered, by simp⟩
  | readStart at_pc =>
      refine ⟨fun _ ↦ Or.inl (Or.inr (Or.inl le_rfl)), ?_, ?_⟩ <;> simp [TimerPc.isBlocked]
  | enter at_pc run =>
      have hcovered := (htest at_pc).resolve_right (by simp [run])
      exact ⟨by simp, fun _ ↦ hcovered, by simp⟩
  | sleep at_pc flag => exact ⟨by simp, fun _ ↦ hwait at_pc, fun _ ↦ flag⟩
  | leaveInner at_pc run => exact ⟨fun _ ↦ Or.inr run, by simp [TimerPc.isBlocked], by simp⟩
  | innerSection at_pc free =>
      have hcovered : Covered s.innerSection :=
        Or.inr (Or.inr (Or.inl fun e he ↦ Store.nextWakeup_le _ he))
      refine ⟨fun _ ↦ Or.inl hcovered, fun _ ↦ hcovered, ?_⟩
      intro hpc
      rcases innerSection_timer s with h | ⟨f, h⟩
      · rw [h] at hpc
        cases hpc
      · rw [h] at hpc
        cases hpc
  | dispatch f at_pc => constructor <;> simp [State.dispatchStep, TimerPc.isBlocked]
  | start | leave | wake | clear | readTime | enterInner =>
      constructor <;> simp [TimerPc.isBlocked]

/-- No wake-up is lost: whenever the timer waits for `timePoint`, the flag is up, the
wait is over, every entry is due no earlier, or an adder still holds
`m_scheduledTasksMutex` and has yet to raise the flag; and a timer that is still
asleep has not missed a flag. -/
theorem blocked_covered (env : Env) (s : State) (h : (system env).Reachable s)
    (hblocked : s.timer.isBlocked = true) :
    (s.scheduledTaskPushed = true ∨ s.timePoint ≤ s.now ∨
      (∀ e ∈ s.store.byTime.entries, s.timePoint ≤ e.1) ∨ s.adder = some .inserted) ∧
      (s.timer = .blocked false → s.scheduledTaskPushed = false) := by
  have hs : Watchful s := by
    refine System.Reachable.invariant ?_ ?_ h
    · rintro s ⟨now, rfl⟩
      exact watchful_create now
    · intro s a t hs hstep
      exact hs.move (moves_of_step hstep)
  exact ⟨hs.wait (Or.inr hblocked), hs.asleep⟩

def asleepAtStart : State :=
  { State.create epochDay 0 with runTimerThread := true, timer := .blocked false }

theorem blocked_covered_asleepAtStart :
    asleepAtStart.scheduledTaskPushed = true ∨ asleepAtStart.timePoint ≤ asleepAtStart.now ∨
      (∀ e ∈ asleepAtStart.store.byTime.entries, asleepAtStart.timePoint ≤ e.1) ∨
        asleepAtStart.adder = some .inserted :=
  (blocked_covered epochDay asleepAtStart
    (System.reachable_of_run [.start, .timer, .timer, .timer] ⟨0, rfl⟩ rfl) rfl).1

/-! ## No early firing -/

/-- Inside the inner loop every entry before `timePoint` is due at the present time. -/
structure Punctual (s : State) : Prop where
  entries : s.timer.inner = true → ∀ e ∈ s.store.byTime.entries,
    s.timePoint ≤ e.1 ∨ e.1 ≤ s.now
  taken : ∀ f, s.timer = .dispatch f → f.stored ≤ s.now

/-- While the timer is inside the inner loop, no record is added whose time lies
between the present and `timePoint`. -/
def addsOutsideGap (env : Env) (s : State) : Action → Prop
  | .add request _ => s.timer.inner = true → ∀ rs, request.records env = .ok rs → ∀ r ∈ rs,
      s.timePoint ≤ (r.getNext s.now (env.localtime (toTimeT s.now))).1 ∨
        (r.getNext s.now (env.localtime (toTimeT s.now))).1 ≤ s.now
  | _ => True

theorem Punctual.add (hs : Punctual s) {request : Request} {rands : List (List ℤ)}
    {rs : List ScheduleRecord} {store : Store} (ok : request.records env = .ok rs)
    (added : Store.addScheduleRecords env (rands.map fun r ↦ (s.now, r)) rs s.store = some store)
    (hgap : addsOutsideGap env s (.add request rands)) :
    Punctual { s with store := store, adder := some .inserted } := by
  refine ⟨fun hinner ↦ ?_, hs.taken⟩
  refine Store.addScheduleRecords_induction
    (P := fun u ↦ ∀ e ∈ u.byTime.entries, s.timePoint ≤ e.1 ∨ e.1 ≤ s.now) added
    (hs.entries hinner) ?_
  intro u now r handle hnow hr _ hu e he
  have hnow : now = s.now := by
    obtain ⟨_, hmem, rfl⟩ := List.mem_map.mp hnow
    obtain ⟨_, _, rfl⟩ := List.mem_map.mp hmem
    rfl
  subst hnow
  rcases Multimap.mem_entries_insert.mp he with rfl | he
  · exact hgap hinner rs ok r hr
  · exact hu e he

theorem Punctual.innerSection (hs : Punctual s) (hpc : s.timer = .locked) :
    Punctual s.innerSection := by
  refine ⟨fun _ e he ↦ Or.inl (Store.nextWakeup_le _ he), ?_⟩
  intro f hf
  simp only [State.innerSection] at hf
  cases hdue : s.store.due s.timePoint with
  | none => simp [hdue] at hf
  | some e =>
      obtain ⟨rest, hentries, hlt⟩ := Store.due_eq_some hdue
      obtain rfl : ⟨e.2, e.1, s.reading⟩ = f := by simpa [hdue] using hf
      have hmem : e ∈ s.store.byTime.entries := by simp [hentries]
      have hentry := hs.entries (by simp [hpc, TimerPc.inner]) e hmem
      exact hentry.resolve_left (not_le.mpr hlt)

theorem Punctual.quiet (hs : Punctual s) (h : Quiet s t) : Punctual t := by
  refine ⟨fun hinner e he ↦ ?_, fun f hf ↦ ?_⟩
  · rw [h.store] at he
    rcases h.inner hinner with ⟨hpoint, hreading⟩ | ⟨hinner', hpoint, -⟩
    · -- the clock was just read
      rw [hpoint, hreading]
      exact (le_total s.now e.1).imp_right fun hle ↦ hle.trans h.now
    · rw [hpoint]
      exact (hs.entries hinner' e he).imp_right fun hle ↦ hle.trans h.now
  · have hhand : t.timer.inHand = [f] := by rw [hf]; rfl
    rcases h.hand with hnone | ⟨hsame, -⟩
    · rw [hnone] at hhand
      cases hhand
    · rw [hsame] at hhand
      exact (hs.taken f (TimerPc.eq_dispatch_of_inHand hhand)).trans h.now

theorem Punctual.move (hs : Punctual s) {a : Action} (h : Moves env s a t)
    (hgap : addsOutsideGap env s a) : Punctual t := by
  cases h.effect with
  | quiet a t hquiet => exact hs.quiet hquiet
  | locked at_pc => exact hs.innerSection at_pc
  | add request rands rs store ok added => exact hs.add ok added hgap
  | remove removal =>
    exact ⟨fun hinner e he ↦ hs.entries hinner e (Store.mem_of_mem_remove he), hs.taken⟩

/-- No record is taken out before the time it was stored under, in every run in which
no record is added into the gap between the present time and the next wake-up
while the timer is inside the inner loop. -/
theorem dispatch_due (env : Env) (s : State)
    (h : (system env).ReachableVia (addsOutsideGap env) s) (f : Firing)
    (hf : s.timer = .dispatch f) : f.stored ≤ s.now := by
  have hs : Punctual s := by
    refine System.ReachableVia.invariant ?_ ?_ h
    · rintro s ⟨now, rfl⟩
      refine ⟨?_, ?_⟩ <;> simp [State.create, TimerPc.inner]
    · intro s a t hs hgap hstep
      exact hs.move (moves_of_step hstep) hgap
  exact hs.taken f hf

/-- A task due at time zero, added at time one before the timer starts. -/
def overdueTask : Action := .add (.scheduleTaskAt "client" "overdue" 0 7) [[]]

def withOverdueTask : State :=
  { State.create epochDay 1 with
    store := Store.empty.insertRecord 0 (.atTime epochDay 7 "client" "overdue" 0) 7
    adder := some .inserted }

/-- The overdue task taken out: nothing is left and the next wake-up is ten seconds
away. -/
def overdueTaken : State :=
  { withOverdueTask with
    store := withOverdueTask.store.timerSection 1 (epochDay.localtime 0)
    runTimerThread := true
    timer := .dispatch ⟨0, 0, 1⟩
    timePoint := 1 + seconds 10
    adder := none }

theorem overdueTaken_reachableVia :
    (system epochDay).ReachableVia (addsOutsideGap epochDay) overdueTaken := by
  have hadd : (system epochDay).ReachableVia (addsOutsideGap epochDay) withOverdueTask :=
    System.ReachableVia.step (a := overdueTask) (.of_init ⟨1, rfl⟩)
      (fun hinner ↦ absurd hinner (by decide)) rfl
  apply hadd.reaches
  exact System.reaches_of_run [.addFlag, .addUnlock, .start, .timer, .timer, .timer, .timer,
    .timer, .timer, .timer, .timer] (by simp [addsOutsideGap]) rfl

theorem dispatch_due_overdueTaken : (0 : ℤ) ≤ overdueTaken.now :=
  dispatch_due epochDay overdueTaken overdueTaken_reachableVia ⟨0, 0, 1⟩ rfl

/-- A task due in five seconds, added before the overdue one is pushed, has its turn in
the next round, at once. -/
def earlyTaken : State :=
  { overdueTaken with
    store := (overdueTaken.store.insertRecord (seconds 5)
      (.atTime epochDay 8 "client" "early" (seconds 5)) 8).timerSection (1 + seconds 10)
        (epochDay.localtime 0)
    scheduledTaskPushed := true
    timer := .dispatch ⟨1, seconds 5, 1⟩
    timePoint := 1 + seconds 20
    dispatched := [⟨0, 0, 1⟩] }

theorem dispatch_early :
    ∃ (s : State) (f : Firing),
      (system epochDay).Reachable s ∧ s.timer = .dispatch f ∧ s.now < f.stored := by
  refine ⟨earlyTaken, ⟨1, seconds 5, 1⟩, ?_, rfl, by decide⟩
  apply System.ReachableVia.reaches overdueTaken_reachableVia.any
  exact System.reaches_of_run [.add (.scheduleTaskAt "client" "early" (seconds 5) 8) [[]],
    .addFlag, .addUnlock, .timer, .timer, .timer] (fun _ _ _ ↦ trivial) rfl

end IqrfDaemon.Scheduler
