import Mathlib.Algebra.Order.Group.Int
import IqrfDaemon.Calendar.Spaced
import IqrfDaemon.Scheduler.Cron
import IqrfDaemon.Scheduler.Order

/-!
# The cadence of a periodic task

A periodic task is stored under its start time first and then, at each firing, one
period behind the clock reading.  So the first firing may follow the start time at
once, and not after one period.
-/

namespace IqrfDaemon.Scheduler

open Json Container Transition Calendar

/-- The clock readings of the firings: the one at position `k` is `k + 1` periods after the
start time at the earliest, and a period lies between one and the next. -/
structure Cadence (tp period : ℤ) (log : List ℤ) : Prop where
  kth : ∀ (k : ℕ) r, log[k]? = some r → tp + (k + 1) * seconds period ≤ r
  apart : ∀ (k : ℕ) r r', log[k]? = some r → log[k + 1]? = some r' → r + seconds period ≤ r'

/-- `scheduleTaskPeriodic` adds record `id` at time `n`, not in the middle of an inner loop. -/
def ScheduledPeriodic (env : Env) (clientId task : String) (period tp n : ℤ) (id : ℕ)
    (s : State) : Prop :=
  ∃ s₀ rand rands, (system env).Reachable s₀ ∧ s₀.timer.inner = false ∧ s₀.now = n ∧
    s₀.store.records.length = id ∧ (system env).step s₀
      (.add (.scheduleTaskPeriodic clientId task period tp rand) rands) = some s

/-- A run that started with the addition of record `id` at time `n`. -/
structure InCadence (env : Env) (period tp n : ℤ) (id : ℕ) (s : State) : Prop where
  reachable : (system env).Reachable s
  added : id < s.store.records.length
  exactTime : (s.store.record id).exactTime = false
  periodic : (s.store.record id).periodic = true
  period_eq : (s.store.record id).period = period
  settled : Settled s
  read : s.timer.inner = true → n ≤ s.reading
  now : n ≤ s.now
  stored : ∀ key, (key, id) ∈ s.store.byTime.entries →
    tp ≤ key ∧ ∀ r ∈ s.firedAt id, r + seconds period ≤ key
  after : ∀ r ∈ s.firedAt id, tp ≤ r ∧ n ≤ r
  spaced : Spaced (seconds period) (s.firedAt id)

variable {env : Env} {period tp n : ℤ} {id : ℕ} {s t : State}

theorem InCadence.wf (hs : InCadence env period tp n id s) : s.store.Wf := store_wf hs.reachable

/-- The rule of the record stays, so a step has to keep the log and the entry. -/
theorem InCadence.of_step (hs : InCadence env period tp n id s) {a : Action}
    (hstep : (system env).step s a = some t) (halone : Alone s a)
    (hread : t.timer.inner = true → n ≤ t.reading) (hnow : n ≤ t.now)
    (hstored : ∀ key, (key, id) ∈ t.store.byTime.entries →
      tp ≤ key ∧ ∀ r ∈ t.firedAt id, r + seconds period ≤ key)
    (hafter : ∀ r ∈ t.firedAt id, tp ≤ r ∧ n ≤ r)
    (hspaced : Spaced (seconds period) (t.firedAt id)) : InCadence env period tp n id t := by
  have hmove : Moves env s a t := moves_of_step hstep
  obtain ⟨hadded, b, hrule⟩ := hmove.record hs.wf hs.added
  refine ⟨hs.reachable.step hstep, hadded, ?_, ?_, ?_, hs.settled.move hmove halone, hread, hnow,
    hstored, hafter, hspaced⟩
  · rw [hrule, ScheduleRecord.setStarted_exactTime]
    exact hs.exactTime
  · rw [hrule]
    exact hs.periodic
  · rw [hrule]
    exact hs.period_eq

/-- Where the record is not taken out, little is left to show. -/
theorem InCadence.frame (hs : InCadence env period tp n id s) {a : Action}
    (hstep : (system env).step s a = some t) (halone : Alone s a)
    (hentries : ∀ key, (key, id) ∈ t.store.byTime.entries → (key, id) ∈ s.store.byTime.entries)
    (hfired : (t.firedAt id).Sublist (s.firedAt id))
    (hread : t.timer.inner = true → n ≤ t.reading) (hnow : s.now ≤ t.now) :
    InCadence env period tp n id t := by
  refine hs.of_step hstep halone hread (hs.now.trans hnow) (fun key hkey ↦ ?_)
    (fun r hr ↦ hs.after r (hfired.subset hr)) (hs.spaced.sublist hfired)
  obtain ⟨hle, hall⟩ := hs.stored key (hentries key hkey)
  exact ⟨hle, fun r hr ↦ hall r (hfired.subset hr)⟩

/-! ## The section that takes out the record -/

theorem InCadence.getNext_eq (hs : InCadence env period tp n id s) :
    ((s.store.record id).getNext s.timePoint s.timeStr).1 = s.timePoint + seconds period := by
  have hstarted := hs.wf.started id hs.added hs.exactTime hs.periodic
  simp [ScheduleRecord.getNext, hs.exactTime, hs.periodic, hstarted, hs.period_eq]

/-- It is stored again one period behind the reading of the clock. -/
theorem InCadence.fire (hs : InCadence env period tp n id s) (hperiod : 1 ≤ period)
    (hpc : s.timer = .locked) {key : ℤ} (hdue : s.store.due s.timePoint = some (key, id))
    (hstep : (system env).step s .timer = some s.innerSection) :
    InCadence env period tp n id s.innerSection := by
  have htakes : Takes s .timer (key, id) := ⟨rfl, hpc, hdue⟩
  have hpoint : s.timePoint = s.reading := htakes.timePoint_eq hs.settled
  have hread : n ≤ s.reading := hs.read (by rw [hpc]; rfl)
  obtain ⟨rest, hentries, hlt⟩ := htakes.entries
  have hlt : key < s.timePoint := hlt
  obtain ⟨hstart, hahead⟩ := hs.stored key htakes.mem
  have hfired : s.innerSection.firedAt id = s.firedAt id ++ [s.reading] := by
    rw [firedAt_innerSection hpc hdue, if_pos rfl]
  have hlast : ∀ r ∈ s.firedAt id, r + seconds period < s.reading := fun r hr ↦
    (hahead r hr).trans_lt (hpoint ▸ hlt)
  have hentry : (s.reading + seconds period, id) ∈ s.innerSection.store.byTime.entries := by
    refine (mem_innerSection hdue).mpr (Or.inl ⟨?_, ?_⟩)
    · rw [hs.getNext_eq]
      dsimp only [seconds]
      omega
    · rw [hs.getNext_eq, hpoint]
  have hwf : s.innerSection.store.Wf := hs.wf.timerSection _ _
  refine hs.of_step hstep trivial (fun _ ↦ hread) hs.now (fun k hk ↦ ?_) ?_ ?_
  · rw [hwf.key_unique hk hentry, hfired]
    refine ⟨?_, fun r hr ↦ ?_⟩
    · dsimp only [seconds]
      omega
    · rcases List.mem_append.mp hr with hr | hr
      · have := hlast r hr
        dsimp only [seconds] at *
        omega
      · rw [List.mem_singleton.mp hr]
  · rw [hfired]
    intro r hr
    rcases List.mem_append.mp hr with hr | hr
    · exact hs.after r hr
    · rw [List.mem_singleton.mp hr]
      omega
  · rw [hfired]
    exact hs.spaced.append hlast

theorem InCadence.innerSection (hs : InCadence env period tp n id s) (hperiod : 1 ≤ period)
    (hpc : s.timer = .locked) (hstep : (system env).step s .timer = some s.innerSection) :
    InCadence env period tp n id s.innerSection := by
  have hread : n ≤ s.reading := hs.read (by rw [hpc]; rfl)
  cases hdue : s.store.due s.timePoint with
  | none =>
    have hstore : s.innerSection.store = s.store := Store.timerSection_of_due_none hdue
    refine hs.frame hstep trivial (fun key hkey ↦ by rwa [hstore] at hkey) ?_ (fun _ ↦ hread)
      le_rfl
    rw [firedAt_innerSection_none hpc hdue]
  | some e =>
    obtain ⟨key, m⟩ := e
    by_cases hm : m = id
    · subst hm
      exact hs.fire hperiod hpc hdue hstep
    · have hfired : s.innerSection.firedAt id = s.firedAt id := by
        rw [firedAt_innerSection hpc hdue, if_neg hm, List.append_nil]
      refine hs.frame hstep trivial (fun k hk ↦ ?_) (by rw [hfired]) (fun _ ↦ hread) le_rfl
      rcases (mem_innerSection hdue).mp hk with ⟨-, heq⟩ | hmem
      · exact absurd (congrArg Prod.snd heq).symm hm
      · exact List.mem_of_mem_tail hmem

/-! ## Runs -/

theorem InCadence.step (hs : InCadence env period tp n id s) (hperiod : 1 ≤ period) {a : Action}
    (hstep : (system env).step s a = some t) (halone : Alone s a) :
    InCadence env period tp n id t := by
  rcases (moves_of_step hstep).quiet halone with hquiet | ⟨rfl, hpc, rfl⟩
  · refine hs.frame hstep halone (fun key hkey ↦ by rwa [hquiet.store] at hkey) (hquiet.fired id)
      (fun hinner ↦ ?_) hquiet.now
    rcases hquiet.inner hinner with ⟨-, hreading⟩ | ⟨hinner', -, hreading⟩
    · exact hs.now.trans hreading.ge
    · exact (hs.read hinner').trans hreading.ge
  · exact hs.innerSection hperiod hpc hstep

theorem InCadence.reaches (hs : InCadence env period tp n id s) (hperiod : 1 ≤ period)
    (h : (system env).Reaches Alone s t) : InCadence env period tp n id t :=
  h.preserves (I := InCadence env period tp n id)
    (fun _ _ _ hs halone hstep ↦ hs.step hperiod hstep halone) hs

/-- The record has its entry under the start time and was never taken out. -/
theorem inCadence_of_scheduled {clientId task : String}
    (h : ScheduledPeriodic env clientId task period tp n id s) :
    InCadence env period tp n id s := by
  obtain ⟨s₀, rand, rands, hreach, hout, rfl, rfl, hstep⟩ := h
  have hreachable := hreach.step hstep
  change s₀.addStep env (.scheduleTaskPeriodic clientId task period tp rand) rands = some s at hstep
  rw [State.addStep, Option.ite_none_right_eq_some] at hstep
  obtain ⟨store, hadded, rfl⟩ := Option.map_eq_some_iff.mp hstep.2
  obtain ⟨handle, rfl⟩ := Store.insertRecord_of_everyPeriod hadded
  have hnone : s₀.firedAt s₀.store.records.length = [] :=
    firedAt_eq_nil (accounted_of_reachable hreach) le_rfl
  have hinner : s₀.timer.inner = true → False := by simp [hout]
  refine ⟨hreachable, ?_, ?_, ?_, ?_, settled_of_outer hout, fun h ↦ (hinner h).elim, le_rfl,
    fun key hkey ↦ ?_, fun r hr ↦ ?_, ?_⟩
  · rw [Store.length_insertRecord]
    exact Nat.lt_succ_self _
  · rw [Store.record_insertRecord_new]
    rfl
  · rw [Store.record_insertRecord_new]
    rfl
  · rw [Store.record_insertRecord_new]
    rfl
  · refine ⟨?_, fun r hr ↦ ?_⟩
    · rcases Store.mem_insertRecord.mp hkey with heq | hold
      · exact (congrArg Prod.fst heq).ge
      · have hvalid := (store_wf hreach).valid _ (Store.pending_of_mem hold)
        exact absurd hvalid (lt_irrefl _)
    · change r ∈ s₀.firedAt _ at hr
      rw [hnone] at hr
      cases hr
  · change r ∈ s₀.firedAt _ at hr
    rw [hnone] at hr
    cases hr
  · change Spaced _ (s₀.firedAt _)
    rw [hnone]
    exact List.Pairwise.nil

/-- In any case the first firing is behind the start time, and each further one a period
behind the one before. -/
theorem InCadence.from_start (hs : InCadence env period tp n id s) {k : ℕ} {r : ℤ}
    (hk : (s.firedAt id)[k]? = some r) : tp + k * seconds period ≤ r := by
  have hle := hs.spaced.add_nsmul_le (fun r hr ↦ (hs.after r hr).1) hk
  rwa [nsmul_eq_mul] at hle

/-- Added a period after its start time, the record has the cadence that is asked for. -/
theorem InCadence.cadence (hs : InCadence env period tp n id s) (hle : tp + seconds period ≤ n) :
    Cadence tp period (s.firedAt id) where
  kth k r hk := by
    have hfirst : ∀ r ∈ s.firedAt id, tp + seconds period ≤ r :=
      fun r hr ↦ hle.trans (hs.after r hr).2
    have hkth := hs.spaced.add_nsmul_le hfirst hk
    rwa [nsmul_eq_mul, add_assoc, ← one_add_mul, add_comm 1] at hkth
  apart k r r' hk hk' := by
    obtain ⟨hlt, rfl⟩ := List.getElem?_eq_some_iff.mp hk
    obtain ⟨hlt', rfl⟩ := List.getElem?_eq_some_iff.mp hk'
    exact (List.pairwise_iff_getElem.mp hs.spaced k (k + 1) hlt hlt' (Nat.lt_succ_self k)).le

/-! ## A first firing right after the start time -/

section First

variable (env : Env) (clientId task : String) (period tp n : ℤ)

/-- The record is the only one, added at time `n`. -/
def withPeriodic : State :=
  { State.create env n with
    store := Store.empty.insertRecord tp
      (.setStarted (.everyPeriod 7 clientId task period tp) true) 7
    adder := some .inserted }

theorem withPeriodic_scheduled :
    ScheduledPeriodic env clientId task period tp n 0
      (withPeriodic env clientId task period tp n) :=
  ⟨State.create env n, 7, [[]], .of_init ⟨n, rfl⟩, rfl, rfl, rfl, rfl⟩

/-- The timer reads the clock `d` nanoseconds later and enters the inner loop. -/
def periodicLocked (d : ℕ) : State :=
  { withPeriodic env clientId task period tp n with
    runTimerThread := true
    timer := .locked
    timePoint := n + d
    timeStr := env.localtime (toTimeT (n + d))
    adder := none
    now := n + d
    reading := n + d }

theorem reaches_periodicLocked (d : ℕ) :
    (system env).Reaches Alone (withPeriodic env clientId task period tp n)
      (periodicLocked env clientId task period tp n d) :=
  System.reaches_of_run [.start, .addFlag, .addUnlock, .tick d, .timer, .timer, .timer, .timer,
    .timer, .timer] (by simp [Alone]) rfl

theorem reaches_periodicFired (d : ℕ) :
    (system env).Reaches Alone (withPeriodic env clientId task period tp n)
      (periodicLocked env clientId task period tp n d).innerSection :=
  (reaches_periodicLocked env clientId task period tp n d).step (a := .timer) trivial rfl

theorem firedAt_periodicFired {d : ℕ} (hd : tp < n + d) :
    (periodicLocked env clientId task period tp n d).innerSection.firedAt 0 = [n + d] := by
  have hdue : (periodicLocked env clientId task period tp n d).store.due (n + d) = some (tp, 0) :=
    Store.due_of_head rfl hd
  rw [firedAt_innerSection rfl hdue, if_pos rfl]
  rfl

end First

/-- A periodic task has its cadence in every run exactly if it is added a period or more after
its start time. -/
theorem periodic_cadence_iff (env : Env) (clientId task : String) (period tp n : ℤ)
    (hperiod : 1 ≤ period) :
    (∀ id s₁ s, ScheduledPeriodic env clientId task period tp n id s₁ →
      (system env).Reaches Alone s₁ s → Cadence tp period (s.firedAt id)) ↔
      tp + seconds period ≤ n := by
  constructor
  · intro hall
    by_contra hlt
    -- the first reading behind the start time is less than a period behind it
    obtain ⟨d, hd, hearly⟩ : ∃ d : ℕ, tp < n + d ∧ n + d < tp + seconds period := by
      refine ⟨(tp + 1 - n).toNat, ?_, ?_⟩
      · omega
      · dsimp only [seconds] at *
        omega
    have hcadence := hall 0 _ _ (withPeriodic_scheduled env clientId task period tp n)
      (reaches_periodicFired env clientId task period tp n d)
    rw [firedAt_periodicFired env clientId task period tp n hd] at hcadence
    have hkth := hcadence.kth 0 (n + d) rfl
    rw [Nat.cast_zero, zero_add, one_mul] at hkth
    omega
  · intro hle id s₁ s hscheduled hrun
    exact ((inCadence_of_scheduled hscheduled).reaches hperiod hrun).cadence hle

theorem periodic_cadence_iff_tenSeconds :
    (∀ id s₁ s, ScheduledPeriodic epochDay "client" "task" 10 0 (seconds 10) id s₁ →
      (system epochDay).Reaches Alone s₁ s → Cadence 0 10 (s.firedAt id)) ↔
      0 + seconds 10 ≤ seconds 10 :=
  periodic_cadence_iff epochDay "client" "task" 10 0 (seconds 10) (by decide)

/-- Added at its start time, a task with a period of ten seconds fires a nanosecond later. -/
theorem first_firing_at_once :
    ScheduledPeriodic epochDay "client" "task" 10 0 0 0
        (withPeriodic epochDay "client" "task" 10 0 0) ∧
      (system epochDay).Reaches Alone (withPeriodic epochDay "client" "task" 10 0 0)
        (periodicLocked epochDay "client" "task" 10 0 0 1).innerSection ∧
        (periodicLocked epochDay "client" "task" 10 0 0 1).innerSection.firedAt 0 = [1] ∧
          ¬ Cadence 0 10 [1] := by
  refine ⟨withPeriodic_scheduled _ _ _ _ _ _, reaches_periodicFired _ _ _ _ _ _ 1,
    firedAt_periodicFired _ _ _ _ _ _ (by decide), fun hcadence ↦ ?_⟩
  have hkth := hcadence.kth 0 1 rfl
  exact absurd hkth (by decide)

end IqrfDaemon.Scheduler
