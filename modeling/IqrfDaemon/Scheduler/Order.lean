import IqrfDaemon.Scheduler.Firings
import IqrfDaemon.Scheduler.Wakeup

/-!
# The order of the firings

While nothing is added or removed, the inner loop compares its first entry with the
reading of the clock, and what it stores again lies behind that reading.  So the
entries leave the time index in order, and none of them waits for a record that was
stored again.
-/

namespace IqrfDaemon.Scheduler

open Container Transition

/-- The step takes the entry out of the time index. -/
def Takes (s : State) (a : Action) (e : ℤ × ℕ) : Prop :=
  a = .timer ∧ s.timer = .locked ∧ s.store.due s.timePoint = some e

/-- Nothing is added or removed, `stop` is not called, and no entry is taken out. -/
def Undisturbed (s : State) (a : Action) : Prop :=
  Alone s a ∧ a ≠ .stop ∧ ∀ e, ¬ Takes s a e

variable {env : Env} {s t : State} {e : ℤ × ℕ}

/-! ## The time that the entries are compared with -/

/-- In the inner loop this time is the reading of the clock, unless no entry is before it. -/
def Settled (s : State) : Prop :=
  s.timer.inner = true → s.timePoint = s.reading ∨
    ∀ e ∈ s.store.byTime.entries, s.timePoint ≤ e.1

theorem settled_of_outer (h : s.timer.inner = false) : Settled s := by
  intro hinner
  rw [h] at hinner
  cases hinner

theorem Settled.move (hs : Settled s) {a : Action} (h : Moves env s a t) (halone : Alone s a) :
    Settled t := by
  intro hinner
  rcases h.quiet halone with hquiet | ⟨-, hpc, rfl⟩
  · rcases hquiet.inner hinner with ⟨hpoint, -⟩ | ⟨hinner', hpoint, hreading⟩
    · exact Or.inl hpoint
    · rw [hquiet.store, hpoint, hreading]
      exact hs hinner'
  · exact Or.inr fun _ he ↦ Store.nextWakeup_le _ he

theorem Settled.reaches (hs : Settled s) (h : (system env).Reaches Alone s t) : Settled t :=
  h.preserves (I := Settled) (fun _ _ _ hs halone hstep ↦ hs.move (moves_of_step hstep) halone) hs

section Taking

variable {a : Action}

theorem Takes.entries (h : Takes s a e) :
    ∃ rest, s.store.byTime.entries = e :: rest ∧ e.1 < s.timePoint :=
  Store.due_eq_some h.2.2

theorem Takes.mem (h : Takes s a e) : e ∈ s.store.byTime.entries := by
  obtain ⟨rest, hentries, -⟩ := h.entries
  rw [hentries]
  exact List.mem_cons_self

theorem Takes.le (h : Takes s a e) {b : ℤ × ℕ} (hb : b ∈ s.store.byTime.entries) :
    e.1 ≤ b.1 := by
  obtain ⟨rest, hentries, -⟩ := h.entries
  exact Multimap.begin_le hentries hb

theorem Takes.timePoint_eq (h : Takes s a e) (hs : Settled s) : s.timePoint = s.reading := by
  obtain ⟨rest, hentries, hlt⟩ := h.entries
  rcases hs (by rw [h.2.1]; rfl) with heq | hle
  · exact heq
  · exact absurd hlt (not_lt.mpr (hle e h.mem))

theorem Takes.step_eq (h : Takes s a e) (hstep : (system env).step s a = some t) :
    t = s.innerSection := by
  obtain ⟨rfl, hpc, -⟩ := h
  change s.timerStep env = some t at hstep
  rw [State.timerStep, hpc] at hstep
  exact (Option.some.inj (Option.ite_none_right_eq_some.mp hstep).2).symm

end Taking

/-! ## Behind a firing -/

/-- Every entry lies at `key` or later, and that of record `id` at `bound` or later. -/
structure Behind (key bound : ℤ) (id : ℕ) (s : State) : Prop where
  all : ∀ e ∈ s.store.byTime.entries, key ≤ e.1
  own : ∀ k, (k, id) ∈ s.store.byTime.entries → bound ≤ k

section Runs

variable {key bound : ℤ} {id : ℕ}

theorem Behind.innerSection (hs : Behind key bound id s) : Behind key bound id s.innerSection := by
  cases hdue : s.store.due s.timePoint with
  | none =>
    have hstore : s.innerSection.store = s.store := Store.timerSection_of_due_none hdue
    exact ⟨fun e he ↦ hs.all e (hstore ▸ he), fun k hk ↦ hs.own k (hstore ▸ hk)⟩
  | some e =>
    obtain ⟨rest, hentries, hlt⟩ := Store.due_eq_some hdue
    have he : e ∈ s.store.byTime.entries := by rw [hentries]; exact List.mem_cons_self
    refine ⟨fun b hb ↦ ?_, fun k hk ↦ ?_⟩
    · rcases (mem_innerSection hdue).mp hb with ⟨hnext, rfl⟩ | hmem
      · exact (hs.all e he).trans (hlt.le.trans hnext)
      · exact hs.all b (List.mem_of_mem_tail hmem)
    · rcases (mem_innerSection hdue).mp hk with ⟨hnext, heq⟩ | hmem
      · obtain ⟨rfl, hid⟩ := Prod.mk.inj heq
        have hown : bound ≤ e.1 := hs.own e.1 (by rw [hid]; exact he)
        exact hown.trans (hlt.le.trans hnext)
      · exact hs.own k (List.mem_of_mem_tail hmem)

theorem Behind.move (hs : Behind key bound id s) {a : Action} (h : Moves env s a t)
    (halone : Alone s a) : Behind key bound id t := by
  rcases h.quiet halone with hquiet | ⟨-, -, rfl⟩
  · exact ⟨hquiet.store ▸ hs.all, hquiet.store ▸ hs.own⟩
  · exact hs.innerSection

theorem Behind.reaches (hs : Behind key bound id s) (h : (system env).Reaches Alone s t) :
    Behind key bound id t :=
  h.preserves (I := Behind key bound id)
    (fun _ _ _ hs halone hstep ↦ hs.move (moves_of_step hstep) halone) hs

/-- After a taking every entry lies behind it, and the record that was taken out behind the
reading of the clock. -/
theorem Takes.behind {a : Action} (h : Takes s a e) (hs : Settled s) (hwf : s.store.Wf) :
    Behind e.1 s.reading e.2 s.innerSection := by
  obtain ⟨rest, hentries, hlt⟩ := h.entries
  have hrest : ∀ b ∈ s.store.byTime.entries.tail, b ∈ s.store.byTime.entries :=
    fun b hb ↦ List.mem_of_mem_tail hb
  refine ⟨fun b hb ↦ ?_, fun k hk ↦ ?_⟩
  · rcases (mem_innerSection h.2.2).mp hb with ⟨hnext, rfl⟩ | hmem
    · exact hlt.le.trans hnext
    · exact h.le (hrest b hmem)
  · rcases (mem_innerSection h.2.2).mp hk with ⟨hnext, heq⟩ | hmem
    · obtain ⟨rfl, -⟩ := Prod.mk.inj heq
      rw [← h.timePoint_eq hs]
      exact hnext
    · have hnodup : (s.store.byTime.entries.map Prod.snd).Nodup := hwf.nodup
      rw [hentries, List.map_cons, List.nodup_cons] at hnodup
      rw [hentries, List.tail_cons] at hmem
      exact absurd (List.mem_map_of_mem hmem) hnodup.1

end Runs

/-! ## A wake-up with an expired entry -/

/-- The timer has not left the inner loop, and its next section takes out `e`. -/
structure AboutToTake (e : ℤ × ℕ) (s : State) : Prop where
  at_pc : s.timer = .testInner ∨ s.timer = .locked
  run : s.runTimerThread = true
  due : s.store.due s.timePoint = some e

theorem Store.due_of_head {store : Store} {timePoint : ℤ}
    (hhead : store.byTime.entries.head? = some e) (hlt : e.1 < timePoint) :
    store.due timePoint = some e := by
  rw [Store.due, hhead, Option.filter_some, if_pos (by simpa using hlt)]

theorem AboutToTake.move (hs : AboutToTake e s) {a : Action} (h : Moves env s a t)
    (hundisturbed : Undisturbed s a) : AboutToTake e t := by
  obtain ⟨hpc, hrun, hdue⟩ := hs
  obtain ⟨halone, hstop, htakes⟩ := hundisturbed
  -- the timer is at no other point
  have helse : ∀ pc, s.timer = pc → pc ≠ .testInner → pc ≠ .locked → AboutToTake e t := by
    rintro pc rfl hne hne'
    exact (hpc.elim hne hne').elim
  have hawake : s.timer.isBlocked = false := by
    rcases hpc with h | h <;> rw [h] <;> rfl
  cases h with
  | stop => exact (hstop rfl).elim
  | tick d | addUnlock held => exact ⟨hpc, hrun, hdue⟩
  | add request rands rs store free ok added => exact halone.elim
  | refused request rands => exact halone.elim
  | remove removal free => exact halone.elim
  | flag a pc adder pendingStops is_flag at_pc =>
    rcases at_pc with ⟨-, rfl⟩ | ⟨hblocked, -⟩
    · exact ⟨hpc, hrun, hdue⟩
    · rw [hawake] at hblocked
      cases hblocked
  | woken at_pc =>
    rw [hawake] at at_pc
    cases at_pc
  | sleep at_pc _ | wake at_pc _ =>
    rcases at_pc with h | h
    · exact helse _ h (by simp) (by simp)
    · rw [hawake] at h
      cases h
  | enterInner at_pc run => exact ⟨Or.inr rfl, hrun, hdue⟩
  | leaveInner at_pc run =>
    rw [hrun] at run
    cases run
  | innerSection at_pc free => exact (htakes e ⟨rfl, at_pc, hdue⟩).elim
  | start at_pc | readStart at_pc | enter at_pc _ | leave at_pc _ | clear at_pc | readTime at_pc
  | dispatch f at_pc => exact helse _ at_pc (by simp) (by simp)

theorem AboutToTake.reaches (hs : AboutToTake e s) (h : (system env).Reaches Undisturbed s t) :
    AboutToTake e t :=
  h.preserves (I := AboutToTake e)
    (fun _ _ _ hs hguard hstep ↦ hs.move (moves_of_step hstep) hguard) hs

/-- The wake-up reads the clock and enters the inner loop. -/
theorem readTime_step (hpc : s.timer = .readTime) (hstep : (system env).step s .timer = some t) :
    t = { s.getTime env with timer := .testInner } := by
  change s.timerStep env = some t at hstep
  rw [State.timerStep, hpc] at hstep
  exact (Option.some.inj hstep).symm

/-- Entries are taken out in the order of their times.  When a record is taken out once more,
no entry is left that had expired by the clock reading of the time before.  And a wake-up at
which the first entry has expired, with the run flag up, keeps the timer in the inner loop
until that entry is taken out, unless `stop` is called. -/
theorem taken_in_order (env : Env) (s₀ : State) (h : (system env).Reachable s₀)
    (houter : s₀.timer.inner = false) :
    (∀ s a e s' t b e', (system env).Reaches Alone s₀ s → Takes s a e →
      (system env).step s a = some s' → (system env).Reaches Alone s' t → Takes t b e' →
        e.1 ≤ e'.1 ∧ (e'.2 = e.2 → ∀ x ∈ s.store.byTime.entries, x.1 < s.reading →
          x ∉ t.store.byTime.entries)) ∧
      ∀ w w' e t, (system env).Reaches Alone s₀ w → w.timer = .readTime →
        w.runTimerThread = true → (system env).step w .timer = some w' →
          w'.store.byTime.entries.head? = some e → e.1 < w'.reading →
            (system env).Reaches Undisturbed w' t →
              (t.timer = .testInner ∨ t.timer = .locked) ∧ t.store.due t.timePoint = some e := by
  refine ⟨?_, ?_⟩
  · intro s a e s' t b e' hrun htakes hstep hrest htakes'
    have hsettled : Settled s := (settled_of_outer houter).reaches hrun
    have hwf : s.store.Wf := store_wf (h.reaches hrun.any)
    obtain rfl := htakes.step_eq hstep
    have hbehind := (htakes.behind hsettled hwf).reaches hrest
    refine ⟨hbehind.all e' htakes'.mem, fun hid x _ hx hpending ↦ ?_⟩
    -- the record comes first again, so what is pending is not before its new time
    have hown : s.reading ≤ e'.1 := hbehind.own e'.1 (by rw [← hid]; exact htakes'.mem)
    have hfirst : e'.1 ≤ x.1 := htakes'.le hpending
    omega
  · intro w w' e t _ hpc hflag hstep hhead hexpired hrest
    obtain rfl := readTime_step hpc hstep
    have hdue := Store.due_of_head hhead hexpired
    have habout : AboutToTake e { w.getTime env with timer := .testInner } :=
      ⟨Or.inl rfl, hflag, hdue⟩
    exact ⟨(habout.reaches hrest).at_pc, (habout.reaches hrest).due⟩

/-- The overdue task, when the timer has waited and is about to read the clock. -/
def overdueWoken : State :=
  { withOverdueTask with runTimerThread := true, timer := .readTime, adder := none }

theorem withOverdueTask_reachable : (system epochDay).Reachable withOverdueTask :=
  System.reachable_of_run [overdueTask] ⟨1, rfl⟩ rfl

theorem reaches_overdueWoken :
    (system epochDay).Reaches Alone withOverdueTask overdueWoken :=
  System.reaches_of_run [.addFlag, .addUnlock, .start, .timer, .timer, .timer, .timer, .timer]
    (by simp [Alone]) rfl

def overdueRead : State := { overdueWoken with timer := .testInner }

theorem overdueRead_undisturbed :
    (system epochDay).Reaches Undisturbed overdueRead { overdueRead with timer := .locked } := by
  have htest : ∀ e, ¬ Takes overdueRead .timer e := fun e h ↦ by cases h.2.1
  exact Relation.ReflTransGen.refl.tail ⟨.timer, ⟨trivial, by simp, htest⟩, rfl⟩

theorem taken_in_order_overdue :
    (({ overdueRead with timer := .locked } : State).timer = .testInner ∨
        ({ overdueRead with timer := .locked } : State).timer = .locked) ∧
      overdueRead.store.due overdueRead.timePoint = some (0, 0) :=
  (taken_in_order epochDay withOverdueTask withOverdueTask_reachable rfl).2 overdueWoken
    overdueRead (0, 0) { overdueRead with timer := .locked } reaches_overdueWoken rfl rfl rfl rfl
      (by decide) overdueRead_undisturbed

/-- With `stop` after the clock was read, the timer leaves the inner loop and takes out
nothing, although the task is due. -/
def overdueStopped : State :=
  { overdueRead with runTimerThread := false, timer := .testRun, pendingStops := 1 }

theorem stop_leaves_overdue :
    (system epochDay).Reachable withOverdueTask ∧ withOverdueTask.timer.inner = false ∧
      (system epochDay).Reaches Alone withOverdueTask overdueWoken ∧
        (system epochDay).step overdueWoken .timer = some overdueRead ∧
          overdueRead.store.byTime.entries.head? = some (0, 0) ∧ 0 < overdueRead.reading ∧
            (system epochDay).Reaches (fun s a ↦ Alone s a ∧ ∀ e, ¬ Takes s a e) overdueRead
              overdueStopped ∧
              overdueStopped.timer.inner = false ∧
                overdueStopped.store.byTime.entries = [(0, 0)] := by
  have hstop : ∀ s e, ¬ Takes s .stop e := fun s e h ↦ by cases h.1
  have htest : ∀ e, ¬ Takes { overdueRead with runTimerThread := false, pendingStops := 1 }
      .timer e := fun e h ↦ by cases h.2.1
  refine ⟨withOverdueTask_reachable, rfl, reaches_overdueWoken, rfl, rfl, by decide, ?_, rfl, rfl⟩
  have hfirst := Relation.ReflTransGen.refl (a := overdueRead)
    (r := (system epochDay).StepVia fun s a ↦ Alone s a ∧ ∀ e, ¬ Takes s a e)
  exact (hfirst.tail ⟨.stop, ⟨trivial, hstop _⟩, rfl⟩).tail ⟨.timer, ⟨trivial, htest⟩, rfl⟩

end IqrfDaemon.Scheduler
