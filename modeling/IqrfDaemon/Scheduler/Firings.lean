import IqrfDaemon.Scheduler.Timer

/-!
# What a step does to the records

Three kinds of steps change the store: a request that adds records, a removal, and
the locked section of the inner loop, which takes a record out and fires it.  All
others are quiet: they fire nothing, and in the inner loop they keep the time that
it compares with, or have just read the clock.
-/

namespace IqrfDaemon.Scheduler

open Transition

/-- The clock readings at which record `id` was taken out and pushed, or is about to be. -/
def State.firedAt (s : State) (id : ℕ) : List ℤ :=
  ((s.dispatched ++ s.timer.inHand).filter fun f ↦ f.record = id).map Firing.reading

/-- No record is added or removed. -/
def Alone (_ : State) : Action → Prop
  | .add _ _ => False
  | .remove _ => False
  | _ => True

variable {env : Env} {s t : State} {id : ℕ}

/-! ## The locked section -/

/-- The entries after a section that takes out `e`. -/
theorem mem_innerSection {e : ℤ × ℕ} (hdue : s.store.due s.timePoint = some e) {k : ℤ × ℕ} :
    k ∈ s.innerSection.store.byTime.entries ↔
      (s.timePoint ≤ ((s.store.record e.2).getNext s.timePoint s.timeStr).1 ∧
        k = (((s.store.record e.2).getNext s.timePoint s.timeStr).1, e.2)) ∨
      k ∈ s.store.byTime.entries.tail := by
  have hstore : s.innerSection.store =
      s.store.rescheduleWith ScheduleRecord.getNext e.2 s.timePoint s.timeStr :=
    Store.timerSection_of_due_some hdue
  rw [hstore]
  exact Store.mem_reschedule _

theorem firedAt_innerSection {e : ℤ × ℕ} (hpc : s.timer = .locked)
    (hdue : s.store.due s.timePoint = some e) :
    s.innerSection.firedAt id = s.firedAt id ++ if e.2 = id then [s.reading] else [] := by
  by_cases hid : e.2 = id
  · simp [State.firedAt, State.innerSection, hdue, hpc, TimerPc.inHand, hid]
  · simp [State.firedAt, State.innerSection, hdue, hpc, TimerPc.inHand, hid]

theorem firedAt_innerSection_none (hpc : s.timer = .locked)
    (hdue : s.store.due s.timePoint = none) : s.innerSection.firedAt id = s.firedAt id := by
  simp [State.firedAt, State.innerSection, hdue, hpc, TimerPc.inHand]

/-! ## The other steps -/

/-- A step that leaves the records alone. -/
structure Quiet (s t : State) : Prop where
  store : t.store = s.store
  removed : t.removed = s.removed
  now : s.now ≤ t.now
  reading : t.reading = s.reading ∨ t.reading = s.now
  hand : t.timer.inHand = [] ∨ t.timer.inHand = s.timer.inHand ∧ t.reading = s.reading
  log : (t.dispatched ++ t.timer.inHand).Sublist (s.dispatched ++ s.timer.inHand)
  inner : t.timer.inner = true → t.timePoint = t.reading ∧ t.reading = s.now ∨
    s.timer.inner = true ∧ t.timePoint = s.timePoint ∧ t.reading = s.reading

theorem Quiet.fired (h : Quiet s t) (id : ℕ) : (t.firedAt id).Sublist (s.firedAt id) :=
  List.Sublist.map _ (List.Sublist.filter _ h.log)

/-- The timer holds no record before and after. -/
theorem Quiet.of_idle (hstore : t.store = s.store) (hremoved : t.removed = s.removed)
    (hnow : t.now = s.now) (hreading : t.reading = s.reading ∨ t.reading = s.now)
    (hdispatched : t.dispatched = s.dispatched) (ht : t.timer.inHand = [])
    (hs : s.timer.inHand = [])
    (hinner : t.timer.inner = true → t.timePoint = t.reading ∧ t.reading = s.now ∨
      s.timer.inner = true ∧ t.timePoint = s.timePoint ∧ t.reading = s.reading) : Quiet s t where
  store := hstore
  removed := hremoved
  now := hnow.ge
  reading := hreading
  hand := Or.inl ht
  log := by rw [hdispatched, ht, hs]
  inner := hinner

/-- Nor is it in the inner loop afterwards. -/
theorem Quiet.of_outer (hstore : t.store = s.store) (hremoved : t.removed = s.removed)
    (hnow : t.now = s.now) (hreading : t.reading = s.reading ∨ t.reading = s.now)
    (hdispatched : t.dispatched = s.dispatched) (ht : t.timer.inHand = [])
    (hs : s.timer.inHand = []) (hout : t.timer.inner = false) : Quiet s t := by
  refine .of_idle hstore hremoved hnow hreading hdispatched ht hs fun hinner ↦ ?_
  rw [hout] at hinner
  cases hinner

/-- The timer stays where it is. -/
theorem Quiet.of_same (hstore : t.store = s.store) (hremoved : t.removed = s.removed)
    (hnow : s.now ≤ t.now) (hpc : t.timer = s.timer) (hpoint : t.timePoint = s.timePoint)
    (hreading : t.reading = s.reading) (hdispatched : t.dispatched = s.dispatched) :
    Quiet s t where
  store := hstore
  removed := hremoved
  now := hnow
  reading := Or.inl hreading
  hand := Or.inr ⟨by rw [hpc], hreading⟩
  log := by rw [hdispatched, hpc]
  inner hinner := Or.inr ⟨hpc ▸ hinner, hpoint, hreading⟩

theorem Quiet.of_dispatch {f : Firing} (hpc : s.timer = .dispatch f) :
    Quiet s (s.dispatchStep f) where
  store := rfl
  removed := rfl
  now := le_rfl
  reading := Or.inl rfl
  hand := Or.inl rfl
  log := by
    rw [hpc]
    simp only [State.dispatchStep, TimerPc.inHand, List.append_nil]
    split
    · exact List.Sublist.refl _
    · exact List.sublist_append_left _ _
  inner _ := Or.inr ⟨by rw [hpc]; rfl, rfl, rfl⟩

/-- What a step does to the records. -/
inductive Effect (env : Env) (s : State) : Action → State → Prop
  | quiet (a : Action) (t : State) (h : Quiet s t) : Effect env s a t
  | locked (at_pc : s.timer = .locked) : Effect env s .timer s.innerSection
  | add (request : Request) (rands : List (List ℤ)) (rs : List ScheduleRecord) (store : Store)
      (ok : request.records env = .ok rs)
      (added :
        Store.addScheduleRecords env (rands.map fun r ↦ (s.now, r)) rs s.store = some store) :
      Effect env s (.add request rands) { s with store := store, adder := some .inserted }
  | remove (removal : Removal) :
      Effect env s (.remove removal)
        { s with
          store := s.store.remove removal
          removed := s.removed ++ s.store.targets removal }

theorem Moves.effect {a : Action} (h : Moves env s a t) : Effect env s a t := by
  cases h with
  | add request rands rs store free ok added => exact .add request rands rs store ok added
  | remove removal free => exact .remove removal
  | innerSection at_pc free => exact .locked at_pc
  | stop | refused request rands | addUnlock held =>
    exact .quiet _ _ (.of_same rfl rfl le_rfl rfl rfl rfl rfl)
  | tick d =>
    have hnow : s.now ≤ s.now + d := Int.le_add_of_nonneg_right (by simp)
    exact .quiet _ _ (.of_same rfl rfl hnow rfl rfl rfl rfl)
  | flag a pc adder pendingStops is_flag at_pc =>
    rcases at_pc with ⟨-, rfl⟩ | ⟨hb, rfl⟩
    · exact .quiet _ _ (.of_same rfl rfl le_rfl rfl rfl rfl rfl)
    · have hhand := TimerPc.inHand_of_waiting (Or.inr hb)
      exact .quiet _ _ (.of_outer rfl rfl rfl (Or.inl rfl) rfl rfl hhand rfl)
  | woken at_pc =>
    have hhand := TimerPc.inHand_of_waiting (Or.inr at_pc)
    exact .quiet _ _ (.of_outer rfl rfl rfl (Or.inl rfl) rfl rfl hhand rfl)
  | sleep at_pc _ | wake at_pc _ =>
    have hhand := TimerPc.inHand_of_waiting at_pc
    exact .quiet _ _ (.of_outer rfl rfl rfl (Or.inl rfl) rfl rfl hhand rfl)
  | start at_pc | clear at_pc | enter at_pc _ | leave at_pc _ | leaveInner at_pc _ =>
    exact .quiet _ _ (.of_outer rfl rfl rfl (Or.inl rfl) rfl rfl (by rw [at_pc]; rfl) rfl)
  | readStart at_pc =>
    exact .quiet _ _ (.of_outer rfl rfl rfl (Or.inr rfl) rfl rfl (by rw [at_pc]; rfl) rfl)
  | readTime at_pc =>
    exact .quiet _ _ (.of_idle rfl rfl rfl (Or.inr rfl) rfl rfl (by rw [at_pc]; rfl)
      fun _ ↦ Or.inl ⟨rfl, rfl⟩)
  | enterInner at_pc run =>
    exact .quiet _ _ (.of_idle rfl rfl rfl (Or.inl rfl) rfl rfl (by rw [at_pc]; rfl)
      fun _ ↦ Or.inr ⟨by rw [at_pc]; rfl, rfl, rfl⟩)
  | dispatch f at_pc => exact .quiet _ _ (.of_dispatch at_pc)

/-- Without additions and removals only the locked section is not quiet. -/
theorem Moves.quiet {a : Action} (h : Moves env s a t) (halone : Alone s a) :
    Quiet s t ∨ a = .timer ∧ s.timer = .locked ∧ t = s.innerSection := by
  cases h.effect with
  | quiet a t h => exact Or.inl h
  | locked at_pc => exact Or.inr ⟨rfl, at_pc, rfl⟩
  | add request rands rs store ok added => exact halone.elim
  | remove removal => exact halone.elim

end IqrfDaemon.Scheduler
