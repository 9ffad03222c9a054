import IqrfDaemon.Controller.Model

/-!
# The DPA handler under mode switches

The worker holds `m_modeMtx` while it uses the DPA handler only if it found the
mutex free.  A worker that found it taken goes on without it, and nothing keeps
it apart from the next switch to the service mode, which deletes the handler.
-/

namespace IqrfDaemon.Controller

open Transition

variable {s t : State}

/-- The worker is inside the DPA handler or has read a mode that sends it there. -/
def State.headsInside (s : State) : Bool :=
  match s.exec with
  | .switch n locked mode => (s.execute n locked mode).inside
  | pc => pc.inside

/-- A switch to the service mode holds the mutex and will delete the handler or take
the channel. -/
def State.deleting (s : State) : Bool :=
  match s.setter with
  | .switch .service => s.dpaExclusiveAccess
  | .storeService | .stopDpa | .setExclusive => true
  | _ => false

/-- Who owns the mutex, and that a worker heading into the handler and a switch that
deletes it exclude each other. -/
structure Apart (s : State) : Prop where
  setter_owns : s.setter ≠ .idle → s.modeMtx = some .setter
  worker_owns : s.exec.owns = true → s.modeMtx = some .worker
  apart : s.deleting = true → s.headsInside = false

/-- A switch to the service mode enters only while no worker heads into the handler,
and while it is on its way no worker reads a mode that sends it there. -/
def switchesApart (s : State) : Action → Prop
  | .setMode .service => s.dpaExclusiveAccess = true → s.headsInside = false
  | .exec => s.deleting = true → ∀ n locked, s.exec = .readMode n locked →
      (s.execute n locked s.mode).inside = false
  | _ => True

theorem execute_owns (n : ℕ) (locked : Bool) (mode : Mode) :
    (s.execute n locked mode).owns = locked := by
  cases mode <;> simp only [State.execute]
  · split <;> rfl
  · split <;> rfl
  · rfl

theorem execute_headsInside (n : ℕ) (locked : Bool) (mode : Mode) :
    State.headsInside { s with exec := s.execute n locked mode } =
      (s.execute n locked mode).inside := by
  cases mode <;> simp only [State.execute]
  · split <;> rfl
  · split <;> rfl
  · rfl

/-- Without a handler only a worker that is inside already heads there. -/
theorem headsInside_of_no_handler {u : State} (hexec : u.exec = s.exec)
    (hhandler : u.dpaHandler = false) (h : u.headsInside = true) : s.headsInside = true := by
  unfold State.headsInside at *
  rw [hexec] at h
  cases hpc : s.exec with
  | switch n locked mode => cases mode <;> simp [hpc, State.execute, hhandler, ExecPc.inside] at h
  | _ => simpa [hpc] using h

/-- Only a switch to the service mode goes on to delete the handler. -/
theorem deleting_setterSwitch (mode : Mode)
    (h : State.deleting { s with setter := s.setterSwitch mode } = true) :
    mode = .service ∧ s.dpaExclusiveAccess = true := by
  cases mode with
  | service =>
      by_cases haccess : s.dpaExclusiveAccess = true
      · exact ⟨rfl, haccess⟩
      · simp [State.deleting, State.setterSwitch, haccess] at h
  | operational =>
      by_cases hservice : (s.dpaExclusiveAccess && s.mode = .service) = true
      · simp only [State.deleting, State.setterSwitch, if_pos hservice] at h
        cases h
      · simp only [State.deleting, State.setterSwitch, if_neg hservice] at h
        cases h
  | forwarding =>
      by_cases haccess : s.dpaExclusiveAccess = true
      · by_cases hservice : s.mode = .service
        · simp [State.deleting, State.setterSwitch, haccess, hservice] at h
        · simp [State.deleting, State.setterSwitch, haccess, hservice] at h
      · simp [State.deleting, State.setterSwitch, haccess] at h

/-- Who owns the mutex. -/
structure Held (s : State) : Prop where
  setter_owns : s.setter ≠ .idle → s.modeMtx = some .setter
  worker_owns : s.exec.owns = true → s.modeMtx = some .worker

theorem Held.setter_idle (hs : Held s) (h : s.modeMtx ≠ some .setter) : s.setter = .idle := by
  by_contra hne
  exact h (hs.setter_owns hne)

theorem Held.setter_step (hs : Held s) (hpc : s.setter ≠ .idle) {u : State}
    (hmtx : u.modeMtx = s.modeMtx) (hexec : u.exec = s.exec) : Held u where
  setter_owns _ := hmtx.trans (hs.setter_owns hpc)
  worker_owns h := hmtx.trans (hs.worker_owns (hexec ▸ h))

theorem Held.move (hs : Held s) {a : Action} (h : Moves s a t) : Held t := by
  have hsetter := hs.setter_owns
  have hworker := hs.worker_owns
  cases h with
  | push | signal | stopQueue | destroyQueue | join | deleteHandler => exact ⟨hsetter, hworker⟩
  | hand | returned | lockFails | watchDogPet => exact ⟨hsetter, by simp [ExecPc.owns]⟩
  | lock n at_pc free =>
      have hidle : s.setter = .idle := hs.setter_idle (by simp [free])
      exact ⟨fun hne ↦ absurd hidle hne, fun _ ↦ rfl⟩
  | readMode _ _ at_pc | finishError _ _ at_pc | dpaFinish _ _ _ at_pc | dpaReturn _ _ _ at_pc
  | dpaThrow _ _ _ at_pc => exact ⟨hsetter, fun h ↦ hworker (by rw [at_pc]; exact h)⟩
  | switch n locked mode at_pc =>
      refine ⟨hsetter, fun h ↦ hworker ?_⟩
      rw [execute_owns] at h
      rw [at_pc]
      exact h
  | unlock n locked at_pc =>
      refine ⟨fun hne ↦ ?_, by simp [ExecPc.owns]⟩
      cases locked with
      | false => exact hsetter hne
      | true =>
          have hmtx := hworker (by rw [at_pc]; rfl)
          simp [hsetter hne] at hmtx
  | setMode mode free =>
      refine ⟨fun _ ↦ rfl, fun h ↦ ?_⟩
      have hmtx := hworker h
      simp [hmtx] at free
  | setterSwitch _ _ at_pc | resetExclusive _ _ at_pc | storeMode _ _ at_pc | newHandler _ at_pc
  | noHandler _ at_pc | submit _ _ _ at_pc | waitFinish _ _ _ at_pc | storeService _ at_pc
  | stopDpa _ at_pc | setExclusive _ at_pc | finalMode _ _ at_pc =>
      exact hs.setter_step (by simp [at_pc]) rfl rfl
  | setterUnlock created at_pc =>
      refine ⟨by simp, fun h ↦ ?_⟩
      have hmtx := hworker h
      simp [hsetter (by simp [at_pc])] at hmtx

theorem held_of_reachable (h : system.Reachable s) : Held s := by
  refine h.invariant ?_ fun s a t hs hstep ↦ hs.move (moves_of_step hstep)
  rintro s ⟨dpaHandler, dpaExclusiveAccess, dpaMessageForwarding, rfl⟩
  exact ⟨by simp [State.create], by simp [State.create, ExecPc.owns]⟩

theorem Apart.move (hs : Apart s) {a : Action} (h : Moves s a t) (hG : switchesApart s a) :
    Apart t := by
  obtain ⟨hsetter, hworker⟩ := Held.move ⟨hs.setter_owns, hs.worker_owns⟩ h
  have hapart := hs.apart
  refine ⟨hsetter, hworker, fun hdeleting ↦ ?_⟩
  cases h with
  | push | signal | stopQueue | destroyQueue | join => exact hapart hdeleting
  | hand | returned | lock | lockFails | watchDogPet | finishError | unlock | dpaReturn
  | dpaThrow => rfl
  | readMode n locked at_pc => exact hG hdeleting n locked at_pc
  | switch n locked mode at_pc =>
      have hout := hapart hdeleting
      rw [execute_headsInside]
      simpa only [State.headsInside, at_pc] using hout
  | dpaFinish n locked target at_pc =>
      have hout := hapart hdeleting
      simp [State.headsInside, at_pc, ExecPc.inside] at hout
  | setMode mode free =>
      cases mode with
      | service => exact hG hdeleting
      | operational => cases hdeleting
      | forwarding => cases hdeleting
  | setterSwitch created mode at_pc =>
      apply hapart
      obtain ⟨rfl, haccess⟩ := deleting_setterSwitch mode hdeleting
      simp only [State.deleting, at_pc]
      exact haccess
  | resetExclusive | storeMode | newHandler | noHandler | submit | waitFinish | setExclusive
  | finalMode | setterUnlock => cases hdeleting
  | storeService created at_pc => exact hapart (by simp [State.deleting, at_pc])
  | stopDpa created at_pc =>
      have hout := hapart (by simp [State.deleting, at_pc])
      by_contra hnot
      have hheads := headsInside_of_no_handler (s := s)
        (u := { s with dpaHandler := false, setter := .setExclusive }) rfl rfl (by simpa using hnot)
      simp [hout] at hheads
  | deleteHandler at_pc =>
      have hout := hapart hdeleting
      by_contra hnot
      have hheads := headsInside_of_no_handler (s := s)
        (u := { s with dpaHandler := false, stop := .handlerDeleted }) rfl rfl (by simpa using hnot)
      simp [hout] at hheads

/-- In every run whose switches to the service mode keep apart from a worker without
the mutex, the handler is not deleted and the channel not taken while the worker
is inside the handler. -/
theorem handler_not_in_use (s : State) (h : system.ReachableVia switchesApart s)
    (hsetter : s.setter = .stopDpa ∨ s.setter = .setExclusive) : s.exec.inside = false := by
  have hs : Apart s := by
    refine System.ReachableVia.invariant ?_ ?_ h
    · rintro s ⟨dpaHandler, dpaExclusiveAccess, dpaMessageForwarding, rfl⟩
      exact ⟨by simp [State.create], by simp [State.create, ExecPc.owns], by
        simp [State.create, State.deleting]⟩
    · intro s a t hs hG hstep
      exact hs.move (moves_of_step hstep) hG
  have hdeleting : s.deleting = true := by
    rcases hsetter with h | h <;> simp [State.deleting, h]
  have hout := hs.apart hdeleting
  unfold State.headsInside at hout
  cases hpc : s.exec with
  | switch n locked mode => rfl
  | _ => simpa [hpc] using hout

def deletingUnused : State :=
  { State.create true true true with
    mode := .service
    modeMtx := some .setter
    setter := .stopDpa }

theorem handler_not_in_use_deletingUnused : deletingUnused.exec.inside = false := by
  have hlocked : system.ReachableVia switchesApart
      { State.create true true true with modeMtx := some .setter, setter := .switch .service } :=
    System.ReachableVia.step (a := .setMode .service) (.of_init ⟨true, true, true, rfl⟩)
      (fun _ ↦ rfl) rfl
  have hreach : system.ReachableVia switchesApart deletingUnused :=
    hlocked.reaches (System.reaches_of_run [.setter true, .setter true] (by simp [switchesApart])
      (by decide))
  exact handler_not_in_use deletingUnused hreach (Or.inl rfl)

/-- A worker that lost the race for the mutex to a harmless switch executes a
transaction while the next switch is about to delete the handler. -/
def deletingInUse : State :=
  { State.create true true true with
    queue :=
      { TaskQueue.State.create with
        worker := .processing 0
        pendingNotify := 1
        pushed := [0]
        handed := [0] }
    mode := .service
    modeMtx := some .setter
    exec := .executing 0 false (.client 0) false
    setter := .stopDpa }

theorem handler_deleted_in_use :
    ∃ s, system.Reachable s ∧ s.setter = .stopDpa ∧ s.exec.inside = true := by
  refine ⟨deletingInUse, ?_, rfl, rfl⟩
  exact System.reachable_of_run [.executeDpaTransaction, .worker, .worker, .worker, .worker,
    .worker, .worker, .setMode .operational, .exec, .setter true, .setter true, .setter true,
    .exec, .exec, .setMode .service, .setter true, .setter true] ⟨true, true, true, rfl⟩
    (by decide)

end IqrfDaemon.Controller
