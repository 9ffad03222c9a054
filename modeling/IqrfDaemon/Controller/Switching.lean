import IqrfDaemon.Controller.Handler
import IqrfDaemon.Controller.Modes

/-!
# Mode switches among transactions

Between the steps of a mode switch the worker executes transactions and the daemon may
be stopped.  Still a switch is one step of the mode machine: it takes effect when the
mode of service is stored, when the DPA handler has been created after service mode or
could not be, and otherwise when the mode is stored last.  Before and after a switch
the modes are therefore exclusive, as they are for a worker that holds the mutex.
-/

namespace IqrfDaemon.Controller

open Transition

/-! ## The mode machine as a system -/

namespace ModeView

/-- `stop` deletes the DPA handler in any mode. -/
inductive Action
  | setMode (mode : Mode) (created : Bool)
  | stop

def step (v : ModeView) : Action → Option ModeView
  | .setMode mode created => some (v.setMode mode created)
  | .stop => some { v with dpaHandler := false }

def system : System ModeView Action where
  init v := v.mode = .operational ∧ v.exclusiveChannel = false
  step := step

theorem exclusive_of_reachable {v : ModeView} (h : system.Reachable v) : v.Exclusive := by
  refine h.invariant ?_ ?_
  · rintro v ⟨hmode, hchannel⟩
    exact ⟨fun hservice ↦ absurd (hmode.symm.trans hservice) (by decide), fun _ ↦ hchannel,
      fun hne ↦ absurd hmode hne⟩
  · intro v a w hv hstep
    cases a with
    | setMode mode created =>
        obtain rfl := Option.some.inj hstep
        exact hv.setMode mode created
    | stop =>
        obtain rfl := Option.some.inj hstep
        exact ⟨fun hservice ↦ ⟨rfl, (hv.service hservice).2⟩, hv.others, hv.access⟩

theorem setMode_of_service {v : ModeView} (hservice : v.mode = .service)
    (haccess : v.dpaExclusiveAccess = true) {mode : Mode} (hmode : mode ≠ .service)
    (created : Bool) :
    v.setMode mode created = ⟨mode, v.dpaHandler || created, v.dpaExclusiveAccess, false⟩ := by
  cases mode with
  | operational => simp [ModeView.setMode, ModeView.leaveService, hservice, haccess]
  | forwarding => simp [ModeView.setMode, ModeView.leaveService, hservice, haccess]
  | service => exact absurd rfl hmode

theorem setMode_of_not_service {v : ModeView} {mode : Mode} (hmode : mode ≠ .service)
    (hservice : v.dpaExclusiveAccess = true → v.mode ≠ .service)
    (hforwarding : mode = .forwarding → v.dpaExclusiveAccess = true) (created : Bool) :
    v.setMode mode created = { v with mode := mode } := by
  cases mode with
  | operational =>
      by_cases haccess : v.dpaExclusiveAccess = true
      · simp [ModeView.setMode, ModeView.leaveService, hservice haccess]
      · simp [ModeView.setMode, haccess]
  | forwarding =>
      have haccess := hforwarding rfl
      simp [ModeView.setMode, ModeView.leaveService, hservice haccess, haccess]
  | service => exact absurd rfl hmode

end ModeView

/-! ## A switch in progress -/

variable {s t : State}

/-- On the way out of service mode this is the view before the switch, on the way into
it the view after it. -/
def State.view (s : State) : ModeView :=
  match s.setter with
  | .storeMode _ | .newHandler _ => ⟨.service, s.dpaHandler, s.dpaExclusiveAccess, true⟩
  | .stopDpa | .setExclusive => ⟨.service, false, s.dpaExclusiveAccess, true⟩
  | _ => ⟨s.mode, s.dpaHandler, s.dpaExclusiveAccess, s.exclusiveChannel⟩

/-- What a switch has found or established at each of its program points. -/
def Switching (s : State) : Prop :=
  match s.setter with
  | .resetExclusive mode =>
      s.mode = .service ∧ mode ≠ .service ∧ s.dpaExclusiveAccess = true
  | .storeMode mode =>
      mode ≠ .service ∧ s.dpaExclusiveAccess = true ∧ s.exclusiveChannel = false
  | .newHandler mode =>
      s.mode = mode ∧ mode ≠ .service ∧ s.dpaExclusiveAccess = true ∧ s.exclusiveChannel = false
  | .submit mode | .waitFinish mode _ => s.mode = mode
  | .storeService => s.dpaExclusiveAccess = true
  | .stopDpa => s.mode = .service ∧ s.dpaExclusiveAccess = true
  | .setExclusive => s.mode = .service ∧ s.dpaHandler = false ∧ s.dpaExclusiveAccess = true
  | .finalMode mode =>
      s.mode = mode ∨ mode ≠ .service ∧ (s.dpaExclusiveAccess = true → s.mode ≠ .service) ∧
        (mode = .forwarding → s.dpaExclusiveAccess = true)
  | .idle | .switch _ | .unlock => True

theorem switching_setterSwitch (mode : Mode) :
    Switching { s with setter := s.setterSwitch mode } := by
  cases mode with
  | operational =>
      by_cases hservice : s.dpaExclusiveAccess = true ∧ s.mode = .service
      · simp [Switching, State.setterSwitch, hservice]
      · have hnot : ¬(s.dpaExclusiveAccess && s.mode = .service) = true := by simpa using hservice
        simp only [Switching, State.setterSwitch, if_neg hnot]
        exact .inr ⟨by decide, fun haccess hmode ↦ hservice ⟨haccess, hmode⟩,
          fun h ↦ absurd h (by decide)⟩
  | forwarding =>
      by_cases haccess : s.dpaExclusiveAccess = true
      · by_cases hservice : s.mode = .service
        · simp [Switching, State.setterSwitch, haccess, hservice]
        · simp [Switching, State.setterSwitch, haccess, hservice]
      · simp [Switching, State.setterSwitch, haccess]
  | service =>
      by_cases haccess : s.dpaExclusiveAccess = true
      · simp [Switching, State.setterSwitch, haccess]
      · simp [Switching, State.setterSwitch, haccess]

theorem Switching.move (hs : Switching s) {a : Action} (h : Moves s a t) : Switching t := by
  cases h with
  | push | signal | hand | lock | lockFails | readMode | switch | finishError | unlock
  | watchDogPet | returned | dpaFinish | dpaReturn | dpaThrow | stopQueue | destroyQueue
  | join => exact hs
  | deleteHandler at_pc =>
      unfold Switching at *
      cases hpc : s.setter <;> simp_all
  | setMode | setterUnlock => trivial
  | setterSwitch created mode at_pc => exact switching_setterSwitch mode
  | resetExclusive created mode at_pc =>
      simp only [Switching, at_pc] at hs
      exact ⟨hs.2.1, hs.2.2, rfl⟩
  | storeMode created mode at_pc =>
      simp only [Switching, at_pc] at hs
      exact ⟨rfl, hs⟩
  | newHandler mode at_pc =>
      simp only [Switching, at_pc] at hs
      exact hs.1
  | noHandler mode at_pc =>
      simp only [Switching, at_pc] at hs
      exact .inl hs.1
  | submit created mode queue at_pc =>
      simp only [Switching, at_pc] at hs
      exact hs
  | waitFinish created mode n at_pc =>
      simp only [Switching, at_pc] at hs
      exact .inl hs
  | storeService created at_pc =>
      simp only [Switching, at_pc] at hs
      exact ⟨rfl, hs⟩
  | stopDpa created at_pc =>
      simp only [Switching, at_pc] at hs
      exact ⟨hs.1, rfl, hs.2⟩
  | setExclusive created at_pc =>
      simp only [Switching, at_pc] at hs
      exact .inl hs.1
  | finalMode => trivial

theorem switching_of_reachable (h : system.Reachable s) : Switching s := by
  refine h.invariant ?_ fun s a t hs hstep ↦ hs.move (moves_of_step hstep)
  rintro s ⟨dpaHandler, dpaExclusiveAccess, dpaMessageForwarding, rfl⟩
  trivial

/-! ## Refinement -/

theorem view_setterSwitch (mode : Mode) :
    State.view { s with setter := s.setterSwitch mode } =
      ⟨s.mode, s.dpaHandler, s.dpaExclusiveAccess, s.exclusiveChannel⟩ := by
  cases mode <;> simp only [State.view, State.setterSwitch]
  · by_cases hservice : (s.dpaExclusiveAccess && s.mode = .service) = true <;> simp [hservice]
  · by_cases hservice : s.mode = .service <;> cases s.dpaExclusiveAccess <;> simp [hservice]
  · cases s.dpaExclusiveAccess <;> rfl

theorem view_stopped : State.view { s with dpaHandler := false, stop := .handlerDeleted } =
    { s.view with dpaHandler := false } := by
  unfold State.view
  cases s.setter <;> rfl

/-- A step of the controller leaves the view as it is or is one step of the mode machine. -/
theorem view_move (hheld : Held s) (hs : Switching s) (hv : s.view.Exclusive) {a : Action}
    (h : Moves s a t) : t.view = s.view ∨ ∃ b, s.view.step b = some t.view := by
  cases h with
  | push | signal | hand | lock | lockFails | readMode | switch | finishError | unlock
  | watchDogPet | returned | dpaFinish | dpaReturn | dpaThrow | stopQueue | destroyQueue
  | join => exact .inl rfl
  | storeMode _ _ at_pc | submit _ _ _ at_pc | waitFinish _ _ _ at_pc | stopDpa _ at_pc
  | setterUnlock _ at_pc =>
      left
      simp only [State.view, at_pc]
  | deleteHandler at_pc => exact .inr ⟨.stop, congrArg some view_stopped.symm⟩
  | setMode mode free =>
      have hidle := hheld.setter_idle (by simp [free])
      left
      simp only [State.view, hidle]
  | setterSwitch created mode at_pc =>
      left
      rw [view_setterSwitch]
      simp only [State.view, at_pc]
  | resetExclusive created mode at_pc =>
      simp only [Switching, at_pc] at hs
      have hchannel := (hv.service (by simp only [State.view, at_pc]; exact hs.1)).2
      left
      simp only [State.view, at_pc] at hchannel ⊢
      rw [hs.1, hchannel]
  | newHandler mode at_pc =>
      simp only [Switching, at_pc] at hs
      obtain ⟨hmode, hne, haccess, hchannel⟩ := hs
      refine .inr ⟨.setMode mode true, congrArg some ?_⟩
      simp only [State.view, at_pc]
      rw [ModeView.setMode_of_service rfl haccess hne, hmode, hchannel, Bool.or_true]
  | noHandler mode at_pc =>
      simp only [Switching, at_pc] at hs
      obtain ⟨hmode, hne, haccess, hchannel⟩ := hs
      refine .inr ⟨.setMode mode false, congrArg some ?_⟩
      simp only [State.view, at_pc]
      rw [ModeView.setMode_of_service rfl haccess hne, hmode, hchannel, Bool.or_false]
  | storeService created at_pc =>
      simp only [Switching, at_pc] at hs
      refine .inr ⟨.setMode .service created, congrArg some ?_⟩
      simp only [State.view, at_pc, ModeView.setMode, hs, if_true]
  | setExclusive created at_pc =>
      simp only [Switching, at_pc] at hs
      left
      simp only [State.view, at_pc, hs.1, hs.2.1]
  | finalMode created mode at_pc =>
      simp only [Switching, at_pc] at hs
      rcases hs with hmode | ⟨hne, hservice, hforwarding⟩
      · left
        simp only [State.view, at_pc, hmode]
      · refine .inr ⟨.setMode mode created, congrArg some ?_⟩
        simp only [State.view, at_pc]
        exact ModeView.setMode_of_not_service hne hservice hforwarding created

/-- The controller among transactions and stops refines the mode machine. -/
theorem view_reachable (h : system.Reachable s) : ModeView.system.Reachable s.view := by
  obtain ⟨s₀, hinit, hrun⟩ := h
  induction hrun with
  | refl =>
      obtain ⟨dpaHandler, dpaExclusiveAccess, dpaMessageForwarding, rfl⟩ := hinit
      exact .of_init ⟨rfl, rfl⟩
  | tail hpre hlast hview =>
      obtain ⟨a, -, hstep⟩ := hlast
      have hreach : system.Reachable _ := ⟨s₀, hinit, hpre⟩
      rcases view_move (held_of_reachable hreach) (switching_of_reachable hreach)
        (ModeView.exclusive_of_reachable hview) (moves_of_step hstep) with heq | ⟨b, hb⟩
      · rwa [heq]
      · exact hview.step hb

/-- Between mode switches the modes are exclusive, whatever was executed meanwhile. -/
theorem exclusive_of_setter_idle (h : system.Reachable s) (hidle : s.setter = .idle) :
    ModeView.Exclusive ⟨s.mode, s.dpaHandler, s.dpaExclusiveAccess, s.exclusiveChannel⟩ := by
  have hv := ModeView.exclusive_of_reachable (view_reachable h)
  simpa only [State.view, hidle] using hv

/-- A worker that has locked the mutex finds the modes exclusive. -/
theorem exclusive_of_worker_owns (h : system.Reachable s) (howns : s.exec.owns = true) :
    ModeView.Exclusive ⟨s.mode, s.dpaHandler, s.dpaExclusiveAccess, s.exclusiveChannel⟩ := by
  have hheld := held_of_reachable h
  exact exclusive_of_setter_idle h (hheld.setter_idle (by simp [hheld.worker_owns howns]))

end IqrfDaemon.Controller
