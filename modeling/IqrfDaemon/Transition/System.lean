import Mathlib.Logic.Relation
import Mathlib.Data.List.Basic

/-!
# Labelled transition systems

A system is given by its initial states and an executable step function.  A
label resolves every nondeterministic choice (which thread moves, what the
environment supplies), and `none` says that the label is not enabled.  Runs are
taken relative to a guard on source states and labels, so one reachability
predicate serves both the unrestricted runs and the runs all of whose steps
meet a condition.
-/

namespace IqrfDaemon.Transition

universe u v w x

structure System (σ : Type u) (α : Type v) where
  init : σ → Prop
  step : σ → α → Option σ

namespace System

variable {σ : Type u} {α : Type v} {τ : Type w} {β : Type x}

def StepVia (M : System σ α) (G : σ → α → Prop) (s t : σ) : Prop :=
  ∃ a, G s a ∧ M.step s a = some t

def Reaches (M : System σ α) (G : σ → α → Prop) : σ → σ → Prop :=
  Relation.ReflTransGen (M.StepVia G)

def ReachableVia (M : System σ α) (G : σ → α → Prop) (t : σ) : Prop :=
  ∃ s, M.init s ∧ M.Reaches G s t

def AnyStep : σ → α → Prop := fun _ _ ↦ True

def Reachable (M : System σ α) : σ → Prop := M.ReachableVia AnyStep

def run (M : System σ α) : σ → List α → Option σ
  | s, [] => some s
  | s, a :: rest => (M.step s a).bind fun t ↦ M.run t rest

/-- A run all of whose steps pass an executable check. -/
def runIf (M : System σ α) (ok : σ → α → Bool) : σ → List α → Option σ
  | s, [] => some s
  | s, a :: rest => if ok s a then (M.step s a).bind fun t ↦ M.runIf ok t rest else none

variable {M : System σ α} {N : System τ β} {G H : σ → α → Prop} {K : τ → β → Prop}

theorem stepVia_of_step {s t : σ} {a : α} (hG : G s a) (h : M.step s a = some t) :
    M.StepVia G s t :=
  ⟨a, hG, h⟩

theorem Reaches.step {s t r : σ} {a : α} (h : M.Reaches G s t) (hG : G t a)
    (hs : M.step t a = some r) : M.Reaches G s r :=
  h.tail (stepVia_of_step hG hs)

theorem Reaches.mono (hGH : ∀ s a, G s a → H s a) {s t : σ} (h : M.Reaches G s t) :
    M.Reaches H s t := by
  induction h with
  | refl => exact .refl
  | tail _ hlast ih =>
      obtain ⟨a, hG, hst⟩ := hlast
      exact ih.step (hGH _ a hG) hst

theorem Reaches.any {s t : σ} (h : M.Reaches G s t) : M.Reaches AnyStep s t :=
  h.mono fun _ _ _ ↦ trivial

theorem ReachableVia.of_init {s : σ} (h : M.init s) : M.ReachableVia G s :=
  ⟨s, h, .refl⟩

theorem ReachableVia.step {s t : σ} {a : α} (h : M.ReachableVia G s) (hG : G s a)
    (hs : M.step s a = some t) : M.ReachableVia G t := by
  obtain ⟨s₀, hinit, hrun⟩ := h
  exact ⟨s₀, hinit, hrun.step hG hs⟩

theorem ReachableVia.any {s : σ} (h : M.ReachableVia G s) : M.Reachable s := by
  obtain ⟨s₀, hinit, hrun⟩ := h
  exact ⟨s₀, hinit, hrun.any⟩

theorem Reachable.step {s t : σ} {a : α} (h : M.Reachable s) (hs : M.step s a = some t) :
    M.Reachable t :=
  ReachableVia.step h trivial hs

theorem ReachableVia.reaches {s t : σ} (h : M.ReachableVia G s) (hst : M.Reaches G s t) :
    M.ReachableVia G t := by
  obtain ⟨s₀, hinit, hrun⟩ := h
  exact ⟨s₀, hinit, hrun.trans hst⟩

/-- A run over labels that the guard lets pass in every state. -/
theorem reaches_of_run {s t : σ} (labels : List α) (hG : ∀ a ∈ labels, ∀ r, G r a)
    (h : M.run s labels = some t) : M.Reaches G s t := by
  induction labels generalizing s with
  | nil =>
      obtain rfl : s = t := by simpa [run] using h
      exact .refl
  | cons a rest ih =>
      obtain ⟨r, hr, hrest⟩ := Option.bind_eq_some_iff.mp h
      have htail := ih (fun b hb ↦ hG b (List.mem_cons_of_mem a hb)) hrest
      exact Relation.ReflTransGen.head (stepVia_of_step (hG a List.mem_cons_self s) hr) htail

theorem reaches_of_runIf {s t : σ} {ok : σ → α → Bool} (labels : List α)
    (hok : ∀ s a, ok s a = true → G s a) (h : M.runIf ok s labels = some t) :
    M.Reaches G s t := by
  induction labels generalizing s with
  | nil =>
      obtain rfl : s = t := by simpa [runIf] using h
      exact .refl
  | cons a rest ih =>
      rw [runIf, Option.ite_none_right_eq_some] at h
      obtain ⟨ha, h⟩ := h
      obtain ⟨r, hr, hrest⟩ := Option.bind_eq_some_iff.mp h
      exact Relation.ReflTransGen.head (stepVia_of_step (hok s a ha) hr) (ih hrest)

theorem reachable_of_run {s t : σ} (labels : List α) (hinit : M.init s)
    (h : M.run s labels = some t) : M.Reachable t :=
  ⟨s, hinit, reaches_of_run labels (fun _ _ _ ↦ trivial) h⟩

/-! ## Invariants -/

theorem Reaches.preserves {I : σ → Prop}
    (hstep : ∀ s a t, I s → G s a → M.step s a = some t → I t)
    {s t : σ} (h : M.Reaches G s t) (hs : I s) : I t := by
  induction h with
  | refl => exact hs
  | tail _ hlast ih =>
      obtain ⟨a, hG, hst⟩ := hlast
      exact hstep _ a _ ih hG hst

/-- The induction rule: initial states and guarded steps give every state
reachable by guarded steps. -/
theorem ReachableVia.invariant {I : σ → Prop} (hinit : ∀ s, M.init s → I s)
    (hstep : ∀ s a t, I s → G s a → M.step s a = some t → I t)
    {s : σ} (h : M.ReachableVia G s) : I s := by
  obtain ⟨s₀, h₀, hrun⟩ := h
  exact hrun.preserves hstep (hinit s₀ h₀)

theorem Reachable.invariant {I : σ → Prop} (hinit : ∀ s, M.init s → I s)
    (hstep : ∀ s a t, I s → M.step s a = some t → I t)
    {s : σ} (h : M.Reachable s) : I s :=
  ReachableVia.invariant hinit (fun s a t hI _ hst ↦ hstep s a t hI hst) h

/-! ## Simulation -/

/-- If every reachable guarded step of `M` is matched by a run of `N` between
the images, then the image of a reachable state is reachable. -/
theorem ReachableVia.map (f : σ → τ) (hinit : ∀ s, M.init s → N.init (f s))
    (hstep : ∀ s a t, M.ReachableVia G s → G s a → M.step s a = some t →
      N.Reaches K (f s) (f t))
    {s : σ} (h : M.ReachableVia G s) : N.ReachableVia K (f s) := by
  obtain ⟨s₀, h₀, hrun⟩ := h
  induction hrun with
  | refl => exact .of_init (hinit s₀ h₀)
  | tail hpre hlast ih =>
      obtain ⟨a, hG, hst⟩ := hlast
      exact ih.reaches (hstep _ a _ ⟨s₀, h₀, hpre⟩ hG hst)

end System

end IqrfDaemon.Transition
