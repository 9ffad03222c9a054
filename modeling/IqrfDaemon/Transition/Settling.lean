import IqrfDaemon.Transition.System

/-!
# Runs that settle

Some labels belong to the system itself, the others to its environment.  If a measure gets
smaller with every step of the system, then a run of such steps is bounded by the measure,
and from every state one of them goes on to a state in which the system has nothing left
to do.
-/

namespace IqrfDaemon.Transition.System

universe u v

variable {σ : Type u} {α : Type v} {M : System σ α} {own : α → Prop} {I : σ → Prop}
  {μ : σ → ℕ} {s t : σ} {labels : List α}

/-- No step of the system itself is enabled. -/
def Settled (M : System σ α) (own : α → Prop) (s : σ) : Prop := ∀ a, own a → M.step s a = none

/-- The system's own steps keep `I`, and from where it holds they make the measure smaller. -/
structure Settles (M : System σ α) (own : α → Prop) (I : σ → Prop) (μ : σ → ℕ) : Prop where
  keeps : ∀ s a t, I s → own a → M.step s a = some t → I t
  lt : ∀ s a t, I s → own a → M.step s a = some t → μ t < μ s

theorem run_cons_eq_some {a : α} {rest : List α} :
    M.run s (a :: rest) = some t ↔ ∃ r, M.step s a = some r ∧ M.run r rest = some t :=
  Option.bind_eq_some_iff

namespace Settles

theorem invariant (h : Settles M own I μ) (hs : I s) (hown : ∀ a ∈ labels, own a)
    (hrun : M.run s labels = some t) : I t := by
  refine (reaches_of_run (G := fun _ a ↦ own a) labels (fun a ha _ ↦ hown a ha) hrun).preserves
    (fun s a t hs ha hstep ↦ h.keeps s a t hs ha hstep) hs

/-- What a run has used up and what is left of the measure fit in what it started with. -/
theorem length_add_le (h : Settles M own I μ) (hs : I s) (hown : ∀ a ∈ labels, own a)
    (hrun : M.run s labels = some t) : labels.length + μ t ≤ μ s := by
  induction labels generalizing s with
  | nil =>
      obtain rfl : s = t := by simpa [run] using hrun
      simp
  | cons a rest ih =>
      obtain ⟨r, hstep, hrest⟩ := run_cons_eq_some.mp hrun
      have ha : own a := hown a List.mem_cons_self
      have hlater := ih (h.keeps s a r hs ha hstep)
        (fun b hb ↦ hown b (List.mem_cons_of_mem a hb)) hrest
      have hlt := h.lt s a r hs ha hstep
      rw [List.length_cons]
      omega

/-- The system can always run on until it has settled. -/
theorem exists_settled (h : Settles M own I μ) (hs : I s) :
    ∃ labels t, (∀ a ∈ labels, own a) ∧ M.run s labels = some t ∧ M.Settled own t := by
  induction hn : μ s using Nat.strongRecOn generalizing s with
  | _ n ih =>
      by_cases hsettled : M.Settled own s
      · exact ⟨[], s, nofun, rfl, hsettled⟩
      · simp only [Settled, not_forall] at hsettled
        obtain ⟨a, ha, hne⟩ := hsettled
        obtain ⟨r, hstep⟩ := Option.ne_none_iff_exists'.mp hne
        obtain ⟨labels, t, hown, hrun, ht⟩ :=
          ih (μ r) (hn ▸ h.lt s a r hs ha hstep) (h.keeps s a r hs ha hstep) rfl
        refine ⟨a :: labels, t, ?_, run_cons_eq_some.mpr ⟨r, hstep, hrun⟩, ht⟩
        intro b hb
        rcases List.mem_cons.mp hb with rfl | hb
        · exact ha
        · exact hown b hb

end Settles

end IqrfDaemon.Transition.System
