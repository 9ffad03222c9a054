import Mathlib.Data.List.Count
import Mathlib.Order.Lattice

/-!
# Due moments that are served once each

Over a linear order, a set of due moments and a log of servings.  A serving
belongs to a due moment if it falls on it or later, but before the next one.
The log serves every due moment of an interval exactly once; it is extended
over a stretch without due moments, or by one serving for the only due moment
of the next stretch.
-/

namespace IqrfDaemon.Calendar

variable {α : Type*} [LinearOrder α]

/-- `w` falls on the due moment `t` or later, but before the next one. -/
def Serves (due : α → Prop) (t w : α) : Prop :=
  t ≤ w ∧ ∀ u, t < u → due u → w < u

open Classical in
noncomputable def servings (due : α → Prop) (t : α) (log : List α) : ℕ :=
  log.countP fun w ↦ Serves due t w

/-- The log ends before `bound` and serves every due moment between `start` and
`bound` exactly once. -/
structure ServedOnce (due : α → Prop) (start bound : α) (log : List α) : Prop where
  below : ∀ w ∈ log, w < bound
  once : ∀ t, start < t → t < bound → due t → servings due t log = 1

variable {due : α → Prop} {start bound bound' t w : α} {log : List α}

theorem servings_append_of_not (h : ¬ Serves due t w) :
    servings due t (log ++ [w]) = servings due t log := by
  simp [servings, List.countP_append, h]

theorem servings_append_of_serves (h : Serves due t w) :
    servings due t (log ++ [w]) = servings due t log + 1 := by
  simp [servings, List.countP_append, h]

theorem servings_eq_zero (h : ∀ w ∈ log, w < t) : servings due t log = 0 := by
  rw [servings, List.countP_eq_zero]
  intro w hw
  have hnot : ¬ Serves due t w := fun hserves ↦ absurd (h w hw) (not_lt.mpr hserves.1)
  simpa using hnot

theorem servedOnce_nil (h : ∀ t, start < t → t < bound → ¬ due t) :
    ServedOnce due start bound [] where
  below := by simp
  once t hstart hbound hdue := absurd hdue (h t hstart hbound)

/-- Nothing is due in the next stretch and nothing is served. -/
theorem ServedOnce.quiet (h : ServedOnce due start bound log) (hle : bound ≤ bound')
    (hnone : ∀ t, bound ≤ t → t < bound' → ¬ due t) : ServedOnce due start bound' log where
  below w hw := (h.below w hw).trans_le hle
  once t hstart hbound hdue := by
    rcases lt_or_ge t bound with hlt | hge
    · exact h.once t hstart hlt hdue
    · exact absurd hdue (hnone t hge hbound)

/-- One serving in the next stretch, which either serves its only due moment or comes
while nothing was due since `start`. -/
theorem ServedOnce.serve (h : ServedOnce due start bound log) (hbound : bound ≤ w)
    (hbound' : w < bound')
    (hold : (∃ u, bound ≤ u ∧ u ≤ w ∧ due u) ∨ ∀ t, start < t → t < bound → ¬ due t)
    (hnew : ∀ t, bound ≤ t → t < bound' → due t → Serves due t w) :
    ServedOnce due start bound' (log ++ [w]) where
  below v hv := by
    rcases List.mem_append.mp hv with hv | hv
    · exact (h.below v hv).trans (hbound.trans_lt hbound')
    · rwa [List.mem_singleton.mp hv]
  once t hstart ht hdue := by
    rcases lt_or_ge t bound with hlt | hge
    · rcases hold with ⟨u, hu, huw, hdue'⟩ | hnone
      · have hnot : ¬ Serves due t w := fun hserves ↦
          absurd (hserves.2 u (hlt.trans_le hu) hdue') (not_lt.mpr huw)
        rw [servings_append_of_not hnot]
        exact h.once t hstart hlt hdue
      · exact absurd hdue (hnone t hstart hlt)
    · have hzero : servings due t log = 0 :=
        servings_eq_zero fun v hv ↦ (h.below v hv).trans_le hge
      rw [servings_append_of_serves (hnew t hge ht hdue), hzero]

end IqrfDaemon.Calendar
