import Mathlib.Algebra.Order.Monoid.Defs
import Mathlib.Data.List.Chain
import Mathlib.Tactic.GCongr

/-!
# A lease and the duties that renew it

A lease is renewed whenever a duty is done.  The duties stand in a line: each has a time at
which it is due and a time at which it was read off the plan, and the next one is planned from
that reading.  If no duty comes later than a bound behind what it is planned from, and each one
is done within a latency, the last renewal never lies further back than both together.
-/

namespace IqrfDaemon.Calendar

variable {α T : Type*} [AddCommMonoid T] [LinearOrder T]
  {due read : α → T} {bound last last' now : T} {a a' b : α} {line : List α}

/-- The first duty is due at most `bound` behind the last renewal, and each further one behind
the reading of the one before. -/
structure Renewal (due read : α → T) (bound last : T) (line : List α) : Prop where
  first : ∀ f ∈ line.head?, due f ≤ last + bound
  planned : line.IsChain fun f g ↦ due g ≤ read f + bound

namespace Renewal

theorem singleton (h : due a ≤ last + bound) : Renewal due read bound last [a] :=
  ⟨fun _ hf ↦ Option.mem_some_iff.mp hf ▸ h, .singleton a⟩

/-- A renewal for another reason does no harm. -/
theorem later [IsOrderedAddMonoid T] (h : Renewal due read bound last line) (hlast : last ≤ last') :
    Renewal due read bound last' line :=
  ⟨fun f hf ↦ (h.first f hf).trans (by gcongr), h.planned⟩

/-- The first duty is done at a time not before its reading. -/
theorem done [IsOrderedAddMonoid T] (h : Renewal due read bound last (a :: line))
    (hread : read a ≤ now) : Renewal due read bound now line := by
  obtain ⟨hfirst, hplanned⟩ := List.isChain_cons.mp h.planned
  exact ⟨fun f hf ↦ (hfirst f hf).trans (by gcongr), hplanned⟩

/-- The last duty of the line gets its reading, and the next one is planned from it. -/
theorem plan (h : Renewal due read bound last (line ++ [a])) (hsame : due a' = due a)
    (hnext : due b ≤ read a' + bound) : Renewal due read bound last (line ++ [a', b]) := by
  obtain ⟨hline, -, hbefore⟩ := List.isChain_append.mp h.planned
  refine ⟨fun f hf ↦ ?_, hline.append (List.isChain_pair.mpr hnext) fun f hf g hg ↦ ?_⟩
  · cases line with
    | nil =>
        obtain rfl : a' = f := Option.mem_some_iff.mp hf
        exact hsame.le.trans (h.first a rfl)
    | cons c line => exact h.first f hf
  · obtain rfl : a' = g := Option.mem_some_iff.mp hg
    exact hsame.le.trans (hbefore f hf a rfl)

/-- If no duty is late by more than the latency, the last renewal lies not far back. -/
theorem fresh [IsOrderedAddMonoid T] (h : Renewal due read bound last line) {latency : T}
    (hne : line ≠ []) (hinTime : ∀ f ∈ line, now ≤ due f + latency) :
    now ≤ last + bound + latency := by
  obtain ⟨f, rest, rfl⟩ := List.exists_cons_of_ne_nil hne
  have hfirst : due f ≤ last + bound := h.first f rfl
  calc
    now ≤ due f + latency := hinTime f List.mem_cons_self
    _ ≤ last + bound + latency := by gcongr

end Renewal

end IqrfDaemon.Calendar
