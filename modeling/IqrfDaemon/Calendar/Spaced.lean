import Mathlib.Algebra.Order.Group.Defs
import Mathlib.Algebra.Order.Monoid.NatCast
import Mathlib.Data.List.Basic

/-!
# Moments with gaps between them

A log of moments each of which lies more than a fixed gap behind the one before.
An interval of `n` gaps holds at most `n` of them, if it is not shorter than one
gap.
-/

namespace IqrfDaemon.Calendar

variable {α : Type*} [AddCommGroup α] [LinearOrder α]

def Spaced (gap : α) (log : List α) : Prop := log.Pairwise fun x y ↦ x + gap < y

variable {gap first last w : α} {log more : List α}

theorem Spaced.sublist (h : Spaced gap log) (hsub : more.Sublist log) : Spaced gap more :=
  List.Pairwise.sublist hsub h

/-- One more moment at the end. -/
theorem Spaced.append (h : Spaced gap log) (hnew : ∀ x ∈ log, x + gap < w) :
    Spaced gap (log ++ [w]) := by
  refine List.pairwise_append.mpr ⟨h, List.pairwise_singleton _ _, ?_⟩
  intro x hx y hy
  rw [List.mem_singleton.mp hy]
  exact hnew x hx

/-- The moments from `first` to `last` are no more than the gaps between them. -/
theorem Spaced.length_le [IsOrderedAddMonoid α] (h : Spaced gap log)
    (hwithin : ∀ x ∈ log, first ≤ x ∧ x ≤ last) {n : ℕ} (hn : 1 ≤ n)
    (hlast : last ≤ first + n • gap) : log.length ≤ n := by
  induction log generalizing first n with
  | nil => exact Nat.zero_le n
  | cons x log ih =>
    obtain ⟨hhead, htail⟩ := List.pairwise_cons.mp h
    have hfirst : first ≤ x := (hwithin x List.mem_cons_self).1
    have hafter : ∀ y ∈ log, first + gap < y := by
      intro y hy
      calc first + gap ≤ x + gap := add_le_add_left hfirst gap
        _ < y := hhead y hy
    have hbefore : ∀ y ∈ log, y ≤ last := fun y hy ↦ (hwithin y (List.mem_cons_of_mem x hy)).2
    obtain ⟨n, rfl⟩ : ∃ m, n = m + 1 := ⟨n - 1, (Nat.sub_add_cancel hn).symm⟩
    rw [List.length_cons]
    apply Nat.succ_le_succ
    rw [succ_nsmul', ← add_assoc] at hlast
    rcases Nat.eq_zero_or_pos n with rfl | hpos
    · -- one gap is used up by the first moment
      cases log with
      | nil => exact le_rfl
      | cons y log =>
        rw [zero_nsmul, add_zero] at hlast
        have hy : y ≤ first + gap := (hbefore y List.mem_cons_self).trans hlast
        exact absurd (hafter y List.mem_cons_self) (not_lt.mpr hy)
    · exact ih htail (fun y hy ↦ ⟨(hafter y hy).le, hbefore y hy⟩) hpos hlast

/-- Each moment is as many gaps behind the first as there are moments before it. -/
theorem Spaced.add_nsmul_le [IsOrderedAddMonoid α] (h : Spaced gap log)
    (hfirst : ∀ x ∈ log, first ≤ x) {k : ℕ} (hk : log[k]? = some w) : first + k • gap ≤ w := by
  induction log generalizing first k with
  | nil => cases hk
  | cons x log ih =>
    obtain ⟨hhead, htail⟩ := List.pairwise_cons.mp h
    cases k with
    | zero =>
      obtain rfl : x = w := Option.some.inj hk
      rw [zero_nsmul, add_zero]
      exact hfirst x List.mem_cons_self
    | succ k =>
      have hafter : ∀ y ∈ log, first + gap ≤ y := by
        intro y hy
        calc first + gap ≤ x + gap := add_le_add_left (hfirst x List.mem_cons_self) gap
          _ ≤ y := (hhead y hy).le
      rw [succ_nsmul', ← add_assoc]
      exact ih htail hafter hk

end IqrfDaemon.Calendar
