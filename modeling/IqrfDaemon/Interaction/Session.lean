import Mathlib.Data.List.Basic

/-!
# Sessions with an object

A caller works on an object through calls, each of which may depend on the answers
so far, until it returns or throws.  The object answers and changes its world.  A
session is what comes of it: the calls with their answers, how it ended, and the
world.  Two objects that answer alike, as long as their worlds are related, cannot be
told apart by a caller.
-/

namespace IqrfDaemon.Interaction

universe u v w x

variable {C : Type u} {A : Type v} {W : Type w} {V : Type x}

inductive Caller (C : Type u) (A : Type v)
  | returns
  | throws
  | call (c : C) (next : A → Caller C A)

structure Session (C : Type u) (A : Type v) (W : Type w) where
  calls : List (C × A)
  threw : Bool
  world : W

namespace Caller

def run (object : C → W → A × W) : Caller C A → W → Session C A W
  | returns, w => ⟨[], false, w⟩
  | throws, w => ⟨[], true, w⟩
  | call c next, w =>
      let session := (next (object c w).1).run object (object c w).2
      { session with calls := (c, (object c w).1) :: session.calls }

/-- The caller that makes the given calls, whatever it is answered. -/
def ofList (threw : Bool) : List C → Caller C A
  | [] => if threw then throws else returns
  | c :: rest => call c fun _ ↦ ofList threw rest

theorem run_keeps {object : C → W → A × W} {I : List (C × A) → W → Prop}
    (hcall : ∀ past c w, I past w → I (past ++ [(c, (object c w).1)]) (object c w).2)
    (caller : Caller C A) (past : List (C × A)) {w : W} (h : I past w) :
    I (past ++ (caller.run object w).calls) (caller.run object w).world := by
  induction caller generalizing past w with
  | returns => simpa [run] using h
  | throws => simpa [run] using h
  | call c next ih =>
      have hnext := ih (object c w).1 _ (hcall past c w h)
      rwa [List.append_assoc] at hnext

/-- Objects that answer alike lead to the same calls and the same end. -/
theorem run_simulates {object : C → W → A × W} {other : C → V → A × V}
    {R : List (C × A) → W → V → Prop}
    (hcall : ∀ past c w v, R past w v → (other c v).1 = (object c w).1 ∧
      R (past ++ [(c, (object c w).1)]) (object c w).2 (other c v).2)
    (caller : Caller C A) (past : List (C × A)) {w : W} {v : V} (h : R past w v) :
    (caller.run other v).calls = (caller.run object w).calls ∧
      (caller.run other v).threw = (caller.run object w).threw ∧
        R (past ++ (caller.run object w).calls) (caller.run object w).world
          (caller.run other v).world := by
  induction caller generalizing past w v with
  | returns => exact ⟨rfl, rfl, by simpa [run] using h⟩
  | throws => exact ⟨rfl, rfl, by simpa [run] using h⟩
  | call c next ih =>
      obtain ⟨hanswer, hR⟩ := hcall past c w v h
      obtain ⟨hcalls, hthrew, hworld⟩ := ih (object c w).1 _ hR
      rw [List.append_assoc] at hworld
      simp only [run, hanswer]
      exact ⟨by rw [hcalls], hthrew, hworld⟩

end Caller

end IqrfDaemon.Interaction
