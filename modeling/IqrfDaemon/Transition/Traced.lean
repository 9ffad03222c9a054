import Mathlib.Data.List.Basic

/-!
# Programs with exceptions and intermediate states

A program runs from a state, visits one state for each of its effects, and ends
with a value or an exception.  Partial correctness is a triple: what holds in
every visited state, and what holds at the end in either case.  Exceptions are
caught by kind, and a scope can have a last effect that runs on every exit.
-/

namespace IqrfDaemon.Transition

universe u v

structure Outcome (σ ε α : Type u) where
  visited : List σ
  result : Except ε α
  final : σ

def Traced (σ ε α : Type u) : Type u := σ → Outcome σ ε α

namespace Traced

variable {σ ε α γ : Type u} {β : Type v}

def bind (x : Traced σ ε α) (f : α → Traced σ ε γ) : Traced σ ε γ := fun s ↦
  match (x s).result with
  | .ok a =>
      let r := f a (x s).final
      ⟨(x s).visited ++ r.visited, r.result, r.final⟩
  | .error e => ⟨(x s).visited, .error e, (x s).final⟩

instance : Monad (Traced σ ε) where
  pure a := fun s ↦ ⟨[], .ok a, s⟩
  bind := bind

def get : Traced σ ε σ := fun s ↦ ⟨[], .ok s, s⟩

def modify (f : σ → σ) : Traced σ ε PUnit := fun s ↦ ⟨[f s], .ok ⟨⟩, f s⟩

def throw (e : ε) : Traced σ ε α := fun s ↦ ⟨[], .error e, s⟩

def ofExcept (r : Except ε α) : Traced σ ε α := fun s ↦ ⟨[], r, s⟩

/-- Exceptions of the kinds `handles` end here. -/
def catching (handles : ε → Bool) (x : Traced σ ε PUnit) : Traced σ ε PUnit := fun s ↦
  match (x s).result with
  | .ok a => ⟨(x s).visited, .ok a, (x s).final⟩
  | .error e =>
      if handles e then ⟨(x s).visited, .ok ⟨⟩, (x s).final⟩
      else ⟨(x s).visited, .error e, (x s).final⟩

/-- A scope whose exit, by a value or an exception, has the effect `f`. -/
def onExit (f : σ → σ) (x : Traced σ ε α) : Traced σ ε α := fun s ↦
  ⟨(x s).visited ++ [f (x s).final], (x s).result, f (x s).final⟩

def forEach (f : β → Traced σ ε PUnit) : List β → Traced σ ε PUnit
  | [] => pure ⟨⟩
  | b :: rest => f b >>= fun _ ↦ forEach f rest

theorem bind_of_ok {x : Traced σ ε α} {f : α → Traced σ ε γ} {s : σ} {a : α}
    (h : (x s).result = .ok a) :
    (x >>= f) s =
      ⟨(x s).visited ++ (f a (x s).final).visited, (f a (x s).final).result,
        (f a (x s).final).final⟩ := by
  change bind x f s = _
  rw [bind, h]

theorem bind_of_error {x : Traced σ ε α} {f : α → Traced σ ε γ} {s : σ} {e : ε}
    (h : (x s).result = .error e) :
    (x >>= f) s = ⟨(x s).visited, .error e, (x s).final⟩ := by
  change bind x f s = _
  rw [bind, h]

theorem catching_of_ok {x : Traced σ ε PUnit} {handles : ε → Bool} {s : σ}
    (h : (x s).result = .ok ⟨⟩) : catching handles x s = ⟨(x s).visited, .ok ⟨⟩, (x s).final⟩ := by
  rw [catching, h]

theorem catching_of_error {x : Traced σ ε PUnit} {handles : ε → Bool} {s : σ} {e : ε}
    (h : (x s).result = .error e) :
    catching handles x s =
      if handles e then ⟨(x s).visited, .ok ⟨⟩, (x s).final⟩
      else ⟨(x s).visited, .error e, (x s).final⟩ := by
  rw [catching, h]

/-! ## Single runs -/

/-- The program ends with the value `a` in the state `t`. -/
def Returns (x : Traced σ ε α) (s : σ) (a : α) (t : σ) : Prop :=
  (x s).result = .ok a ∧ (x s).final = t

/-- The program ends with the exception `e` in the state `t`. -/
def Throws (x : Traced σ ε α) (s : σ) (e : ε) (t : σ) : Prop :=
  (x s).result = .error e ∧ (x s).final = t

section Runs

variable {x : Traced σ ε α} {f : α → Traced σ ε γ} {s t u : σ} {a : α} {c : γ} {e : ε}

theorem Returns.pure (a : α) (s : σ) : Returns (Pure.pure a : Traced σ ε α) s a s := ⟨rfl, rfl⟩

theorem Returns.get (s : σ) : Returns (Traced.get : Traced σ ε σ) s s s := ⟨rfl, rfl⟩

theorem Returns.modify (f : σ → σ) (s : σ) :
    Returns (Traced.modify f : Traced σ ε PUnit) s ⟨⟩ (f s) := ⟨rfl, rfl⟩

theorem Throws.throw (e : ε) (s : σ) : Throws (Traced.throw e : Traced σ ε α) s e s := ⟨rfl, rfl⟩

theorem Returns.ofExcept {r : Except ε α} (h : r = .ok a) (s : σ) :
    Returns (Traced.ofExcept r) s a s := ⟨h, rfl⟩

theorem Throws.ofExcept {r : Except ε α} (h : r = .error e) (s : σ) :
    Throws (Traced.ofExcept r) s e s := ⟨h, rfl⟩

theorem Returns.bind (hx : Returns x s a t) (hf : Returns (f a) t c u) :
    Returns (x >>= f) s c u := by
  obtain ⟨hresult, rfl⟩ := hx
  rw [Returns, bind_of_ok hresult]
  exact hf

theorem Returns.bind_throws (hx : Returns x s a t) (hf : Throws (f a) t e u) :
    Throws (x >>= f) s e u := by
  obtain ⟨hresult, rfl⟩ := hx
  rw [Throws, bind_of_ok hresult]
  exact hf

theorem Throws.bind (hx : Throws x s e t) : Throws (x >>= f) s e t := by
  rw [Throws, bind_of_error hx.1]
  exact ⟨rfl, hx.2⟩

theorem Returns.unique {b : α} (h : Returns x s a t) (h' : Returns x s b u) : a = b ∧ t = u :=
  ⟨Except.ok.inj (h.1.symm.trans h'.1), h.2.symm.trans h'.2⟩

end Runs

/-! ## Triples -/

/-- Every visited state meets `I`, and the last one meets `Q` for the returned value or
`E` for the exception. -/
def Meets (I : σ → Prop) (Q : α → σ → Prop) (E : ε → σ → Prop) (o : Outcome σ ε α) : Prop :=
  (∀ t ∈ o.visited, I t) ∧
    match o.result with
    | .ok a => Q a o.final
    | .error e => E e o.final

def Triple (I P : σ → Prop) (x : Traced σ ε α) (Q : α → σ → Prop) (E : ε → σ → Prop) : Prop :=
  ∀ s, P s → Meets I Q E (x s)

section Triple

variable {I P P' : σ → Prop} {x : Traced σ ε α} {f : α → Traced σ ε γ} {Q Q' : α → σ → Prop}
  {R : γ → σ → Prop} {E E' : ε → σ → Prop}

theorem Meets.mono {o : Outcome σ ε α} (h : Meets I Q' E' o) (hQ : ∀ a s, Q' a s → Q a s)
    (hE : ∀ e s, E' e s → E e s) : Meets I Q E o := by
  obtain ⟨hvisited, hend⟩ := h
  refine ⟨hvisited, ?_⟩
  cases hr : o.result with
  | ok a =>
      rw [hr] at hend
      exact hQ a _ hend
  | error e =>
      rw [hr] at hend
      exact hE e _ hend

theorem Triple.conseq (h : Triple I P' x Q' E') (hP : ∀ s, P s → P' s)
    (hQ : ∀ a s, Q' a s → Q a s) (hE : ∀ e s, E' e s → E e s) : Triple I P x Q E :=
  fun s hs ↦ (h s (hP s hs)).mono hQ hE

theorem Triple.visits {I' : σ → Prop} (h : Triple I P x Q E) (hI : ∀ s, I s → I' s) :
    Triple I' P x Q E :=
  fun s hs ↦ ⟨fun t ht ↦ hI t ((h s hs).1 t ht), (h s hs).2⟩

theorem Triple.pure {a : α} (h : ∀ s, P s → Q a s) : Triple I P (Pure.pure a) Q E :=
  fun s hs ↦ ⟨by simp [Pure.pure], h s hs⟩

theorem Triple.get {Q : σ → σ → Prop} (h : ∀ s, P s → Q s s) : Triple I P get Q E :=
  fun s hs ↦ ⟨by simp [Traced.get], h s hs⟩

theorem Triple.modify {Q : σ → Prop} {g : σ → σ} (hI : ∀ s, P s → I (g s))
    (hQ : ∀ s, P s → Q (g s)) : Triple I P (modify g) (fun _ ↦ Q) E :=
  fun s hs ↦ ⟨by simpa [Traced.modify] using hI s hs, hQ s hs⟩

theorem Triple.throw {e : ε} (h : ∀ s, P s → E e s) : Triple I P (throw e) Q E :=
  fun s hs ↦ ⟨by simp [Traced.throw], h s hs⟩

theorem Triple.ofExcept {r : Except ε α} (hQ : ∀ a s, r = .ok a → P s → Q a s)
    (hE : ∀ e s, r = .error e → P s → E e s) : Triple I P (ofExcept r) Q E := by
  intro s hs
  refine ⟨by simp [Traced.ofExcept], ?_⟩
  cases hr : r with
  | ok a => exact hQ a s hr hs
  | error e => exact hE e s hr hs

theorem Triple.bind (hx : Triple I P x Q E) (hf : ∀ a, Triple I (Q a) (f a) R E) :
    Triple I P (x >>= f) R E := by
  intro s hs
  obtain ⟨hvisited, hend⟩ := hx s hs
  cases hr : (x s).result with
  | ok a =>
      rw [hr] at hend
      obtain ⟨hvisited', hend'⟩ := hf a _ hend
      rw [bind_of_ok hr]
      refine ⟨fun t ht ↦ ?_, hend'⟩
      rcases List.mem_append.mp ht with ht | ht
      · exact hvisited t ht
      · exact hvisited' t ht
  | error e =>
      rw [hr] at hend
      rw [bind_of_error hr]
      exact ⟨hvisited, hend⟩

/-- A first part that cannot throw. -/
theorem Triple.bind_quiet (hx : Triple I P x Q fun _ _ ↦ False)
    (hf : ∀ a, Triple I (Q a) (f a) R E) : Triple I P (x >>= f) R E :=
  Triple.bind (hx.conseq (fun _ hs ↦ hs) (fun _ _ hs ↦ hs) fun _ _ hs ↦ hs.elim) hf

theorem Triple.get_bind {f : σ → Traced σ ε γ}
    (h : ∀ r, Triple I (fun s ↦ s = r ∧ P s) (f r) R E) : Triple I P (Traced.get >>= f) R E :=
  Triple.bind (Q := fun r s ↦ s = r ∧ P s) (Triple.get fun _ hs ↦ ⟨rfl, hs⟩) h

/-- The result is known in what follows. -/
theorem Triple.ofExcept_bind {r : Except ε α} (hok : ∀ a, r = .ok a → Triple I P (f a) R E)
    (herror : ∀ e s, r = .error e → P s → E e s) :
    Triple I P (Traced.ofExcept r >>= f) R E := by
  cases r with
  | ok a =>
      refine Triple.bind (Q := fun b s ↦ b = a ∧ P s) ?_ ?_
      · refine Triple.ofExcept (fun b s hb hs ↦ ?_) fun e s he _ ↦ by cases he
        cases hb
        exact ⟨rfl, hs⟩
      · rintro b s ⟨rfl, hs⟩
        exact hok b rfl s hs
  | error e =>
      refine Triple.bind (Q := fun _ _ ↦ False) ?_ fun _ _ hs ↦ hs.elim
      exact Triple.ofExcept (fun _ _ hb _ ↦ by cases hb) herror

/-- What is caught has to meet the postcondition, what passes on keeps its own. -/
theorem Triple.catching {Q : σ → Prop} {x : Traced σ ε PUnit} {handles : ε → Bool}
    (hx : Triple I P x (fun _ ↦ Q) E) (hcaught : ∀ e s, handles e = true → E e s → Q s)
    (hpassed : ∀ e s, handles e = false → E e s → E' e s) :
    Triple I P (catching handles x) (fun _ ↦ Q) E' := by
  intro s hs
  obtain ⟨hvisited, hend⟩ := hx s hs
  cases hr : (x s).result with
  | ok a =>
      rw [hr] at hend
      rw [catching_of_ok hr]
      exact ⟨hvisited, hend⟩
  | error e =>
      rw [hr] at hend
      rw [catching_of_error hr]
      by_cases hhandles : handles e = true
      · rw [if_pos hhandles]
        exact ⟨hvisited, hcaught e _ hhandles hend⟩
      · rw [if_neg hhandles]
        exact ⟨hvisited, hpassed e _ (by simpa using hhandles) hend⟩

theorem Triple.onExit {g : σ → σ} (hx : Triple I P x Q E)
    (hQ : ∀ a s, Q a s → I (g s) ∧ Q' a (g s)) (hE : ∀ e s, E e s → I (g s) ∧ E' e (g s)) :
    Triple I P (onExit g x) Q' E' := by
  intro s hs
  obtain ⟨hvisited, hend⟩ := hx s hs
  have hlast : I (g (x s).final) ∧
      match (x s).result with
      | .ok a => Q' a (g (x s).final)
      | .error e => E' e (g (x s).final) := by
    cases hr : (x s).result with
    | ok a =>
        rw [hr] at hend
        exact hQ a _ hend
    | error e =>
        rw [hr] at hend
        exact hE e _ hend
  refine ⟨fun t ht ↦ ?_, hlast.2⟩
  rcases List.mem_append.mp ht with ht | ht
  · exact hvisited t ht
  · obtain rfl := List.mem_singleton.mp ht
    exact hlast.1

theorem Triple.and {I' : σ → Prop} (h : Triple I P x Q E) (h' : Triple I' P' x Q' E') :
    Triple (fun s ↦ I s ∧ I' s) (fun s ↦ P s ∧ P' s) x (fun a s ↦ Q a s ∧ Q' a s)
      (fun e s ↦ E e s ∧ E' e s) := by
  rintro s ⟨hs, hs'⟩
  obtain ⟨hvisited, hend⟩ := h s hs
  obtain ⟨hvisited', hend'⟩ := h' s hs'
  refine ⟨fun t ht ↦ ⟨hvisited t ht, hvisited' t ht⟩, ?_⟩
  cases hr : (x s).result with
  | ok a =>
      rw [hr] at hend hend'
      exact ⟨hend, hend'⟩
  | error e =>
      rw [hr] at hend hend'
      exact ⟨hend, hend'⟩

/-- A loop keeps what its body keeps. -/
theorem Triple.forEach {body : β → Traced σ ε PUnit} {l : List β}
    (h : ∀ b ∈ l, Triple I P (body b) (fun _ ↦ P) E) :
    Triple I P (forEach body l) (fun _ ↦ P) E := by
  induction l with
  | nil => exact Triple.pure fun _ hs ↦ hs
  | cons b rest ih =>
      apply Triple.bind (h b List.mem_cons_self)
      intro _
      exact ih fun c hc ↦ h c (List.mem_cons_of_mem b hc)

/-- A loop that never throws establishes what one of its rounds does and the others keep. -/
theorem Triple.forEach_of_mem {J : σ → Prop} {body : β → Traced σ ε PUnit} {l : List β} {b : β}
    (hb : b ∈ l) (hP : ∀ c ∈ l, Triple I P (body c) (fun _ ↦ P) (fun _ _ ↦ False))
    (hJ : ∀ c ∈ l, Triple I (fun s ↦ P s ∧ J s) (body c) (fun _ s ↦ P s ∧ J s) (fun _ _ ↦ False))
    (hmakes : Triple I P (body b) (fun _ s ↦ P s ∧ J s) (fun _ _ ↦ False)) :
    Triple I P (Traced.forEach body l) (fun _ s ↦ P s ∧ J s) (fun _ _ ↦ False) := by
  induction l with
  | nil => cases hb
  | cons c rest ih =>
      rcases List.mem_cons.mp hb with rfl | hb
      · apply Triple.bind hmakes
        intro _
        exact Triple.forEach fun d hd ↦ hJ d (List.mem_cons_of_mem b hd)
      · apply Triple.bind (hP c List.mem_cons_self)
        intro _
        exact ih hb (fun d hd ↦ hP d (List.mem_cons_of_mem c hd))
          (fun d hd ↦ hJ d (List.mem_cons_of_mem c hd))

end Triple

/-! ## States that are visited -/

/-- From a state that meets `P` the program visits some state that meets `V`. -/
def Hits (V P : σ → Prop) (x : Traced σ ε α) : Prop :=
  ∀ s, P s → ∃ t ∈ (x s).visited, V t

section Hits

variable {I V P : σ → Prop} {x : Traced σ ε α} {f : α → Traced σ ε γ} {Q : α → σ → Prop}

theorem Hits.modify {g : σ → σ} (h : ∀ s, P s → V (g s)) :
    Hits (ε := ε) V P (modify g) :=
  fun s hs ↦ ⟨g s, by simp [Traced.modify], h s hs⟩

theorem Hits.bind_left (h : Hits V P x) : Hits V P (x >>= f) := by
  intro s hs
  obtain ⟨t, ht, hV⟩ := h s hs
  refine ⟨t, ?_, hV⟩
  cases hr : (x s).result with
  | ok a =>
      rw [bind_of_ok hr]
      exact List.mem_append_left _ ht
  | error e =>
      rw [bind_of_error hr]
      exact ht

/-- A first part that cannot throw leads to what the second part visits. -/
theorem Hits.bind_right (hx : Triple I P x Q fun _ _ ↦ False) (hf : ∀ a, Hits V (Q a) (f a)) :
    Hits V P (x >>= f) := by
  intro s hs
  obtain ⟨-, hend⟩ := hx s hs
  cases hr : (x s).result with
  | ok a =>
      rw [hr] at hend
      obtain ⟨t, ht, hV⟩ := hf a _ hend
      rw [bind_of_ok hr]
      exact ⟨t, List.mem_append_right _ ht, hV⟩
  | error e =>
      rw [hr] at hend
      exact hend.elim

end Hits

end Traced

end IqrfDaemon.Transition
