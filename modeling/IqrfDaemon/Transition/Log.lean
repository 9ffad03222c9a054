import IqrfDaemon.Transition.Traced

/-!
# Programs that append to a log

The state is the list of what has happened.  A program that only appends is described by
what it appends, wherever it starts and however it ends, and by its exceptions.
-/

namespace IqrfDaemon.Transition.Traced

universe u v

variable {α β γ ε : Type u} {δ : Type v}

/-- A property of logs that passes on to what is made of two parts. -/
structure Concatenative (J : List β → Prop) : Prop where
  nil : J []
  append {a b : List β} : J a → J b → J (a ++ b)

theorem concatenative_forall (ok : β → Prop) : Concatenative fun l ↦ ∀ b ∈ l, ok b where
  nil := fun _ hb ↦ nomatch hb
  append ha hb := fun c hc ↦ (List.mem_append.mp hc).elim (ha c) (hb c)

/-- The program appends something that meets `J`, and it ends with a value or an exception
that meets `E`. -/
def Appends (J : List β → Prop) (E : ε → Prop) (x : Traced (List β) ε α) : Prop :=
  ∀ s, ∃ added, (x s).final = s ++ added ∧ J added ∧ ∀ e, (x s).result = .error e → E e

section Appends

variable {J J' : List β → Prop} {E : ε → Prop} {x : Traced (List β) ε α}
  {f : α → Traced (List β) ε γ}

theorem Appends.pure (hJ : Concatenative J) (a : α) :
    Appends J E (Pure.pure a : Traced (List β) ε α) :=
  fun s ↦ ⟨[], (List.append_nil s).symm, hJ.nil, fun _ h ↦ nomatch h⟩

theorem Appends.throw (hJ : Concatenative J) {e : ε} (he : E e) :
    Appends J E (Traced.throw e : Traced (List β) ε α) :=
  fun s ↦ ⟨[], (List.append_nil s).symm, hJ.nil, fun _ h ↦ by
    obtain rfl := Except.error.inj h
    exact he⟩

theorem Appends.returning
    (h : ∀ s, ∃ a added, Returns x s a (s ++ added) ∧ J added) : Appends J E x := by
  intro s
  obtain ⟨a, added, hreturns, hadded⟩ := h s
  exact ⟨added, hreturns.2, hadded, fun e he ↦ by
    rw [hreturns.1] at he
    cases he⟩

theorem Appends.throwing
    (h : ∀ s, ∃ e added, Throws x s e (s ++ added) ∧ J added ∧ E e) : Appends J E x := by
  intro s
  obtain ⟨e, added, hthrows, hadded, hE⟩ := h s
  exact ⟨added, hthrows.2, hadded, fun e' he ↦ by
    obtain rfl := Except.error.inj (hthrows.1.symm.trans he)
    exact hE⟩

theorem Appends.mono (h : Appends J E x) (hJ : ∀ l, J l → J' l) : Appends J' E x := by
  intro s
  obtain ⟨added, hfinal, hadded, hE⟩ := h s
  exact ⟨added, hfinal, hJ added hadded, hE⟩

/-- What follows may depend on the returned value. -/
theorem Appends.bind (hJ : Concatenative J) (hx : Appends J E x)
    (hf : ∀ a, (∃ s t, Returns x s a t) → Appends J E (f a)) : Appends J E (x >>= f) := by
  intro s
  obtain ⟨added, hfinal, hadded, hE⟩ := hx s
  cases hr : (x s).result with
  | ok a =>
      obtain ⟨later, hlast, hlater, hE'⟩ := hf a ⟨s, _, hr, rfl⟩ (x s).final
      rw [bind_of_ok hr]
      refine ⟨added ++ later, ?_, hJ.append hadded hlater, hE'⟩
      rw [hlast, hfinal, List.append_assoc]
  | error e =>
      rw [bind_of_error hr]
      refine ⟨added, hfinal, hadded, fun e' he ↦ ?_⟩
      obtain rfl := Except.error.inj he
      exact hE e hr

theorem Appends.forEach (hJ : Concatenative J) {body : δ → Traced (List β) ε PUnit} {l : List δ}
    (h : ∀ d ∈ l, Appends J E (body d)) : Appends J E (forEach body l) := by
  induction l with
  | nil => exact Appends.pure hJ _
  | cons d rest ih =>
      exact Appends.bind hJ (h d List.mem_cons_self)
        fun _ _ ↦ ih fun c hc ↦ h c (List.mem_cons_of_mem d hc)

/-- Without exceptions the program returns. -/
theorem Appends.returns (h : Appends J (fun _ ↦ False) x) (s : List β) :
    ∃ a added, Returns x s a (s ++ added) ∧ J added := by
  obtain ⟨added, hfinal, hadded, hE⟩ := h s
  cases hr : (x s).result with
  | ok a => exact ⟨a, added, ⟨hr, hfinal⟩, hadded⟩
  | error e => exact (hE e hr).elim

end Appends

/-! ## Runs that return -/

/-- A run that returns has appended something that meets `K`. -/
def Leaves (K : List β → Prop) (x : Traced (List β) ε α) : Prop :=
  ∀ s a t, Returns x s a t → ∃ added, t = s ++ added ∧ K added

/-- A property of logs that passes on to any longer log. -/
def Persistent (K : List β → Prop) : Prop := ∀ a l b, K l → K (a ++ l ++ b)

theorem Returns.of_bind {σ : Type u} {x : Traced σ ε α} {f : α → Traced σ ε γ} {s u : σ} {c : γ}
    (h : Returns (x >>= f) s c u) : ∃ a t, Returns x s a t ∧ Returns (f a) t c u := by
  cases hr : (x s).result with
  | ok a =>
      rw [Returns, bind_of_ok hr] at h
      exact ⟨a, (x s).final, ⟨hr, rfl⟩, h⟩
  | error e =>
      rw [Returns, bind_of_error hr] at h
      cases h.1

section Leaves

variable {J K : List β → Prop} {E : ε → Prop} {x : Traced (List β) ε α}
  {f : α → Traced (List β) ε γ}

theorem Appends.leaves (h : Appends J E x) : Leaves J x := by
  rintro s a t ⟨-, rfl⟩
  obtain ⟨added, hfinal, hadded, -⟩ := h s
  exact ⟨added, hfinal, hadded⟩

theorem Leaves.bind_left (hK : Persistent K) (hx : Leaves K x)
    (hf : ∀ a, Leaves (fun _ ↦ True) (f a)) : Leaves K (x >>= f) := by
  intro s c u h
  obtain ⟨a, t, hfirst, hsecond⟩ := h.of_bind
  obtain ⟨added, rfl, hadded⟩ := hx s a t hfirst
  obtain ⟨later, rfl, -⟩ := hf a _ c u hsecond
  exact ⟨added ++ later, List.append_assoc _ _ _, hK [] added later hadded⟩

/-- The second part may depend on the value of the first. -/
theorem Leaves.bind_right (hK : Persistent K) (hx : Leaves (fun _ ↦ True) x)
    (hf : ∀ a, (∃ s t, Returns x s a t) → Leaves K (f a)) : Leaves K (x >>= f) := by
  intro s c u h
  obtain ⟨a, t, hfirst, hsecond⟩ := h.of_bind
  obtain ⟨added, rfl, -⟩ := hx s a t hfirst
  obtain ⟨later, rfl, hlater⟩ := hf a ⟨s, _, hfirst⟩ _ c u hsecond
  refine ⟨added ++ later, List.append_assoc _ _ _, ?_⟩
  have hlonger := hK added later [] hlater
  rwa [List.append_nil] at hlonger

theorem Leaves.pure (hK : K []) (a : α) : Leaves K (Pure.pure a : Traced (List β) ε α) := by
  intro s b t h
  obtain ⟨-, rfl⟩ := (Returns.pure a s).unique h
  exact ⟨[], (List.append_nil s).symm, hK⟩

theorem Leaves.forEach_all {body : δ → Traced (List β) ε PUnit} {l : List δ}
    (hall : ∀ c ∈ l, Leaves (fun _ ↦ True) (body c)) :
    Leaves (fun _ ↦ True) (forEach body l) := by
  induction l with
  | nil => exact Leaves.pure trivial _
  | cons b rest ih =>
      exact Leaves.bind_left (fun _ _ _ _ ↦ trivial) (hall b List.mem_cons_self)
        fun _ ↦ ih fun c hc ↦ hall c (List.mem_cons_of_mem b hc)

/-- One round of a loop is enough. -/
theorem Leaves.forEach_of_mem (hK : Persistent K) {body : δ → Traced (List β) ε PUnit} {l : List δ}
    {d : δ} (hall : ∀ c ∈ l, Leaves (fun _ ↦ True) (body c)) (hd : d ∈ l)
    (hbody : Leaves K (body d)) : Leaves K (forEach body l) := by
  induction l with
  | nil => cases hd
  | cons b rest ih =>
      rcases List.mem_cons.mp hd with rfl | hd
      · exact Leaves.bind_left hK hbody
          fun _ ↦ Leaves.forEach_all fun c hc ↦ hall c (List.mem_cons_of_mem d hc)
      · exact Leaves.bind_right hK (hall b List.mem_cons_self)
          fun _ _ ↦ ih (fun c hc ↦ hall c (List.mem_cons_of_mem b hc)) hd

end Leaves

/-! ## What stands directly in front -/

/-- Each element that `needs` it stands directly behind one in the relation `R` to it. -/
def Preceded (needs : β → Prop) (R : β → β → Prop) (l : List β) : Prop :=
  ∀ before b after, l = before ++ b :: after → needs b →
    ∃ earlier d, before = earlier ++ [d] ∧ R d b

section Preceded

variable {needs : β → Prop} {R : β → β → Prop} {a b : List β}

theorem preceded_append (hfirst : ∀ c ∈ b.head?, ¬ needs c) :
    Preceded needs R (a ++ b) ↔ Preceded needs R a ∧ Preceded needs R b := by
  constructor
  · intro h
    constructor
    · rintro before c after rfl hc
      exact h before c (after ++ b) (by simp) hc
    · rintro before c after rfl hc
      obtain ⟨earlier, d, heq, hR⟩ := h (a ++ before) c after (by simp) hc
      rcases before.eq_nil_or_concat with rfl | ⟨front, last, rfl⟩
      · exact absurd hc (hfirst c rfl)
      · rw [List.concat_eq_append, ← List.append_assoc] at heq
        obtain ⟨-, hlast⟩ := List.append_inj' heq rfl
        obtain rfl := List.singleton_inj.mp hlast
        exact ⟨front, last, List.concat_eq_append, hR⟩
  · rintro ⟨ha, hb⟩ before c after heq hc
    rcases List.append_eq_append_iff.mp heq with ⟨middle, rfl, hmiddle⟩ | ⟨middle, rfl, hmiddle⟩
    · obtain ⟨earlier, d, rfl, hR⟩ := hb middle c after hmiddle hc
      exact ⟨a ++ earlier, d, (List.append_assoc _ _ _).symm, hR⟩
    · cases middle with
      | nil =>
          refine absurd hc (hfirst c ?_)
          rw [← List.nil_append b, ← hmiddle]
          rfl
      | cons d rest =>
          obtain ⟨rfl, -⟩ := List.cons_eq_cons.mp hmiddle
          exact ha before c rest rfl hc

theorem preceded_of_not_needs {l : List β} (h : ∀ c ∈ l, ¬ needs c) : Preceded needs R l := by
  rintro before c after rfl hc
  exact absurd hc (h c (List.mem_append_right _ List.mem_cons_self))

theorem preceded_pair {d c : β} (hd : ¬ needs d) (hc : needs c) :
    Preceded needs R [d, c] ↔ R d c := by
  constructor
  · intro h
    obtain ⟨earlier, d', heq, hR⟩ := h [d] c [] rfl hc
    obtain ⟨-, hlast⟩ := List.append_inj' (show [] ++ [d] = earlier ++ [d'] from heq) rfl
    obtain rfl := List.singleton_inj.mp hlast
    exact hR
  · intro hR before b after heq hb
    cases before with
    | nil =>
        obtain ⟨rfl, -⟩ := List.cons_eq_cons.mp heq
        exact absurd hb hd
    | cons first rest =>
        obtain ⟨rfl, hrest⟩ := List.cons_eq_cons.mp heq
        cases rest with
        | nil =>
            obtain ⟨rfl, -⟩ := List.cons_eq_cons.mp hrest
            exact ⟨[], d, rfl, hR⟩
        | cons second rest =>
            obtain ⟨-, hrest⟩ := List.cons_eq_cons.mp hrest
            simp at hrest

end Preceded

end IqrfDaemon.Transition.Traced
