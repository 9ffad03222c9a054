import IqrfDaemon.Transition.System
import Mathlib.Data.List.Perm.Basic
import Mathlib.Data.List.Perm.Subperm

/-!
# A network of datagrams

One direction of a network that guarantees nothing: what is on its way may arrive in any
order, get lost, be delivered more than once and be altered.  A flight remembers what was
sent, so that whatever arrives can be traced back to it.
-/

namespace IqrfDaemon.Network

universe u v

variable {α : Type u} {δ : Type v}

/-! ## The network -/

/-- A datagram on its way, with what it was sent for and the bytes that would arrive now. -/
structure Flight (α : Type u) (δ : Type v) where
  origin : α
  arriving : δ
  deriving DecidableEq

/-- One direction: what was sent, what is on its way, what has arrived and what is gone. -/
structure Medium (α : Type u) (δ : Type v) where
  sent : List α
  inFlight : List (Flight α δ)
  delivered : List (Flight α δ)
  lost : List (Flight α δ)

/-- What the network does by itself, to the datagram at a place. -/
inductive Disturbance (δ : Type v)
  | lose (i : ℕ)
  | duplicate (i : ℕ)
  | alter (i : ℕ) (d : δ)

namespace Medium

def idle : Medium α δ := ⟨[], [], [], []⟩

def send (n : Medium α δ) (a : α) (d : δ) : Medium α δ :=
  { n with sent := n.sent ++ [a], inFlight := n.inFlight ++ [⟨a, d⟩] }

/-- The datagram at a place arrives. -/
def deliver (n : Medium α δ) (i : ℕ) : Option (Flight α δ × Medium α δ) :=
  n.inFlight[i]?.map fun f ↦
    (f, { n with inFlight := n.inFlight.eraseIdx i, delivered := n.delivered ++ [f] })

def disturb (n : Medium α δ) : Disturbance δ → Option (Medium α δ)
  | .lose i => n.inFlight[i]?.map fun f ↦
      { n with inFlight := n.inFlight.eraseIdx i, lost := n.lost ++ [f] }
  | .duplicate i => n.inFlight[i]?.map fun f ↦ { n with inFlight := n.inFlight ++ [f] }
  | .alter i d => n.inFlight[i]?.map fun f ↦
      { n with inFlight := n.inFlight.set i { f with arriving := d } }

/-- All datagrams that the network has taken, copies included. -/
def flights (n : Medium α δ) : List (Flight α δ) := n.delivered ++ (n.inFlight ++ n.lost)

end Medium

/-- The network alters a datagram only as `D` says, seen from what was sent. -/
def Disturbance.Within (render : α → δ) (D : δ → δ → Prop) (n : Medium α δ) :
    Disturbance δ → Prop
  | .alter i d => ∀ f, n.inFlight[i]? = some f → D (render f.origin) d
  | _ => True

def Disturbance.copies : Disturbance δ → Bool
  | .duplicate _ => true
  | _ => false

/-! ## Everything comes from what was sent -/

/-- The bytes are those that were sent, or altered as `D` says. -/
def Flight.Intact (render : α → δ) (f : Flight α δ) : Prop := f.arriving = render f.origin

/-- Everything on the way was sent, and arrives as it was sent or altered as `D` says. -/
def Traced (render : α → δ) (D : δ → δ → Prop) (n : Medium α δ) : Prop :=
  ∀ f ∈ n.flights, f.origin ∈ n.sent ∧ (f.Intact render ∨ D (render f.origin) f.arriving)

variable {render : α → δ} {D : δ → δ → Prop} {n n' : Medium α δ}

theorem traced_idle : Traced render D (Medium.idle : Medium α δ) := by
  intro f hf
  cases hf

theorem Traced.send (h : Traced render D n) (a : α) : Traced render D (n.send a (render a)) := by
  intro f hf
  simp only [Medium.flights, Medium.send, List.mem_append, List.mem_singleton] at hf ⊢
  have hold : f ∈ n.flights → (f.origin ∈ n.sent ∨ f.origin = a) ∧
      (f.Intact render ∨ D (render f.origin) f.arriving) := fun hmem ↦
    ⟨.inl (h f hmem).1, (h f hmem).2⟩
  rcases hf with hf | (hf | rfl) | hf
  · exact hold (List.mem_append_left _ hf)
  · exact hold (List.mem_append_right _ (List.mem_append_left _ hf))
  · exact ⟨.inr rfl, .inl rfl⟩
  · exact hold (List.mem_append_right _ (List.mem_append_right _ hf))

/-- What a delivery does. -/
theorem deliver_eq_some {i : ℕ} {f : Flight α δ} (h : n.deliver i = some (f, n')) :
    n.inFlight[i]? = some f ∧
      n' = { n with inFlight := n.inFlight.eraseIdx i, delivered := n.delivered ++ [f] } := by
  obtain ⟨g, hg, heq⟩ := Option.map_eq_some_iff.mp h
  cases heq
  exact ⟨hg, rfl⟩

/-- Nothing gets into the network but what is sent. -/
theorem Traced.of_subset (h : Traced render D n) (hsent : n'.sent = n.sent)
    (hsub : ∀ f ∈ n'.flights, f ∈ n.flights) : Traced render D n' := by
  intro f hf
  rw [hsent]
  exact h f (hsub f hf)

theorem Traced.deliver (h : Traced render D n) {i : ℕ} {f : Flight α δ}
    (hstep : n.deliver i = some (f, n')) : Traced render D n' := by
  obtain ⟨hget, rfl⟩ := deliver_eq_some hstep
  refine h.of_subset rfl fun g hg ↦ ?_
  have hmem : f ∈ n.inFlight := List.mem_of_getElem? hget
  have herase : g ∈ n.inFlight.eraseIdx i → g ∈ n.inFlight :=
    fun hg ↦ (List.eraseIdx_sublist _ _).subset hg
  simp only [Medium.flights, List.mem_append, List.mem_singleton] at hg ⊢
  rcases hg with (hg | rfl) | hg | hg
  · exact .inl hg
  · exact .inr (.inl hmem)
  · exact .inr (.inl (herase hg))
  · exact .inr (.inr hg)

theorem Traced.disturb (h : Traced render D n) {e : Disturbance δ} (he : e.Within render D n)
    (hstep : n.disturb e = some n') : Traced render D n' := by
  cases e with
  | lose i =>
      obtain ⟨f, hget, rfl⟩ := Option.map_eq_some_iff.mp hstep
      refine h.of_subset rfl fun g hg ↦ ?_
      have hmem : f ∈ n.inFlight := List.mem_of_getElem? hget
      have herase : g ∈ n.inFlight.eraseIdx i → g ∈ n.inFlight :=
        fun hg ↦ (List.eraseIdx_sublist _ _).subset hg
      simp only [Medium.flights, List.mem_append, List.mem_singleton] at hg ⊢
      rcases hg with hg | hg | hg | rfl
      · exact .inl hg
      · exact .inr (.inl (herase hg))
      · exact .inr (.inr hg)
      · exact .inr (.inl hmem)
  | duplicate i =>
      obtain ⟨f, hget, rfl⟩ := Option.map_eq_some_iff.mp hstep
      refine h.of_subset rfl fun g hg ↦ ?_
      have hmem : f ∈ n.inFlight := List.mem_of_getElem? hget
      simp only [Medium.flights, List.mem_append, List.mem_singleton] at hg ⊢
      rcases hg with hg | (hg | rfl) | hg
      · exact .inl hg
      · exact .inr (.inl hg)
      · exact .inr (.inl hmem)
      · exact .inr (.inr hg)
  | alter i d =>
      obtain ⟨f, hget, rfl⟩ := Option.map_eq_some_iff.mp hstep
      have hmem : f ∈ n.flights :=
        List.mem_append_right _ (List.mem_append_left _ (List.mem_of_getElem? hget))
      intro g hg
      simp only [Medium.flights, List.mem_append] at hg
      rcases hg with hg | hg | hg
      · exact h g (List.mem_append_left _ hg)
      · rcases List.mem_or_eq_of_mem_set hg with hg | rfl
        · exact h g (List.mem_append_right _ (List.mem_append_left _ hg))
        · exact ⟨(h f hmem).1, .inr (he f hget)⟩
      · exact h g (List.mem_append_right _ (List.mem_append_right _ hg))

/-- The network neither sends nor delivers by itself. -/
theorem disturb_eq_some {e : Disturbance δ} (hstep : n.disturb e = some n') :
    n'.sent = n.sent ∧ n'.delivered = n.delivered := by
  cases e <;>
  · obtain ⟨f, -, rfl⟩ := Option.map_eq_some_iff.mp hstep
    exact ⟨rfl, rfl⟩

/-! ## What has been accepted -/

section Accepted

variable [DecidableEq δ]

/-- What has arrived as it was sent, in the order of its arrival. -/
def Medium.accepted (render : α → δ) (n : Medium α δ) : List α :=
  (n.delivered.filter fun f ↦ f.arriving = render f.origin).map Flight.origin

/-- What has arrived altered, is on its way or is gone. -/
def Medium.outstanding (render : α → δ) (n : Medium α δ) : List α :=
  (n.delivered.filter (fun f ↦ !decide (f.arriving = render f.origin)) ++
    (n.inFlight ++ n.lost)).map Flight.origin

theorem accepted_deliver {i : ℕ} {f : Flight α δ} (hstep : n.deliver i = some (f, n')) :
    n'.accepted render = n.accepted render ++ if f.arriving = render f.origin then [f.origin]
      else [] := by
  obtain ⟨-, rfl⟩ := deliver_eq_some hstep
  rw [Medium.accepted, List.filter_append, List.map_append]
  congr 1
  by_cases hintact : f.arriving = render f.origin
  · rw [if_pos hintact, List.filter_singleton, decide_eq_true hintact]
    rfl
  · rw [if_neg hintact, List.filter_singleton, decide_eq_false hintact]
    rfl

theorem Traced.mem_sent (h : Traced render D n) {a : α} (ha : a ∈ n.accepted render) :
    a ∈ n.sent := by
  obtain ⟨f, hf, rfl⟩ := List.mem_map.mp ha
  exact (h f (List.mem_append_left _ (List.mem_of_mem_filter hf))).1

end Accepted

/-! ## Nothing is duplicated or made up -/

/-- Everything that was sent is accounted for exactly once. -/
def Conserved (n : Medium α δ) : Prop := n.sent.Perm (n.flights.map Flight.origin)

theorem conserved_idle : Conserved (Medium.idle : Medium α δ) := List.Perm.refl _

theorem perm_cons_eraseIdx {β : Type*} {l : List β} {i : ℕ} {b : β} (h : l[i]? = some b) :
    l.Perm (b :: l.eraseIdx i) := by
  obtain ⟨hi, rfl⟩ := List.getElem?_eq_some_iff.mp h
  exact (List.getElem_cons_eraseIdx_perm hi).symm

theorem map_set_eq {β γ : Type*} {l : List β} {i : ℕ} {b : β} (h : l[i]? = some b) (b' : β)
    (g : β → γ) (heq : g b' = g b) : (l.set i b').map g = l.map g := by
  obtain ⟨hi, rfl⟩ := List.getElem?_eq_some_iff.mp h
  have hi' : i < (l.map g).length := by rwa [List.length_map]
  calc (l.set i b').map g = (l.map g).set i (l.map g)[i] := by
        rw [List.map_set, heq, List.getElem_map]
    _ = l.map g := List.set_getElem_self hi'

theorem Conserved.send (h : Conserved n) (a : α) (d : δ) : Conserved (n.send a d) := by
  have hflights : (n.send a d).flights.Perm (n.flights ++ [⟨a, d⟩]) := by
    simp only [Medium.flights, Medium.send, List.append_assoc]
    exact (List.perm_append_comm.append_left _).append_left _
  exact (h.append_right [a]).trans ((hflights.map Flight.origin).trans (by simp)).symm

theorem Conserved.deliver (h : Conserved n) {i : ℕ} {f : Flight α δ}
    (hstep : n.deliver i = some (f, n')) : Conserved n' := by
  obtain ⟨hget, rfl⟩ := deliver_eq_some hstep
  refine h.trans (List.Perm.map _ ?_)
  have herase := perm_cons_eraseIdx hget
  simp only [Medium.flights, List.append_assoc]
  exact (herase.append_right _).append_left _

theorem Conserved.disturb (h : Conserved n) {e : Disturbance δ} (he : e.copies = false)
    (hstep : n.disturb e = some n') : Conserved n' := by
  cases e with
  | lose i =>
      obtain ⟨f, hget, rfl⟩ := Option.map_eq_some_iff.mp hstep
      refine h.trans (List.Perm.map _ ?_)
      have herase := perm_cons_eraseIdx hget
      simp only [Medium.flights]
      refine List.Perm.append_left _ ((herase.append_right _).trans ?_)
      rw [List.cons_append]
      exact List.perm_middle.symm.trans ((List.perm_append_singleton f n.lost).symm.append_left _)
  | duplicate i => cases he
  | alter i d =>
      obtain ⟨f, hget, rfl⟩ := Option.map_eq_some_iff.mp hstep
      refine h.trans (.of_eq ?_)
      have hset := map_set_eq hget ⟨f.origin, d⟩ Flight.origin rfl
      simp only [Medium.flights, List.map_append, hset]

/-- One step of a direction that makes no copy: nothing, or one of its ends or the network. -/
inductive MovesOnce (n : Medium α δ) : Medium α δ → Prop
  | stay : MovesOnce n n
  | send (a : α) (d : δ) : MovesOnce n (n.send a d)
  | deliver {i : ℕ} {f : Flight α δ} {n' : Medium α δ} (h : n.deliver i = some (f, n')) :
      MovesOnce n n'
  | disturb {e : Disturbance δ} {n' : Medium α δ} (he : e.copies = false)
      (h : n.disturb e = some n') : MovesOnce n n'

theorem Conserved.move (h : Conserved n) (hmoves : MovesOnce n n') : Conserved n' := by
  cases hmoves with
  | stay => exact h
  | send a d => exact h.send a d
  | deliver hstep => exact h.deliver hstep
  | disturb he hstep => exact h.disturb he hstep

/-- What was sent has been accepted once, or it is still outstanding. -/
theorem Conserved.perm_accepted [DecidableEq δ] (h : Conserved n) (render : α → δ) :
    n.sent.Perm (n.accepted render ++ n.outstanding render) := by
  have hsplit := List.filter_append_perm (fun f ↦ decide (f.arriving = render f.origin)) n.delivered
  rw [Medium.accepted, Medium.outstanding, ← List.map_append, ← List.append_assoc]
  exact h.trans ((hsplit.symm.append_right _).map _)

end IqrfDaemon.Network
