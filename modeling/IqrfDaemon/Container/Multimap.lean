import Mathlib.Data.List.Sort
import Mathlib.Data.List.Nodup

/-!
# Ordered multimaps

Entries in ascending key order, entries of equal keys in insertion order: the
sequence a tree-based multimap iterates over.  The order is a field, so an
unsorted multimap cannot be built, and the first entry always has a least key.
-/

namespace IqrfDaemon.Container

structure Multimap (κ : Type*) [LinearOrder κ] (β : Type*) where
  entries : List (κ × β)
  sorted : entries.Pairwise fun a b ↦ a.1 ≤ b.1

namespace Multimap

variable {κ : Type*} [LinearOrder κ] {β : Type*}

instance [DecidableEq β] : DecidableEq (Multimap κ β) := fun m n ↦
  decidable_of_iff (m.entries = n.entries) (by cases m; cases n; simp)

def empty : Multimap κ β := ⟨[], List.Pairwise.nil⟩

/-- The entries with `(k, v)` placed behind every entry whose key is at most `k`. -/
def insertEntries (k : κ) (v : β) (l : List (κ × β)) : List (κ × β) :=
  l.orderedInsert (fun a b ↦ a.1 < b.1) (k, v)

theorem insertEntries_perm (k : κ) (v : β) (l : List (κ × β)) :
    (insertEntries k v l).Perm ((k, v) :: l) :=
  List.perm_orderedInsert _ _ _

theorem insertEntries_sorted (k : κ) (v : β) {l : List (κ × β)}
    (h : l.Pairwise fun a b ↦ a.1 ≤ b.1) :
    (insertEntries k v l).Pairwise fun a b ↦ a.1 ≤ b.1 := by
  induction l with
  | nil => simp [insertEntries]
  | cons e rest ih =>
      obtain ⟨hhead, htail⟩ := List.pairwise_cons.mp h
      by_cases hk : k < e.1
      · have heq : insertEntries k v (e :: rest) = (k, v) :: e :: rest := by
          simp [insertEntries, hk]
        rw [heq]
        refine List.pairwise_cons.mpr ⟨?_, h⟩
        intro b hb
        rcases List.mem_cons.mp hb with rfl | hb
        · exact hk.le
        · exact hk.le.trans (hhead b hb)
      · have heq : insertEntries k v (e :: rest) = e :: insertEntries k v rest := by
          simp [insertEntries, hk]
        rw [heq]
        refine List.pairwise_cons.mpr ⟨?_, ih htail⟩
        intro b hb
        rcases List.mem_cons.mp ((insertEntries_perm k v rest).mem_iff.mp hb) with rfl | hb
        · exact not_lt.mp hk
        · exact hhead b hb

def insert (m : Multimap κ β) (k : κ) (v : β) : Multimap κ β :=
  ⟨insertEntries k v m.entries, insertEntries_sorted k v m.sorted⟩

/-- Erase the first entry. -/
def eraseBegin (m : Multimap κ β) : Multimap κ β :=
  ⟨m.entries.tail, m.sorted.tail⟩

/-- Erase every entry that fails the test. -/
def filter (m : Multimap κ β) (p : κ × β → Bool) : Multimap κ β :=
  ⟨m.entries.filter p, m.sorted.filter p⟩

def values (m : Multimap κ β) : List β := m.entries.map Prod.snd

@[simp] theorem entries_empty : (empty : Multimap κ β).entries = [] := rfl

@[simp] theorem entries_eraseBegin (m : Multimap κ β) :
    m.eraseBegin.entries = m.entries.tail := rfl

theorem entries_insert_perm (m : Multimap κ β) (k : κ) (v : β) :
    (m.insert k v).entries.Perm ((k, v) :: m.entries) :=
  insertEntries_perm k v m.entries

@[simp] theorem mem_entries_insert {m : Multimap κ β} {k : κ} {v : β} {e : κ × β} :
    e ∈ (m.insert k v).entries ↔ e = (k, v) ∨ e ∈ m.entries := by
  rw [(m.entries_insert_perm k v).mem_iff, List.mem_cons]

theorem filter_insertEntries {k : κ} {v : β} {p : κ × β → Bool} (hp : p (k, v) = false)
    (l : List (κ × β)) : (insertEntries k v l).filter p = l.filter p := by
  induction l with
  | nil => simp [insertEntries, hp]
  | cons e rest ih =>
      rw [insertEntries, List.orderedInsert_cons]
      split
      case isTrue => rw [List.filter_cons_of_neg (by simp [hp])]
      case isFalse =>
        rw [insertEntries] at ih
        rw [List.filter_cons, ih, ← List.filter_cons]

/-- An entry that fails the test does not show in what passes it. -/
theorem filter_entries_insert (m : Multimap κ β) {k : κ} {v : β} {p : κ × β → Bool}
    (hp : p (k, v) = false) : (m.insert k v).entries.filter p = m.entries.filter p :=
  filter_insertEntries hp m.entries

@[simp] theorem values_empty : (empty : Multimap κ β).values = [] := rfl

theorem values_insert_perm (m : Multimap κ β) (k : κ) (v : β) :
    (m.insert k v).values.Perm (v :: m.values) :=
  (m.entries_insert_perm k v).map Prod.snd

@[simp] theorem mem_values_insert {m : Multimap κ β} {k : κ} {v w : β} :
    w ∈ (m.insert k v).values ↔ w = v ∨ w ∈ m.values := by
  rw [(m.values_insert_perm k v).mem_iff, List.mem_cons]

theorem mem_values {m : Multimap κ β} {v : β} : v ∈ m.values ↔ ∃ k, (k, v) ∈ m.entries := by
  simp [values]

/-- The first entry has a least key. -/
theorem begin_le {m : Multimap κ β} {e : κ × β} {rest : List (κ × β)}
    (h : m.entries = e :: rest) {b : κ × β} (hb : b ∈ m.entries) : e.1 ≤ b.1 := by
  have hsorted := m.sorted
  rw [h] at hsorted hb
  rcases List.mem_cons.mp hb with rfl | hb
  · exact le_rfl
  · exact (List.pairwise_cons.mp hsorted).1 b hb

end Multimap

end IqrfDaemon.Container
