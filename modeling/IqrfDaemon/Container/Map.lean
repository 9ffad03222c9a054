import Mathlib.Data.List.Pairwise
import Mathlib.Order.Lattice

/-!
# Ordered maps

Entries in strictly ascending key order: one value a key, in the sequence a
tree-based map iterates over.  `insert` keeps the value that is already there.
-/

namespace IqrfDaemon.Container

structure Map (κ : Type*) [LinearOrder κ] (β : Type*) where
  entries : List (κ × β)
  sorted : entries.Pairwise fun a b ↦ a.1 < b.1

namespace Map

variable {κ : Type*} [LinearOrder κ] {β : Type*}

def empty : Map κ β := ⟨[], List.Pairwise.nil⟩

def keys (m : Map κ β) : List κ := m.entries.map Prod.fst

def values (m : Map κ β) : List β := m.entries.map Prod.snd

def find (m : Map κ β) (k : κ) : Option β := m.entries.lookup k

def insertEntries (k : κ) (v : β) : List (κ × β) → List (κ × β)
  | [] => [(k, v)]
  | e :: rest =>
      if k < e.1 then (k, v) :: e :: rest
      else if e.1 < k then e :: insertEntries k v rest
      else e :: rest

theorem mem_insertEntries {k : κ} {v : β} {l : List (κ × β)} {e : κ × β}
    (h : e ∈ insertEntries k v l) : e = (k, v) ∨ e ∈ l := by
  induction l with
  | nil => exact Or.inl (List.mem_singleton.mp h)
  | cons d rest ih =>
      rw [insertEntries] at h
      split at h
      · exact List.mem_cons.mp h
      · split at h
        · rcases List.mem_cons.mp h with rfl | h
          · exact Or.inr List.mem_cons_self
          · exact (ih h).imp_right (List.mem_cons_of_mem d)
        · exact Or.inr h

theorem insertEntries_sorted (k : κ) (v : β) {l : List (κ × β)}
    (h : l.Pairwise fun a b ↦ a.1 < b.1) :
    (insertEntries k v l).Pairwise fun a b ↦ a.1 < b.1 := by
  induction l with
  | nil => exact List.pairwise_singleton _ _
  | cons e rest ih =>
      obtain ⟨hhead, htail⟩ := List.pairwise_cons.mp h
      rw [insertEntries]
      split
      case isTrue hk =>
        refine List.pairwise_cons.mpr ⟨fun b hb ↦ ?_, h⟩
        rcases List.mem_cons.mp hb with rfl | hb
        · exact hk
        · exact hk.trans (hhead b hb)
      case isFalse hk =>
        split
        case isTrue he =>
          refine List.pairwise_cons.mpr ⟨fun b hb ↦ ?_, ih htail⟩
          rcases mem_insertEntries hb with rfl | hb
          · exact he
          · exact hhead b hb
        case isFalse he => exact h

/-- `insert`, which does nothing when the key is there. -/
def insert (m : Map κ β) (k : κ) (v : β) : Map κ β :=
  ⟨insertEntries k v m.entries, insertEntries_sorted k v m.sorted⟩

def erase (m : Map κ β) (k : κ) : Map κ β :=
  ⟨m.entries.filter fun e ↦ e.1 ≠ k, m.sorted.filter _⟩

/-- Change the value under a key. -/
def modify (m : Map κ β) (k : κ) (f : β → β) : Map κ β where
  entries := m.entries.map fun e ↦ (e.1, if e.1 = k then f e.2 else e.2)
  sorted := by
    rw [List.pairwise_map]
    exact m.sorted

@[simp] theorem values_empty : (empty : Map κ β).values = [] := rfl

@[simp] theorem keys_empty : (empty : Map κ β).keys = [] := rfl

@[simp] theorem keys_modify (m : Map κ β) (k : κ) (f : β → β) : (m.modify k f).keys = m.keys := by
  simp [keys, modify]

theorem mem_keys_insert {m : Map κ β} {k j : κ} {v : β} :
    j ∈ (m.insert k v).keys ↔ j = k ∨ j ∈ m.keys := by
  have hentries : ∀ l : List (κ × β),
      j ∈ (insertEntries k v l).map Prod.fst ↔ j = k ∨ j ∈ l.map Prod.fst := by
    intro l
    induction l with
    | nil => simp [insertEntries]
    | cons e rest ih =>
        rw [insertEntries]
        split
        · simp
        · split
          · rw [List.map_cons, List.map_cons, List.mem_cons, List.mem_cons, ih]
            exact or_left_comm
          case isFalse.isFalse hk he =>
            have hkey : k = e.1 := le_antisymm (not_lt.mp he) (not_lt.mp hk)
            simp [hkey]
  exact hentries m.entries

theorem isSome_find {m : Map κ β} {k : κ} : (m.find k).isSome = true ↔ k ∈ m.keys := by
  rw [find, List.lookup_isSome_iff, keys, List.mem_map]
  simp only [beq_iff_eq]
  exact exists_congr fun e ↦ and_congr_right fun _ ↦ eq_comm

theorem mem_entries_of_find {m : Map κ β} {k : κ} {v : β} (h : m.find k = some v) :
    (k, v) ∈ m.entries := by
  obtain ⟨l₁, l₂, hentries, -⟩ := List.lookup_eq_some_iff.mp h
  rw [hentries]
  exact List.mem_append_right _ List.mem_cons_self

theorem lookup_of_mem {k : κ} {v : β} {l : List (κ × β)}
    (hl : l.Pairwise fun a b ↦ a.1 < b.1) (h : (k, v) ∈ l) : l.lookup k = some v := by
  induction l with
  | nil => cases h
  | cons e rest ih =>
      obtain ⟨hhead, htail⟩ := List.pairwise_cons.mp hl
      rcases List.mem_cons.mp h with rfl | h
      · exact List.lookup_cons_self
      · have hne : (k == e.1) = false := beq_eq_false_iff_ne.mpr (hhead _ h).ne'
        rw [List.lookup_cons, hne]
        exact ih htail h

theorem find_eq_some_iff {m : Map κ β} {k : κ} {v : β} :
    m.find k = some v ↔ (k, v) ∈ m.entries :=
  ⟨mem_entries_of_find, lookup_of_mem m.sorted⟩

theorem find_eq_none_iff {m : Map κ β} {k : κ} : m.find k = none ↔ k ∉ m.keys := by
  rw [← isSome_find, Option.isSome_iff_ne_none, not_not]

theorem mem_insertEntries_self {k : κ} {v : β} {l : List (κ × β)} (h : k ∉ l.map Prod.fst) :
    (k, v) ∈ insertEntries k v l ∧ ∀ e ∈ l, e ∈ insertEntries k v l := by
  induction l with
  | nil => exact ⟨List.mem_singleton_self _, fun e he ↦ nomatch he⟩
  | cons d rest ih =>
      rw [List.map_cons, List.mem_cons, not_or] at h
      obtain ⟨hself, hrest⟩ := ih h.2
      rw [insertEntries]
      split
      case isTrue hk => exact ⟨List.mem_cons_self, fun e he ↦ List.mem_cons_of_mem _ he⟩
      case isFalse hk =>
        rw [if_pos (lt_of_le_of_ne (not_lt.mp hk) (Ne.symm h.1))]
        refine ⟨List.mem_cons_of_mem _ hself, fun e he ↦ ?_⟩
        rcases List.mem_cons.mp he with rfl | he
        · exact List.mem_cons_self
        · exact List.mem_cons_of_mem _ (hrest e he)

theorem insertEntries_of_mem {k : κ} {v : β} {l : List (κ × β)}
    (hl : l.Pairwise fun a b ↦ a.1 < b.1) (h : k ∈ l.map Prod.fst) : insertEntries k v l = l := by
  induction l with
  | nil => cases h
  | cons e rest ih =>
      obtain ⟨hhead, htail⟩ := List.pairwise_cons.mp hl
      rw [insertEntries]
      rcases List.mem_cons.mp h with rfl | h
      · rw [if_neg (lt_irrefl _), if_neg (lt_irrefl _)]
      · obtain ⟨d, hd, rfl⟩ := List.mem_map.mp h
        have hlt := hhead d hd
        rw [if_neg hlt.not_gt, if_pos hlt, ih htail h]

/-- A key that is there keeps its value. -/
theorem insert_of_find {m : Map κ β} {k : κ} {u : β} (h : m.find k = some u) (v : β) :
    m.insert k v = m := by
  have hk : k ∈ m.keys := isSome_find.mp (by rw [h]; rfl)
  cases m
  rw [insert]
  congr
  exact insertEntries_of_mem (by assumption) hk

theorem find_insert_of_none {m : Map κ β} {k : κ} (h : m.find k = none) (v : β) (j : κ) :
    (m.insert k v).find j = if j = k then some v else m.find j := by
  obtain ⟨hself, hrest⟩ := mem_insertEntries_self (v := v) (find_eq_none_iff.mp h)
  by_cases hj : j = k
  · rw [if_pos hj, hj, find_eq_some_iff]
    exact hself
  · rw [if_neg hj]
    refine Option.ext fun w ↦ ?_
    rw [find_eq_some_iff, find_eq_some_iff]
    constructor
    · intro hmem
      rcases mem_insertEntries hmem with heq | hmem
      · exact absurd (Prod.mk.inj heq).1 hj
      · exact hmem
    · exact hrest (j, w)

theorem find_erase (m : Map κ β) (k j : κ) :
    (m.erase k).find j = if j = k then none else m.find j := by
  refine Option.ext fun w ↦ ?_
  rw [find_eq_some_iff, erase, List.mem_filter]
  by_cases hj : j = k
  · simp [hj]
  · simp [hj, find_eq_some_iff]

theorem nodup_entries (m : Map κ β) : m.entries.Nodup :=
  m.sorted.imp fun {a b} (h : a.1 < b.1) (heq : a = b) ↦ h.ne (congrArg Prod.fst heq)

theorem mem_values_insert {m : Map κ β} {k : κ} {v w : β} (h : w ∈ (m.insert k v).values) :
    w = v ∨ w ∈ m.values := by
  obtain ⟨e, he, rfl⟩ := List.mem_map.mp h
  rcases mem_insertEntries he with rfl | he
  · exact Or.inl rfl
  · exact Or.inr (List.mem_map_of_mem he)

theorem mem_values_erase {m : Map κ β} {k : κ} {w : β} (h : w ∈ (m.erase k).values) :
    w ∈ m.values := by
  obtain ⟨e, he, rfl⟩ := List.mem_map.mp h
  exact List.mem_map_of_mem (List.mem_filter.mp he).1

theorem mem_values_modify_of_find {m : Map κ β} {k : κ} {u : β} (f : β → β)
    (h : m.find k = some u) : f u ∈ (m.modify k f).values := by
  refine List.mem_map.mpr ⟨(k, f u), ?_, rfl⟩
  exact List.mem_map.mpr ⟨(k, u), mem_entries_of_find h, by simp⟩

/-- A value that was there is still there, or changed. -/
theorem mem_values_or_modified {m : Map κ β} (k : κ) (f : β → β) {u : β} (h : u ∈ m.values) :
    u ∈ (m.modify k f).values ∨ f u ∈ (m.modify k f).values := by
  obtain ⟨e, he, rfl⟩ := List.mem_map.mp h
  have hentry : (e.1, if e.1 = k then f e.2 else e.2) ∈ (m.modify k f).entries :=
    List.mem_map_of_mem he
  have hvalue := List.mem_map_of_mem (f := Prod.snd) hentry
  by_cases hk : e.1 = k
  · rw [if_pos hk] at hvalue
    exact Or.inr hvalue
  · rw [if_neg hk] at hvalue
    exact Or.inl hvalue

end Map

end IqrfDaemon.Container
