import Mathlib.Data.List.Infix
import IqrfDaemon.Text.Fields

/-!
# Topics and topic filters

The name of a topic is a text of levels between slashes.  In a filter the level `+`
stands for any one level, and a last level `#` for any further levels, also none.
A filter that starts with a wildcard leaves out the names that start with a dollar.
-/

namespace IqrfDaemon.Topic

open Text

def levels (s : List Char) : List (List Char) := s.splitOn '/'

/-- A wildcard is a level of its own, and `#` is the last one. -/
structure IsFilter (filter : List Char) : Prop where
  ne_nil : filter ≠ []
  plus : ∀ level ∈ levels filter, '+' ∈ level → level = ['+']
  hash : ∀ level ∈ levels filter, '#' ∈ level → level = ['#']
  before : ∀ level ∈ (levels filter).dropLast, '#' ∉ level

def matchesLevels : (filter topic : List (List Char)) → Bool
  | [['#']], _ => true
  | f :: filter, t :: topic => (f = ['+'] || f = t) && matchesLevels filter topic
  | [], [] => true
  | _, _ => false

def Matches (filter topic : List Char) : Prop :=
  matchesLevels (levels filter) (levels topic) = true ∧
    (filter.head? = some '#' ∨ filter.head? = some '+' → topic.head? ≠ some '$')

instance (filter topic : List Char) : Decidable (Matches filter topic) :=
  inferInstanceAs (Decidable (_ ∧ _))

/-! ## Levels -/

theorem levels_append (s t : List Char) : levels (s ++ '/' :: t) = levels s ++ levels t :=
  List.splitOn_append_cons_self s t

theorem intercalate_levels (s : List Char) : ['/'].intercalate (levels s) = s :=
  List.intercalate_splitOn '/'

theorem levels_injective {s t : List Char} (h : levels s = levels t) : s = t := by
  rw [← intercalate_levels s, h, intercalate_levels]

theorem of_mem_level {s level : List Char} (h : level ∈ levels s) :
    ∀ c ∈ level, c ∈ s ∧ c ≠ '/' := by
  intro c hc
  rw [levels, List.splitOn_eq_splitOnP] at h
  obtain ⟨hmem, hsep⟩ := of_mem_splitOnP h c hc
  exact ⟨hmem, by simpa using hsep⟩

theorem mem_level {s : List Char} {c : Char} (hc : c ∈ s) :
    c = '/' ∨ ∃ level ∈ levels s, c ∈ level := by
  rw [← intercalate_levels s] at hc
  exact mem_intercalate hc

theorem exists_levels {words : List (List Char)} (hne : words ≠ [])
    (hwords : ∀ w ∈ words, '/' ∉ w) : ∃ s, levels s = words :=
  ⟨['/'].intercalate words, List.splitOn_intercalate '/' hwords hne⟩

/-- The first levels of a text are all of them, or end before a slash. -/
theorem levels_prefix_iff {s t : List Char} :
    levels s <+: levels t ↔ t = s ∨ s ++ ['/'] <+: t := by
  constructor
  · rintro ⟨more, hmore⟩
    by_cases hnil : more = []
    · rw [hnil, List.append_nil] at hmore
      exact Or.inl (levels_injective hmore).symm
    · right
      have hslash : ∀ w ∈ more, '/' ∉ w := by
        intro w hw hmem
        have hlevel : w ∈ levels t := hmore ▸ List.mem_append_right _ hw
        exact (of_mem_level hlevel '/' hmem).2 rfl
      obtain ⟨u, rfl⟩ := exists_levels hnil hslash
      rw [← levels_append] at hmore
      rw [← levels_injective hmore]
      exact ⟨u, by simp⟩
  · rintro (rfl | ⟨u, rfl⟩)
    · exact List.prefix_rfl
    · rw [List.append_assoc, List.singleton_append, levels_append]
      exact List.prefix_append _ _

/-! ## Filters without `+` -/

section Plain

variable {f t : List Char} {filter topic : List (List Char)}

theorem matchesLevels_cons (hplus : f ≠ ['+']) (hhash : f ≠ ['#']) :
    matchesLevels (f :: filter) (t :: topic) = true ↔
      f = t ∧ matchesLevels filter topic = true := by
  simp [matchesLevels, hplus, hhash]

theorem matchesLevels_cons_nil (hhash : f ≠ ['#']) : matchesLevels (f :: filter) [] = false := by
  simp [matchesLevels, hhash]

/-- Without wildcards a filter matches itself. -/
theorem matchesLevels_of_plain (hplain : ∀ level ∈ filter, level ≠ ['+'] ∧ level ≠ ['#']) :
    matchesLevels filter topic = true ↔ filter = topic := by
  induction filter generalizing topic with
  | nil => cases topic <;> simp [matchesLevels]
  | cons f filter ih =>
      obtain ⟨hplus, hhash⟩ := hplain f List.mem_cons_self
      cases topic with
      | nil => simp [matchesLevels_cons_nil hhash]
      | cons t topic =>
          rw [matchesLevels_cons hplus hhash, List.cons.injEq,
            ih fun level hlevel ↦ hplain level (List.mem_cons_of_mem f hlevel)]

/-- Behind the levels of a filter `#` takes whatever is left. -/
theorem matchesLevels_hash (hplain : ∀ level ∈ filter, level ≠ ['+'] ∧ level ≠ ['#']) :
    matchesLevels (filter ++ [['#']]) topic = true ↔ filter <+: topic := by
  induction filter generalizing topic with
  | nil => simp [matchesLevels]
  | cons f filter ih =>
      obtain ⟨hplus, hhash⟩ := hplain f List.mem_cons_self
      cases topic with
      | nil => simp [matchesLevels_cons_nil hhash]
      | cons t topic =>
          rw [List.cons_append, matchesLevels_cons hplus hhash, List.cons_prefix_cons,
            ih fun level hlevel ↦ hplain level (List.mem_cons_of_mem f hlevel)]

end Plain

theorem plain_levels {s : List Char} (hplus : '+' ∉ s) (hhash : '#' ∉ s) :
    ∀ level ∈ levels s, level ≠ ['+'] ∧ level ≠ ['#'] := by
  intro level hlevel
  constructor <;> rintro rfl
  · exact hplus (of_mem_level hlevel _ List.mem_cons_self).1
  · exact hhash (of_mem_level hlevel _ List.mem_cons_self).1

/-- A filter is free of `#`, or it is `#`, alone or behind levels that are. -/
theorem IsFilter.cases {filter : List Char} (h : IsFilter filter) :
    '#' ∉ filter ∨ filter = ['#'] ∨ ∃ s, '#' ∉ s ∧ filter = s ++ ['/', '#'] := by
  by_cases hmem : '#' ∈ filter
  · obtain ⟨level, hlevel, hhash⟩ := (mem_level hmem).resolve_left (by decide)
    have hsplit := List.dropLast_append_getLast (List.ne_nil_of_mem hlevel)
    have hlast : level = (levels filter).getLast (List.ne_nil_of_mem hlevel) := by
      rw [← hsplit] at hlevel
      rcases List.mem_append.mp hlevel with hinit | hlast
      · exact absurd hhash (h.before level hinit)
      · exact List.mem_singleton.mp hlast
    rw [← hlast, h.hash level hlevel hhash] at hsplit
    by_cases hnil : (levels filter).dropLast = []
    · right; left
      have hlevels : levels filter = levels ['#'] := by
        rw [← hsplit, hnil]
        rfl
      exact levels_injective hlevels
    · right; right
      obtain ⟨s, hs⟩ := exists_levels hnil fun w hw hslash ↦
        (of_mem_level (List.mem_of_mem_dropLast hw) '/' hslash).2 rfl
      refine ⟨s, fun hmem ↦ ?_, ?_⟩
      · obtain ⟨w, hw, hhash⟩ := (mem_level hmem).resolve_left (by decide)
        exact h.before w (hs ▸ hw) hhash
      · apply levels_injective
        rw [levels_append, hs]
        exact hsplit.symm
  · exact Or.inl hmem

/-! ## What such filters match -/

section Matches

variable {s t : List Char}

theorem head?_ne_of_notMem {c : Char} (hc : c ∉ s) : s.head? ≠ some c :=
  fun hhead ↦ hc (List.mem_of_mem_head? hhead)

theorem matches_iff_of_plain (hplus : '+' ∉ s) (hhash : '#' ∉ s) : Matches s t ↔ s = t := by
  rw [Matches, matchesLevels_of_plain (plain_levels hplus hhash)]
  constructor
  · exact fun h ↦ levels_injective h.1
  · rintro rfl
    exact ⟨rfl, fun h ↦ absurd h (by simp [head?_ne_of_notMem, hplus, hhash])⟩

theorem matches_hash : Matches ['#'] t ↔ t.head? ≠ some '$' := by
  have hall : matchesLevels (levels ['#']) (levels t) = true := rfl
  simp [Matches, hall]

/-- `s/#` matches `s` and everything below it. -/
theorem matches_below (hplus : '+' ∉ s) (hhash : '#' ∉ s) :
    Matches (s ++ ['/', '#']) t ↔ t = s ∨ s ++ ['/'] <+: t := by
  have hstart : ¬((s ++ ['/', '#']).head? = some '#' ∨ (s ++ ['/', '#']).head? = some '+') := by
    cases s with
    | nil => decide
    | cons c s =>
      simp only [List.mem_cons, not_or] at hplus hhash
      simpa using ⟨Ne.symm hhash.1, Ne.symm hplus.1⟩
  have hlevels : levels (s ++ ['/', '#']) = levels s ++ [['#']] := levels_append s ['#']
  rw [Matches, hlevels, matchesLevels_hash (plain_levels hplus hhash), levels_prefix_iff]
  exact and_iff_left fun h ↦ absurd h hstart

end Matches

end IqrfDaemon.Topic
