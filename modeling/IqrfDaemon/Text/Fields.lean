import Mathlib.Data.List.TakeWhile

/-!
# Fields of a text

A text over any alphabet, cut at separators.  Its fields are the maximal
non-empty runs without a separator, in order, as a stream reads them that skips
separators before each item.
-/

namespace IqrfDaemon.Text

variable {α : Type*} {sep : α → Bool}

/-- What holds of the characters of a text is decided along the text. -/
instance decidableForallMem (s : List Char) (p : Char → Prop) [DecidablePred p] :
    Decidable (∀ c ∈ s, p c) :=
  List.decidableBAll p s

def fields (sep : α → Bool) (s : List α) : List (List α) :=
  (s.splitOnP sep).filter fun w ↦ !w.isEmpty

@[simp] theorem fields_nil : fields sep [] = [] := by
  simp [fields]

theorem fields_cons_of_sep {c : α} (hc : sep c = true) (s : List α) :
    fields sep (c :: s) = fields sep s := by
  simp [fields, List.splitOnP_cons_eq_if_modifyHead, hc]

theorem fields_append_of_sep {blanks : List α} (hblanks : ∀ c ∈ blanks, sep c = true)
    (s : List α) : fields sep (blanks ++ s) = fields sep s := by
  induction blanks with
  | nil => rfl
  | cons c blanks ih =>
      rw [List.cons_append, fields_cons_of_sep (hblanks c (by simp))]
      exact ih fun d hd ↦ hblanks d (by simp [hd])

theorem fields_of_word {w : List α} (hne : w ≠ []) (hw : ∀ c ∈ w, sep c = false) :
    fields sep w = [w] := by
  simp [fields, List.splitOnP_eq_singleton hw, hne]

/-- Between two fields there is a separator. -/
theorem exists_sep_of_length_fields {s : List α} (h : 1 < (fields sep s).length) :
    ∃ c ∈ s, sep c = true := by
  by_contra hnone
  have hword : ∀ c ∈ s, sep c = false := by simpa using hnone
  by_cases hne : s = []
  · simp [hne] at h
  · simp [fields_of_word hne hword] at h

theorem fields_word_append {w s : List α} {c : α} (hne : w ≠ []) (hw : ∀ d ∈ w, sep d = false)
    (hc : sep c = true) : fields sep (w ++ c :: s) = w :: fields sep s := by
  rw [fields, List.splitOnP_append_cons_of_forall_mem hw c hc]
  simp [fields, hne]

theorem fields_append_cons {c : α} (hc : sep c = true) (s t : List α) :
    fields sep (s ++ c :: t) = fields sep s ++ fields sep t := by
  rw [fields, List.splitOnP_append_cons s t hc, List.filter_append]
  rfl

theorem intercalate_cons_cons (c : α) (w v : List α) (words : List (List α)) :
    List.intercalate [c] (w :: v :: words) = w ++ c :: List.intercalate [c] (v :: words) := by
  simp [List.intercalate]

theorem mem_intercalate {c d : α} {words : List (List α)}
    (h : d ∈ List.intercalate [c] words) : d = c ∨ ∃ w ∈ words, d ∈ w := by
  induction words with
  | nil => simp at h
  | cons w words ih =>
      cases words with
      | nil => exact Or.inr ⟨w, by simp, by simpa using h⟩
      | cons v words =>
          rw [intercalate_cons_cons] at h
          rcases List.mem_append.mp h with h | h
          · exact Or.inr ⟨w, by simp, h⟩
          · rcases List.mem_cons.mp h with rfl | h
            · exact Or.inl rfl
            · rcases ih h with rfl | ⟨u, hu, hd⟩
              · exact Or.inl rfl
              · exact Or.inr ⟨u, by simp [hu], hd⟩

/-- Words joined by a separator are the fields again. -/
theorem fields_intercalate {c : α} (hc : sep c = true) {words : List (List α)}
    (hwords : ∀ w ∈ words, w ≠ [] ∧ ∀ d ∈ w, sep d = false) :
    fields sep (List.intercalate [c] words) = words := by
  induction words with
  | nil => simp
  | cons w words ih =>
      obtain ⟨hne, hw⟩ := hwords w (by simp)
      cases words with
      | nil => simpa using fields_of_word hne hw
      | cons v words =>
          rw [intercalate_cons_cons, fields_word_append hne hw hc,
            ih fun u hu ↦ hwords u (by simp [hu])]

theorem fields_dropWhile (s : List α) : fields sep (s.dropWhile sep) = fields sep s := by
  have hsplit := List.takeWhile_append_dropWhile (p := sep) (l := s)
  have hblanks : ∀ c ∈ s.takeWhile sep, sep c = true := fun c hc ↦ List.mem_takeWhile_imp hc
  rw [← fields_append_of_sep hblanks (s.dropWhile sep), hsplit]

/-- The first field, and the fields of what follows it. -/
theorem fields_of_dropWhile_eq_cons {s : List α} {c : α} {rest : List α}
    (h : s.dropWhile sep = c :: rest) :
    fields sep s = (c :: rest).takeWhile (fun d ↦ !sep d) ::
      fields sep ((c :: rest).dropWhile fun d ↦ !sep d) := by
  have hc : sep c = false := by
    have hhead := List.head?_dropWhile_not sep s
    simpa [h] using hhead
  have hne : (c :: rest).takeWhile (fun d ↦ !sep d) ≠ [] := by simp [hc]
  have hw : ∀ d ∈ (c :: rest).takeWhile (fun d ↦ !sep d), sep d = false := by
    intro d hd
    simpa using List.mem_takeWhile_imp hd
  have hsplit := List.takeWhile_append_dropWhile (p := fun d ↦ !sep d) (l := c :: rest)
  have hword : fields sep ((c :: rest).takeWhile (fun d ↦ !sep d) ++
      (c :: rest).dropWhile fun d ↦ !sep d) = (c :: rest).takeWhile (fun d ↦ !sep d) ::
        fields sep ((c :: rest).dropWhile fun d ↦ !sep d) := by
    cases hrest : (c :: rest).dropWhile fun d ↦ !sep d with
    | nil => rw [List.append_nil, fields_of_word hne hw, fields_nil]
    | cons e tail =>
        have he : sep e = true := by
          have hhead := List.head?_dropWhile_not (fun d ↦ !sep d) (c :: rest)
          simpa [hrest] using hhead
        rw [fields_word_append hne hw he, fields_cons_of_sep he]
  calc
    fields sep s = fields sep (c :: rest) := by rw [← fields_dropWhile, h]
    _ = _ := by rw [hsplit] at hword; exact hword

theorem dropWhile_of_fields_eq_nil {s : List α} (h : fields sep s = []) : s.dropWhile sep = [] := by
  cases hdrop : s.dropWhile sep with
  | nil => rfl
  | cons c rest => simp [fields_of_dropWhile_eq_cons hdrop] at h

/-! ## Runs that end before a suffix -/

theorem takeWhile_append_of_stop {p : α → Bool} (s : List α) {t : List α}
    (ht : ∀ c ∈ t.head?, p c = false) : (s ++ t).takeWhile p = s.takeWhile p := by
  have hstop : t.takeWhile p = [] := by
    cases t with
    | nil => rfl
    | cons c t => simp [ht c (by simp)]
  rw [List.takeWhile_append, hstop, List.append_nil]
  split
  case isTrue hall => exact ((List.takeWhile_prefix p).eq_of_length hall).symm
  case isFalse => rfl

theorem dropWhile_append_of_stop {p : α → Bool} (s : List α) {t : List α}
    (ht : ∀ c ∈ t.head?, p c = false) : (s ++ t).dropWhile p = s.dropWhile p ++ t := by
  have hstop : t.dropWhile p = t := by
    cases t with
    | nil => rfl
    | cons c t => simp [ht c (by simp)]
  rw [List.dropWhile_append, hstop]
  split
  case isTrue hnil => rw [List.isEmpty_iff.mp hnil, List.nil_append]
  case isFalse => rfl

/-- A text with a first field is separators, that field, and what holds the others. -/
theorem exists_of_fields_eq_cons {s w : List α} {ws : List (List α)}
    (h : fields sep s = w :: ws) :
    ∃ blanks rest, s = blanks ++ (w ++ rest) ∧ (∀ c ∈ blanks, sep c = true) ∧
      (∀ c ∈ rest.head?, sep c = true) ∧ fields sep rest = ws := by
  cases hdrop : s.dropWhile sep with
  | nil =>
      rw [← fields_dropWhile, hdrop] at h
      simp at h
  | cons c rest =>
      have hblanks : ∀ d ∈ s.takeWhile sep, sep d = true := fun d hd ↦ List.mem_takeWhile_imp hd
      have hsplit := List.takeWhile_append_dropWhile (p := sep) (l := s)
      have hword := List.takeWhile_append_dropWhile (p := fun d ↦ !sep d) (l := c :: rest)
      rw [fields_of_dropWhile_eq_cons hdrop] at h
      obtain ⟨rfl, rfl⟩ := List.cons.inj h
      refine ⟨s.takeWhile sep, (c :: rest).dropWhile fun d ↦ !sep d, ?_, hblanks, ?_, rfl⟩
      · rw [hword, ← hdrop, hsplit]
      · intro d hd
        have hhead := List.head?_dropWhile_not (fun d ↦ !sep d) (c :: rest)
        rw [Option.mem_def.mp hd] at hhead
        simpa using hhead

theorem forall_sep_of_fields_eq_nil {s : List α} (h : fields sep s = []) :
    ∀ c ∈ s, sep c = true :=
  List.dropWhile_eq_nil_iff.mp (dropWhile_of_fields_eq_nil h)

/-- A coarser cut may come first. -/
theorem fields_flatMap {sep' : α → Bool} (h : ∀ c, sep c = true → sep' c = true) (s : List α) :
    fields sep' s = (fields sep s).flatMap (fields sep') := by
  generalize hfields : fields sep s = words
  induction words generalizing s with
  | nil =>
      have hblanks : fields sep' (s ++ []) = fields sep' [] :=
        fields_append_of_sep (fun c hc ↦ h c (forall_sep_of_fields_eq_nil hfields c hc)) []
      rw [List.append_nil, fields_nil] at hblanks
      exact hblanks
  | cons w words ih =>
      obtain ⟨blanks, rest, rfl, hblanks, hrest, hmore⟩ := exists_of_fields_eq_cons hfields
      rw [fields_append_of_sep fun c hc ↦ h c (hblanks c hc), List.flatMap_cons, ← ih rest hmore]
      cases rest with
      | nil => simp
      | cons c rest =>
          have hc := h c (hrest c rfl)
          rw [fields_append_cons hc, fields_cons_of_sep hc]

/-! ## What a field is made of -/

theorem infix_of_mem_fields {s w : List α} (h : w ∈ fields sep s) : w <:+: s := by
  generalize hfields : fields sep s = words at h
  induction words generalizing s with
  | nil => cases h
  | cons v words ih =>
      obtain ⟨blanks, rest, rfl, -, -, hmore⟩ := exists_of_fields_eq_cons hfields
      rcases List.mem_cons.mp h with rfl | h
      · exact ⟨blanks, rest, by simp⟩
      · exact (ih hmore h).trans (((List.suffix_append v rest).trans
          (List.suffix_append blanks _)).isInfix)

theorem of_mem_splitOnP {s w : List α} (h : w ∈ s.splitOnP sep) :
    ∀ c ∈ w, c ∈ s ∧ sep c = false := by
  induction s generalizing w with
  | nil => simp_all
  | cons x s ih =>
      have hmore : ∀ v ∈ s.splitOnP sep, ∀ c ∈ v, c ∈ x :: s ∧ sep c = false := fun v hv c hc ↦
        ⟨List.mem_cons_of_mem x (ih hv c hc).1, (ih hv c hc).2⟩
      rw [List.splitOnP_cons_eq_if_modifyHead] at h
      by_cases hx : sep x = true
      · rw [if_pos hx] at h
        rcases List.mem_cons.mp h with rfl | h
        · simp
        · exact hmore w h
      · rw [if_neg hx] at h
        obtain ⟨first, more, hsplit⟩ :=
          List.exists_cons_of_ne_nil (List.splitOnP_ne_nil sep s)
        rw [hsplit] at hmore h
        rcases List.mem_cons.mp h with rfl | h
        · intro c hc
          rcases List.mem_cons.mp hc with rfl | hc
          · exact ⟨by simp, by simpa using hx⟩
          · exact hmore first (by simp) c hc
        · exact hmore w (List.mem_cons_of_mem _ h)

theorem of_mem_fields {s w : List α} (h : w ∈ fields sep s) :
    w ≠ [] ∧ ∀ c ∈ w, c ∈ s ∧ sep c = false := by
  obtain ⟨hmem, hne⟩ := List.mem_filter.mp h
  exact ⟨by simpa using hne, of_mem_splitOnP hmem⟩

end IqrfDaemon.Text
