import IqrfDaemon.Scheduler.Token

/-!
# The tokens that are read

`parseItem` chooses the form of a token by the first separator it finds and
reads every number with `stoi`, which takes a sign and leaves the rest of the
text alone.  The texts it reads are described here by a grammar of their own,
wider than that of the tokens, and compared with it.
-/

namespace IqrfDaemon.Scheduler

open Json Text

/-! ## Numbers with a sign -/

/-- Every text is a sign, its leading digits and a rest. -/
theorem exists_sign (s : List Char) :
    ∃ (sign : Sign) (t : List Char), s = sign.text ++ t ∧
      (s.take 1).filter (fun c ↦ c = '-' || c = '+') = sign.text := by
  cases s with
  | nil => exact ⟨.none, [], rfl, rfl⟩
  | cons c t =>
      by_cases hminus : c = '-'
      · exact ⟨.minus, t, by simp [hminus, Sign.text], by simp [hminus, Sign.text]⟩
      · by_cases hplus : c = '+'
        · exact ⟨.plus, t, by simp [hplus, Sign.text], by simp [hplus, Sign.text]⟩
        · exact ⟨.none, c :: t, rfl, by simp [hminus, hplus, Sign.text]⟩

/-- In a text without white space `stoi` succeeds with a number at its start only. -/
theorem exists_number_of_stoi {s : List Char} (hs : ∀ c ∈ s, isSpace c = false) {v : ℤ}
    {position : ℕ} (h : stoi s = .ok (v, position)) :
    ∃ (x : Number) (rest : List Char), s = x.text ++ rest ∧ Stops rest ∧ Fits x.value ∧
      v = x.value ∧ position = x.text.length := by
  obtain ⟨sign, t, hst, hsign⟩ := exists_sign s
  by_cases hne : t.takeWhile Char.isDigit = []
  · have hblanks : s.takeWhile isSpace = [] := by
      cases s with
      | nil => rfl
      | cons c s => simp [hs c (by simp)]
    have htext : s.dropWhile isSpace = s := by
      cases s with
      | nil => rfl
      | cons c s => simp [hs c (by simp)]
    have hdrop : s.drop sign.text.length = t := by rw [hst, List.drop_left]
    simp only [stoi, hblanks, htext, hsign, hdrop, if_pos hne] at h
    simp at h
  · have hsplit := List.takeWhile_append_dropWhile (p := Char.isDigit) (l := t)
    have hstops : Stops (t.dropWhile Char.isDigit) := by
      intro c hc
      have hhead := List.head?_dropWhile_not Char.isDigit t
      rw [Option.mem_def.mp hc] at hhead
      simpa using hhead
    let x : Number := ⟨sign, ⟨t.takeWhile Char.isDigit, hne, fun _ ↦ List.mem_takeWhile_imp⟩⟩
    have hx : s = x.text ++ t.dropWhile Char.isDigit := by
      rw [hst, Number.text, List.append_assoc, hsplit]
    rw [hx, stoi_number x hstops] at h
    split at h
    case isTrue hfits =>
      obtain ⟨rfl, rfl⟩ := Prod.mk.inj (Except.ok.inj h)
      exact ⟨x, _, hx, hstops, hfits, rfl, rfl⟩
    case isFalse => simp at h

theorem Number.text_ne_nil (x : Number) : x.text ≠ [] := by
  simp [Number.text, x.numeral.ne_nil]

/-! ## The texts that are read -/

/-- The lists that are read: numbers of the range with one character of any kind
between each and the next, and perhaps one after the last. -/
inductive ListRead (lo hi : ℤ) : List Char → Prop
  | last (x : Number) (rest : List Char) (bounds : lo ≤ x.value ∧ x.value ≤ hi)
      (short : rest.length ≤ 1) (stops : Stops rest) : ListRead lo hi (x.text ++ rest)
  | more (x : Number) (c : Char) (rest : List Char) (bounds : lo ≤ x.value ∧ x.value ≤ hi)
      (stop : c.isDigit = false) (read : ListRead lo hi rest) : ListRead lo hi (x.text ++ c :: rest)

/-- The texts that are read as a token of a field with the range from `lo` to `hi`. -/
inductive Read (lo hi : ℤ) : List Char → Prop
  | star : Read lo hi ['*']
  | step (before : List Char) (x : Number) (rest : List Char) (first : '/' ∉ before)
      (bounds : 1 ≤ x.value ∧ x.value ≤ 2147483647) (stops : Stops rest) :
      Read lo hi (before ++ '/' :: (x.text ++ rest))
  | list (item : List Char) (slash : '/' ∉ item) (comma : ',' ∈ item)
      (read : ListRead lo hi item) : Read lo hi item
  | number (x : Number) (rest : List Char) (slash : '/' ∉ x.text ++ rest)
      (comma : ',' ∉ x.text ++ rest) (bounds : lo ≤ x.value ∧ x.value ≤ hi)
      (stops : Stops rest) : Read lo hi (x.text ++ rest)

theorem ListRead.ne_nil {lo hi : ℤ} {s : List Char} (h : ListRead lo hi s) : s ≠ [] := by
  cases h with
  | last x rest => simp [x.text_ne_nil]
  | more x c rest => simp

section Range

variable {lo hi offset : ℤ} (hlo : Fits lo) (hhi : Fits hi)

include hlo hhi

theorem fits_of_bounds {v : ℤ} (h : lo ≤ v ∧ v ≤ hi) : Fits v := by
  unfold Fits at *
  omega

/-- One round of the list loop, at a number of the range. -/
theorem pushListed_number (fuel : ℕ) (x : Number) {rest : List Char} (hrest : Stops rest)
    (hbounds : lo ≤ x.value ∧ x.value ≤ hi) (vec : List ℤ) :
    pushListed lo hi offset (fuel + 1) (x.text ++ rest) vec =
      if rest.length ≤ 1 then .ok (vec ++ [x.value + offset])
      else pushListed lo hi offset fuel rest.tail (vec ++ [x.value + offset]) := by
  have hpos : 0 < x.text.length := List.length_pos_iff.mpr x.text_ne_nil
  have hrange : ¬(x.value < lo ∨ hi < x.value) := by omega
  rw [pushListed, stoi_number x hrest, if_pos (fits_of_bounds hlo hhi hbounds)]
  simp only [if_neg hrange, List.length_append]
  by_cases hshort : rest.length ≤ 1
  · rw [if_pos hshort, if_pos (by omega)]
  · rw [if_neg hshort, if_neg (by omega), List.drop_append, List.drop_eq_nil_of_le (by omega),
      List.nil_append, Nat.add_sub_cancel_left, List.drop_one]

theorem exists_pushListed_of_read {s : List Char} (h : ListRead lo hi s) (offset : ℤ) {fuel : ℕ}
    (hfuel : s.length ≤ fuel) (vec : List ℤ) :
    ∃ pushed, pushListed lo hi offset fuel s vec = .ok pushed := by
  induction h generalizing fuel vec with
  | last x rest bounds short stops =>
      have hpos : 0 < x.text.length := List.length_pos_iff.mpr x.text_ne_nil
      rw [List.length_append] at hfuel
      obtain ⟨fuel, rfl⟩ : ∃ k, fuel = k + 1 := ⟨fuel - 1, by omega⟩
      rw [pushListed_number hlo hhi fuel x stops bounds, if_pos short]
      exact ⟨_, rfl⟩
  | more x c rest bounds stop read ih =>
      have hrest : 0 < rest.length := List.length_pos_iff.mpr read.ne_nil
      rw [List.length_append, List.length_cons] at hfuel
      obtain ⟨fuel, rfl⟩ : ∃ k, fuel = k + 1 := ⟨fuel - 1, by omega⟩
      have hstops : Stops (c :: rest) := by simpa [Stops] using stop
      rw [pushListed_number hlo hhi fuel x hstops bounds,
        if_neg (by rw [List.length_cons]; omega)]
      exact ih (by omega) _

omit hlo hhi in
theorem listRead_of_pushListed (fuel : ℕ) {s : List Char} (hs : ∀ c ∈ s, isSpace c = false)
    {vec pushed : List ℤ} (h : pushListed lo hi offset fuel s vec = .ok pushed) :
    ListRead lo hi s := by
  induction fuel generalizing s vec with
  | zero => simp [pushListed] at h
  | succ fuel ih =>
      rw [pushListed] at h
      cases hstoi : stoi s with
      | error e => simp [hstoi] at h
      | ok parsed =>
          obtain ⟨v, position⟩ := parsed
          obtain ⟨x, rest, rfl, hstops, -, rfl, rfl⟩ := exists_number_of_stoi hs hstoi
          simp only [hstoi] at h
          by_cases hrange : x.value < lo ∨ hi < x.value
          · simp [hrange] at h
          have hbounds : lo ≤ x.value ∧ x.value ≤ hi := by omega
          rw [if_neg hrange, List.length_append] at h
          cases rest with
          | nil => exact .last x [] hbounds (by simp) hstops
          | cons c rest =>
              have hstop : c.isDigit = false := hstops c (by simp)
              by_cases hend : rest = []
              · subst hend
                exact .last x [c] hbounds (by simp) hstops
              · have hpos : 0 < rest.length := List.length_pos_iff.mpr hend
                rw [List.length_cons, if_neg (by omega), List.drop_append,
                  List.drop_eq_nil_of_le (by omega), List.nil_append, Nat.add_sub_cancel_left,
                  List.drop_one, List.tail_cons] at h
                exact .more x c rest hbounds hstop (ih (fun d hd ↦ hs d (by simp [hd])) h)

end Range

theorem afterSlash_append {before after : List Char} (h : '/' ∉ before) :
    afterSlash (before ++ '/' :: after) = after := by
  have hdrop : (before ++ '/' :: after).dropWhile (fun c ↦ c ≠ '/') = '/' :: after := by
    rw [List.dropWhile_append, List.dropWhile_eq_nil_iff.mpr]
    · simp
    · intro c hc
      have hne : c ≠ '/' := by
        rintro rfl
        exact h hc
      simpa using hne
  rw [afterSlash, hdrop, List.tail_cons]

theorem exists_slash {item : List Char} (h : '/' ∈ item) :
    ∃ before, '/' ∉ before ∧ item = before ++ '/' :: afterSlash item := by
  obtain ⟨before, after, rfl, hfirst⟩ := List.eq_append_cons_of_mem h
  exact ⟨before, hfirst, by rw [afterSlash_append hfirst]⟩

theorem number_ne_star (x : Number) (rest : List Char) : x.text ++ rest ≠ ['*'] := by
  intro h
  obtain ⟨c, digits, hcons⟩ := List.exists_cons_of_ne_nil x.numeral.ne_nil
  have hc : c.isDigit = true := x.numeral.isDigit c (by simp [hcons])
  rw [Number.text, hcons] at h
  cases hsign : x.sign <;> simp [hsign, Sign.text] at h
  rw [h.1] at hc
  exact absurd hc (by decide)

theorem pushItem_of_read {lo hi : ℤ} (hlo : Fits lo) (hhi : Fits hi) {item : List Char}
    (h : Read lo hi item) (vec : List ℤ) (offset : ℤ) :
    ∃ result, pushItem item lo hi vec offset = .ok result := by
  cases h with
  | star => exact ⟨_, by rw [pushItem, if_pos rfl]⟩
  | step before x rest first bounds stops =>
      have hstar : before ++ '/' :: (x.text ++ rest) ≠ ['*'] := by
        intro heq
        have hmem : '/' ∈ ['*'] := by simp [← heq]
        simp at hmem
      have hne : x.text ++ rest ≠ [] := by simp [x.text_ne_nil]
      have hfits : Fits x.value := by
        unfold Fits
        omega
      rw [pushItem, if_neg hstar, if_pos (by simp), afterSlash_append first, if_neg hne,
        stoi_number x stops, if_pos hfits]
      simp only [if_neg (not_le.mpr (Int.lt_of_lt_of_le one_pos bounds.1))]
      exact ⟨_, rfl⟩
  | list item slash comma read =>
      have hstar : item ≠ ['*'] := by
        rintro rfl
        simp at comma
      obtain ⟨pushed, hpushed⟩ := exists_pushListed_of_read hlo hhi read offset le_rfl vec
      rw [pushItem, if_neg hstar, if_neg slash, if_pos comma, hpushed]
      exact ⟨_, rfl⟩
  | number x rest slash comma bounds stops =>
      have hrange : ¬(x.value < lo ∨ hi < x.value) := by omega
      rw [pushItem, if_neg (number_ne_star x rest), if_neg slash, if_neg comma,
        stoi_number x stops, if_pos (fits_of_bounds hlo hhi bounds)]
      simp only [if_neg hrange]
      exact ⟨_, rfl⟩

theorem read_of_pushItem {lo hi offset val : ℤ} {item : List Char}
    (hitem : ∀ c ∈ item, isSpace c = false) {vec pushed : List ℤ}
    (h : pushItem item lo hi vec offset = .ok (val, pushed)) : Read lo hi item := by
  rcases pushItem_cases h with ⟨rfl, -⟩ | ⟨-, hslash, -, divid, position, hstoi, hpos, -⟩ |
    ⟨-, hslash, hcomma, -, hlist⟩ | ⟨-, hslash, hcomma, hlow, hup, ⟨position, hstoi⟩, -⟩
  · exact .star
  · obtain ⟨before, hfirst, heq⟩ := exists_slash hslash
    have hafter : ∀ c ∈ afterSlash item, isSpace c = false := by
      intro c hc
      apply hitem c
      rw [heq]
      simp [hc]
    obtain ⟨x, rest, htext, hstops, hfits, rfl, -⟩ := exists_number_of_stoi hafter hstoi
    rw [heq, htext]
    exact .step before x rest hfirst ⟨hpos, hfits.2⟩ hstops
  · exact .list item hslash hcomma (listRead_of_pushListed _ hitem hlist)
  · obtain ⟨x, rest, rfl, hstops, -, rfl, -⟩ := exists_number_of_stoi hitem hstoi
    exact .number x rest hslash hcomma ⟨hlow, hup⟩ hstops

/-- The tokens that `parseItem` takes are the texts that are read. -/
theorem parseItem_iff_read {lo hi : ℤ} (hlo : Fits lo) (hhi : Fits hi) (offset : ℤ)
    {item : List Char} (hitem : ∀ c ∈ item, isSpace c = false) :
    (∃ result, parseItem item lo hi [] offset = .ok result) ↔ Read lo hi item := by
  constructor
  · rintro ⟨⟨val, vec⟩, h⟩
    obtain ⟨pushed, hpush, -⟩ := pushItem_of_parseItem h
    exact read_of_pushItem hitem hpush
  · intro h
    obtain ⟨result, hresult⟩ := pushItem_of_read hlo hhi h [] offset
    exact ⟨_, by rw [parseItem, hresult]⟩

/-! ## Tokens among them -/

namespace Token

/-- The tokens of a field: numbers in its range, and steps of at least one. -/
def WellFormed (lo hi : ℤ) : Token → Prop
  | star => True
  | every n => 1 ≤ n.value
  | list first more => ∀ n ∈ first :: more, lo ≤ n.value ∧ n.value ≤ hi

def StepFits : Token → Prop
  | every n => n.value ≤ 2147483647
  | _ => True

end Token

/-- The numeral as a number without a sign. -/
def Numeral.toNumber (n : Numeral) : Number := ⟨.none, n⟩

theorem listRead_listText {lo hi : ℤ} {first : Numeral} {more : List Numeral}
    (h : ∀ n ∈ first :: more, lo ≤ n.value ∧ n.value ≤ hi) :
    ListRead lo hi (Token.listText first more) := by
  induction more generalizing first with
  | nil =>
      have hread := ListRead.last first.toNumber [] (h first (by simp)) (by simp) (by simp [Stops])
      rwa [List.append_nil] at hread
  | cons second more ih =>
      exact .more first.toNumber ',' _ (h first (by simp)) (by decide)
        (ih fun n hn ↦ h n (List.mem_cons_of_mem first hn))

/-- Every well-formed token is read if its step is an `int`. -/
theorem read_of_wellFormed {lo hi : ℤ} {t : Token} (hwf : t.WellFormed lo hi)
    (hfits : t.StepFits) : Read lo hi t.text := by
  cases t with
  | star => exact .star
  | every n =>
      have hread : Read lo hi (['*'] ++ '/' :: (n.toNumber.text ++ [])) :=
        .step ['*'] n.toNumber [] (by decide) ⟨hwf, hfits⟩ (by simp [Stops])
      rwa [List.append_nil] at hread
  | list first more =>
      have hslash := Token.slash_notMem_listText first more
      cases more with
      | nil =>
          have hcomma : ',' ∉ first.digits := by
            intro hmem
            exact absurd (first.isDigit _ hmem) (by decide)
          have hbounds : lo ≤ first.value ∧ first.value ≤ hi := hwf first (by simp)
          have hread : Read lo hi (first.digits ++ []) :=
            .number first.toNumber [] (by rw [List.append_nil]; exact hslash)
              (by rw [List.append_nil]; exact hcomma) hbounds (by intro c hc; simp at hc)
          rwa [List.append_nil] at hread
      | cons second more =>
          have hcomma : ',' ∈ Token.listText first (second :: more) := by simp [Token.listText]
          exact .list _ hslash hcomma (listRead_listText hwf)

theorem stepFits_of_parseItem {lo hi offset : ℤ} {t : Token} {result : ℤ × List ℤ}
    (h : parseItem t.text lo hi [] offset = .ok result) : t.StepFits := by
  cases t with
  | every n =>
      obtain ⟨pushed, hpush, -⟩ := pushItem_of_parseItem h
      rcases pushItem_cases hpush with ⟨heq, -⟩ | ⟨-, -, -, divid, position, hstoi, -⟩ |
        ⟨-, hslash, -⟩ | ⟨-, hslash, -⟩
      · simp [Token.text] at heq
      · have hafter : afterSlash (Token.every n).text = n.digits ++ [] := by
          rw [List.append_nil]
          rfl
        rw [hafter, stoi_numeral n [] (by simp)] at hstoi
        by_contra hlarge
        rw [if_pos (not_le.mp hlarge)] at hstoi
        simp at hstoi
      · simp [Token.text] at hslash
      · simp [Token.text] at hslash
  | _ => trivial

theorem exists_parseItem_of_wellFormed {lo hi : ℤ} (hlo : Fits lo) (hhi : Fits hi) (offset : ℤ)
    {t : Token} (hwf : t.WellFormed lo hi) (hfits : t.StepFits) :
    ∃ result, parseItem t.text lo hi [] offset = .ok result := by
  obtain ⟨result, hresult⟩ := pushItem_of_read hlo hhi (read_of_wellFormed hwf hfits) [] offset
  exact ⟨_, by rw [parseItem, hresult]⟩

/-! ## Well-formed tokens have their meaning -/

/-- What the vector of a token is for: it is sorted, and the check of a value of the
range, shifted by the offset of the field, admits what the token contains. -/
def Means (lo hi offset : ℤ) (t : Token) (vec : List ℤ) : Prop :=
  vec.Pairwise (· ≤ ·) ∧ ∀ v, lo ≤ v → v ≤ hi →
    (ScheduleRecord.verifyItem (v + offset) vec = true ↔ t.Contains lo hi v)

theorem means_of_denotes {lo hi offset val : ℤ} (hlo : 0 ≤ lo) (hoffset : 0 ≤ lo + offset)
    {t : Token} (hdenotes : t.Denotes lo hi) {vec : List ℤ}
    (h : parseItem t.text lo hi [] offset = .ok (val, vec)) : Means lo hi offset t vec := by
  constructor
  · obtain ⟨pushed, -, rfl⟩ := pushItem_of_parseItem h
    exact List.pairwise_insertionSort (· ≤ ·) pushed
  · intro v _ _
    rw [ScheduleRecord.verifyItem_text hlo hoffset hdenotes h, add_sub_cancel_right]

/-- A step without a multiple in the range leaves an empty vector, which is checked
like a star. -/
theorem denotes_of_means {lo hi offset val : ℤ} (hlo : 0 ≤ lo) (hle : lo ≤ hi) {n : Numeral}
    {vec : List ℤ} (h : parseItem (Token.every n).text lo hi [] offset = .ok (val, vec))
    (hmeans : Means lo hi offset (.every n) vec) : (Token.every n).Denotes lo hi := by
  rcases parseItem_text hlo h with ⟨hstar, -⟩ | ⟨hmem, -⟩
  · cases hstar
  by_cases hnil : vec = []
  · subst hnil
    exact ⟨lo, le_rfl, hle, (hmeans.2 lo le_rfl hle).mp rfl⟩
  · obtain ⟨x, rest, hvec⟩ := List.exists_cons_of_ne_nil hnil
    have hx := (hmem x).mp (by simp [hvec])
    exact ⟨x - offset, hx.1, hx.2.1, hx⟩

theorem Token.WellFormed.denotes {lo hi : ℤ} (hle : lo ≤ hi) {t : Token}
    (h : t.WellFormed lo hi)
    (hevery : ∀ n, t = .every n → ∃ v, lo ≤ v ∧ v ≤ hi ∧ n.value ∣ v) : t.Denotes lo hi := by
  cases t with
  | star => exact ⟨lo, le_rfl, hle, trivial⟩
  | every n =>
      obtain ⟨v, hvlo, hvhi, hdvd⟩ := hevery n rfl
      exact ⟨v, hvlo, hvhi, hvlo, hvhi, hdvd⟩
  | list first more =>
      obtain ⟨hfirst, hfirst'⟩ := h first (by simp)
      exact ⟨first.value, hfirst, hfirst', first, by simp, rfl⟩

/-- `parseItem` gives a well-formed token its meaning unless it is a step that is no
`int` or has no multiple in the range of the field. -/
theorem parseItem_means_iff (lo hi offset : ℤ) (hlo : 0 ≤ lo) (hle : lo ≤ hi)
    (hhi : hi ≤ 2147483647) (hoffset : 0 ≤ lo + offset) (t : Token) (hwf : t.WellFormed lo hi) :
    (∃ val vec, parseItem t.text lo hi [] offset = .ok (val, vec) ∧ Means lo hi offset t vec) ↔
      ∀ n, t = .every n → n.value ≤ 2147483647 ∧ ∃ v, lo ≤ v ∧ v ≤ hi ∧ n.value ∣ v := by
  constructor
  · rintro ⟨val, vec, h, hmeans⟩ n rfl
    obtain ⟨v, hvlo, hvhi, -, -, hdvd⟩ := denotes_of_means hlo hle h hmeans
    exact ⟨stepFits_of_parseItem h, v, hvlo, hvhi, hdvd⟩
  · intro hevery
    have hfits : t.StepFits := by
      cases t with
      | every n => exact (hevery n rfl).1
      | _ => trivial
    obtain ⟨⟨val, vec⟩, h⟩ := exists_parseItem_of_wellFormed
      ⟨by omega, by omega⟩ ⟨by omega, by omega⟩ offset hwf hfits
    have hdenotes := hwf.denotes hle fun n hn ↦ (hevery n hn).2
    exact ⟨val, vec, h, means_of_denotes hlo hoffset hdenotes h⟩

/-- `*/13` -/
def everyThirteen : Token := .every ⟨['1', '3'], by decide, by decide⟩

theorem everyThirteen_wellFormed : everyThirteen.WellFormed 1 12 := by
  simp [everyThirteen, Token.WellFormed, Numeral.value, digitValue]

theorem parseItem_means_iff_everyThirteen :
    (∃ val vec, parseItem everyThirteen.text 1 12 [] (-1) = .ok (val, vec) ∧
        Means 1 12 (-1) everyThirteen vec) ↔
      ∀ n, everyThirteen = .every n →
        n.value ≤ 2147483647 ∧ ∃ v : ℤ, 1 ≤ v ∧ v ≤ 12 ∧ n.value ∣ v :=
  parseItem_means_iff 1 12 (-1) (by decide) (by decide) (by decide) (by decide) everyThirteen
    everyThirteen_wellFormed

/-- As a month `*/13` is well formed and admits every month. -/
theorem everyThirteen_matches :
    everyThirteen.WellFormed 1 12 ∧
      ¬∃ val vec, parseItem everyThirteen.text 1 12 [] (-1) = .ok (val, vec) ∧
        Means 1 12 (-1) everyThirteen vec := by
  refine ⟨everyThirteen_wellFormed, ?_⟩
  rintro ⟨val, vec, h, -, hverify⟩
  have hnil : parseItem everyThirteen.text 1 12 [] (-1) = .ok (1, []) := by decide
  obtain ⟨rfl, rfl⟩ := Prod.mk.inj (Except.ok.inj (hnil.symm.trans h))
  obtain ⟨-, -, hdvd⟩ := (hverify 1 (by decide) (by decide)).mp rfl
  exact absurd hdvd (by decide)

/-! ## Only the tokens should be read -/

/-- The texts of the well-formed tokens of a field. -/
def IsToken (lo hi : ℤ) (item : List Char) : Prop :=
  ∃ t : Token, t.WellFormed lo hi ∧ t.text = item

/-- `parseItem` takes the well-formed tokens and nothing else, on a text that, as a
step, is one of an `int` and that is not read without being a token. -/
theorem parseItem_iff_isToken (lo hi offset : ℤ) (hlo : Fits lo) (hhi : Fits hi)
    (item : List Char) (hitem : ∀ c ∈ item, isSpace c = false) :
    ((∃ result, parseItem item lo hi [] offset = .ok result) ↔ IsToken lo hi item) ↔
      (∀ n, item = (Token.every n).text → n.value ≤ 2147483647) ∧
        (Read lo hi item → IsToken lo hi item) := by
  rw [parseItem_iff_read hlo hhi offset hitem]
  constructor
  · intro hiff
    refine ⟨?_, hiff.mp⟩
    rintro n rfl
    by_contra hlarge
    have hread := hiff.mpr ⟨.every n, by simp only [Token.WellFormed]; omega, rfl⟩
    obtain ⟨result, hresult⟩ := (parseItem_iff_read hlo hhi 0 hitem).mpr hread
    exact hlarge (stepFits_of_parseItem hresult)
  · rintro ⟨hstep, hread⟩
    refine ⟨hread, ?_⟩
    rintro ⟨t, hwf, rfl⟩
    apply read_of_wellFormed hwf
    cases t with
    | every n => exact hstep n rfl
    | _ => trivial

theorem parseItem_iff_isToken_star :
    ((∃ result, parseItem ['*'] 0 59 [] 0 = .ok result) ↔ IsToken 0 59 ['*']) ↔
      (∀ n, ['*'] = (Token.every n).text → n.value ≤ 2147483647) ∧
        (Read 0 59 ['*'] → IsToken 0 59 ['*']) :=
  parseItem_iff_isToken 0 59 0 (by decide) (by decide) ['*'] (by decide)

/-- `5-7` is no token and is read as the number five. -/
theorem parseItem_range :
    parseItem "5-7".toList 0 59 [] 0 = .ok (5, [5]) ∧ ¬IsToken 0 59 "5-7".toList := by
  refine ⟨by decide, ?_⟩
  rintro ⟨t, -, htext⟩
  have hdash : '-' ∈ t.text := by simp [htext]
  cases t with
  | star => simp [Token.text] at hdash
  | every n => simp [Token.text] at htext
  | list first more =>
      rcases Token.of_mem_listText hdash with h | h <;> exact absurd h (by decide)

end IqrfDaemon.Scheduler
