import IqrfDaemon.Bridge.Service

/-!
# Confirmed meters

A confirmation command carries the index of a map and the bitmap of its 80 meters.  The loop
over an ascending list passes to the next map at most once for each meter, so it keeps up with
the list as long as no map between two meters is left out.
-/

namespace IqrfDaemon.Bridge

open Json Serializer Container Transition Traced ProtocolBridge

/-! ## Confirmation commands -/

/-- The bit of the meter is set in the bitmap behind the kind and the index of the map. -/
def Confirms (pData : List Byte) (meter : ℕ) : Prop :=
  ∃ kind index bitmap i b, pData = kind :: index :: bitmap ∧ bitmap[i / 8]? = some b ∧
    b.getLsbD (i % 8) = true ∧ meter = 80 * index.toNat + i

def Confirmed (events : List Event) (meter : ℕ) : Prop :=
  ∃ request finish, .transaction request finish ∈ events ∧ Confirms request.pData meter

def WritesInside (events : List Event) : Prop :=
  ∀ index : ℤ, .bitmapWrite index ∈ events → 0 ≤ index ∧ index < confirmationBitmapLen

/-- The bitmap is written inside, and exactly the listed meters are confirmed. -/
def ConfirmsExactly (indexes : List Byte) (events : List Event) : Prop :=
  WritesInside events ∧ ∀ meter, Confirmed events meter ↔ meter ∈ indexes.map BitVec.toNat

/-- The command has `kind` before the index and the bitmap, and is a routine one. -/
def Carries (command : ConfirmationCommand) (kind : Byte) : Prop :=
  ∀ index map bridge, (command index map bridge).pData = kind :: index :: mapBytes map ∧
    (command index map bridge).cmd.isRoutine = true

theorem confirmed_append {before events : List Event} {meter : ℕ} :
    Confirmed (before ++ events) meter ↔ Confirmed before meter ∨ Confirmed events meter := by
  constructor
  · rintro ⟨request, finish, hmem, hconfirms⟩
    rcases List.mem_append.mp hmem with hmem | hmem
    · exact Or.inl ⟨request, finish, hmem, hconfirms⟩
    · exact Or.inr ⟨request, finish, hmem, hconfirms⟩
  · rintro (⟨request, finish, hmem, hconfirms⟩ | ⟨request, finish, hmem, hconfirms⟩)
    · exact ⟨request, finish, List.mem_append_left _ hmem, hconfirms⟩
    · exact ⟨request, finish, List.mem_append_right _ hmem, hconfirms⟩

theorem confirmed_transaction {request : Request} {finish : Finish} {meter : ℕ} :
    Confirmed [.transaction request finish] meter ↔ Confirms request.pData meter := by
  simp [Confirmed]

theorem not_confirmed_bitmapWrite {index : ℤ} {meter : ℕ} :
    ¬ Confirmed [.bitmapWrite index] meter := by
  simp [Confirmed]

theorem writesInside_append {before events : List Event} :
    WritesInside (before ++ events) ↔ WritesInside before ∧ WritesInside events := by
  simp only [WritesInside, List.mem_append]
  constructor
  · exact fun h ↦ ⟨fun i hi ↦ h i (Or.inl hi), fun i hi ↦ h i (Or.inr hi)⟩
  · rintro ⟨hbefore, hevents⟩ i (hi | hi)
    · exact hbefore i hi
    · exact hevents i hi

theorem confirms_mapBytes {kind index : Byte} {map : ℤ → Byte} {meter : ℕ} :
    Confirms (kind :: index :: mapBytes map) meter ↔
      ∃ i < 80, (map (i / 8 : ℕ)).getLsbD (i % 8) = true ∧ meter = 80 * index.toNat + i := by
  have hlength : (mapBytes map).length = 10 := by simp [mapBytes, confirmationBitmapLen]
  have hget : ∀ i : ℕ, i < 10 → (mapBytes map)[i]? = some (map i) := by
    intro i hi
    simp [mapBytes, confirmationBitmapLen, hi]
  constructor
  · rintro ⟨_, _, bitmap, i, b, hpData, hbyte, hbit, rfl⟩
    obtain ⟨rfl, rfl, rfl⟩ : kind = _ ∧ index = _ ∧ mapBytes map = bitmap := by
      simpa using hpData
    have hi : i / 8 < 10 := hlength ▸ (List.getElem?_eq_some_iff.mp hbyte).1
    rw [hget _ hi] at hbyte
    obtain rfl := Option.some.inj hbyte
    exact ⟨i, by omega, hbit, rfl⟩
  · rintro ⟨i, hi, hbit, rfl⟩
    exact ⟨kind, index, mapBytes map, i, map (i / 8 : ℕ), rfl, hget _ (by omega), hbit, rfl⟩

/-! ## The bit of a meter -/

section Bits

variable {c : Confirming} {meterIndex : Byte}

theorem byteIndex_eq (h : 80 * c.mapIndex ≤ meterIndex.toNat) :
    c.byteIndex meterIndex = ((meterIndex.toNat - 80 * c.mapIndex) / 8 : ℕ) := by
  have hsub : (meterIndex.toNat : ℤ) - c.mapIndex * 10 * 8 =
      (meterIndex.toNat - 80 * c.mapIndex : ℕ) := by omega
  rw [Confirming.byteIndex, hsub]
  rfl

theorem bitIndex_eq (h : 80 * c.mapIndex ≤ meterIndex.toNat) :
    c.bitIndex meterIndex = ((meterIndex.toNat - 80 * c.mapIndex) % 8 : ℕ) := by
  have hsub : (meterIndex.toNat : ℤ) - c.mapIndex * 10 * 8 =
      (meterIndex.toNat - 80 * c.mapIndex : ℕ) := by omega
  rw [Confirming.bitIndex, hsub]
  rfl

theorem bit_getLsbD (j : ℕ) {i : ℕ} (hi : i < 8) :
    (bit j).getLsbD i = true ↔ i = j := by
  have hone : (1 : Byte).getLsbD (i - j) = decide (i - j = 0) := by
    rw [BitVec.ofNat_eq_ofNat, BitVec.getLsbD_one]
    rfl
  rw [bit, Int.toNat_natCast, BitVec.getLsbD_shiftLeft, hone]
  simp only [Bool.and_eq_true, Bool.not_eq_true', decide_eq_true_eq, decide_eq_false_iff_not]
  omega

theorem setBit_getLsbD (h : meterIndex.toNat / 80 = c.mapIndex) {i : ℕ} (hi : i < 80) :
    ((c.setBit meterIndex).confirmationBitmap (i / 8 : ℕ)).getLsbD (i % 8) = true ↔
      (c.confirmationBitmap (i / 8 : ℕ)).getLsbD (i % 8) = true ∨
        meterIndex.toNat = 80 * c.mapIndex + i := by
  have hle : 80 * c.mapIndex ≤ meterIndex.toNat := by omega
  have hbitmap : (c.setBit meterIndex).confirmationBitmap =
      Function.update c.confirmationBitmap ((meterIndex.toNat - 80 * c.mapIndex) / 8 : ℕ)
        (c.confirmationBitmap ((meterIndex.toNat - 80 * c.mapIndex) / 8 : ℕ) |||
          bit ((meterIndex.toNat - 80 * c.mapIndex) % 8 : ℕ)) := by
    rw [Confirming.setBit, byteIndex_eq hle, bitIndex_eq hle]
  rw [hbitmap]
  by_cases hbyte : i / 8 = (meterIndex.toNat - 80 * c.mapIndex) / 8
  · rw [hbyte, Function.update_self, BitVec.getLsbD_or, Bool.or_eq_true, bit_getLsbD _ (by omega)]
    refine or_congr_right ?_
    omega
  · have hne : ((i / 8 : ℕ) : ℤ) ≠ ((meterIndex.toNat - 80 * c.mapIndex) / 8 : ℕ) := by
      exact_mod_cast hbyte
    rw [Function.update_of_ne hne]
    refine (or_iff_left ?_).symm
    omega

end Bits

/-! ## The loop -/

/-- Each meter of the list is in the map of the one before it or in the next map. -/
def Contiguous : ℕ → List Byte → Prop
  | _, [] => True
  | map, meterIndex :: rest =>
      meterIndex.toNat / 80 ≤ map + 1 ∧ Contiguous (meterIndex.toNat / 80) rest

/-- The written indexes are inside, and what is sent together with the present bitmap confirms
exactly the meters that are done. -/
structure Covers (command : ConfirmationCommand) (done : List Byte) (c : Confirming)
    (events : List Event) : Prop where
  inside : WritesInside events
  map_lt : c.mapIndex < 4
  confirmed : ∀ meter, Confirmed events meter ∨ Confirms (c.task command).pData meter ↔
    meter ∈ done.map BitVec.toNat

section Loop

variable {network : Network} {command : ConfirmationCommand} {kind meterIndex : Byte}
  {c : Confirming} {done : List Byte} {before log : List Event}

theorem confirms_task (hcarries : Carries command kind) (hmap : c.mapIndex < 4) {meter : ℕ} :
    Confirms (c.task command).pData meter ↔
      ∃ i < 80, (c.confirmationBitmap (i / 8 : ℕ)).getLsbD (i % 8) = true ∧
        meter = 80 * c.mapIndex + i := by
  have hpData : (c.task command).pData =
      kind :: BitVec.ofNat 8 c.mapIndex :: mapBytes c.confirmationBitmap :=
    (hcarries _ _ c.bridge).1
  have hindex : (BitVec.ofNat 8 c.mapIndex).toNat = c.mapIndex := Nat.mod_eq_of_lt (by omega)
  rw [hpData, confirms_mapBytes, hindex]

/-- A meter of the present map or the next one ends up in its map. -/
theorem advance_covers (hcarries : Carries command kind) (network : Network) (log : List Event)
    (hle : c.mapIndex ≤ meterIndex.toNat / 80) :
    ∃ c' events, Returns (c.advance network command meterIndex) log c' (log ++ events) ∧
      c'.mapIndex = min (meterIndex.toNat / 80) (c.mapIndex + 1) ∧
      ∀ done before, Covers command done c before → Covers command done c' (before ++ events) := by
  have hbyte := meterIndex.isLt
  by_cases hnext : c.mapIndex * 10 * 8 + 10 * 8 - 1 < meterIndex.toNat
  · have hcase : (c.task command).cmd.hasCase = true :=
      Cmd.hasCase_of_isRoutine (hcarries _ _ c.bridge).2
    obtain ⟨parsed, hparsed⟩ := (network.finish log (c.task command).request).handedTo_ok hcase
    refine ⟨⟨parsed, c.mapIndex + 1, fun _ ↦ 0⟩, [.transaction (c.task command).request
      (network.finish log (c.task command).request)], ?_, ?_, fun done before hcovers ↦ ?_⟩
    · rw [Confirming.advance, if_pos hnext]
      exact (executeDpaTransaction_returns hparsed).bind (Returns.pure _ _)
    · change c.mapIndex + 1 = _
      omega
    · refine ⟨writesInside_append.mpr ⟨hcovers.inside, by simp [WritesInside]⟩, ?_,
        fun meter ↦ ?_⟩
      · change c.mapIndex + 1 < 4
        omega
      · have hlt : c.mapIndex + 1 < 4 := by omega
        have hempty : ¬ Confirms
            ((⟨parsed, c.mapIndex + 1, fun _ ↦ 0⟩ : Confirming).task command).pData meter := by
          rw [confirms_task hcarries hlt]
          simp
        rw [or_iff_left hempty, confirmed_append, confirmed_transaction]
        exact hcovers.confirmed meter
  · refine ⟨c, [], ?_, ?_, fun done before hcovers ↦ ?_⟩
    · rw [Confirming.advance, if_neg hnext, List.append_nil]
      exact Returns.pure _ _
    · omega
    · rw [List.append_nil]
      exact hcovers

theorem setBit_covers (hcarries : Carries command kind) (hcovers : Covers command done c before)
    (hmap : meterIndex.toNat / 80 = c.mapIndex) :
    Covers command (done ++ [meterIndex]) (c.setBit meterIndex)
      (before ++ [.bitmapWrite (c.byteIndex meterIndex)]) := by
  refine ⟨writesInside_append.mpr ⟨hcovers.inside, fun index hindex ↦ ?_⟩, hcovers.map_lt,
    fun meter ↦ ?_⟩
  · obtain rfl : index = c.byteIndex meterIndex := by simpa using hindex
    rw [byteIndex_eq (by omega), confirmationBitmapLen]
    omega
  · rw [confirmed_append, or_iff_left not_confirmed_bitmapWrite,
      confirms_task hcarries (show (c.setBit meterIndex).mapIndex < 4 from hcovers.map_lt),
      List.map_append, List.mem_append, ← hcovers.confirmed,
      confirms_task hcarries hcovers.map_lt, or_assoc]
    refine or_congr_right ?_
    change (∃ i < 80, _ ∧ meter = 80 * c.mapIndex + i) ↔ _
    constructor
    · rintro ⟨i, hi, hbit, rfl⟩
      rcases (setBit_getLsbD hmap hi).mp hbit with hbit | hmeter
      · exact Or.inl ⟨i, hi, hbit, rfl⟩
      · exact Or.inr (by simp [hmeter])
    · rintro (⟨i, hi, hbit, rfl⟩ | hmeter)
      · exact ⟨i, hi, (setBit_getLsbD hmap hi).mpr (Or.inl hbit), rfl⟩
      · obtain rfl : meter = meterIndex.toNat := by simpa using hmeter
        have hi : meterIndex.toNat - 80 * c.mapIndex < 80 := by omega
        have heq : meterIndex.toNat = 80 * c.mapIndex + (meterIndex.toNat - 80 * c.mapIndex) := by
          omega
        exact ⟨_, hi, (setBit_getLsbD hmap hi).mpr (Or.inr heq), heq⟩

theorem byteIndex_outside (h : c.mapIndex < meterIndex.toNat / 80) :
    ¬ WritesInside [.bitmapWrite (c.byteIndex meterIndex)] := by
  intro hinside
  have hlt := (hinside _ List.mem_cons_self).2
  rw [byteIndex_eq (by omega), confirmationBitmapLen] at hlt
  omega

theorem confirmLoop_cons {rest : List Byte} {c' d : Confirming} {t u : List Event}
    (hadvance : Returns (c.advance network command meterIndex) log c' t)
    (hrest : Returns (confirmLoop network command rest (c'.setBit meterIndex))
      (t ++ [.bitmapWrite (c'.byteIndex meterIndex)]) d u) :
    Returns (confirmLoop network command (meterIndex :: rest) c) log d u :=
  hadvance.bind ((emit_returns _).bind hrest)

theorem confirmLoop_spec (hcarries : Carries command kind) (network : Network)
    {indexes : List Byte} (hascending : indexes.Pairwise (· < ·)) (c : Confirming)
    (hle : ∀ meterIndex ∈ indexes, c.mapIndex ≤ meterIndex.toNat / 80) (log : List Event) :
    ∃ d events, Returns (confirmLoop network command indexes c) log d (log ++ events) ∧
      (Contiguous c.mapIndex indexes → ∀ done before, Covers command done c before →
        Covers command (done ++ indexes) d (before ++ events)) ∧
      (WritesInside events → Contiguous c.mapIndex indexes) := by
  -- the map follows the meters, so `Covers` goes from one meter to the next, along the list
  induction indexes generalizing c log with
  | nil =>
      refine ⟨c, [], ?_, fun _ done before hcovers ↦ ?_, fun _ ↦ trivial⟩
      · rw [List.append_nil]
        exact Returns.pure _ _
      · rw [List.append_nil, List.append_nil]
        exact hcovers
  | cons meterIndex rest ih =>
      obtain ⟨hfirst, hrest⟩ := List.pairwise_cons.mp hascending
      have hmap := hle meterIndex List.mem_cons_self
      obtain ⟨c', events, hadvance, hindex, hcovered⟩ := advance_covers hcarries network log hmap
      have hafter : ∀ m ∈ rest, (c'.setBit meterIndex).mapIndex ≤ m.toNat / 80 := by
        intro m hm
        have hlt : meterIndex.toNat < m.toNat := BitVec.lt_def.mp (hfirst m hm)
        change c'.mapIndex ≤ _
        omega
      obtain ⟨d, later, hloop, hcover, hinside⟩ := ih hrest (c'.setBit meterIndex) hafter
        (log ++ events ++ [.bitmapWrite (c'.byteIndex meterIndex)])
      refine ⟨d, events ++ [.bitmapWrite (c'.byteIndex meterIndex)] ++ later, ?_, ?_, ?_⟩
      · have hcons := confirmLoop_cons hadvance hloop
        simpa only [List.append_assoc] using hcons
      · rintro ⟨hnext, hcontiguous⟩ done before hcovers
        have hsame : meterIndex.toNat / 80 = c'.mapIndex := by omega
        have hset := setBit_covers hcarries (hcovered done before hcovers) hsame
        have hall := hcover (hsame ▸ hcontiguous) _ _ hset
        simpa only [List.append_assoc, List.singleton_append] using hall
      · intro hwrites
        obtain ⟨hfirstWrites, hlater⟩ := writesInside_append.mp hwrites
        -- a meter behind the map that has been reached is written outside
        have hnext : ¬ c'.mapIndex < meterIndex.toNat / 80 := fun hlt ↦
          byteIndex_outside hlt (writesInside_append.mp hfirstWrites).2
        have hsame : c'.mapIndex = meterIndex.toNat / 80 := by omega
        have hcontiguous : Contiguous c'.mapIndex rest := hinside hlater
        exact ⟨by omega, hsame ▸ hcontiguous⟩

end Loop

/-! ## Maps that are left out -/

/-- Between the first map and that of a meter, every map has a meter of the list. -/
def NoMapSkipped (indexes : List Byte) : Prop :=
  ∀ meterIndex ∈ indexes, ∀ map, 1 ≤ map → map < meterIndex.toNat / 80 →
    ∃ other ∈ indexes, other.toNat / 80 = map

theorem contiguous_iff {indexes : List Byte} (hascending : indexes.Pairwise (· < ·)) {first : ℕ}
    (hle : ∀ meterIndex ∈ indexes, first ≤ meterIndex.toNat / 80) :
    Contiguous first indexes ↔ ∀ meterIndex ∈ indexes, ∀ map, first < map →
      map < meterIndex.toNat / 80 → ∃ other ∈ indexes, other.toNat / 80 = map := by
  induction indexes generalizing first with
  | nil => simp [Contiguous]
  | cons m rest ih =>
      obtain ⟨hfirst, hrest⟩ := List.pairwise_cons.mp hascending
      have hlater : ∀ other ∈ rest, m.toNat / 80 ≤ other.toNat / 80 := fun other hother ↦
        Nat.div_le_div_right (BitVec.lt_def.mp (hfirst other hother)).le
      rw [Contiguous, ih hrest hlater]
      constructor
      · rintro ⟨hnext, hall⟩ meterIndex hmem map hmap hlt
        rcases List.mem_cons.mp hmem with rfl | hmem
        · omega
        · rcases (show m.toNat / 80 ≤ map by omega).eq_or_lt with heq | hgt
          · exact ⟨m, List.mem_cons_self, heq⟩
          · obtain ⟨other, hother, heq⟩ := hall meterIndex hmem map hgt hlt
            exact ⟨other, List.mem_cons_of_mem m hother, heq⟩
      · intro hall
        constructor
        · -- a first meter further on leaves out the map behind `first`
          by_contra hskip
          obtain ⟨other, hother, heq⟩ := hall m List.mem_cons_self (first + 1) (by omega) (by omega)
          rcases List.mem_cons.mp hother with rfl | hother
          · omega
          · have := hlater other hother
            omega
        · intro meterIndex hmem map hmap hlt
          have hge := hle m List.mem_cons_self
          obtain ⟨other, hother, heq⟩ :=
            hall meterIndex (List.mem_cons_of_mem m hmem) map (by omega) hlt
          rcases List.mem_cons.mp hother with rfl | hother
          · omega
          · exact ⟨other, hother, heq⟩

namespace Service

variable {service : Service} {network : Network} {bridgeAddress : Byte} {bridge : ProtocolBridge}
  {indexes : List Byte} {log : List Event}

theorem covers_nil {command : ConfirmationCommand} {kind : Byte}
    (hcarries : Carries command kind) (bridge : ProtocolBridge) :
    Covers command [] ⟨bridge, 0, fun _ ↦ 0⟩ [] := by
  refine ⟨by simp [WritesInside], Nat.zero_lt_succ 3, fun meter ↦ ?_⟩
  rw [confirms_task hcarries (Nat.zero_lt_succ 3)]
  simp [Confirmed]

theorem confirmMeters_returns (network : Network) (log : List Event)
    {command : ConfirmationCommand} {kind : Byte} (hcarries : Carries command kind)
    (hwatched : service.watchedProtocolBridges.find bridgeAddress.toNat = some bridge)
    (hascending : indexes.Pairwise (· < ·)) :
    ∃ events, Returns (service.confirmMeters network command bridgeAddress indexes) log ⟨⟩
        (log ++ events) ∧
      (Contiguous 0 indexes → ConfirmsExactly indexes events) ∧
      (WritesInside events → Contiguous 0 indexes) := by
  obtain ⟨d, events, hloop, hcover, hinside⟩ := confirmLoop_spec hcarries network hascending
    ⟨bridge, 0, fun _ ↦ 0⟩ (fun _ _ ↦ Nat.zero_le _) log
  have hcase : (d.task command).cmd.hasCase = true :=
    Cmd.hasCase_of_isRoutine (hcarries _ _ d.bridge).2
  obtain ⟨parsed, hparsed⟩ :=
    (network.finish (log ++ events) (d.task command).request).handedTo_ok hcase
  refine ⟨events ++ [.transaction (d.task command).request
    (network.finish (log ++ events) (d.task command).request)], ?_, fun hcontiguous ↦ ?_,
    fun hwrites ↦ hinside (writesInside_append.mp hwrites).1⟩
  · rw [← List.append_assoc]
    exact (getDpa_returns hwatched log).bind
      (hloop.bind ((executeDpaTransaction_returns hparsed).bind (Returns.pure _ _)))
  · have hcovers := hcover hcontiguous [] [] (covers_nil hcarries bridge)
    refine ⟨writesInside_append.mpr ⟨hcovers.inside, by simp [WritesInside]⟩, fun meter ↦ ?_⟩
    rw [confirmed_append, confirmed_transaction]
    exact hcovers.confirmed meter

theorem confirmMeters_exact_iff {command : ConfirmationCommand} {kind : Byte}
    (hcarries : Carries command kind)
    (hwatched : service.watchedProtocolBridges.find bridgeAddress.toNat = some bridge)
    (hascending : indexes.Pairwise (· < ·)) :
    (∃ events, Returns (service.confirmMeters network command bridgeAddress indexes) log ⟨⟩
        (log ++ events) ∧ ConfirmsExactly indexes events) ↔ NoMapSkipped indexes := by
  have hcontiguous : Contiguous 0 indexes ↔ NoMapSkipped indexes :=
    contiguous_iff hascending fun _ _ ↦ Nat.zero_le _
  obtain ⟨events, hreturns, hexact, hinside⟩ :=
    confirmMeters_returns network log hcarries hwatched hascending
  rw [← hcontiguous]
  constructor
  · rintro ⟨events', hreturns', hexact'⟩
    obtain rfl : events = events' := List.append_cancel_left (hreturns.unique hreturns').2
    exact hinside hexact'.1
  · intro h
    exact ⟨events, hreturns, hexact h⟩

/-- Exactly if no map is left out, both functions write inside the bitmap only and confirm the
meters of the list and no other. -/
theorem confirmBoth_exact_iff
    (hwatched : service.watchedProtocolBridges.find bridgeAddress.toNat = some bridge)
    (hascending : indexes.Pairwise (· < ·)) :
    ((∃ events, Returns (service.confirmVisibleMeters network bridgeAddress indexes) log ⟨⟩
        (log ++ events) ∧ ConfirmsExactly indexes events) ↔ NoMapSkipped indexes) ∧
      ((∃ events, Returns (service.confirmInvisibleMeters network bridgeAddress indexes) log ⟨⟩
        (log ++ events) ∧ ConfirmsExactly indexes events) ↔ NoMapSkipped indexes) :=
  ⟨confirmMeters_exact_iff (fun _ _ _ ↦ ⟨rfl, rfl⟩) hwatched hascending,
    confirmMeters_exact_iff (fun _ _ _ ↦ ⟨rfl, rfl⟩) hwatched hascending⟩

/-- No bridge answers. -/
def silent : Network := .answering (fun _ ↦ 0) fun _ ↦ .timeout

theorem confirmBoth_exact_iff_three :
    ((∃ events, Returns ((watching default).confirmVisibleMeters silent 1 [3, 85, 200]) [] ⟨⟩
        ([] ++ events) ∧ ConfirmsExactly [3, 85, 200] events) ↔ NoMapSkipped [3, 85, 200]) ∧
      ((∃ events, Returns ((watching default).confirmInvisibleMeters silent 1 [3, 85, 200]) [] ⟨⟩
        ([] ++ events) ∧ ConfirmsExactly [3, 85, 200] events) ↔ NoMapSkipped [3, 85, 200]) :=
  confirmBoth_exact_iff rfl (by decide)

/-- A single meter of map 2 is written as byte 15. -/
theorem confirmVisible_outside :
    ¬ ∃ events, Returns ((watching default).confirmVisibleMeters silent 1 [200]) [] ⟨⟩
        ([] ++ events) ∧ ConfirmsExactly [200] events := by
  have hwatched : (watching default).watchedProtocolBridges.find (1 : Byte).toNat =
      some ((default : ProtocolBridge).setNadr 1) := rfl
  have hcarries : Carries commandGetVisibleConfirmation 1 := fun _ _ _ ↦ ⟨rfl, rfl⟩
  intro hexact
  have hskipped := (confirmMeters_exact_iff hcarries hwatched
    (List.pairwise_singleton _ _)).mp hexact
  obtain ⟨other, hother, heq⟩ := hskipped 200 List.mem_cons_self 1 le_rfl (by decide)
  rw [List.mem_singleton.mp hother] at heq
  exact absurd heq (by decide)

end Service

end IqrfDaemon.Bridge
