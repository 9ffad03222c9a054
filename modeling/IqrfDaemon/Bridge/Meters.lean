import Mathlib.Data.List.FinRange
import IqrfDaemon.Bridge.Service

/-!
# Indexes of meters

A bitmap of 38 bytes has a bit for each of 304 meters, and the list of the set ones holds
their indexes as bytes.
-/

namespace IqrfDaemon.Bridge

open Json Serializer Container Transition Traced

/-! ## Decoding a bitmap -/

/-- Bit `i` of a bitmap: of byte `i / 8`, the bit `i % 8`. -/
def isSet (bitmap : Fin 38 → Byte) (i : ℕ) : Bool :=
  if h : i / 8 < 38 then (bitmap ⟨i / 8, h⟩).getLsbD (i % 8) else false

/-- The list is strictly ascending and has exactly the set bits of the bitmap. -/
def Decodes (bitmap : Fin 38 → Byte) (indexes : List Byte) : Prop :=
  (indexes.map BitVec.toNat).Pairwise (· < ·) ∧
    ∀ i < 304, i ∈ indexes.map BitVec.toNat ↔ isSet bitmap i = true

theorem isSet_byte (bitmap : Fin 38 → Byte) (byteIndex : Fin 38) {bitIndex : ℕ}
    (hbit : bitIndex < 8) :
    isSet bitmap (byteIndex * 8 + bitIndex) = (bitmap byteIndex).getLsbD bitIndex := by
  have hbyte : (byteIndex * 8 + bitIndex) / 8 = (byteIndex : ℕ) := by omega
  have hlt : (byteIndex * 8 + bitIndex) / 8 < 38 := by
    rw [hbyte]
    exact byteIndex.isLt
  have hfin : (⟨(byteIndex * 8 + bitIndex) / 8, hlt⟩ : Fin 38) = byteIndex := Fin.ext hbyte
  rw [isSet, dif_pos hlt, hfin]
  congr 1
  omega

/-- The two loops run over the bits in order. -/
theorem metersIndexes_eq (bitmap : Fin 38 → Byte) :
    metersIndexes bitmap = ((List.range 304).filter (isSet bitmap)).map (BitVec.ofNat 8) := by
  have hrange : List.range 304 =
      (List.finRange 38).flatMap fun byteIndex : Fin 38 ↦
        (List.range 8).map fun bitIndex ↦ (byteIndex : ℕ) * 8 + bitIndex := by
    decide +kernel
  rw [hrange, List.filter_flatMap, List.map_flatMap, metersIndexes]
  refine List.flatMap_congr fun byteIndex _ ↦ ?_
  rw [List.filter_map, List.map_map]
  refine congrArg (List.map _) (List.filter_congr fun bitIndex hbit ↦ ?_)
  exact (isSet_byte bitmap byteIndex (List.mem_range.mp hbit)).symm

/-- As bytes the indexes from 256 on are not what they were. -/
theorem metersIndexes_decodes_iff (bitmap : Fin 38 → Byte) :
    Decodes bitmap (metersIndexes bitmap) ↔ ∀ i, 256 ≤ i → i < 304 → isSet bitmap i = false := by
  constructor
  · rintro ⟨-, hmem⟩ i hi hlt
    rw [← Bool.not_eq_true]
    intro hset
    obtain ⟨b, -, rfl⟩ := List.mem_map.mp ((hmem i hlt).mpr hset)
    exact absurd b.isLt (by omega)
  · intro hclear
    have hbyte : ∀ i ∈ (List.range 304).filter (isSet bitmap), i < 256 := by
      intro i hi
      obtain ⟨hrange, hset⟩ := List.mem_filter.mp hi
      by_contra hge
      rw [hclear i (by omega) (List.mem_range.mp hrange)] at hset
      cases hset
    have hnat : (metersIndexes bitmap).map BitVec.toNat =
        (List.range 304).filter (isSet bitmap) := by
      rw [metersIndexes_eq, List.map_map]
      conv_rhs => rw [← List.map_id ((List.range 304).filter (isSet bitmap))]
      refine List.map_congr_left fun i hi ↦ ?_
      exact Nat.mod_eq_of_lt (hbyte i hi)
    rw [Decodes, hnat]
    refine ⟨List.pairwise_lt_range.filter _, fun i hi ↦ ?_⟩
    simp [hi]

theorem returned_decodes_iff {program : Round (List Byte)} {bitmap : Fin 38 → Byte}
    {log log' : List Event} (h : Returns program log (metersIndexes bitmap) log') :
    (∃ indexes s, Returns program log indexes s ∧ Decodes bitmap indexes) ↔
      ∀ i, 256 ≤ i → i < 304 → isSet bitmap i = false := by
  rw [← metersIndexes_decodes_iff]
  constructor
  · rintro ⟨indexes, s, hreturns, hdecodes⟩
    obtain ⟨rfl, -⟩ := h.unique hreturns
    exact hdecodes
  · intro hdecodes
    exact ⟨_, _, h, hdecodes⟩

namespace Service

variable (service : Service) (network : Network)

/-- The functions for the lists of meters, with the commands they send. -/
def listFunctions :
    List ((ProtocolBridge → ProtocolBridge) × (Byte → Round (List Byte))) :=
  [(ProtocolBridge.commandGetNewVisible, service.getNewVisibleMetersIndexes network),
    (ProtocolBridge.commandGetNewInvisible, service.getNewInvisibleMetersIndexes network),
    (ProtocolBridge.commandGetNewDataInfo, service.getNewDataMetersIndexes network)]

variable {service network} {bridgeAddress : Byte} {bridge : ProtocolBridge} {log : List Event}
  {pData : ℕ → Byte}

theorem newMetersIndexes_returns {command : ProtocolBridge → ProtocolBridge}
    {response : ProtocolBridge → MetersResponse} {parsed : ProtocolBridge}
    (hwatched : service.watchedProtocolBridges.find bridgeAddress.toNat = some bridge)
    (hsuccess : (network.finish log ((command bridge).setHwpid 0xFFFF).request).Succeeds pData)
    (hparsed : ((command bridge).setHwpid 0xFFFF).parseResponse pData = .ok parsed)
    (hresponse : response parsed = parseMetersResponse pData) :
    ∃ s, Returns (service.newMetersIndexes network command response bridgeAddress) log
      (metersIndexes (parseMetersResponse pData).bitmap) s := by
  have hrequest := requestBridge_returns hwatched ((hsuccess.handedTo _).trans hparsed)
  rw [hsuccess.2] at hrequest
  rw [← hresponse]
  exact ⟨_, hrequest.bind (Returns.pure _ _)⟩

/-- After a successful response each of the functions returns what the bitmap decodes to exactly
if no bit from 256 on is set. -/
theorem listFunctions_decode_iff
    {function : (ProtocolBridge → ProtocolBridge) × (Byte → Round (List Byte))}
    (hfunction : function ∈ service.listFunctions network)
    (hwatched : service.watchedProtocolBridges.find bridgeAddress.toNat = some bridge)
    (hsuccess : (network.finish log
      ((function.1 bridge).setHwpid 0xFFFF).request).Succeeds pData) :
    (∃ indexes s, Returns (function.2 bridgeAddress) log indexes s ∧
        Decodes (parseMetersResponse pData).bitmap indexes) ↔
      ∀ i, 256 ≤ i → i < 304 → isSet (parseMetersResponse pData).bitmap i = false := by
  have hreturns : ∃ s, Returns (function.2 bridgeAddress) log
      (metersIndexes (parseMetersResponse pData).bitmap) s := by
    simp only [listFunctions, List.mem_cons, List.not_mem_nil, or_false] at hfunction
    rcases hfunction with rfl | rfl | rfl
    case inl => exact newMetersIndexes_returns hwatched hsuccess rfl rfl
    case inr.inl => exact newMetersIndexes_returns hwatched hsuccess rfl rfl
    case inr.inr => exact newMetersIndexes_returns hwatched hsuccess rfl rfl
  obtain ⟨s, hreturns⟩ := hreturns
  exact returned_decodes_iff hreturns

def report (meter : ℕ) (i : ℕ) : Byte := if i = 4 + meter / 8 then (1 : Byte) <<< (meter % 8) else 0

def reporting (meter : ℕ) : Network := .answering (fun _ ↦ 0) fun _ ↦ .success (report meter)

theorem listFunctions_decode_iff_visible :
    (∃ indexes s, Returns ((watching default).getNewVisibleMetersIndexes (reporting 5) 1) []
        indexes s ∧ Decodes (parseMetersResponse (report 5)).bitmap indexes) ↔
      ∀ i, 256 ≤ i → i < 304 → isSet (parseMetersResponse (report 5)).bitmap i = false :=
  listFunctions_decode_iff List.mem_cons_self rfl ⟨rfl, rfl⟩

/-- The list that reports meter 256 does not have it. -/
theorem newMetersIndexes_narrowed :
    ¬ ∃ indexes s, Returns ((watching default).getNewVisibleMetersIndexes (reporting 256) 1) []
        indexes s ∧ Decodes (parseMetersResponse (report 256)).bitmap indexes := by
  have hwatched : (watching default).watchedProtocolBridges.find (1 : Byte).toNat =
      some ((default : ProtocolBridge).setNadr 1) := rfl
  have hreturns : ∃ s, Returns ((watching default).getNewVisibleMetersIndexes
      (reporting 256) 1) [] (metersIndexes (parseMetersResponse (report 256)).bitmap) s :=
    newMetersIndexes_returns hwatched ⟨rfl, rfl⟩ rfl rfl
  obtain ⟨s, hreturns⟩ := hreturns
  rw [returned_decodes_iff hreturns]
  intro hclear
  exact absurd (hclear 256 le_rfl (by decide)) (by decide)

end Service

end IqrfDaemon.Bridge
