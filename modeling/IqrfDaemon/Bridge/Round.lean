import IqrfDaemon.Bridge.Confirmation
import IqrfDaemon.Bridge.Header
import IqrfDaemon.Transition.Log

/-!
# Rounds over active bridges

What a whole round appends to the history, from what its single steps append.
-/

namespace IqrfDaemon.Bridge

open Json Serializer Container Transition Traced ProtocolBridge

/-! ## What the parts of a round append -/

/-- A property of the history that holds of what every round may do: the FRC command and
transactions by routine commands. -/
structure Policy (J : List Event → Prop) : Prop extends Concatenative J where
  frc (result : ℤ) : J [.frc result]
  transaction {bridge : ProtocolBridge} (finish : Finish)
    (hroutine : bridge.cmd.isRoutine = true) : J [.transaction bridge.request finish]

structure Liberal (J : List Event → Prop) (E : Failure → Prop) : Prop where
  bitmapWrite (index : ℤ) : J [.bitmapWrite index]
  timeout {request : Request} (finish : Finish) (hcmd : request.cmd = .setWmTimeout) :
    J [.transaction request finish]
  exception (e : Failure) : E e

section Parts

variable {J : List Event → Prop} {E : Failure → Prop} {service : Service} {network : Network}
  {bridgeAddress : Byte}

theorem emit_appends {event : Event} (h : J [event]) : Appends J E (emit event) :=
  Appends.returning fun _ ↦ ⟨⟨⟩, [event], emit_returns event, h⟩

/-- Only a command without a case can throw. -/
theorem executeDpaTransaction_appends {bridge : ProtocolBridge}
    (hJ : ∀ finish, J [.transaction bridge.request finish])
    (hE : bridge.cmd.hasCase = true ∨ ∀ e, E e) :
    Appends J E (executeDpaTransaction network bridge) := by
  intro s
  cases hparsed : (network.finish s bridge.request).handedTo bridge with
  | ok parsed =>
      obtain ⟨hresult, hfinal⟩ := executeDpaTransaction_returns hparsed
      refine ⟨_, hfinal, hJ _, fun e he ↦ ?_⟩
      rw [hresult] at he
      cases he
  | error e =>
      obtain ⟨hresult, hfinal⟩ := executeDpaTransaction_throws hparsed
      refine ⟨_, hfinal, hJ _, fun e' he ↦ ?_⟩
      rcases hE with hcase | hE
      · obtain ⟨parsed, hok⟩ := (network.finish s bridge.request).handedTo_ok hcase
        rw [hok] at hparsed
        cases hparsed
      · exact hE e'

theorem executeDpaTransaction_routine (hpolicy : Policy J) {bridge : ProtocolBridge}
    (hroutine : bridge.cmd.isRoutine = true) :
    Appends J E (executeDpaTransaction network bridge) :=
  executeDpaTransaction_appends (fun finish ↦ hpolicy.transaction finish hroutine)
    (Or.inl (Cmd.hasCase_of_isRoutine hroutine))

namespace Service

def Watches (service : Service) (bridgeAddress : Byte) : Prop :=
  (service.watchedProtocolBridges.find bridgeAddress.toNat).isSome = true

theorem getDpa_appends (hJ : Concatenative J) (h : service.Watches bridgeAddress ∨ ∀ e, E e) :
    Appends J E (service.getDpa bridgeAddress) := by
  rw [getDpa]
  rcases h with hwatched | hE
  · obtain ⟨bridge, hbridge⟩ := Option.isSome_iff_exists.mp hwatched
    rw [hbridge]
    exact Appends.pure hJ bridge
  · cases service.watchedProtocolBridges.find bridgeAddress.toNat with
    | some bridge => exact Appends.pure hJ bridge
    | none => exact Appends.throw hJ (hE _)

theorem requestBridge_appends (hpolicy : Policy J)
    (hwatched : service.Watches bridgeAddress ∨ ∀ e, E e)
    {command : ProtocolBridge → ProtocolBridge}
    (hroutine : ∀ bridge, (command bridge).cmd.isRoutine = true) :
    Appends J E (service.requestBridge network bridgeAddress command) :=
  (getDpa_appends hpolicy.toConcatenative hwatched).bind hpolicy.toConcatenative fun bridge _ ↦
    executeDpaTransaction_routine hpolicy (hroutine bridge)

theorem newMetersIndexes_appends (hJ : Concatenative J)
    {command : ProtocolBridge → ProtocolBridge}
    (hrequest : Appends J E (service.requestBridge network bridgeAddress command))
    (response : ProtocolBridge → MetersResponse) :
    Appends J E (service.newMetersIndexes network command response bridgeAddress) := by
  refine hrequest.bind hJ ?_
  rintro ⟨bridge, result⟩ -
  dsimp only
  split
  · exact Appends.pure hJ _
  · exact Appends.pure hJ _

theorem confirmLoop_appends (hpolicy : Policy J) (hwrite : ∀ index, J [.bitmapWrite index])
    {command : ConfirmationCommand} {kind : Byte} (hcarries : Carries command kind)
    (indexes : List Byte) (c : Confirming) :
    Appends J E (confirmLoop network command indexes c) := by
  induction indexes generalizing c with
  | nil => exact Appends.pure hpolicy.toConcatenative c
  | cons meterIndex rest ih =>
      have hadvance : Appends J E (c.advance network command meterIndex) := by
        rw [Confirming.advance]
        split
        · have hroutine : (c.task command).cmd.isRoutine = true := (hcarries _ _ c.bridge).2
          exact (executeDpaTransaction_routine hpolicy hroutine).bind hpolicy.toConcatenative
            fun _ _ ↦ Appends.pure hpolicy.toConcatenative _
        · exact Appends.pure hpolicy.toConcatenative c
      exact hadvance.bind hpolicy.toConcatenative fun _ _ ↦
        (emit_appends (hwrite _)).bind hpolicy.toConcatenative fun _ _ ↦ ih _

theorem confirmMeters_appends (hpolicy : Policy J) (hwrite : ∀ index, J [.bitmapWrite index])
    (hwatched : service.Watches bridgeAddress ∨ ∀ e, E e) {command : ConfirmationCommand}
    {kind : Byte} (hcarries : Carries command kind) (indexes : List Byte) :
    Appends J E (service.confirmMeters network command bridgeAddress indexes) := by
  refine (getDpa_appends hpolicy.toConcatenative hwatched).bind hpolicy.toConcatenative
    fun bridge _ ↦ ?_
  refine (confirmLoop_appends hpolicy hwrite hcarries indexes _).bind hpolicy.toConcatenative
    fun c _ ↦ ?_
  have hroutine : (c.task command).cmd.isRoutine = true := (hcarries _ _ c.bridge).2
  exact (executeDpaTransaction_routine hpolicy hroutine).bind hpolicy.toConcatenative
    fun _ _ ↦ Appends.pure hpolicy.toConcatenative _

theorem sleepProtocolBridge_appends (hpolicy : Policy J)
    (hwatched : service.Watches bridgeAddress ∨ ∀ e, E e) :
    Appends J E (service.sleepProtocolBridge network bridgeAddress) :=
  (requestBridge_appends hpolicy hwatched fun _ ↦ rfl).bind hpolicy.toConcatenative
    fun _ _ ↦ Appends.pure hpolicy.toConcatenative _

theorem timeoutWMBProtocolBridge_appends (hpolicy : Policy J) (hliberal : Liberal J E) :
    Appends J E (service.timeoutWMBProtocolBridge network bridgeAddress) :=
  ((getDpa_appends hpolicy.toConcatenative (Or.inr hliberal.exception)).bind
    hpolicy.toConcatenative fun _ _ ↦ executeDpaTransaction_appends
      (fun finish ↦ hliberal.timeout finish rfl) (Or.inr hliberal.exception)).bind
    hpolicy.toConcatenative fun _ _ ↦ Appends.pure hpolicy.toConcatenative _

/-! ## Rounds -/

variable {status : BridgeStatusData}

theorem confirmNewVisible_appends (hpolicy : Policy J)
    (h : service.Watches bridgeAddress ∧ status.isNewVisible = false ∨ Liberal J E) :
    Appends J E (service.confirmNewVisible network bridgeAddress status) := by
  rw [confirmNewVisible]
  split
  case isTrue hvisible =>
    have hliberal : Liberal J E := h.resolve_left fun hquiet ↦ by simp [hquiet.2] at hvisible
    have hwatched : service.Watches bridgeAddress ∨ ∀ e, E e := Or.inr hliberal.exception
    exact (newMetersIndexes_appends hpolicy.toConcatenative
      (requestBridge_appends hpolicy hwatched fun _ ↦ rfl) _).bind
        hpolicy.toConcatenative fun indexes _ ↦ (confirmMeters_appends hpolicy
          hliberal.bitmapWrite hwatched (fun _ _ _ ↦ ⟨rfl, rfl⟩) indexes).bind
            hpolicy.toConcatenative fun _ _ ↦ timeoutWMBProtocolBridge_appends hpolicy hliberal
  case isFalse => exact Appends.pure hpolicy.toConcatenative _

/-- Where every write to the bitmap is allowed, so is what the bridge says of new invisible
meters. -/
theorem confirmNewInvisible_appends (hpolicy : Policy J) (hwrite : ∀ index, J [.bitmapWrite index])
    (hrequest : ∀ request finish, request.cmd = .getNewInvisible → J [.transaction request finish])
    (hwatched : service.Watches bridgeAddress ∨ ∀ e, E e) :
    Appends J E (service.confirmNewInvisible network bridgeAddress status) := by
  rw [confirmNewInvisible]
  split
  · have hasked : Appends J E
        (service.requestBridge network bridgeAddress (·.commandGetNewInvisible)) :=
      (getDpa_appends hpolicy.toConcatenative hwatched).bind hpolicy.toConcatenative fun _ _ ↦
        executeDpaTransaction_appends (fun finish ↦ hrequest _ finish rfl) (Or.inl rfl)
    exact (newMetersIndexes_appends hpolicy.toConcatenative hasked _).bind
      hpolicy.toConcatenative fun indexes _ ↦
        confirmMeters_appends hpolicy hwrite hwatched (fun _ _ _ ↦ ⟨rfl, rfl⟩) indexes
  · exact Appends.pure hpolicy.toConcatenative _

theorem newDataMeters_appends (hpolicy : Policy J)
    (hwatched : service.Watches bridgeAddress ∨ ∀ e, E e) :
    Appends J E (service.newDataMeters network bridgeAddress status) := by
  rw [newDataMeters]
  split
  · exact newMetersIndexes_appends hpolicy.toConcatenative
      (requestBridge_appends hpolicy hwatched fun _ ↦ rfl) _
  · exact Appends.pure hpolicy.toConcatenative _

/-- Packets are asked for only if the bridge has reported data. -/
theorem processBridge_appends (hpolicy : Policy J) {active : ℕ × BridgeStatusData}
    (h : service.Watches (BitVec.ofNat 8 active.1) ∧ active.2.isNewVisible = false ∨
      Liberal J E)
    (hinvisible : Appends J E
      (service.confirmNewInvisible network (BitVec.ofNat 8 active.1) active.2))
    (hmeter : active.2.isData = true → ∀ meterIndex,
      Appends J E (service.processMeter network (BitVec.ofNat 8 active.1) meterIndex)) :
    Appends J E (service.processBridge network active) := by
  have hwatched := h.imp And.left Liberal.exception
  refine (confirmNewVisible_appends hpolicy h).bind hpolicy.toConcatenative fun _ _ ↦ ?_
  refine hinvisible.bind hpolicy.toConcatenative fun _ _ ↦ ?_
  refine (newDataMeters_appends hpolicy hwatched).bind hpolicy.toConcatenative ?_
  rintro indexes ⟨s, t, hreturns⟩
  refine Appends.forEach hpolicy.toConcatenative fun meterIndex hmem ↦ ?_
  cases hdata : active.2.isData with
  | true => exact hmeter hdata meterIndex
  | false =>
      rw [newDataMeters, hdata] at hreturns
      obtain ⟨rfl, -⟩ := (Returns.pure [] s).unique hreturns
      cases hmem

theorem getAndProcessDataFromMeters_appends (hpolicy : Policy J)
    (h : (∀ active ∈ network.activeBridgesStatusMap.entries,
        service.Watches (BitVec.ofNat 8 active.1) ∧ active.2.isNewVisible = false) ∨
      Liberal J E)
    (hinvisible : ∀ active ∈ network.activeBridgesStatusMap.entries, Appends J E
      (service.confirmNewInvisible network (BitVec.ofNat 8 active.1) active.2))
    (hmeter : ∀ active ∈ network.activeBridgesStatusMap.entries, active.2.isData = true →
      ∀ meterIndex,
        Appends J E (service.processMeter network (BitVec.ofNat 8 active.1) meterIndex)) :
    Appends J E (service.getAndProcessDataFromMeters network) := by
  have hactive : ∀ active ∈ network.activeBridgesStatusMap.entries,
      service.Watches (BitVec.ofNat 8 active.1) ∧ active.2.isNewVisible = false ∨
        Liberal J E :=
    fun active hmem ↦ h.imp (fun hquiet ↦ hquiet active hmem) id
  have hmap : Appends J E (getActiveBridgesStatusMap network) :=
    (emit_appends (hpolicy.frc _)).bind hpolicy.toConcatenative
      fun _ _ ↦ Appends.pure hpolicy.toConcatenative _
  refine hmap.bind hpolicy.toConcatenative ?_
  rintro activeBridges ⟨s, t, hreturns⟩
  obtain ⟨rfl, -⟩ := (getActiveBridgesStatusMap_returns network s).unique hreturns
  refine (Appends.forEach hpolicy.toConcatenative fun active hmem ↦
    processBridge_appends hpolicy (hactive active hmem) (hinvisible active hmem)
      (hmeter active hmem)).bind hpolicy.toConcatenative fun _ _ ↦ ?_
  exact Appends.forEach hpolicy.toConcatenative fun active hmem ↦
    sleepProtocolBridge_appends hpolicy ((hactive active hmem).imp And.left Liberal.exception)

end Service

end Parts

/-! ## Active bridges -/

theorem mem_addActive {frcData : ℕ → Byte} {addrs : List ℕ} {activeBridges : Map ℕ BridgeStatusData}
    {active : ℕ × BridgeStatusData} (h : active ∈ (addActive frcData addrs activeBridges).entries) :
    active ∈ activeBridges.entries ∨ active.1 ∈ addrs ∧ (frcData active.1).getLsbD 0 = true ∧
      active.2 = .ofByte (frcData active.1) := by
  induction addrs generalizing activeBridges with
  | nil => exact Or.inl h
  | cons addr rest ih =>
      rcases ih h with hmem | ⟨hmem, hon, hstatus⟩
      · split at hmem
        case isTrue hon =>
          rcases Map.mem_insertEntries hmem with rfl | hmem
          · exact Or.inr ⟨List.mem_cons_self, hon, rfl⟩
          · exact Or.inl hmem
        case isFalse => exact Or.inl hmem
      · exact Or.inr ⟨List.mem_cons_of_mem addr hmem, hon, hstatus⟩

theorem mem_keys_addActive {frcData : ℕ → Byte} {addrs : List ℕ}
    {activeBridges : Map ℕ BridgeStatusData} {addr : ℕ} :
    addr ∈ (addActive frcData addrs activeBridges).keys ↔
      addr ∈ activeBridges.keys ∨ addr ∈ addrs ∧ (frcData addr).getLsbD 0 = true := by
  induction addrs generalizing activeBridges with
  | nil => simp [addActive]
  | cons other rest ih =>
      rw [addActive, ih]
      split
      case isTrue hon =>
        rw [Map.mem_keys_insert]
        grind
      case isFalse hoff => grind

theorem mem_activeBridges {network : Network} {active : ℕ × BridgeStatusData} :
    active ∈ network.activeBridgesStatusMap.entries ↔
      (1 ≤ active.1 ∧ active.1 ≤ network.frcMaxNodeByte) ∧
        (network.frcData active.1).getLsbD 0 = true ∧
          active.2 = .ofByte (network.frcData active.1) := by
  have hrange : active.1 ∈ List.range' 1 network.frcMaxNodeByte ↔
      1 ≤ active.1 ∧ active.1 ≤ network.frcMaxNodeByte := by
    rw [List.mem_range'_1]
    omega
  rw [← hrange]
  constructor
  · exact fun h ↦ (mem_addActive h).resolve_left fun hmem ↦ nomatch hmem
  · rintro ⟨hmem, hon, hstatus⟩
    have hkey : active.1 ∈ network.activeBridgesStatusMap.keys :=
      mem_keys_addActive.mpr (Or.inr ⟨hmem, hon⟩)
    obtain ⟨entry, hentry, hkey⟩ := List.mem_map.mp hkey
    obtain ⟨-, -, hstatus'⟩ := (mem_addActive hentry).resolve_left fun hmem ↦ nomatch hmem
    have heq : entry = active := Prod.ext hkey (by rw [hstatus', hstatus, hkey])
    exact heq ▸ hentry

end IqrfDaemon.Bridge
