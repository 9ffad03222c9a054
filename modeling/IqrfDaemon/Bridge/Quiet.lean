import IqrfDaemon.Bridge.Meters
import IqrfDaemon.Bridge.Packet
import IqrfDaemon.Bridge.Round

/-!
# Rounds without an exception

A round leaves by an exception at an active bridge that is not watched, and the time-out it
sets on a bridge with new visible meters is a command whose response leads to one.  A packet
whose length does not fit and new invisible meters that leave out a map are written outside
their arrays, after which nothing can be said of the program.  In all other rounds no
exception leaves `getAndProcessDataFromMeters`, and every command has a case.
-/

namespace IqrfDaemon.Bridge

open Json Serializer Container Transition Traced ProtocolBridge

/-! ## Rounds that return -/

def Event.HasCase : Event → Prop
  | .transaction request _ => request.cmd.hasCase = true
  | .frc _ | .bitmapWrite _ | .published _ _ _ _ _ => True

theorem policy_hasCase : Policy fun events ↦ ∀ event ∈ events, event.HasCase where
  toConcatenative := concatenative_forall Event.HasCase
  frc _ := by simp [Event.HasCase]
  transaction _ hroutine := fun _ hevent ↦ by
    obtain rfl := List.mem_singleton.mp hevent
    exact Cmd.hasCase_of_isRoutine hroutine

theorem policy_true : Policy fun _ ↦ True where
  nil := trivial
  append _ _ := trivial
  frc _ := trivial
  transaction _ _ := trivial

theorem liberal_true : Liberal (fun _ ↦ True) (fun _ ↦ True) where
  bitmapWrite _ := trivial
  timeout _ _ := trivial
  exception _ := trivial

namespace Service

variable {service : Service} {network : Network} {bridgeAddress : Byte}

theorem processMeter_appends {J : List Event → Prop} {E : Failure → Prop}
    (hJ : Concatenative J) (hwatched : service.Watches bridgeAddress ∨ ∀ e, E e)
    (meterIndex : Byte)
    (htransaction : ∀ request finish, request.cmd = .getFullPacket →
      J [.transaction request finish])
    (hpublished : ∀ header data text,
      J [.published bridgeAddress meterIndex header data text]) :
    Appends J E (service.processMeter network bridgeAddress meterIndex) := by
  have hrequest : Appends J E (service.getFullPacketResponse network bridgeAddress meterIndex) :=
    ((getDpa_appends hJ hwatched).bind hJ fun _ _ ↦ executeDpaTransaction_appends
      (fun finish ↦ htransaction _ finish rfl) (Or.inl rfl)).bind hJ fun _ _ ↦ Appends.pure hJ _
  exact hrequest.bind hJ fun _ _ ↦ emit_appends (hpublished _ _ _)

theorem processBridge_leaves (active : ℕ × BridgeStatusData) :
    Leaves (fun _ ↦ True) (service.processBridge network active) :=
  (processBridge_appends policy_true (Or.inr liberal_true)
    (confirmNewInvisible_appends policy_true (fun _ ↦ trivial) (fun _ _ _ ↦ trivial)
      (Or.inr liberal_true.exception)) fun _ meterIndex ↦
    processMeter_appends policy_true.toConcatenative (Or.inr liberal_true.exception) meterIndex
      (fun _ _ _ ↦ trivial) fun _ _ _ ↦ trivial).leaves

/-- Without a bridge there is nothing to send a bridge to sleep with. -/
theorem sleepProtocolBridge_leaves :
    Leaves (fun _ ↦ service.Watches bridgeAddress)
      (service.sleepProtocolBridge network bridgeAddress) := by
  intro s _ t h
  obtain ⟨added, rfl, -⟩ :=
    (sleepProtocolBridge_appends policy_true (Or.inr liberal_true.exception)).leaves s _ t h
  refine ⟨added, rfl, ?_⟩
  rw [Watches, Option.isSome_iff_ne_none]
  intro hnone
  obtain ⟨_, _, hrequest, -⟩ := h.of_bind
  obtain ⟨_, _, hdpa, -⟩ := hrequest.of_bind
  cases hdpa.1.symm.trans (getDpa_throws hnone s).1

theorem persistent_uncased :
    Persistent fun events : List Event ↦ ∃ event ∈ events, ¬ event.HasCase := by
  rintro a l b ⟨event, hmem, hcase⟩
  exact ⟨event, List.mem_append_left b (List.mem_append_right a hmem), hcase⟩

theorem timeoutWMBProtocolBridge_leaves :
    Leaves (fun events ↦ ∃ event ∈ events, ¬ event.HasCase)
      (service.timeoutWMBProtocolBridge network bridgeAddress) := by
  have hrequest : Leaves (fun events ↦ ∃ event ∈ events, ¬ event.HasCase)
      (service.requestBridge network bridgeAddress (·.commandSetWmTimeout service.wmPeriod)) := by
    refine Leaves.bind_right persistent_uncased
      (getDpa_appends policy_true.toConcatenative (Or.inr liberal_true.exception)).leaves
      fun bridge _ ↦ ?_
    refine (executeDpaTransaction_appends (fun finish ↦ ?_)
      (Or.inr liberal_true.exception)).leaves
    exact ⟨_, List.mem_cons_self, Bool.false_ne_true⟩
  exact Leaves.bind_left persistent_uncased hrequest fun _ ↦ Leaves.pure trivial _

theorem processBridge_leaves_uncased {active : ℕ × BridgeStatusData}
    (hvisible : active.2.isNewVisible = true) :
    Leaves (fun events ↦ ∃ event ∈ events, ¬ event.HasCase)
      (service.processBridge network active) := by
  have hany : ∀ a, service.Watches a ∨ ∀ e : Failure, True := fun _ ↦ Or.inr liberal_true.exception
  have hvisibles : Leaves (fun events ↦ ∃ event ∈ events, ¬ event.HasCase)
      (service.confirmNewVisible network (BitVec.ofNat 8 active.1) active.2) := by
    rw [confirmNewVisible, if_pos hvisible]
    refine Leaves.bind_right persistent_uncased
      (newMetersIndexes_appends policy_true.toConcatenative
        (requestBridge_appends policy_true (hany _) fun _ ↦ rfl) _).leaves fun indexes _ ↦ ?_
    exact Leaves.bind_right persistent_uncased
      (confirmMeters_appends policy_true (fun _ ↦ trivial) (hany _) (fun _ _ _ ↦ ⟨rfl, rfl⟩)
        indexes).leaves fun _ _ ↦ timeoutWMBProtocolBridge_leaves
  refine Leaves.bind_left persistent_uncased hvisibles fun _ ↦ ?_
  refine (Appends.bind policy_true.toConcatenative
    (confirmNewInvisible_appends policy_true (fun _ ↦ trivial) (fun _ _ _ ↦ trivial)
      (hany _)) fun _ _ ↦ ?_).leaves
  refine Appends.bind policy_true.toConcatenative
    (newDataMeters_appends policy_true (hany _)) fun _ _ ↦ ?_
  exact Appends.forEach policy_true.toConcatenative fun meterIndex _ ↦
    processMeter_appends policy_true.toConcatenative (hany _) meterIndex (fun _ _ _ ↦ trivial)
      fun _ _ _ ↦ trivial

theorem getAndProcessDataFromMeters_leaves {K : List Event → Prop} (hK : Persistent K)
    {active : ℕ × BridgeStatusData} (hactive : active ∈ network.activeBridgesStatusMap.entries)
    (h : Leaves K (service.processBridge network active) ∨
      Leaves K (service.sleepProtocolBridge network (BitVec.ofNat 8 active.1))) :
    Leaves K (service.getAndProcessDataFromMeters network) := by
  have hmap : Leaves (fun _ ↦ True) (getActiveBridgesStatusMap network) := by
    intro s activeBridges t hreturns
    obtain ⟨rfl, rfl⟩ := (getActiveBridgesStatusMap_returns network s).unique hreturns
    exact ⟨_, rfl, trivial⟩
  have hsleep : ∀ a, Leaves (fun _ ↦ True) (service.sleepProtocolBridge network a) := fun _ ↦
    (sleepProtocolBridge_appends policy_true (Or.inr liberal_true.exception)).leaves
  refine Leaves.bind_right hK hmap ?_
  rintro activeBridges ⟨s, t, hreturns⟩
  obtain ⟨rfl, -⟩ := (getActiveBridgesStatusMap_returns network s).unique hreturns
  rcases h with hprocess | hlast
  · exact Leaves.bind_left hK (Leaves.forEach_of_mem hK (fun active _ ↦
      processBridge_leaves active) hactive hprocess) fun _ ↦ Leaves.forEach_all fun _ _ ↦ hsleep _
  · exact Leaves.bind_right hK (Leaves.forEach_all fun active _ ↦ processBridge_leaves active)
      fun _ _ ↦ Leaves.forEach_of_mem hK (fun _ _ ↦ hsleep _) hactive hlast

end Service

/-! ## Rounds that write inside -/

/-- Nothing is accessed outside an array: by the parser, if the transaction asked for a packet,
or in the bitmap. -/
def Event.Inside : Event → Prop
  | .transaction request finish => request.cmd = .getFullPacket → ∀ pData,
      finish.response = some pData →
        ∀ access ∈ ((default : ProtocolBridge).parseGetFullPacketResponse pData []).2, access.Inside
  | .bitmapWrite index => 0 ≤ index ∧ index < confirmationBitmapLen
  | .frc _ | .published _ _ _ _ _ => True

/-- Each meter is in the map of the one before it, or in the next map. -/
def MapByMap : ℕ → List Byte → Prop
  | _, [] => True
  | map, meterIndex :: rest =>
      (map = meterIndex.toNat / 80 ∨ map + 1 = meterIndex.toNat / 80) ∧
        MapByMap (meterIndex.toNat / 80) rest

/-- What a response must be: if it carries a packet, its first byte is neither below seven nor
above 52; if it is a successful one with the new invisible meters, these go map by map. -/
def Event.Fits : Event → Prop
  | .transaction request finish => ∀ pData, finish.response = some pData →
      (request.cmd = .getFullPacket → 7 ≤ (pData 0).toNat ∧ (pData 0).toNat ≤ 52) ∧
      (request.cmd = .getNewInvisible → finish.result = 0 →
        MapByMap 0 (metersIndexes (parseMetersResponse pData).bitmap))
  | .frc _ | .bitmapWrite _ | .published _ _ _ _ _ => True

/-- Both mean the same for the events. -/
def Fitting (events : List Event) : Prop :=
  (∀ event ∈ events, event.Inside) ↔ ∀ event ∈ events, event.Fits

theorem fitting_of_inside {events : List Event}
    (h : ∀ event ∈ events, event.Inside ∧ event.Fits) : Fitting events :=
  iff_of_true (fun event hmem ↦ (h event hmem).1) fun event hmem ↦ (h event hmem).2

theorem fitting_append {a b : List Event} (ha : Fitting a) (hb : Fitting b) : Fitting (a ++ b) := by
  rw [Fitting, List.forall_mem_append, List.forall_mem_append]
  exact and_congr ha hb

theorem inside_of_isRoutine {request : Request} (hroutine : request.cmd.isRoutine = true)
    (finish : Finish) : Event.Inside (.transaction request finish) ∧
      Event.Fits (.transaction request finish) := by
  have hne : request.cmd ≠ .getFullPacket ∧ request.cmd ≠ .getNewInvisible := by
    constructor <;> intro hcmd <;> rw [hcmd] at hroutine <;> cases hroutine
  exact ⟨fun hcmd ↦ absurd hcmd hne.1, fun _ _ ↦ ⟨fun hcmd ↦ absurd hcmd hne.1,
    fun hcmd ↦ absurd hcmd hne.2⟩⟩

theorem policy_fitting : Policy Fitting where
  nil := fitting_of_inside fun _ hmem ↦ absurd hmem List.not_mem_nil
  append := fitting_append
  frc result := fitting_of_inside fun event hmem ↦ by
    obtain rfl := List.mem_singleton.mp hmem
    exact ⟨trivial, trivial⟩
  transaction finish hroutine := fitting_of_inside fun event hmem ↦ by
    obtain rfl := List.mem_singleton.mp hmem
    exact inside_of_isRoutine hroutine finish

/-- The parser of a packet writes inside the message exactly if the length fits. -/
theorem fitting_packet {request : Request} (hcmd : request.cmd = .getFullPacket) (finish : Finish) :
    Fitting [.transaction request finish] := by
  simp only [Fitting, List.forall_mem_singleton, Event.Inside, Event.Fits, hcmd, true_implies,
    reduceCtorEq, false_implies, and_true]
  refine forall₂_congr fun pData _ ↦ ?_
  have hfull : ((default : ProtocolBridge).parseGetFullPacketResponse pData []).2 =
      (parsePacketResponse pData (default : ProtocolBridge).fullPacketResponse []).2 := rfl
  rw [hfull, parsePacketResponse_inside_iff, messageLength_le_iff]

/-! ## The loop over the bitmap -/

section Loop

variable {network : Network} {command : ConfirmationCommand} {kind meterIndex : Byte}
  {c : Confirming} {log : List Event}

theorem advance_returns (hcarries : Carries command kind) (network : Network)
    (meterIndex : Byte) (c : Confirming) (log : List Event) :
    ∃ c' events, Returns (c.advance network command meterIndex) log c' (log ++ events) ∧
      c'.mapIndex = (if 80 * c.mapIndex + 79 < meterIndex.toNat then c.mapIndex + 1
        else c.mapIndex) ∧ ∀ event ∈ events, event.Inside ∧ event.Fits := by
  by_cases hnext : 80 * c.mapIndex + 79 < meterIndex.toNat
  · have hroutine : (c.task command).cmd.isRoutine = true := (hcarries _ _ c.bridge).2
    obtain ⟨parsed, hparsed⟩ := (network.finish log (c.task command).request).handedTo_ok
      (Cmd.hasCase_of_isRoutine hroutine)
    refine ⟨⟨parsed, c.mapIndex + 1, fun _ ↦ 0⟩, [.transaction (c.task command).request
      (network.finish log (c.task command).request)], ?_, (if_pos hnext).symm, fun event hmem ↦ ?_⟩
    · rw [Confirming.advance, if_pos (by omega)]
      exact (executeDpaTransaction_returns hparsed).bind (Returns.pure _ _)
    · obtain rfl := List.mem_singleton.mp hmem
      exact inside_of_isRoutine hroutine _
  · refine ⟨c, [], ?_, (if_neg hnext).symm, fun _ hmem ↦ absurd hmem List.not_mem_nil⟩
    rw [Confirming.advance, if_neg (by omega), List.append_nil]
    exact Returns.pure _ _

/-- The byte of a meter is in the bitmap exactly if the meter is in the present map, for a meter
that is not before it or is one of the first 48. -/
theorem byteIndex_inside_iff (h : c.mapIndex ≤ meterIndex.toNat / 80 ∨ meterIndex.toNat < 48) :
    (0 ≤ c.byteIndex meterIndex ∧ c.byteIndex meterIndex < confirmationBitmapLen) ↔
      c.mapIndex = meterIndex.toNat / 80 := by
  have hlen : confirmationBitmapLen = 10 := rfl
  rw [hlen]
  by_cases hle : c.mapIndex ≤ meterIndex.toNat / 80
  · rw [byteIndex_eq (by omega)]
    omega
  · have hbefore : c.byteIndex meterIndex = -((80 * c.mapIndex - meterIndex.toNat) / 8 : ℕ) := by
      have hsub : (meterIndex.toNat : ℤ) - c.mapIndex * 10 * 8 =
          -(80 * c.mapIndex - meterIndex.toNat : ℕ) := by omega
      rw [Confirming.byteIndex, hsub, Int.neg_tdiv]
      rfl
    rw [hbefore]
    omega

/-- The loop over the indexes of a bitmap, which as bytes start again behind 255. -/
theorem confirmLoop_inside (hcarries : Carries command kind) (network : Network)
    {indexes : List Byte}
    (hnarrowed : indexes.Pairwise fun a b ↦ a.toNat < b.toNat ∨ b.toNat < 48) (c : Confirming)
    (hle : ∀ meterIndex ∈ indexes, c.mapIndex ≤ meterIndex.toNat / 80 ∨ meterIndex.toNat < 48)
    (log : List Event) :
    ∃ d events, Returns (confirmLoop network command indexes c) log d (log ++ events) ∧
      ((∀ event ∈ events, event.Inside) ↔ MapByMap c.mapIndex indexes) ∧
        ∀ event ∈ events, event.Fits := by
  induction indexes generalizing c log with
  | nil =>
      refine ⟨c, [], ?_, by simp [MapByMap], fun _ hmem ↦ absurd hmem List.not_mem_nil⟩
      rw [List.append_nil]
      exact Returns.pure _ _
  | cons meterIndex rest ih =>
      obtain ⟨hfirst, hrest⟩ := List.pairwise_cons.mp hnarrowed
      obtain ⟨c', events, hadvance, hmap, hevents⟩ :=
        advance_returns hcarries network meterIndex c log
      have hmeter := hle meterIndex List.mem_cons_self
      have hpresent : c'.mapIndex ≤ meterIndex.toNat / 80 ∨ meterIndex.toNat < 48 := by
        rw [hmap]
        split <;> omega
      have hafter : ∀ m ∈ rest,
          (c'.setBit meterIndex).mapIndex ≤ m.toNat / 80 ∨ m.toNat < 48 := by
        intro m hm
        have hlater := hfirst m hm
        have hkept := hle m (List.mem_cons_of_mem meterIndex hm)
        change c'.mapIndex ≤ _ ∨ _
        rw [hmap]
        split <;> omega
      obtain ⟨d, later, hloop, hinside, hfits⟩ := ih hrest (c'.setBit meterIndex) hafter
        (log ++ events ++ [.bitmapWrite (c'.byteIndex meterIndex)])
      refine ⟨d, events ++ [.bitmapWrite (c'.byteIndex meterIndex)] ++ later, ?_, ?_, ?_⟩
      · have hcons := confirmLoop_cons hadvance hloop
        simpa only [List.append_assoc] using hcons
      · have hwrite : (∀ event ∈ events ++ [.bitmapWrite (c'.byteIndex meterIndex)],
            event.Inside) ↔ c'.mapIndex = meterIndex.toNat / 80 := by
          rw [List.forall_mem_append, List.forall_mem_singleton, ← byteIndex_inside_iff hpresent]
          exact and_iff_right fun event hmem ↦ (hevents event hmem).1
        have hnext : c'.mapIndex = meterIndex.toNat / 80 ↔
            c.mapIndex = meterIndex.toNat / 80 ∨ c.mapIndex + 1 = meterIndex.toNat / 80 := by
          rw [hmap]
          split <;> omega
        rw [List.forall_mem_append, hwrite, hinside, MapByMap, ← hnext]
        exact and_congr_right fun heq ↦ by rw [← heq]; rfl
      · rw [List.forall_mem_append, List.forall_mem_append, List.forall_mem_singleton]
        exact ⟨⟨fun event hmem ↦ (hevents event hmem).2, trivial⟩, hfits⟩

end Loop

/-- As bytes the indexes from 256 on are those from 0 to 47. -/
theorem metersIndexes_narrowed (bitmap : Fin 38 → Byte) :
    (metersIndexes bitmap).Pairwise fun a b ↦ a.toNat < b.toNat ∨ b.toNat < 48 := by
  rw [metersIndexes_eq, List.pairwise_map]
  have hascending : ((List.range 304).filter (isSet bitmap)).Pairwise (· < ·) :=
    List.pairwise_lt_range.filter _
  refine hascending.imp_of_mem fun {i j} hi hj hlt ↦ ?_
  have hlast := List.mem_range.mp (List.mem_filter.mp hj).1
  simp only [BitVec.toNat_ofNat]
  omega

namespace Service

variable {service : Service} {network : Network} {bridgeAddress : Byte} {log : List Event}

theorem confirmInvisibleMeters_returns (hwatched : service.Watches bridgeAddress)
    (network : Network) {indexes : List Byte}
    (hnarrowed : indexes.Pairwise fun a b ↦ a.toNat < b.toNat ∨ b.toNat < 48)
    (log : List Event) :
    ∃ events, Returns (service.confirmInvisibleMeters network bridgeAddress indexes) log ⟨⟩
        (log ++ events) ∧ ((∀ event ∈ events, event.Inside) ↔ MapByMap 0 indexes) ∧
          ∀ event ∈ events, event.Fits := by
  obtain ⟨bridge, hbridge⟩ := Option.isSome_iff_exists.mp hwatched
  have hcarries : Carries commandGetInvisibleConfirmation 0x02 := fun _ _ _ ↦ ⟨rfl, rfl⟩
  obtain ⟨d, events, hloop, hinside, hfits⟩ := confirmLoop_inside hcarries network hnarrowed
    ⟨bridge, 0, fun _ ↦ 0⟩ (fun _ _ ↦ Or.inl (Nat.zero_le _)) log
  have hroutine : (d.task commandGetInvisibleConfirmation).cmd.isRoutine = true := rfl
  obtain ⟨parsed, hparsed⟩ := (network.finish (log ++ events)
    (d.task commandGetInvisibleConfirmation).request).handedTo_ok
      (Cmd.hasCase_of_isRoutine hroutine)
  have hlast := @inside_of_isRoutine (d.task commandGetInvisibleConfirmation).request
    hroutine (network.finish (log ++ events) (d.task commandGetInvisibleConfirmation).request)
  refine ⟨events ++ [.transaction (d.task commandGetInvisibleConfirmation).request
    (network.finish (log ++ events) (d.task commandGetInvisibleConfirmation).request)], ?_, ?_, ?_⟩
  · rw [← List.append_assoc]
    exact (getDpa_returns hbridge log).bind
      (hloop.bind ((executeDpaTransaction_returns hparsed).bind (Returns.pure _ _)))
  · rw [List.forall_mem_append, List.forall_mem_singleton, and_iff_left hlast.1]
    exact hinside
  · rw [List.forall_mem_append, List.forall_mem_singleton]
    exact ⟨hfits, hlast.2⟩

/-- The bitmap is written inside exactly if the response is as it must be. -/
theorem confirmNewInvisible_fitting (hwatched : service.Watches bridgeAddress)
    (network : Network) (status : BridgeStatusData) :
    Appends Fitting (fun _ ↦ False)
      (service.confirmNewInvisible network bridgeAddress status) := by
  rw [confirmNewInvisible]
  split
  case isFalse => exact Appends.pure policy_fitting.toConcatenative _
  case isTrue =>
    refine Appends.returning fun log ↦ ?_
    obtain ⟨bridge, hbridge⟩ := Option.isSome_iff_exists.mp hwatched
    obtain ⟨task, htask⟩ :
        ∃ task, task = bridge.commandGetNewInvisible.setHwpid 0xFFFF := ⟨_, rfl⟩
    obtain ⟨finish, hfinish⟩ : ∃ finish, finish = network.finish log task.request := ⟨_, rfl⟩
    have hcmd : task.cmd = .getNewInvisible := by rw [htask]; rfl
    have hcase : task.cmd.hasCase = true := by rw [hcmd]; rfl
    obtain ⟨parsed, hparsed⟩ := finish.handedTo_ok hcase
    have hrequest : Returns (service.requestBridge network bridgeAddress
        (·.commandGetNewInvisible)) log (parsed, finish.result)
          (log ++ [.transaction task.request finish]) := by
      subst hfinish htask
      exact requestBridge_returns hbridge hparsed
    -- without a successful response there are no indexes
    obtain ⟨indexes, hindexes⟩ : ∃ indexes, indexes = if finish.result = 0 then
        metersIndexes parsed.newInvisibleMetersResponse.bitmap else [] := ⟨_, rfl⟩
    have hlist : Returns (service.getNewInvisibleMetersIndexes network bridgeAddress) log indexes
        (log ++ [.transaction task.request finish]) := by
      refine hrequest.bind ?_
      rw [hindexes]
      dsimp only
      split <;> exact Returns.pure _ _
    have hnarrowed : indexes.Pairwise fun a b ↦ a.toNat < b.toNat ∨ b.toNat < 48 := by
      rw [hindexes]
      split
      · exact metersIndexes_narrowed _
      · exact List.Pairwise.nil
    obtain ⟨events, hconfirm, hinside, hfits⟩ := confirmInvisibleMeters_returns hwatched network
      hnarrowed (log ++ [.transaction task.request finish])
    refine ⟨⟨⟩, [.transaction task.request finish] ++ events, ?_, ?_⟩
    · rw [← List.append_assoc]
      exact hlist.bind hconfirm
    · have hfirst : Event.Fits (.transaction task.request finish) ↔ MapByMap 0 indexes := by
        have hrequested : task.request.cmd = .getNewInvisible := hcmd
        simp only [Event.Fits, hrequested, reduceCtorEq, false_implies, true_and, true_implies]
        rw [hindexes]
        split
        case isFalse hresult => simp [hresult, MapByMap]
        case isTrue hresult =>
          obtain ⟨pData, hresponse⟩ := Option.ne_none_iff_exists'.mp (finish.received hresult)
          have hbitmap : parsed.newInvisibleMetersResponse = parseMetersResponse pData := by
            have hparse : task.parseResponse pData = .ok parsed := by
              rw [Finish.handedTo, hresponse] at hparsed
              exact hparsed
            rw [ProtocolBridge.parseResponse, hcmd] at hparse
            obtain rfl := Except.ok.inj hparse
            rfl
          rw [hbitmap]
          simp [hresponse, hresult]
      have hnoPacket : Event.Inside (.transaction task.request finish) := by
        intro hpacket
        cases hpacket.symm.trans hcmd
      rw [Fitting, List.forall_mem_append, List.forall_mem_append, List.forall_mem_singleton,
        List.forall_mem_singleton, hfirst, hinside]
      exact (and_iff_right hnoPacket).trans (and_iff_left hfits).symm

/-! ## Quiet rounds -/

/-- Every bridge that the FRC data report as on is watched and has no new visible meters. -/
def QuietBridges (service : Service) (network : Network) : Prop :=
  ∀ addr, 1 ≤ addr → addr ≤ network.frcMaxNodeByte → (network.frcData addr).getLsbD 0 = true →
    (service.watchedProtocolBridges.find addr).isSome = true ∧
      (network.frcData addr).getLsbD 2 = false

theorem watches_ofNat_iff {addr : ℕ} (hle : addr ≤ network.frcMaxNodeByte) :
    service.Watches (BitVec.ofNat 8 addr) ↔
      (service.watchedProtocolBridges.find addr).isSome = true := by
  have hlt := network.frcMax_lt
  rw [Watches, BitVec.toNat_ofNat, Nat.mod_eq_of_lt (by omega)]

/-- At an active bridge the round looks for the bridge and for new visible meters. -/
theorem quietBridges_of_returns {events : List Event}
    (hreturns : Returns (service.getAndProcessDataFromMeters network) log ⟨⟩ (log ++ events))
    (hcase : ∀ event ∈ events, event.HasCase) : QuietBridges service network := by
  intro addr hge hle hon
  have hactive : (addr, BridgeStatusData.ofByte (network.frcData addr)) ∈
      network.activeBridgesStatusMap.entries :=
    mem_activeBridges.mpr ⟨⟨hge, hle⟩, hon, rfl⟩
  refine ⟨(watches_ofNat_iff hle).mp ?_, ?_⟩
  · obtain ⟨-, -, hwatched⟩ := getAndProcessDataFromMeters_leaves (fun _ _ _ h ↦ h) hactive
      (Or.inr sleepProtocolBridge_leaves) log _ _ hreturns
    exact hwatched
  · rw [← Bool.not_eq_true]
    intro hnew
    obtain ⟨added, hadded, event, hmem, huncased⟩ := getAndProcessDataFromMeters_leaves
      persistent_uncased hactive (Or.inl (processBridge_leaves_uncased hnew)) log _ _ hreturns
    obtain rfl := List.append_cancel_left hadded
    exact huncased (hcase event hmem)

theorem active_of_quietBridges (h : QuietBridges service network) {active : ℕ × BridgeStatusData}
    (hmem : active ∈ network.activeBridgesStatusMap.entries) :
    service.Watches (BitVec.ofNat 8 active.1) ∧ active.2.isNewVisible = false := by
  obtain ⟨⟨hge, hle⟩, hon, hstatus⟩ := mem_activeBridges.mp hmem
  obtain ⟨hwatched, hvisible⟩ := h active.1 hge hle hon
  exact ⟨(watches_ofNat_iff hle).mpr hwatched, by rw [hstatus]; exact hvisible⟩

/-- With such bridges a round makes no transaction of another kind than these. -/
theorem appends_of_quietBridges (h : QuietBridges service network) {J : List Event → Prop}
    (hpolicy : Policy J)
    (hinvisible : ∀ bridgeAddress status, service.Watches bridgeAddress → Appends J
      (fun _ ↦ False) (service.confirmNewInvisible network bridgeAddress status))
    (hpacket : ∀ request finish, request.cmd = .getFullPacket → J [.transaction request finish])
    (hpublished : ∀ bridgeAddress meterIndex header data text,
      J [.published bridgeAddress meterIndex header data text]) :
    Appends J (fun _ ↦ False) (service.getAndProcessDataFromMeters network) :=
  getAndProcessDataFromMeters_appends hpolicy (Or.inl fun _ ↦ active_of_quietBridges h)
    (fun _ hmem ↦ hinvisible _ _ (active_of_quietBridges h hmem).1)
    fun _ hmem _ meterIndex ↦ processMeter_appends hpolicy.toConcatenative
      (Or.inl (active_of_quietBridges h hmem).1) meterIndex hpacket (hpublished _ _)

theorem hasCase_of_quietBridges (h : QuietBridges service network) :
    Appends (fun events ↦ ∀ event ∈ events, event.HasCase) (fun _ ↦ False)
      (service.getAndProcessDataFromMeters network) := by
  refine appends_of_quietBridges h policy_hasCase (fun _ _ hwatched ↦ ?_) (fun request _ hcmd ↦ ?_)
    fun _ _ _ _ _ ↦ ?_
  · exact confirmNewInvisible_appends policy_hasCase (fun _ ↦ by simp [Event.HasCase])
      (fun request _ hcmd ↦ by simp [Event.HasCase, hcmd, Cmd.hasCase]) (Or.inl hwatched)
  · simp [Event.HasCase, hcmd, Cmd.hasCase]
  · simp [Event.HasCase]

theorem fitting_of_quietBridges (h : QuietBridges service network) :
    Appends Fitting (fun _ ↦ False) (service.getAndProcessDataFromMeters network) :=
  appends_of_quietBridges h policy_fitting
    (fun _ status hwatched ↦ confirmNewInvisible_fitting hwatched network status)
    (fun _ finish hcmd ↦ fitting_packet hcmd finish) fun _ _ _ _ _ ↦
      fitting_of_inside fun event hmem ↦ by
        obtain rfl := List.mem_singleton.mp hmem
        exact ⟨trivial, trivial⟩

/-- A round ends without an exception and without a write outside the arrays, after commands only
whose responses have a case, exactly if every active bridge is watched, none of them has new
visible meters, and the responses in the round that carry packets or new invisible meters are as
they must be. -/
theorem getAndProcessDataFromMeters_quiet_iff (service : Service) (network : Network)
    (log : List Event) :
    ∃ events, (service.getAndProcessDataFromMeters network log).final = log ++ events ∧
      ((Returns (service.getAndProcessDataFromMeters network) log ⟨⟩ (log ++ events) ∧
          ∀ event ∈ events, event.HasCase ∧ event.Inside) ↔
        QuietBridges service network ∧ ∀ event ∈ events, event.Fits) := by
  by_cases hquiet : QuietBridges service network
  · obtain ⟨_, events, hreturns, hcase⟩ := (hasCase_of_quietBridges hquiet).returns log
    obtain ⟨added, hfinal, hfitting, -⟩ := fitting_of_quietBridges hquiet log
    obtain rfl : events = added := List.append_cancel_left (hreturns.2.symm.trans hfinal)
    refine ⟨events, hfinal, ?_⟩
    rw [and_iff_right hquiet]
    refine Iff.trans ?_ hfitting
    constructor
    · exact fun h event hmem ↦ (h.2 event hmem).2
    · exact fun h ↦ ⟨hreturns, fun event hmem ↦ ⟨hcase event hmem, h event hmem⟩⟩
  · have happends : Appends (fun _ ↦ True) (fun _ ↦ True)
        (service.getAndProcessDataFromMeters network) :=
      getAndProcessDataFromMeters_appends policy_true (Or.inr liberal_true)
        (fun _ _ ↦ confirmNewInvisible_appends policy_true (fun _ ↦ trivial) (fun _ _ _ ↦ trivial)
          (Or.inr liberal_true.exception))
        fun _ _ _ meterIndex ↦ processMeter_appends policy_true.toConcatenative
          (Or.inr liberal_true.exception) meterIndex (fun _ _ _ ↦ trivial) fun _ _ _ ↦ trivial
    obtain ⟨events, hfinal, -, -⟩ := happends log
    refine ⟨events, hfinal, iff_of_false (fun h ↦ hquiet ?_) fun h ↦ hquiet h.1⟩
    exact quietBridges_of_returns h.1 fun event hmem ↦ (h.2 event hmem).1

/-- Node 2 reports itself on, and only bridge 1 is watched. -/
theorem unwatched_throws :
    ¬ ∃ events, Returns ((watching default).getAndProcessDataFromMeters
        (.answering (fun addr ↦ if addr = 2 then 1 else 0) fun _ ↦ .timeout)) [] ⟨⟩
          ([] ++ events) ∧ ∀ event ∈ events, event.HasCase := by
  rintro ⟨events, hreturns, hcase⟩
  have hwatched := (quietBridges_of_returns hreturns hcase 2 (by decide) (by decide) rfl).1
  have hnone : ((watching default).watchedProtocolBridges.find 2).isSome = false := rfl
  exact absurd (hwatched.symm.trans hnone) (by decide)

end Service

end IqrfDaemon.Bridge
