import IqrfDaemon.Bridge.Meters
import IqrfDaemon.Bridge.Packet
import IqrfDaemon.Bridge.Round

/-!
# What a round publishes

A packet is asked for, taken out of the object whatever came of it, and published.  So what
is published is what was received as long as every such transaction succeeds, with a
message that fits and has a header, behind a successful FRC command.
-/

namespace IqrfDaemon.Bridge

open Json Serializer Container Transition Traced ProtocolBridge

/-! ## Received packets -/

def messageAt (pData : ℕ → Byte) (i : ℕ) : Byte := pData (3 + i)

/-- The response has a message that fits and a header in it. -/
def HasPacket (pData : ℕ → Byte) : Prop :=
  messageLength pData ≤ vmbusMaxFrameLen ∧ HasHeader (messageAt pData) (messageLength pData)

def CarriesPacket (pData : ℕ → Byte) (header : PacketHeader) (data : List Byte) : Prop :=
  messageLength pData ≤ vmbusMaxFrameLen ∧
    ∃ p, FirstMField (messageAt pData) (messageLength pData) p ∧ p + 8 ≤ messageLength pData ∧
      header = headerAt (messageAt pData) p ∧ data = message pData

theorem CarriesPacket.hasPacket {pData : ℕ → Byte} {header : PacketHeader} {data : List Byte}
    (h : CarriesPacket pData header data) : HasPacket pData := by
  obtain ⟨hfits, p, hfirst, hroom, -, -⟩ := h
  exact ⟨hfits, p, hfirst, hroom⟩

section Congr

variable {msg msg' : ℕ → Byte} {msgLen p : ℕ}

theorem mFieldAt_congr (h : ∀ i < msgLen, msg i = msg' i) :
    MFieldAt msg msgLen p ↔ MFieldAt msg' msgLen p := by
  refine and_congr_right fun hlt ↦ ?_
  rw [h p (by omega), h (p + 1) hlt]

theorem firstMField_congr (h : ∀ i < msgLen, msg i = msg' i) :
    FirstMField msg msgLen p ↔ FirstMField msg' msgLen p := by
  simp only [FirstMField, mFieldAt_congr h]

theorem headerAt_congr (h : ∀ i < msgLen, msg i = msg' i) (hroom : p + 8 ≤ msgLen) :
    headerAt msg p = headerAt msg' p := by
  have hmanufacturer : ∀ i ∈ List.range 2, msg (p + i) = msg' (p + i) := fun i hi ↦
    h _ (by have := List.mem_range.mp hi; omega)
  have haddress : ∀ i ∈ List.range 6, msg (p + 2 + i) = msg' (p + 2 + i) := fun i hi ↦
    h _ (by have := List.mem_range.mp hi; omega)
  rw [headerAt, headerAt, List.map_congr_left hmanufacturer, List.map_congr_left haddress]

end Congr

theorem parseFullPacketResponse_header {r : PacketResponse} {p : ℕ}
    (hfirst : FirstMField r.byteAt r.msgLen.toNat p) :
    (parseFullPacketResponse r []).1 = headerAt r.byteAt p := by
  have hposition : getMFieldPosition r = p := by
    rcases getMFieldPosition_isMFieldPosition r with ⟨q, hq, hfirst'⟩ | ⟨-, hnever⟩
    · rw [hq, hfirst.unique hfirst']
    · exact absurd hfirst.1 (hnever p)
  rw [parseFullPacketResponse_run, hposition]
  rfl

theorem carriesPacket_of_hasPacket {pData : ℕ → Byte} (previous : PacketResponse)
    (h : HasPacket pData) :
    CarriesPacket pData
      (parseFullPacketResponse (parsePacketResponse pData previous []).1 []).1
      ((List.range (parsePacketResponse pData previous []).1.msgLen.toNat).map
        fun i : ℕ ↦ (parsePacketResponse pData previous []).1.vmbusMsg i) := by
  obtain ⟨hfits, p, hfirst, hroom⟩ := h
  have hmessage : ∀ i < messageLength pData,
      (parsePacketResponse pData previous []).1.byteAt i = messageAt pData i :=
    fun i hi ↦ parsePacketResponse_message pData previous hi
  refine ⟨hfits, p, hfirst, hroom, ?_, ?_⟩
  · rw [parseFullPacketResponse_header ((firstMField_congr hmessage).mpr hfirst)]
    exact headerAt_congr hmessage hroom
  · rw [parsePacketResponse_msgLen, message]
    exact List.map_congr_left fun i hi ↦ hmessage i (List.mem_range.mp hi)

/-! ## Published packets -/

def AsksForPacket (bridgeAddress meterIndex : Byte) (request : Request) : Prop :=
  request.nadr = bridgeAddress.setWidth 16 ∧ request.cmd = .getFullPacket ∧
    request.pData = [0x05, 0x00, meterIndex]

def Event.IsPublished : Event → Prop
  | .published _ _ _ _ _ => True
  | .frc _ | .transaction _ _ | .bitmapWrite _ => False

instance : DecidablePred Event.IsPublished
  | .published _ _ _ _ _ => isTrue trivial
  | .frc _ | .transaction _ _ | .bitmapWrite _ => isFalse fun h ↦ h

/-- The transaction asks for the packet that is published and receives it, after a successful
FRC command. -/
def Backs (frcResult : ℤ) : Event → Event → Prop
  | .transaction request finish, .published bridgeAddress meterIndex header data text =>
      frcResult = 0 ∧ AsksForPacket bridgeAddress meterIndex request ∧
        (∃ pData, finish.Succeeds pData ∧ CarriesPacket pData header data) ∧
          text = azureText header data
  | _, _ => False

/-- Whatever is published was received directly before. -/
def PublishesReceived (frcResult : ℤ) (events : List Event) : Prop :=
  Preceded Event.IsPublished (Backs frcResult) events

def Event.isUnanswered : Event → Bool
  | .transaction _ finish => finish.response.isNone
  | .frc _ | .bitmapWrite _ | .published _ _ _ _ _ => false

theorem Backs.isUnanswered {frcResult : ℤ} {d event : Event} (h : Backs frcResult d event) :
    d.isUnanswered = false := by
  cases d with
  | transaction request finish =>
      cases event with
      | published bridgeAddress meterIndex header data text =>
          obtain ⟨-, -, ⟨pData, hsuccess, -⟩, -⟩ := h
          rw [Event.isUnanswered, hsuccess.1]
          rfl
      | frc | transaction | bitmapWrite => exact h.elim
  | frc | bitmapWrite | published => rfl

theorem not_publishesReceived {frcResult : ℤ} {events : List Event} (i : ℕ)
    (hunanswered : events[i]?.any Event.isUnanswered = true)
    (hpublished : events[i + 1]?.any (fun event ↦ event.IsPublished) = true) :
    ¬ PublishesReceived frcResult events := by
  obtain ⟨d, hd, hunanswered⟩ := (Option.any_eq_true _ _).mp hunanswered
  obtain ⟨event, hevent, hpublished⟩ := (Option.any_eq_true _ _).mp hpublished
  obtain ⟨hlt, rfl⟩ := List.getElem?_eq_some_iff.mp hevent
  have hsplit : events = events.take (i + 1) ++ events[i + 1] :: events.drop (i + 2) := by
    rw [← List.drop_eq_getElem_cons hlt, List.take_append_drop]
  have htake : events.take (i + 1) = events.take i ++ [d] := by
    rw [List.take_add_one, hd, Option.toList_some]
  intro hreceived
  obtain ⟨earlier, d', heq, hbacks⟩ := hreceived _ _ _ hsplit (of_decide_eq_true hpublished)
  rw [htake] at heq
  obtain ⟨-, hlast⟩ := List.append_inj' heq rfl
  obtain rfl := List.singleton_inj.mp hlast
  cases hunanswered.symm.trans hbacks.isUnanswered

/-- Each transaction for a packet succeeds with one, after a successful FRC command. -/
def ReceivesPackets (frcResult : ℤ) (events : List Event) : Prop :=
  ∀ request finish, .transaction request finish ∈ events → request.cmd = .getFullPacket →
    frcResult = 0 ∧ ∃ pData, finish.Succeeds pData ∧ HasPacket pData

/-- Both mean the same for the events, of which the first is not published. -/
def Publishing (frcResult : ℤ) (events : List Event) : Prop :=
  (PublishesReceived frcResult events ↔ ReceivesPackets frcResult events) ∧
    ∀ event ∈ events.head?, ¬ event.IsPublished

section Publishing

variable {frcResult : ℤ}

theorem receivesPackets_append {a b : List Event} :
    ReceivesPackets frcResult (a ++ b) ↔
      ReceivesPackets frcResult a ∧ ReceivesPackets frcResult b := by
  constructor
  · exact fun h ↦ ⟨fun request finish hmem ↦ h request finish (List.mem_append_left b hmem),
      fun request finish hmem ↦ h request finish (List.mem_append_right a hmem)⟩
  · rintro ⟨ha, hb⟩ request finish hmem
    exact (List.mem_append.mp hmem).elim (ha request finish) (hb request finish)

theorem publishing_single {event : Event} (hpublished : ¬ event.IsPublished)
    (hpacket : ∀ request finish, event = .transaction request finish →
      request.cmd ≠ .getFullPacket) : Publishing frcResult [event] := by
  refine ⟨iff_of_true (preceded_of_not_needs ?_) ?_, ?_⟩
  · simpa using hpublished
  · intro request finish hmem hcmd
    exact absurd hcmd (hpacket request finish (List.mem_singleton.mp hmem).symm)
  · simpa using hpublished

theorem publishing_transaction {cmd : Cmd} (hcmd : cmd ≠ .getFullPacket) (request : Request)
    (finish : Finish) (h : request.cmd = cmd) :
    Publishing frcResult [.transaction request finish] :=
  publishing_single (fun h ↦ h) fun request' _ heq hpacket ↦ by
    cases heq
    exact hcmd (h.symm.trans hpacket)

theorem policy_publishing (frcResult : ℤ) : Policy (Publishing frcResult) where
  nil := ⟨iff_of_true (preceded_of_not_needs fun _ h ↦ nomatch h) fun _ _ h ↦ (nomatch h),
    fun _ h ↦ nomatch h⟩
  append := by
    rintro a b ⟨ha, hafirst⟩ ⟨hb, hbfirst⟩
    refine ⟨?_, fun event hevent ↦ ?_⟩
    · rw [PublishesReceived, preceded_append hbfirst, receivesPackets_append]
      exact and_congr ha hb
    · cases a with
      | nil => exact hbfirst event hevent
      | cons first rest => exact hafirst event hevent
  frc result := publishing_single (fun h ↦ h) fun _ _ h ↦ nomatch h
  transaction {bridge} finish hroutine := by
    have hne : bridge.cmd ≠ .getFullPacket := by
      intro hpacket
      rw [hpacket] at hroutine
      cases hroutine
    exact publishing_transaction hne bridge.request finish rfl

theorem liberal_publishing (frcResult : ℤ) : Liberal (Publishing frcResult) fun _ ↦ True where
  bitmapWrite index := publishing_single (fun h ↦ h) fun _ _ h ↦ nomatch h
  timeout finish hcmd := publishing_transaction (by decide) _ finish hcmd
  exception _ := trivial

end Publishing

/-! ## The transactions for packets -/

theorem highByte_setWidth (b : Byte) : highByte (b.setWidth 16) = 0 := by
  have hlt := b.isLt
  refine BitVec.eq_of_toNat_eq ?_
  simp [highByte, Nat.shiftRight_eq_div_pow]
  omega

theorem lowByte_setWidth (b : Byte) : lowByte (b.setWidth 16) = b := by
  refine BitVec.eq_of_toNat_eq ?_
  simp [lowByte]

namespace Service

variable {service : Service} {network : Network} {bridgeAddress : Byte} {bridge : ProtocolBridge}

def packetTask (meterIndex : Byte) (bridge : ProtocolBridge) : ProtocolBridge :=
  (bridge.commandGetFullPacket (meterIndex.setWidth 16)).setHwpid 0xFFFF

theorem asksForPacket_packetTask
    (hwatched : service.watchedProtocolBridges.find bridgeAddress.toNat = some bridge)
    (meterIndex : Byte) :
    AsksForPacket bridgeAddress meterIndex (packetTask meterIndex bridge).request := by
  have haddress : bridge.address = bridgeAddress.setWidth 16 := address_of_watched hwatched
  refine ⟨haddress, rfl, ?_⟩
  change [0x05, highByte (meterIndex.setWidth 16), lowByte (meterIndex.setWidth 16)] = _
  rw [highByte_setWidth, lowByte_setWidth]

theorem processMeter_returns
    (hwatched : service.watchedProtocolBridges.find bridgeAddress.toNat = some bridge)
    (network : Network) (meterIndex : Byte) (s : List Event) :
    ∃ parsed, (network.finish s (packetTask meterIndex bridge).request).handedTo
          (packetTask meterIndex bridge) = .ok parsed ∧
      Returns (service.processMeter network bridgeAddress meterIndex) s ⟨⟩
        (s ++ [.transaction (packetTask meterIndex bridge).request
            (network.finish s (packetTask meterIndex bridge).request),
          publication bridgeAddress meterIndex parsed.fullPacketResponse]) := by
  have hcase : (packetTask meterIndex bridge).cmd.hasCase = true := rfl
  obtain ⟨parsed, hparsed⟩ :=
    (network.finish s (packetTask meterIndex bridge).request).handedTo_ok hcase
  have hpacket : Returns (service.getFullPacketResponse network bridgeAddress meterIndex) s
      parsed.fullPacketResponse (s ++ [.transaction (packetTask meterIndex bridge).request
        (network.finish s (packetTask meterIndex bridge).request)]) :=
    (requestBridge_returns hwatched hparsed).bind (Returns.pure _ _)
  refine ⟨parsed, hparsed, ?_⟩
  rw [List.append_cons]
  exact hpacket.bind (processPacket_returns bridgeAddress meterIndex parsed.fullPacketResponse _)

/-- The object holds the packet only if it was received. -/
theorem processMeter_publishing (network : Network) (meterIndex : Byte) :
    Appends (Publishing network.frcResult) (fun _ ↦ True)
      (service.processMeter network bridgeAddress meterIndex) := by
  cases hwatched : service.watchedProtocolBridges.find bridgeAddress.toNat with
  | none =>
      have hthrows : ∀ s, Throws (service.processMeter network bridgeAddress meterIndex) s
          (.logicError "_Map_base::at") s := fun s ↦ (getDpa_throws hwatched s).bind.bind.bind
      refine Appends.throwing fun s ↦
        ⟨.logicError "_Map_base::at", [], ?_, (policy_publishing _).nil, trivial⟩
      rw [List.append_nil]
      exact hthrows s
  | some bridge =>
      refine Appends.returning fun s ↦ ?_
      obtain ⟨parsed, hparsed, hreturns⟩ := processMeter_returns hwatched network meterIndex s
      refine ⟨⟨⟩, _, hreturns, ?_, ?_⟩
      · rw [PublishesReceived, preceded_pair (fun h ↦ h) trivial]
        constructor
        · -- the transaction is the only one in front of what is published
          rintro ⟨hfrc, -, ⟨pData, hsuccess, hcarries⟩, -⟩ request finish hmem -
          obtain ⟨rfl, rfl⟩ : request = (packetTask meterIndex bridge).request ∧
              finish = network.finish s (packetTask meterIndex bridge).request := by
            simpa [publication] using hmem
          exact ⟨hfrc, pData, hsuccess, hcarries.hasPacket⟩
        · intro hreceives
          obtain ⟨hfrc, pData, hsuccess, hpacket⟩ := hreceives _ _ List.mem_cons_self rfl
          rw [hsuccess.handedTo] at hparsed
          obtain rfl := Except.ok.inj hparsed
          exact ⟨hfrc, asksForPacket_packetTask hwatched meterIndex,
            ⟨pData, hsuccess, carriesPacket_of_hasPacket _ hpacket⟩, rfl⟩
      · simp [Event.IsPublished]

/-- In a run, whatever is published was received directly before, exactly if each transaction for
a packet succeeds with one behind a successful FRC command. -/
theorem published_received_iff (service : Service) (network : Network) (log : List Event) :
    ∃ events, (service.getAndProcessDataFromMeters network log).final = log ++ events ∧
      (PublishesReceived network.frcResult events ↔
        ReceivesPackets network.frcResult events) := by
  have happends : Appends (Publishing network.frcResult) (fun _ ↦ True)
      (service.getAndProcessDataFromMeters network) :=
    getAndProcessDataFromMeters_appends (policy_publishing _) (Or.inr (liberal_publishing _))
      (fun _ _ ↦ confirmNewInvisible_appends (policy_publishing _)
        (liberal_publishing _).bitmapWrite (publishing_transaction (by decide))
        (Or.inr fun _ ↦ trivial))
      fun _ _ _ meterIndex ↦ processMeter_publishing network meterIndex
  obtain ⟨events, hfinal, ⟨hiff, -⟩, -⟩ := happends log
  exact ⟨events, hfinal, hiff⟩

/-- Bridge 1 reports data of meter 0, and the transaction for its packet fails. -/
def losing : Network :=
  .answering (fun addr ↦ if addr = 1 then 3 else 0) fun request ↦
    if request.cmd = .getNewDataInfo then .success (report 0) else .timeout

/-- The content of the object is published, of which nothing was received. -/
theorem published_unreceived :
    ¬ PublishesReceived losing.frcResult
      ((watching default).getAndProcessDataFromMeters losing []).final :=
  not_publishesReceived 2 (by decide +kernel) (by decide +kernel)

end Service

end IqrfDaemon.Bridge
