import IqrfDaemon.Bridge.Protocol

/-!
# Packets inside and outside their arrays

The length of a message is the first byte of the response less seven, as a byte: it
wraps below seven, and may exceed the array of the message and that of the response.
-/

namespace IqrfDaemon.Bridge

open Json Serializer

variable (pData : ℕ → Byte)

/-- `msgLen` of the packet in a response. -/
def messageLength : ℕ := (pData 0 - 1 - 2 - 4).toNat

theorem messageLength_eq : messageLength pData = ((pData 0).toNat + 249) % 256 := by
  have hlt := (pData 0).isLt
  have hone : (1 : Byte).toNat = 1 := rfl
  have htwo : (2 : Byte).toNat = 2 := rfl
  have hfour : (4 : Byte).toNat = 4 := rfl
  rw [messageLength]
  simp only [BitVec.toNat_sub, hone, htwo, hfour]
  omega

theorem messageLength_le_iff :
    messageLength pData ≤ vmbusMaxFrameLen ↔ 7 ≤ (pData 0).toNat ∧ (pData 0).toNat ≤ 52 := by
  have hlt := (pData 0).isLt
  rw [messageLength_eq, vmbusMaxFrameLen]
  omega

/-! ## The accesses of the parser -/

theorem copyMessage_accesses (indexes : List ℕ) (vmbusMsg : ℤ → Byte) (log : List Access) :
    (copyMessage pData indexes vmbusMsg log).2 =
      log ++ indexes.flatMap fun i ↦ [.readData (3 + i), .writeMsg i] := by
  induction indexes generalizing vmbusMsg log with
  | nil => exact (List.append_nil log).symm
  | cons i rest ih =>
      calc
        (copyMessage pData (i :: rest) vmbusMsg log).2 =
            (copyMessage pData rest (Function.update vmbusMsg i (pData (3 + i)))
              (log ++ [.readData (3 + i)] ++ [.writeMsg i])).2 := rfl
        _ = log ++ (i :: rest).flatMap fun i ↦ [.readData (3 + i), .writeMsg i] := by
          rw [ih]
          simp

/-- Everything that is read and written for a packet, in order. -/
theorem parsePacketResponse_accesses (previous : PacketResponse) :
    (parsePacketResponse pData previous []).2 =
      [.readData 0, .readData 2, .readData 3] ++
        ((List.range (messageLength pData)).flatMap
          fun i ↦ [.readData (3 + i), .writeMsg i]) ++
        [.readData (3 + messageLength pData), .readData (4 + messageLength pData),
          .readData (5 + messageLength pData), .readData (6 + messageLength pData)] := by
  have hcopy := copyMessage_accesses pData (List.range (messageLength pData)) previous.vmbusMsg
    [.readData 0, .readData 2, .readData 3]
  have hparse : (parsePacketResponse pData previous []).2 =
      (copyMessage pData (List.range (messageLength pData)) previous.vmbusMsg
          [.readData 0, .readData 2, .readData 3]).2 ++ [.readData (3 + messageLength pData)] ++
        [.readData (4 + messageLength pData)] ++ [.readData (5 + messageLength pData)] ++
        [.readData (6 + messageLength pData)] := rfl
  rw [hparse, hcopy]
  simp

theorem parsePacketResponse_inside_iff (previous : PacketResponse) :
    (∀ access ∈ (parsePacketResponse pData previous []).2, access.Inside) ↔
      messageLength pData ≤ vmbusMaxFrameLen := by
  rw [parsePacketResponse_accesses]
  constructor
  · intro h
    by_contra hlong
    have hmem : Access.writeMsg (vmbusMaxFrameLen : ℕ) ∈
        (List.range (messageLength pData)).flatMap
          fun i ↦ [Access.readData (3 + i), .writeMsg i] :=
      List.mem_flatMap.mpr ⟨vmbusMaxFrameLen, List.mem_range.mpr (by omega), by simp⟩
    have hinside := h _ (List.mem_append_left _ (List.mem_append_right _ hmem))
    exact absurd hinside.2 (lt_irrefl _)
  · intro hle access haccess
    have hdata : dpaMaxDataLength = 56 := rfl
    have hframe : vmbusMaxFrameLen = 45 := rfl
    rw [hframe] at hle
    simp only [List.mem_append, List.mem_cons, List.not_mem_nil, or_false] at haccess
    rcases haccess with ((rfl | rfl | rfl) | hcopy) | rfl | rfl | rfl | rfl
    case inl.inr =>
      obtain ⟨i, hi, hpair⟩ := List.mem_flatMap.mp hcopy
      have hi := List.mem_range.mp hi
      rcases List.mem_pair.mp hpair with rfl | rfl
      · change 3 + i < dpaMaxDataLength
        omega
      · change (0 : ℤ) ≤ i ∧ (i : ℤ) < vmbusMaxFrameLen
        omega
    all_goals
      change _ < dpaMaxDataLength
      omega

/-- Both parsers of packets access only what is inside the arrays exactly if the first byte
of the response is neither below seven nor above 52. -/
theorem parsePackets_inside_iff (bridge : ProtocolBridge) :
    ((∀ access ∈ (bridge.parseGetCompactPacketResponse pData []).2, access.Inside) ∧
        ∀ access ∈ (bridge.parseGetFullPacketResponse pData []).2, access.Inside) ↔
      7 ≤ (pData 0).toNat ∧ (pData 0).toNat ≤ 52 := by
  have hcompact : (bridge.parseGetCompactPacketResponse pData []).2 =
      (parsePacketResponse pData bridge.compactPacketResponse []).2 := rfl
  have hfull : (bridge.parseGetFullPacketResponse pData []).2 =
      (parsePacketResponse pData bridge.fullPacketResponse []).2 := rfl
  rw [hcompact, hfull, parsePacketResponse_inside_iff, parsePacketResponse_inside_iff, and_self,
    messageLength_le_iff]

/-- A response whose first byte is 60 announces a message of 53 bytes. -/
theorem parsePackets_outside :
    ¬ ((∀ access ∈ ((default : ProtocolBridge).parseGetCompactPacketResponse (fun _ ↦ 60) []).2,
          access.Inside) ∧
        ∀ access ∈ ((default : ProtocolBridge).parseGetFullPacketResponse (fun _ ↦ 60) []).2,
          access.Inside) := by
  rintro ⟨hcompact, -⟩
  have hle : messageLength (fun _ ↦ 60) ≤ vmbusMaxFrameLen :=
    (parsePacketResponse_inside_iff _ (default : ProtocolBridge).compactPacketResponse).mp hcompact
  exact absurd hle (by decide)

/-! ## The parsed packet -/

theorem copyMessage_value (indexes : List ℕ) (vmbusMsg : ℤ → Byte) (log : List Access) (j : ℕ) :
    (copyMessage pData indexes vmbusMsg log).1 j =
      if j ∈ indexes then pData (3 + j) else vmbusMsg j := by
  induction indexes generalizing vmbusMsg log with
  | nil => rfl
  | cons i rest ih =>
      have hstep : (copyMessage pData (i :: rest) vmbusMsg log).1 =
          (copyMessage pData rest (Function.update vmbusMsg i (pData (3 + i)))
            (log ++ [.readData (3 + i)] ++ [.writeMsg i])).1 := rfl
      rw [hstep, ih]
      by_cases hrest : j ∈ rest
      · simp [hrest]
      · by_cases hij : j = i
        · simp [hij]
        · simp [hrest, hij]

/-- The message of the packet that a response carries. -/
def message : List Byte := (List.range (messageLength pData)).map fun i ↦ pData (3 + i)

theorem parsePacketResponse_message (previous : PacketResponse) {i : ℕ}
    (hi : i < messageLength pData) :
    (parsePacketResponse pData previous []).1.vmbusMsg i = pData (3 + i) := by
  have hvalue := copyMessage_value pData (List.range (messageLength pData)) previous.vmbusMsg
    [.readData 0, .readData 2, .readData 3] i
  rw [if_pos (List.mem_range.mpr hi)] at hvalue
  exact hvalue

@[simp] theorem parsePacketResponse_msgLen (previous : PacketResponse) :
    (parsePacketResponse pData previous []).1.msgLen.toNat = messageLength pData := rfl

end IqrfDaemon.Bridge
