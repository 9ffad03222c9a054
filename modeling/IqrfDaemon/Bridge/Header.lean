import IqrfDaemon.Bridge.Service

/-!
# The header of a packet

The M-field are two bytes of the message.  The search finds the first place where they
stand one behind the other, and the header is copied from there, or from in front of the
message if there is no such place.
-/

namespace IqrfDaemon.Bridge

open Json Serializer Transition Traced

/-! ## The M-field -/

def MFieldAt (msg : ℕ → Byte) (msgLen p : ℕ) : Prop :=
  p + 1 < msgLen ∧ msg p = 0x2D ∧ msg (p + 1) = 0x2C

def FirstMField (msg : ℕ → Byte) (msgLen p : ℕ) : Prop :=
  MFieldAt msg msgLen p ∧ ∀ q < p, ¬ MFieldAt msg msgLen q

theorem FirstMField.unique {msg : ℕ → Byte} {msgLen p q : ℕ} (hp : FirstMField msg msgLen p)
    (hq : FirstMField msg msgLen q) : p = q :=
  le_antisymm (not_lt.mp fun h ↦ hp.2 q h hq.1) (not_lt.mp fun h ↦ hq.2 p h hp.1)

/-- The first M-field has room for the header behind it. -/
def HasHeader (msg : ℕ → Byte) (msgLen : ℕ) : Prop :=
  ∃ p, FirstMField msg msgLen p ∧ p + 8 ≤ msgLen

def PacketResponse.byteAt (r : PacketResponse) (i : ℕ) : Byte := r.vmbusMsg i

/-- The position of the first M-field, or -1 if there is none. -/
def IsMFieldPosition (r : PacketResponse) (position : ℤ) : Prop :=
  (∃ p : ℕ, position = p ∧ FirstMField r.byteAt r.msgLen.toNat p) ∨
    position = -1 ∧ ∀ p, ¬ MFieldAt r.byteAt r.msgLen.toNat p

section Search

variable {msg : ℤ → Byte}

/-- The remembered position is the one before the next byte if and only if the first byte of an
M-field stands there. -/
def Remembers (msg : ℤ → Byte) (n : ℕ) (firstBytePos : ℤ) : Prop :=
  firstBytePos < n ∧ (0 < n → (firstBytePos = n - 1 ↔ msg (n - 1) = 0x2D))

theorem Remembers.next {n : ℕ} {firstBytePos : ℤ} (h : Remembers msg n firstBytePos) :
    Remembers msg (n + 1) (if msg n = 0x2D then n else firstBytePos) := by
  have hbefore : ((n + 1 : ℕ) : ℤ) - 1 = n := by omega
  obtain ⟨hlt, -⟩ := h
  rw [Remembers, hbefore]
  split
  case isTrue hfirst => exact ⟨by omega, fun _ ↦ iff_of_true rfl hfirst⟩
  case isFalse hfirst => exact ⟨by omega, fun _ ↦ iff_of_false (by omega) hfirst⟩

def Pair (msg : ℤ → Byte) (p : ℕ) : Prop := msg p = 0x2D ∧ msg (p + 1 : ℕ) = 0x2C

theorem mFieldLoop_spec {n : ℕ} (k : ℕ) {firstBytePos : ℤ} (h : Remembers msg n firstBytePos) :
    (∃ p : ℕ, mFieldLoop msg (List.range' n k) firstBytePos = p ∧ n ≤ p + 1 ∧ p + 1 < n + k ∧
        Pair msg p ∧ ∀ q, n ≤ q + 1 → q < p → ¬ Pair msg q) ∨
      mFieldLoop msg (List.range' n k) firstBytePos = -1 ∧
        ∀ q, n ≤ q + 1 → q + 1 < n + k → ¬ Pair msg q := by
  induction k generalizing n firstBytePos with
  | zero => exact Or.inr ⟨rfl, fun q hge hlt ↦ by omega⟩
  | succ k ih =>
      rw [List.range'_succ, mFieldLoop]
      split
      case isTrue hfound =>
        obtain ⟨hsecond, hpos, hne⟩ := hfound
        obtain ⟨p, rfl⟩ := Nat.exists_eq_succ_of_ne_zero hne
        have hbefore : ((p + 1 : ℕ) : ℤ) - 1 = p := by omega
        have hfirst := (h.2 (Nat.succ_pos p)).mp hpos
        rw [hbefore] at hfirst hpos
        exact Or.inl ⟨p, hpos, le_rfl, by omega, ⟨hfirst, hsecond⟩, fun q hge hlt ↦ by omega⟩
      case isFalse hnot =>
        -- no M-field ends at the present byte
        have hnone : ∀ q, n = q + 1 → ¬ Pair msg q := by
          rintro q rfl ⟨hfirst, hsecond⟩
          have hbefore : ((q + 1 : ℕ) : ℤ) - 1 = q := by omega
          have hremembers := h.2 (Nat.succ_pos q)
          rw [hbefore] at hremembers hnot
          exact hnot ⟨hsecond, hremembers.mpr hfirst, Nat.succ_ne_zero q⟩
        rcases ih h.next with ⟨p, hloop, hge, hlt, hpair, hfirst⟩ | ⟨hloop, hnever⟩
        · refine Or.inl ⟨p, hloop, by omega, by omega, hpair, fun q hq hqp ↦ ?_⟩
          rcases hq.eq_or_lt with heq | hgt
          · exact hnone q heq
          · exact hfirst q hgt hqp
        · refine Or.inr ⟨hloop, fun q hq hlt ↦ ?_⟩
          rcases hq.eq_or_lt with heq | hgt
          · exact hnone q heq
          · exact hnever q hgt (by omega)

end Search

theorem getMFieldPosition_isMFieldPosition (r : PacketResponse) :
    IsMFieldPosition r (getMFieldPosition r) := by
  have hstart : Remembers r.vmbusMsg 0 (-1) := ⟨by decide, fun h ↦ absurd h (lt_irrefl 0)⟩
  rw [getMFieldPosition, List.range_eq_range']
  rcases mFieldLoop_spec r.msgLen.toNat hstart with
    ⟨p, hloop, -, hlt, hpair, hfirst⟩ | ⟨hloop, hnever⟩
  · refine Or.inl ⟨p, hloop, ⟨by omega, hpair⟩, fun q hq hat ↦ ?_⟩
    exact hfirst q (Nat.zero_le _) hq hat.2
  · refine Or.inr ⟨hloop, fun q hat ↦ ?_⟩
    exact hnever q (Nat.zero_le _) (by have := hat.1; omega) hat.2

/-! ## The copied header -/

def headerAt (msg : ℕ → Byte) (p : ℕ) : PacketHeader :=
  ⟨(List.range 2).map fun i ↦ msg (p + i), (List.range 6).map fun i ↦ msg (p + 2 + i)⟩

theorem parseFullPacketResponse_run (r : PacketResponse) :
    parseFullPacketResponse r [] =
      (⟨(List.range 2).map fun i : ℕ ↦ r.vmbusMsg (getMFieldPosition r + i),
          (List.range 6).map fun i : ℕ ↦ r.vmbusMsg (getMFieldPosition r + 2 + i)⟩,
        ((List.range 2).map fun i : ℕ ↦ .readMsg (getMFieldPosition r + i)) ++
          (List.range 6).map fun i : ℕ ↦ .readMsg (getMFieldPosition r + 2 + i)) := rfl

def HeaderInside (r : PacketResponse) : Prop :=
  ∀ i : ℤ, .readMsg i ∈ (parseFullPacketResponse r []).2 → 0 ≤ i ∧ i < r.msgLen.toNat

/-- The copies take eight bytes from the position on. -/
theorem headerInside_iff (r : PacketResponse) :
    HeaderInside r ↔ 0 ≤ getMFieldPosition r ∧ getMFieldPosition r + 8 ≤ r.msgLen.toNat := by
  rw [HeaderInside, parseFullPacketResponse_run]
  simp only [List.mem_append, List.mem_map, List.mem_range, Access.readMsg.injEq]
  constructor
  · intro h
    have hfirst := h (getMFieldPosition r + (0 : ℕ)) (Or.inl ⟨0, by decide, rfl⟩)
    have hlast := h (getMFieldPosition r + 2 + (5 : ℕ)) (Or.inr ⟨5, by decide, rfl⟩)
    omega
  · rintro ⟨hge, hle⟩ i (⟨j, hj, rfl⟩ | ⟨j, hj, rfl⟩)
    · omega
    · omega

theorem headerInside_iff_hasHeader (r : PacketResponse) :
    HeaderInside r ↔ HasHeader r.byteAt r.msgLen.toNat := by
  rw [headerInside_iff]
  constructor
  · rintro ⟨hge, hle⟩
    rcases getMFieldPosition_isMFieldPosition r with ⟨p, hp, hfirst⟩ | ⟨hp, -⟩
    · exact ⟨p, hfirst, by omega⟩
    · omega
  · rintro ⟨p, hfirst, hle⟩
    rcases getMFieldPosition_isMFieldPosition r with ⟨q, hq, hfirst'⟩ | ⟨-, hnever⟩
    · obtain rfl : p = q := hfirst.unique hfirst'
      omega
    · exact absurd hfirst.1 (hnever p)

def publication (bridgeAddress meterIndex : Byte) (r : PacketResponse) : Event :=
  let packetHeader := (parseFullPacketResponse r []).1
  let data := (List.range r.msgLen.toNat).map fun i : ℕ ↦ r.vmbusMsg i
  .published bridgeAddress meterIndex packetHeader data (azureText packetHeader data)

/-- A packet is published in any case. -/
theorem processPacket_returns (bridgeAddress meterIndex : Byte) (r : PacketResponse)
    (log : List Event) :
    Returns (processPacket bridgeAddress meterIndex r) log ⟨⟩
      (log ++ [publication bridgeAddress meterIndex r]) :=
  emit_returns _

/-- The search is right for every packet.  The header is copied from the message only, or else
nothing is published, exactly if the first M-field has eight bytes in the message. -/
theorem packetHeader_inside_iff (r : PacketResponse) (bridgeAddress meterIndex : Byte)
    (log : List Event) :
    (IsMFieldPosition r (getMFieldPosition r) ∧
        (HeaderInside r ∨ Returns (processPacket bridgeAddress meterIndex r) log ⟨⟩ log)) ↔
      HasHeader r.byteAt r.msgLen.toNat := by
  have hpublished : ¬ Returns (processPacket bridgeAddress meterIndex r) log ⟨⟩ log := by
    intro hnothing
    have hreturns := processPacket_returns bridgeAddress meterIndex r log
    simpa using (hnothing.unique hreturns).2
  rw [and_iff_right (getMFieldPosition_isMFieldPosition r), or_iff_left hpublished,
    headerInside_iff_hasHeader]

def zeros : PacketResponse := { (default : PacketResponse) with msgLen := 45 }

theorem packetHeader_outside :
    ¬ (IsMFieldPosition zeros (getMFieldPosition zeros) ∧
        (HeaderInside zeros ∨ Returns (processPacket 1 0 zeros) [] ⟨⟩ [])) := by
  have hposition : getMFieldPosition zeros = -1 := by decide
  rintro ⟨-, hinside | hnothing⟩
  · have hge := ((headerInside_iff zeros).mp hinside).1
    rw [hposition] at hge
    exact absurd hge (by decide)
  · have hreturns := processPacket_returns 1 0 zeros []
    simpa using (hnothing.unique hreturns).2

end IqrfDaemon.Bridge
