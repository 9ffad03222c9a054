import IqrfDaemon.Interaction.Session
import IqrfDaemon.Udp.Messaging

/-!
# Forwarding DPA transactions

In forwarding mode the DPA handler works on a `UdpMessagingTransaction` that hands
every call on to the transaction it forwards and copies the messages to the UDP
queue.  The handler itself is outside the daemon: it makes finitely many calls, each
of which may depend on the answers so far.
-/

namespace IqrfDaemon.Udp

open Crc (Byte)
open Interaction

/-! ## Transactions -/

/-- The members of the DPA library's enumeration that the daemon names, and the rest. -/
inductive DpaTransferStatus
  | kAborted
  | kError
  | other (code : ℕ)
  deriving DecidableEq

/-- Calls of the virtual functions of `DpaTransaction`. -/
inductive Callback
  | getMessage
  | getTimeout
  | processConfirmationMessage (confirmation : DpaMessage)
  | processResponseMessage (response : DpaMessage)
  | processFinish (status : DpaTransferStatus)
  deriving DecidableEq

inductive Answer
  | message (dpaMessage : DpaMessage)
  | timeout (millis : ℤ)
  | done
  deriving DecidableEq

def Callback.isProcess : Callback → Bool
  | getMessage | getTimeout => false
  | processConfirmationMessage _ | processResponseMessage _ | processFinish _ => true

/-- The DPA messages that a call brings along. -/
def Callback.messages : Callback → List DpaMessage
  | processConfirmationMessage confirmation => [confirmation]
  | processResponseMessage response => [response]
  | getMessage | getTimeout | processFinish _ => []

/-- What `ExecuteDpaTransaction` does with its argument. -/
abbrev DpaHandler := Caller Callback Answer

/-- An implementation of `DpaTransaction` by a client of the controller. -/
structure DpaTransaction (σ : Type) where
  getMessage : σ → DpaMessage
  getTimeout : σ → ℤ
  processConfirmationMessage : DpaMessage → σ → σ
  processResponseMessage : DpaMessage → σ → σ
  processFinish : DpaTransferStatus → σ → σ

/-- The transaction that a pointer to `DpaTransaction` points to. -/
inductive TransactionPtr
  | client
  | operationalTransaction
  deriving DecidableEq

/-- The objects a call can reach: the client's transaction, with the `process`
callbacks it has received, and `UdpMessaging` if it is configured. -/
structure Objects (σ : Type) where
  client : σ
  received : List Callback
  udp : Option UdpMessaging

def UdpMessaging.sendDpaMessageToUdp (s : UdpMessaging) (dpaMessage : DpaMessage) :
    UdpMessaging :=
  let message : List Byte := dpaMessage
  let udpMessage : List Byte := List.replicate (iqrfUdpHeaderSize + iqrfUdpCrcSize) 0
  let udpMessage := udpMessage.set UdpHeader.cmd.index iqrfUdpIqrfSpiData
  s.pushToQueue (encodeMessageUdp udpMessage message)

def Objects.sendDpaMessageToUdp {σ : Type} (w : Objects σ) (dpaMessage : DpaMessage) :
    Objects σ :=
  { w with udp := w.udp.map fun udp ↦ udp.sendDpaMessageToUdp dpaMessage }

variable {σ : Type} (t : DpaTransaction σ)

/-- A call on the client's transaction. -/
def DpaTransaction.call (c : Callback) (w : Objects σ) : Answer × Objects σ :=
  let received := if c.isProcess then w.received ++ [c] else w.received
  match c with
  | .getMessage => (.message (t.getMessage w.client), w)
  | .getTimeout => (.timeout (t.getTimeout w.client), w)
  | .processConfirmationMessage confirmation =>
      (.done, { w with
        client := t.processConfirmationMessage confirmation w.client, received := received })
  | .processResponseMessage response =>
      (.done, { w with
        client := t.processResponseMessage response w.client, received := received })
  | .processFinish status =>
      (.done, { w with client := t.processFinish status w.client, received := received })

namespace UdpMessagingTransaction

/-- The effect on the forwarded transaction, if the pointer is set. -/
def forward (this : UdpMessagingTransaction) (c : Callback) (w : Objects σ) : Objects σ :=
  if this.forwarded then (t.call c w).2 else w

def getMessage (this : UdpMessagingTransaction) (w : Objects σ) : DpaMessage :=
  if this.forwarded then t.getMessage w.client else this.message

def getTimeout (this : UdpMessagingTransaction) (w : Objects σ) : ℤ :=
  if this.forwarded then t.getTimeout w.client else -1

def processConfirmationMessage (confirmation : DpaMessage) (this : UdpMessagingTransaction)
    (w : Objects σ) : Objects σ :=
  (this.forward t (.processConfirmationMessage confirmation) w).sendDpaMessageToUdp confirmation

def processResponseMessage (response : DpaMessage) (this : UdpMessagingTransaction)
    (w : Objects σ) : Objects σ :=
  (this.forward t (.processResponseMessage response) w).sendDpaMessageToUdp response

def processFinish (status : DpaTransferStatus) (this : UdpMessagingTransaction)
    (w : Objects σ) : UdpMessagingTransaction × Objects σ :=
  ({ this with success := some (status = .kAborted) }, this.forward t (.processFinish status) w)

def call (c : Callback) (w : UdpMessagingTransaction × Objects σ) :
    Answer × UdpMessagingTransaction × Objects σ :=
  match c with
  | .getMessage => (.message (w.1.getMessage t w.2), w)
  | .getTimeout => (.timeout (w.1.getTimeout t w.2), w)
  | .processConfirmationMessage confirmation =>
      (.done, w.1, w.1.processConfirmationMessage t confirmation w.2)
  | .processResponseMessage response => (.done, w.1, w.1.processResponseMessage t response w.2)
  | .processFinish status => (.done, w.1.processFinish t status w.2)

end UdpMessagingTransaction

/-- A call through a pointer; that of `UdpMessaging` exists together with it. -/
def TransactionPtr.call (c : Callback) : TransactionPtr → Objects σ → Answer × Objects σ
  | client, w => t.call c w
  | operationalTransaction, w =>
      match w.udp with
      | none => (.done, w)
      | some udp =>
          let (answer, this, w) := UdpMessagingTransaction.call t c (udp.operationalTransaction, w)
          (answer, { w with udp := w.udp.map fun udp ↦ { udp with operationalTransaction := this } })

/-- `getDpaTransactionForward` forwards the request, except for the transaction of
`UdpMessaging`, of which it returns a copy. -/
def getDpaTransactionForward (forwarded : TransactionPtr) (w : Objects σ) :
    UdpMessagingTransaction × Objects σ :=
  match forwarded with
  | .client => (.create true, w.sendDpaMessageToUdp (t.getMessage w.client))
  | .operationalTransaction =>
      ((w.udp.map UdpMessaging.operationalTransaction).getD (.create false), w)

/-! ## Messages copied to the UDP queue -/

def Objects.sendAll (w : Objects σ) (dpaMessages : List DpaMessage) : Objects σ :=
  dpaMessages.foldl Objects.sendDpaMessageToUdp w

@[simp]
theorem Objects.sendAll_nil (w : Objects σ) : w.sendAll [] = w := rfl

theorem Objects.sendAll_append (w : Objects σ) (first rest : List DpaMessage) :
    w.sendAll (first ++ rest) = (w.sendAll first).sendAll rest :=
  List.foldl_append

@[simp]
theorem Objects.client_sendAll (w : Objects σ) (dpaMessages : List DpaMessage) :
    (w.sendAll dpaMessages).client = w.client := by
  induction dpaMessages generalizing w with
  | nil => rfl
  | cons m rest ih => exact ih (w.sendDpaMessageToUdp m)

@[simp]
theorem Objects.received_sendAll (w : Objects σ) (dpaMessages : List DpaMessage) :
    (w.sendAll dpaMessages).received = w.received := by
  induction dpaMessages generalizing w with
  | nil => rfl
  | cons m rest ih => exact ih (w.sendDpaMessageToUdp m)

theorem DpaTransaction.call_sendDpaMessageToUdp (c : Callback) (w : Objects σ)
    (m : DpaMessage) :
    t.call c (w.sendDpaMessageToUdp m) =
      ((t.call c w).1, (t.call c w).2.sendDpaMessageToUdp m) := by
  cases c <;> rfl

/-- The client's transaction does not notice what was copied before. -/
theorem DpaTransaction.call_sendAll (c : Callback) (w : Objects σ) (ms : List DpaMessage) :
    t.call c (w.sendAll ms) = ((t.call c w).1, (t.call c w).2.sendAll ms) := by
  induction ms generalizing w with
  | nil => rfl
  | cons m rest ih =>
      have hrest := ih (w.sendDpaMessageToUdp m)
      rwa [call_sendDpaMessageToUdp] at hrest

/-- A forwarding wrapper does what the transaction does and copies the messages. -/
theorem UdpMessagingTransaction.call_of_forwarded (c : Callback) {this : UdpMessagingTransaction}
    (h : this.forwarded = true) (w : Objects σ) :
    ∃ after : UdpMessagingTransaction, after.forwarded = true ∧
      UdpMessagingTransaction.call t c (this, w) =
        ((t.call c w).1, after, (t.call c w).2.sendAll c.messages) := by
  cases c
  case processFinish status =>
    refine ⟨{ this with success := some (status = .kAborted) }, h, ?_⟩
    simp [call, processFinish, forward, h, DpaTransaction.call, Callback.messages]
  all_goals
    refine ⟨this, h, ?_⟩
    simp [call, getMessage, getTimeout, processConfirmationMessage, processResponseMessage, forward,
      h, DpaTransaction.call, Callback.messages, Objects.sendAll]

/-- The frame of a DPA message. -/
def spiDataFrame (dpaMessage : DpaMessage) : List Byte :=
  encodeMessageUdp ((List.replicate 11 0).set UdpHeader.cmd.index iqrfUdpIqrfSpiData) dpaMessage

theorem UdpMessaging.sendDpaMessageToUdp_eq (s : UdpMessaging) (m : DpaMessage) :
    s.sendDpaMessageToUdp m = s.pushToQueue (spiDataFrame m) := rfl

theorem Objects.udp_sendAll {w : Objects σ} {udp : UdpMessaging} (h : w.udp = some udp)
    (dpaMessages : List DpaMessage) :
    (w.sendAll dpaMessages).udp =
      some { udp with
        toUdpMessageQueue := udp.toUdpMessageQueue ++ dpaMessages.map spiDataFrame } := by
  induction dpaMessages generalizing w udp with
  | nil => simpa using h
  | cons m rest ih =>
      have hm : (w.sendDpaMessageToUdp m).udp = some (udp.sendDpaMessageToUdp m) := by
        rw [Objects.sendDpaMessageToUdp, h]
        rfl
      have hrest := ih hm
      rw [UdpMessaging.sendDpaMessageToUdp_eq, UdpMessaging.pushToQueue, List.append_assoc] at hrest
      exact hrest

theorem decodeResult_spiDataFrame {m : DpaMessage} (hm : m.length ≤ 1013) (beyond : ℕ → Byte) :
    decodeResult ⟨spiDataFrame m, beyond⟩ = .ok m := by
  rw [spiDataFrame, encodeMessageUdp_eq_frame _ hm, ← List.append_nil (frame _ m)]
  exact decodeResult_frame _ hm [] beyond

end IqrfDaemon.Udp
