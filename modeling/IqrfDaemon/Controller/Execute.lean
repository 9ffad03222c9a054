import IqrfDaemon.Controller.Model
import IqrfDaemon.Udp.Forwarding
import Mathlib.Data.List.Forall2

/-!
# Executing a queued transaction

`executeDpaTransactionFunc` from entry to exit, with nothing else going on: the mode
decides whether the DPA handler gets the transaction itself, a wrapper that forwards
it, or nothing.  Forwarding is transparent: the transaction cannot tell the two
apart, and the UDP queue gets a frame for each message.
-/

namespace IqrfDaemon.Controller

open Udp (Answer Callback DpaHandler DpaMessage Objects TransactionPtr UdpMessaging
  UdpMessagingTransaction decodeResult encodeMessageUdp)

/-- What `ExecuteDpaTransaction` did with its argument and whether it threw. -/
structure Execution where
  calls : List (Callback × Answer)
  threw : Bool
  deriving DecidableEq

/-- The objects afterwards, and the execution by the DPA handler if there was one. -/
structure Executed (σ : Type) where
  objects : Objects σ
  execution : Option Execution

variable {σ : Type} (t : Udp.DpaTransaction σ)

/-- `dpaTransaction->processFinish(DpaTransfer::kError)`. -/
def finishError (dpaTransaction : TransactionPtr) (w : Objects σ) : Objects σ :=
  (dpaTransaction.call t (.processFinish .kError) w).2

/-- `m_dpaMessageForwarding` is set iff `UdpMessaging` is configured. -/
def executeDpaTransactionFunc (mode : Mode) (dpaHandler : Option DpaHandler)
    (dpaTransaction : TransactionPtr) (w : Objects σ) : Executed σ :=
  match mode with
  | .operational =>
      match dpaHandler with
      | some handler =>
          let session := handler.run (fun c w ↦ dpaTransaction.call t c w) w
          let w := session.world
          ⟨if session.threw then finishError t dpaTransaction w else w,
            some ⟨session.calls, session.threw⟩⟩
      | none => ⟨finishError t dpaTransaction w, none⟩
  | .forwarding =>
      match dpaHandler, w.udp with
      | some handler, some _ =>
          let dpaTransactionSniffer := Udp.getDpaTransactionForward t dpaTransaction w
          let session := handler.run (UdpMessagingTransaction.call t) dpaTransactionSniffer
          let w := session.world.2
          ⟨if session.threw then finishError t dpaTransaction w else w,
            some ⟨session.calls, session.threw⟩⟩
      | _, _ => ⟨finishError t dpaTransaction w, none⟩
  | .service => ⟨finishError t dpaTransaction w, none⟩

/-! ## The calls of an execution -/

def processCalls (calls : List (Callback × Answer)) : List Callback :=
  (calls.map Prod.fst).filter Callback.isProcess

/-- The confirmations and responses of an execution in their order. -/
def messages (calls : List (Callback × Answer)) : List DpaMessage :=
  (calls.map Prod.fst).flatMap Callback.messages

theorem processCalls_append (calls : List (Callback × Answer)) (c : Callback) (a : Answer) :
    processCalls (calls ++ [(c, a)]) =
      processCalls calls ++ if c.isProcess then [c] else [] := by
  cases hc : c.isProcess <;> simp [processCalls, hc]

theorem messages_append (calls : List (Callback × Answer)) (c : Callback) (a : Answer) :
    messages (calls ++ [(c, a)]) = messages calls ++ c.messages := by
  simp [messages]

/-! ## Transparency -/

theorem received_call (c : Callback) (w : Objects σ) :
    (t.call c w).2.received = w.received ++ if c.isProcess then [c] else [] := by
  cases c <;> simp [Udp.DpaTransaction.call, Callback.isProcess]

theorem received_run (handler : DpaHandler) (w : Objects σ) :
    (handler.run t.call w).world.received =
      w.received ++ processCalls (handler.run t.call w).calls := by
  have hcall : ∀ past c (v : Objects σ), v.received = w.received ++ processCalls past →
      (t.call c v).2.received = w.received ++ processCalls (past ++ [(c, (t.call c v).1)]) := by
    intro past c v hv
    rw [received_call, hv, processCalls_append, List.append_assoc]
  exact handler.run_keeps hcall [] (List.append_nil _).symm

/-- The wrapper forwards to a transaction in the same state, and the request and the
messages so far are copied. -/
def Copies (request : DpaMessage) (past : List (Callback × Answer)) (w : Objects σ)
    (v : UdpMessagingTransaction × Objects σ) : Prop :=
  v.1.forwarded = true ∧ v.2 = w.sendAll (request :: messages past)

theorem Copies.call {request : DpaMessage} (past : List (Callback × Answer)) (c : Callback)
    (w : Objects σ) (v : UdpMessagingTransaction × Objects σ) (h : Copies request past w v) :
    (UdpMessagingTransaction.call t c v).1 = (t.call c w).1 ∧
      Copies request (past ++ [(c, (t.call c w).1)]) (t.call c w).2
        (UdpMessagingTransaction.call t c v).2 := by
  obtain ⟨this, v⟩ := v
  obtain ⟨hforwarded, rfl⟩ := h
  obtain ⟨after, hafter, hcall⟩ :=
    UdpMessagingTransaction.call_of_forwarded t c hforwarded (w.sendAll (request :: messages past))
  rw [hcall, t.call_sendAll, ← Objects.sendAll_append, Copies, messages_append]
  exact ⟨rfl, hafter, rfl⟩

/-- The wrapper leads to the same execution as the transaction itself. -/
theorem run_wrapper (handler : DpaHandler) (w : Objects σ) :
    let direct := handler.run t.call w
    let wrapped := handler.run (UdpMessagingTransaction.call t)
      (Udp.getDpaTransactionForward t .client w)
    wrapped.calls = direct.calls ∧ wrapped.threw = direct.threw ∧
      wrapped.world.2 =
        direct.world.sendAll (t.getMessage w.client :: messages direct.calls) := by
  obtain ⟨hcalls, hthrew, -, hworld⟩ :=
    handler.run_simulates (Copies.call t) [] (w := w)
      (v := Udp.getDpaTransactionForward t .client w) ⟨rfl, rfl⟩
  exact ⟨hcalls, hthrew, hworld⟩

theorem finishError_client (w : Objects σ) :
    finishError t .client w = (t.call (.processFinish .kError) w).2 := rfl

/-- An execution that throws is finished with an error. -/
def finishIf (threw : Bool) (w : Objects σ) : Objects σ :=
  if threw then finishError t .client w else w

theorem received_finishIf (threw : Bool) (w : Objects σ) :
    (finishIf t threw w).received =
      w.received ++ if threw then [.processFinish .kError] else [] := by
  cases threw
  · simp [finishIf]
  · exact received_call t _ w

theorem finishIf_sendAll (threw : Bool) (w : Objects σ) (ms : List DpaMessage) :
    finishIf t threw (w.sendAll ms) = (finishIf t threw w).sendAll ms := by
  cases threw
  · rfl
  · simp [finishIf, finishError_client, t.call_sendAll]

theorem udp_run (handler : DpaHandler) (w : Objects σ) :
    (handler.run t.call w).world.udp = w.udp := by
  have hcall : ∀ (past : List (Callback × Answer)) c (v : Objects σ), v.udp = w.udp →
      (t.call c v).2.udp = w.udp := by
    intro past c v hv
    cases c <;> exact hv
  exact handler.run_keeps hcall [] rfl

theorem udp_finishIf (threw : Bool) (w : Objects σ) : (finishIf t threw w).udp = w.udp := by
  cases threw <;> rfl

/-- The decoder takes the message out of the frame. -/
def Carries (udpMessage : List Udp.Crc.Byte) (dpaMessage : DpaMessage) : Prop :=
  ∀ beyond, decodeResult ⟨udpMessage, beyond⟩ = .ok dpaMessage

theorem forall₂_carries {ms : List DpaMessage} (h : ∀ m ∈ ms, m.length ≤ 1013) :
    List.Forall₂ Carries (ms.map Udp.spiDataFrame) ms := by
  induction ms with
  | nil => exact .nil
  | cons m rest ih =>
      obtain ⟨hm, hrest⟩ := List.forall_mem_cons.mp h
      exact .cons (Udp.decodeResult_spiDataFrame hm) (ih hrest)

theorem execute_operational (handler : DpaHandler) (w : Objects σ) :
    let session := handler.run t.call w
    executeDpaTransactionFunc t .operational (some handler) .client w =
      ⟨finishIf t session.threw session.world, some ⟨session.calls, session.threw⟩⟩ := rfl

theorem execute_forwarding (handler : DpaHandler) {w : Objects σ} {udp : UdpMessaging}
    (hudp : w.udp = some udp) :
    let session := handler.run t.call w
    executeDpaTransactionFunc t .forwarding (some handler) .client w =
      ⟨(finishIf t session.threw session.world).sendAll
          (t.getMessage w.client :: messages session.calls),
        some ⟨session.calls, session.threw⟩⟩ := by
  obtain ⟨hcalls, hthrew, hworld⟩ := run_wrapper t handler w
  simp only [executeDpaTransactionFunc, hudp]
  rw [hcalls, hthrew, hworld, ← finishIf_sendAll]
  rfl

/-- No execution touches the exclusive channel. -/
theorem exclusiveChannel_execute (mode : Mode) (dpaHandler : Option DpaHandler) (w : Objects σ) :
    (executeDpaTransactionFunc t mode dpaHandler .client w).objects.udp.map
        UdpMessaging.exclusiveChannel =
      w.udp.map UdpMessaging.exclusiveChannel := by
  match mode, dpaHandler, hudp : w.udp with
  | .operational, some handler, _ =>
      rw [execute_operational, udp_finishIf, udp_run, hudp]
  | .forwarding, some handler, some udp =>
      have hafter := (udp_finishIf t (handler.run t.call w).threw _).trans (udp_run t handler w)
      rw [execute_forwarding t handler hudp, Objects.udp_sendAll (hafter.trans hudp)]
      rfl
  | .operational, none, _ => exact congrArg _ hudp
  | .forwarding, some handler, none =>
      simp only [executeDpaTransactionFunc, hudp]
      exact congrArg _ hudp
  | .forwarding, none, _ => exact congrArg _ hudp
  | .service, _, _ => exact congrArg _ hudp

/-- Executed through the wrapper, a transaction goes through the same calls with the
same answers and is finished with an error under the same circumstances as in
operational mode; the UDP queue gets the request and then each confirmation and
response, a frame each. -/
theorem forwarding_transparent (handler : DpaHandler) (w : Objects σ) (udp : UdpMessaging)
    (hudp : w.udp = some udp) (hrequest : (t.getMessage w.client).length ≤ 1013)
    (hmessages : ∀ m ∈ messages (handler.run t.call w).calls, m.length ≤ 1013) :
    let direct := executeDpaTransactionFunc t .operational (some handler) .client w
    let forwarded := executeDpaTransactionFunc t .forwarding (some handler) .client w
    ∃ (execution : Execution) (frames : List (List Udp.Crc.Byte)),
      direct.execution = some execution ∧ forwarded.execution = some execution ∧
      direct.objects.received = w.received ++ processCalls execution.calls ++
        (if execution.threw then [.processFinish .kError] else []) ∧
      forwarded.objects.received = direct.objects.received ∧
      forwarded.objects.client = direct.objects.client ∧
      direct.objects.udp = some udp ∧
      forwarded.objects.udp =
        some { udp with toUdpMessageQueue := udp.toUdpMessageQueue ++ frames } ∧
      List.Forall₂ Carries frames (t.getMessage w.client :: messages execution.calls) := by
  let session := handler.run t.call w
  let copied := t.getMessage w.client :: messages session.calls
  have hafter : (finishIf t session.threw session.world).udp = some udp :=
    (udp_finishIf t _ _).trans ((udp_run t handler w).trans hudp)
  rw [execute_operational, execute_forwarding t handler hudp]
  refine ⟨⟨session.calls, session.threw⟩, copied.map Udp.spiDataFrame, rfl, rfl, ?_, ?_, ?_,
    hafter, ?_, ?_⟩
  · rw [received_finishIf, received_run]
  · rw [Objects.received_sendAll]
  · rw [Objects.client_sendAll]
  · exact Objects.udp_sendAll hafter copied
  · exact forall₂_carries (List.forall_mem_cons.mpr ⟨hrequest, hmessages⟩)

/-- A transaction that keeps what it has been told. -/
def recorder : Udp.DpaTransaction (List DpaMessage) where
  getMessage _ := [0, 0, 2, 0]
  getTimeout _ := 400
  processConfirmationMessage confirmation s := s ++ [confirmation]
  processResponseMessage response s := s ++ [response]
  processFinish _ s := s

/-- A confirmation is passed on, then the handler fails. -/
def failingHandler : DpaHandler :=
  .ofList true [.getMessage, .getTimeout, .processConfirmationMessage [0, 0, 2, 0, 0xff]]

def recorderObjects : Objects (List DpaMessage) := ⟨[], [], some .create⟩

theorem forwarding_transparent_failing :
    let direct :=
      executeDpaTransactionFunc recorder .operational (some failingHandler) .client recorderObjects
    let forwarded :=
      executeDpaTransactionFunc recorder .forwarding (some failingHandler) .client recorderObjects
    ∃ (execution : Execution) (frames : List (List Udp.Crc.Byte)),
      direct.execution = some execution ∧ forwarded.execution = some execution ∧
      direct.objects.received = recorderObjects.received ++ processCalls execution.calls ++
        (if execution.threw then [.processFinish .kError] else []) ∧
      forwarded.objects.received = direct.objects.received ∧
      forwarded.objects.client = direct.objects.client ∧
      direct.objects.udp = some .create ∧
      forwarded.objects.udp = some { UdpMessaging.create with
        toUdpMessageQueue := UdpMessaging.create.toUdpMessageQueue ++ frames } ∧
      List.Forall₂ Carries frames
        (recorder.getMessage recorderObjects.client :: messages execution.calls) :=
  forwarding_transparent recorder failingHandler recorderObjects .create rfl (by decide) (by decide)

end IqrfDaemon.Controller
