import IqrfDaemon.Container.Map
import IqrfDaemon.Scheduler.Record
import IqrfDaemon.Transition.System
import IqrfDaemon.Udp.Messaging
import Mathlib.Data.String.Basic
import Mathlib.Logic.Function.Basic

/-!
# Registered handlers

The scheduler delivers a task to the handler registered for its client, and the
controller delivers an asynchronous DPA message to the handlers of all services.  Both
interfaces say that a repeated registration replaces the handler, but `insert` of a
map keeps what is there.  The handlers that should be in force are kept as a history.
-/

namespace IqrfDaemon.Dispatch

open Container Transition
open Scheduler (ScheduleRecord)
open Udp (DpaMessage)

/-! ## One registry -/

/-- A registry as the code has it, and for each client the handler registered last and
not unregistered since. -/
structure Registry (H : Type) where
  handlers : Map String H
  latest : String → Option H

namespace Registry

variable {H : Type}

def empty : Registry H := ⟨.empty, fun _ ↦ none⟩

def register (r : Registry H) (clientId : String) (hndl : H) : Registry H where
  handlers := r.handlers.insert clientId hndl
  latest := Function.update r.latest clientId (some hndl)

def unregister (r : Registry H) (clientId : String) : Registry H where
  handlers := r.handlers.erase clientId
  latest := Function.update r.latest clientId none

/-- The code finds the handler that should be in force. -/
def LastWins (r : Registry H) : Prop := ∀ clientId, r.handlers.find clientId = r.latest clientId

theorem lastWins_empty : (empty : Registry H).LastWins := fun _ ↦ rfl

/-- No other handler is registered for the client. -/
def Free (r : Registry H) (clientId : String) (hndl : H) : Prop :=
  ∀ other, r.handlers.find clientId = some other → other = hndl

theorem LastWins.unregister {r : Registry H} (h : r.LastWins) (clientId : String) :
    (r.unregister clientId).LastWins := by
  intro c
  simp only [Registry.unregister, Map.find_erase, Function.update_apply, h c]

theorem LastWins.register_iff {r : Registry H} (h : r.LastWins) (clientId : String) (hndl : H) :
    (r.register clientId hndl).LastWins ↔ r.Free clientId hndl := by
  cases hfind : r.handlers.find clientId with
  | none =>
      refine iff_of_true (fun c ↦ ?_) fun other hother ↦ ?_
      · simp only [Registry.register, Map.find_insert_of_none hfind, Function.update_apply, h c]
      · rw [hfind] at hother
        cases hother
  | some other =>
      have hkept : (r.register clientId hndl).handlers = r.handlers := Map.insert_of_find hfind hndl
      constructor
      · intro hlast u hu
        have hnew := hlast clientId
        rw [hkept, hu] at hnew
        simpa [Registry.register] using hnew
      · intro hfree c
        obtain rfl := hfree other hfind
        rw [hkept, h c]
        by_cases hc : c = clientId
        · rw [hc, ← h clientId, hfind]
          simp [Registry.register]
        · simp [Registry.register, hc]

end Registry

/-! ## The two registries of the daemon -/

/-- A call of a handler. -/
structure Delivery (H M : Type) where
  client : String
  handler : H
  message : M

/-- `m_messageHandlers` of the scheduler and `m_asyncMessageHandlers` of the controller,
with handlers of any kind. -/
structure State (T A : Type) where
  messageHandlers : Registry T
  asyncMessageHandlers : Registry A

inductive Action (T A : Type)
  | registerMessageHandler (clientId : String) (hndl : T)
  | unregisterMessageHandler (clientId : String)
  | registerAsyncMessageHandler (serviceId : String) (hndl : A)
  | unregisterAsyncMessageHandler (serviceId : String)
  | handleScheduledRecord (record : ScheduleRecord)
  | asyncDpaMessageHandler (dpaMessage : DpaMessage)

namespace State

variable {T A : Type}

def create : State T A := ⟨.empty, .empty⟩

def handleScheduledRecord (s : State T A) (record : ScheduleRecord) : List (Delivery T String) :=
  match s.messageHandlers.handlers.find record.clientId with
  | some hndl => [⟨record.clientId, hndl, record.task⟩]
  | none => []

def asyncDpaMessageHandler (s : State T A) (dpaMessage : DpaMessage) :
    List (Delivery A DpaMessage) :=
  s.asyncMessageHandlers.handlers.entries.map fun hndl ↦ ⟨hndl.1, hndl.2, dpaMessage⟩

def step (s : State T A) : Action T A → Option (State T A)
  | .registerMessageHandler clientId hndl =>
      some { s with messageHandlers := s.messageHandlers.register clientId hndl }
  | .unregisterMessageHandler clientId =>
      some { s with messageHandlers := s.messageHandlers.unregister clientId }
  | .registerAsyncMessageHandler serviceId hndl =>
      some { s with asyncMessageHandlers := s.asyncMessageHandlers.register serviceId hndl }
  | .unregisterAsyncMessageHandler serviceId =>
      some { s with asyncMessageHandlers := s.asyncMessageHandlers.unregister serviceId }
  | .handleScheduledRecord _ | .asyncDpaMessageHandler _ => some s

/-- A record goes to the handler in force for its client, once, or is dropped if there
is none, and a DPA message goes to each handler in force, once. -/
structure Delivers (s : State T A) : Prop where
  record : ∀ record, s.handleScheduledRecord record =
    ((s.messageHandlers.latest record.clientId).map fun hndl ↦
      ⟨record.clientId, hndl, record.task⟩).toList
  once : ∀ dpaMessage, (s.asyncDpaMessageHandler dpaMessage).Nodup
  async : ∀ dpaMessage d, d ∈ s.asyncDpaMessageHandler dpaMessage ↔
    d.message = dpaMessage ∧ s.asyncMessageHandlers.latest d.client = some d.handler

theorem handleScheduledRecord_eq (s : State T A) (record : ScheduleRecord) :
    s.handleScheduledRecord record =
      ((s.messageHandlers.handlers.find record.clientId).map fun hndl ↦
        ⟨record.clientId, hndl, record.task⟩).toList := by
  unfold handleScheduledRecord
  cases s.messageHandlers.handlers.find record.clientId <;> rfl

theorem mem_asyncDpaMessageHandler {s : State T A} {dpaMessage : DpaMessage}
    {d : Delivery A DpaMessage} : d ∈ s.asyncDpaMessageHandler dpaMessage ↔
      d.message = dpaMessage ∧
        s.asyncMessageHandlers.handlers.find d.client = some d.handler := by
  rw [asyncDpaMessageHandler, List.mem_map, Map.find_eq_some_iff]
  constructor
  · rintro ⟨hndl, hmem, rfl⟩
    exact ⟨rfl, hmem⟩
  · rintro ⟨rfl, hmem⟩
    exact ⟨_, hmem, rfl⟩

theorem nodup_asyncDpaMessageHandler (s : State T A) (dpaMessage : DpaMessage) :
    (s.asyncDpaMessageHandler dpaMessage).Nodup := by
  refine s.asyncMessageHandlers.handlers.nodup_entries.map fun e f heq ↦ ?_
  obtain ⟨hclient, hhandler, -⟩ := Delivery.mk.inj heq
  exact Prod.ext hclient hhandler

/-- Deliveries are right exactly if both registries find the handlers in force. -/
theorem delivers_iff (s : State T A) :
    s.Delivers ↔ s.messageHandlers.LastWins ∧ s.asyncMessageHandlers.LastWins := by
  constructor
  · intro h
    refine ⟨fun c ↦ ?_, fun c ↦ Option.ext fun hndl ↦ ?_⟩
    · have hinj : Function.Injective fun hndl : T ↦ (⟨c, hndl, ""⟩ : Delivery T String) :=
        fun a b heq ↦ (Delivery.mk.inj heq).2.1
      have hrecord := h.record (.everyPeriod 1 c "" 0 0)
      rw [handleScheduledRecord_eq] at hrecord
      have hfound := congrArg List.head? hrecord
      rw [Option.head?_toList, Option.head?_toList] at hfound
      exact Option.map_injective hinj hfound
    · have hmem := h.async [] ⟨c, hndl, []⟩
      rw [mem_asyncDpaMessageHandler] at hmem
      simpa using hmem
  · rintro ⟨htasks, hasync⟩
    refine ⟨fun record ↦ ?_, s.nodup_asyncDpaMessageHandler, fun dpaMessage d ↦ ?_⟩
    · rw [handleScheduledRecord_eq, htasks]
    · rw [mem_asyncDpaMessageHandler, hasync]

end State

def system (T A : Type) : System (State T A) (Action T A) where
  init s := s = State.create
  step := State.step

/-- A registering step finds no other handler under its client id. -/
def replacesNothing {T A : Type} (s : State T A) : Action T A → Prop
  | .registerMessageHandler clientId hndl => s.messageHandlers.Free clientId hndl
  | .registerAsyncMessageHandler serviceId hndl => s.asyncMessageHandlers.Free serviceId hndl
  | _ => True

theorem State.Delivers.step_iff {T A : Type} {s t : State T A} (h : s.Delivers)
    {a : Action T A} (hstep : s.step a = some t) : t.Delivers ↔ replacesNothing s a := by
  obtain ⟨htasks, hasync⟩ := s.delivers_iff.mp h
  rw [State.delivers_iff]
  cases a with
  | registerMessageHandler clientId hndl =>
      obtain rfl := Option.some.inj hstep
      exact (and_iff_left hasync).trans (htasks.register_iff clientId hndl)
  | unregisterMessageHandler clientId =>
      obtain rfl := Option.some.inj hstep
      exact iff_of_true ⟨htasks.unregister clientId, hasync⟩ trivial
  | registerAsyncMessageHandler serviceId hndl =>
      obtain rfl := Option.some.inj hstep
      exact (and_iff_right htasks).trans (hasync.register_iff serviceId hndl)
  | unregisterAsyncMessageHandler serviceId =>
      obtain rfl := Option.some.inj hstep
      exact iff_of_true ⟨htasks, hasync.unregister serviceId⟩ trivial
  | handleScheduledRecord record | asyncDpaMessageHandler dpaMessage =>
      obtain rfl := Option.some.inj hstep
      exact iff_of_true ⟨htasks, hasync⟩ trivial

/-- In every run that never registers a second handler for a client id while another
one is registered, records and DPA messages go to the handlers registered last.  The
next step keeps it so if and only if it registers no second handler either. -/
theorem delivers_while_free (T A : Type) (s : State T A)
    (h : (system T A).ReachableVia replacesNothing s) :
    s.Delivers ∧
      ∀ a t, (system T A).step s a = some t → (t.Delivers ↔ replacesNothing s a) := by
  have hs : s.Delivers := by
    refine h.invariant ?_ fun s a t hs hfree hstep ↦ (hs.step_iff hstep).mpr hfree
    rintro s rfl
    exact (State.delivers_iff _).mpr ⟨Registry.lastWins_empty, Registry.lastWins_empty⟩
  exact ⟨hs, fun a t hstep ↦ hs.step_iff hstep⟩

/-- Handlers are numbers here. -/
def registered : State ℕ ℕ := ⟨Registry.empty.register "client" 0, .empty⟩

theorem delivers_while_free_registered :
    registered.Delivers ∧
      ∀ a t, (system ℕ ℕ).step registered a = some t →
        (t.Delivers ↔ replacesNothing registered a) := by
  refine delivers_while_free ℕ ℕ registered ?_
  exact System.ReachableVia.step (a := .registerMessageHandler "client" 0) (.of_init rfl)
    (fun other hother ↦ nomatch hother) rfl

/-- The handler registered second never gets a record. -/
theorem second_handler_ignored : ¬ ∀ s, (system ℕ ℕ).Reachable s → s.Delivers := by
  intro h
  let s : State ℕ ℕ := ⟨(Registry.empty.register "client" 0).register "client" 1, .empty⟩
  have hreach : (system ℕ ℕ).Reachable s :=
    System.reachable_of_run
      [.registerMessageHandler "client" 0, .registerMessageHandler "client" 1] rfl rfl
  have hlast := ((State.delivers_iff s).mp (h s hreach)).1 "client"
  exact absurd hlast (by decide)

end IqrfDaemon.Dispatch
