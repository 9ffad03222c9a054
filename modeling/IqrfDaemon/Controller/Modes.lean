import IqrfDaemon.Controller.Execute

/-!
# The mode machine

Mode commands, UDP datagrams and queued transactions, processed one at a time.  What
a mode switch decides on and changes is a machine of its own over four values: the
mode, whether there is a DPA handler, whether `UdpMessaging` is configured and whether
the exclusive channel is set.  In service mode the channel is set and the handler is
gone, in the other modes the channel is not set.
-/

namespace IqrfDaemon.Controller

open Transition
open Udp (Buffer Callback DpaHandler Gateway Objects UdpMessaging decodeResult
  handleMessageFromUdp)

/-! ## Switching modes, abstractly -/

structure ModeView where
  mode : Mode
  dpaHandler : Bool
  dpaExclusiveAccess : Bool
  exclusiveChannel : Bool
  deriving DecidableEq

/-- Leaving service mode creates a DPA handler or not. -/
def ModeView.leaveService (v : ModeView) (created : Bool) : ModeView :=
  if v.mode = .service then
    { v with dpaHandler := v.dpaHandler || created, exclusiveChannel := false }
  else v

/-- Without `UdpMessaging` there is only operational mode. -/
def ModeView.setMode (v : ModeView) (mode : Mode) (created : Bool) : ModeView :=
  match mode with
  | .operational =>
      { (if v.dpaExclusiveAccess then v.leaveService created else v) with mode := .operational }
  | .forwarding =>
      if v.dpaExclusiveAccess then { v.leaveService created with mode := .forwarding } else v
  | .service =>
      if v.dpaExclusiveAccess then
        { v with mode := .service, dpaHandler := false, exclusiveChannel := true }
      else v

structure ModeView.Exclusive (v : ModeView) : Prop where
  service : v.mode = .service → v.dpaHandler = false ∧ v.exclusiveChannel = true
  others : v.mode ≠ .service → v.exclusiveChannel = false
  access : v.mode ≠ .operational → v.dpaExclusiveAccess = true

namespace ModeView

@[simp]
theorem leaveService_access (v : ModeView) (created : Bool) :
    (v.leaveService created).dpaExclusiveAccess = v.dpaExclusiveAccess := by
  unfold leaveService
  split <;> rfl

theorem Exclusive.leaveService {v : ModeView} (h : v.Exclusive) (created : Bool) :
    (v.leaveService created).exclusiveChannel = false := by
  unfold ModeView.leaveService
  split
  case isTrue hservice => rfl
  case isFalse hservice => exact h.others hservice

theorem Exclusive.operational_of_no_access {v : ModeView} (h : v.Exclusive)
    (haccess : v.dpaExclusiveAccess = false) : v.mode = .operational := by
  by_contra hne
  rw [h.access hne] at haccess
  cases haccess

theorem Exclusive.setMode {v : ModeView} (h : v.Exclusive) (mode : Mode) (created : Bool) :
    (v.setMode mode created).Exclusive := by
  have hleave := h.leaveService created
  cases haccess : v.dpaExclusiveAccess with
  | false =>
      have hmode := h.operational_of_no_access haccess
      have hv : v.setMode mode created = v := by
        cases v
        cases mode <;> simp_all [ModeView.setMode]
      rwa [hv]
  | true =>
      cases mode with
      | operational =>
          refine ⟨fun hmode ↦ ?_, fun _ ↦ ?_, fun hne ↦ absurd rfl hne⟩
          · cases hmode
          · simpa [ModeView.setMode, haccess] using hleave
      | forwarding =>
          simp only [ModeView.setMode, haccess, if_true]
          refine ⟨fun hmode ↦ ?_, fun _ ↦ hleave, fun _ ↦ ?_⟩
          · cases hmode
          · simpa using haccess
      | service =>
          simp only [ModeView.setMode, haccess, if_true]
          exact ⟨fun _ ↦ ⟨rfl, rfl⟩, fun hne ↦ absurd rfl hne, fun _ ↦ rfl⟩

end ModeView

/-! ## The daemon -/

/-- A transaction in the queue, with what the DPA handler would do with it. -/
structure Queued (σ : Type) where
  client : σ
  handler : DpaHandler

/-- The members of `DaemonController` that tell the mode, and `UdpMessaging`, to which
both `m_dpaExclusiveAccess` and `m_dpaMessageForwarding` point, if it is configured.
`executedIn` is the history of the modes in which `ExecuteDpaTransaction` was called. -/
structure Daemon where
  iqrfInterface : Bool
  mode : Mode
  dpaHandler : Bool
  udp : Option UdpMessaging
  executedIn : List Mode
  deriving DecidableEq

namespace Daemon

variable {σ : Type} (t : Udp.DpaTransaction σ)

/-- `executeDpaTransactionFunc` on a queued transaction. -/
def executed (s : Daemon) (queued : Queued σ) : Executed σ :=
  executeDpaTransactionFunc t s.mode (if s.dpaHandler then some queued.handler else none) .client
    ⟨queued.client, [], s.udp⟩

def execute (s : Daemon) (queued : Queued σ) : Daemon :=
  let executed := s.executed t queued
  { s with
    udp := executed.objects.udp
    executedIn := s.executedIn ++ if executed.execution.isSome then [s.mode] else [] }

/-- `startDpa`: the constructor of the DPA handler succeeds or throws.  After it has
succeeded a transaction is queued, and waited for while the worker gets through the
queue. -/
def startDpa (s : Daemon) (created : Bool) (processed : List (Queued σ)) : Daemon :=
  if created then processed.foldl (fun s queued ↦ s.execute t queued) { s with dpaHandler := true }
  else s

def stopDpa (s : Daemon) : Daemon := { s with dpaHandler := false }

def resetExclusive (s : Daemon) : Daemon := { s with udp := s.udp.map UdpMessaging.resetExclusive }

/-- `m_dpaExclusiveAccess->setExclusive(m_iqrfInterface)`. -/
def setExclusive (s : Daemon) : Daemon :=
  { s with udp := s.udp.map fun udp ↦ udp.setExclusive s.iqrfInterface }

/-- The block with which both other modes leave service mode. -/
def leaveService (s : Daemon) (mode : Mode) (created : Bool) (processed : List (Queued σ)) :
    Daemon :=
  if s.mode = .service then
    ({ s.resetExclusive with mode := mode } : Daemon).startDpa t created processed
  else s

/-- `setMode`; what `created` and `processed` supply is used when service mode is left. -/
def setMode (s : Daemon) (mode : Mode) (created : Bool) (processed : List (Queued σ)) : Daemon :=
  match mode with
  | .operational =>
      let s := if s.udp.isSome then s.leaveService t mode created processed else s
      { s with mode := mode }
  | .forwarding =>
      if s.udp.isSome then { s.leaveService t mode created processed with mode := mode }
      else s -- "Cannot switch mode: forwarding component is not configured"
  | .service =>
      if s.udp.isSome then
        { ({ s with mode := mode } : Daemon).stopDpa.setExclusive with mode := mode }
      else s -- "Cannot switch mode: service component is not configured"

def modeOperational : String := "operational"

def modeService : String := "service"

def modeForwarding : String := "forwarding"

/-- `doCommand` with its return value. -/
def doCommand (s : Daemon) (cmd : String) (created : Bool) (processed : List (Queued σ)) :
    String × Daemon :=
  if s.iqrfInterface then
    let r := ("ERROR_UNKNOWN", s)
    let r :=
      if cmd = modeOperational then ("OK", r.2.setMode t .operational created processed) else r
    let r := if cmd = modeService then ("OK", r.2.setMode t .service created processed) else r
    if cmd = modeForwarding then ("OK", r.2.setMode t .forwarding created processed) else r
  else ("ERROR_IFACE", s)

inductive Action (σ : Type)
  | doCommand (cmd : String) (created : Bool) (processed : List (Queued σ))
  | handleMessageFromUdp (gw : Gateway) (udpMessage : Buffer)
  | executeDpaTransaction (queued : Queued σ)

def step (s : Daemon) : Action σ → Option Daemon
  | .doCommand cmd created processed => some (s.doCommand t cmd created processed).2
  | .handleMessageFromUdp gw udpMessage =>
      s.udp.map fun udp ↦ { s with udp := some (handleMessageFromUdp gw udp udpMessage).1 }
  | .executeDpaTransaction queued => some (s.execute t queued)

/-- Any configuration, in operational mode. -/
def system : System Daemon (Action σ) where
  init s := ∃ iqrfInterface dpaHandler udp, (udp = none ∨ udp = some .create) ∧
    s = ⟨iqrfInterface, .operational, dpaHandler, udp, []⟩
  step := step t

def view (s : Daemon) : ModeView where
  mode := s.mode
  dpaHandler := s.dpaHandler
  dpaExclusiveAccess := s.udp.isSome
  exclusiveChannel := (s.udp.map UdpMessaging.exclusiveChannel).getD false

@[simp]
theorem view_executed (s : Daemon) (queued : Queued σ) :
    (s.execute t queued).view = s.view := by
  have hchannel := exclusiveChannel_execute t s.mode
    (if s.dpaHandler then some queued.handler else none) ⟨queued.client, [], s.udp⟩
  have haccess := congrArg Option.isSome hchannel
  simp only [Option.isSome_map] at haccess
  simp only [view, execute, executed, hchannel, haccess]

theorem execution_of_service {s : Daemon} (h : s.mode = .service) (queued : Queued σ) :
    s.executed t queued =
      ⟨⟨t.processFinish .kError queued.client, [.processFinish .kError], s.udp⟩, none⟩ := by
  simp only [executed, h]
  rfl

/-- Transactions processed in a row, outside service mode. -/
theorem processed_keeps (processed : List (Queued σ)) {s : Daemon} (hmode : s.mode ≠ .service)
    (hexec : .service ∉ s.executedIn) :
    let after := processed.foldl (fun s queued ↦ s.execute t queued) s
    after.view = s.view ∧ .service ∉ after.executedIn := by
  induction processed generalizing s with
  | nil => exact ⟨rfl, hexec⟩
  | cons queued rest ih =>
      have hexec' : .service ∉ (s.execute t queued).executedIn := by
        simp only [execute, List.mem_append, not_or]
        refine ⟨hexec, ?_⟩
        split_ifs
        · simpa using hmode.symm
        · simp
      obtain ⟨hview, hrest⟩ := ih (s := s.execute t queued) hmode hexec'
      exact ⟨hview.trans (view_executed t s queued), hrest⟩

theorem startDpa_keeps {s : Daemon} (created : Bool) (processed : List (Queued σ))
    (hmode : s.mode ≠ .service) (hexec : .service ∉ s.executedIn) :
    (s.startDpa t created processed).view =
        { s.view with dpaHandler := s.dpaHandler || created } ∧
      .service ∉ (s.startDpa t created processed).executedIn := by
  cases created with
  | false =>
      rw [Bool.or_false]
      exact ⟨rfl, hexec⟩
  | true =>
      rw [Bool.or_true]
      exact processed_keeps t processed (s := { s with dpaHandler := true }) hmode hexec

theorem view_mode (s : Daemon) (mode : Mode) :
    ({ s with mode := mode } : Daemon).view = { s.view with mode := mode } := rfl

theorem view_resetExclusive (s : Daemon) :
    s.resetExclusive.view = { s.view with exclusiveChannel := false } := by
  cases hudp : s.udp <;> simp [view, resetExclusive, hudp, UdpMessaging.resetExclusive]

theorem view_setExclusive {s : Daemon} (hiface : s.iqrfInterface = true)
    (hudp : s.udp.isSome = true) :
    s.setExclusive.view = { s.view with exclusiveChannel := true } := by
  obtain ⟨udp, hudp⟩ := Option.isSome_iff_exists.mp hudp
  simp [view, setExclusive, hudp, hiface, UdpMessaging.setExclusive]

theorem leaveService_keeps (s : Daemon) {mode : Mode} (hmode : mode ≠ .service) (created : Bool)
    (processed : List (Queued σ)) (hexec : .service ∉ s.executedIn) :
    let after := s.leaveService t mode created processed
    { after.view with mode := mode } = { s.view.leaveService created with mode := mode } ∧
      .service ∉ after.executedIn := by
  simp only [leaveService, ModeView.leaveService, show s.view.mode = s.mode from rfl]
  split
  case isTrue hservice =>
    obtain ⟨hview, hafter⟩ :=
      startDpa_keeps t (s := { s.resetExclusive with mode := mode }) created processed hmode hexec
    rw [hview, view_mode, view_resetExclusive]
    exact ⟨rfl, hafter⟩
  case isFalse hservice => exact ⟨rfl, hexec⟩

/-- A mode switch of the daemon is one of the mode machine. -/
theorem setMode_keeps {s : Daemon} (hiface : s.iqrfInterface = true) (mode : Mode)
    (created : Bool) (processed : List (Queued σ)) (hexec : .service ∉ s.executedIn) :
    (s.setMode t mode created processed).view = s.view.setMode mode created ∧
      .service ∉ (s.setMode t mode created processed).executedIn := by
  have haccess : s.view.dpaExclusiveAccess = s.udp.isSome := rfl
  cases hudp : s.udp.isSome with
  | false => cases mode <;> exact ⟨by simp [setMode, ModeView.setMode, hudp, haccess, view_mode],
      by simpa [setMode, hudp] using hexec⟩
  | true =>
      have hoperational : Mode.operational ≠ .service := by decide
      have hforwarding : Mode.forwarding ≠ .service := by decide
      cases mode with
      | operational =>
          simp only [setMode, ModeView.setMode, haccess, hudp, if_true, view_mode]
          exact leaveService_keeps t s hoperational created processed hexec
      | forwarding =>
          simp only [setMode, ModeView.setMode, haccess, hudp, if_true, view_mode]
          exact leaveService_keeps t s hforwarding created processed hexec
      | service =>
          have hset := view_setExclusive (s := ({ s with mode := .service } : Daemon).stopDpa)
            hiface hudp
          simp only [setMode, ModeView.setMode, haccess, hudp, if_true, view_mode, hset]
          refine ⟨?_, hexec⟩
          simp [view, stopDpa, hudp]

/-! ## Commands -/

/-- The mode that a command names. -/
def modeNamed (cmd : String) : Option Mode :=
  if cmd = modeOperational then some .operational
  else if cmd = modeService then some .service
  else if cmd = modeForwarding then some .forwarding
  else none

/-- One command: an error, or the switch to the mode it names. -/
theorem doCommand_eq (s : Daemon) (cmd : String) (created : Bool) (processed : List (Queued σ)) :
    s.doCommand t cmd created processed =
      if s.iqrfInterface then
        match modeNamed cmd with
        | none => ("ERROR_UNKNOWN", s)
        | some mode => ("OK", s.setMode t mode created processed)
      else ("ERROR_IFACE", s) := by
  have hos : modeOperational ≠ modeService := by decide
  have hof : modeOperational ≠ modeForwarding := by decide
  have hsf : modeService ≠ modeForwarding := by decide
  simp only [doCommand, modeNamed]
  by_cases ho : cmd = modeOperational
  · simp [ho, hos, hof]
  by_cases hs : cmd = modeService
  · simp [hs, hos.symm, hsf]
  by_cases hf : cmd = modeForwarding
  · simp [hf, hof.symm, hsf.symm]
  · simp [ho, hs, hf]

/-- The modes are exclusive, and no handler was ever called in service mode. -/
structure Inv (s : Daemon) : Prop where
  exclusive : s.view.Exclusive
  executed : .service ∉ s.executedIn

theorem Inv.execute {s : Daemon} (h : s.Inv) (queued : Queued σ) : (s.execute t queued).Inv := by
  constructor
  · rw [view_executed]
    exact h.exclusive
  · by_cases hmode : s.mode = .service
    · simpa [Daemon.execute, execution_of_service t hmode] using h.executed
    · exact (processed_keeps t [queued] hmode h.executed).2

theorem Inv.doCommand {s : Daemon} (h : s.Inv) (cmd : String) (created : Bool)
    (processed : List (Queued σ)) : (s.doCommand t cmd created processed).2.Inv := by
  rw [doCommand_eq]
  cases hiface : s.iqrfInterface with
  | false => exact h
  | true =>
      cases hnamed : modeNamed cmd with
      | none => exact h
      | some mode =>
          obtain ⟨hview, hexec⟩ := setMode_keeps t hiface mode created processed h.executed
          refine ⟨?_, hexec⟩
          simp only [if_true]
          rw [hview]
          exact h.exclusive.setMode mode created

/-- A datagram changes neither the exclusive channel nor the transaction of
`UdpMessaging`. -/
theorem handleMessageFromUdp_keeps (gw : Gateway) (udp : UdpMessaging) (u : Buffer) :
    (handleMessageFromUdp gw udp u).1.exclusiveChannel = udp.exclusiveChannel := by
  cases hdecode : decodeResult u with
  | error err => simp only [handleMessageFromUdp, hdecode]
  | ok m =>
      obtain ⟨_, hs, -⟩ := Udp.handleMessageFromUdp_of_ok gw udp hdecode
      rw [hs]

theorem inv_step (s : Daemon) (a : Action σ) (s' : Daemon) (h : s.Inv)
    (hs : s.step t a = some s') : s'.Inv := by
  cases a with
  | doCommand cmd created processed =>
      obtain rfl := Option.some.inj hs
      exact h.doCommand t cmd created processed
  | handleMessageFromUdp gw u =>
      obtain ⟨udp, hudp, rfl⟩ := Option.map_eq_some_iff.mp hs
      refine ⟨?_, h.executed⟩
      have hview : ({ s with udp := some (Udp.handleMessageFromUdp gw udp u).1 } : Daemon).view =
          s.view := by
        simp [view, hudp, handleMessageFromUdp_keeps]
      rw [hview]
      exact h.exclusive
  | executeDpaTransaction queued =>
      obtain rfl := Option.some.inj hs
      exact h.execute t queued

theorem inv_of_reachable {s : Daemon} (h : (system t).Reachable s) : s.Inv := by
  refine h.invariant ?_ (inv_step t)
  rintro s ⟨iqrfInterface, dpaHandler, udp, hudp, rfl⟩
  refine ⟨⟨fun hmode ↦ (nomatch hmode), fun _ ↦ ?_, fun hne ↦ absurd rfl hne⟩, List.not_mem_nil⟩
  rcases hudp with rfl | rfl <;> rfl

/-- What the mode says about the DPA handler, the exclusive channel and `UdpMessaging`,
about where the payload of a write goes and about queued transactions. -/
structure ModesExclusive (s : Daemon) : Prop where
  service : s.mode = .service → s.dpaHandler = false ∧ s.view.exclusiveChannel = true
  others : s.mode ≠ .service → s.view.exclusiveChannel = false
  access : s.mode = .service ∨ s.mode = .forwarding → s.udp.isSome = true
  written : ∀ gw udp u m, s.udp = some udp → decodeResult u = .ok m →
    u.get Udp.UdpHeader.cmd.index = Udp.iqrfUdpWriteIqrf →
      (handleMessageFromUdp gw udp u).1.sentTo =
        udp.sentTo ++ if s.mode = .service then [m] else []
  executed : .service ∉ s.executedIn
  finished : ∀ queued : Queued σ, s.mode = .service →
    s.executed t queued =
      ⟨⟨t.processFinish .kError queued.client, [.processFinish .kError], s.udp⟩, none⟩

/-- In service mode there is no DPA handler and the exclusive channel is set, in the
other modes it is not set, and modes other than operational need `UdpMessaging`.
Hence the payload of a write reaches the channel exactly in service mode, and there
queued transactions are finished with an error instead of being executed. -/
theorem modes_exclusive (s : Daemon) (h : (system t).Reachable s) : ModesExclusive t s := by
  obtain ⟨⟨hservice, hothers, haccess⟩, hexec⟩ := inv_of_reachable t h
  refine ⟨hservice, hothers, fun hmode ↦ haccess ?_, fun gw udp u m hudp hdecode hcmd ↦ ?_, hexec,
    fun queued hmode ↦ execution_of_service t hmode queued⟩
  · rcases hmode with hmode | hmode
    · exact fun hop ↦ absurd (hmode.symm.trans hop) (by decide)
    · exact fun hop ↦ absurd (hmode.symm.trans hop) (by decide)
  · obtain ⟨_, hs, -⟩ := Udp.handleMessageFromUdp_of_ok gw udp hdecode
    have hview : s.view.exclusiveChannel = udp.exclusiveChannel := by
      simp [view, hudp]
    rw [hs]
    by_cases hmode : s.mode = .service
    · have hchannel := hview.symm.trans (hservice hmode).2
      simp [hcmd, hmode, hchannel]
    · have hchannel := hview.symm.trans (hothers hmode)
      simp [hmode, hchannel]

/-- In service mode after the first command. -/
def inService : Daemon := ⟨true, .service, false, some (UdpMessaging.create.setExclusive true), []⟩

theorem modes_exclusive_inService : ModesExclusive recorder inService :=
  modes_exclusive recorder inService
    (System.reachable_of_run [.doCommand "service" true []] ⟨true, true, _, .inr rfl, rfl⟩
      (by decide))

theorem mode_setMode {s : Daemon} {mode : Mode} (created : Bool) (processed : List (Queued σ))
    (h : mode ≠ .operational → s.udp.isSome = true) :
    (s.setMode t mode created processed).mode = mode := by
  cases mode with
  | operational => rfl
  | forwarding => simp [setMode, h (by decide)]
  | service => simp [setMode, h (by decide)]

theorem modeNamed_of_ne_operational {cmd : String} {mode : Mode} (h : modeNamed cmd = some mode)
    (hne : mode ≠ .operational) : cmd = modeService ∨ cmd = modeForwarding := by
  unfold modeNamed at h
  split_ifs at h with ho hs hf
  · exact absurd (Option.some.inj h).symm hne
  · exact .inl hs
  · exact .inr hf

/-- Without an interface every command is refused, and what is refused changes nothing;
with one, and with `UdpMessaging` for the modes that need it, a command is answered by
"OK" exactly if the mode afterwards is the one it names. -/
theorem doCommand_truthful (s : Daemon) (cmd : String) (created : Bool)
    (processed : List (Queued σ)) :
    let r := s.doCommand t cmd created processed
    (r.1 ≠ "OK" → r.2.mode = s.mode ∧ r.2.dpaHandler = s.dpaHandler ∧ r.2.udp = s.udp) ∧
    (s.iqrfInterface = false → r.1 = "ERROR_IFACE") ∧
    (s.iqrfInterface = true →
      (cmd = modeService ∨ cmd = modeForwarding → s.udp.isSome = true) →
        (r.1 = "OK" ↔ modeNamed cmd = some r.2.mode)) := by
  simp only [doCommand_eq]
  cases hiface : s.iqrfInterface with
  | false => simp
  | true =>
      cases hnamed : modeNamed cmd with
      | none => simp
      | some mode =>
          simp only [if_true, ne_eq, not_true_eq_false, false_implies, true_and, true_iff,
            Option.some.injEq]
          refine ⟨fun h ↦ (nomatch h), fun _ hudp ↦ (mode_setMode t created processed ?_).symm⟩
          exact fun hne ↦ hudp (modeNamed_of_ne_operational hnamed hne)

/-- The answer to "operational" in operational mode without an interface. -/
theorem doCommand_refused_in_mode :
    ¬ ∀ s : Daemon, (system recorder).Reachable s →
      ∀ (cmd : String) (created : Bool) (processed : List (Queued (List Udp.DpaMessage))),
        let r := s.doCommand recorder cmd created processed
        (r.1 = "OK" ↔ modeNamed cmd = some r.2.mode) ∧
          (r.1 ≠ "OK" → r.2.mode = s.mode ∧ r.2.dpaHandler = s.dpaHandler ∧ r.2.udp = s.udp) := by
  intro h
  have hreach : (system recorder).Reachable ⟨false, .operational, false, none, []⟩ :=
    .of_init ⟨false, false, none, .inl rfl, rfl⟩
  exact absurd ((h _ hreach "operational" false []).1.mpr (by decide)) (by decide)

end Daemon

end IqrfDaemon.Controller
