import IqrfDaemon.Network.Datagrams
import IqrfDaemon.TaskQueue.Fifo
import IqrfDaemon.Udp.Ide

/-!
# The UDP link

The IDE and the gateway, with a network between them that may lose, reorder, duplicate and
damage what it carries.  The gateway answers from the thread that listens; its frames and
those of the DPA messages pass through one task queue, whose worker sends them.  Over every
run in which damage is confined to sixteen bits and leaves the length field alone, what is
written to the channel and what the IDE accepts can be traced to what was sent, and over a
network that makes no copies everything is accounted for exactly once.  A damaged length
field would have another checksum compared with other bytes.
-/

namespace IqrfDaemon.Udp

open Crc (Byte Word)
open Network Transition
open TaskQueue (Consistent Moves moves_of_step)

/-! ## The system -/

/-- The counter of the IDE, both directions of the network, the messaging with its task
queue, and the messages for which `sendDpaMessageToUdp` has been called. -/
structure Link where
  pacid : Word
  toGateway : Medium Packet (List Byte)
  messaging : UdpMessaging
  dpaMessages : List DpaMessage
  queue : TaskQueue.State (List Byte)
  toIde : Medium (List Byte) (List Byte)

namespace Link

/-- The IDE sends a packet; a datagram reaches the gateway, with what lies behind it in
memory and what the daemon reports meanwhile; the exclusive channel is set and reset; a DPA
message is sent; the threads of the task queue move; a datagram reaches the IDE.  The
network disturbs either direction. -/
inductive Action
  | sendTo (command subcommand : Byte) (message : List Byte)
  | disturbToGateway (e : Disturbance (List Byte))
  | handleMessageFromUdp (i : ℕ) (beyond : ℕ → Byte) (gw : Gateway)
  | setExclusive
  | resetExclusive
  | sendDpaMessageToUdp (dpaMessage : DpaMessage)
  | notifyAll
  | spuriousWakeup
  | worker
  | processed
  | disturbToIde (e : Disturbance (List Byte))
  | receive (i : ℕ)

def create : Link where
  pacid := 0
  toGateway := .idle
  messaging := .create
  dpaMessages := []
  queue := .create
  toIde := .idle

/-- `encodeMessageUdp` of the IDE increments its counter before it encodes. -/
def send (s : Link) (command subcommand : Byte) (message : List Byte) : Link :=
  let packet : Packet := ⟨s.pacid + 1, command, subcommand, message⟩
  { s with pacid := s.pacid + 1, toGateway := s.toGateway.send packet packet.datagram }

/-- What a call has pushed goes into the task queue. -/
def handOver (s : Link) (messaging : UdpMessaging) : Option Link := do
  let frames := messaging.toUdpMessageQueue.drop s.messaging.toUdpMessageQueue.length
  let queue ← frames.foldlM (fun queue frame ↦ queue.step (.pushToQueue frame)) s.queue
  return { s with messaging := messaging, queue := queue }

def handle (s : Link) (i : ℕ) (beyond : ℕ → Byte) (gw : Gateway) : Option Link := do
  let delivery ← s.toGateway.deliver i
  let called := handleMessageFromUdp gw s.messaging ⟨delivery.1.arriving, beyond⟩
  { s with toGateway := delivery.2 }.handOver called.1

/-- A step of the task queue that neither pushes nor returns from the processing function. -/
def moveQueue (s : Link) (a : TaskQueue.Action (List Byte)) : Option Link :=
  (s.queue.step a).map fun queue ↦ { s with queue := queue }

/-- The processing function has sent the frame and returns. -/
def sendFrame (s : Link) : Option Link := do
  let queue ← s.queue.step .processed
  let frame ← s.queue.worker.running.head?
  return { s with queue := queue, toIde := s.toIde.send frame frame }

def step (s : Link) : Action → Option Link
  | .sendTo command subcommand message => some (s.send command subcommand message)
  | .disturbToGateway e => (s.toGateway.disturb e).map fun n ↦ { s with toGateway := n }
  | .handleMessageFromUdp i beyond gw => s.handle i beyond gw
  | .setExclusive => some { s with messaging := s.messaging.setExclusive true }
  | .resetExclusive => some { s with messaging := s.messaging.resetExclusive }
  | .sendDpaMessageToUdp dpaMessage =>
      { s with dpaMessages := s.dpaMessages ++ [dpaMessage] }.handOver
        (s.messaging.sendDpaMessageToUdp dpaMessage)
  | .notifyAll => s.moveQueue .notifyAll
  | .spuriousWakeup => s.moveQueue .spuriousWakeup
  | .worker => s.moveQueue .worker
  | .processed => s.sendFrame
  | .disturbToIde e => (s.toIde.disturb e).map fun n ↦ { s with toIde := n }
  | .receive i => (s.toIde.deliver i).map fun delivery ↦ { s with toIde := delivery.2 }

def system : System Link Action where
  init s := s = create
  step := step

/-- Messages fit into the buffer of the channel, and the network damages datagrams by bursts
only, which leave the length field alone. -/
def Guard (s : Link) : Action → Prop
  | .sendTo _ _ message => message.length ≤ 1013
  | .disturbToGateway e => e.Within Packet.datagram Burst s.toGateway
  | .handleMessageFromUdp _ _ gw => (getGwIdent gw).length ≤ 1013
  | .sendDpaMessageToUdp dpaMessage => dpaMessage.length ≤ 1013
  | .disturbToIde e => e.Within id Burst s.toIde
  | _ => True

/-- The network makes copies. -/
def Action.copies : Action → Bool
  | .disturbToGateway e | .disturbToIde e => e.copies
  | _ => false

/-! ## The task queue of the link -/

theorem foldlM_pushToQueue {frames : List (List Byte)} {queue queue' : TaskQueue.State (List Byte)}
    (h : frames.foldlM (fun queue frame ↦ queue.step (.pushToQueue frame)) queue = some queue')
    (hqueue : Consistent queue) : Consistent queue' ∧ queue'.pushed = queue.pushed ++ frames ∧
      queue'.processed = queue.processed := by
  induction frames generalizing queue with
  | nil =>
      cases h
      exact ⟨hqueue, (List.append_nil _).symm, rfl⟩
  | cons frame frames ih =>
      rw [List.foldlM_cons] at h
      obtain ⟨next, hnext, hrest⟩ := Option.bind_eq_some_iff.mp h
      have hmoves := moves_of_step hnext
      obtain ⟨hconsistent, hpushed, hprocessed⟩ := ih hrest (hqueue.move hmoves)
      refine ⟨hconsistent, ?_, ?_⟩
      · rw [hpushed, hmoves.pushed_eq, List.append_assoc]
        rfl
      · rw [hprocessed, (hmoves.of_caller nofun nofun).2]

/-- A call that has pushed `frames`. -/
theorem handOver_eq_some {s t : Link} {messaging : UdpMessaging} {frames : List (List Byte)}
    (h : s.handOver messaging = some t)
    (hframes : messaging.toUdpMessageQueue = s.messaging.toUdpMessageQueue ++ frames)
    (hqueue : Consistent s.queue) :
    ∃ queue, t = { s with messaging := messaging, queue := queue } ∧ Consistent queue ∧
      queue.pushed = s.queue.pushed ++ frames ∧ queue.processed = s.queue.processed := by
  rw [handOver, hframes, List.drop_left] at h
  obtain ⟨queue, hpush, heq⟩ := Option.bind_eq_some_iff.mp h
  cases heq
  exact ⟨queue, rfl, foldlM_pushToQueue hpush hqueue⟩

theorem exists_queue_of_handOver {s t : Link} {messaging : UdpMessaging}
    (h : s.handOver messaging = some t) :
    ∃ queue, t = { s with messaging := messaging, queue := queue } := by
  obtain ⟨queue, -, heq⟩ := Option.bind_eq_some_iff.mp h
  cases heq
  exact ⟨queue, rfl⟩

theorem moveQueue_eq_some {s t : Link} {a : TaskQueue.Action (List Byte)}
    (hqueue : Consistent s.queue) (hpushes : a.pushes = []) (hprocessed : a ≠ .processed)
    (h : s.moveQueue a = some t) :
    ∃ queue, t = { s with queue := queue } ∧ Consistent queue ∧
      queue.pushed = s.queue.pushed ∧ queue.processed = s.queue.processed := by
  obtain ⟨queue, hmove, rfl⟩ := Option.map_eq_some_iff.mp h
  have hmoves := moves_of_step hmove
  refine ⟨queue, rfl, hqueue.move hmoves, ?_, ?_⟩
  · rw [hmoves.pushed_eq, hpushes, List.append_nil]
  · by_cases hworker : a = .worker
    · subst hworker
      exact hmoves.of_worker.2.2
    · exact (hmoves.of_caller hworker hprocessed).2

theorem sendFrame_eq_some {s t : Link} (hqueue : Consistent s.queue) (h : s.sendFrame = some t) :
    ∃ queue frame, t = { s with queue := queue, toIde := s.toIde.send frame frame } ∧
      Consistent queue ∧ queue.pushed = s.queue.pushed ∧
      queue.processed = s.queue.processed ++ [frame] := by
  obtain ⟨queue, hmove, h⟩ := Option.bind_eq_some_iff.mp h
  obtain ⟨frame, hframe, heq⟩ := Option.bind_eq_some_iff.mp h
  cases heq
  have hmoves := moves_of_step hmove
  refine ⟨queue, frame, rfl, hqueue.move hmoves, ?_, ?_⟩
  · exact hmoves.pushed_eq.trans (List.append_nil _)
  · cases hmoves with
    | processed task at_pc =>
        rw [at_pc] at hframe
        cases hframe
        rfl

/-! ## What holds in every state -/

def accepted (s : Link) : List Packet := s.toGateway.accepted Packet.datagram

/-- The writes among the packets, by what they write. -/
def writes (packets : List Packet) : List (List Byte) :=
  (packets.filter fun p ↦ p.command = iqrfUdpWriteIqrf).map Packet.message

/-- Both directions carry only what was sent, damaged by bursts at most.  The accepted
packets have been answered one by one, the replies and the frames of the DPA messages are
what has been pushed to the queue, and what was written to the channel are the messages of
accepted writes, in their order. -/
structure Faithful (s : Link) : Prop where
  toGateway_traced : Traced Packet.datagram Burst s.toGateway
  toIde_traced : Traced id Burst s.toIde
  fits : ∀ p ∈ s.toGateway.sent, p.message.length ≤ 1013
  answered : ∃ answers, List.Forall₂ Answers s.accepted answers ∧
    s.queue.pushed.Perm (answers ++ s.dpaMessages.map spiDataFrame)
  frames : ∀ d ∈ s.queue.pushed, IsFrame d
  written : s.messaging.sentTo.Sublist (writes s.accepted)
  pushed : s.queue.pushed = s.messaging.toUdpMessageQueue
  consistent : Consistent s.queue
  toIde_sent : s.toIde.sent = s.queue.processed

theorem faithful_create : Faithful create where
  toGateway_traced := traced_idle
  toIde_traced := traced_idle
  fits := nofun
  answered := ⟨[], .nil, .refl _⟩
  frames := nofun
  written := .refl _
  pushed := rfl
  consistent := TaskQueue.consistent_create
  toIde_sent := rfl

theorem Faithful.send {s : Link} (h : Faithful s) (command subcommand : Byte)
    {message : List Byte} (hmessage : message.length ≤ 1013) :
    Faithful (s.send command subcommand message) :=
  { h with
    toGateway_traced := h.toGateway_traced.send _
    fits := by
      intro p hp
      rcases List.mem_append.mp hp with hp | hp
      · exact h.fits p hp
      · rw [List.mem_singleton.mp hp]
        exact hmessage }

/-- A packet that has arrived intact is decoded. -/
theorem Faithful.decode_intact {s : Link} (h : Faithful s) {f : Flight Packet (List Byte)}
    (hf : f ∈ s.toGateway.inFlight) (hintact : f.arriving = f.origin.datagram)
    (beyond : ℕ → Byte) : decodeResult ⟨f.arriving, beyond⟩ = .ok f.origin.message := by
  have hmem : f ∈ s.toGateway.flights := List.mem_append_right _ (List.mem_append_left _ hf)
  rw [hintact]
  exact f.origin.decodeResult_datagram (h.fits _ (h.toGateway_traced f hmem).1) beyond

/-- A packet that the gateway accepts has arrived intact. -/
theorem Faithful.intact_of_decode {s : Link} (h : Faithful s) {f : Flight Packet (List Byte)}
    (hf : f ∈ s.toGateway.inFlight) {beyond : ℕ → Byte} {m : List Byte}
    (hdecode : decodeResult ⟨f.arriving, beyond⟩ = .ok m) : f.arriving = f.origin.datagram := by
  have hmem : f ∈ s.toGateway.flights := List.mem_append_right _ (List.mem_append_left _ hf)
  obtain ⟨hsent, hintact | hburst⟩ := h.toGateway_traced f hmem
  · exact hintact
  · exact absurd hdecode ((isFrame_datagram (h.fits _ hsent)).refused hburst beyond m)

theorem writes_append (packets : List Packet) (p : Packet) : writes (packets ++ [p]) =
    writes packets ++ if p.command = iqrfUdpWriteIqrf then [p.message] else [] := by
  rw [writes, List.filter_append, List.map_append, List.filter_singleton]
  by_cases hwrite : p.command = iqrfUdpWriteIqrf
  · rw [if_pos hwrite, decide_eq_true hwrite]
    rfl
  · rw [if_neg hwrite, decide_eq_false hwrite]
    rfl

/-- A datagram that the decoder refuses has not arrived intact, and leaves no trace. -/
theorem Faithful.refuse {s t : Link} (h : Faithful s) {i : ℕ} {beyond : ℕ → Byte} {gw : Gateway}
    {f : Flight Packet (List Byte)} {n : Medium Packet (List Byte)}
    (hdeliver : s.toGateway.deliver i = some (f, n)) {err : UdpChannelException}
    (hdecode : decodeResult ⟨f.arriving, beyond⟩ = .error err)
    (hstep : { s with toGateway := n }.handOver
      (handleMessageFromUdp gw s.messaging ⟨f.arriving, beyond⟩).1 = some t) : Faithful t := by
  obtain ⟨hget, hn⟩ := deliver_eq_some hdeliver
  have hsame : (handleMessageFromUdp gw s.messaging ⟨f.arriving, beyond⟩).1 = s.messaging := by
    simp only [handleMessageFromUdp, hdecode]
  have hnone : s.messaging.toUdpMessageQueue = s.messaging.toUdpMessageQueue ++ [] :=
    (List.append_nil _).symm
  have hdamaged : f.arriving ≠ f.origin.datagram := by
    intro hintact
    rw [h.decode_intact (List.mem_of_getElem? hget) hintact beyond] at hdecode
    cases hdecode
  have haccepted : n.accepted Packet.datagram = s.accepted := by
    rw [accepted_deliver hdeliver, if_neg hdamaged, List.append_nil]
    rfl
  have hsent : n.sent = s.toGateway.sent := by rw [hn]
  rw [hsame] at hstep
  obtain ⟨queue, rfl, hconsistent, hpushed, hprocessed⟩ :=
    handOver_eq_some hstep hnone h.consistent
  rw [List.append_nil] at hpushed
  refine ⟨h.toGateway_traced.deliver hdeliver, h.toIde_traced, ?_, ?_, ?_, ?_, ?_, hconsistent, ?_⟩
  · rw [hsent]
    exact h.fits
  · obtain ⟨answers, hanswers, hperm⟩ := h.answered
    refine ⟨answers, ?_, ?_⟩
    · change List.Forall₂ Answers (n.accepted Packet.datagram) answers
      rwa [haccepted]
    · rwa [hpushed]
  · rw [hpushed]
    exact h.frames
  · change s.messaging.sentTo.Sublist (writes (n.accepted Packet.datagram))
    rw [haccepted]
    exact h.written
  · exact hpushed.trans h.pushed
  · exact h.toIde_sent.trans hprocessed.symm

/-- A packet that the decoder accepts gets its reply, and a write is passed on. -/
theorem Faithful.accept {s t : Link} (h : Faithful s) {i : ℕ} {beyond : ℕ → Byte} {gw : Gateway}
    (hident : (getGwIdent gw).length ≤ 1013)
    {f : Flight Packet (List Byte)} {n : Medium Packet (List Byte)}
    (hdeliver : s.toGateway.deliver i = some (f, n)) {m : List Byte}
    (hdecode : decodeResult ⟨f.arriving, beyond⟩ = .ok m)
    (hstep : { s with toGateway := n }.handOver
      (handleMessageFromUdp gw s.messaging ⟨f.arriving, beyond⟩).1 = some t) : Faithful t := by
  obtain ⟨hget, hn⟩ := deliver_eq_some hdeliver
  have hf := List.mem_of_getElem? hget
  have hmem : f ∈ s.toGateway.flights := List.mem_append_right _ (List.mem_append_left _ hf)
  have hfits := h.fits _ (h.toGateway_traced f hmem).1
  have hintact := h.intact_of_decode hf hdecode
  have hmessage : m = f.origin.message := by
    rw [h.decode_intact hf hintact beyond] at hdecode
    exact (Except.ok.inj hdecode).symm
  have hcmd : Buffer.get ⟨f.arriving, beyond⟩ UdpHeader.cmd.index = f.origin.command := by
    rw [hintact]
    exact f.origin.get_datagram hfits beyond .cmd rfl
  have haccepted : n.accepted Packet.datagram = s.accepted ++ [f.origin] := by
    rw [accepted_deliver hdeliver, if_pos hintact]
    rfl
  have hsent : n.sent = s.toGateway.sent := by rw [hn]
  obtain ⟨udpResponse, hcalled, hheader⟩ := handleMessageFromUdp_of_ok gw s.messaging hdecode
  have hreply := isReply_encodeMessageUdp hident hheader
  rw [hcmd] at hcalled hreply
  have hanswer : Answers f.origin
      (encodeMessageUdp udpResponse (replyPayload gw f.origin.command)) := by
    rw [hintact] at hreply
    exact answers_of_isReply hfits hreply
  have hframe : IsFrame (encodeMessageUdp udpResponse (replyPayload gw f.origin.command)) :=
    ⟨_, _, length_replyPayload hident _, encodeMessageUdp_eq_frame _ (length_replyPayload hident _)⟩
  generalize encodeMessageUdp udpResponse (replyPayload gw f.origin.command) = reply
    at hcalled hanswer hframe
  rw [hcalled] at hstep
  obtain ⟨queue, rfl, hconsistent, hpushed, hprocessed⟩ := handOver_eq_some hstep rfl h.consistent
  refine ⟨h.toGateway_traced.deliver hdeliver, h.toIde_traced, ?_, ?_, ?_, ?_, ?_, hconsistent, ?_⟩
  · rw [hsent]
    exact h.fits
  · obtain ⟨answers, hanswers, hperm⟩ := h.answered
    refine ⟨answers ++ [reply], ?_, ?_⟩
    · change List.Forall₂ Answers (n.accepted Packet.datagram) _
      rw [haccepted]
      exact List.rel_append hanswers (.cons hanswer .nil)
    · rw [hpushed]
      refine (hperm.append_right _).trans ?_
      rw [List.append_assoc, List.append_assoc]
      exact List.perm_append_comm.append_left _
  · intro d hd
    rw [hpushed] at hd
    rcases List.mem_append.mp hd with hd | hd
    · exact h.frames d hd
    · rw [List.mem_singleton.mp hd]
      exact hframe
  · change List.Sublist _ (writes (n.accepted Packet.datagram))
    rw [haccepted, writes_append]
    refine h.written.append ?_
    rw [hmessage]
    by_cases hwrite : f.origin.command = iqrfUdpWriteIqrf
    · rw [if_pos hwrite]
      split_ifs
      · exact .refl _
      · exact List.nil_sublist _
    · rw [if_neg fun hboth ↦ hwrite hboth.1]
      exact List.nil_sublist _
  · rw [hpushed, h.pushed]
  · exact h.toIde_sent.trans hprocessed.symm

theorem Faithful.handle {s t : Link} (h : Faithful s) {i : ℕ} {beyond : ℕ → Byte} {gw : Gateway}
    (hident : (getGwIdent gw).length ≤ 1013) (hstep : s.handle i beyond gw = some t) :
    Faithful t := by
  obtain ⟨delivery, hdeliver, hhand⟩ := Option.bind_eq_some_iff.mp hstep
  cases hdecode : decodeResult ⟨delivery.1.arriving, beyond⟩ with
  | error err => exact h.refuse hdeliver hdecode hhand
  | ok m => exact h.accept hident hdeliver hdecode hhand

/-- The frame of a DPA message is queued behind the others. -/
theorem Faithful.sendDpaMessageToUdp {s t : Link} (h : Faithful s) {dpaMessage : DpaMessage}
    (hmessage : dpaMessage.length ≤ 1013)
    (hstep : { s with dpaMessages := s.dpaMessages ++ [dpaMessage] }.handOver
      (s.messaging.sendDpaMessageToUdp dpaMessage) = some t) : Faithful t := by
  rw [UdpMessaging.sendDpaMessageToUdp_eq] at hstep
  obtain ⟨queue, rfl, hconsistent, hpushed, hprocessed⟩ := handOver_eq_some hstep rfl h.consistent
  refine ⟨h.toGateway_traced, h.toIde_traced, h.fits, ?_, ?_, h.written, ?_, hconsistent, ?_⟩
  · obtain ⟨answers, hanswers, hperm⟩ := h.answered
    refine ⟨answers, hanswers, ?_⟩
    rw [hpushed, List.map_append, ← List.append_assoc]
    exact hperm.append_right _
  · intro d hd
    rw [hpushed] at hd
    rcases List.mem_append.mp hd with hd | hd
    · exact h.frames d hd
    · rw [List.mem_singleton.mp hd]
      exact isFrame_spiDataFrame hmessage
  · rw [hpushed, h.pushed]
    rfl
  · exact h.toIde_sent.trans hprocessed.symm

theorem Faithful.moveQueue {s t : Link} (h : Faithful s) (a : TaskQueue.Action (List Byte))
    (hpushes : a.pushes = []) (hprocessed : a ≠ .processed) (hstep : s.moveQueue a = some t) :
    Faithful t := by
  obtain ⟨queue, rfl, hconsistent, hpushed, hsame⟩ :=
    moveQueue_eq_some h.consistent hpushes hprocessed hstep
  refine ⟨h.toGateway_traced, h.toIde_traced, h.fits, ?_, ?_, h.written, ?_, hconsistent, ?_⟩
  · rw [hpushed]
    exact h.answered
  · rw [hpushed]
    exact h.frames
  · exact hpushed.trans h.pushed
  · exact h.toIde_sent.trans hsame.symm

theorem Faithful.sendFrame {s t : Link} (h : Faithful s) (hstep : s.sendFrame = some t) :
    Faithful t := by
  obtain ⟨queue, frame, rfl, hconsistent, hpushed, hprocessed⟩ :=
    sendFrame_eq_some h.consistent hstep
  refine ⟨h.toGateway_traced, h.toIde_traced.send frame, h.fits, ?_, ?_, h.written, ?_, hconsistent,
    ?_⟩
  · rw [hpushed]
    exact h.answered
  · rw [hpushed]
    exact h.frames
  · exact hpushed.trans h.pushed
  · change s.toIde.sent ++ [frame] = queue.processed
    rw [hprocessed, h.toIde_sent]

theorem Faithful.disturbToGateway {s : Link} (h : Faithful s) {e : Disturbance (List Byte)}
    {n : Medium Packet (List Byte)} (he : e.Within Packet.datagram Burst s.toGateway)
    (hstep : s.toGateway.disturb e = some n) : Faithful { s with toGateway := n } := by
  obtain ⟨hsent, hdelivered⟩ := disturb_eq_some hstep
  have haccepted : n.accepted Packet.datagram = s.accepted := by
    rw [Medium.accepted, hdelivered]
    rfl
  refine ⟨h.toGateway_traced.disturb he hstep, h.toIde_traced, ?_, ?_, h.frames, ?_, h.pushed,
    h.consistent, h.toIde_sent⟩
  · rw [hsent]
    exact h.fits
  · obtain ⟨answers, hanswers, hperm⟩ := h.answered
    refine ⟨answers, ?_, hperm⟩
    change List.Forall₂ Answers (n.accepted Packet.datagram) answers
    rwa [haccepted]
  · change s.messaging.sentTo.Sublist (writes (n.accepted Packet.datagram))
    rw [haccepted]
    exact h.written

theorem Faithful.step {s t : Link} {a : Action} (h : Faithful s) (hguard : Guard s a)
    (hstep : s.step a = some t) : Faithful t := by
  cases a with
  | sendTo command subcommand message =>
      cases hstep
      exact h.send command subcommand hguard
  | disturbToGateway e =>
      obtain ⟨n, hn, rfl⟩ := Option.map_eq_some_iff.mp hstep
      exact h.disturbToGateway hguard hn
  | handleMessageFromUdp i beyond gw => exact h.handle hguard hstep
  | setExclusive =>
      cases hstep
      exact ⟨h.toGateway_traced, h.toIde_traced, h.fits, h.answered, h.frames, h.written, h.pushed,
        h.consistent, h.toIde_sent⟩
  | resetExclusive =>
      cases hstep
      exact ⟨h.toGateway_traced, h.toIde_traced, h.fits, h.answered, h.frames, h.written, h.pushed,
        h.consistent, h.toIde_sent⟩
  | sendDpaMessageToUdp dpaMessage => exact h.sendDpaMessageToUdp hguard hstep
  | notifyAll => exact h.moveQueue .notifyAll rfl nofun hstep
  | spuriousWakeup => exact h.moveQueue .spuriousWakeup rfl nofun hstep
  | worker => exact h.moveQueue .worker rfl nofun hstep
  | processed => exact h.sendFrame hstep
  | disturbToIde e =>
      obtain ⟨n, hn, rfl⟩ := Option.map_eq_some_iff.mp hstep
      exact ⟨h.toGateway_traced, h.toIde_traced.disturb hguard hn, h.fits, h.answered, h.frames,
        h.written, h.pushed, h.consistent, (disturb_eq_some hn).1.trans h.toIde_sent⟩
  | receive i =>
      obtain ⟨delivery, hdelivery, rfl⟩ := Option.map_eq_some_iff.mp hstep
      have hn := (deliver_eq_some hdelivery).2
      refine ⟨h.toGateway_traced, h.toIde_traced.deliver hdelivery, h.fits, h.answered, h.frames,
        h.written, h.pushed, h.consistent, ?_⟩
      change delivery.2.sent = s.queue.processed
      rw [hn]
      exact h.toIde_sent

theorem faithful_of_reachable {s : Link} (h : system.ReachableVia Guard s) : Faithful s := by
  refine h.invariant ?_ fun s a t hs hguard hstep ↦ hs.step hguard hstep
  rintro s rfl
  exact faithful_create

/-! ## The numbers of the packets -/

/-- Only the IDE sends packets, and numbers them. -/
theorem sent_of_step {s t : Link} {a : Action} (hstep : s.step a = some t) :
    (t.pacid = s.pacid ∧ t.toGateway.sent = s.toGateway.sent) ∨
      ∃ command subcommand message, t = s.send command subcommand message := by
  cases a with
  | sendTo command subcommand message =>
      cases hstep
      exact .inr ⟨_, _, _, rfl⟩
  | disturbToGateway e =>
      obtain ⟨n, hn, rfl⟩ := Option.map_eq_some_iff.mp hstep
      exact .inl ⟨rfl, (disturb_eq_some hn).1⟩
  | handleMessageFromUdp i beyond gw =>
      obtain ⟨delivery, hdeliver, hhand⟩ := Option.bind_eq_some_iff.mp hstep
      obtain ⟨queue, rfl⟩ := exists_queue_of_handOver hhand
      refine .inl ⟨rfl, ?_⟩
      change delivery.2.sent = s.toGateway.sent
      rw [(deliver_eq_some hdeliver).2]
  | setExclusive =>
      cases hstep
      exact .inl ⟨rfl, rfl⟩
  | resetExclusive =>
      cases hstep
      exact .inl ⟨rfl, rfl⟩
  | sendDpaMessageToUdp dpaMessage =>
      obtain ⟨queue, rfl⟩ := exists_queue_of_handOver hstep
      exact .inl ⟨rfl, rfl⟩
  | notifyAll | spuriousWakeup | worker =>
      obtain ⟨queue, -, rfl⟩ := Option.map_eq_some_iff.mp hstep
      exact .inl ⟨rfl, rfl⟩
  | processed =>
      obtain ⟨queue, -, h⟩ := Option.bind_eq_some_iff.mp hstep
      obtain ⟨frame, -, heq⟩ := Option.bind_eq_some_iff.mp h
      cases heq
      exact .inl ⟨rfl, rfl⟩
  | disturbToIde e | receive i =>
      obtain ⟨n, -, rfl⟩ := Option.map_eq_some_iff.mp hstep
      exact .inl ⟨rfl, rfl⟩

/-- The packets are numbered from one, modulo 2 ^ 16. -/
structure Numbered (s : Link) : Prop where
  pacid : s.pacid = BitVec.ofNat 16 s.toGateway.sent.length
  numbers : s.toGateway.sent.map Packet.pacid =
    (List.range s.toGateway.sent.length).map fun k ↦ BitVec.ofNat 16 (k + 1)

theorem Numbered.step {s t : Link} {a : Action} (h : Numbered s) (hstep : s.step a = some t) :
    Numbered t := by
  rcases sent_of_step hstep with ⟨hpacid, hsent⟩ | ⟨command, subcommand, message, rfl⟩
  · exact ⟨by rw [hpacid, hsent, h.pacid], by rw [hsent, h.numbers]⟩
  · have hnext : s.pacid + 1 = BitVec.ofNat 16 (s.toGateway.sent.length + 1) := by
      rw [h.pacid, BitVec.ofNat_add]
      rfl
    constructor
    · change s.pacid + 1 = BitVec.ofNat 16 (s.toGateway.sent ++ [_]).length
      rw [hnext, List.length_append, List.length_singleton]
    · change (s.toGateway.sent ++ [_]).map Packet.pacid = _
      rw [List.map_append, h.numbers]
      change _ ++ [s.pacid + 1] = (List.range (s.toGateway.sent ++ [_]).length).map _
      rw [List.length_append, List.length_singleton, List.range_succ, List.map_append, hnext]
      rfl

theorem numbered_of_reachable {s : Link} (h : system.Reachable s) : Numbered s := by
  refine h.invariant ?_ fun s a t hs hstep ↦ hs.step hstep
  rintro s rfl
  exact ⟨rfl, rfl⟩

/-- Until the counter runs over, a number belongs to one packet. -/
theorem Numbered.eq_of_pacid {s : Link} (h : Numbered s)
    (hfew : s.toGateway.sent.length ≤ 65536) {p q : Packet} (hp : p ∈ s.toGateway.sent)
    (hq : q ∈ s.toGateway.sent) (hpq : p.pacid = q.pacid) : p = q := by
  have hnodup : (s.toGateway.sent.map Packet.pacid).Nodup := by
    rw [h.numbers]
    refine List.Nodup.map_on ?_ List.nodup_range
    intro i hi j hj hij
    have hi := List.mem_range.mp hi
    have hj := List.mem_range.mp hj
    have hmod := congrArg BitVec.toNat hij
    simp only [BitVec.toNat_ofNat] at hmod
    omega
  exact List.inj_on_of_nodup_map hnodup hp hq hpq

/-! ## Nothing is made up -/

theorem exists_packet_of_mem {packets : List Packet} {answers : List (List Byte)} {d : List Byte}
    (h : List.Forall₂ Answers packets answers) (hd : d ∈ answers) :
    ∃ p ∈ packets, Answers p d := by
  induction h with
  | nil => cases hd
  | @cons p _ _ _ hanswer _ ih =>
      rcases List.mem_cons.mp hd with rfl | hd
      · exact ⟨p, List.mem_cons_self, hanswer⟩
      · obtain ⟨q, hq, hanswer⟩ := ih hd
        exact ⟨q, List.mem_cons_of_mem p hq, hanswer⟩

/-- A frame that has been pushed is a reply to an accepted packet or carries a DPA message. -/
theorem Faithful.mem_pushed {s : Link} (h : Faithful s) {d : List Byte}
    (hd : d ∈ s.queue.pushed) :
    (∃ m ∈ s.dpaMessages, d = spiDataFrame m) ∨ ∃ p ∈ s.toGateway.sent, Answers p d := by
  obtain ⟨answers, hanswers, hperm⟩ := h.answered
  rcases List.mem_append.mp (hperm.mem_iff.mp hd) with hd | hd
  · obtain ⟨p, hp, hanswer⟩ := exists_packet_of_mem hanswers hd
    exact .inr ⟨p, h.toGateway_traced.mem_sent hp, hanswer⟩
  · obtain ⟨m, hm, rfl⟩ := List.mem_map.mp hd
    exact .inl ⟨m, hm, rfl⟩

/-- What reaches the IDE has been pushed, and the decoder accepts it only undamaged. -/
theorem Faithful.pushed_of_decode {s : Link} (h : Faithful s) {f : Flight (List Byte) (List Byte)}
    (hf : f ∈ s.toIde.delivered) {beyond : ℕ → Byte} {payload : List Byte}
    (hdecode : decodeResult ⟨f.arriving, beyond⟩ = .ok payload) :
    f.arriving ∈ s.queue.pushed := by
  obtain ⟨hsent, hintact⟩ := h.toIde_traced f (List.mem_append_left _ hf)
  have hpushed : f.origin ∈ s.queue.pushed := by
    rw [h.consistent.pushed_eq, h.consistent.handed_eq, ← h.toIde_sent]
    simp [hsent]
  rcases hintact with hintact | hburst
  · rw [show f.arriving = f.origin from hintact]
    exact hpushed
  · exact absurd hdecode ((h.frames _ hpushed).refused hburst beyond payload)

/-- Whatever the network does, the gateway writes to the channel only messages that the IDE
has sent to be written, and a datagram that the IDE accepts carries a DPA message or is a
well-formed reply to a packet it has sent: to one packet, until the numbers recur. -/
theorem link_faithful {s : Link} (h : system.ReachableVia Guard s) :
    (∀ m ∈ s.messaging.sentTo, ∃ p ∈ s.toGateway.sent,
      p.command = iqrfUdpWriteIqrf ∧ p.message = m) ∧
      ∀ f ∈ s.toIde.delivered, ∀ beyond payload,
        decodeResult ⟨f.arriving, beyond⟩ = .ok payload →
          (∃ m ∈ s.dpaMessages, f.arriving = spiDataFrame m) ∨
            ∃ p ∈ s.toGateway.sent, Answers p f.arriving ∧
              (s.toGateway.sent.length ≤ 65536 →
                ∀ q ∈ s.toGateway.sent, Answers q f.arriving → q = p) := by
  have hs := faithful_of_reachable h
  constructor
  · intro m hm
    obtain ⟨p, hp, rfl⟩ := List.mem_map.mp (hs.written.subset hm)
    obtain ⟨hp, hwrite⟩ := List.mem_filter.mp hp
    exact ⟨p, hs.toGateway_traced.mem_sent hp, by simpa using hwrite, rfl⟩
  · intro f hf beyond payload hdecode
    rcases hs.mem_pushed (hs.pushed_of_decode hf hdecode) with hdpa | ⟨p, hp, hanswer⟩
    · exact .inl hdpa
    · refine .inr ⟨p, hp, hanswer, fun hfew q hq hanswer' ↦ ?_⟩
      have hpacid : q.pacid = p.pacid := hanswer'.pacid.symm.trans hanswer.pacid
      exact (numbered_of_reachable h.any).eq_of_pacid hfew hq hp hpacid

/-- The guard of runs in which the network makes no copies. -/
def GuardOnce (s : Link) (a : Action) : Prop := Guard s a ∧ a.copies = false

/-- A write is sent, passed on, acknowledged and received. -/
def writeRun : List Action :=
  [.setExclusive, .sendTo 0x03 0 [1, 2], .handleMessageFromUdp 0 (fun _ ↦ 0) exampleGateway,
    .worker, .worker, .worker, .worker, .worker, .worker, .processed, .receive 0]

theorem isSome_writeRun : (system.run create writeRun).isSome = true := by decide +kernel

def writtenLink : Link := (system.run create writeRun).get isSome_writeRun

theorem reachable_writtenLink : system.ReachableVia GuardOnce writtenLink := by
  have hident : (getGwIdent exampleGateway).length ≤ 1013 := by decide +kernel
  refine ⟨create, rfl, System.reaches_of_run writeRun ?_ (Option.some_get isSome_writeRun).symm⟩
  intro a ha r
  simp only [writeRun, List.mem_cons, List.not_mem_nil, or_false] at ha
  rcases ha with rfl | rfl | rfl | rfl | rfl | rfl | rfl | rfl | rfl | rfl | rfl
  case inr.inl => exact ⟨(by decide : 2 ≤ 1013), rfl⟩
  case inr.inr.inl => exact ⟨hident, rfl⟩
  all_goals exact ⟨trivial, rfl⟩

theorem GuardOnce.reachable {s : Link} (h : system.ReachableVia GuardOnce s) :
    system.ReachableVia Guard s := by
  obtain ⟨s₀, hinit, hrun⟩ := h
  exact ⟨s₀, hinit, hrun.mono fun _ _ hguard ↦ hguard.1⟩

theorem link_faithful_write :
    writtenLink.messaging.sentTo = [[1, 2]] ∧ writtenLink.toIde.delivered.length = 1 ∧
      ∀ m ∈ writtenLink.messaging.sentTo, ∃ p ∈ writtenLink.toGateway.sent,
        p.command = iqrfUdpWriteIqrf ∧ p.message = m :=
  ⟨by decide +kernel, by decide +kernel,
    (link_faithful (GuardOnce.reachable reachable_writtenLink)).1⟩

/-! ## Nothing is lost or duplicated in the gateway -/

theorem moves_toGateway {s t : Link} {a : Action} (hcopies : a.copies = false)
    (hstep : s.step a = some t) : MovesOnce s.toGateway t.toGateway := by
  cases a with
  | sendTo command subcommand message =>
      cases hstep
      exact .send _ _
  | disturbToGateway e =>
      obtain ⟨n, hn, rfl⟩ := Option.map_eq_some_iff.mp hstep
      exact .disturb hcopies hn
  | handleMessageFromUdp i beyond gw =>
      obtain ⟨delivery, hdeliver, hhand⟩ := Option.bind_eq_some_iff.mp hstep
      obtain ⟨queue, rfl⟩ := exists_queue_of_handOver hhand
      exact .deliver hdeliver
  | setExclusive =>
      cases hstep
      exact .stay
  | resetExclusive =>
      cases hstep
      exact .stay
  | sendDpaMessageToUdp dpaMessage =>
      obtain ⟨queue, rfl⟩ := exists_queue_of_handOver hstep
      exact .stay
  | notifyAll | spuriousWakeup | worker | disturbToIde e | receive i =>
      obtain ⟨n, -, rfl⟩ := Option.map_eq_some_iff.mp hstep
      exact .stay
  | processed =>
      obtain ⟨queue, -, h⟩ := Option.bind_eq_some_iff.mp hstep
      obtain ⟨frame, -, heq⟩ := Option.bind_eq_some_iff.mp h
      cases heq
      exact .stay

theorem moves_toIde {s t : Link} {a : Action} (hcopies : a.copies = false)
    (hstep : s.step a = some t) : MovesOnce s.toIde t.toIde := by
  cases a with
  | sendTo command subcommand message =>
      cases hstep
      exact .stay
  | disturbToIde e =>
      obtain ⟨n, hn, rfl⟩ := Option.map_eq_some_iff.mp hstep
      exact .disturb hcopies hn
  | handleMessageFromUdp i beyond gw =>
      obtain ⟨delivery, -, hhand⟩ := Option.bind_eq_some_iff.mp hstep
      obtain ⟨queue, rfl⟩ := exists_queue_of_handOver hhand
      exact .stay
  | setExclusive =>
      cases hstep
      exact .stay
  | resetExclusive =>
      cases hstep
      exact .stay
  | sendDpaMessageToUdp dpaMessage =>
      obtain ⟨queue, rfl⟩ := exists_queue_of_handOver hstep
      exact .stay
  | notifyAll | spuriousWakeup | worker | disturbToGateway e =>
      obtain ⟨n, -, rfl⟩ := Option.map_eq_some_iff.mp hstep
      exact .stay
  | receive i =>
      obtain ⟨delivery, hdelivery, rfl⟩ := Option.map_eq_some_iff.mp hstep
      exact .deliver hdelivery
  | processed =>
      obtain ⟨queue, -, h⟩ := Option.bind_eq_some_iff.mp hstep
      obtain ⟨frame, -, heq⟩ := Option.bind_eq_some_iff.mp h
      cases heq
      exact .send _ _

theorem conserved_of_reachable {s : Link} (h : system.ReachableVia GuardOnce s) :
    Conserved s.toGateway ∧ Conserved s.toIde := by
  refine System.ReachableVia.invariant (I := fun s ↦ Conserved s.toGateway ∧ Conserved s.toIde) ?_
    (fun s a t hs hguard hstep ↦ ?_) h
  · rintro s rfl
    exact ⟨conserved_idle, conserved_idle⟩
  · exact ⟨hs.1.move (moves_toGateway hguard.2 hstep), hs.2.move (moves_toIde hguard.2 hstep)⟩

/-- Over a network that makes no copies, every packet has been accepted once or is
outstanding, every accepted packet has got one reply, the messages written to the channel
are those of accepted writes, each once and in their order, and every reply and every frame
of a DPA message has been accepted by the IDE once, is outstanding, or waits in the queue. -/
theorem link_exactly_once {s : Link} (h : system.ReachableVia GuardOnce s) :
    s.toGateway.sent.Perm (s.accepted ++ s.toGateway.outstanding Packet.datagram) ∧
      s.messaging.sentTo.Sublist (writes s.accepted) ∧
      ∃ answers, List.Forall₂ Answers s.accepted answers ∧
        (answers ++ s.dpaMessages.map spiDataFrame).Perm
          (s.toIde.accepted id ++ (s.toIde.outstanding id ++
            (s.queue.worker.running ++ s.queue.worker.inHand ++ s.queue.taskQueue))) := by
  obtain ⟨htoGateway, htoIde⟩ := conserved_of_reachable h
  have hs := faithful_of_reachable (GuardOnce.reachable h)
  obtain ⟨answers, hanswers, hperm⟩ := hs.answered
  refine ⟨htoGateway.perm_accepted _, hs.written, answers, hanswers, hperm.symm.trans ?_⟩
  have hsent := htoIde.perm_accepted id
  rw [hs.toIde_sent] at hsent
  rw [hs.consistent.pushed_eq, hs.consistent.handed_eq, ← List.append_assoc,
    List.append_assoc s.queue.processed, List.append_assoc s.queue.processed]
  exact hsent.append_right _

theorem link_exactly_once_write :
    writtenLink.toGateway.sent.length = 1 ∧
      writtenLink.toGateway.sent.Perm
        (writtenLink.accepted ++ writtenLink.toGateway.outstanding Packet.datagram) ∧
      writtenLink.messaging.sentTo.Sublist (writes writtenLink.accepted) ∧
      ∃ answers, List.Forall₂ Answers writtenLink.accepted answers ∧
        (answers ++ writtenLink.dpaMessages.map spiDataFrame).Perm
          (writtenLink.toIde.accepted id ++ (writtenLink.toIde.outstanding id ++
            (writtenLink.queue.worker.running ++ writtenLink.queue.worker.inHand ++
              writtenLink.queue.taskQueue))) :=
  ⟨by decide +kernel, link_exactly_once reachable_writtenLink⟩

end Link

end IqrfDaemon.Udp
