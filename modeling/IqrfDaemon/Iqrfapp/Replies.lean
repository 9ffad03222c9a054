import IqrfDaemon.Iqrfapp.Model

/-!
# Replies that belong to their command

The flag is reset where a wait ends and nowhere else, so a message that is handled between two
commands is still in the slot for the second, and one that waits in the queue will be.  If
nothing is left over when a command is sent, all that comes to the slot has arrived after it.
-/

namespace IqrfDaemon.Iqrfapp

open Json Serializer Transition

variable {parseString : String → Except Failure Value} {s t : State} {k : ℕ}

namespace State

/-! ## Messages on their way -/

/-- The messages in the queue and in hand, and the one that the flag announces. -/
structure Carries (s : State) (P : Message → Prop) : Prop where
  queue : ∀ m ∈ s.msgQueue, P m
  hand : ∀ m ∈ s.inHand, P m
  flag : s.flagMessageReceived = true → ∃ m, s.messageReceived = some m ∧ P m

namespace Carries

variable {P Q : Message → Prop}

theorem imp (h : s.Carries P) (hPQ : ∀ m, P m → Q m) : s.Carries Q where
  queue m hm := hPQ m (h.queue m hm)
  hand m hm := hPQ m (h.hand m hm)
  flag hflag := (h.flag hflag).imp fun m hm ↦ ⟨hm.1, hPQ m hm.2⟩

theorem arrive (h : s.Carries P) {data : List Byte} (hnew : P ⟨s.arrived, data⟩) :
    (s.arrive data).Carries P where
  queue m hm := by
    rcases List.mem_append.mp hm with hm | hm
    · exact h.queue m hm
    · rwa [List.mem_singleton.mp hm]
  hand := h.hand
  flag := h.flag

theorem take (h : s.Carries P) {message : Message} {rest : List Message}
    (hqueue : s.msgQueue = message :: rest) :
    Carries { s with inHand := some message, msgQueue := rest } P where
  queue m hm := h.queue m (hqueue ▸ List.mem_cons_of_mem message hm)
  hand m hm := by
    obtain rfl : message = m := Option.some.inj hm
    exact h.queue message (hqueue ▸ List.mem_cons_self)
  flag := h.flag

theorem handleMessageReceived (h : s.Carries P) {message : Message}
    (hhand : s.inHand = some message) : (s.handleMessageReceived message).Carries P where
  queue := h.queue
  hand m hm := by cases hm
  flag _ := ⟨message, rfl, h.hand message hhand⟩

theorem wake (h : s.Carries P) (listener : Listener) (res : Bool) :
    (s.wake listener res).Carries P where
  queue := h.queue
  hand := h.hand
  flag hflag := by cases hflag

theorem begin (h : s.Carries P) (params : List (List Char)) (command : Option Command) :
    (s.begin params command).Carries P := by
  rcases command with _ | command
  · exact h
  · cases command with
    | send timeout => cases timeout <;> exact ⟨h.queue, h.hand, h.flag⟩
    | _ => exact ⟨h.queue, h.hand, h.flag⟩

theorem showResult (h : s.Carries P) (listener : Listener) (res : Bool) :
    (s.showResult listener res).Carries P := by
  cases listener <;> exact ⟨h.queue, h.hand, h.flag⟩

end Carries

/-- A message has arrived that no wait has taken. -/
def Left (s : State) : Prop :=
  s.flagMessageReceived = true ∨ s.msgQueue ≠ [] ∨ s.inHand ≠ none

theorem carries_of_not_left (h : ¬ s.Left) (P : Message → Prop) : s.Carries P := by
  simp only [Left, not_or, not_not] at h
  obtain ⟨hflag, hqueue, hhand⟩ := h
  refine ⟨fun m hm ↦ ?_, fun m hm ↦ ?_, fun hset ↦ absurd hset hflag⟩
  · simp [hqueue] at hm
  · simp [hhand] at hm

/-! ## Results -/

/-- The results of commands have arrived after their command was sent. -/
def OwnReplies (s : State) : Prop :=
  ∀ k m, .received (.command k) m ∈ s.shown → ∃ r, m = some r ∧ k ≤ r.serial

/-- Only messages are on their way that have arrived since, or will. -/
def Since (s : State) (k : ℕ) : Prop := k ≤ s.arrived ∧ s.Carries fun m ↦ k ≤ m.serial

def Current (s : State) (k : ℕ) : Prop := ∃ m, s.messageReceived = some m ∧ k ≤ m.serial

/-- From its sending to its result a command finds its own messages only. -/
def Awaits (s : State) : Prop :=
  match s.main with
  | .waitForMessageReceived (.command k) => s.Since k
  | .showResult (.command k) true => s.Since k ∧ s.Current k
  | _ => True

theorem Awaits.receive (h : s.Awaits) (hmain : t.main = s.main)
    (hsince : ∀ k, s.Since k → t.Since k ∧ (s.Current k → t.Current k)) : t.Awaits := by
  rw [Awaits] at h ⊢
  rw [hmain]
  split
  case h_1 k hpc =>
    rw [hpc] at h
    exact (hsince k h).1
  case h_2 k hpc =>
    rw [hpc] at h
    exact ⟨(hsince k h.1).1, (hsince k h.1).2 h.2⟩
  case h_3 => trivial

theorem begin_awaits (hmain : s.main = .prompt) (params : List (List Char))
    (command : Option Command) :
    (s.begin params command).Awaits ∧ (s.begin params command).shown = s.shown := by
  rcases command with _ | command
  · exact ⟨by rw [Awaits, begin, hmain]; trivial, rfl⟩
  · cases command with
    | nothing => exact ⟨by rw [Awaits, begin, hmain]; trivial, rfl⟩
    | send timeout => cases timeout <;> exact ⟨trivial, rfl⟩
    | _ => exact ⟨trivial, rfl⟩

theorem OwnReplies.append (h : s.OwnReplies) {result : Shown}
    (hshown : t.shown = s.shown ++ [result])
    (hown : ∀ k m, result = .received (.command k) m → ∃ r, m = some r ∧ k ≤ r.serial) :
    t.OwnReplies := by
  intro k m hmem
  rw [hshown] at hmem
  rcases List.mem_append.mp hmem with hmem | hmem
  · exact h k m hmem
  · exact hown k m (List.mem_singleton.mp hmem).symm

theorem showResult_awaits (listener : Listener) (res : Bool) :
    (s.showResult listener res).Awaits := by
  cases listener <;> trivial

theorem showResult_shown (listener : Listener) (res : Bool) :
    (s.showResult listener res).shown =
      s.shown ++ [if res then .received listener s.messageReceived else .timeout listener] := by
  cases listener <;> rfl

theorem begin_arrived (params : List (List Char)) (command : Option Command) :
    (s.begin params command).arrived = s.arrived := by
  rcases command with _ | command
  · rfl
  · cases command with
    | send timeout => cases timeout <;> rfl
    | _ => rfl

theorem showResult_arrived (listener : Listener) (res : Bool) :
    (s.showResult listener res).arrived = s.arrived := by
  cases listener <;> rfl

end State

/-! ## Steps -/

inductive Moves (s : State) : Action → State → Prop
  | line {command : List Char} {accepted : Option Command} (prompt : s.main = .prompt) :
      Moves s (.line command) (s.begin (readParams command) accepted)
  | arrive (data : List Byte) : Moves s (.arrive data) (s.arrive data)
  | take {message : Message} {rest : List Message} (queue : s.msgQueue = message :: rest)
      (hand : s.inHand = none) :
      Moves s .take { s with inHand := some message, msgQueue := rest }
  | handle {message : Message} (hand : s.inHand = some message) :
      Moves s .handleMessageReceived (s.handleMessageReceived message)
  | send {params : List (List Char)} (sending : s.main = .sendParamsAsMessage params) :
      Moves s .sendParamsAsMessage (s.sendParamsAsMessage params)
  | wake {listener : Listener} (waiting : s.main = .waitForMessageReceived listener)
      (flag : s.flagMessageReceived = true) : Moves s .wake (s.wake listener true)
  | timeout {listener : Listener} (waiting : s.main = .waitForMessageReceived listener) :
      Moves s .timeout (s.wake listener false)
  | showResult {listener : Listener} {res : Bool} (showing : s.main = .showResult listener res) :
      Moves s .showResult (s.showResult listener res)

theorem moves_of_step {a : Action} (hstep : s.step parseString a = some t) : Moves s a t := by
  cases a with
  | arrive data =>
      obtain rfl := Option.some.inj hstep
      exact .arrive data
  | take =>
      rw [State.step] at hstep
      cases hhand : s.inHand <;> cases hqueue : s.msgQueue <;>
        simp only [hhand, hqueue] at hstep <;> cases hstep
      exact .take hqueue hhand
  | handleMessageReceived =>
      obtain ⟨message, hhand, rfl⟩ := Option.map_eq_some_iff.mp hstep
      exact .handle hhand
  | line command =>
      rw [State.step] at hstep
      cases hpc : s.main <;> simp only [hpc] at hstep <;> cases hstep
      exact .line hpc
  | sendParamsAsMessage =>
      rw [State.step] at hstep
      cases hpc : s.main <;> simp only [hpc] at hstep <;> cases hstep
      exact .send hpc
  | showResult =>
      rw [State.step] at hstep
      cases hpc : s.main <;> simp only [hpc] at hstep <;> cases hstep
      exact .showResult hpc
  | wake =>
      rw [State.step] at hstep
      cases hpc : s.main <;> simp only [hpc] at hstep
      case waitForMessageReceived listener =>
        obtain ⟨hflag, hwake⟩ := Option.ite_none_right_eq_some.mp hstep
        obtain rfl := Option.some.inj hwake
        exact .wake hpc hflag
      all_goals cases hstep
  | timeout =>
      rw [State.step] at hstep
      cases hpc : s.main <;> simp only [hpc] at hstep
      case waitForMessageReceived listener =>
        obtain rfl := Option.some.inj (Option.ite_none_right_eq_some.mp hstep).2
        exact .timeout hpc
      all_goals cases hstep

/-! ## Runs -/

/-- Nothing is left over when a command is sent. -/
def sendsClean (s : State) : Action → Prop
  | .sendParamsAsMessage => ¬ s.Left
  | _ => True

instance (s : State) : DecidablePred (sendsClean s)
  | .sendParamsAsMessage => inferInstanceAs (Decidable ¬(_ ∨ _ ∨ _))
  | .line _ | .arrive _ | .take | .handleMessageReceived | .wake | .timeout | .showResult =>
      isTrue trivial

structure Invariant (s : State) : Prop where
  own : s.OwnReplies
  awaits : s.Awaits

theorem Invariant.step (h : Invariant s) {a : Action} (hclean : sendsClean s a)
    (hmoves : Moves s a t) : Invariant t := by
  have hawaits := h.awaits
  cases hmoves with
  | line prompt =>
      obtain ⟨hbegun, hshown⟩ := State.begin_awaits prompt _ _
      exact ⟨fun k m hm ↦ h.own k m (hshown ▸ hm), hbegun⟩
  | arrive data =>
      refine ⟨h.own, hawaits.receive rfl fun k hsince ↦ ⟨⟨?_, ?_⟩, id⟩⟩
      · exact hsince.1.trans (Nat.le_succ _)
      · exact hsince.2.arrive hsince.1
  | take queue =>
      exact ⟨h.own, hawaits.receive rfl fun k hsince ↦ ⟨⟨hsince.1, hsince.2.take queue⟩, id⟩⟩
  | @handle message hand =>
      refine ⟨h.own, hawaits.receive rfl fun k hsince ↦ ⟨⟨hsince.1, ?_⟩, fun _ ↦ ?_⟩⟩
      · exact hsince.2.handleMessageReceived hand
      · exact ⟨message, rfl, hsince.2.hand message hand⟩
  | send sending =>
      have hnone := State.carries_of_not_left hclean fun m ↦ s.arrived ≤ m.serial
      exact ⟨h.own, le_rfl, hnone.queue, hnone.hand, hnone.flag⟩
  | @wake listener waiting flag =>
      rw [State.Awaits, waiting] at hawaits
      refine ⟨h.own, ?_⟩
      cases listener with
      | command k => exact ⟨⟨hawaits.1, hawaits.2.wake _ _⟩, hawaits.2.flag flag⟩
      | _ => trivial
  | @timeout listener waiting => exact ⟨h.own, by cases listener <;> trivial⟩
  | @showResult listener res showing =>
      rw [State.Awaits, showing] at hawaits
      refine ⟨h.own.append (State.showResult_shown listener res) fun k m hresult ↦ ?_,
        State.showResult_awaits listener res⟩
      cases res with
      | false => cases hresult
      | true =>
          obtain ⟨rfl, rfl⟩ := Shown.received.inj hresult
          exact hawaits.2

theorem ownReplies_of_sendsClean (h : (session parseString).ReachableVia sendsClean s) :
    s.OwnReplies := by
  have hinvariant : Invariant s := by
    refine h.invariant ?_ fun s a t hs hclean hstep ↦ hs.step hclean (moves_of_step hstep)
    rintro s ⟨defaultTimeout, -, rfl⟩
    exact ⟨fun k m hm ↦ (List.not_mem_nil hm).elim, trivial⟩
  exact hinvariant.own

/-! ## What is left over -/

def State.Earlier (s : State) : Prop := s.Carries fun m ↦ m.serial < s.arrived

theorem State.Earlier.step (h : s.Earlier) {a : Action} (hmoves : Moves s a t) : t.Earlier := by
  cases hmoves with
  | line prompt =>
      rw [Earlier, begin_arrived]
      exact Carries.begin h _ _
  | arrive data =>
      exact (h.imp fun m hm ↦ hm.trans (Nat.lt_succ_self _)).arrive (Nat.lt_succ_self _)
  | take queue => exact Carries.take h queue
  | handle hand => exact Carries.handleMessageReceived h hand
  | send sending => exact ⟨h.queue, h.hand, h.flag⟩
  | wake | timeout => exact Carries.wake h _ _
  | showResult =>
      rw [Earlier, showResult_arrived]
      exact Carries.showResult h _ _

theorem earlier_of_reachable (h : (session parseString).Reachable s) : s.Earlier := by
  refine h.invariant ?_ fun s a t hs hstep ↦ hs.step (moves_of_step hstep)
  rintro s ⟨defaultTimeout, -, rfl⟩
  exact State.carries_of_not_left (by simp [State.Left, State.start]) _

/-- In some continuation a result has arrived before its command was sent. -/
def MayMislead (parseString : String → Except Failure Value) (s : State) : Prop :=
  ∃ t, (session parseString).Reaches System.AnyStep s t ∧ ¬ t.OwnReplies

theorem MayMislead.of_step {a : Action} (hstep : s.step parseString a = some t)
    (h : MayMislead parseString t) : MayMislead parseString s := by
  obtain ⟨u, htu, hu⟩ := h
  exact ⟨u, Relation.ReflTransGen.head (System.stepVia_of_step trivial hstep) htu, hu⟩

section Waiting

variable {m : Message} (hpc : s.main = .waitForMessageReceived (.command k))

include hpc

theorem mayMislead_of_flag (hflag : s.flagMessageReceived = true)
    (hslot : s.messageReceived = some m) (hserial : m.serial < k) :
    MayMislead parseString s := by
  have hwake : s.step parseString .wake = some (s.wake (.command k) true) := by
    simp [State.step, hpc, hflag]
  refine .of_step hwake (.of_step (a := .showResult) rfl ⟨_, .refl, fun hown ↦ ?_⟩)
  obtain ⟨r, hr, hle⟩ := hown k (some m) (by simp [State.showResult, State.wake, hslot])
  obtain rfl := Option.some.inj hr
  omega

theorem mayMislead_of_hand (hhand : s.inHand = some m) (hserial : m.serial < k) :
    MayMislead parseString s := by
  have hstep : s.step parseString .handleMessageReceived = some (s.handleMessageReceived m) :=
    Option.map_eq_some_iff.mpr ⟨m, hhand, rfl⟩
  exact .of_step hstep (mayMislead_of_flag hpc rfl rfl hserial)

theorem mayMislead_of_queue (hhand : s.inHand = none) {rest : List Message}
    (hqueue : s.msgQueue = m :: rest) (hserial : m.serial < k) : MayMislead parseString s := by
  have hstep : s.step parseString .take =
      some { s with inHand := some m, msgQueue := rest } := by
    simp [State.step, hhand, hqueue]
  exact .of_step hstep (mayMislead_of_hand hpc rfl hserial)

theorem mayMislead_of_waiting (hbefore : s.Carries fun m ↦ m.serial < k) (hleft : s.Left) :
    MayMislead parseString s := by
  cases hhand : s.inHand with
  | some m => exact mayMislead_of_hand hpc hhand (hbefore.hand m hhand)
  | none =>
      rcases hleft with hflag | hqueue | hne
      · obtain ⟨m, hslot, hserial⟩ := hbefore.flag hflag
        exact mayMislead_of_flag hpc hflag hslot hserial
      · obtain ⟨m, rest, hqueue⟩ := List.exists_cons_of_ne_nil hqueue
        exact mayMislead_of_queue hpc hhand hqueue (hbefore.queue m (hqueue ▸ List.mem_cons_self))
      · exact absurd hhand hne

end Waiting

theorem mayMislead_of_left (h : (session parseString).Reachable s) {params : List (List Char)}
    (hpc : s.main = .sendParamsAsMessage params) (hleft : s.Left) : MayMislead parseString s := by
  have hearlier := earlier_of_reachable h
  have hstep : s.step parseString .sendParamsAsMessage = some (s.sendParamsAsMessage params) := by
    simp [State.step, hpc]
  exact .of_step hstep
    (mayMislead_of_waiting rfl ⟨hearlier.queue, hearlier.hand, hearlier.flag⟩ hleft)

/-- In a session in which nothing is left over when a command is sent, each result has arrived
after its command was sent; and where something is left over it may become the result. -/
theorem shows_own_replies (parseString : String → Except Failure Value) :
    (∀ s, (session parseString).ReachableVia sendsClean s → s.OwnReplies) ∧
      ∀ s params, (session parseString).Reachable s → s.main = .sendParamsAsMessage params →
        s.Left → ∃ t, (session parseString).Reaches System.AnyStep s t ∧ ¬ t.OwnReplies :=
  ⟨fun _ h ↦ ownReplies_of_sendsClean h,
    fun _ _ h hpc hleft ↦ mayMislead_of_left h hpc hleft⟩

def noJson : String → Except Failure Value := fun _ ↦ .error (.logicError "Json parse error: ")

def rawLine : Action := .line "raw 01".toList

def receive : List Action := [.arrive [], .take, .handleMessageReceived]

def replied : State :=
  { State.start 5000 with
    messageReceived := some ⟨0, []⟩
    arrived := 1
    sent := ["raw 01 ".toList]
    shown := [.received (.command 0) (some ⟨0, []⟩)] }

theorem replied_reachableVia : (session noJson).ReachableVia sendsClean replied := by
  have hrun : (session noJson).runIf (fun s a ↦ decide (sendsClean s a)) (.start 5000)
      ([rawLine, .sendParamsAsMessage] ++ receive ++ [.wake, .showResult]) = some replied := rfl
  exact ⟨.start 5000, ⟨5000, by decide, rfl⟩,
    System.reaches_of_runIf _ (fun _ _ h ↦ of_decide_eq_true h) hrun⟩

def leftOver : State :=
  { State.start 5000 with
    flagMessageReceived := true
    messageReceived := some ⟨0, []⟩
    arrived := 1
    main := .sendParamsAsMessage ["raw".toList, "01".toList] }

theorem leftOver_reachable : (session noJson).Reachable leftOver :=
  System.reachable_of_run (receive ++ [rawLine]) ⟨5000, by decide, rfl⟩ rfl

theorem shows_own_replies_noJson :
    replied.OwnReplies ∧
      ∃ t, (session noJson).Reaches System.AnyStep leftOver t ∧ ¬ t.OwnReplies :=
  ⟨(shows_own_replies noJson).1 replied replied_reachableVia,
    (shows_own_replies noJson).2 leftOver _ leftOver_reachable rfl (Or.inl rfl)⟩

/-- A reply that comes after the timeout is shown as the result of the next command. -/
def misled : State :=
  { State.start 5000 with
    messageReceived := some ⟨0, []⟩
    arrived := 1
    sent := ["raw 01 ".toList, "raw 01 ".toList]
    shown := [.timeout (.command 0), .received (.command 1) (some ⟨0, []⟩)] }

theorem shows_late_reply :
    ¬ ∀ parseString s, (session parseString).Reachable s → s.OwnReplies := by
  intro hclaim
  have hrun : (session noJson).run (.start 5000)
      ([rawLine, .sendParamsAsMessage, .timeout, .showResult] ++ receive ++
        [rawLine, .sendParamsAsMessage, .wake, .showResult]) = some misled := rfl
  have hreachable : (session noJson).Reachable misled :=
    System.reachable_of_run _ ⟨5000, by decide, rfl⟩ hrun
  obtain ⟨r, hr, hle⟩ := hclaim noJson misled hreachable 1 (some ⟨0, []⟩) (by simp [misled])
  obtain rfl := Option.some.inj hr
  exact absurd hle (by decide)

end IqrfDaemon.Iqrfapp
