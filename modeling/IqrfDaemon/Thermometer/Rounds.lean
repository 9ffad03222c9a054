import IqrfDaemon.Thermometer.Schedule

/-!
# The rounds of readings

The worker sends one message a firing of the reading, with the values of the thermometers of
the configuration in the order of their addresses, all of them read in this round.  After the
period has become zero only the firings are served that had been taken out before.
-/

namespace IqrfDaemon.Thermometer

open Json Container Scheduler Transition

variable {env : Environment} {name : String} {cfg : Configuration} {s t : State}

/-! ## The scheduler's pushes -/

/-- The firings of the service have the text of the reading, and there are none before its
handler is registered. -/
structure Announced (name : String) (s : State) : Prop where
  early : s.caller = .removeAllMyTasks ∨ s.caller = .registerMessageHandler → s.registered = false
  quiet : s.registered = false → s.scheduler.timer = .notStarted ∧ s.scheduler.dispatched = []
  texts : ∀ id ∈ s.scheduler.firedOf name,
    (s.scheduler.store.record id).task = sendThermometersRead

theorem firedOf_eq_nil {u : Scheduler.State} (hpc : u.timer = .notStarted)
    (hdispatched : u.dispatched = []) (B : String) : u.firedOf B = [] := by
  simp [Scheduler.State.firedOf, Scheduler.State.fired, hpc, hdispatched, TimerPc.inHand]

theorem Announced.scheduler_step (h : Announced name s) (htended : Tended name s)
    (hreach : (Scheduler.system env.scheduler).Reachable s.scheduler) {a : Scheduler.Action}
    {u : Scheduler.State} (hstart : s.registered = false → a ≠ .start)
    (stepped : (Scheduler.system env.scheduler).step s.scheduler a = some u) :
    (s.registered = false → u.timer = .notStarted ∧ u.dispatched = []) ∧
      ∀ id ∈ u.firedOf name, (u.store.record id).task = sendThermometersRead := by
  have hmove : Scheduler.Moves env.scheduler s.scheduler a u := Scheduler.moves_of_step stepped
  have hquiet : s.registered = false → u.timer = .notStarted ∧ u.dispatched = [] := by
    intro hregistered
    obtain ⟨hpc, hnil⟩ := h.quiet hregistered
    obtain ⟨hpc, hsame⟩ := hmove.notStarted (hstart hregistered) hpc
    exact ⟨hpc, hsame.trans hnil⟩
  refine ⟨hquiet, ?_⟩
  cases hregistered : s.registered with
  | false =>
      obtain ⟨hpc, hnil⟩ := hquiet hregistered
      rw [firedOf_eq_nil hpc hnil]
      intro id hid
      cases hid
  | true =>
      have hpc : s.caller ≠ .removeAllMyTasks := by
        intro hpc
        have hfalse := h.early (Or.inl hpc)
        rw [hregistered] at hfalse
        cases hfalse
      obtain ⟨own, hexpects, hsole⟩ := htended hpc
      refine hmove.forall_firedOf (P := fun r ↦ r.task = sendThermometersRead)
        (fun _ _ h ↦ h) (accounted_of_reachable hreach) h.texts fun id hid ↦ ?_
      cases own with
      | none => exact absurd hid (hsole id)
      | some p =>
          obtain ⟨k, hk, hruns⟩ := hsole
          obtain rfl := (hk id).mp hid
          obtain ⟨hndl, period, rfl⟩ := hexpects.eq_reading p rfl
          exact hruns.task

theorem Announced.move (h : Announced name s) (htended : Tended name s)
    (hreach : (Scheduler.system env.scheduler).Reachable s.scheduler) {a : Action}
    (hmove : Moves env name s a t) : Announced name t := by
  cases hmove with
  | scheduler a scheduler allowed stepped =>
      have hstart : s.registered = false → a ≠ .start := by
        rintro hregistered rfl
        rw [State.allows, hregistered] at allowed
        cases allowed
      obtain ⟨hquiet, htexts⟩ := h.scheduler_step htended hreach hstart stepped
      exact ⟨h.early, hquiet, htexts⟩
  | call rand rands a scheduler next calls stepped =>
      have hstart : s.registered = false → a ≠ .start := by
        rintro - rfl
        cases calls
      obtain ⟨hquiet, htexts⟩ := h.scheduler_step htended hreach hstart stepped
      refine ⟨fun hpc ↦ ?_, hquiet, htexts⟩
      cases calls with
      | removeAllMyTasks at_pc => exact h.early (Or.inl at_pc)
      | removeTask at_pc => simp at hpc
      | schedule tp rand rands at_pc => simp at hpc
      | notify hndl at_pc => simp at hpc
      | unlock hndl at_pc => simp at hpc
  | register rand rands at_pc => exact ⟨by simp, by simp, h.texts⟩
  | lock rand rands at_pc free => exact ⟨by simp, h.quiet, h.texts⟩
  | period rand rands at_pc min => exact ⟨by simp, h.quiet, h.texts⟩
  | noPeriod rand rands at_pc zero => exact ⟨by simp, h.quiet, h.texts⟩
  | setHandle rand rands hndl at_pc => exact ⟨by simp, h.quiet, h.texts⟩
  | receive smsg response readPeriod at_pc handled => exact ⟨by simp, h.quiet, h.texts⟩
  | take | handle | workerLock | read | send => exact ⟨h.early, h.quiet, h.texts⟩

/-! ## The account of the worker -/

def Message.reading : Message → Option String
  | .thermometers text => some text
  | .status _ => none

/-- The messages with values, in the order in which they are sent. -/
def State.readings (s : State) : List String := s.sent.filterMap Message.reading

/-- The firings of the service among those the worker has taken. -/
def State.served (name : String) (s : State) : List Firing :=
  (s.scheduler.dispatched.take s.handled).filter fun f ↦
    (s.scheduler.store.record f.record).clientId = name

/-- Whether the worker has a firing of the service in hand. -/
def State.busy (name : String) (s : State) : ℕ :=
  match s.worker with
  | .waiting => 0
  | .handle id => if (s.scheduler.store.record id).clientId = name then 1 else 0
  | .lock | .reading _ _ => 1

structure Recorded (env : Environment) (name : String) (cfg : Configuration) (s : State) :
    Prop where
  keys : s.thermometers.keys = cfg.thermometers.keys
  texts : s.readings = s.rounds.map fun round ↦ env.prettyWriter (response name round)
  rounds : ∀ round ∈ s.rounds, round.map Prod.fst = cfg.thermometers.keys
  reading : ∀ done rest, s.worker = .reading done rest →
    done <+: s.thermometers.entries ∧ done.map Prod.fst ++ rest = s.thermometers.keys
  handled : s.handled ≤ s.scheduler.dispatched.length
  hand : ∀ id, s.worker = .handle id → id ∈ s.scheduler.dispatched.map Firing.record
  count : s.rounds.length + s.busy name = (s.served name).length

/-- The value of the next thermometer is written behind those of this round. -/
theorem prefix_modify {m : Map ℤ Val} {done : List (ℤ × Val)} {node : ℤ} {rest : List ℤ}
    (hdone : done <+: m.entries) (hkeys : done.map Prod.fst ++ node :: rest = m.keys)
    (val : Val) : done ++ [(node, val)] <+: (m.modify node fun _ ↦ val).entries := by
  obtain ⟨ahead, hentries⟩ := hdone
  have hahead : ahead.map Prod.fst = node :: rest := by
    rw [Map.keys, ← hentries, List.map_append] at hkeys
    exact (List.append_cancel_left hkeys).symm
  obtain ⟨entry, ahead, rfl⟩ : ∃ entry rest, ahead = entry :: rest :=
    List.exists_cons_of_ne_nil (by rintro rfl; cases hahead)
  obtain ⟨hnode, -⟩ := List.cons.inj hahead
  have hsorted := m.sorted
  rw [← hentries, List.pairwise_append] at hsorted
  have hother : ∀ e ∈ done, e.1 ≠ node := by
    intro e he
    rw [← hnode]
    exact (hsorted.2.2 e he entry List.mem_cons_self).ne
  have hsame : done.map (fun e ↦ (e.1, if e.1 = node then val else e.2)) = done := by
    refine (List.map_congr_left fun e he ↦ ?_).trans (List.map_id done)
    rw [if_neg (hother e he)]
    rfl
  refine ⟨ahead.map fun e ↦ (e.1, if e.1 = node then val else e.2), ?_⟩
  change _ = m.entries.map fun e ↦ (e.1, if e.1 = node then val else e.2)
  rw [← hentries, List.map_append, hsame, List.map_cons, if_pos hnode, hnode,
    List.append_assoc, List.singleton_append]

/-- Steps of the scheduler keep the account, as it only appends pushes and no record changes its
client. -/
theorem Recorded.scheduler (h : Recorded env name cfg s) (hs : s.scheduler.Accounted)
    {a : Scheduler.Action} {u : Scheduler.State} {pc : CallerPc}
    (hmove : Scheduler.Moves env.scheduler s.scheduler a u) :
    Recorded env name cfg { s with scheduler := u, caller := pc } := by
  have hprefix := hmove.dispatched_prefix
  have hknown : ∀ f ∈ s.scheduler.dispatched, f.record < s.scheduler.store.records.length := by
    intro f hf
    refine hs.known f.record ?_
    exact List.mem_map_of_mem (List.mem_append_left _ hf)
  have hserved : ({ s with scheduler := u, caller := pc } : State).served name = s.served name := by
    obtain ⟨more, hmore⟩ := hprefix
    rw [State.served, State.served]
    simp only [← hmore, List.take_append_of_le_length h.handled]
    refine List.filter_congr fun f hf ↦ ?_
    rw [hmove.clientId_record hs.wf (hknown f (List.mem_of_mem_take hf))]
  have hbusy : ({ s with scheduler := u, caller := pc } : State).busy name = s.busy name := by
    rw [State.busy, State.busy]
    cases hpc : s.worker with
    | handle id =>
        obtain ⟨f, hf, rfl⟩ := List.mem_map.mp (h.hand id hpc)
        simp only [hmove.clientId_record hs.wf (hknown f hf)]
    | _ => rfl
  refine ⟨h.keys, h.texts, h.rounds, h.reading, h.handled.trans hprefix.length_le,
    fun id hid ↦ ?_, ?_⟩
  · exact List.map_subset _ hprefix.subset (h.hand id hid)
  · rw [hserved, hbusy]
    exact h.count

theorem Recorded.move (h : Recorded env name cfg s) (hs : s.scheduler.Accounted)
    (hannounced : Announced name s) {a : Action} (hmove : Moves env name s a t) :
    Recorded env name cfg t := by
  cases hmove with
  | scheduler a scheduler allowed stepped => exact h.scheduler hs (Scheduler.moves_of_step stepped)
  | call rand rands a scheduler next calls stepped =>
      exact h.scheduler hs (Scheduler.moves_of_step stepped)
  | register | lock | period | noPeriod | setHandle =>
      exact ⟨h.keys, h.texts, h.rounds, h.reading, h.handled, h.hand, h.count⟩
  | receive smsg response readPeriod at_pc handled =>
      refine ⟨h.keys, ?_, h.rounds, h.reading, h.handled, h.hand, h.count⟩
      rw [State.readings, List.filterMap_append]
      exact (List.append_nil _).trans h.texts
  | take outcome f at_pc next =>
      obtain ⟨hlt, hf⟩ := List.getElem?_eq_some_iff.mp next
      refine ⟨h.keys, h.texts, h.rounds, by simp, hlt, ?_, ?_⟩
      · rintro id ⟨⟩
        exact List.mem_map_of_mem (List.mem_of_getElem? next)
      · have hcount := h.count
        simp only [State.busy, at_pc, State.served] at hcount ⊢
        rw [List.take_add_one, next, List.filter_append, List.length_append, ← hcount]
        simp only [Option.toList_some, List.filter_singleton]
        split
        case isTrue hclient => simp [hclient]
        case isFalse hclient => simp [hclient]
  | handle outcome id at_pc =>
      have hcount := h.count
      simp only [State.busy, at_pc] at hcount
      have hreads : s.reads name id = decide ((s.scheduler.store.record id).clientId = name) := by
        have hmem := h.hand id at_pc
        have hregistered : s.registered = true := by
          refine eq_true_of_ne_false fun hfalse ↦ ?_
          rw [(hannounced.quiet hfalse).2] at hmem
          cases hmem
        by_cases hclient : (s.scheduler.store.record id).clientId = name
        · have htask := hannounced.texts id (List.mem_filter.mpr ⟨?_, decide_eq_true hclient⟩)
          · simp [State.reads, hregistered, hclient, htask]
          · rw [Scheduler.State.fired, List.map_append]
            exact List.mem_append_left _ hmem
        · simp [State.reads, hclient]
      have hserved : ∀ pc, ({ s with worker := pc } : State).served name = s.served name :=
        fun _ ↦ rfl
      rw [hreads]
      split
      case isTrue hclient =>
        rw [if_pos (of_decide_eq_true hclient)] at hcount
        exact ⟨h.keys, h.texts, h.rounds, by simp, h.handled, by simp, hcount⟩
      case isFalse hclient =>
        rw [if_neg (by simpa using hclient)] at hcount
        exact ⟨h.keys, h.texts, h.rounds, by simp, h.handled, by simp, hcount⟩
  | workerLock outcome at_pc free =>
      have hcount := h.count
      simp only [State.busy, at_pc] at hcount
      refine ⟨h.keys, h.texts, h.rounds, ?_, h.handled, by simp, hcount⟩
      rintro done rest ⟨⟩
      exact ⟨List.nil_prefix, rfl⟩
  | read outcome done node rest at_pc =>
      have hcount := h.count
      simp only [State.busy, at_pc] at hcount
      obtain ⟨hdone, hkeys⟩ := h.reading _ _ at_pc
      refine ⟨(Map.keys_modify _ _ _).trans h.keys, h.texts, h.rounds, ?_, h.handled, by simp,
        hcount⟩
      rintro done' rest' ⟨⟩
      refine ⟨prefix_modify hdone hkeys _, ?_⟩
      rw [List.map_append, List.append_assoc, Map.keys_modify]
      exact hkeys
  | send outcome done at_pc =>
      have hcount := h.count
      simp only [State.busy, at_pc] at hcount
      obtain ⟨hdone, hkeys⟩ := h.reading _ _ at_pc
      rw [List.append_nil] at hkeys
      have hentries : done = s.thermometers.entries := by
        refine hdone.eq_of_length ?_
        have hlength := congrArg List.length hkeys
        rwa [List.length_map, Map.keys, List.length_map] at hlength
      refine ⟨h.keys, ?_, ?_, by simp, h.handled, by simp, ?_⟩
      · rw [State.readings, List.filterMap_append, List.map_append, ← h.texts, hentries]
        rfl
      · intro round hround
        rcases List.mem_append.mp hround with hround | hround
        · exact h.rounds round hround
        · rw [List.mem_singleton.mp hround]
          exact hkeys.trans h.keys
      · rw [List.length_append]
        exact hcount

/-! ## Whole runs -/

theorem account_of_reachable (h : (system env name cfg).ReachableVia (Foreign env name) s) :
    Announced name s ∧ Recorded env name cfg s := by
  have hall : (Scheduler.system env.scheduler).Reachable s.scheduler ∧ Tended name s ∧
      Announced name s ∧ Recorded env name cfg s := by
    refine System.ReachableVia.invariant
      (I := fun s ↦ (Scheduler.system env.scheduler).Reachable s.scheduler ∧ Tended name s ∧
        Announced name s ∧ Recorded env name cfg s) ?_ ?_ h
    · rintro s ⟨now, rfl⟩
      refine ⟨.of_init ⟨now, rfl⟩, fun hpc ↦ absurd rfl hpc, ⟨fun _ ↦ rfl, fun _ ↦ ⟨rfl, rfl⟩, ?_⟩,
        ⟨rfl, rfl, ?_, ?_, le_rfl, ?_, rfl⟩⟩
      · rw [firedOf_eq_nil rfl rfl]
        simp
      · simp [State.create]
      · simp [State.create]
      · simp [State.create]
    · rintro s a t ⟨hreach, htended, hannounced, hrecorded⟩ hforeign hstep
      have hmove := moves_of_step hstep
      refine ⟨?_, htended.move (store_wf hreach) hforeign hmove,
        hannounced.move htended hreach hmove,
        hrecorded.move (accounted_of_reachable hreach) hannounced hmove⟩
      rcases hmove.scheduler_step with heq | ⟨b, hb⟩
      · exact heq ▸ hreach
      · exact hreach.step hb
  exact hall.2.2

/-- Over every run the messages with values are those of the completed rounds, in order, each
round has one value for each thermometer of the configuration, by ascending address, and there
is one round for each firing of the service that the worker has served, whatever messages
arrive and whatever periods they ask for in between. -/
theorem readings_sent (env : Environment) (name : String) (cfg : Configuration) (s : State)
    (h : (system env name cfg).ReachableVia (Foreign env name) s) :
    s.readings = s.rounds.map (fun round ↦ env.prettyWriter (response name round)) ∧
      (∀ round ∈ s.rounds, round.map Prod.fst = cfg.thermometers.keys) ∧
        s.rounds.length + s.busy name = (s.served name).length := by
  have hrecorded := (account_of_reachable h).2
  exact ⟨hrecorded.texts, hrecorded.rounds, hrecorded.count⟩

/-- The timer takes out the reading and pushes it. -/
def fire : List Action :=
  [.scheduler .start, .scheduler (.tick 1)] ++ List.replicate 9 (.scheduler .timer)

/-- The worker reads 18 sixteenths at the first address and gets no answer at the second. -/
def round : List Action :=
  [.worker none, .worker none, .worker none, .worker (some 18), .worker none, .worker none]

theorem readings_sent_round :
    (after plainEnvironment (start ++ fire ++ round)).rounds.length +
      (after plainEnvironment (start ++ fire ++ round)).busy "thermometers" =
        ((after plainEnvironment (start ++ fire ++ round)).served "thermometers").length :=
  (readings_sent plainEnvironment "thermometers" twoThermometers _ (reachable_after rfl rfl)).2.2

/-! ## After the period has become zero -/

/-- The caller gets no further message. -/
def Undisturbed (env : Environment) (name : String) (s : State) (a : Action) : Prop :=
  Foreign env name s a ∧ ∀ smsg, a ≠ .message smsg

/-- The caller is through, and the scheduler holds nothing of the service. -/
structure Silent (env : Environment) (name : String) (cfg : Configuration) (fired : List ℕ)
    (s : State) : Prop where
  reachable : (system env name cfg).ReachableVia (Foreign env name) s
  idle : s.caller = .idle
  zero : s.readPeriod = 0
  fired : (s.scheduler.firedOf name).Sublist fired

theorem Silent.sole {fired : List ℕ} (h : Silent env name cfg fired s) :
    s.scheduler.store.Sole name none := by
  obtain ⟨own, hexpects, hsole⟩ :=
    tended_of_reachable h.reachable (by rw [h.idle]; exact CallerPc.noConfusion)
  simp only [State.Expects, h.idle, if_pos h.zero] at hexpects
  exact hexpects ▸ hsole

theorem Silent.step {fired : List ℕ} (h : Silent env name cfg fired s) {a : Action}
    (hundisturbed : Undisturbed env name s a)
    (hstep : (system env name cfg).step s a = some t) : Silent env name cfg fired t := by
  have hreach := h.reachable.step hundisturbed.1 hstep
  cases moves_of_step hstep with
  | scheduler a scheduler allowed stepped =>
      refine ⟨hreach, h.idle, h.zero, ?_⟩
      exact ((Scheduler.moves_of_step stepped).firedOf_sublist
        (accounted_of_reachable (scheduler_reachable h.reachable)) h.sole).trans h.fired
  | call rand rands a scheduler next calls stepped =>
      have hidle := h.idle
      cases calls with
      | removeAllMyTasks at_pc | removeTask at_pc | schedule tp rand rands at_pc
      | notify hndl at_pc | unlock hndl at_pc =>
          rw [at_pc] at hidle
          cases hidle
  | register _ _ at_pc | lock _ _ at_pc _ | period _ _ at_pc _ | noPeriod _ _ at_pc _
  | setHandle _ _ _ at_pc =>
      have hidle := h.idle
      rw [at_pc] at hidle
      cases hidle
  | receive smsg response readPeriod at_pc handled => exact absurd rfl (hundisturbed.2 smsg)
  | take | handle | workerLock | read | send => exact ⟨hreach, h.idle, h.zero, h.fired⟩

/-- From the moment at which the caller is through with a message that sets the period to zero,
no thermometer is read any more but for the firings of the service that the timer had taken out
before, and the scheduler holds none of its tasks. -/
theorem silent_after_zero (env : Environment) (name : String) (cfg : Configuration) (s t : State)
    (h : (system env name cfg).ReachableVia (Foreign env name) s) (hidle : s.caller = .idle)
    (hzero : s.readPeriod = 0)
    (hreach : (system env name cfg).Reaches (Undisturbed env name) s t) :
    t.scheduler.store.getMyTasks name = [] ∧
      t.rounds.length ≤ (s.scheduler.firedOf name).length := by
  have hsilent : Silent env name cfg (s.scheduler.firedOf name) t :=
    hreach.preserves (I := Silent env name cfg (s.scheduler.firedOf name))
      (fun _ _ _ hs hundisturbed hstep ↦ hs.step hundisturbed hstep)
      ⟨h, hidle, hzero, List.Sublist.refl _⟩
  have hwf := store_wf (scheduler_reachable hsilent.reachable)
  refine ⟨?_, ?_⟩
  · rw [hsilent.sole.getMyTasks hwf]
    rfl
  · have hcount := (account_of_reachable hsilent.reachable).2.count
    have hserved : ((t.served name).map Firing.record).Sublist (t.scheduler.firedOf name) := by
      rw [State.served, Scheduler.State.firedOf, Scheduler.State.fired,
        ← Function.comp_def (fun id ↦ decide ((t.scheduler.store.record id).clientId = name)),
        ← List.filter_map]
      exact ((List.take_sublist _ _).trans (List.sublist_append_left _ _)).map _ |>.filter _
    have hle := (hserved.trans hsilent.fired).length_le
    rw [List.length_map] at hle
    omega

/-- The thermometers are read once after the message, for the firing that came before it. -/
def cancel : List Action := [.message "", .caller 7 [[]], .caller 7 [[]], .caller 7 [[]]]

theorem silent_after_zero_cancel :
    (after plainEnvironment (start ++ fire ++ cancel ++ round)).rounds.length ≤
      ((after plainEnvironment (start ++ fire ++ cancel)).scheduler.firedOf
        "thermometers").length := by
  have hreach : (system plainEnvironment "thermometers" twoThermometers).Reaches
      (Undisturbed plainEnvironment "thermometers")
      (after plainEnvironment (start ++ fire ++ cancel))
      (after plainEnvironment (start ++ fire ++ cancel ++ round)) := by
    refine System.reaches_of_run round (fun a ha s ↦ ⟨foreign_of_ours ?_ s, ?_⟩) rfl
    · exact List.all_eq_true.mp (show round.all ours = true by rfl) a ha
    · rintro smsg rfl
      simp [round] at ha
  exact (silent_after_zero plainEnvironment "thermometers" twoThermometers _ _
    (reachable_after rfl rfl) rfl rfl hreach).2

end IqrfDaemon.Thermometer
