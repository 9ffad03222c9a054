import IqrfDaemon.Component.Owned

/-!
# When nothing is registered

If no service gets a messaging, each of them is destroyed before it registers
anything, and none is ever started.  If `update` refuses every `UdpMessaging`, the
pointers stay null.
-/

namespace IqrfDaemon.Component

open Json Jutils Container Transition Traced

/-- No service has registered anything, and no pointer is set. -/
structure Untouched (s : State) : Prop where
  messaging : ∀ m ∈ s.liveMessagings, m.messageHandler = none
  scheduler : ∀ service, .service service ∉ s.messageHandlers.values
  asyncMessage : s.asyncMessageHandlers.values = []
  exclusiveAccess : s.dpaExclusiveAccess = none
  messageForwarding : s.dpaMessageForwarding = none
  services : s.services.values = []

theorem Untouched.owned {s : State} (h : Untouched s) : Owned s where
  messaging m hm service hservice := by simp [h.messaging m hm] at hservice
  scheduler service hservice := absurd hservice (h.scheduler service)
  asyncMessage service hservice := by simp [h.asyncMessage] at hservice
  exclusiveAccess m hm := by simp [h.exclusiveAccess] at hm
  messageForwarding m hm := by simp [h.messageForwarding] at hm

theorem Untouched.of_messagings {s u : State} (h : Untouched s)
    (hmessagings : ∀ m ∈ u.liveMessagings, m.messageHandler = none)
    (hscheduler : u.messageHandlers = s.messageHandlers)
    (hasync : u.asyncMessageHandlers = s.asyncMessageHandlers)
    (hexclusive : u.dpaExclusiveAccess = s.dpaExclusiveAccess)
    (hforwarding : u.dpaMessageForwarding = s.dpaMessageForwarding)
    (hservices : u.services = s.services) : Untouched u where
  messaging := hmessagings
  scheduler := hscheduler ▸ h.scheduler
  asyncMessage := hasync ▸ h.asyncMessage
  exclusiveAccess := hexclusive ▸ h.exclusiveAccess
  messageForwarding := hforwarding ▸ h.messageForwarding
  services := hservices ▸ h.services

theorem untouched_create : Untouched State.create where
  messaging m hm := by simp [State.liveMessagings, State.create] at hm
  scheduler service hservice := by
    rcases Map.mem_values_insert hservice with h | h
    · cases h
    · simp at h
  asyncMessage := rfl
  exclusiveAccess := rfl
  messageForwarding := rfl
  services := rfl

theorem untouched_keptByMessaging : KeptByMessaging Untouched where
  createMessaging name s h := by
    refine h.of_messagings (fun m hm ↦ ?_) rfl rfl rfl rfl rfl
    rcases List.mem_append.mp hm with hm | hm
    · exact h.messaging m (List.mem_append_left _ hm)
    · have hnew : m = { object := s.objects, name := name, messageHandler := none } := by
        simpa [State.createMessaging] using hm
      rw [hnew]
  insertMessaging s h := by
    rw [State.insertMessaging]
    split
    case h_1 new hnew =>
      refine h.of_messagings (fun m hm ↦ ?_) rfl rfl rfl rfl rfl
      have hm : m ∈ (s.messagings.insert new.name new).values := by
        simpa [State.liveMessagings] using hm
      rcases Map.mem_values_insert hm with rfl | hm
      · exact h.messaging m (List.mem_append_right _ (by simp [hnew]))
      · exact h.messaging m (List.mem_append_left _ hm)
    case h_2 => exact h
  destroyNewMessaging s h := by
    refine h.of_messagings (fun m hm ↦ ?_) rfl rfl rfl rfl rfl
    have hm : m ∈ s.messagings.values := by
      simpa [State.liveMessagings, State.destroyNewMessaging] using hm
    exact h.messaging m (List.mem_append_left _ hm)

/-- A `UdpMessaging` that `update` refuses is destroyed before the pointers are set. -/
theorem untouched_refused {item : Value} {instanceName : String}
    {properties : List (String × Value)}
    (hparse : parseInstance item = .ok (some (instanceName, properties)))
    (hupdate : updateUdpMessaging (.object properties) ≠ .ok ()) :
    Triple Untouched Untouched (loadMessagingInstance "UdpMessaging" item) (fun _ _ ↦ False)
      (fun e s ↦ e.isLogicError = true ∧ Untouched s) := by
  have hcreate : getCreateFunction "UdpMessaging" = .ok .udpMessaging := by rfl
  have hdestroy := untouched_keptByMessaging.destroyNewMessaging
  rw [loadMessagingInstance, hparse, hcreate]
  apply Triple.ofExcept_bind
  · rintro parsed ⟨⟩
    apply Triple.ofExcept_bind
    · rintro create ⟨⟩
      refine Triple.onExit (Q := fun _ _ ↦ False)
        (E := fun e s ↦ e.isLogicError = true ∧ Untouched s) ?_
        (fun _ s hs ↦ hs.elim) (fun _ s hs ↦ ⟨hdestroy s hs.2, hs.1, hdestroy s hs.2⟩)
      apply Triple.bind_quiet
        (keepsQuietly_createMessaging untouched_keptByMessaging.createMessaging instanceName)
      intro messaging
      apply Triple.ofExcept_bind
      · intro _ hok
        exact absurd hok hupdate
      · intro e s herror hs
        exact ⟨logicOnly_updateUdpMessaging properties e herror, hs⟩
    · rintro e s ⟨⟩
  · rintro e s ⟨⟩

theorem untouched_loadMessagingInstances {instances : List Value}
    (h : ∀ instanceName properties, firstInstance instances = some (instanceName, properties) →
      updateUdpMessaging (.object properties) ≠ .ok ()) :
    Keeps Untouched Untouched (forEach (loadMessagingInstance "UdpMessaging") instances) := by
  induction instances with
  | nil => exact keeps_pure ()
  | cons item rest ih =>
      rw [firstInstance] at h
      cases hparse : parseInstance item with
      | error e =>
          rw [hparse] at h
          apply Triple.bind (Q := fun _ _ ↦ False)
          · rw [loadMessagingInstance, hparse]
            apply Triple.ofExcept_bind
            · rintro _ ⟨⟩
            · intro d s herror hs
              cases herror
              exact ⟨logicOnly_parseInstance item _ hparse, hs⟩
          · exact fun _ _ hs ↦ hs.elim
      | ok parsed =>
          rw [hparse] at h
          cases parsed with
          | none =>
              apply Triple.bind_quiet (Q := fun _ ↦ Untouched)
              · rw [loadMessagingInstance, hparse]
                apply Triple.ofExcept_bind
                · rintro parsed ⟨⟩
                  exact Triple.pure fun _ hs ↦ hs
                · rintro e s ⟨⟩
              · exact fun _ ↦ ih h
          | some i =>
              apply Triple.bind (untouched_refused hparse (h i.1 i.2 rfl))
              exact fun _ _ hs ↦ hs.elim

theorem untouched_loadMessagings {componentMap : List ComponentDescriptor}
    (h : ¬ UpdatesUdpMessaging componentMap) :
    KeepsQuietly Untouched Untouched (loadComponents loadMessagingComponent componentMap) := by
  apply keepsQuietly_loadComponents
  intro c hc henabled
  by_cases hudp : c.componentName = "UdpMessaging"
  · apply keeps_loadInstances_of c (by decide)
    intro hinterface instances hinstances
    rw [hudp]
    apply untouched_loadMessagingInstances
    intro instanceName properties hfirst hupdate
    exact h ⟨c, hc, henabled, hinterface, hudp, instances, hinstances, instanceName, properties,
      hfirst, hupdate⟩
  · apply keeps_loadMessagingComponent untouched_keptByMessaging
    intro object
    rw [setDpaInterfaces, if_neg hudp]
    exact keepsQuietly_pure ()

theorem untouched_createService (name : String) (s : State) (h : Untouched s) :
    Untouched (s.createService name) :=
  h.of_messagings h.messaging rfl rfl rfl rfl rfl

theorem untouched_setMessaging {names : List String} {messagingName : String}
    (hname : messagingName ∉ names) (service : ℕ) :
    Triple Untouched (fun s ↦ Untouched s ∧ Named names s) (setMessaging service messagingName)
      (fun _ _ ↦ False) (fun e s ↦ e.isLogicError = true ∧ Untouched s ∧ Named names s) := by
  apply Triple.get_bind
  intro r
  cases hfind : r.messagings.find messagingName with
  | none =>
      refine Triple.throw ?_
      rintro s ⟨-, hs⟩
      exact ⟨rfl, hs⟩
  | some m =>
      rintro s ⟨rfl, -, hnamed⟩
      have hmem := (isSome_find_of_named hnamed messagingName).mp (by rw [hfind]; rfl)
      exact absurd hmem hname

/-- A service whose messaging is not there is destroyed before it registers anything. -/
theorem untouched_loadServiceInstance {names : List String} {componentName : String}
    {item : Value}
    (h : ∀ i, parseServiceInstance item = .ok (some i) →
      (∃ create, getCreateFunction componentName = .ok create) → i.messagingName ∉ names) :
    Keeps Untouched (fun s ↦ Untouched s ∧ Named names s)
      (loadServiceInstance componentName item) := by
  apply Triple.ofExcept_bind
  · rintro (_ | i) hparse
    · exact Triple.pure fun _ hs ↦ hs
    apply Triple.ofExcept_bind
    · intro create hcreate
      have hname := h i hparse ⟨create, hcreate⟩
      refine Triple.onExit (Q := fun _ _ ↦ False)
        (E := fun e s ↦ e.isLogicError = true ∧ Untouched s ∧ Named names s) ?_
        (fun _ s hs ↦ hs.elim) ?_
      · apply Triple.bind_quiet (Q := fun _ s ↦ Untouched s ∧ Named names s)
        · exact (keepsQuietly_createService (J := fun s ↦ Untouched s ∧ Named names s)
            (fun name s hs ↦ ⟨untouched_createService name s hs.1, hs.2⟩) i.instanceName).visits
            fun _ hs ↦ hs.1
        intro service
        apply Triple.bind (untouched_setMessaging hname service)
        exact fun _ _ hs ↦ hs.elim
      · rintro e s ⟨hlogic, hs, hnamed⟩
        have hdestroyed : Untouched s.destroyNewService :=
          hs.of_messagings hs.messaging rfl rfl rfl rfl rfl
        exact ⟨hdestroyed, hlogic, hdestroyed, hnamed⟩
    · intro e s herror hs
      exact ⟨logicOnly_getCreateFunction componentName e herror, hs⟩
  · intro e s herror hs
    exact ⟨logicOnly_parseServiceInstance item e herror, hs⟩

theorem untouched_loadServices {componentMap : List ComponentDescriptor}
    (h : ¬ BindsService componentMap) :
    KeepsQuietly Untouched (fun s ↦ Untouched s ∧ Named (loadedMessagings componentMap) s)
      (loadComponents loadServiceComponent componentMap) := by
  apply keepsQuietly_loadComponents
  intro c hc henabled
  apply keeps_loadInstances_of c (by decide)
  intro hinterface instances hinstances
  apply keeps_forEach
  intro item hitem
  refine (Keeps.catching (fun _ h ↦ h) (untouched_loadServiceInstance ?_)).keeps
  intro i hparse hcreate hname
  exact h ⟨c, hc, henabled, hinterface, instances, hinstances, item, hitem, i, hparse, hcreate,
    hname⟩

theorem untouched_startServices {componentMap : List ComponentDescriptor}
    (hservice : ¬ BindsService componentMap) (hudp : ¬ UpdatesUdpMessaging componentMap) :
    Triple Untouched (fun s ↦ Untouched s ∧ Named [] s) (startServices componentMap)
      (fun _ ↦ Untouched) (fun _ _ ↦ False) := by
  have hinsert : ∀ name s, (Untouched s ∧ Named [] s) →
      Untouched (State.insertSerializer name s) ∧ Named [] (State.insertSerializer name s) :=
    fun name s hs ↦ ⟨hs.1.of_messagings hs.1.messaging rfl rfl rfl rfl rfl, hs.2⟩
  apply Triple.bind ((keepsQuietly_loadSerializers hinsert componentMap).visits fun _ hs ↦ hs.1)
  intro _
  have hmessagings := (untouched_loadMessagings hudp).and (named_loadMessagings [] componentMap)
  apply Triple.bind ((hmessagings.visits fun _ hs ↦ hs.1).conseq (fun _ hs ↦ hs)
    (fun _ _ hs ↦ hs) fun _ _ hs ↦ hs.1)
  intro _
  apply Triple.bind (untouched_loadServices hservice)
  intro _
  apply Triple.get_bind
  rintro r s ⟨rfl, hs, -⟩
  rw [hs.services]
  exact ⟨by simp [forEach, Pure.pure], hs⟩

theorem untouched_stopServices : KeepsQuietly Untouched Untouched stopServices := by
  apply keepsQuietly_get_bind
  intro r
  have hunregister : ∀ service s, Untouched s →
      Untouched (State.unregisterTaskHandler service s) := fun service s hs ↦
    { hs with scheduler := fun o ho ↦ hs.scheduler o (Map.mem_values_erase ho) }
  apply (keepsQuietly_stopEach hunregister r.services.values).bind
  intro _
  have hservices : ∀ s, Untouched s → Untouched s.clearServices := fun s hs ↦
    { hs with services := rfl }
  apply (keepsQuietly_modify hservices).bind
  intro _
  have hmessagings : ∀ s, Untouched s → Untouched s.clearMessagings := fun s hs ↦
    hs.of_messagings (fun m hm ↦ hs.messaging m (List.mem_append_right _ hm)) rfl rfl rfl rfl rfl
  apply (keepsQuietly_modify hmessagings).bind
  intro _
  exact keepsQuietly_modify fun s hs ↦
    hs.of_messagings hs.messaging rfl rfl rfl rfl rfl

theorem untouched_stop : KeepsQuietly Untouched Untouched stop := by
  apply untouched_stopServices.bind
  intro _
  have hscheduler : ∀ s, Untouched s → Untouched s.deleteScheduler := fun s hs ↦
    { hs with scheduler := fun o ho ↦ by cases ho }
  exact keepsQuietly_modify hscheduler

end IqrfDaemon.Component
