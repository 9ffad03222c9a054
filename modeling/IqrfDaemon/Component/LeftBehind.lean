import IqrfDaemon.Component.Owned

/-!
# What outlives its owner

A service registers its handler with its messaging as soon as it is loaded and
never takes it back, and the pointers to `UdpMessaging` are never reset.  Both
stay until `stopServices` destroys what they refer to.
-/

namespace IqrfDaemon.Component

open Json Jutils Container Transition Traced

/-! ## A pointer that is set stays set -/

def Points (s : State) : Prop := s.dpaExclusiveAccess ≠ none

theorem points_insertMessaging {s : State} (h : Points s) : Points s.insertMessaging := by
  rw [State.insertMessaging]
  split
  · exact h
  · exact h

theorem points_insertService {s : State} (h : Points s) : Points s.insertService := by
  rw [State.insertService]
  split
  · exact h
  · exact h

theorem points_keptByMessaging : KeptByMessaging Points where
  createMessaging _ _ h := h
  insertMessaging _ h := points_insertMessaging h
  destroyNewMessaging _ h := h

theorem points_keptByService : KeptByService Points where
  createService _ _ h := h
  modifyService _ _ h := h
  registerMessageHandler _ _ _ h := h
  insertService _ h := points_insertService h
  destroyNewService _ h := h

theorem points_setDpaInterfaces (componentName : String) (object : ℕ) :
    KeepsQuietly Points Points (setDpaInterfaces componentName object) :=
  keepsQuietly_setDpaInterfaces (fun _ _ _ ↦ by simp [Points, State.setExclusiveAccess])
    (fun _ _ h ↦ h) componentName object

theorem keepsPoints_loadMessagingInstances (componentName : String) (instances : List Value) :
    Keeps Anything Points (forEach (loadMessagingInstance componentName) instances) :=
  (keeps_forEach fun item _ ↦ keeps_loadMessagingInstance points_keptByMessaging
    (points_setDpaInterfaces componentName) item).anything

theorem points_setDpaInterfaces_udp (object : ℕ) :
    MakesQuietly Anything Points (setDpaInterfaces "UdpMessaging" object) := by
  rw [setDpaInterfaces, if_pos rfl]
  refine Triple.bind (Q := fun _ ↦ Points) (Triple.modify (fun _ _ ↦ trivial) ?_) fun _ ↦ ?_
  · intro s _
    simp [Points, State.setExclusiveAccess]
  · exact Triple.modify (fun _ _ ↦ trivial) fun _ h ↦ h

/-- An instance of `UdpMessaging` that gets past `update` sets the pointer, also when its
name turns out to be taken. -/
theorem points_loadMessagingInstance {item : Value} {instanceName : String}
    {properties : List (String × Value)}
    (hparse : parseInstance item = .ok (some (instanceName, properties)))
    (hupdate : updateUdpMessaging (.object properties) = .ok ()) :
    Makes Anything Points (loadMessagingInstance "UdpMessaging" item) := by
  have hcreate : getCreateFunction "UdpMessaging" = .ok .udpMessaging := by rfl
  rw [loadMessagingInstance, hparse, hcreate]
  apply Triple.ofExcept_bind
  · rintro parsed ⟨⟩
    apply Triple.ofExcept_bind
    · rintro create ⟨⟩
      refine Triple.onExit (Q := fun _ ↦ Points)
        (E := fun e s ↦ e.isLogicError = true ∧ Points s) ?_
        (fun _ s hs ↦ ⟨trivial, hs⟩) (fun _ s hs ↦ ⟨trivial, hs⟩)
      apply Triple.bind_quiet (Q := fun _ ↦ Anything) (fun s _ ↦ ⟨fun _ _ ↦ trivial, trivial⟩)
      intro messaging
      apply Triple.ofExcept_bind
      · intro _ _
        apply Triple.bind_quiet (points_setDpaInterfaces_udp messaging)
        intro _
        exact (keeps_insertMessaging points_keptByMessaging.insertMessaging instanceName).anything
      · intro e s herror
        rw [ComponentClass.updateMessaging, hupdate] at herror
        cases herror
    · rintro e s ⟨⟩
  · rintro e s ⟨⟩

theorem points_loadMessagingInstances {instances : List Value} {instanceName : String}
    {properties : List (String × Value)}
    (hfirst : firstInstance instances = some (instanceName, properties))
    (hupdate : updateUdpMessaging (.object properties) = .ok ()) :
    Makes Anything Points (forEach (loadMessagingInstance "UdpMessaging") instances) := by
  induction instances with
  | nil => cases hfirst
  | cons item rest ih =>
      cases hparse : parseInstance item with
      | error e =>
          rw [firstInstance, hparse] at hfirst
          cases hfirst
      | ok parsed =>
          rw [firstInstance, hparse] at hfirst
          cases parsed with
          | none =>
              apply Triple.bind_quiet (Q := fun _ ↦ Anything)
              · rw [loadMessagingInstance, hparse]
                apply Triple.ofExcept_bind
                · rintro parsed ⟨⟩
                  exact Triple.pure fun _ _ ↦ trivial
                · rintro e s ⟨⟩
              · exact fun _ ↦ ih hfirst
          | some i =>
              obtain rfl := Option.some.inj hfirst
              apply Triple.bind (points_loadMessagingInstance hparse hupdate)
              intro _
              exact keepsPoints_loadMessagingInstances "UdpMessaging" rest

/-! ## A handler that is registered stays registered -/

def Bound (s : State) : Prop := ∃ m ∈ s.messagings.values, m.messageHandler ≠ none

/-- Between two instances no service is under construction. -/
def Idle (s : State) : Prop := s.newService = none

theorem idle_keptByMessaging : KeptByMessaging Idle where
  createMessaging _ _ h := h
  insertMessaging s h := by
    rw [State.insertMessaging]
    split
    · exact h
    · exact h
  destroyNewMessaging _ h := h

theorem bound_insertService {s : State} (h : Bound s) : Bound s.insertService := by
  rw [State.insertService]
  split
  · exact h
  · exact h

theorem bound_registerMessageHandler {s : State} (h : Bound s) (name : String) (service : ℕ) :
    Bound (s.registerMessageHandler name service) := by
  obtain ⟨m, hm, hhandler⟩ := h
  rcases Map.mem_values_or_modified name
      (fun m ↦ { m with messageHandler := some service }) hm with hm | hm
  · exact ⟨m, hm, hhandler⟩
  · exact ⟨_, hm, by simp⟩

theorem bound_keptByService : KeptByService Bound where
  createService _ _ h := h
  modifyService _ _ h := h
  registerMessageHandler name object _ h := bound_registerMessageHandler h name object
  insertService _ h := bound_insertService h
  destroyNewService _ h := h

theorem named_keptByService (names : List String) : KeptByService (Named names) where
  createService _ _ h := h
  modifyService _ _ h := h
  registerMessageHandler name object s h := by
    intro j
    rw [← h j]
    exact iff_of_eq (congrArg (j ∈ ·) (Map.keys_modify s.messagings name _))
  insertService s h := by
    rw [State.insertService]
    split
    · exact h
    · exact h
  destroyNewService _ h := h

theorem anything_keptByService : KeptByService Anything where
  createService _ _ _ := trivial
  modifyService _ _ _ := trivial
  registerMessageHandler _ _ _ _ := trivial
  insertService _ _ := trivial
  destroyNewService _ _ := trivial

theorem idle_loadServiceInstance (componentName : String) (item : Value) :
    Keeps Anything Idle (loadServiceInstance componentName item) := by
  apply (keeps_ofExcept (logicOnly_parseServiceInstance item)).bind
  rintro (_ | i)
  · exact keeps_pure ()
  · apply (keeps_ofExcept (logicOnly_getCreateFunction componentName)).bind
    intro _
    refine Triple.onExit ?_ (Q := fun _ ↦ Anything) (E := fun e _ ↦ e.isLogicError = true) ?_ ?_
    · exact (keeps_buildService anything_keptByService i).conseq (fun _ _ ↦ trivial)
        (fun _ _ hs ↦ hs) fun _ _ hs ↦ hs.1
    · exact fun _ _ _ ↦ ⟨trivial, rfl⟩
    · exact fun _ _ hlogic ↦ ⟨trivial, hlogic, rfl⟩

theorem bound_setMessaging {names : List String} {messagingName : String}
    (hname : messagingName ∈ names) (service : ℕ) :
    MakesQuietly (Named names) Bound (setMessaging service messagingName) := by
  apply Triple.get_bind
  intro r
  cases hfind : r.messagings.find messagingName with
  | none =>
      refine Triple.throw ?_
      rintro s ⟨rfl, hs⟩
      have hfound := (isSome_find_of_named hs messagingName).mpr hname
      simp [hfind] at hfound
  | some m =>
      refine Triple.bind (Q := fun _ s ↦ s.messagings.find messagingName = some m)
        (Triple.modify (fun _ _ ↦ trivial) ?_) fun _ ↦ Triple.modify (fun _ _ ↦ trivial) ?_
      · rintro s ⟨rfl, -⟩
        exact hfind
      · intro s hs
        exact ⟨_, Map.mem_values_modify_of_find _ hs, by simp⟩

/-- A service whose messaging is there registers its handler, whatever happens next. -/
theorem bound_buildService {names : List String} {i : ServiceInstance}
    (hname : i.messagingName ∈ names) : Makes (Named names) Bound (buildService i) := by
  rw [buildService]
  apply Triple.bind_quiet
  · exact (keepsQuietly_createService (named_keptByService names).createService _).anything
  intro service
  apply Triple.bind_quiet (bound_setMessaging hname service)
  intro _
  exact (keeps_configureService bound_keptByService i).anything

theorem bound_loadServiceInstance {names : List String} {componentName : String} {item : Value}
    {i : ServiceInstance} (hparse : parseServiceInstance item = .ok (some i))
    (hcreate : ∃ create, getCreateFunction componentName = .ok create)
    (hname : i.messagingName ∈ names) :
    Makes (Named names) Bound (loadServiceInstance componentName item) := by
  obtain ⟨create, hcreate⟩ := hcreate
  rw [loadServiceInstance, hparse, hcreate]
  apply Triple.ofExcept_bind
  · rintro parsed ⟨⟩
    apply Triple.ofExcept_bind
    · rintro _ ⟨⟩
      exact Triple.onExit (bound_buildService hname) (fun _ _ hs ↦ ⟨trivial, hs⟩)
        fun _ _ hs ↦ ⟨trivial, hs⟩
    · rintro e s ⟨⟩
  · rintro e s ⟨⟩

def Ready (names : List String) (s : State) : Prop := Named names s ∧ Idle s

def ReadyBound (names : List String) (s : State) : Prop := Ready names s ∧ Bound s

theorem ready_loadServiceInstance (names : List String) (componentName : String) (item : Value) :
    Keeps Anything (Ready names) (loadServiceInstance componentName item) :=
  ((keeps_loadServiceInstance (named_keptByService names) componentName item).and
    (idle_loadServiceInstance componentName item)).anything

theorem readyBound_loadServiceInstance (names : List String) (componentName : String)
    (item : Value) :
    Keeps Anything (ReadyBound names) (loadServiceInstance componentName item) :=
  ((ready_loadServiceInstance names componentName item).and
    (keeps_loadServiceInstance bound_keptByService componentName item)).anything

/-- The loop over the instances of a component registers a handler if one of them can. -/
theorem bound_loadServiceInstances {names : List String} {componentName : String}
    {instances : List Value} {item : Value} {i : ServiceInstance} (hitem : item ∈ instances)
    (hparse : parseServiceInstance item = .ok (some i))
    (hcreate : ∃ create, getCreateFunction componentName = .ok create)
    (hname : i.messagingName ∈ names) :
    MakesQuietly (Ready names) (ReadyBound names)
      (forEach
        (fun item ↦ catching Failure.isLogicError (loadServiceInstance componentName item))
        instances) := by
  apply Triple.forEach_of_mem hitem
  · intro item' _
    exact (ready_loadServiceInstance names componentName item').catching fun _ h ↦ h
  · intro item' _
    exact (readyBound_loadServiceInstance names componentName item').catching fun _ h ↦ h
  · have hbound : Makes (Ready names) Bound (loadServiceInstance componentName item) :=
      (bound_loadServiceInstance hparse hcreate hname).conseq (fun _ hs ↦ hs.1)
        (fun _ _ hs ↦ hs) fun _ _ hs ↦ hs
    exact (hbound.and_keeps (ready_loadServiceInstance names componentName item)).catching
      fun _ h ↦ h

theorem bound_loadServices {componentMap : List ComponentDescriptor}
    (h : BindsService componentMap) :
    MakesQuietly (Ready (loadedMessagings componentMap))
      (ReadyBound (loadedMessagings componentMap))
      (loadComponents loadServiceComponent componentMap) := by
  obtain ⟨c, hc, henabled, hinterface, instances, hinstances, item, hitem, i, hparse, hcreate,
    hname⟩ := h
  apply Triple.forEach_of_mem hc
  · intro d _
    refine keepsQuietly_loadComponent fun _ ↦ keeps_loadInstances d (by decide) fun item ↦ ?_
    exact ((ready_loadServiceInstance _ d.componentName item).catching fun _ h ↦ h).keeps
  · intro d _
    refine keepsQuietly_loadComponent fun _ ↦ keeps_loadInstances d (by decide) fun item ↦ ?_
    exact ((readyBound_loadServiceInstance _ d.componentName item).catching fun _ h ↦ h).keeps
  · rw [if_pos henabled, loadServiceComponent, loadInstances, if_pos hinterface, hinstances]
    refine Makes.catching (fun _ ↦ Failure.isException_of_isLogicError) ?_
    apply Triple.ofExcept_bind
    · rintro _ ⟨⟩
      exact (bound_loadServiceInstances hitem hparse hcreate hname).conseq (fun _ hs ↦ hs)
        (fun _ _ hs ↦ hs) fun _ _ hs ↦ hs.elim
    · rintro e s ⟨⟩

theorem points_loadMessagings {componentMap : List ComponentDescriptor}
    (h : UpdatesUdpMessaging componentMap) :
    MakesQuietly Anything Points (loadComponents loadMessagingComponent componentMap) := by
  obtain ⟨c, hc, henabled, hinterface, hname, instances, hinstances, instanceName, properties,
    hfirst, hupdate⟩ := h
  have hpoints : MakesQuietly Anything (fun s ↦ Anything s ∧ Points s)
      (loadComponents loadMessagingComponent componentMap) := by
    apply Triple.forEach_of_mem hc
    · intro d _
      refine keepsQuietly_loadComponent fun _ ↦ keeps_loadInstances d (by decide) fun item ↦ ?_
      exact keeps_loadMessagingInstance_anything d.componentName item
    · intro d _
      refine keepsQuietly_loadComponent fun _ ↦ keeps_loadInstances d (by decide) fun item ↦ ?_
      exact ((keeps_loadMessagingInstance_anything d.componentName item).and
        (keeps_loadMessagingInstance points_keptByMessaging
          (points_setDpaInterfaces d.componentName) item)).anything
    · rw [if_pos henabled, loadMessagingComponent, loadInstances, if_pos hinterface, hinstances,
        hname]
      refine Makes.catching (fun _ ↦ Failure.isException_of_isLogicError) ?_
      apply Triple.ofExcept_bind
      · rintro _ ⟨⟩
        exact (points_loadMessagingInstances hfirst hupdate).conseq (fun _ hs ↦ hs)
          (fun _ _ hs ↦ ⟨trivial, hs⟩) fun _ _ hs ↦ ⟨hs.1, trivial, hs.2⟩
      · rintro e s ⟨⟩
  exact hpoints.conseq (fun _ hs ↦ hs) (fun _ _ hs ↦ hs.2) fun _ _ hs ↦ hs

/-! ## What is left behind -/

theorem makesQuietly_startServices {P₀ P₁ P₂ J : State → Prop}
    {componentMap : List ComponentDescriptor}
    (hserializers : MakesQuietly P₀ P₁ (loadComponents loadSerializerComponent componentMap))
    (hmessagings : MakesQuietly P₁ P₂ (loadComponents loadMessagingComponent componentMap))
    (hservices : MakesQuietly P₂ J (loadComponents loadServiceComponent componentMap))
    (htask : ∀ service s, J s → J (s.registerTaskHandler service))
    (hasync : ∀ service s, J s → J (s.registerAsyncMessageHandler service)) :
    MakesQuietly P₀ J (startServices componentMap) := by
  apply Triple.bind hserializers
  intro _
  apply Triple.bind hmessagings
  intro _
  apply Triple.bind hservices
  intro _
  exact MakesQuietly.of_keeps (keepsQuietly_get_bind fun r ↦
    keepsQuietly_startEach htask hasync r.services.values)

theorem points_startServices {componentMap : List ComponentDescriptor}
    (h : UpdatesUdpMessaging componentMap) :
    MakesQuietly Anything Points (startServices componentMap) :=
  makesQuietly_startServices
    (.of_keeps (keepsQuietly_loadSerializers (fun _ _ _ ↦ trivial) componentMap))
    (points_loadMessagings h)
    (.of_keeps (keepsQuietly_loadServices points_keptByService componentMap))
    (fun _ _ hs ↦ hs) (fun _ _ hs ↦ hs)

theorem bound_startServices {componentMap : List ComponentDescriptor}
    (h : BindsService componentMap) :
    MakesQuietly (Ready []) (ReadyBound (loadedMessagings componentMap))
      (startServices componentMap) := by
  have hmessagings : MakesQuietly (Ready []) (Ready (loadedMessagings componentMap))
      (loadComponents loadMessagingComponent componentMap) := by
    have hidle : KeepsQuietly Idle Idle (loadComponents loadMessagingComponent componentMap) :=
      keepsQuietly_loadComponents fun c _ _ ↦ keeps_loadMessagingComponent idle_keptByMessaging
        (keepsQuietly_setDpaInterfaces (fun _ _ hs ↦ hs) (fun _ _ hs ↦ hs) c.componentName)
    exact (((named_loadMessagings [] componentMap).and hidle).visits fun _ _ ↦ trivial).conseq
      (fun _ hs ↦ hs) (fun _ _ hs ↦ hs) fun _ _ hs ↦ hs.1
  exact makesQuietly_startServices
    (.of_keeps (keepsQuietly_loadSerializers (fun _ _ hs ↦ hs) componentMap)) hmessagings
    (bound_loadServices h) (fun _ _ hs ↦ hs) (fun _ _ hs ↦ hs)

theorem hits_stop_of_points : Hits (fun s ↦ ¬ Owned s) Points stop := by
  apply Hits.bind_left
  apply Hits.bind_right (I := Anything) (Triple.get (Q := fun _ ↦ Points) fun _ hs ↦ hs)
  intro r
  apply Hits.bind_right (keepsQuietly_stopEach (fun _ _ hs ↦ hs) r.services.values)
  intro _
  have hclear : KeepsQuietly Points Points (modify State.clearServices) :=
    keepsQuietly_modify fun _ hs ↦ hs
  apply Hits.bind_right hclear
  intro _
  apply Hits.bind_left
  refine Hits.modify fun s hs howned ↦ ?_
  obtain ⟨m, hm⟩ := Option.ne_none_iff_exists'.mp hs
  have hmem := howned.exclusiveAccess m hm
  simp [State.clearMessagings] at hmem

theorem hits_stop_of_bound : Hits (fun s ↦ ¬ Owned s) (fun s ↦ Bound s ∧ Idle s) stop := by
  apply Hits.bind_left
  apply Hits.bind_right (I := Anything) (Triple.get (Q := fun _ s ↦ Bound s ∧ Idle s) fun _ hs ↦ hs)
  intro r
  apply Hits.bind_right (keepsQuietly_stopEach (fun _ _ hs ↦ hs) r.services.values)
  intro _
  apply Hits.bind_left
  refine Hits.modify fun s ⟨⟨m, hm, hhandler⟩, hidle⟩ howned ↦ ?_
  obtain ⟨service, hservice⟩ := Option.ne_none_iff_exists'.mp hhandler
  have hlive := howned.messaging m (List.mem_append_left _ hm) service hservice
  rw [Idle] at hidle
  simp [State.liveServices, State.clearServices, hidle] at hlive

theorem hits_lifecycle_of_udpMessaging {componentMap : List ComponentDescriptor}
    (h : UpdatesUdpMessaging componentMap) :
    Hits (fun s ↦ ¬ Owned s) (· = State.create) (lifecycle componentMap) := by
  refine Hits.bind_right (I := Anything) (Q := fun _ ↦ Points) ?_ fun _ ↦ hits_stop_of_points
  exact Triple.catching ((points_startServices h).conseq (fun _ _ ↦ trivial) (fun _ _ hs ↦ hs)
    fun _ _ hs ↦ hs) (fun _ _ _ hs ↦ hs.elim) fun _ _ _ hs ↦ hs

theorem ready_create : Ready [] State.create := by
  refine ⟨fun name ↦ ?_, rfl⟩
  simp [State.create]

theorem hits_lifecycle_of_service {componentMap : List ComponentDescriptor}
    (h : BindsService componentMap) :
    Hits (fun s ↦ ¬ Owned s) (· = State.create) (lifecycle componentMap) := by
  refine Hits.bind_right (I := Anything) (Q := fun _ s ↦ Bound s ∧ Idle s) ?_
    fun _ ↦ hits_stop_of_bound
  exact Triple.catching ((bound_startServices h).conseq (fun _ hs ↦ hs ▸ ready_create)
    (fun _ _ hs ↦ ⟨hs.2, hs.1.2⟩) fun _ _ hs ↦ hs) (fun _ _ _ hs ↦ hs.elim) fun _ _ _ hs ↦ hs

end IqrfDaemon.Component
