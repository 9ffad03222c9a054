import IqrfDaemon.Component.Lifecycle

/-!
# What the loaders keep

A loader keeps a property of the state if each of its effects does, and throws
logic errors only, so the handlers around it let nothing pass.
-/

namespace IqrfDaemon.Component

open Json Jutils Transition Traced

variable {α β : Type} {I J : State → Prop}

/-- The program keeps `J`, visits only states that meet `I`, and throws logic errors only. -/
def Keeps (I J : State → Prop) (x : Prog α) : Prop :=
  Triple I J x (fun _ ↦ J) fun e s ↦ e.isLogicError = true ∧ J s

abbrev Anything : State → Prop := fun _ ↦ True

/-- The program keeps `J`, visits only states that meet `I`, and throws nothing. -/
def KeepsQuietly (I J : State → Prop) (x : Prog α) : Prop :=
  Triple I J x (fun _ ↦ J) fun _ _ ↦ False

/-- The program leads from `P` to `J` also when it throws, which only logic errors do. -/
def Makes (P J : State → Prop) (x : Prog α) : Prop :=
  Triple Anything P x (fun _ ↦ J) fun e s ↦ e.isLogicError = true ∧ J s

/-- The program leads from `P` to `J` and throws nothing. -/
def MakesQuietly (P J : State → Prop) (x : Prog α) : Prop :=
  Triple Anything P x (fun _ ↦ J) fun _ _ ↦ False

theorem keeps_pure (a : α) : Keeps I J (pure a) :=
  Triple.pure fun _ hs ↦ hs

theorem keeps_throw {e : Failure} (h : e.isLogicError = true) : Keeps I J (throw e : Prog α) :=
  Triple.throw fun _ hs ↦ ⟨h, hs⟩

theorem keeps_ofExcept {r : Except Failure α} (h : LogicOnly r) : Keeps I J (ofExcept r) :=
  Triple.ofExcept (fun _ _ _ hs ↦ hs) fun e _ he hs ↦ ⟨h e he, hs⟩

theorem keeps_modify {g : State → State} (hJ : ∀ s, J s → J (g s)) : Keeps J J (modify g) :=
  Triple.modify hJ hJ

theorem Keeps.bind {x : Prog α} {f : α → Prog β} (hx : Keeps I J x) (hf : ∀ a, Keeps I J (f a)) :
    Keeps I J (x >>= f) :=
  Triple.bind hx hf

theorem keeps_get_bind {f : State → Prog α} (hf : ∀ a, Keeps I J (f a)) : Keeps I J (get >>= f) :=
  Triple.bind (Triple.get fun _ hs ↦ hs) hf

theorem keeps_forEach {body : β → Prog Unit} {l : List β} (h : ∀ b ∈ l, Keeps I J (body b)) :
    Keeps I J (forEach body l) := by
  induction l with
  | nil => exact keeps_pure ()
  | cons b rest ih =>
      apply (h b List.mem_cons_self).bind
      intro _
      exact ih fun c hc ↦ h c (List.mem_cons_of_mem b hc)

theorem Keeps.onExit {x : Prog α} {g : State → State} (hx : Keeps J J x)
    (hg : ∀ s, J s → J (g s)) : Keeps J J (onExit g x) :=
  Triple.onExit hx (fun _ s hs ↦ ⟨hg s hs, hg s hs⟩) fun _ s hs ↦
    ⟨hg s hs.2, hs.1, hg s hs.2⟩

/-- Nothing passes a handler of all logic errors. -/
theorem catching_quiet {P : State → Prop} {x : Prog Unit} {handles : Failure → Bool}
    (hhandles : ∀ e, e.isLogicError = true → handles e = true)
    (hx : Triple I P x (fun _ ↦ J) fun e s ↦ e.isLogicError = true ∧ J s) :
    Triple I P (catching handles x) (fun _ ↦ J) fun _ _ ↦ False := by
  refine Triple.catching hx (fun e s _ hs ↦ hs.2) fun e s hpass hs ↦ ?_
  rw [hhandles e hs.1] at hpass
  cases hpass

theorem Keeps.catching {x : Prog Unit} {handles : Failure → Bool}
    (hhandles : ∀ e, e.isLogicError = true → handles e = true) (hx : Keeps I J x) :
    KeepsQuietly I J (catching handles x) :=
  catching_quiet hhandles hx

theorem Makes.catching {P : State → Prop} {x : Prog Unit} {handles : Failure → Bool}
    (hhandles : ∀ e, e.isLogicError = true → handles e = true) (hx : Makes P J x) :
    MakesQuietly P J (catching handles x) :=
  catching_quiet hhandles hx

theorem Makes.and_keeps {P : State → Prop} {x : Prog α} (hx : Makes P J x) (hP : Keeps I P x) :
    Makes P (fun s ↦ P s ∧ J s) x :=
  ((Triple.and hP hx).visits fun _ _ ↦ trivial).conseq (fun _ hs ↦ ⟨hs, hs⟩) (fun _ _ hs ↦ hs)
    fun _ _ hs ↦ ⟨hs.1.1, hs.1.2, hs.2.2⟩

theorem Makes.of_keeps {x : Prog α} (h : Keeps I J x) : Makes J J x :=
  h.visits fun _ _ ↦ trivial

theorem MakesQuietly.of_keeps {x : Prog α} (h : KeepsQuietly I J x) : MakesQuietly J J x :=
  h.visits fun _ _ ↦ trivial

theorem Keeps.and {I' J' : State → Prop} {x : Prog α} (h : Keeps I J x) (h' : Keeps I' J' x) :
    Keeps (fun s ↦ I s ∧ I' s) (fun s ↦ J s ∧ J' s) x :=
  (Triple.and h h').conseq (fun _ hs ↦ hs) (fun _ _ hs ↦ hs) fun _ _ hs ↦
    ⟨hs.1.1, hs.1.2, hs.2.2⟩

theorem Keeps.anything {x : Prog α} (h : Keeps I J x) : Keeps Anything J x :=
  h.visits fun _ _ ↦ trivial

theorem KeepsQuietly.anything {x : Prog α} (h : KeepsQuietly I J x) : KeepsQuietly Anything J x :=
  h.visits fun _ _ ↦ trivial

theorem KeepsQuietly.keeps {x : Prog α} (hx : KeepsQuietly I J x) : Keeps I J x :=
  hx.conseq (fun _ hs ↦ hs) (fun _ _ hs ↦ hs) fun _ _ hs ↦ hs.elim

theorem keepsQuietly_forEach {body : β → Prog Unit} {l : List β}
    (h : ∀ b ∈ l, KeepsQuietly I J (body b)) : KeepsQuietly I J (forEach body l) :=
  Triple.forEach h

theorem KeepsQuietly.bind {x : Prog α} {f : α → Prog β} (hx : KeepsQuietly I J x)
    (hf : ∀ a, KeepsQuietly I J (f a)) : KeepsQuietly I J (x >>= f) :=
  Triple.bind hx hf

theorem keepsQuietly_pure (a : α) : KeepsQuietly I J (pure a) :=
  Triple.pure fun _ hs ↦ hs

theorem keepsQuietly_get_bind {f : State → Prog α} (hf : ∀ a, KeepsQuietly I J (f a)) :
    KeepsQuietly I J (get >>= f) :=
  Triple.bind (Triple.get fun _ hs ↦ hs) hf

theorem keepsQuietly_modify {g : State → State} (hJ : ∀ s, J s → J (g s)) :
    KeepsQuietly J J (modify g) :=
  Triple.modify hJ hJ

theorem keeps_throwDuplicit (what name : String) (found : Bool) :
    Keeps I J (throwDuplicit what name found) := by
  cases found with
  | true => exact keeps_throw rfl
  | false => exact keeps_pure ()

/-! ## The loaders -/

theorem keeps_loadSerializerInstance (hinsert : ∀ name s, J s → J (s.insertSerializer name))
    (componentName : String) (item : Value) :
    Keeps J J (loadSerializerInstance componentName item) := by
  apply (keeps_ofExcept (logicOnly_parseInstance item)).bind
  rintro (_ | ⟨instanceName, properties⟩)
  · exact keeps_pure ()
  · apply (keeps_ofExcept (logicOnly_getCreateFunction componentName)).bind
    intro _
    apply keeps_get_bind
    intro s
    apply (keeps_modify (hinsert instanceName)).bind
    intro _
    exact keeps_throwDuplicit _ _ _

theorem keepsQuietly_createMessaging (h : ∀ name s, J s → J (s.createMessaging name))
    (name : String) : KeepsQuietly J J (createMessaging name) :=
  keepsQuietly_get_bind fun _ ↦ (keepsQuietly_modify (h name)).bind fun _ ↦ keepsQuietly_pure _

theorem keepsQuietly_setDpaInterfaces
    (hexclusive : ∀ object s, J s → J (s.setExclusiveAccess object))
    (hforwarding : ∀ object s, J s → J (s.setMessageForwarding object)) (componentName : String)
    (object : ℕ) : KeepsQuietly J J (setDpaInterfaces componentName object) := by
  rw [setDpaInterfaces]
  split
  · apply (keepsQuietly_modify (hexclusive object)).bind
    intro _
    exact keepsQuietly_modify (hforwarding object)
  · exact keepsQuietly_pure ()

theorem keeps_insertMessaging (h : ∀ s, J s → J s.insertMessaging) (name : String) :
    Keeps J J (insertMessaging name) :=
  keeps_get_bind fun _ ↦ (keeps_modify h).bind fun _ ↦ keeps_throwDuplicit _ _ _

/-- What keeps a property while a messaging is created and inserted. -/
structure KeptByMessaging (J : State → Prop) : Prop where
  createMessaging : ∀ name s, J s → J (s.createMessaging name)
  insertMessaging : ∀ s, J s → J s.insertMessaging
  destroyNewMessaging : ∀ s, J s → J s.destroyNewMessaging

theorem keeps_loadMessagingInstance {componentName : String} (hJ : KeptByMessaging J)
    (hset : ∀ object, KeepsQuietly J J (setDpaInterfaces componentName object)) (item : Value) :
    Keeps J J (loadMessagingInstance componentName item) := by
  apply (keeps_ofExcept (logicOnly_parseInstance item)).bind
  rintro (_ | ⟨instanceName, properties⟩)
  · exact keeps_pure ()
  · apply (keeps_ofExcept (logicOnly_getCreateFunction componentName)).bind
    intro create
    refine Keeps.onExit ?_ hJ.destroyNewMessaging
    apply (keepsQuietly_createMessaging hJ.createMessaging instanceName).keeps.bind
    intro messaging
    apply (keeps_ofExcept (logicOnly_updateMessaging create properties)).bind
    intro _
    apply (hset messaging).keeps.bind
    intro _
    exact keeps_insertMessaging hJ.insertMessaging instanceName

theorem keepsQuietly_createService (h : ∀ name s, J s → J (s.createService name))
    (name : String) : KeepsQuietly J J (createService name) :=
  keepsQuietly_get_bind fun _ ↦ (keepsQuietly_modify (h name)).bind fun _ ↦ keepsQuietly_pure _

/-- What keeps a property while a service is loaded. -/
structure KeptByService (J : State → Prop) : Prop where
  createService : ∀ name s, J s → J (s.createService name)
  modifyService : ∀ f s, J s → J (s.modifyService f)
  registerMessageHandler : ∀ name object s, J s → J (s.registerMessageHandler name object)
  insertService : ∀ s, J s → J s.insertService
  destroyNewService : ∀ s, J s → J s.destroyNewService

theorem keeps_setMessaging (hJ : KeptByService J) (service : ℕ) (name : String) :
    Keeps J J (setMessaging service name) := by
  apply keeps_get_bind
  intro s
  cases s.messagings.find name with
  | none => exact keeps_throw rfl
  | some m =>
      apply (keeps_modify (hJ.modifyService _)).bind
      intro _
      exact keeps_modify (hJ.registerMessageHandler name service)

theorem keeps_setSerializer (hJ : KeptByService J) (name : String) :
    Keeps J J (setSerializer name) := by
  apply keeps_get_bind
  intro s
  cases s.serializers.find name with
  | none => exact keeps_throw rfl
  | some object => exact keeps_modify (hJ.modifyService _)

theorem keeps_configureService (hJ : KeptByService J) (i : ServiceInstance) :
    Keeps J J (configureService i) := by
  apply (keeps_forEach fun name _ ↦ keeps_setSerializer hJ name).bind
  intro _
  apply (keeps_ofExcept (logicOnly_updateBaseService i.properties false)).bind
  intro _
  apply (keeps_modify (hJ.modifyService _)).bind
  intro _
  apply keeps_get_bind
  intro s
  apply (keeps_modify hJ.insertService).bind
  intro _
  exact keeps_throwDuplicit _ _ _

theorem keeps_buildService (hJ : KeptByService J) (i : ServiceInstance) :
    Keeps J J (buildService i) := by
  apply (keepsQuietly_createService hJ.createService i.instanceName).keeps.bind
  intro service
  apply (keeps_setMessaging hJ service i.messagingName).bind
  intro _
  exact keeps_configureService hJ i

theorem keeps_loadServiceInstance (hJ : KeptByService J) (componentName : String)
    (item : Value) : Keeps J J (loadServiceInstance componentName item) := by
  apply (keeps_ofExcept (logicOnly_parseServiceInstance item)).bind
  rintro (_ | i)
  · exact keeps_pure ()
  · apply (keeps_ofExcept (logicOnly_getCreateFunction componentName)).bind
    intro _
    exact (keeps_buildService hJ i).onExit hJ.destroyNewService

/-- Only a JSON object names an interface, so reading the instances throws logic errors only. -/
theorem keeps_loadInstances_of {interfaceName : String} {load : Value → Prog Unit}
    (c : ComponentDescriptor) (hname : interfaceName ≠ "")
    (h : c.interfaceName = interfaceName → ∀ instances, getInstances c.doc = .ok instances →
      Keeps I J (forEach load instances)) :
    Keeps I J (loadInstances interfaceName load c) := by
  rw [loadInstances]
  split
  case isTrue hinterface =>
    obtain ⟨members, hdoc⟩ := c.isObject_doc (hinterface ▸ hname)
    apply Triple.ofExcept_bind
    · exact h hinterface
    · intro e s herror hs
      rw [hdoc] at herror
      exact ⟨logicOnly_getInstances members e herror, hs⟩
  case isFalse => exact keeps_pure ()

theorem keeps_loadInstances {interfaceName : String} {load : Value → Prog Unit}
    (c : ComponentDescriptor) (hname : interfaceName ≠ "") (h : ∀ item, Keeps I J (load item)) :
    Keeps I J (loadInstances interfaceName load c) :=
  keeps_loadInstances_of c hname fun _ _ _ ↦ keeps_forEach fun item _ ↦ h item

theorem keepsQuietly_loadComponent {load : ComponentDescriptor → Prog Unit}
    {c : ComponentDescriptor} (h : c.enabled = true → Keeps I J (load c)) :
    KeepsQuietly I J
      (if c.enabled then catching Failure.isException (load c) else pure ()) := by
  split
  case isTrue henabled =>
    exact (h henabled).catching fun _ ↦ Failure.isException_of_isLogicError
  case isFalse => exact keepsQuietly_pure ()

theorem keepsQuietly_loadComponents {load : ComponentDescriptor → Prog Unit}
    {componentMap : List ComponentDescriptor}
    (h : ∀ c ∈ componentMap, c.enabled = true → Keeps I J (load c)) :
    KeepsQuietly I J (loadComponents load componentMap) :=
  keepsQuietly_forEach fun c hc ↦ keepsQuietly_loadComponent (h c hc)

theorem keepsQuietly_loadSerializers (hinsert : ∀ name s, J s → J (s.insertSerializer name))
    (componentMap : List ComponentDescriptor) :
    KeepsQuietly J J (loadComponents loadSerializerComponent componentMap) :=
  keepsQuietly_loadComponents fun c _ _ ↦ keeps_loadInstances c (by decide) fun item ↦
    keeps_loadSerializerInstance hinsert c.componentName item

theorem keeps_loadMessagingComponent {c : ComponentDescriptor} (hJ : KeptByMessaging J)
    (hset : ∀ object, KeepsQuietly J J (setDpaInterfaces c.componentName object)) :
    Keeps J J (loadMessagingComponent c) :=
  keeps_loadInstances c (by decide) fun item ↦ keeps_loadMessagingInstance hJ hset item

theorem keepsQuietly_loadServices (hJ : KeptByService J)
    (componentMap : List ComponentDescriptor) :
    KeepsQuietly J J (loadComponents loadServiceComponent componentMap) :=
  keepsQuietly_loadComponents fun c _ _ ↦ keeps_loadInstances c (by decide) fun item ↦
    ((keeps_loadServiceInstance hJ c.componentName item).catching fun _ h ↦ h).keeps

/-! ## Starting and stopping -/

theorem keeps_startService {service : Service}
    (htask : ∀ s, J s → J (s.registerTaskHandler service))
    (hasync : ∀ s, J s → J (s.registerAsyncMessageHandler service)) :
    Keeps J J (startService service) := by
  apply (keeps_modify htask).bind
  intro _
  split
  · exact keeps_modify hasync
  · exact keeps_pure ()

theorem keepsQuietly_startEach (htask : ∀ service s, J s → J (s.registerTaskHandler service))
    (hasync : ∀ service s, J s → J (s.registerAsyncMessageHandler service))
    (services : List Service) :
    KeepsQuietly J J
      (forEach (fun service ↦ catching Failure.isException (startService service)) services) := by
  apply keepsQuietly_forEach
  intro service _
  exact (keeps_startService (htask service) (hasync service)).catching fun _ ↦
    Failure.isException_of_isLogicError

theorem keepsQuietly_stopEach (h : ∀ service s, J s → J (s.unregisterTaskHandler service))
    (services : List Service) : KeepsQuietly J J (forEach stopService services) :=
  keepsQuietly_forEach fun service _ ↦ keepsQuietly_modify (h service)

end IqrfDaemon.Component
