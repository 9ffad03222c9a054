import IqrfDaemon.Component.Descriptor
import IqrfDaemon.Container.Map
import IqrfDaemon.Transition.Traced
import Mathlib.Data.String.Basic

/-!
# Loading, starting and stopping the components

`startServices` and `stop` of the controller as programs over the objects they
create and destroy and the callbacks they register.  Objects have an identity of
their own, and a callback is named by the service object it captures.  Messagings,
the scheduler and the DPA handler deliver concurrently but change none of this.
What `start` of a messaging throws is caught, and its `stop` throws nothing.
-/

namespace IqrfDaemon.Component

open Json Container Transition

structure Messaging where
  object : ℕ
  name : String
  messageHandler : Option ℕ
  deriving DecidableEq

structure Service where
  object : ℕ
  name : String
  messaging : Option ℕ
  serializerVect : List ℕ
  asyncDpaMessage : Bool
  deriving DecidableEq

/-- A handler in the scheduler captures the controller itself or a service. -/
inductive SchedulerHandler
  | watchDogPet
  | service (object : ℕ)
  deriving DecidableEq

/-- The members of `DaemonController`, the handlers held by its scheduler, and the local
`unique_ptr` of the instance that is being loaded. -/
structure State where
  objects : ℕ
  serializers : Map String ℕ
  messagings : Map String Messaging
  services : Map String Service
  newMessaging : Option Messaging
  newService : Option Service
  messageHandlers : Map String SchedulerHandler
  asyncMessageHandlers : Map String ℕ
  dpaExclusiveAccess : Option ℕ
  dpaMessageForwarding : Option ℕ

namespace State

/-- The state after `startScheduler`. -/
def create : State where
  objects := 0
  serializers := .empty
  messagings := .empty
  services := .empty
  newMessaging := none
  newService := none
  messageHandlers := Map.empty.insert "WatchDogPet" .watchDogPet
  asyncMessageHandlers := .empty
  dpaExclusiveAccess := none
  dpaMessageForwarding := none

def insertSerializer (name : String) (s : State) : State :=
  { s with objects := s.objects + 1, serializers := s.serializers.insert name s.objects }

def createMessaging (name : String) (s : State) : State :=
  { s with
    objects := s.objects + 1
    newMessaging := some { object := s.objects, name := name, messageHandler := none } }

def setExclusiveAccess (udpMessaging : ℕ) (s : State) : State :=
  { s with dpaExclusiveAccess := some udpMessaging }

def setMessageForwarding (udpMessaging : ℕ) (s : State) : State :=
  { s with dpaMessageForwarding := some udpMessaging }

/-- `insert` takes the messaging over, and destroys it when the name is there already. -/
def insertMessaging (s : State) : State :=
  match s.newMessaging with
  | some m => { s with messagings := s.messagings.insert m.name m, newMessaging := none }
  | none => s

def destroyNewMessaging (s : State) : State :=
  { s with newMessaging := none }

def createService (name : String) (s : State) : State :=
  { s with
    objects := s.objects + 1
    newService := some
      { object := s.objects
        name := name
        messaging := none
        serializerVect := []
        asyncDpaMessage := false } }

/-- The handler of a service takes the place of the one registered before. -/
def registerMessageHandler (name : String) (service : ℕ) (s : State) : State :=
  { s with
    messagings := s.messagings.modify name fun m ↦ { m with messageHandler := some service } }

def modifyService (f : Service → Service) (s : State) : State :=
  { s with newService := s.newService.map f }

def insertService (s : State) : State :=
  match s.newService with
  | some m => { s with services := s.services.insert m.name m, newService := none }
  | none => s

def destroyNewService (s : State) : State :=
  { s with newService := none }

/-- `Scheduler::registerMessageHandler`, which keeps a handler that is there already. -/
def registerTaskHandler (service : Service) (s : State) : State :=
  { s with messageHandlers := s.messageHandlers.insert service.name (.service service.object) }

def unregisterTaskHandler (service : Service) (s : State) : State :=
  { s with messageHandlers := s.messageHandlers.erase service.name }

def registerAsyncMessageHandler (service : Service) (s : State) : State :=
  { s with
    asyncMessageHandlers := s.asyncMessageHandlers.insert service.name service.object }

def clearServices (s : State) : State :=
  { s with services := .empty }

def clearMessagings (s : State) : State :=
  { s with messagings := .empty }

def clearSerializers (s : State) : State :=
  { s with serializers := .empty }

def deleteScheduler (s : State) : State :=
  { s with messageHandlers := .empty }

end State

abbrev Prog : Type → Type := Traced State Failure

open Traced

def throwDuplicit (what name : String) (found : Bool) : Prog Unit :=
  if found then throw (.logicError ("Duplicit " ++ what ++ " configuration: " ++ name))
  else pure ()

def cannotFind (name : String) : Failure := .logicError ("Cannot find: " ++ name)

/-! ## Loading -/

def loadSerializerInstance (componentName : String) (item : Value) : Prog Unit := do
  match ← ofExcept (parseInstance item) with
  | none => pure ()
  | some (instanceName, _) =>
      let _ ← ofExcept (getCreateFunction componentName)
      let s ← get
      modify (State.insertSerializer instanceName)
      throwDuplicit "Serializer" instanceName (s.serializers.find instanceName).isSome

/-- The "temporary hack" for the interfaces of `UdpMessaging`. -/
def setDpaInterfaces (componentName : String) (messaging : ℕ) : Prog Unit :=
  if componentName = "UdpMessaging" then do
    modify (State.setExclusiveAccess messaging)
    modify (State.setMessageForwarding messaging)
  else pure ()

/-- The constructor, with the identity of the new object. -/
def createMessaging (instanceName : String) : Prog ℕ := do
  let s ← get
  modify (State.createMessaging instanceName)
  pure s.objects

def insertMessaging (instanceName : String) : Prog Unit := do
  let s ← get
  modify State.insertMessaging
  throwDuplicit "Messaging" instanceName (s.messagings.find instanceName).isSome

def loadMessagingInstance (componentName : String) (item : Value) : Prog Unit := do
  match ← ofExcept (parseInstance item) with
  | none => pure ()
  | some (instanceName, properties) =>
      let create ← ofExcept (getCreateFunction componentName)
      onExit State.destroyNewMessaging do
        let messaging ← createMessaging instanceName
        ofExcept (create.updateMessaging (.object properties))
        setDpaInterfaces componentName messaging
        insertMessaging instanceName

def createService (instanceName : String) : Prog ℕ := do
  let s ← get
  modify (State.createService instanceName)
  pure s.objects

def setMessaging (service : ℕ) (messagingName : String) : Prog Unit := do
  let s ← get
  match s.messagings.find messagingName with
  | some m =>
      modify (State.modifyService fun v ↦ { v with messaging := some m.object })
      modify (State.registerMessageHandler messagingName service)
  | none => throw (cannotFind messagingName)

def setSerializer (serializerName : String) : Prog Unit := do
  let s ← get
  match s.serializers.find serializerName with
  | some object =>
      modify (State.modifyService fun v ↦
        { v with serializerVect := v.serializerVect ++ [object] })
  | none => throw (cannotFind serializerName)

/-- The rest of the instance's try block once the messaging is set. -/
def configureService (i : ServiceInstance) : Prog Unit := do
  forEach setSerializer i.serializersVector
  let asyncDpaMessage ← ofExcept (updateBaseService (.object i.properties) false)
  modify (State.modifyService fun v ↦ { v with asyncDpaMessage := asyncDpaMessage })
  let s ← get
  modify State.insertService
  throwDuplicit "Service" i.instanceName (s.services.find i.instanceName).isSome

def buildService (i : ServiceInstance) : Prog Unit := do
  let service ← createService i.instanceName
  setMessaging service i.messagingName
  configureService i

def loadServiceInstance (componentName : String) (item : Value) : Prog Unit := do
  match ← ofExcept (parseServiceInstance item) with
  | none => pure ()
  | some i =>
      let _ ← ofExcept (getCreateFunction componentName)
      onExit State.destroyNewService (buildService i)

/-- What the three loaders of a component share: the test of its interface and the loop
over its instances. -/
def loadInstances (interfaceName : String) (load : Value → Prog Unit)
    (componentDescriptor : ComponentDescriptor) : Prog Unit :=
  if componentDescriptor.interfaceName = interfaceName then do
    let instances ← ofExcept (getInstances componentDescriptor.doc)
    forEach load instances
  else pure ()

def loadSerializerComponent (componentDescriptor : ComponentDescriptor) : Prog Unit :=
  loadInstances "ISerializer" (loadSerializerInstance componentDescriptor.componentName)
    componentDescriptor

def loadMessagingComponent (componentDescriptor : ComponentDescriptor) : Prog Unit :=
  loadInstances "IMessaging" (loadMessagingInstance componentDescriptor.componentName)
    componentDescriptor

/-- Only here each instance has a handler of its own. -/
def loadServiceComponent (componentDescriptor : ComponentDescriptor) : Prog Unit :=
  loadInstances "IService"
    (fun item ↦
      catching Failure.isLogicError (loadServiceInstance componentDescriptor.componentName item))
    componentDescriptor

def loadComponents (load : ComponentDescriptor → Prog Unit)
    (componentMap : List ComponentDescriptor) : Prog Unit :=
  forEach
    (fun c ↦ if c.enabled then catching Failure.isException (load c) else pure ())
    componentMap

/-! ## Starting and stopping -/

/-- `BaseService::start` -/
def startService (service : Service) : Prog Unit := do
  modify (State.registerTaskHandler service)
  if service.asyncDpaMessage then modify (State.registerAsyncMessageHandler service)
  else pure ()

/-- `BaseService::stop` -/
def stopService (service : Service) : Prog Unit :=
  modify (State.unregisterTaskHandler service)

def startServices (componentMap : List ComponentDescriptor) : Prog Unit := do
  loadComponents loadSerializerComponent componentMap
  loadComponents loadMessagingComponent componentMap
  loadComponents loadServiceComponent componentMap
  let s ← get
  forEach (fun service ↦ catching Failure.isException (startService service)) s.services.values

def stopServices : Prog Unit := do
  let s ← get
  forEach stopService s.services.values
  modify State.clearServices
  modify State.clearMessagings
  modify State.clearSerializers

def stop : Prog Unit := do
  stopServices
  modify State.deleteScheduler

/-- `run`, as far as the components are concerned. -/
def lifecycle (componentMap : List ComponentDescriptor) : Prog Unit := do
  catching Failure.isException (startServices componentMap)
  stop

end IqrfDaemon.Component
