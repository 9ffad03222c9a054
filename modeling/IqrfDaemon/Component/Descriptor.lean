import IqrfDaemon.Json.Value
import Mathlib.Tactic.TypeStar

/-!
# Component descriptors

What the controller reads from the configuration file of a component: the
interface it implements and the descriptors of its instances.  The components
themselves are linked statically and found by the name of their create function.
Every failure on the way is a `std::logic_error`.
-/

namespace IqrfDaemon.Component

open Json

/-- A descriptor as `loadConfiguration` leaves it: only a JSON object has set the
interface name. -/
structure ComponentDescriptor where
  componentName : String
  interfaceName : String
  enabled : Bool
  doc : Value
  isObject_doc : interfaceName ≠ "" → ∃ members, doc = .object members

/-- `ComponentDescriptor::loadConfiguration`, where `file` is the parsed file, if it can be
opened and parsed.  `FindMember` asserts that the document is an object. -/
def loadConfiguration (componentName : String) (enabled : Bool) :
    Option Value → Option ComponentDescriptor
  | none => some ⟨componentName, "", enabled, .null, fun h ↦ absurd rfl h⟩
  | some (.object members) =>
      match Jutils.getPossibleMemberAs Jutils.assertIsString "Implements" (.object members) "" with
      | .ok name => some ⟨componentName, name, enabled, .object members, fun _ ↦ ⟨members, rfl⟩⟩
      | .error _ => some ⟨componentName, "", enabled, .object members, fun _ ↦ ⟨members, rfl⟩⟩
  | some _ => none

inductive ComponentClass
  | simpleSerializer
  | jsonSerializer
  | mqMessaging
  | mqttMessaging
  | udpMessaging
  | baseService
  deriving DecidableEq

/-- `StaticBuildFunctionMap`, filled by the `init_` functions of the linked components. -/
def staticBuildFunctionMap : List (String × ComponentClass) :=
  [("__launch_create_SimpleSerializer", .simpleSerializer),
    ("__launch_create_JsonSerializer", .jsonSerializer),
    ("__launch_create_MqMessaging", .mqMessaging),
    ("__launch_create_MqttMessaging", .mqttMessaging),
    ("__launch_create_UdpMessaging", .udpMessaging),
    ("__launch_create_BaseService", .baseService)]

def getFunction (methodName : String) : Except Failure ComponentClass :=
  match staticBuildFunctionMap.lookup methodName with
  | some create => .ok create
  | none => .error (.logicError (methodName ++
      ": cannot be found. The binary isn't probably correctly linked"))

def getCreateFunction (componentName : String) : Except Failure ComponentClass :=
  getFunction ("__launch_create_" ++ componentName)

/-! ## Instances -/

/-- The instance descriptors of a component. -/
def getInstances (doc : Value) : Except Failure (List Value) := do
  let instances ← Jutils.getMember "Instances" doc
  Jutils.assertIsArray "Instances[]" instances

/-- The members of the properties, which have to be an object. -/
def getProperties (item : Value) : Except Failure (List (String × Value)) := do
  let properties ← Jutils.getMember "Properties" item
  Jutils.assertIsObject "Properties{}" properties

/-- Name and properties of a serializer or messaging instance, unless it is disabled. -/
def parseInstance (item : Value) :
    Except Failure (Option (String × List (String × Value))) := do
  let members ← Jutils.assertIsObject "Instances[]{}" item
  let instanceName ← Jutils.getMemberAs Jutils.assertIsString "Name" (.object members)
  let enabled ← Jutils.getPossibleMemberAs Jutils.assertIsBool "Enabled" (.object members) true
  if enabled then
    let properties ← getProperties (.object members)
    return some (instanceName, properties)
  else return none

structure ServiceInstance where
  instanceName : String
  messagingName : String
  serializersVector : List String
  properties : List (String × Value)

def parseServiceInstance (item : Value) : Except Failure (Option ServiceInstance) := do
  let members ← Jutils.assertIsObject "Instances[]{}" item
  let instanceName ← Jutils.getMemberAs Jutils.assertIsString "Name" (.object members)
  let enabled ← Jutils.getPossibleMemberAs Jutils.assertIsBool "Enabled" (.object members) true
  if enabled then
    let messagingName ← Jutils.getMemberAs Jutils.assertIsString "Messaging" (.object members)
    let serializersVector ←
      Jutils.getMemberAsVector Jutils.assertIsString "Serializers" (.object members)
    let properties ← getProperties (.object members)
    return some ⟨instanceName, messagingName, serializersVector, properties⟩
  else return none

/-! ## Configuration of an instance -/

/-- `UdpMessaging::update` -/
def updateUdpMessaging (cfg : Value) : Except Failure Unit := do
  let _ ← Jutils.getPossibleMemberAs Jutils.assertIsInt "RemotePort" cfg 55000
  let _ ← Jutils.getPossibleMemberAs Jutils.assertIsInt "LocalPort" cfg 55300

/-- `MqMessaging::update` -/
def updateMqMessaging (cfg : Value) : Except Failure Unit := do
  let _ ← Jutils.getPossibleMemberAs Jutils.assertIsString "LocalMqName" cfg "iqrf-daemon-110"
  let _ ← Jutils.getPossibleMemberAs Jutils.assertIsString "RemoteMqName" cfg "iqrf-daemon-100"

/-- `MqttMessaging::update` -/
def updateMqttMessaging (cfg : Value) : Except Failure Unit := do
  let _ ← Jutils.assertIsObject "" cfg
  let _ ← Jutils.getMemberAs Jutils.assertIsString "BrokerAddr" cfg
  let _ ← Jutils.getMemberAs Jutils.assertIsString "ClientId" cfg
  let _ ← Jutils.getMemberAs Jutils.assertIsInt "Persistence" cfg
  let _ ← Jutils.getMemberAs Jutils.assertIsInt "Qos" cfg
  let _ ← Jutils.getMemberAs Jutils.assertIsString "TopicRequest" cfg
  let _ ← Jutils.getMemberAs Jutils.assertIsString "TopicResponse" cfg
  let _ ← Jutils.getMemberAs Jutils.assertIsString "User" cfg
  let _ ← Jutils.getMemberAs Jutils.assertIsString "Password" cfg
  let _ ← Jutils.getMemberAs Jutils.assertIsBool "EnabledSSL" cfg
  let _ ← Jutils.getPossibleMemberAs Jutils.assertIsString "TrustStore" cfg ""
  let _ ← Jutils.getPossibleMemberAs Jutils.assertIsString "KeyStore" cfg ""
  let _ ← Jutils.getPossibleMemberAs Jutils.assertIsString "PrivateKey" cfg ""
  let _ ← Jutils.getPossibleMemberAs Jutils.assertIsString "PrivateKeyPassword" cfg ""
  let _ ← Jutils.getPossibleMemberAs Jutils.assertIsString "EnabledCipherSuites" cfg ""
  let _ ← Jutils.getPossibleMemberAs Jutils.assertIsBool "EnableServerCertAuth" cfg true
  let _ ← Jutils.getPossibleMemberAs Jutils.assertIsInt "KeepAliveInterval" cfg 20
  let _ ← Jutils.getPossibleMemberAs Jutils.assertIsInt "ConnectTimeout" cfg 5
  let _ ← Jutils.getPossibleMemberAs Jutils.assertIsInt "MinReconnect" cfg 1
  let _ ← Jutils.getPossibleMemberAs Jutils.assertIsInt "MaxReconnect" cfg 64

/-- `update` of the messaging that a create function has made.  The cast of a create
function of another interface has no meaning. -/
def ComponentClass.updateMessaging : ComponentClass → Value → Except Failure Unit
  | udpMessaging, cfg => updateUdpMessaging cfg
  | mqMessaging, cfg => updateMqMessaging cfg
  | mqttMessaging, cfg => updateMqttMessaging cfg
  | _, _ => .error (.logicError "Cannot cast the create function")

/-- `BaseService::update`, which returns `m_asyncDpaMessage`. -/
def updateBaseService (cfg : Value) (asyncDpaMessage : Bool) : Except Failure Bool :=
  Jutils.getPossibleMemberAs Jutils.assertIsBool "AsyncDpaMessage" cfg asyncDpaMessage

/-! ## What is thrown on the way -/

open Jutils

theorem logicOnly_getCreateFunction (componentName : String) :
    LogicOnly (getCreateFunction componentName) := by
  rw [getCreateFunction, getFunction]
  split
  · exact .pure _
  · exact .error rfl

theorem logicOnly_getInstances (members : List (String × Value)) :
    LogicOnly (getInstances (.object members)) :=
  (logicOnly_getMember "Instances").bind fun v ↦ logicOnly_assertIsArray "Instances[]" v

theorem logicOnly_getProperties (members : List (String × Value)) :
    LogicOnly (getProperties (.object members)) :=
  (logicOnly_getMember "Properties").bind fun v ↦ logicOnly_assertIsObject "Properties{}" v

/-- An instance is an object with a name, and may be disabled. -/
theorem logicOnly_instance {T : Type} (item : Value)
    {parse : List (String × Value) → String → Bool → Except Failure T}
    (hparse : ∀ members instanceName enabled, LogicOnly (parse members instanceName enabled)) :
    LogicOnly (do
      let members ← assertIsObject "Instances[]{}" item
      let instanceName ← getMemberAs assertIsString "Name" (.object members)
      let enabled ← getPossibleMemberAs assertIsBool "Enabled" (.object members) true
      parse members instanceName enabled) := by
  apply (logicOnly_assertIsObject "Instances[]{}" item).bind
  intro members
  apply (logicOnly_getMemberAs logicOnly_assertIsString "Name").bind
  intro instanceName
  apply (logicOnly_getPossibleMemberAs logicOnly_assertIsBool "Enabled" true).bind
  exact hparse members instanceName

theorem logicOnly_parseInstance (item : Value) : LogicOnly (parseInstance item) := by
  refine logicOnly_instance item fun members instanceName enabled ↦ ?_
  cases enabled with
  | false => exact .pure none
  | true => exact (logicOnly_getProperties members).bind fun _ ↦ .pure _

theorem logicOnly_parseServiceInstance (item : Value) :
    LogicOnly (parseServiceInstance item) := by
  refine logicOnly_instance item fun members instanceName enabled ↦ ?_
  cases enabled with
  | false => exact .pure none
  | true =>
      apply (logicOnly_getMemberAs logicOnly_assertIsString "Messaging").bind
      intro messagingName
      apply (logicOnly_getMemberAsVector logicOnly_assertIsString "Serializers").bind
      intro serializersVector
      exact (logicOnly_getProperties members).bind fun _ ↦ .pure _

theorem logicOnly_updateUdpMessaging (members : List (String × Value)) :
    LogicOnly (updateUdpMessaging (.object members)) := by
  apply (logicOnly_getPossibleMemberAs logicOnly_assertIsInt "RemotePort" 55000).bind
  intro _
  apply (logicOnly_getPossibleMemberAs logicOnly_assertIsInt "LocalPort" 55300).bind
  intro _
  exact .pure _

theorem logicOnly_updateMqMessaging (members : List (String × Value)) :
    LogicOnly (updateMqMessaging (.object members)) := by
  apply (logicOnly_getPossibleMemberAs logicOnly_assertIsString "LocalMqName" _).bind
  intro _
  apply (logicOnly_getPossibleMemberAs logicOnly_assertIsString "RemoteMqName" _).bind
  intro _
  exact .pure _

theorem logicOnly_updateMqttMessaging (members : List (String × Value)) :
    LogicOnly (updateMqttMessaging (.object members)) := by
  refine (logicOnly_assertIsObject "" (.object members)).bind fun _ ↦ ?_
  iterate 2 refine (logicOnly_getMemberAs logicOnly_assertIsString _).bind fun _ ↦ ?_
  iterate 2 refine (logicOnly_getMemberAs logicOnly_assertIsInt _).bind fun _ ↦ ?_
  iterate 4 refine (logicOnly_getMemberAs logicOnly_assertIsString _).bind fun _ ↦ ?_
  refine (logicOnly_getMemberAs logicOnly_assertIsBool _).bind fun _ ↦ ?_
  iterate 5 refine (logicOnly_getPossibleMemberAs logicOnly_assertIsString _ _).bind fun _ ↦ ?_
  refine (logicOnly_getPossibleMemberAs logicOnly_assertIsBool _ _).bind fun _ ↦ ?_
  iterate 4 refine (logicOnly_getPossibleMemberAs logicOnly_assertIsInt _ _).bind fun _ ↦ ?_
  exact .pure _

theorem logicOnly_updateMessaging (create : ComponentClass) (members : List (String × Value)) :
    LogicOnly (create.updateMessaging (.object members)) := by
  cases create with
  | udpMessaging => exact logicOnly_updateUdpMessaging members
  | mqMessaging => exact logicOnly_updateMqMessaging members
  | mqttMessaging => exact logicOnly_updateMqttMessaging members
  | _ => exact .error rfl

theorem logicOnly_updateBaseService (members : List (String × Value)) (asyncDpaMessage : Bool) :
    LogicOnly (updateBaseService (.object members) asyncDpaMessage) :=
  logicOnly_getPossibleMemberAs logicOnly_assertIsBool "AsyncDpaMessage" asyncDpaMessage

end IqrfDaemon.Component
