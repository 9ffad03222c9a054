import IqrfDaemon.Component.Registration

/-!
# Who owns the callbacks

Every handler held by a messaging, by the scheduler or by the controller captures
a service, and two pointers of the controller refer to a messaging.  The
configuration alone tells whether any of them is ever set.
-/

namespace IqrfDaemon.Component

open Json Jutils Container Transition Traced

namespace State

def liveMessagings (s : State) : List Messaging := s.messagings.values ++ s.newMessaging.toList

def liveServices (s : State) : List ℕ :=
  (s.services.values ++ s.newService.toList).map Service.object

end State

/-- Every handler belongs to a service that exists, and the pointers of the controller are
null or refer to a messaging of `m_messagings`. -/
structure Owned (s : State) : Prop where
  messaging : ∀ m ∈ s.liveMessagings, ∀ service, m.messageHandler = some service →
    service ∈ s.liveServices
  scheduler : ∀ service, .service service ∈ s.messageHandlers.values → service ∈ s.liveServices
  asyncMessage : ∀ service ∈ s.asyncMessageHandlers.values, service ∈ s.liveServices
  exclusiveAccess : ∀ m, s.dpaExclusiveAccess = some m →
    m ∈ s.messagings.values.map Messaging.object
  messageForwarding : ∀ m, s.dpaMessageForwarding = some m →
    m ∈ s.messagings.values.map Messaging.object

/-! ## What the configuration says -/

/-- An instance of an enabled service component names a messaging that gets loaded. -/
def BindsService (componentMap : List ComponentDescriptor) : Prop :=
  ∃ c ∈ componentMap, c.enabled = true ∧ c.interfaceName = "IService" ∧
    ∃ instances, getInstances c.doc = .ok instances ∧
      ∃ item ∈ instances, ∃ i, parseServiceInstance item = .ok (some i) ∧
        (∃ create, getCreateFunction c.componentName = .ok create) ∧
          i.messagingName ∈ loadedMessagings componentMap

/-- The first instance that is not disabled, unless a malformed one stops the component. -/
def firstInstance : List Value → Option (String × List (String × Value))
  | [] => none
  | item :: rest =>
      match parseInstance item with
      | .ok none => firstInstance rest
      | .ok (some i) => some i
      | .error _ => none

/-- An instance of an enabled `UdpMessaging` gets past `update`. -/
def UpdatesUdpMessaging (componentMap : List ComponentDescriptor) : Prop :=
  ∃ c ∈ componentMap, c.enabled = true ∧ c.interfaceName = "IMessaging" ∧
    c.componentName = "UdpMessaging" ∧
      ∃ instances, getInstances c.doc = .ok instances ∧
        ∃ instanceName properties, firstInstance instances = some (instanceName, properties) ∧
          updateUdpMessaging (.object properties) = .ok ()

end IqrfDaemon.Component
