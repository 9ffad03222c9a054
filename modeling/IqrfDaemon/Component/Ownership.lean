import IqrfDaemon.Component.LeftBehind
import IqrfDaemon.Component.Untouched

/-!
# Callbacks over the life of the daemon

The handlers and pointers are owned in every intermediate state of `startServices`
and `stop` exactly for the configurations that set none of them.
-/

namespace IqrfDaemon.Component

open Json Jutils Container Transition Traced

/-- Over the whole life of the daemon every handler belongs to an existing service and every
pointer to a messaging of the controller if and only if no service gets a messaging and
no `UdpMessaging` gets past `update`. -/
theorem callbacks_owned_iff (componentMap : List ComponentDescriptor) :
    (∀ s ∈ (lifecycle componentMap State.create).visited, Owned s) ↔
      ¬ BindsService componentMap ∧ ¬ UpdatesUdpMessaging componentMap := by
  constructor
  · intro howned
    have hnot : ¬ Hits (fun s ↦ ¬ Owned s) (· = State.create) (lifecycle componentMap) := by
      intro hhits
      obtain ⟨s, hs, hunowned⟩ := hhits State.create rfl
      exact hunowned (howned s hs)
    exact ⟨fun h ↦ hnot (hits_lifecycle_of_service h), fun h ↦
      hnot (hits_lifecycle_of_udpMessaging h)⟩
  · rintro ⟨hservice, hudp⟩ s hs
    have hstart : Triple Untouched (fun s ↦ Untouched s ∧ Named [] s)
        (catching Failure.isException (startServices componentMap)) (fun _ ↦ Untouched)
        fun _ _ ↦ False :=
      Triple.catching (untouched_startServices hservice hudp) (fun _ _ _ hs ↦ hs.elim)
        fun _ _ _ hs ↦ hs
    have hlife := Triple.bind hstart fun _ ↦ untouched_stop
    exact ((hlife State.create ⟨untouched_create, ready_create.1⟩).1 s hs).owned

/-! ## One service on one messaging -/

def oneMessaging : ComponentDescriptor where
  componentName := "MqMessaging"
  interfaceName := "IMessaging"
  enabled := true
  doc := .object [("Implements", .string "IMessaging"), ("Instances", .array
    [.object [("Name", .string "MqMessaging"), ("Properties", .object [])]])]
  isObject_doc _ := ⟨_, rfl⟩

def oneService : ComponentDescriptor where
  componentName := "BaseService"
  interfaceName := "IService"
  enabled := true
  doc := .object [("Implements", .string "IService"), ("Instances", .array
    [.object [("Name", .string "BaseServiceForMQ"), ("Messaging", .string "MqMessaging"),
      ("Serializers", .array []), ("Properties", .object [])]])]
  isObject_doc _ := ⟨_, rfl⟩

theorem handler_outlives_service :
    ∃ s ∈ (lifecycle [oneService, oneMessaging] State.create).visited, ¬ Owned s := by
  have hbinds : BindsService [oneService, oneMessaging] :=
    ⟨oneService, List.mem_cons_self, rfl, rfl, _, rfl, _, List.mem_cons_self, _, rfl, ⟨_, rfl⟩,
      by decide⟩
  exact hits_lifecycle_of_service hbinds State.create rfl

end IqrfDaemon.Component
