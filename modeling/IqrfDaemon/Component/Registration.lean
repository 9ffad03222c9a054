import IqrfDaemon.Component.Keeps

/-!
# The messagings that get loaded

The configuration alone tells which messagings end up in `m_messagings`: those of
each component up to the first instance that throws, be it malformed, refused by
`update` or of a name that is taken.
-/

namespace IqrfDaemon.Component

open Json Jutils Container Transition Traced

/-- The names of messagings after one more instance, unless the component stops there. -/
def registers (componentName : String) (names : List String) (item : Value) :
    Option (List String) :=
  match parseInstance item with
  | .ok none => some names
  | .ok (some (instanceName, properties)) =>
      match getCreateFunction componentName with
      | .ok create =>
          match create.updateMessaging (.object properties) with
          | .ok _ => if instanceName ∈ names then none else some (instanceName :: names)
          | .error _ => none
      | .error _ => none
  | .error _ => none

def registeredBy (componentName : String) : List String → List Value → List String
  | names, [] => names
  | names, item :: rest =>
      match registers componentName names item with
      | some names' => registeredBy componentName names' rest
      | none => names

def registeredByComponent (names : List String) (c : ComponentDescriptor) : List String :=
  if c.enabled && c.interfaceName = "IMessaging" then
    match getInstances c.doc with
    | .ok instances => registeredBy c.componentName names instances
    | .error _ => names
  else names

/-- The names of the messagings that get loaded. -/
def loadedMessagings (componentMap : List ComponentDescriptor) : List String :=
  componentMap.foldl registeredByComponent []

def Named (names : List String) (s : State) : Prop :=
  ∀ name, name ∈ s.messagings.keys ↔ name ∈ names

theorem isSome_find_of_named {names : List String} {s : State} (h : Named names s)
    (name : String) : (s.messagings.find name).isSome = true ↔ name ∈ names := by
  rw [Map.isSome_find]
  exact h name

/-- The messaging being loaded is inserted under its own name. -/
theorem named_insertMessaging (names : List String) (instanceName : String) :
    Triple Anything
      (fun s ↦ Named names s ∧ ∃ m, s.newMessaging = some m ∧ m.name = instanceName)
      (insertMessaging instanceName)
      (fun _ s ↦ instanceName ∉ names ∧ Named (instanceName :: names) s)
      (fun _ s ↦ instanceName ∈ names ∧ Named names s) := by
  apply Triple.get_bind
  intro r
  have hinsert : ∀ s, (s = r ∧ Named names s ∧ ∃ m, s.newMessaging = some m ∧
      m.name = instanceName) → Named (instanceName :: names) s.insertMessaging ∧
        Named names r := by
    rintro s ⟨rfl, hnamed, m, hnew, hname⟩
    refine ⟨fun name ↦ ?_, hnamed⟩
    simp only [State.insertMessaging, hnew, Map.mem_keys_insert, hname, List.mem_cons]
    exact or_congr_right (hnamed name)
  refine Triple.bind (Q := fun _ s ↦ Named (instanceName :: names) s ∧ Named names r)
    (Triple.modify (fun _ _ ↦ trivial) hinsert) ?_
  intro _
  rw [throwDuplicit]
  split
  case isTrue hfound =>
    refine Triple.throw fun s ⟨hs, hr⟩ ↦ ?_
    have hmem := (isSome_find_of_named hr instanceName).mp hfound
    refine ⟨hmem, fun name ↦ (hs name).trans ?_⟩
    rw [List.mem_cons]
    exact ⟨fun h ↦ h.elim (fun h ↦ h ▸ hmem) id, Or.inr⟩
  case isFalse hfound =>
    refine Triple.pure fun s ⟨hs, hr⟩ ↦ ⟨?_, hs⟩
    rw [← isSome_find_of_named hr instanceName]
    exact hfound

theorem named_setDpaInterfaces (names : List String) (instanceName componentName : String)
    (object : ℕ) :
    KeepsQuietly Anything
      (fun s ↦ Named names s ∧ ∃ m, s.newMessaging = some m ∧ m.name = instanceName)
      (setDpaInterfaces componentName object) :=
  (keepsQuietly_setDpaInterfaces (fun _ _ hs ↦ hs) (fun _ _ hs ↦ hs) componentName object).visits
    fun _ _ ↦ trivial

theorem named_loadMessagingInstance (names : List String) (componentName : String) (item : Value) :
    Triple Anything (Named names) (loadMessagingInstance componentName item)
      (fun _ s ↦ ∃ names', registers componentName names item = some names' ∧ Named names' s)
      (fun _ s ↦ registers componentName names item = none ∧ Named names s) := by
  apply Triple.ofExcept_bind
  · rintro (_ | ⟨instanceName, properties⟩) hparse
    · exact Triple.pure fun s hs ↦ ⟨names, by simp [registers, hparse], hs⟩
    apply Triple.ofExcept_bind
    · intro create hcreate
      refine Triple.onExit (Q := fun _ s ↦ ∃ names',
          registers componentName names item = some names' ∧ Named names' s)
        (E := fun _ s ↦ registers componentName names item = none ∧ Named names s)
        ?_ (fun _ s hs ↦ ⟨trivial, hs⟩) (fun _ s hs ↦ ⟨trivial, hs⟩)
      refine Triple.bind (Q := fun _ s ↦ Named names s ∧
        ∃ m, s.newMessaging = some m ∧ m.name = instanceName) ?_ fun messaging ↦ ?_
      · apply Triple.get_bind
        intro r
        refine Triple.bind (Triple.modify (fun _ _ ↦ trivial) ?_) fun _ ↦ Triple.pure fun _ hs ↦ hs
        rintro s ⟨rfl, hs⟩
        exact ⟨hs, _, rfl, rfl⟩
      apply Triple.ofExcept_bind
      · intro _ hupdate
        apply Triple.bind_quiet
          (named_setDpaInterfaces names instanceName componentName messaging)
        intro _
        refine (named_insertMessaging names instanceName).conseq (fun _ hs ↦ hs) ?_ ?_
        · rintro _ s ⟨hnew, hs⟩
          exact ⟨_, by simp [registers, hparse, hcreate, hupdate, hnew], hs⟩
        · rintro _ s ⟨hold, hs⟩
          exact ⟨by simp [registers, hparse, hcreate, hupdate, hold], hs⟩
      · rintro e s hupdate ⟨hs, -⟩
        exact ⟨by simp [registers, hparse, hcreate, hupdate], hs⟩
    · intro e s hcreate hs
      exact ⟨by simp [registers, hparse, hcreate], hs⟩
  · intro e s hparse hs
    exact ⟨by simp [registers, hparse], hs⟩

theorem keeps_loadMessagingInstance_anything (componentName : String) (item : Value) :
    Keeps Anything Anything (loadMessagingInstance componentName item) := by
  refine keeps_loadMessagingInstance ⟨?_, ?_, ?_⟩ (fun object ↦ ?_) item
  · exact fun _ _ _ ↦ trivial
  · exact fun _ _ ↦ trivial
  · exact fun _ _ ↦ trivial
  · exact keepsQuietly_setDpaInterfaces (fun _ _ _ ↦ trivial) (fun _ _ _ ↦ trivial) _ object

theorem named_loadMessagingInstances (componentName : String) (instances : List Value)
    (names : List String) :
    Triple Anything (Named names) (forEach (loadMessagingInstance componentName) instances)
      (fun _ ↦ Named (registeredBy componentName names instances))
      (fun e s ↦ e.isLogicError = true ∧ Named (registeredBy componentName names instances) s) := by
  induction instances generalizing names with
  | nil => exact Triple.pure fun _ hs ↦ hs
  | cons item rest ih =>
      have hitem := (named_loadMessagingInstance names componentName item).and
        (keeps_loadMessagingInstance_anything componentName item)
      refine Triple.bind (Q := fun _ s ↦ ∃ names',
          registers componentName names item = some names' ∧ Named names' s)
        ((hitem.visits fun _ _ ↦ trivial).conseq (fun _ hs ↦ ⟨hs, trivial⟩)
          (fun _ _ hs ↦ hs.1) ?_) ?_
      · rintro e s ⟨⟨hnone, hs⟩, hlogic, -⟩
        rw [registeredBy, hnone]
        exact ⟨hlogic, hs⟩
      · rintro _ s ⟨names', hsome, hs⟩
        rw [registeredBy, hsome]
        exact ih names' s hs

/-- One component adds what the configuration says. -/
theorem named_loadMessagingComponent (names : List String) (c : ComponentDescriptor) :
    Triple Anything (Named names)
      (if c.enabled then catching Failure.isException (loadMessagingComponent c) else pure ())
      (fun _ ↦ Named (registeredByComponent names c)) (fun _ _ ↦ False) := by
  by_cases henabled : c.enabled = true
  · rw [if_pos henabled]
    refine Triple.catching (E := fun e s ↦ e.isLogicError = true ∧
      Named (registeredByComponent names c) s) ?_ (fun e s _ hs ↦ hs.2) ?_
    · rw [loadMessagingComponent, loadInstances]
      split
      case isTrue hinterface =>
        obtain ⟨members, hdoc⟩ := c.isObject_doc (by rw [hinterface]; decide)
        apply Triple.ofExcept_bind
        · intro instances hinstances
          simp only [registeredByComponent, henabled, hinterface, hinstances]
          exact named_loadMessagingInstances c.componentName instances names
        · intro e s herror hs
          simp only [registeredByComponent, henabled, hinterface, herror]
          rw [hdoc] at herror
          exact ⟨logicOnly_getInstances members e herror, hs⟩
      case isFalse hinterface =>
        refine Triple.pure fun s hs ↦ ?_
        simpa [registeredByComponent, hinterface] using hs
    · intro e s hpass hs
      rw [Failure.isException_of_isLogicError hs.1] at hpass
      cases hpass
  · rw [if_neg henabled]
    refine Triple.pure fun s hs ↦ ?_
    simpa [registeredByComponent, henabled] using hs

theorem named_loadMessagings (names : List String) (componentMap : List ComponentDescriptor) :
    Triple Anything (Named names) (loadComponents loadMessagingComponent componentMap)
      (fun _ ↦ Named (componentMap.foldl registeredByComponent names)) (fun _ _ ↦ False) := by
  induction componentMap generalizing names with
  | nil => exact Triple.pure fun _ hs ↦ hs
  | cons c rest ih =>
      apply Triple.bind (named_loadMessagingComponent names c)
      intro _
      exact ih (registeredByComponent names c)

end IqrfDaemon.Component
