import Adl.Proofs.Definition.Upgrades

namespace Adl

/-! What annotations for control request of a membrane: interfaces, and a controller that
implements them. The interfaces are there in the end; the controller is new where none covers the
first of them. -/

/-! ## Requests -/

namespace Membrane

/-- Interfaces that a membrane is to have, and the controller that implements them. -/
structure Request where
  interfaces : List Interface
  /-- The interface that tells whether there is a controller already. -/
  lead : String
  controller : Controller
  /-- Code that all instances share. -/
  shared : Option String
  leads : lead ∈ interfaces.map Interface.name
  implements : ∀ interface ∈ interfaces, controller.implementsExternal interface.name = true

namespace Request

def ofControl (control : Control) : Request where
  interfaces := [Membrane.control .server control.interface control.signature]
  lead := control.interface
  controller := (Controller.ofSource control.source).external control.interface
  shared := control.shared
  leads := List.mem_singleton_self _
  implements := by simp [Membrane.control, Interface.ofRole, Controller.implementsExternal,
    Controller.external]

def cloning : Request where
  interfaces :=
    [ Membrane.control .server "factory" "fractal.api.Factory",
      Membrane.control .client "allocator" "memory.api.Allocator" ]
  lead := "factory"
  controller := ((Controller.ofSource "CloneableController").external "factory").external "allocator"
  shared := none
  leads := by decide
  implements := by decide

/-- To implement an interface is to cover it. -/
theorem covers_lead (request : Request) : request.controller.covers request.lead = true := by
  obtain ⟨interface, member, isLead⟩ := List.mem_map.mp request.leads
  obtain ⟨implemented, among, names⟩ := List.any_eq_true.mp (request.implements interface member)
  exact List.any_eq_true.mpr ⟨implemented, among, isLead ▸ (Bool.and_eq_true_iff.mp names).2⟩

end Request

end Membrane

/-- What an annotation asks for, if it is one for control. -/
def Directive.request? : Directive → Option Membrane.Request
  | .lifeCycle => some (.ofControl Membrane.lifeCycle)
  | .attributeControl _ => some (.ofControl Membrane.attributeControl)
  | .bindingControl _ => some (.ofControl Membrane.bindingControl)
  | .contentControl => some (.ofControl Membrane.contentControl)
  | .cloneable => some .cloning
  | .mark | .singleton | .probe _ _ => none

namespace Definition

/-- The definition with what is requested. -/
def granted (definition : Definition) (request : Membrane.Request) : Definition :=
  { definition with
    span := definition.spanWith [.interfaces, .controllers]
    capabilities :=
      (definition.capabilities.union (.single .interfaces)).union (.single .controllers)
    interfaces := addNew Interface.name definition.interfaces request.interfaces
    controllers :=
      if definition.controllers.any (·.covers request.lead) then definition.controllers
      else definition.controllers ++ [request.controller]
    decorations := { definition.decorations with
      sharedImplementations :=
        appendNew definition.decorations.sharedImplementations request.shared.toList } }

variable {definition : Definition}

theorem ensureControllerInterface_eq (definition : Definition) (role : Role)
    (name signature : String) :
    definition.ensureControllerInterface role name signature = { definition with
      interfaces :=
        addNew Interface.name definition.interfaces [Membrane.control role name signature] } := by
  have isName : (Membrane.control role name signature).name = name := rfl
  have known : (definition.interface? name).isSome = true ↔
      name ∈ definition.interfaces.map Interface.name := by
    simp [interface?]
  unfold ensureControllerInterface
  rw [addNew.singleton, isName]
  by_cases exposed : (definition.interface? name).isSome = true
  · rw [if_pos exposed, if_pos (known.mp exposed)]
  · rw [if_neg exposed, if_neg (exposed ∘ known.mpr)]
    rfl

theorem ensureController_eq (definition : Definition) (name : String) (controller : Controller) :
    definition.ensureController name controller = { definition with
      controllers :=
        if definition.controllers.any (·.covers name) then definition.controllers
        else definition.controllers ++ [controller] } := by
  unfold ensureController
  split <;> rfl

theorem shareImplementation_eq (definition : Definition) (shared : Option String) :
    definition.shareImplementation shared = { definition with
      decorations := { definition.decorations with
        sharedImplementations :=
          appendNew definition.decorations.sharedImplementations shared.toList } } := by
  cases shared <;> rfl

theorem addControl_eq_ok (definition : Definition) (control : Membrane.Control) :
    definition.addControl control = .ok (definition.granted (.ofControl control)) := by
  unfold addControl
  rw [upgrade_eq_ok]
  simp only [bind, Except.bind, pure, Except.pure, shareImplementation_eq,
    ensureControllerInterface_eq, upgrade_eq_ok, ensureController_eq]
  refine congrArg Except.ok ((Definition.mk.injEq ..).mpr ⟨rfl, spanWith_upgraded _ rfl rfl, ?_⟩)
  exact ⟨rfl, rfl, rfl, rfl, rfl, rfl, rfl, rfl, rfl, rfl, rfl, rfl, rfl, rfl, rfl⟩

theorem addCloning_eq_ok (definition : Definition) :
    definition.addCloning = .ok (definition.granted .cloning) := by
  unfold addCloning
  rw [upgrade_eq_ok]
  simp only [bind, Except.bind, pure, Except.pure, ensureControllerInterface_eq, upgrade_eq_ok,
    ensureController_eq]
  refine congrArg Except.ok ((Definition.mk.injEq ..).mpr ⟨rfl, spanWith_upgraded _ rfl rfl, ?_⟩)
  exact ⟨rfl, rfl, rfl, rfl, rfl, rfl, rfl, rfl, rfl, rfl, rfl, rfl, rfl, rfl, rfl⟩

/-! ## What is granted -/

variable {request : Membrane.Request}

theorem has_granted (definition : Definition) (request : Membrane.Request) :
    ∀ capability ∈ [Capability.interfaces, .controllers],
      (definition.granted request).has capability = true := by
  intro capability member
  simp only [has, granted, MemberSet.contains_union, Bool.or_eq_true]
  rcases List.mem_pair.mp member with rfl | rfl
  · exact .inl (.inr (by decide))
  · exact .inr (by decide)

theorem isSome_interface?_granted {interface : Interface} (member : interface ∈ request.interfaces) :
    ((definition.granted request).interface? interface.name).isSome = true := by
  obtain ⟨other, among, same⟩ :=
    addNew.exists_of_mem Interface.name (.inr member : interface ∈ definition.interfaces ∨ _)
  exact List.find?_isSome.mpr ⟨other, among, beq_iff_eq.mpr same⟩

theorem interfaces_granted : definition.interfaces <+: (definition.granted request).interfaces :=
  addNew.isPrefix Interface.name definition.interfaces request.interfaces

theorem span_granted : (definition.granted request).span = definition.span ∨
    definition.span.isGenerated = true ∧ (definition.granted request).span = .generated := by
  unfold granted spanWith
  dsimp only
  split
  · exact .inl rfl
  · by_cases inMemory : definition.span.isGenerated = true
    · exact .inr ⟨inMemory, if_pos inMemory⟩
    · exact .inl (if_neg inMemory)

theorem controllers_granted :
    definition.controllers <+: (definition.granted request).controllers := by
  unfold granted
  dsimp only
  split
  · exact List.prefix_rfl
  · exact List.prefix_append _ _

theorem any_covers_granted (definition : Definition) (request : Membrane.Request) :
    (definition.granted request).controllers.any (·.covers request.lead) = true := by
  unfold granted
  dsimp only
  split
  · assumption
  · rw [List.any_append, List.any_cons, request.covers_lead, Bool.true_or, Bool.or_true]

theorem kind_granted : (definition.granted request).kind = definition.kind := by
  unfold kind granted
  rw [DefinitionKind.ofCapabilities_union_single _ (by decide) (by decide),
    DefinitionKind.ofCapabilities_union_single _ (by decide) (by decide)]

end Definition

end Adl
