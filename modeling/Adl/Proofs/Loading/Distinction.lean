import Adl.Proofs.Loading.Evolution
import Adl.Reference.Substitution
import Adl.Template.Instance

namespace Adl

/-! Names that tell definitions apart. What references were resolved to is remembered under
the names of the definitions that hold them, and instances and copies are found by names
that are put together from other names. -/

namespace Context

def Loaded (context : Context) (id : DefinitionId) : Prop :=
  ∃ name, context.cache.find? name = some id

end Context

section Lasting

open Context

variable {own : Option DefinitionId} {before after : Context} {id : DefinitionId}

theorem Context.Loaded.lasts (evolves : Evolves own before after) (loaded : before.Loaded id) :
    after.Loaded id :=
  loaded.imp fun _ found => evolves.find?_cache found

namespace InstanceRequest

/-- The generic definition is loaded, and so is what is bound to its type parameters. -/
structure IsClosed (request : InstanceRequest) (context : Context) : Prop where
  generic : context.Loaded request.generic
  bound : ∀ binding ∈ request.bindings.values,
    ∃ id, binding = .definition id ∧ context.Loaded id

variable {request : InstanceRequest}

/-- A request has the same name for the instance later. -/
theorem IsClosed.instanceName_eq (closed : request.IsClosed before)
    (same : ∀ id, before.Loaded id → (after.definition id).name = (before.definition id).name) :
    request.instanceName after = request.instanceName before := by
  have bound : request.bindings.values.map (·.name after) =
      request.bindings.values.map (·.name before) := by
    refine List.map_congr_left fun binding member => ?_
    obtain ⟨id, rfl, loaded⟩ := closed.bound binding member
    exact same id loaded
  rw [InstanceRequest.instanceName, InstanceRequest.instanceName, bound, same _ closed.generic]

theorem IsClosed.lasts (closed : request.IsClosed before)
    (loaded : ∀ id, before.Loaded id → after.Loaded id) : request.IsClosed after where
  generic := loaded _ closed.generic
  bound binding member := by
    obtain ⟨id, equal, isLoaded⟩ := closed.bound binding member
    exact ⟨id, equal, loaded id isLoaded⟩

end InstanceRequest

namespace Context

/-- Names tell generic definitions from the others: no name reaches into what follows it in
a key, definitions of one name are alike, and no loaded generic definition has the name of an
instance that leaves nothing open, or of a copy of a definition that is not generic. -/
structure TellsGenerics (context : Context) : Prop where
  separated : ∀ id < context.arena.size, '|' ∉ (context.definition id).name.toList
  alike : ∀ id < context.arena.size, ∀ other < context.arena.size,
    (context.definition id).name = (context.definition other).name →
    (context.definition id).isGeneric = (context.definition other).isGeneric
  instances : ∀ id, context.Loaded id → (context.definition id).isGeneric = true →
    ∀ request : InstanceRequest, request.IsClosed context →
    request.instanceName context ≠ (context.definition id).name
  copies : ∀ id, context.Loaded id → (context.definition id).isGeneric = true →
    ∀ target, context.Loaded target → (context.definition target).isGeneric = false →
    ∀ bindings, Definition.substitutedName (context.definition target).name bindings ≠
      (context.definition id).name

/-- Nothing was reported, and names tell generic definitions from the others. -/
def IsClear (context : Context) : Prop :=
  context.log.errors = [] ∧ context.TellsGenerics

/-- Nothing was reported, and no name reaches into what follows it in a key. -/
structure SeparatesKeys (context : Context) : Prop where
  silent : context.log.errors = []
  separated : ∀ id < context.arena.size, '|' ∉ (context.definition id).name.toList

theorem SeparatesKeys.earlier (evolves : Evolves own before after)
    (separates : after.SeparatesKeys) : before.SeparatesKeys where
  silent := evolves.errors_eq_nil separates.silent
  separated id less := by
    rw [← (evolves.shapes separates.silent id less).1]
    exact separates.separated id (Nat.lt_of_lt_of_le less evolves.size)

/-- What names tell apart they told apart when there were fewer of them. -/
theorem IsClear.earlier (clear : after.IsClear) (silent : before.log.errors = [])
    (size : before.arena.size ≤ after.arena.size)
    (loaded : ∀ id, before.Loaded id → id < before.arena.size ∧ after.Loaded id)
    (shapes : ∀ id < before.arena.size,
      (after.definition id).name = (before.definition id).name ∧
        (after.definition id).isGeneric = (before.definition id).isGeneric) :
    before.IsClear := by
  have within : ∀ {id}, id < before.arena.size → id < after.arena.size :=
    fun less => Nat.lt_of_lt_of_le less size
  have shape : ∀ id, before.Loaded id →
      (after.definition id).name = (before.definition id).name ∧
        (after.definition id).isGeneric = (before.definition id).isGeneric :=
    fun id isLoaded => shapes id (loaded id isLoaded).1
  refine ⟨silent, ?_, ?_, ?_, ?_⟩
  · intro id less
    rw [← (shapes id less).1]
    exact clear.2.separated id (within less)
  · intro id less other otherLess equal
    rw [← (shapes id less).1, ← (shapes other otherLess).1] at equal
    rw [← (shapes id less).2, ← (shapes other otherLess).2]
    exact clear.2.alike id (within less) other (within otherLess) equal
  · intro id isLoaded generic request closed
    rw [← closed.instanceName_eq fun id isLoaded => (shape id isLoaded).1, ← (shape id isLoaded).1]
    refine clear.2.instances id (loaded id isLoaded).2 ?_ request
      (closed.lasts fun id isLoaded => (loaded id isLoaded).2)
    rw [(shape id isLoaded).2]
    exact generic
  · intro id isLoaded generic target targetLoaded plain bindings
    rw [← (shape id isLoaded).1, ← (shape target targetLoaded).1]
    refine clear.2.copies id (loaded id isLoaded).2 ?_ target (loaded target targetLoaded).2 ?_
      bindings
    · rw [(shape id isLoaded).2]
      exact generic
    · rw [(shape target targetLoaded).2]
      exact plain

end Context

end Lasting

end Adl
