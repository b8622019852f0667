import Adl.Bundle.Definition
import Adl.Proofs.Bundle.Bytes
import Adl.Proofs.Bundle.Stored

namespace Adl

/-! Bundles are read back as what was stored. Every type of part has one lemma: its
packed form is read as the stored part, exactly where there is room for its levels. -/

open Packed (levelsAround bind_present bind_ite option?_ofOption option?_plain ofString_ne_null)

/-! ## Plain parts -/

theorem Packed.option?_text (text : Option String) :
    (ofOption ofString text).option? string? = some text :=
  option?_plain ofString_ne_null string?_ofString

theorem Packed.option?_count (count : Option UInt32) :
    (packedCount count).option? uint32? = some count :=
  option?_plain (fun _ => Packed.noConfusion) uint32?_unsigned

theorem MemberSet.reads {α : Type} (set : MemberSet α) : ofPacked? set.packed = some set :=
  congrArg (Option.map fun bits => (⟨bits⟩ : MemberSet α)) (Packed.uint16?_unsigned set.bits)

theorem Role.reads (role : Role) : ofPacked? role.packed = some role := by
  cases role <;> simp [packed, ofPacked?]

theorem Contingency.reads (contingency : Contingency) :
    ofPacked? contingency.packed = some contingency := by
  cases contingency <;> simp [packed, ofPacked?]

theorem Cardinality.reads (cardinality : Cardinality) :
    ofPacked? cardinality.packed = some cardinality := by
  cases cardinality <;> simp [packed, ofPacked?, Packed.option?_count]

theorem Value.reads (value : Value) : ofPacked? value.packed = some value := by
  cases value <;> simp [packed, ofPacked?, variantNames]

theorem Value.packed_ne_null (value : Value) : value.packed ≠ .null := by
  cases value <;> exact Packed.noConfusion

theorem Packed.option?_value (value : Option Value) :
    (ofOption Value.packed value).option? Value.ofPacked? = some value :=
  option?_plain Value.packed_ne_null Value.reads

namespace Span

theorem ofPacked?_ofFields (room : Nat) (fields : List (String × Packed)) :
    ofPacked? (room + 1) (.ofFields fields) = do
      let record ← Record.ofPacked? fieldNames room (.ofFields fields)
      let file ← record.field? "file_id" Packed.uint16?
      let start ← record.field? "start" Packed.uint32?
      let stop ← record.field? "end" Packed.uint32?
      let line ← record.field? "start_line" Packed.uint16?
      return { file, start, stop, line } :=
  rfl

theorem reads (span : Span) : Reads ofPacked? span.packed span.levels span := by
  refine .around rfl fun room => ?_
  rw [packed, ofPacked?_ofFields, Record.bind_ofFields (by rfl) (by decide)]
  simp [-Option.bind_some, bind_present]

end Span

/-! ## Annotations -/

theorem Packed.list?_array {α : Type} {read : Packed → Option α} {room : Nat}
    {items : List Packed} {levels : List Nat} {values : List α}
    (reads : items.mapM read =
      if ∀ inside ∈ levels, inside ≤ room then some values else none) :
    list? (fun _ => read) (room + 1) (.array items) =
      if levelsAround levels ≤ room + 1 then some values else none := by
  simp only [list?, reads, levelsAround_le_succ]

theorem AnnotationNode.ofParts?_packed {room : Nat}
    {readArguments : Packed → Option (List AnnotationArgument)} {typeName : String}
    {arguments : List AnnotationArgument} {span : Span}
    (reads : readArguments (.array (AnnotationArgument.packedItems arguments)) =
      if levelsAround (AnnotationArgument.levelsOfItems arguments) ≤ room then some arguments
      else none) :
    ofParts? readArguments room (packed ⟨typeName, arguments, span⟩) =
      if levels ⟨typeName, arguments, span⟩ ≤ room + 1 then some ⟨typeName, arguments, span⟩
      else none := by
  rw [packed, ofParts?, Record.bind_ofFields (by rfl) (by decide)]
  simp [levels, Packed.levelsAround_le_succ, reads, Span.reads span room, bind_ite, ite_and,
    -Option.bind_some, bind_present]

mutual
theorem AnnotationValue.reads : (value : AnnotationValue) →
    Reads AnnotationValue.ofPacked? value.packed value.levels value
  | .string _ | .number _ | .bool _ | .null => fun room => by
      cases room <;>
        simp [AnnotationValue.packed, AnnotationValue.ofPacked?, AnnotationValue.variantNames,
          AnnotationValue.ofPlain?, AnnotationValue.levels]
  | .nested ⟨typeName, arguments, span⟩ => fun room => by
      cases room with
      | zero =>
          simp [AnnotationValue.packed, AnnotationValue.ofPacked?,
            AnnotationValue.variantNames, AnnotationValue.ofPlain?, AnnotationValue.levels,
            AnnotationNode.levels]
      | succ room =>
          rw [AnnotationValue.levels]
          simp [AnnotationValue.packed, AnnotationValue.ofPacked?,
            AnnotationValue.variantNames, bind_ite,
            AnnotationNode.reads_inside ⟨typeName, arguments, span⟩ room]
  | .array items => fun room => by
      cases room with
      | zero =>
          simp [AnnotationValue.packed, AnnotationValue.ofPacked?,
            AnnotationValue.variantNames, AnnotationValue.levels, Packed.list?]
      | succ room =>
          rw [AnnotationValue.levels]
          simp [AnnotationValue.packed, AnnotationValue.ofPacked?,
            AnnotationValue.variantNames, bind_ite,
            Packed.list?_array (AnnotationValue.reads_items items room)]

theorem AnnotationValue.reads_items : (items : List AnnotationValue) → (room : Nat) →
    (AnnotationValue.packedItems items).mapM (AnnotationValue.ofPacked? room) =
      if ∀ inside ∈ AnnotationValue.levelsOfItems items, inside ≤ room then some items
      else none
  | [], room => by simp [AnnotationValue.packedItems, AnnotationValue.levelsOfItems]
  | item :: rest, room => by
      simp [AnnotationValue.packedItems, AnnotationValue.levelsOfItems,
        AnnotationValue.reads item room, AnnotationValue.reads_items rest room, bind_ite,
        ite_and]

theorem AnnotationArgument.reads_items : (items : List AnnotationArgument) → (room : Nat) →
    (AnnotationArgument.packedItems items).mapM (AnnotationArgument.ofPacked? room) =
      if ∀ inside ∈ AnnotationArgument.levelsOfItems items, inside ≤ room then some items
      else none
  | [], room => by simp [AnnotationArgument.packedItems, AnnotationArgument.levelsOfItems]
  | ⟨name, value⟩ :: rest, 0 => by
      simp [AnnotationArgument.packedItems, AnnotationArgument.levelsOfItems,
        AnnotationArgument.ofPacked?]
  | ⟨name, value⟩ :: rest, room + 1 => by
      have first : AnnotationArgument.ofPacked? (room + 1)
          (.ofFields [("name", .ofString name), ("value", value.packed)]) =
          if value.levels ≤ room then some ⟨name, value⟩ else none := by
        rw [AnnotationArgument.ofPacked?, Record.bind_ofFields (by rfl) (by decide)]
        simp [AnnotationValue.reads value room, bind_ite, -Option.bind_some, bind_present]
      simp [AnnotationArgument.packedItems, AnnotationArgument.levelsOfItems, first,
        AnnotationArgument.reads_items rest (room + 1), Packed.levelsAround_le_succ,
        bind_ite, ite_and]

theorem AnnotationNode.reads_inside : (node : AnnotationNode) → (room : Nat) →
    AnnotationNode.inside? room node.packed =
      if node.levels ≤ room + 1 then some node else none
  | ⟨_, _, _⟩, 0 =>
      AnnotationNode.ofParts?_packed (if_neg (Packed.not_levelsAround_le_zero _)).symm
  | ⟨_, arguments, _⟩, room + 1 =>
      AnnotationNode.ofParts?_packed
        (Packed.list?_array (AnnotationArgument.reads_items arguments room))
end

theorem AnnotationNode.reads (node : AnnotationNode) :
    Reads ofPacked? node.packed node.levels node := by
  intro room
  cases room with
  | zero =>
      obtain ⟨typeName, arguments, span⟩ := node
      exact (if_neg (Packed.not_levelsAround_le_zero _)).symm
  | succ room => exact node.reads_inside room

theorem Annotations.reads (annotations : Annotations) :
    Reads ofPacked? annotations.packed annotations.levels annotations.withoutTyped := by
  refine .around rfl fun room => ?_
  have nodes : Packed.list? AnnotationNode.ofPacked? room
      (.ofList AnnotationNode.packed annotations.nodes) =
      if levelsAround (annotations.nodes.map AnnotationNode.levels) ≤ room then
        some (annotations.nodes.map id)
      else Option.none :=
    Packed.reads_list (fun node _ => node.reads) room
  rw [packed, ofPacked?, Record.bind_ofFields (by rfl) (by decide)]
  simp [withoutTyped, nodes, bind_ite]

/-! ## References -/

theorem Resolved.reads (resolved : Resolved) :
    Reads ofPacked? resolved.packed resolved.levels resolved.stored := by
  refine .around rfl fun room => ?_
  rw [packed, ofPacked?, Record.bind_ofFields (by rfl) (by decide)]
  simp [stored, -Option.bind_some, bind_present]

theorem Packed.option?_resolved (resolved : Option Resolved) (room : Nat) :
    (ofOption Resolved.packed resolved).option? (Resolved.ofPacked? room) =
      if levelsOfOption Resolved.levels resolved ≤ room then
        some (resolved.map Resolved.stored)
      else none :=
  option?_ofOption (fun _ => Packed.noConfusion) fun resolved => resolved.reads room

theorem Argument.reads (argument : Argument) :
    Reads ofPacked? argument.packed argument.levels argument := by
  refine .around rfl fun room => ?_
  rw [packed, ofPacked?, Record.bind_ofFields (by rfl) (by decide)]
  simp [Packed.option?_text, Value.reads, Span.reads argument.span room,
    bind_ite, -Option.bind_some, bind_present]

namespace Reference

theorem ofParts?_packed {room : Nat} {readTypeArguments : Packed → Option (List TypeArgument)}
    {name : String} {arguments : List Argument} {typeArguments : List TypeArgument}
    {span : Span} {resolved : Option Resolved}
    (reads : readTypeArguments (.array (packedTypeArguments typeArguments)) =
      if levelsAround (levelsOfTypeArguments typeArguments) ≤ room then
        some (storedTypeArguments typeArguments)
      else none) :
    ofParts? readTypeArguments room (packed ⟨name, arguments, typeArguments, span, resolved⟩) =
      if levels ⟨name, arguments, typeArguments, span, resolved⟩ ≤ room + 1 then
        some (stored ⟨name, arguments, typeArguments, span, resolved⟩)
      else none := by
  have values : Packed.list? Argument.ofPacked? room (.ofList Argument.packed arguments) =
      if levelsAround (arguments.map Argument.levels) ≤ room then some (arguments.map id)
      else none :=
    Packed.reads_list (fun argument _ => argument.reads) room
  rw [packed, ofParts?, Record.bind_ofFields (by rfl) (by decide)]
  simp [levels, stored, Packed.levelsAround_le_succ, values, reads,
    Span.reads span room, Packed.option?_resolved resolved room, bind_ite, ite_and,
    -Option.bind_some, bind_present]

theorem typeArgumentOfParts?_packed {room : Nat} {readDefinition : Packed → Option Reference}
    {name : Option String} {value : TypeArgumentValue} {span : Span}
    (reads : ∀ reference, value = .definition reference →
      readDefinition reference.packed =
        if reference.levels ≤ room then some reference.stored else none) :
    typeArgumentOfParts? readDefinition room
      (.ofFields
        [ ("name", .ofOption .ofString name), ("value", packedValue value),
          ("span", span.packed) ]) =
      if levelsAround [levelsOfValue value, span.levels] ≤ room + 1 then
        some ⟨name, storedValue value, span⟩
      else none := by
  rw [typeArgumentOfParts?, Record.bind_ofFields (by rfl) (by decide)]
  cases value with
  | definition reference =>
      simp [packedValue, levelsOfValue, storedValue, Packed.levelsAround_le_succ,
        Packed.option?_text, reads reference rfl, Span.reads span room, bind_ite, ite_and,
        -Option.bind_some, bind_present]
  | parameter parameter =>
      simp [packedValue, levelsOfValue, storedValue, Packed.levelsAround_le_succ,
        Packed.option?_text, Span.reads span room, bind_ite, -Option.bind_some, bind_present]

mutual
theorem reads : (reference : Reference) → Reads ofPacked? reference.packed reference.levels
    reference.stored
  | ⟨_, _, typeArguments, _, _⟩ => fun room => by
      cases room with
      | zero => exact (if_neg (Packed.not_levelsAround_le_zero _)).symm
      | succ room =>
          cases room with
          | zero => exact ofParts?_packed (if_neg (Packed.not_levelsAround_le_zero _)).symm
          | succ room =>
              exact ofParts?_packed (Packed.list?_array (reads_typeArguments typeArguments room))

theorem reads_typeArguments : (arguments : List TypeArgument) → (room : Nat) →
    (packedTypeArguments arguments).mapM (typeArgumentOfPacked? room) =
      if ∀ inside ∈ levelsOfTypeArguments arguments, inside ≤ room then
        some (storedTypeArguments arguments)
      else none
  | [], room => by simp [packedTypeArguments, levelsOfTypeArguments, storedTypeArguments]
  | ⟨name, value, span⟩ :: rest, 0 => by
      simp [packedTypeArguments, levelsOfTypeArguments, typeArgumentOfPacked?]
  | ⟨name, value, span⟩ :: rest, room + 1 => by
      have first : typeArgumentOfPacked? (room + 1)
          (.ofFields
            [ ("name", .ofOption .ofString name), ("value", packedValue value),
              ("span", span.packed) ]) =
          if levelsAround [levelsOfValue value, span.levels] ≤ room + 1 then
            some ⟨name, storedValue value, span⟩
          else none :=
        typeArgumentOfParts?_packed fun reference isDefinition => by
          subst isDefinition
          exact reads reference room
      simp [packedTypeArguments, levelsOfTypeArguments, storedTypeArguments, first,
        reads_typeArguments rest (room + 1), bind_ite, ite_and]
end

end Reference

theorem Packed.option?_reference (reference : Option Reference) (room : Nat) :
    (ofOption Reference.packed reference).option? (Reference.ofPacked? room) =
      if levelsOfOption Reference.levels reference ≤ room then
        some (reference.map Reference.stored)
      else none :=
  option?_ofOption
    (fun reference => by
      obtain ⟨_, _, _, _, _⟩ := reference
      exact Packed.noConfusion)
    fun reference => reference.reads room

theorem FormalParameter.reads (parameter : FormalParameter) :
    Reads ofPacked? parameter.packed parameter.levels parameter := by
  refine .around rfl fun room => ?_
  rw [packed, ofPacked?, Record.bind_ofFields (by rfl) (by decide)]
  simp [Span.reads parameter.span room, bind_ite, -Option.bind_some,
    bind_present]

theorem FormalTypeParameter.reads (parameter : FormalTypeParameter) :
    Reads ofPacked? parameter.packed parameter.levels parameter.stored := by
  refine .around rfl fun room => ?_
  rw [packed, ofPacked?, Record.bind_ofFields (by rfl) (by decide)]
  simp [stored, Packed.option?_reference, Span.reads parameter.span room,
    bind_ite, ite_and, -Option.bind_some, bind_present]

theorem Import.reads (declaration : Import) :
    Reads ofPacked? declaration.packed declaration.levels declaration := by
  refine .around rfl fun room => ?_
  rw [packed, ofPacked?, Record.bind_ofFields (by rfl) (by decide)]
  simp [Span.reads declaration.span room, bind_ite, -Option.bind_some,
    bind_present]

/-! ## Elements -/

theorem Interface.reads (interface : Interface) :
    Reads ofPacked? interface.packed interface.levels interface.withoutTyped := by
  refine .around rfl fun room => ?_
  rw [packed, ofPacked?, Record.bind_ofFields (by rfl) (by decide)]
  simp [withoutTyped, Role.reads, Cardinality.reads,
    Contingency.reads, Packed.option?_text, Span.reads interface.span room,
    Annotations.reads interface.annotations room, bind_ite, ite_and, -Option.bind_some,
    bind_present]

theorem Attribute.reads (declared : Attribute) :
    Reads ofPacked? declared.packed declared.levels declared.withoutTyped := by
  refine .around rfl fun room => ?_
  rw [packed, ofPacked?, Record.bind_ofFields (by rfl) (by decide)]
  simp [withoutTyped, Packed.option?_value,
    Span.reads declared.span room, Annotations.reads declared.annotations room, bind_ite,
    ite_and, -Option.bind_some, bind_present]

theorem Component.reads (component : Component) :
    Reads ofPacked? component.packed component.levels component.stored := by
  refine .around rfl fun room => ?_
  rw [packed, ofPacked?, Record.bind_ofFields (by rfl) (by decide)]
  simp [stored, Packed.option?_reference, Packed.option?_text,
    Packed.option?_resolved, Span.reads component.span room,
    Annotations.reads component.annotations room, bind_ite, ite_and, -Option.bind_some,
    bind_present]

theorem Endpoint.reads (endpoint : Endpoint) :
    Reads ofPacked? endpoint.packed endpoint.levels endpoint := by
  refine .around rfl fun room => ?_
  rw [packed, ofPacked?, Record.bind_ofFields (by rfl) (by decide)]
  simp [Packed.option?_count, -Option.bind_some, bind_present]

theorem Binding.reads (binding : Binding) :
    Reads ofPacked? binding.packed binding.levels binding.withoutTyped := by
  refine .around rfl fun room => ?_
  rw [packed, ofPacked?, Record.bind_ofFields (by rfl) (by decide)]
  simp [withoutTyped, Endpoint.reads binding.client room,
    Endpoint.reads binding.server room, Span.reads binding.span room,
    Annotations.reads binding.annotations room, bind_ite, ite_and, -Option.bind_some,
    bind_present]

theorem Source.reads (source : Source) :
    Reads ofPacked? source.packed source.levels source.withoutTyped := by
  refine .around rfl fun room => ?_
  rw [packed, ofPacked?, Record.bind_ofFields (by rfl) (by decide)]
  simp [withoutTyped, Span.reads source.span room,
    Annotations.reads source.annotations room, bind_ite, ite_and, -Option.bind_some,
    bind_present]

theorem ControllerInterface.reads (interface : ControllerInterface) :
    Reads ofPacked? interface.packed interface.levels interface := by
  refine .around rfl fun room => ?_
  rw [packed, ofPacked?, Record.bind_ofFields (by rfl) (by decide)]
  simp [-Option.bind_some, bind_present]

section

variable {α : Type} {read : Nat → Packed → Option α} {pack : α → Packed} {levels : α → Nat}
  {stored : α → α}

theorem Packed.list?_of_reads (reads : ∀ item, Reads read (pack item) (levels item) (stored item))
    (items : List α) (room : Nat) :
    list? read room (ofList pack items) =
      if levelsAround (items.map levels) ≤ room then some (items.map stored) else none :=
  Packed.reads_list (fun item _ => reads item) room

theorem Packed.list?_of_reads_id (reads : ∀ item, Reads read (pack item) (levels item) item)
    (items : List α) (room : Nat) :
    list? read room (ofList pack items) =
      if levelsAround (items.map levels) ≤ room then some items else none := by
  have opened : list? read room (ofList pack items) =
      if levelsAround (items.map levels) ≤ room then some (items.map id) else none :=
    Packed.list?_of_reads reads items room
  rwa [List.map_id] at opened

end

theorem Controller.reads (controller : Controller) :
    Reads ofPacked? controller.packed controller.levels controller.withoutTyped := by
  refine .around rfl fun room => ?_
  rw [packed, ofPacked?, Record.bind_ofFields (by rfl) (by decide)]
  simp [withoutTyped, Packed.list?_of_reads_id ControllerInterface.reads,
    Packed.list?_of_reads Source.reads, Span.reads controller.span room, bind_ite, ite_and]

/-! ## Definitions -/

theorem Decorations.reads (decorations : Decorations) :
    Reads ofPacked? decorations.packed decorations.levels decorations := by
  refine .around rfl fun room => ?_
  have text (text : String) : Reads (fun _ => Packed.string?) (.ofString text) 0 text :=
    fun room => (Packed.string?_ofString text).trans (if_pos (Nat.zero_le room)).symm
  rw [packed, ofPacked?, Record.bind_ofFields (by rfl) (by decide)]
  simp [Packed.option?_text, Packed.list?_of_reads_id text,
    bind_ite, -Option.bind_some, bind_present]

theorem Definition.reads (definition : Definition) :
    Reads ofPacked? definition.packed definition.levels definition.stored := by
  refine .around rfl fun room => ?_
  rw [packed, ofPacked?, Record.bind_ofFields (by rfl) (by decide)]
  simp [stored, MemberSet.reads,
    Packed.list?_of_reads_id Import.reads, Packed.list?_of_reads Reference.reads,
    Packed.list?_of_reads_id FormalParameter.reads,
    Packed.list?_of_reads FormalTypeParameter.reads, Packed.list?_of_reads Interface.reads,
    Packed.list?_of_reads Attribute.reads, Packed.list?_of_reads Component.reads,
    Packed.list?_of_reads Binding.reads, Packed.list?_of_reads Source.reads,
    Packed.list?_of_reads Controller.reads, Span.reads definition.span room,
    Annotations.reads definition.annotations room,
    Decorations.reads definition.decorations room, bind_ite, ite_and, -Option.bind_some,
    bind_present]

/-! ## Bundles -/

namespace Bundle

/-- A bundle is read back as what was stored, exactly where its levels stay within the
limit. No text and no list of it is longer than the format can tell. -/
theorem decode?_encode (definitions : List Definition)
    (packable : (Packed.ofList Definition.packed definitions).isPackable) :
    decode? (encode definitions) =
      if levels definitions ≤ nestingLimit then some (definitions.map Definition.stored)
      else none := by
  rw [decode?, encode, Packed.ofBytes?_bytes packable]
  exact Packed.list?_of_reads Definition.reads definitions nestingLimit

/-- A composite whose one sub-component was resolved to this position, twice, and has
these typed annotations. -/
def annotatedComposite (id : Option DefinitionId) (typed : List Annotation) : Definition :=
  let component : Component :=
    { name := "part"
      definition := some
        ⟨"a.Store", [⟨some "size", .number (-40), .generated⟩],
          [⟨none, .definition ⟨"a.Cell", [], [], .generated, some ⟨"a.Cell", id⟩⟩, .generated⟩],
          .generated, none⟩
      typeParameter := none
      span := ⟨1, 70000, 70004, 300⟩
      annotations := ⟨[⟨"Note", [⟨"items", .array [.string "é", .null]⟩], .generated⟩], typed⟩
      resolved := some ⟨"a.Store<a.Cell>", id⟩
      hasLifeCycleController := false }
  { Definition.ofKind "a.Top" .composite with components := [component] }

/-- The definition comes back with the names of what was resolved and with the nodes of
its annotations. -/
theorem decode?_encode_composite :
    (Packed.ofList Definition.packed
      [annotatedComposite (some 3) [⟨"Note", .empty, .empty, false, .mark⟩]]).isPackable ∧
    decode? (encode [annotatedComposite (some 3) [⟨"Note", .empty, .empty, false, .mark⟩]]) =
      some [annotatedComposite none []] := by
  have packable : (Packed.ofList Definition.packed
      [annotatedComposite (some 3) [⟨"Note", .empty, .empty, false, .mark⟩]]).isPackable := by
    decide +kernel
  exact ⟨packable, (decode?_encode _ packable).trans (if_pos (by decide +kernel))⟩

end Bundle

end Adl
