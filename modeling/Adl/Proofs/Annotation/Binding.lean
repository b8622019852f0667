import Adl.Annotation.Registry
import Adl.Proofs.Foundation.Table
import Adl.Proofs.Reference.Substitution

namespace Adl

/-! Annotations are built from arguments that bind: each names a parameter of the kind, none is
given twice, and a parameter that is not given has a default. -/

theorem Table.eq_of_find? {α : Type} {table later : Table α} (keys : table.keys = later.keys)
    (nodup : table.keys.Nodup)
    (same : ∀ key ∈ table.keys, table.find? key = later.find? key) : table = later := by
  have values : table.values.filterMap some = later.values.filterMap some := by
    rw [filterMap_values nodup, filterMap_values (keys ▸ nodup), ← keys]
    exact List.filterMap_congr fun key member => by rw [same key member]
  rw [List.filterMap_some, List.filterMap_some] at values
  exact eq_of_keys_values keys values

open AnnotationRegistry (argumentName)

namespace AnnotationDescriptor

/-- The value of a parameter that is not written. -/
def default? (descriptor : AnnotationDescriptor) (name : String) : Option AnnotationValue :=
  (descriptor.parameters.find? (·.name == name)).bind (·.default)

/-- The arguments have a value for each parameter: the one that is written in the node, or else the
default. Nothing else is written, and nothing twice. -/
structure Binds (descriptor : AnnotationDescriptor) (node : AnnotationNode)
    (arguments : AnnotationArguments) : Prop where
  known : ∀ argument ∈ node.arguments,
    argumentName argument ∈ descriptor.parameters.map (·.name)
  once : (node.arguments.map argumentName).Nodup
  keys : arguments.keys =
    appendNew (node.arguments.map argumentName) (descriptor.parameters.map (·.name))
  written : ∀ argument ∈ node.arguments,
    arguments.find? (argumentName argument) = some argument.value
  defaults : ∀ name ∈ arguments.keys, name ∉ node.arguments.map argumentName →
    arguments.find? name = descriptor.default? name

end AnnotationDescriptor

namespace AnnotationRegistry

variable {registry : AnnotationRegistry} {descriptor : AnnotationDescriptor}
  {node : AnnotationNode} {taken table : AnnotationArguments} {built : Annotation}

/-- The kind of the node is known, its arguments bind, and the annotation is built from them. -/
def Builds (registry : AnnotationRegistry) (node : AnnotationNode) (built : Annotation) : Prop :=
  ∃ descriptor arguments, registry.descriptor? node.typeName = some descriptor ∧
    descriptor.Binds node arguments ∧ descriptor.build arguments = .ok built

theorem takeWritten_eq_ok_iff {arguments : List AnnotationArgument} :
    takeWritten descriptor arguments taken = .ok table ↔
      (∀ argument ∈ arguments, argumentName argument ∈ descriptor.parameters.map (·.name)) ∧
      (arguments.map argumentName).Nodup ∧
      (∀ argument ∈ arguments, argumentName argument ∉ taken.keys) ∧
      table.entries = taken.entries ++
        arguments.map fun argument => (argumentName argument, argument.value) := by
  induction arguments generalizing taken with
  | nil =>
      obtain ⟨entries⟩ := taken
      obtain ⟨others⟩ := table
      simp [takeWritten, eq_comm]
  | cons argument rest induction =>
      rw [takeWritten]
      by_cases known : argumentName argument ∈ descriptor.parameters.map (·.name)
      · have isKnown : descriptor.parameters.all (·.name != argumentName argument) = false := by
          obtain ⟨parameter, member, named⟩ := List.mem_map.mp known
          exact List.all_eq_false.mpr ⟨parameter, member, by simp [named]⟩
        by_cases again : argumentName argument ∈ taken.keys
        · simp [isKnown, Table.contains_iff_mem_keys.mpr again, again]
        · have isNew : taken.contains (argumentName argument) = false :=
            Bool.eq_false_iff.mpr fun among => again (Table.contains_iff_mem_keys.mp among)
          have added := Table.entries_insert_of_find?_none
            (Table.find?_eq_none_of_not_contains isNew) argument.value
          simp only [isKnown, isNew, Bool.false_eq_true, if_false, induction, added,
            Table.keys_insert, if_neg again]
          simp only [List.map_cons, List.nodup_cons, List.forall_mem_cons, again,
            List.mem_append, List.mem_singleton, not_or, true_and, not_false_eq_true,
            List.append_assoc, List.singleton_append, List.mem_map]
          grind
      · have isUnknown : descriptor.parameters.all (·.name != argumentName argument) = true := by
          refine List.all_eq_true.mpr fun parameter member => bne_iff_ne.mpr fun same => known ?_
          exact same ▸ List.mem_map_of_mem member
        simp only [isUnknown, if_true]
        exact ⟨nofun, fun ⟨all, _⟩ => absurd (all argument List.mem_cons_self) known⟩

/-- The value of a name: the one that is taken, or else the default of the first parameter. -/
def completed? (parameters : List AnnotationParameter) (taken : AnnotationArguments) (name : String) :
    Option AnnotationValue :=
  (taken.find? name).or ((parameters.find? (·.name == name)).bind (·.default))

section Completed

variable {parameter : AnnotationParameter} {rest : List AnnotationParameter} {value : AnnotationValue}

/-- The default of a parameter that is taken does not count. -/
theorem completed?_of_known (known : taken.contains parameter.name = true) (name : String) :
    completed? (parameter :: rest) taken name = completed? rest taken name := by
  unfold completed?
  by_cases same : parameter.name = name
  · obtain ⟨value, found⟩ := Table.contains_eq_true_iff.mp known
    rw [← same, found, Option.some_or, Option.some_or]
  · rw [List.find?_cons_of_neg (by simpa using same)]

/-- It is the same to take the default of a parameter that is not taken. -/
theorem completed?_insert (isNew : taken.find? parameter.name = none)
    (given : parameter.default = some value) (name : String) :
    completed? rest (taken.insert parameter.name value) name =
      completed? (parameter :: rest) taken name := by
  unfold completed?
  rw [Table.find?_insert]
  by_cases same : parameter.name = name
  · simp [← same, isNew, given]
  · rw [if_neg same, List.find?_cons_of_neg (by simpa using same)]

theorem completed?_of_missing (isNew : taken.find? parameter.name = none)
    (missing : parameter.default = none) :
    completed? (parameter :: rest) taken parameter.name = none := by
  simp [completed?, isNew, missing]

end Completed

/-- The parameters that are not taken are added in order, and each has a value. -/
theorem takeDefaults_eq_ok_iff {kind : String} {parameters : List AnnotationParameter}
    (nodup : taken.keys.Nodup) :
    takeDefaults kind parameters taken = .ok table ↔
      table.keys = appendNew taken.keys (parameters.map (·.name)) ∧
        ∀ name ∈ table.keys, table.find? name = completed? parameters taken name := by
  induction parameters generalizing taken with
  | nil =>
      have own (name : String) : completed? [] taken name = taken.find? name := Option.or_none
      simp only [own]
      constructor
      · intro same
        cases same
        exact ⟨rfl, fun _ _ => rfl⟩
      · rintro ⟨keys, same⟩
        exact congrArg Except.ok (Table.eq_of_find? keys (keys ▸ nodup) same).symm
  | cons parameter rest induction =>
      have names : appendNew taken.keys ((parameter :: rest).map (·.name)) =
          appendNew (appendNew taken.keys [parameter.name]) (rest.map (·.name)) :=
        appendNew_append _ [parameter.name] _
      rw [takeDefaults, names, appendNew_singleton]
      cases known : taken.contains parameter.name with
      | true =>
          rw [if_pos rfl, if_pos (Table.contains_iff_mem_keys.mp known), induction nodup]
          simp only [completed?_of_known known]
      | false =>
          have isNew := Table.find?_eq_none_of_not_contains known
          have notKey : parameter.name ∉ taken.keys := fun among =>
            Bool.false_ne_true (known.symm.trans (Table.contains_iff_mem_keys.mpr among))
          rw [if_neg Bool.false_ne_true, if_neg notKey]
          cases given : parameter.default with
          | some value =>
              rw [induction (Table.nodup_keys_insert nodup isNew value), Table.keys_insert,
                if_neg notKey]
              simp only [completed?_insert isNew given]
          | none =>
              refine ⟨nofun, fun ⟨keys, values⟩ => ?_⟩
              have member : parameter.name ∈ table.keys := by
                rw [keys]
                exact (mem_appendNew _ _).mpr (.inl (List.mem_append_right _ List.mem_cons_self))
              obtain ⟨value, found⟩ :=
                Table.contains_eq_true_iff.mp (Table.contains_iff_mem_keys.mpr member)
              have unset := values parameter.name member
              rw [completed?_of_missing isNew given, found] at unset
              exact nomatch unset

/-- Arguments bind if they can be taken, those that are written first. -/
theorem binds_iff {arguments : AnnotationArguments} :
    descriptor.Binds node arguments ↔
      ∃ written, takeWritten descriptor node.arguments .empty = .ok written ∧
        takeDefaults descriptor.name descriptor.parameters written = .ok arguments := by
  let written : AnnotationArguments :=
    ⟨node.arguments.map fun argument => (argumentName argument, argument.value)⟩
  have keys : written.keys = node.arguments.map argumentName := by
    simp [written, Table.keys, Function.comp_def]
  have given (nodup : written.keys.Nodup) {argument : AnnotationArgument}
      (member : argument ∈ node.arguments) :
      written.find? (argumentName argument) = some argument.value :=
    Table.find?_of_mem_entries nodup (List.mem_map_of_mem member)
  have unwritten {name : String} (absent : name ∉ node.arguments.map argumentName) :
      completed? descriptor.parameters written name = descriptor.default? name := by
    have none : written.find? name = none := Table.find?_eq_none_of_not_contains
      (Bool.eq_false_iff.mpr fun among => absent (keys ▸ Table.contains_iff_mem_keys.mp among))
    rw [completed?, none]
    rfl
  constructor
  · intro binds
    have nodup : written.keys.Nodup := keys ▸ binds.once
    refine ⟨written, takeWritten_eq_ok_iff.mpr ⟨binds.known, binds.once, by simp [Table.keys,
      Table.empty], by simp [written, Table.empty]⟩, (takeDefaults_eq_ok_iff nodup).mpr
      ⟨keys ▸ binds.keys, fun name among => ?_⟩⟩
    by_cases isWritten : name ∈ node.arguments.map argumentName
    · obtain ⟨argument, member, rfl⟩ := List.mem_map.mp isWritten
      rw [binds.written argument member, completed?, given nodup member, Option.some_or]
    · rw [binds.defaults name among isWritten, unwritten isWritten]
  · rintro ⟨table, taken, completes⟩
    obtain ⟨known, once, -, entries⟩ := takeWritten_eq_ok_iff.mp taken
    have same : table = written := congrArg Table.mk entries
    have nodup : written.keys.Nodup := keys ▸ once
    rw [same] at completes
    obtain ⟨allKeys, values⟩ := (takeDefaults_eq_ok_iff nodup).mp completes
    rw [keys] at allKeys
    refine ⟨known, once, allKeys, fun argument member => ?_, fun name among isUnwritten => ?_⟩
    · have among : argumentName argument ∈ arguments.keys :=
        allKeys ▸ (mem_appendNew _ _).mpr (.inl (List.mem_map_of_mem member))
      rw [values _ among, completed?, given nodup member, Option.some_or]
    · rw [values name among, unwritten isUnwritten]

/-- What is built is built from arguments that bind. -/
theorem build_eq_ok_iff : registry.build node = .ok built ↔ registry.Builds node built := by
  unfold build Builds
  cases known : registry.descriptor? node.typeName with
  | none => simp
  | some descriptor =>
      simp only [Option.some.injEq, exists_and_left, exists_eq_left', binds_iff]
      cases taken : takeWritten descriptor node.arguments .empty with
      | error error => simp [bind, Except.bind]
      | ok written =>
          cases completed : takeDefaults descriptor.name descriptor.parameters written with
          | error error => simp [bind, Except.bind, completed]
          | ok arguments =>
              cases made : descriptor.build arguments with
              | error message => simp [bind, Except.bind, completed, made]
              | ok other => simp [bind, Except.bind, pure, Except.pure, completed, made]

end AnnotationRegistry

end Adl
