import Adl.Proofs.Definition.ReferenceText
import Adl.Proofs.Reference.Substitution
import Adl.Proofs.Template.Sharing

namespace Adl

open Step Context Text

/-! Copies are told apart by their names. The name of a copy lists the values of the parameters; of
literal values it tells each one, whatever separators stand in the texts among them. -/

/-! ## Names -/

theorem Value.isPlain_of_isLiteral {value : Value} (literal : value.isLiteral = true) :
    value.IsPlain := by
  cases value with
  | reference parameter => exact nomatch literal
  | _ => trivial

namespace ValueBindings

/-- The bindings give a literal value to each of the parameters, and to nothing else. -/
structure BindLiterally (bindings : ValueBindings) (parameters : List FormalParameter) : Prop where
  keys : bindings.keys = appendNew [] (parameters.map (·.name))
  literal : ∀ value ∈ bindings.values, value.isLiteral = true

/-- One value as the name of a copy lists it. -/
def item (entry : String × Value) : List Char :=
  entry.1.toList ++ '=' :: entry.2.text.toList

variable {left right : List (String × Value)} {leftRest rightRest : List Char}

theorem item_append_inj {parameter : String} {one another : Value} (literal : one.isLiteral = true)
    (alsoLiteral : another.isLiteral = true) (leftBegins : BeginsWith closings leftRest)
    (rightBegins : BeginsWith closings rightRest)
    (equal : item (parameter, one) ++ leftRest = item (parameter, another) ++ rightRest) :
    one = another ∧ leftRest = rightRest := by
  simp only [item, List.append_assoc, List.cons_append] at equal
  have values := List.tail_eq_of_cons_eq (List.append_cancel_left equal)
  exact Value.text_append_inj (Value.isPlain_of_isLiteral literal)
    (Value.isPlain_of_isLiteral alsoLiteral) leftBegins rightBegins values

/-- The values of the same parameters can be read off their list. -/
theorem items_inj (keys : left.map (·.1) = right.map (·.1))
    (literal : ∀ entry ∈ left, entry.2.isLiteral = true)
    (alsoLiteral : ∀ entry ∈ right, entry.2.isLiteral = true)
    (equal : [','].intercalate (left.map item) ++ [')'] =
      [','].intercalate (right.map item) ++ [')']) : left = right := by
  have ends : BeginsWith closings [')'] := .cons _ (by decide)
  have continues (rest : List Char) : BeginsWith closings (',' :: rest) := .cons _ (by decide)
  induction left generalizing right with
  | nil => exact (List.map_eq_nil_iff.mp keys.symm).symm
  | cons entry left induction =>
      obtain ⟨parameter, one⟩ := entry
      obtain ⟨isLiteral, others⟩ := List.forall_mem_cons.mp literal
      cases right with
      | nil => exact nomatch keys
      | cons entry right =>
          obtain ⟨other, another⟩ := entry
          obtain ⟨same, following⟩ := List.cons.inj keys
          cases same
          obtain ⟨isLiteralToo, othersToo⟩ := List.forall_mem_cons.mp alsoLiteral
          cases left with
          | nil =>
              cases List.map_eq_nil_iff.mp following.symm
              simp only [List.map_cons, List.map_nil, List.intercalate_singleton] at equal
              obtain ⟨rfl, -⟩ := item_append_inj isLiteral isLiteralToo ends ends equal
              rfl
          | cons next left =>
              cases right with
              | nil => exact nomatch following
              | cons nextToo right =>
                  simp only [List.map_cons, List.intercalate_cons_cons, List.append_assoc,
                    List.singleton_append] at equal
                  obtain ⟨rfl, rest⟩ := item_append_inj isLiteral isLiteralToo (continues _)
                    (continues _) equal
                  rw [induction following others othersToo (List.tail_eq_of_cons_eq rest)]

end ValueBindings

namespace Definition

variable {bindings left right : ValueBindings} {parameters : List FormalParameter}

theorem toList_substitutedName (base : String) (bindings : ValueBindings) :
    (substitutedName base bindings).toList =
      base.toList ++ '(' :: ([','].intercalate (bindings.entries.map ValueBindings.item) ++
        [')']) := by
  have items : ValueBindings.item = fun entry => entry.1.toList ++ '=' :: entry.2.text.toList := rfl
  simp [substitutedName, items, Function.comp_def]

/-- Copies of one definition have the same name exactly if the same values are put in. -/
theorem substitutedName_eq_iff (base : String) (binds : left.BindLiterally parameters)
    (bindsToo : right.BindLiterally parameters) :
    substitutedName base left = substitutedName base right ↔ left = right := by
  constructor
  · intro same
    have characters := congrArg String.toList same
    rw [toList_substitutedName, toList_substitutedName] at characters
    have listed := List.tail_eq_of_cons_eq (List.append_cancel_left characters)
    have entries : left.entries = right.entries :=
      ValueBindings.items_inj (binds.keys.trans bindsToo.keys.symm)
        (fun entry member => binds.literal entry.2 (List.mem_map_of_mem member))
        (fun entry member => bindsToo.literal entry.2 (List.mem_map_of_mem member)) listed
    exact congrArg Table.mk entries
  · exact congrArg (substitutedName base)

end Definition

/-! ## Copies -/

section Copies

variable {frontEnd : FrontEnd} {context reached : Context} {reference : Reference}
  {target id : DefinitionId} {bindings : ValueBindings} {allowReferences : Bool}

/-- A copy that was made is loaded under the name that tells its bindings. -/
theorem loaded_of_substituteValues (harmless : frontEnd.registry.IsHarmless)
    (sound : context.Sound False)
    (gives : (context.definition target).bindings? reference allowReferences = some bindings)
    (made : substituteValues frontEnd.load reference target allowReferences context =
      (.ok (.substituted id), reached)) :
    reached.Sound False ∧ Evolves none context reached ∧
      reached.cache.find?
        (Definition.substitutedName (context.definition target).name bindings) = some id := by
  have lasts : Lasts frontEnd False fun _ => True := fun _ _ _ _ => trivial
  have loads : Loads frontEnd False (fun _ => True) frontEnd.load (frontEnd.guardedLoad .aborted) :=
    FrontEnd.loads_load harmless False.elim .aborted lasts
  obtain ⟨⟨soundReached, -⟩, leads, asked, isAsked, loaded⟩ :=
    (agree_substituteValues lasts loads sound trivial reference target allowReferences).of_ok made
  cases gives.symm.trans isAsked
  exact ⟨soundReached, leads.toEvolves, loaded⟩

/-- A copy that is loaded is found again, and nothing happens. -/
theorem substituteValues_of_loaded
    (gives : (context.definition target).bindings? reference allowReferences = some bindings)
    (loaded : context.cache.find?
      (Definition.substitutedName (context.definition target).name bindings) = some id) :
    substituteValues frontEnd.load reference target allowReferences context =
      (.ok (.substituted id), context) := by
  have known : context.isKnown
      (Definition.substitutedName (context.definition target).name bindings) = true := by
    simp [isKnown, Table.contains, loaded]
  have outcome : (frontEnd.load (Definition.substitutedName (context.definition target).name
      bindings)).outcome context = (.ok (.ok id), context) := by
    rw [Step.outcome, FrontEnd.load_of_found loaded]
  have found : Loading.orRecorded (frontEnd.load (Definition.substitutedName
      (context.definition target).name bindings)) reference.span context =
        (.ok (some id), context) :=
    bind_of_ok outcome
  refine (bind_of_ok rfl).trans ?_
  rw [gives]
  refine (bind_of_ok rfl).trans ?_
  rw [known]
  exact bind_of_ok found

end Copies

/-- Two copies of one definition for literal values have the same name exactly if the values are the
same. So a reference that asks for the values of an earlier one, whatever was asked for in between,
gets the copy that was made for this one, and no other reference does. -/
theorem copies_told_apart {parameters : List FormalParameter} {left right : ValueBindings}
    (binds : left.BindLiterally parameters) (bindsToo : right.BindLiterally parameters) :
    (∀ base, Definition.substitutedName base left = Definition.substitutedName base right ↔
      left = right) ∧
    ∀ (frontEnd : FrontEnd) (options : Options) (definitions : List Definition)
      (before between : List Request) (one another : Reference) (target id : DefinitionId)
      (allowReferences : Bool) (reached : Context),
      let asked := frontEnd.after before (.ofDefinitions options definitions)
      let askedAgain := frontEnd.after between reached
      frontEnd.registry = .predefined → asked.Loaded target →
      (asked.definition target).bindings? one allowReferences = some left →
      (asked.definition target).bindings? another allowReferences = some right →
      substituteValues frontEnd.load one target allowReferences asked =
        (.ok (.substituted id), reached) →
      (left = right →
        substituteValues frontEnd.load another target allowReferences askedAgain =
          (.ok (.substituted id), askedAgain)) ∧
      (left ≠ right → ∀ other final,
        substituteValues frontEnd.load another target allowReferences askedAgain =
          (.ok (.substituted other), final) → other ≠ id) := by
  refine ⟨fun base => Definition.substitutedName_eq_iff base binds bindsToo, ?_⟩
  intro frontEnd options definitions before between one another target id allowReferences reached
    asked askedAgain predefined loaded gives givesToo made
  have harmless : frontEnd.registry.IsHarmless :=
    predefined ▸ AnnotationRegistry.isHarmless_predefined
  obtain ⟨soundAsked, -⟩ := frontEnd.advances_after harmless before
    (sound_ofDefinitions options definitions False.elim)
  obtain ⟨soundReached, toReached, copied⟩ := loaded_of_substituteValues harmless soundAsked gives made
  obtain ⟨soundAgain, ⟨toAgain, -⟩⟩ := frontEnd.advances_after harmless between soundReached
  have sameTarget : askedAgain.definition target = asked.definition target :=
    soundAsked.definition_of_loaded (toReached.trans toAgain) nofun loaded
  have stillCopied := toAgain.find?_cache copied
  rw [← sameTarget] at givesToo stillCopied
  constructor
  · rintro rfl
    exact substituteValues_of_loaded givesToo stillCopied
  · intro different other final madeToo same
    obtain ⟨soundFinal, toFinal, copiedToo⟩ :=
      loaded_of_substituteValues harmless soundAgain givesToo madeToo
    rw [same] at copiedToo
    have names := soundFinal.loaded_unique _ _ id (toFinal.find?_cache stillCopied) copiedToo
    exact different ((Definition.substitutedName_eq_iff _ binds bindsToo).mp names)

/-! A primitive with two texts. It is copied for a text that looks like two values and for nothing,
and for two texts. -/

def paired : Definition :=
  { Definition.ofKind "a.Q" .primitive with
    parameters := [⟨"x", .generated⟩, ⟨"y", .generated⟩]
    attributes := [⟨"s", "string", some (.reference "x"), .generated, .none⟩,
      ⟨"t", "string", some (.reference "y"), .generated, .none⟩]
    sources := [.ofPath "q.c"] }

def pair (x y : Value) : ValueBindings :=
  ⟨[("x", x), ("y", y)]⟩

def pairArguments (x y : Value) : Reference :=
  ⟨"a.Q", [⟨some "x", x, .generated⟩, ⟨some "y", y, .generated⟩], [], .generated, none⟩

def pairedLoaded : Context :=
  FrontEnd.registeredOnly.after [.load "a.Q"] (.ofDefinitions .default [paired])

def copying (x y : Value) : Loading Substitution :=
  substituteValues FrontEnd.registeredOnly.load (pairArguments x y) 0 false

/-- What a substitution has led to, if it was one. -/
def Substitution.copy? : Substitution → Option DefinitionId
  | .substituted id => some id
  | .notApplicable | .failed => none

theorem Substitution.eq_of_copy? {step : Loading Substitution} {context : Context}
    {id : DefinitionId} (copies : (step context).1.toOption.bind copy? = some id) :
    step context = (.ok (.substituted id), (step context).2) := by
  rcases stepped : step context with ⟨_ | _ | _ | _, reached⟩ <;> rw [stepped] at copies <;>
    cases copies
  rfl

theorem copies_for_texts_apart :
    let left := pair (.string "1,y=2") .null
    let right := pair (.string "1") (.string "2")
    left.BindLiterally paired.parameters ∧ right.BindLiterally paired.parameters ∧
      Definition.substitutedName "a.Q" left ≠ Definition.substitutedName "a.Q" right ∧
      ∃ id reached other final,
        copying (.string "1,y=2") .null pairedLoaded = (.ok (.substituted id), reached) ∧
        copying (.string "1") (.string "2") reached = (.ok (.substituted other), final) ∧
        other ≠ id := by
  intro left right
  have binds : left.BindLiterally paired.parameters := ⟨by decide, by decide⟩
  have bindsToo : right.BindLiterally paired.parameters := ⟨by decide, by decide⟩
  have different : left ≠ right := by simp [left, right, pair]
  have loaded : pairedLoaded.cache.find? "a.Q" = some 0 := by decide +kernel
  have parameters : (pairedLoaded.definition 0).parameters = paired.parameters := by decide +kernel
  have gives : (pairedLoaded.definition 0).bindings? (pairArguments (.string "1,y=2") .null) false =
      some left := by
    rw [Definition.bindings?, parameters]
    rfl
  have givesToo : (pairedLoaded.definition 0).bindings?
      (pairArguments (.string "1") (.string "2")) false = some right := by
    rw [Definition.bindings?, parameters]
    rfl
  have made : copying (.string "1,y=2") .null pairedLoaded = (.ok (.substituted 1), _) :=
    Substitution.eq_of_copy? (by decide +kernel)
  have madeToo : copying (.string "1") (.string "2")
      (copying (.string "1,y=2") .null pairedLoaded).2 = (.ok (.substituted 2), _) :=
    Substitution.eq_of_copy? (by decide +kernel)
  obtain ⟨names, copies⟩ := copies_told_apart binds bindsToo
  obtain ⟨-, apart⟩ := copies FrontEnd.registeredOnly .default [paired] [.load "a.Q"] []
    (pairArguments (.string "1,y=2") .null) (pairArguments (.string "1") (.string "2")) 0 1 false _ rfl
    ⟨"a.Q", loaded⟩ gives givesToo made
  exact ⟨binds, bindsToo, fun same => different ((names "a.Q").mp same), 1, _, 2, _, made, madeToo,
    apart different 2 _ madeToo⟩

end Adl
