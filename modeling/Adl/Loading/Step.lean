import Adl.Loading.Failure

namespace Adl

/-! Steps that may fail and keep the state that they reached when they do. A draft
is a value that a step works on beside the state: what was done to it before a
failure is kept as well. -/

/-- A step over a state, with the state reached on either outcome. -/
abbrev Step (State : Type) (α : Type) := ExceptT LoadError (StateM State) α

/-- A step that works on a value beside the state. -/
abbrev Drafting (State Draft : Type) (α : Type) := Step (State × Draft) α

namespace Step

variable {State Draft Part α β : Type}

def fail (error : LoadError) : Step State α :=
  fun state => (.error error, state)

def ofExcept (result : Except MergeConflict α) : Step State α :=
  match result with
  | .ok value => pure value
  | .error conflict => fail (.internal (.merge conflict))

/-- Runs a step and gives its outcome as a value. -/
def outcome (step : Step State α) : Step State (Except LoadError α) :=
  fun state =>
    let (result, state) := step state
    (.ok result, state)

/-- Runs `after` once the step has ended, whatever its outcome. -/
def ending (step : Step State α) (after : State → State) : Step State α :=
  fun state =>
    let (result, state) := step state
    (result, after state)

/-- Runs a step of a part of the state. -/
def onPart (get : State → Part) (set : Part → State → State)
    (step : Step Part α) : Step State α :=
  fun state =>
    let (result, part) := step (get state)
    (result, set part state)

end Step

namespace Drafting

variable {State Draft Part α β : Type}

instance : MonadLift (Step State) (Drafting State Draft) where
  monadLift step := fun (state, draft) =>
    let (result, state) := step state
    (result, (state, draft))

def draft : Drafting State Draft Draft :=
  fun (state, draft) => (.ok draft, (state, draft))

def modifyDraft (change : Draft → Draft) : Drafting State Draft Unit :=
  fun (state, draft) => (.ok (), (state, change draft))

/-- Works on a part of the draft and puts the part back. -/
def onPart (get : Draft → Part) (set : Part → Draft → Draft)
    (step : Drafting State Part α) : Drafting State Draft α :=
  fun (state, draft) =>
    let (result, (state, part)) := step (state, get draft)
    (result, (state, set part draft))

def eachFrom (visit : Nat → Drafting State Draft α) :
    Nat → List Draft → State → Except LoadError (List α) × (State × List Draft)
  | _, [], state => (.ok [], (state, []))
  | index, item :: rest, state =>
      match visit index (state, item) with
      | (.error error, (state, item)) => (.error error, (state, item :: rest))
      | (.ok value, (state, item)) =>
          match eachFrom visit (index + 1) rest state with
          | (.error error, (state, rest)) => (.error error, (state, item :: rest))
          | (.ok values, (state, rest)) => (.ok (value :: values), (state, item :: rest))

/-- Visits the items of a list in order, each with its position. At the first failure
the items visited so far keep what was done to them and the others are left as they
were. -/
def each (visit : Nat → Drafting State Draft α) :
    Drafting State (List Draft) (List α) :=
  fun (state, items) => eachFrom visit 0 items state

end Drafting

end Adl
