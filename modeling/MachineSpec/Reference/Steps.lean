import MachineSpec.Reference.Basic

/-!
# Entities changed step by step

An entity starts empty, and each step stores a text under one of its selectors: in the entity as it
is, or in an empty one that takes its place.  A step whose selector is not in the table fails, and
the entity stays as it is.

* `Lookup.Step`                  one step
* `Lookup.Step.name`, `base`     the selector it stores under, and the entity it stores in
* `Lookup.Step.run`              the entity that a step makes, or why it makes none
* `Lookup.Step.after`, `Lookup.afterAll`   the entity that is there after a step, and after many
* `Lookup.lastStored`            the text under a selector, told from the steps alone
-/

namespace MachineSpec.Lookup

open Logged (outcome)

inductive Step where
  /-- stores in the entity, under the selector that a marker names -/
  | assign (marker? : Option String) (value : String)
  /-- the same, but in an empty entity -/
  | resolve (marker? : Option String) (value : String)
  /-- stores in the entity, under a selector that is named outright -/
  | set (name value : String)
  deriving DecidableEq, Repr

namespace Step

/-- the selector that is stored under; without a marker it is the first one -/
def name (k : Kind) : Step → String
  | .assign marker? _ | .resolve marker? _ => marker?.getD k.primary
  | .set name _ => name

def value : Step → String
  | .assign _ value | .resolve _ value | .set _ value => value

/-- what is reported of a step that fails; where the selector is named outright, only that it does -/
def failure? (k : Kind) : Step → Option UnsupportedSelector
  | .assign marker? _ | .resolve marker? _ => some ⟨k, marker?.getD k.primary⟩
  | .set .. => none

variable {α : Type} [Lookup α]

/-- the entity that is stored in -/
def base (a : α) : Step → α
  | .resolve .. => empty
  | .assign .. | .set .. => a

/-- the entity that a step makes, or what is reported instead -/
def run (a : α) : Step → Except (Option UnsupportedSelector) α
  | .assign marker? value => (outcome (Lookup.assign a marker? value)).mapError some
  | .resolve marker? value => (outcome (Lookup.resolve marker? value)).mapError some
  | .set name value =>
    match set? a name value with
    | some a => .ok a
    | none => .error none

/-- the entity that is there after a step -/
def after (a : α) (step : Step) : α :=
  match step.run a with
  | .ok a => a
  | .error _ => a

/-- what a step makes of the text under a selector, if it stores there or clears it -/
def settles? (k : Kind) (name : String) (step : Step) : Option String :=
  if step.name k ∉ k.selectors then none
  else if step.name k = name then some step.value
  else
    match step with
    | .resolve .. => some ""
    | .assign .. | .set .. => none

end Step

/-- the entity that is there after some steps, starting from an empty one -/
def afterAll {α : Type} [Lookup α] (steps : List Step) : α := steps.foldl Step.after empty

theorem afterAll_append_singleton {α : Type} [Lookup α] (steps : List Step) (step : Step) :
    (afterAll (steps ++ [step]) : α) = step.after (afterAll steps) := by
  unfold afterAll
  rw [List.foldl_append]
  rfl

/-- the text that was last stored under a selector and has not been cleared since -/
def lastStored (k : Kind) (name : String) (steps : List Step) : String :=
  (steps.reverse.findSome? (Step.settles? k name)).getD ""

theorem lastStored_append_singleton (k : Kind) (name : String) (steps : List Step) (step : Step) :
    lastStored k name (steps ++ [step]) =
      (step.settles? k name).getD (lastStored k name steps) := by
  unfold lastStored
  rw [List.reverse_append, List.reverse_singleton, List.singleton_append, List.findSome?_cons]
  cases step.settles? k name <;> rfl

end MachineSpec.Lookup
