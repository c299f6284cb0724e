import Behavior.Registry
import Behavior.Registry.Parameter
/-!
# The standard registry

The factories of every kind of node, condition and filter that the library itself provides.
-/

namespace Behavior.Registry

variable {χ : Type}

/-! ## Arity -/

/-- Refuses any part. -/
def noParts (name : String) (actual : Nat) : Except RegistryError Unit :=
  if actual = 0 then .ok () else .error (.invalidArity name "no" actual)

/-- The only part. -/
def onlyPart {α : Type} (name : String) : List α → Except RegistryError α
  | [a] => .ok a
  | parts => .error (.invalidArity name "exactly 1" parts.length)

/-- The parts, of which there is at least one. -/
def someParts {α : Type} (name : String) : List α → Except RegistryError (List α)
  | [] => .error (.invalidArity name "at least 1" 0)
  | parts => .ok parts

/-- The result of a constructor that refuses fewer than two parts. -/
def manyParts {α : Type} (name : String) (actual : Nat) : Option α → Except RegistryError α
  | some a => .ok a
  | none => .error (.invalidArity name "at least 2" actual)

/-! ## Factories -/

/-- A factory of nodes of one kind. -/
def ofKind (kind : NodeKind χ) : NodeFactory χ := fun request => .ok (request.build kind)

/-- A factory of choices by weight; the parameters list the weights. -/
def probabilitySelector : NodeFactory χ := fun request =>
  (Parameter.list Decimal.single? request.name request.parameters).map fun weights =>
    request.build (.probabilitySelector weights)

/-- A factory of limits; the parameter is the number of completions. -/
def limit : NodeFactory χ := fun request =>
  (Parameter.required Parameter.word32 request.name request.parameters).map fun amount =>
    request.build (.limit amount)

/-- The behaviour of waiting leaves; the parameter is the time in milliseconds. -/
def idle (parameters : String) : Except RegistryError (Task χ) :=
  (Parameter.required Parameter.word64 "Idle" parameters).map .idle

/-- The behaviour of printing leaves; the parameter is the text. -/
def print (parameters : String) : Except RegistryError (Task χ) := .ok (.print parameters)

/-- A factory of enemy counts; without a parameter one enemy is enough. -/
def hasEnemies : ConditionFactory χ := fun request =>
  (Parameter.optional Parameter.word64 "HasEnemies" request.parameters).map fun count =>
    .enemies (count.getD 1)

/-- A factory of random choices; the parameter is the number of entities. -/
def random : FilterFactory χ := fun request => do
  let amount ← Parameter.required Parameter.word64 "Random" request.parameters
  return .randomOf amount (← onlyPart "Random" request.filters)

/-! ## The registry -/

def withNodes (r : Registry χ) : Registry χ :=
  r |>.registerNode "Sequence" (ofKind .sequence)
    |>.registerNode "PrioritySelector" (ofKind .prioritySelector)
    |>.registerNode "RandomSelector" (ofKind .randomSelector)
    |>.registerNode "Parallel" (ofKind .parallel)
    |>.registerNode "ProbabilitySelector" probabilitySelector
    |>.registerNode "Invert" (ofKind .invert)
    |>.registerNode "Succeed" (ofKind .succeed)
    |>.registerNode "Fail" (ofKind .fail)
    |>.registerNode "Limit" limit
    |>.registerTask "Idle" idle
    |>.registerTask "Print" print

def withConditions (r : Registry χ) : Registry χ :=
  r |>.registerCondition "True" (fun q => (noParts "True" q.conditions.length).map fun _ => .trivial)
    |>.registerCondition "False" (fun q => (noParts "False" q.conditions.length).map fun _ => .impossible)
    |>.registerCondition "And" (fun q => manyParts "And" q.conditions.length (Condition.and? q.conditions))
    |>.registerCondition "Or" (fun q => manyParts "Or" q.conditions.length (Condition.or? q.conditions))
    |>.registerCondition "Not" (fun q => (onlyPart "Not" q.conditions).map .not)
    |>.registerCondition "HasEnemies" hasEnemies
    |>.registerCondition "Filter" (fun q => (someParts "Filter" q.filters).map .selects)

def withFilters (r : Registry χ) : Registry χ :=
  r |>.registerFilter "SelectEmpty" (fun _ => .ok .nobody)
    |>.registerFilter "SelectAll" (fun _ => .ok .everybody)
    |>.registerFilter "SelectHighestAggro" (fun _ => .ok .highestAggro)
    |>.registerFilter "First" (fun q => (onlyPart "First" q.filters).map .firstOf)
    |>.registerFilter "Last" (fun q => (onlyPart "Last" q.filters).map .lastOf)
    |>.registerFilter "Random" random
    |>.registerFilter "Union" (fun q => (someParts "Union" q.filters).map .unionOf)
    |>.registerFilter "Intersection" (fun q => (someParts "Intersection" q.filters).map .intersectionOf)
    |>.registerFilter "Difference" (fun q => (someParts "Difference" q.filters).map .differenceOf)

/-- Every type that the library provides. -/
def standard : Registry χ := empty.withNodes.withConditions.withFilters

end Behavior.Registry
