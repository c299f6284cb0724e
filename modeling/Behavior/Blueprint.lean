import Behavior.Registry
/-!
# Blueprints

Descriptions of filters, conditions and nodes as data, and their construction. A part is either built
directly, under its plain label or another, or created by a registry from its type name.
-/

namespace Behavior

/-- Why a blueprint could not be built. -/
inductive BuildError where
  | registry (e : RegistryError)
  /-- A composite condition was given fewer than two parts. -/
  | tooFewParts (name : String)
  deriving DecidableEq, Repr

/-- A label in place of the plain one; what is left out is as in the plain one. -/
structure Relabel where
  name : Option String := none
  parameters : Option String := none
  deriving DecidableEq, Repr

namespace Relabel

def isSome (r : Relabel) : Bool := r.name.isSome || r.parameters.isSome

/-- The label that results. -/
def apply (r : Relabel) (plain : Label) : Label :=
  { name := r.name.getD plain.name, parameters := r.parameters.getD plain.parameters }

end Relabel

/-! ## Descriptions -/

/-- The kinds of filters that can be described. -/
inductive FilterForm (χ : Type) where
  | selectEmpty
  | selectAll
  | selectHighestAggro
  | first
  | last
  | random (amount : UInt64)
  | union
  | intersection
  | difference
  | custom (label : Label) (select : Selector χ)

inductive FilterPlan (χ : Type) where
  | made (form : FilterForm χ) (relabel : Relabel) (parts : List (FilterPlan χ))
  | typed (type parameters : String) (parts : List (FilterPlan χ))

/-- The kinds of conditions that can be described. -/
inductive ConditionForm (χ : Type) where
  | always
  | never
  | all
  | any
  | negation
  | hasEnemies (count : UInt64)
  | filter
  | custom (label : Label) (test : Predicate χ)

inductive ConditionPlan (χ : Type) where
  | made (form : ConditionForm χ) (relabel : Relabel) (parts : List (ConditionPlan χ))
      (filters : List (FilterPlan χ))
  | typed (type parameters : String) (parts : List (ConditionPlan χ)) (filters : List (FilterPlan χ))

/-- The kinds of nodes that can be described. -/
inductive NodeForm (χ : Type) where
  | inner (kind : NodeKind χ)
  | idle (millis : UInt64)
  | print (text : String)
  | leaf (label : Label) (run : Task χ)

inductive NodePlan (χ : Type) where
  | made (form : NodeForm χ) (relabel : Relabel) (condition : Option (ConditionPlan χ))
      (children : List (NodePlan χ))
  | typed (type : String) (name : Option String) (parameters : String)
      (condition : Option (ConditionPlan χ)) (children : List (NodePlan χ))

instance {χ : Type} : Inhabited (FilterPlan χ) := ⟨.made .selectEmpty {} []⟩

instance {χ : Type} : Inhabited (ConditionPlan χ) := ⟨.made .always {} [] []⟩

instance {χ : Type} : Inhabited (NodePlan χ) := ⟨.made (.inner .sequence) {} none []⟩

/-! ## Construction -/

namespace FilterForm

variable {χ : Type}

/-- The filter of a form; a form that wraps one filter takes the first part. -/
def build (parts : List (Filter χ)) : FilterForm χ → Filter χ
  | selectEmpty => .nobody
  | selectAll => .everybody
  | selectHighestAggro => .highestAggro
  | first => .firstOf (parts.headD .nobody)
  | last => .lastOf (parts.headD .nobody)
  | random n => .randomOf n (parts.headD .nobody)
  | union => .unionOf parts
  | intersection => .intersectionOf parts
  | difference => .differenceOf parts
  | custom l s => .custom l s

end FilterForm

namespace ConditionForm

variable {χ : Type}

/-- The condition of a form with any number of parts. -/
def build (parts : List (Condition χ)) (filters : List (Filter χ)) : ConditionForm χ → Condition χ
  | always => .trivial
  | never => .impossible
  | all => .all { name := "And" } parts
  | any => .any { name := "Or" } parts
  | negation => .not (parts.headD .trivial)
  | hasEnemies n => .enemies n
  | filter => .selects filters
  | custom l t => .custom l t

/-- The condition of a form under its plain label; a composite one needs two parts. -/
def build? (parts : List (Condition χ)) (filters : List (Filter χ)) (form : ConditionForm χ) :
    Except BuildError (Condition χ) :=
  match form with
  | all =>
    match Condition.and? parts with
    | some c => .ok c
    | none => .error (.tooFewParts "And")
  | any =>
    match Condition.or? parts with
    | some c => .ok c
    | none => .error (.tooFewParts "Or")
  | form => .ok (form.build parts filters)

end ConditionForm

namespace NodeForm

variable {χ : Type}

/-- The node of a form under its plain label. -/
def build : NodeForm χ → TreeNode χ
  | inner kind => .ofKind kind
  | idle n => .idle n
  | print t => .print t
  | leaf l run => .leaf l run

/-- The label that a relabelling starts from: only a limit shows its parameter there. -/
def bareLabel : NodeForm χ → Label
  | inner (.limit n) => (NodeKind.limit n : NodeKind χ).label
  | form => { name := form.build.label.name }

/-- The node of a form under a label. -/
def buildAs (r : Relabel) (form : NodeForm χ) : TreeNode χ :=
  match form with
  | leaf l run => .leaf l run
  | form => if r.isSome then { form.build with label := r.apply form.bareLabel } else form.build

end NodeForm

variable {χ : Type} (registry : Registry χ)

/-- What a registry gives, among the errors of building. -/
def fromRegistry {α : Type} (r : Except RegistryError α) : Except BuildError α := r.mapError .registry

namespace FilterPlan

mutual

/-- Builds a filter, its parts before it. -/
def build : FilterPlan χ → Except BuildError (Filter χ)
  | made form relabel parts => do
    let f := form.build (← buildAll parts)
    match form with
    | .custom .. => return f
    | _ => return f.relabel (relabel.apply f.label)
  | typed type parameters parts => do
    fromRegistry (registry.createFilter type { parameters, filters := ← buildAll parts })

def buildAll : List (FilterPlan χ) → Except BuildError (List (Filter χ))
  | [] => .ok []
  | p :: ps => do
    let f ← build p
    return f :: (← buildAll ps)

end

end FilterPlan

namespace ConditionPlan

mutual

/-- Builds a condition, its parts and then its filters before it. -/
def build : ConditionPlan χ → Except BuildError (Condition χ)
  | made form relabel parts filters => do
    let parts ← buildAll parts
    let filters ← FilterPlan.buildAll registry filters
    match form with
    | .custom .. => return form.build parts filters
    | _ =>
      if relabel.isSome then
        let c := form.build parts filters
        return c.relabel (relabel.apply c.label)
      else form.build? parts filters
  | typed type parameters parts filters => do
    let conditions ← buildAll parts
    let filters ← FilterPlan.buildAll registry filters
    fromRegistry (registry.createCondition type { parameters, conditions, filters })

def buildAll : List (ConditionPlan χ) → Except BuildError (List (Condition χ))
  | [] => .ok []
  | p :: ps => do
    let c ← build p
    return c :: (← buildAll ps)

end

/-- Builds a condition that may be left out. -/
def buildOption : Option (ConditionPlan χ) → Except BuildError (Option (Condition χ))
  | none => .ok none
  | some p => return some (← p.build registry)

end ConditionPlan

namespace NodePlan

mutual

/-- Builds a node with its descendants, together with the report on refused children. A described node
is built after its guard and its children, a typed one before its children. -/
def build : NodePlan χ → Except BuildError (TreeNode χ × List Entry)
  | made form relabel condition children => do
    let condition ← ConditionPlan.buildOption registry condition
    let (children, below) ← buildAll children
    let node := { form.buildAs relabel with condition := condition.getD .trivial }
    let (node, entries) := node.withChildren children
    return (node, below ++ entries)
  | typed type name parameters condition children => do
    let condition ← ConditionPlan.buildOption registry condition
    let node ← fromRegistry (registry.createNode type { name := name.getD type, parameters, condition })
    let (children, below) ← buildAll children
    let (node, entries) := node.withChildren children
    return (node, below ++ entries)

def buildAll : List (NodePlan χ) → Except BuildError (List (TreeNode χ) × List Entry)
  | [] => .ok ([], [])
  | p :: ps => do
    let (node, entries) ← build p
    let (nodes, more) ← buildAll ps
    return (node :: nodes, entries ++ more)

end

end NodePlan

end Behavior
