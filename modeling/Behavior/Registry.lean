import Behavior.Registry.Error
import Behavior.Tree.Node
/-!
# Registries

Named factories for nodes, conditions and filters. A loader deals in type names and textual parameters
only; a registry turns those into parts of a tree.
-/

namespace Behavior

/-- What a node factory is given; the display name may differ from the type name. -/
structure NodeRequest (χ : Type) where
  name : String
  parameters : String := ""
  condition : Option (Condition χ) := none

/-- What a condition factory is given. -/
structure ConditionRequest (χ : Type) where
  parameters : String := ""
  conditions : List (Condition χ) := []
  filters : List (Filter χ) := []

/-- What a filter factory is given. -/
structure FilterRequest (χ : Type) where
  parameters : String := ""
  filters : List (Filter χ) := []

abbrev NodeFactory (χ : Type) := NodeRequest χ → Except RegistryError (TreeNode χ)

abbrev ConditionFactory (χ : Type) := ConditionRequest χ → Except RegistryError (Condition χ)

abbrev FilterFactory (χ : Type) := FilterRequest χ → Except RegistryError (Filter χ)

/-- A childless node of a kind with what was asked for. -/
def NodeRequest.build {χ : Type} (r : NodeRequest χ) (kind : NodeKind χ) : TreeNode χ :=
  { label := { name := r.name, parameters := r.parameters }, condition := r.condition.getD .trivial, kind }

/-- Factories by type name. -/
structure Registry (χ : Type) where
  nodes : Std.ExtTreeMap String (NodeFactory χ) := ∅
  conditions : Std.ExtTreeMap String (ConditionFactory χ) := ∅
  filters : Std.ExtTreeMap String (FilterFactory χ) := ∅

namespace Registry

variable {χ : Type}

def empty : Registry χ := {}

variable (r : Registry χ)

/-! ## Known types -/

def has (part : Part) (type : String) : Bool :=
  match part with
  | .node => r.nodes.contains type
  | .condition => r.conditions.contains type
  | .filter => r.filters.contains type

/-- The known types in ascending order. -/
def types : Part → List String
  | .node => r.nodes.keys
  | .condition => r.conditions.keys
  | .filter => r.filters.keys

/-- Forgets a type. -/
def unregister (part : Part) (type : String) : Registry χ :=
  match part with
  | .node => { r with nodes := r.nodes.erase type }
  | .condition => { r with conditions := r.conditions.erase type }
  | .filter => { r with filters := r.filters.erase type }

/-! ## Registration; a type that is known keeps its factory -/

def registerNode (type : String) (factory : NodeFactory χ) : Registry χ :=
  { r with nodes := r.nodes.insertIfNew type factory }

/-- Adds a leaf type whose behaviour is built from the parameters alone. -/
def registerTask (type : String) (factory : String → Except RegistryError (Task χ)) : Registry χ :=
  r.registerNode type fun request =>
    (factory request.parameters).map fun run => request.build (.task run)

def registerCondition (type : String) (factory : ConditionFactory χ) : Registry χ :=
  { r with conditions := r.conditions.insertIfNew type factory }

def registerFilter (type : String) (factory : FilterFactory χ) : Registry χ :=
  { r with filters := r.filters.insertIfNew type factory }

/-! ## Creation -/

def createNode (type : String) (request : NodeRequest χ) : Except RegistryError (TreeNode χ) :=
  match r.nodes[type]? with
  | some factory => factory request
  | none => .error (.unknownType .node type)

def createCondition (type : String) (request : ConditionRequest χ) : Except RegistryError (Condition χ) :=
  match r.conditions[type]? with
  | some factory => factory request
  | none => .error (.unknownType .condition type)

def createFilter (type : String) (request : FilterRequest χ) : Except RegistryError (Filter χ) :=
  match r.filters[type]? with
  | some factory => factory request
  | none => .error (.unknownType .filter type)

end Registry

end Behavior
