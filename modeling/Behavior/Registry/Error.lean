/-!
# Errors of building

Why a node, a condition or a filter could not be built from its type name and parameters.
-/

namespace Behavior

/-- What can be built. -/
inductive Part where
  | node
  | condition
  | filter
  deriving DecidableEq, Repr

def Part.text : Part → String
  | node => "node"
  | condition => "condition"
  | filter => "filter"

/-- Why a factory gave nothing. -/
inductive RegistryError where
  | unknownType (part : Part) (name : String)
  | invalidArity (name expected : String) (actual : Nat)
  | invalidParameter (name value : String)
  deriving DecidableEq, Repr

def RegistryError.message : RegistryError → String
  | unknownType part name => "unknown " ++ part.text ++ " type `" ++ name ++ "`"
  | invalidArity name expected actual =>
    "`" ++ name ++ "` expects " ++ expected ++ " children, got " ++ toString actual
  | invalidParameter name value => "`" ++ name ++ "` has invalid parameter `" ++ value ++ "`"

end Behavior
