import Behavior.Json.Value
import Behavior.Status
import Behavior.Entity
/-!
# Typed values in JSON

What a JSON value means where a value of a certain type is expected. A reader of typed values follows 127
levels of arrays and objects; parts that it does not look at may be nested deeper.
-/

namespace Behavior.Json

/-- The number of levels that a typed reader follows. -/
def levels : Nat := 127

/-- A natural number below the bound. -/
def below? (bound : Nat) : Json → Option Nat
  | .natural n => if n < bound then some n else none
  | _ => none

def word64? (v : Json) : Option UInt64 := (v.below? UInt64.size).map UInt64.ofNat

def word32? (v : Json) : Option UInt32 := (v.below? UInt32.size).map UInt32.ofNat

def flag? : Json → Option Bool
  | .bool b => some b
  | _ => none

def string? : Json → Option String
  | .text s => s
  | _ => none

def items : Json → Option (List Json)
  | .array vs => some vs
  | _ => none

/-- The values of the named fields in the order of the names: from an object that has each of them once,
beside any others, or from an array of just these values. -/
def fields (names : List String) : Json → Option (List Json)
  | .array vs => if vs.length = names.length then some vs else none
  | .object fs => do
    let fs ← fs.mapM fun (k, v) => k.map (·, v)
    names.mapM fun name =>
      match fs.filter (·.1 == name) with
      | [(_, v)] => some v
      | _ => none
  | _ => none

/-- A status: the name of its variant, or an object with this name and no content. -/
def status? : Json → Option Status
  | .text (some s) => Status.ofVariant? s
  | .object [(some s, .null)] => Status.ofVariant? s
  | _ => none

/-- An identity is written as its number. -/
def entity? (v : Json) : Option EntityId := v.word64?.map EntityId.mk

def ofWord64 (n : UInt64) : Json := .natural n.toNat

/-- A status is written as the name of its variant. -/
def ofStatus (s : Status) : Json := ofText s.variant

/-- An identity is written as its number. -/
def ofEntity (e : EntityId) : Json := ofWord64 e.val

end Behavior.Json
