import Behavior.Decimal.Natural
import Behavior.Decimal.Reader
import Behavior.Registry.Error
import Behavior.Text.Blank
/-!
# Parameters

Reading the textual parameters of factories. Blanks around a parameter are ignored; an error shows the
text with them.
-/

namespace Behavior.Parameter

variable {α : Type}

/-- Reads a parameter that may be left out. -/
def optional (read : List Char → Option α) (name text : String) : Except RegistryError (Option α) :=
  let trimmed := Text.trim text.toList
  if trimmed.isEmpty then .ok none
  else
    match read trimmed with
    | some a => .ok (some a)
    | none => .error (.invalidParameter name text)

/-- Reads a parameter that may not be left out. -/
def required (read : List Char → Option α) (name text : String) : Except RegistryError α :=
  match optional read name text with
  | .ok (some a) => .ok a
  | .ok none => .error (.invalidParameter name text)
  | .error e => .error e

/-- The texts between commas. -/
def items : List Char → List (List Char)
  | [] => [[]]
  | c :: cs =>
    if c = ',' then [] :: items cs
    else
      match items cs with
      | [] => [[c]]
      | item :: rest => (c :: item) :: rest

/-- Reads a list of parameters; nothing but blanks is the empty list. -/
def list (read : List Char → Option α) (name text : String) : Except RegistryError (List α) :=
  if (Text.trim text.toList).isEmpty then .ok []
  else (items text.toList).mapM fun item => required read name (String.ofList item)

def word32 (cs : List Char) : Option UInt32 := (Decimal.natural? UInt32.size cs).map UInt32.ofNat

def word64 (cs : List Char) : Option UInt64 := (Decimal.natural? UInt64.size cs).map UInt64.ofNat

end Behavior.Parameter
