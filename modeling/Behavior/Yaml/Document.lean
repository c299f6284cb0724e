import Behavior.Yaml.Token.Lexer
/-!
# Documents

The value that the tokens of a document make up. A value that is left out is the empty plain scalar.
-/

namespace Behavior.Yaml

namespace Token

/-- Whether, behind the dash of an item, the item is left out. -/
def endsItem : Token → Bool
  | .item | .blockEnd => true
  | _ => false

/-- Whether, behind the mark of a key or a value in a block mapping, the key or value is left out. -/
def endsField : Token → Bool
  | .key | .value | .blockEnd => true
  | _ => false

/-- Whether, behind the colon in an entry of a flow collection, the value is left out. -/
def endsEntry (closing : Token) (t : Token) : Bool := t == .separator || t == closing

end Token

/-- Whether the next token has a property. -/
def nextIs (p : Token → Bool) : List Token → Bool
  | [] => false
  | t :: _ => p t

/-- Goes over the comma in front of an entry of a flow collection; the first entry has none. -/
def toEntry (first : Bool) (ts : List Token) : Option (List Token) :=
  if first then some ts
  else
    match ts with
    | .separator :: rest => some rest
    | _ => none

mutual

/-- Reads a value. Block collections are values only where `block` says so, and the items of a sequence
stand there without a mark of its beginning only where `bare` says so. -/
def value (block bare : Bool) : Nat → List Token → Option (Yaml × List Token)
  | 0, _ => none
  | fuel + 1, ts =>
    match ts with
    | .plain s :: rest => some (.plain s, rest)
    | .quoted s :: rest => some (.quoted s, rest)
    | .openSequence :: rest => (flowItems true fuel rest).map fun (xs, rest) => (.sequence xs, rest)
    | .openMapping :: rest => (flowFields true fuel rest).map fun (xs, rest) => (.mapping xs, rest)
    | .blockSequence :: rest =>
      if block then (blockItems fuel rest).map fun (xs, rest) => (.sequence xs, rest) else none
    | .blockMapping :: rest =>
      if block then (blockFields fuel rest).map fun (xs, rest) => (.mapping xs, rest) else none
    | .item :: _ => if bare then (bareItems fuel ts).map fun (xs, rest) => (.sequence xs, rest) else none
    | _ => none
termination_by structural fuel => fuel

/-- Reads a value, unless the next token shows that it is left out. -/
def valueUnless (left : Token → Bool) (block bare : Bool) : Nat → List Token → Option (Yaml × List Token)
  | 0, _ => none
  | fuel + 1, ts => if nextIs left ts then some (.empty, ts) else value block bare fuel ts
termination_by structural fuel => fuel

/-- Reads the items of a block sequence, from its next item on. -/
def blockItems : Nat → List Token → Option (List Yaml × List Token)
  | 0, _ => none
  | fuel + 1, ts =>
    match ts with
    | .item :: rest => do
      let (x, rest) ← valueUnless Token.endsItem true false fuel rest
      let (xs, rest) ← blockItems fuel rest
      return (x :: xs, rest)
    | .blockEnd :: rest => some ([], rest)
    | _ => none
termination_by structural fuel => fuel

/-- Reads the items of a sequence at the column of the mapping around it, from its next item on. -/
def bareItems : Nat → List Token → Option (List Yaml × List Token)
  | 0, _ => none
  | fuel + 1, ts =>
    match ts with
    | .item :: rest => do
      let (x, rest) ← valueUnless (fun t => t.endsItem || t.endsField) true false fuel rest
      let (xs, rest) ← bareItems fuel rest
      return (x :: xs, rest)
    | _ => some ([], ts)
termination_by structural fuel => fuel

/-- Reads the fields of a block mapping, from its next field on. -/
def blockFields : Nat → List Token → Option (List (Yaml × Yaml) × List Token)
  | 0, _ => none
  | fuel + 1, ts =>
    match ts with
    | .key :: rest => do
      let (k, rest) ← valueUnless Token.endsField true true fuel rest
      let (v, rest) ← fieldValue Token.endsField true fuel rest
      let (fields, rest) ← blockFields fuel rest
      return ((k, v) :: fields, rest)
    | .blockEnd :: rest => some ([], rest)
    | _ => none
termination_by structural fuel => fuel

/-- Reads the value of a field, with its colon. -/
def fieldValue (left : Token → Bool) (block : Bool) : Nat → List Token → Option (Yaml × List Token)
  | 0, _ => none
  | fuel + 1, ts =>
    match ts with
    | .value :: rest => valueUnless left block block fuel rest
    | _ => some (.empty, ts)
termination_by structural fuel => fuel

/-- Reads the items of a flow sequence, from its next item on. An item with a mark of a key is a mapping
of one field. -/
def flowItems (first : Bool) : Nat → List Token → Option (List Yaml × List Token)
  | 0, _ => none
  | fuel + 1, ts =>
    match ts with
    | .closeSequence :: rest => some ([], rest)
    | _ => do
      match ← toEntry first ts with
      | .closeSequence :: rest => return ([], rest)
      | .key :: rest =>
        let (k, rest) ← itemKey fuel rest
        let (v, rest) ← fieldValue (Token.endsEntry .closeSequence) false fuel rest
        let (xs, rest) ← flowItems false fuel rest
        return (.mapping [(k, v)] :: xs, rest)
      | rest =>
        let (x, rest) ← value false false fuel rest
        let (xs, rest) ← flowItems false fuel rest
        return (x :: xs, rest)
termination_by structural fuel => fuel

/-- Reads the key of an item in a flow sequence. If it is left out, the token that shows this is passed
as well. -/
def itemKey : Nat → List Token → Option (Yaml × List Token)
  | 0, _ => none
  | fuel + 1, ts =>
    match ts with
    | .value :: rest | .separator :: rest | .closeSequence :: rest => some (.empty, rest)
    | _ => value false false fuel ts
termination_by structural fuel => fuel

/-- Reads the fields of a flow mapping, from its next field on. A field without a mark of a key has no
value. -/
def flowFields (first : Bool) : Nat → List Token → Option (List (Yaml × Yaml) × List Token)
  | 0, _ => none
  | fuel + 1, ts =>
    match ts with
    | .closeMapping :: rest => some ([], rest)
    | _ => do
      match ← toEntry first ts with
      | .closeMapping :: rest => return ([], rest)
      | .key :: rest =>
        let left := Token.endsEntry .closeMapping
        let (k, rest) ← valueUnless (fun t => t == .value || left t) false false fuel rest
        let (v, rest) ← fieldValue left false fuel rest
        let (fields, rest) ← flowFields false fuel rest
        return ((k, v) :: fields, rest)
      | rest =>
        let (k, rest) ← value false false fuel rest
        let (fields, rest) ← flowFields false fuel rest
        return ((k, .empty) :: fields, rest)
termination_by structural fuel => fuel

end

/-- Reads what a document holds, behind the mark of its beginning if there is one. -/
def content (fuel : Nat) : List Token → Option (Yaml × List Token)
  | [] => some (.empty, [])
  | .documentStart :: rest =>
    if rest.isEmpty then some (.empty, [])
    else valueUnless (fun t => t == .documentStart || t == .documentEnd) true false fuel rest
  | ts => value true false fuel ts

/-- Reads a text that consists of one document. A call of a reader spends fuel, at most four times before
the next token is passed. -/
def parse? (s : String) : Option Yaml := do
  let ts ← tokens? s
  let (v, rest) ← content (4 * ts.length + 4) ts
  if rest.all (· == .documentEnd) then some v else none

end Behavior.Yaml
