import Behavior.Yaml.Scalar
import Behavior.Yaml.Token
/-!
# Finding the tokens of a document

Whether a scalar or a flow collection is a key shows only when the colon behind it is reached. So the place
at which a key may begin is kept until then, one place for each level of flow collections, and the mark of
the key is put in front of the tokens that were made since. The colon has to follow on the same line and
within `keyReach` bytes.
-/

namespace Behavior.Yaml

/-- How many bytes may lie between the beginning of a key and its colon. -/
def keyReach : Nat := 1024

/-- A place at which a key may begin. -/
structure PossibleKey where
  place : Place
  /-- How many tokens precede it. -/
  index : Nat
  /-- Whether nothing but a key may stand there. -/
  required : Bool
  deriving DecidableEq, Repr

/-- Whether the colon of a key can no longer follow at a place. -/
def PossibleKey.isPast (k : PossibleKey) (p : Place) : Bool :=
  k.place.line < p.line || k.place.offset + keyReach < p.offset

/-- A document up to some place. -/
structure Lexer where
  cursor : Cursor
  /-- The tokens up to here, the last one first. -/
  tokens : List Token := []
  count : Nat := 0
  /-- The columns of the block collections that are open, the innermost first. -/
  columns : List Nat := []
  /-- The possible key of this level. -/
  key : Option PossibleKey := none
  /-- The possible keys of the levels around this one, the innermost first. -/
  outer : List (Option PossibleKey) := []
  /-- Whether a key may begin here. -/
  keyAllowed : Bool := true
  deriving Repr

namespace Lexer

/-- Whether the place lies within a flow collection. -/
def inFlow (s : Lexer) : Bool := !s.outer.isEmpty

/-- The least column that lies within the innermost block collection. -/
def least (s : Lexer) : Nat :=
  match s.columns with
  | [] => 0
  | column :: _ => column + 1

/-! ## Tokens -/

def emit (s : Lexer) (t : Token) : Lexer := { s with tokens := t :: s.tokens, count := s.count + 1 }

/-- Adds a token in front of those from an index on. -/
def insert (s : Lexer) (index : Nat) (t : Token) : Lexer :=
  { s with tokens := s.tokens.insertIdx (s.count - index) t, count := s.count + 1 }

/-- Adds the token of a mark that is `n` characters long, and goes over the mark. -/
def mark (s : Lexer) (t : Token) (n : Nat) : Lexer := { s.emit t with cursor := s.cursor.forward n }

/-! ## Block collections -/

/-- Opens a block collection at a column, with its first token at an index, if the column lies within the
innermost one. -/
def openBlock (s : Lexer) (column index : Nat) (t : Token) : Lexer :=
  if s.inFlow || column < s.least then s else { s.insert index t with columns := column :: s.columns }

/-- Closes the block collections at a column or further right. -/
def closeFrom (s : Lexer) (column : Nat) : Lexer :=
  if s.inFlow then s
  else
    let closed := s.columns.takeWhile (column ≤ ·)
    { s with
      tokens := List.replicate closed.length .blockEnd ++ s.tokens
      count := s.count + closed.length
      columns := s.columns.drop closed.length }

/-! ## Possible keys -/

/-- Gives up the possible key of this level, unless nothing but a key may stand there. -/
def forgetKey (s : Lexer) : Option Lexer :=
  match s.key with
  | some k => if k.required then none else some { s with key := none }
  | none => some s

/-- Keeps this place as that of a possible key, if a key may begin here. A scalar at the column of a block
mapping has to be a key. -/
def noteKey (s : Lexer) : Option Lexer := do
  if s.keyAllowed then
    let s ← s.forgetKey
    let required := !s.inFlow && s.columns.head? == some s.cursor.column
    return { s with key := some ⟨s.cursor.toPlace, s.count, required⟩ }
  else return s

/-- Gives up the possible key of this level if its colon can no longer follow. Those of the levels around
it can wait until their level comes back. -/
def dropPast (s : Lexer) : Option Lexer :=
  if s.key.any (·.isPast s.cursor.toPlace) then s.forgetKey else some s

/-! ## Ways between tokens -/

/-- Goes over blanks, comments and line breaks, and over byte order marks at the beginnings of lines. A tab
is no blank where a key of a block mapping may begin, and a key may begin on every new line outside flow
collections. -/
def skipFrom (flow keyAllowed comment : Bool) (p : Place) : List Char → Bool × Cursor
  | [] => (keyAllowed, ⟨p, []⟩)
  | c :: rest =>
    if isBreak c then skipFrom flow (keyAllowed || !flow) false (p.after c) rest
    else if comment then skipFrom flow keyAllowed true (p.after c) rest
    else if c = ' ' || (c = '\t' && (flow || !keyAllowed)) || (c = '\ufeff' && p.column = 0) then
      skipFrom flow keyAllowed false (p.after c) rest
    else if c = '#' then skipFrom flow keyAllowed true (p.after c) rest
    else (keyAllowed, ⟨p, c :: rest⟩)

/-- Goes to the place of the next token, and closes the block collections that end before it. -/
def approach (s : Lexer) : Option Lexer := do
  let (keyAllowed, cursor) := skipFrom s.inFlow s.keyAllowed false s.cursor.toPlace s.cursor.rest
  let s ← { s with keyAllowed, cursor }.dropPast
  return s.closeFrom (s.cursor.column + 1)

/-! ## Marks -/

def documentMark (s : Lexer) (t : Token) : Option Lexer := do
  let s ← (s.closeFrom 0).forgetKey
  return { s.mark t 3 with keyAllowed := false }

def enter (s : Lexer) (t : Token) : Option Lexer := do
  let s ← s.noteKey
  return { s.mark t 1 with key := none, outer := s.key :: s.outer, keyAllowed := true }

def leave (s : Lexer) (t : Token) : Option Lexer := do
  let s ← s.forgetKey
  return { s.mark t 1 with
    key := s.outer.head?.getD none
    outer := s.outer.drop 1
    keyAllowed := false }

def separate (s : Lexer) : Option Lexer := do
  let s ← s.forgetKey
  return { s.mark .separator 1 with keyAllowed := true }

/-- Opens a block collection for a mark that stands here, which it may only where a key may begin. -/
def openFor (s : Lexer) (t : Token) : Option Lexer :=
  if s.inFlow then some s
  else if s.keyAllowed then some (s.openBlock s.cursor.column s.count t)
  else none

def itemMark (s : Lexer) : Option Lexer := do
  let s ← (← s.openFor .blockSequence).forgetKey
  return { s.mark .item 1 with keyAllowed := true }

def keyMark (s : Lexer) : Option Lexer := do
  let s ← (← s.openFor .blockMapping).forgetKey
  return { s.mark .key 1 with keyAllowed := !s.inFlow }

/-- The colon before a value. It makes the possible key one; without it, the key was announced or left
out. -/
def valueMark (s : Lexer) : Option Lexer :=
  match s.key with
  | some k =>
    let s := (s.insert k.index .key).openBlock k.place.column k.index .blockMapping
    some { s.mark .value 1 with key := none, keyAllowed := false }
  | none => do
    let s ← s.openFor .blockMapping
    return { s.mark .value 1 with keyAllowed := !s.inFlow }

/-! ## Scalars -/

def plain (s : Lexer) : Option Lexer := do
  let s ← s.noteKey
  let r ← plainScalar s.inFlow s.least s.cursor
  return { s.emit (.plain (r.text)) with cursor := r.next, keyAllowed := r.crossed }

def quoted (s : Lexer) (quote : Char) : Option Lexer := do
  let s ← s.noteKey
  let r ← quotedScalar quote s.cursor
  return { s.emit (.quoted (r.text)) with cursor := r.next, keyAllowed := false }

def block (s : Lexer) (folding : Bool) : Option Lexer := do
  let s ← s.forgetKey
  let r ← textBlock folding s.least s.cursor
  return { s.emit (.quoted (r.text)) with cursor := r.next, keyAllowed := true }

/-! ## Documents -/

/-- Makes the token that stands here. -/
def token (s : Lexer) : Option Lexer :=
  if s.cursor.atOpening then s.documentMark .documentStart
  else if s.cursor.atClosing then s.documentMark .documentEnd
  else
    match s.cursor.rest with
    | [] => none
    | c :: rest =>
      if c = '[' then s.enter .openSequence
      else if c = '\x7b' then s.enter .openMapping
      else if c = ']' then s.leave .closeSequence
      else if c = '\x7d' then s.leave .closeMapping
      else if c = ',' then s.separate
      else if c = '-' && atGap rest then s.itemMark
      else if c = '?' && (s.inFlow || atGap rest) then s.keyMark
      else if c = ':' && (s.inFlow || atGap rest) then s.valueMark
      else if (c = '|' || c = '>') && !s.inFlow then s.block (c = '>')
      else if c = '\'' || c = '"' then s.quoted c
      else if startsPlain s.inFlow (c :: rest) then s.plain
      else none

/-- Makes all tokens from here on. -/
def finish : Nat → Lexer → Option (List Token)
  | 0, _ => none
  | fuel + 1, s => do
    let s ← s.approach
    if s.cursor.rest.isEmpty then
      let s ← (s.closeFrom 0).forgetKey
      return s.tokens.reverse
    else finish fuel (← s.token)

end Lexer

/-- The tokens of a text. Every token takes up a character, so that there is fuel for all of them. -/
def tokens? (s : String) : Option (List Token) := do
  let c ← Cursor.start? s
  Lexer.finish (c.rest.length + 1) { cursor := c }

end Behavior.Yaml
