import Behavior.Text.Hex
import Behavior.Yaml.Cursor
/-!
# Scalars

Reading plain scalars, quoted scalars and blocks of text, one character at a time. A line break inside a
scalar becomes a blank, unless empty lines follow it, which stay. Texts, blanks and breaks are gathered with
the last character first.
-/

namespace Behavior.Yaml

/-- A scalar that was read, and the place behind it. -/
structure Scanned where
  text : String
  next : Cursor
  /-- Whether line breaks were passed between the text and the place. -/
  crossed : Bool := false

def gathered (cs : List Char) : String := String.ofList cs.reverse

/-! ## Gaps -/

/-- What was passed behind the text of a scalar up to here. -/
inductive Gap where
  /-- Blanks, which belong to the text if it goes on. -/
  | blanks (cs : List Char)
  /-- Line breaks; blanks around them count for nothing. -/
  | breaks (cs : List Char)
  /-- The line breaks behind one with a backslash, which joins two lines without a blank. -/
  | joint (cs : List Char)
  deriving DecidableEq, Repr

namespace Gap

/-- The gap in which nothing was passed. -/
def empty : Gap := .blanks []

def crossed : Gap → Bool
  | .blanks _ => false
  | .breaks _ | .joint _ => true

/-- The gap with a further blank or line break. -/
def add (g : Gap) (c : Char) : Gap :=
  match g with
  | .blanks cs => if isBreak c then .breaks [c] else .blanks (c :: cs)
  | .breaks cs => .breaks (if isBreak c then c :: cs else cs)
  | .joint cs => .joint (if isBreak c then c :: cs else cs)

/-- What line breaks become between two lines. -/
def folded : List Char → List Char
  | [] => []
  | b :: more => if b = '\n' then if more.isEmpty then [' '] else more else b :: more

/-- What the gap becomes when the text goes on. -/
def text : Gap → List Char
  | .blanks cs => cs
  | .breaks cs => (folded cs.reverse).reverse
  | .joint cs => cs

end Gap

/-! ## Plain scalars -/

/-- The characters with a meaning of their own in flow collections. -/
def isFlowMark (c : Char) : Bool := [',', '[', ']', '\x7b', '\x7d'].contains c

/-- The characters with which no plain scalar begins. -/
def indicators : List Char :=
  ['-', '?', ':', ',', '[', ']', '\x7b', '\x7d', '#', '&', '*', '!', '|', '>', '\'', '"', '%', '@', '\x60']

/-- Whether a plain scalar begins here. -/
def startsPlain (flow : Bool) : List Char → Bool
  | [] => false
  | c :: rest =>
    if isBlank c || isBreak c then false
    else if c = '-' then !atGap rest
    else if c = '?' || c = ':' then !flow && !atGap rest
    else !indicators.contains c

/-- Whether a plain scalar ends in front of `c`, which stands at `p` behind the gap and before `rest`. Its
later lines begin at the column `least` or further right, except in flow collections. -/
def endsPlain (flow : Bool) (least : Nat) (gap : Gap) (p : Place) (c : Char) (rest : List Char) : Bool :=
  (gap.crossed && ((!flow && p.column < least) || (Cursor.mk p (c :: rest)).atBoundary))
    || (c == '#' && gap != .empty)
    || (c == ':' && atGap rest)
    || (flow && isFlowMark c)

/-- Reads the rest of a plain scalar. A tab is refused where it would stand for indentation, and in a flow
collection a colon in front of a mark. -/
def plainFrom (flow : Bool) (least : Nat) (text : List Char) (gap : Gap) (p : Place) :
    List Char → Option Scanned
  | [] => some { text := gathered text, next := ⟨p, []⟩, crossed := gap.crossed }
  | c :: rest =>
    if isBlank c || isBreak c then
      if c = '\t' && gap.crossed && p.column < least then none
      else plainFrom flow least text (gap.add c) (p.after c) rest
    else if endsPlain flow least gap p c rest then
      some { text := gathered text, next := ⟨p, c :: rest⟩, crossed := gap.crossed }
    else if flow && c = ':' && rest.head?.any (fun d => isFlowMark d || d = '?') then none
    else plainFrom flow least (c :: (gap.text ++ text)) .empty (p.after c) rest

/-- Reads a plain scalar that begins here. -/
def plainScalar (flow : Bool) (least : Nat) (c : Cursor) : Option Scanned :=
  plainFrom flow least [] .empty c.toPlace c.rest

/-! ## Quoted scalars -/

/-- The character whose number is written in hexadecimal. -/
def numbered? (digits : List Char) : Option Char := do
  let n ← digits.foldlM (fun n c => (Text.hexValue? c).map (16 * n + ·)) 0
  if h : n.isValidChar then some (Char.ofNatAux n h) else none

/-- How many hexadecimal digits follow a letter after a backslash. -/
def escapeWidth? : Char → Option Nat
  | 'x' => some 2
  | 'u' => some 4
  | 'U' => some 8
  | _ => none

/-- The character that one letter after a backslash stands for. -/
def named? : Char → Option Char
  | '0' => some '\x00'
  | 'a' => some '\x07'
  | 'b' => some '\x08'
  | 't' | '\t' => some '\t'
  | 'n' => some '\n'
  | 'v' => some '\x0b'
  | 'f' => some '\x0c'
  | 'r' => some '\r'
  | 'e' => some '\x1b'
  | ' ' => some ' '
  | '"' => some '"'
  | '/' => some '/'
  | '\\' => some '\\'
  | 'N' => some '\u0085'
  | '_' => some '\u00a0'
  | 'L' => some '\u2028'
  | 'P' => some '\u2029'
  | _ => none

/-- The character that stands behind a backslash, and how many characters are needed to write it. -/
def escape? : List Char → Option (Char × Nat)
  | [] => none
  | c :: rest =>
    match escapeWidth? c with
    | some width =>
      let digits := rest.take width
      if digits.length < width then none else (numbered? digits).map (·, width + 1)
    | none => (named? c).map (·, 1)

/-- Reads the rest of a quoted scalar. -/
def quotedFrom (quote : Char) (text : List Char) (gap : Gap) (p : Place) : List Char → Option Scanned
  | [] => none
  | c :: rest =>
    let q := p.after c
    if isBlank c || isBreak c then quotedFrom quote text (gap.add c) q rest
    else if (Cursor.mk p (c :: rest)).atBoundary then none
    else
      let text := gap.text ++ text
      if c = quote then
        match rest with
        | d :: rest =>
          if quote = '\'' && d = '\'' then quotedFrom quote ('\'' :: text) .empty (q.after d) rest
          else some { text := gathered text, next := ⟨q, d :: rest⟩ }
        | [] => some { text := gathered text, next := ⟨q, []⟩ }
      else if c = '\\' && quote = '"' then
        match rest with
        | [] => none
        | d :: rest =>
          if isBreak d then quotedFrom quote text (.joint []) (q.after d) rest
          else
            match escape? (d :: rest) with
            | some (e, width) =>
              let written := (d :: rest).take width
              quotedFrom quote (e :: text) .empty (written.foldl Place.after q) ((d :: rest).drop width)
            | none => none
      else quotedFrom quote (c :: text) .empty q rest
termination_by cs => cs.length

/-- Reads a quoted scalar whose opening quote stands here. -/
def quotedScalar (quote : Char) (c : Cursor) : Option Scanned :=
  quotedFrom quote [] .empty (c.forward 1).toPlace (c.forward 1).rest

/-! ## Blocks of text -/

/-- What happens to the line breaks at the end of a block. -/
inductive Chomping where
  | strip
  | clip
  | keep

/-- The first line of a block: how it ends, and by how many columns it is indented if that is said. -/
structure BlockHeader where
  chomping : Chomping := .clip
  increment : Option Nat := none

/-- Reads a mark of how a block ends. -/
def chomping? : List Char → Option (Chomping × List Char)
  | '+' :: rest => some (.keep, rest)
  | '-' :: rest => some (.strip, rest)
  | _ => none

/-- Reads the number of columns by which a block is indented. -/
def increment? : List Char → Option (Nat × List Char)
  | c :: rest => if c.isDigit then some (c.toNat - '0'.toNat, rest) else none
  | [] => none

/-- Reads the first line of a block behind its indicator: the two marks in either order, and what follows
them. -/
def blockHeader (cs : List Char) : BlockHeader × List Char :=
  match chomping? cs with
  | some (chomping, rest) =>
    match increment? rest with
    | some (n, rest) => (⟨chomping, some n⟩, rest)
    | none => (⟨chomping, none⟩, rest)
  | none =>
    match increment? cs with
    | none => ({}, cs)
    | some (n, rest) =>
      match chomping? rest with
      | some (chomping, rest) => (⟨chomping, some n⟩, rest)
      | none => (⟨.clip, some n⟩, rest)

/-- Goes over the blanks and the comment in the rest of a line. -/
def skipComment (comment : Bool) (p : Place) : List Char → Cursor
  | [] => ⟨p, []⟩
  | c :: rest =>
    if isBreak c then ⟨p, c :: rest⟩
    else if comment || isBlank c then skipComment comment (p.after c) rest
    else if c = '#' then skipComment true (p.after c) rest
    else ⟨p, c :: rest⟩

/-- Goes over indentation and empty lines to the first line of a block, and gives the breaks and the
greatest column reached. The indentation goes up to the column `indent`, or as far as there are blanks if
that is not known. -/
def toFirstLine (indent : Option Nat) (breaks : List Char) (most : Nat) (p : Place) :
    List Char → Option (List Char × Nat × Cursor)
  | [] => some (breaks, Nat.max most p.column, ⟨p, []⟩)
  | c :: rest =>
    let within := indent.all (p.column < ·)
    if c = ' ' && within then toFirstLine indent breaks most (p.after c) rest
    else if c = '\t' && within then none
    else if isBreak c then toFirstLine indent (c :: breaks) (Nat.max most p.column) (p.after c) rest
    else some (breaks, Nat.max most p.column, ⟨p, c :: rest⟩)

/-- A block up to some place: its text, the break behind its last line, the breaks of the empty lines after
it, and whether the line begins with a blank. -/
structure BlockText where
  text : List Char := []
  lead : List Char := []
  breaks : List Char := []
  indented : Bool := false

namespace BlockText

/-- The block with the first character of a further line. In a folded block a single break between two
lines that do not begin with a blank becomes a blank. -/
def beginLine (b : BlockText) (folding : Bool) (c : Char) : BlockText :=
  let lead :=
    if folding && b.lead == ['\n'] && !b.indented && !isBlank c then
      if b.breaks.isEmpty then [' '] else []
    else b.lead
  { text := c :: (b.breaks ++ lead ++ b.text), indented := isBlank c }

/-- The text of a block when its end is treated as its first line says. -/
def finish (b : BlockText) : Chomping → List Char
  | .strip => b.text
  | .clip => b.lead ++ b.text
  | .keep => b.breaks ++ b.lead ++ b.text

end BlockText

/-- Reads the lines of a block that are indented to the column `indent`, from within a line or from the
indentation of one. -/
def blockLines (folding : Bool) (indent : Nat) (within : Bool) (b : BlockText) (p : Place) :
    List Char → Option (BlockText × Cursor)
  | [] => some (b, ⟨p, []⟩)
  | c :: rest =>
    if within then
      if isBreak c then
        blockLines folding indent false { b with lead := [c] } (p.after c) rest
      else blockLines folding indent true { b with text := c :: b.text } (p.after c) rest
    else if c = ' ' && p.column < indent then blockLines folding indent false b (p.after c) rest
    else if c = '\t' && p.column < indent then none
    else if isBreak c then
      blockLines folding indent false { b with breaks := c :: b.breaks } (p.after c) rest
    else if p.column < indent then some (b, ⟨p, c :: rest⟩)
    else blockLines folding indent true (b.beginLine folding c) (p.after c) rest

/-- Reads a block whose indicator stands here; its lines begin at the column `least` or further right. -/
def textBlock (folding : Bool) (least : Nat) (c : Cursor) : Option Scanned := do
  let line := c.rest.takeWhile fun d => !isBreak d
  let (header, rest) := blockHeader (line.drop 1)
  if header.increment = some 0 then none
  let c := c.forward (line.length - rest.length)
  let c := skipComment false c.toPlace c.rest
  match c.rest with
  | [] => some { text := "", next := c }
  | b :: rest =>
    if !isBreak b then none
    let known := header.increment.map fun n => if least = 0 then n else least - 1 + n
    let (breaks, most, d) ← toFirstLine known [] 0 (c.toPlace.after b) rest
    let indent := known.getD (Nat.max most (Nat.max least 1))
    let (b, next) ← blockLines folding indent false { breaks } d.toPlace d.rest
    return { text := gathered (b.finish header.chomping), next }

end Behavior.Yaml
