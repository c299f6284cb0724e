/-!
# Places in a document

What is still to be read, and where it begins: the bytes, the lines and the characters of its line that
precede it.
-/

namespace Behavior.Yaml

/-! ## Characters -/

/-- The blanks within a line. -/
def isBlank (c : Char) : Bool := c == ' ' || c == '\t'

/-- The characters that end a line, once other spellings of a line break are gone. -/
def isBreak (c : Char) : Bool := c == '\n' || c == '\u2028' || c == '\u2029'

/-- Whether a word ends here: at a blank, at a line break or at the end. -/
def atGap : List Char → Bool
  | [] => true
  | c :: _ => isBlank c || isBreak c

/-- The ranges of the characters that a document may hold. -/
def admitted : List (Nat × Nat) :=
  [(0x09, 0x0A), (0x0D, 0x0D), (0x20, 0x7E), (0x85, 0x85), (0xA0, 0xD7FF), (0xE000, 0xFFFD),
    (0x10000, 0x10FFFF)]

/-- Whether a document may hold a character. -/
def isAdmitted (c : Char) : Bool := admitted.any fun (lo, hi) => lo ≤ c.toNat && c.toNat ≤ hi

/-- Writes every line break that folds as a line feed. -/
def unifyBreaks : List Char → List Char
  | [] => []
  | '\r' :: '\n' :: rest => '\n' :: unifyBreaks rest
  | c :: rest => (if c = '\r' || c = '\u0085' then '\n' else c) :: unifyBreaks rest

/-! ## Places -/

/-- A place in a document. -/
structure Place where
  /-- The bytes before it. -/
  offset : Nat := 0
  /-- The lines before its own. -/
  line : Nat := 0
  /-- The characters before it on its line. -/
  column : Nat := 0
  deriving DecidableEq, Repr

/-- The place behind a character. -/
def Place.after (p : Place) (c : Char) : Place :=
  let offset := p.offset + c.utf8Size
  if isBreak c then ⟨offset, p.line + 1, 0⟩ else ⟨offset, p.line, p.column + 1⟩

/-- A place with what follows it. -/
structure Cursor extends Place where
  rest : List Char
  deriving DecidableEq, Repr

namespace Cursor

/-- The beginning of a document. -/
def start? (s : String) : Option Cursor :=
  if s.toList.all isAdmitted then some { rest := unifyBreaks s.toList } else none

/-- The place `n` characters further on. -/
def forward (c : Cursor) : Nat → Cursor
  | 0 => c
  | n + 1 =>
    match c.rest with
    | [] => c
    | d :: rest => forward ⟨c.toPlace.after d, rest⟩ n

/-- Whether three of a character stand on their own at the beginning of a line. -/
def atRule (c : Cursor) (mark : Char) : Bool :=
  c.column == 0 && c.rest.take 3 == [mark, mark, mark] && atGap (c.rest.drop 3)

def atOpening (c : Cursor) : Bool := c.atRule '-'

def atClosing (c : Cursor) : Bool := c.atRule '.'

/-- Whether the mark of a document's beginning or end stands here. -/
def atBoundary (c : Cursor) : Bool := c.atOpening || c.atClosing

end Cursor

end Behavior.Yaml
