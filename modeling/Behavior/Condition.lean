import Behavior.Filter
/-!
# Conditions

The guards of tree nodes. A condition is evaluated from left to right and only as far as needed; a filter
condition leaves what it selected in the agent's list of filtered entities.
-/

namespace Behavior

/-- A test by the game. -/
abbrev Predicate (χ : Type) := Scene → Blackboard → Watch χ → Bool × Watch χ

/-- Conditions; each carries the label it is shown under. -/
inductive Condition (χ : Type) where
  | always (label : Label)
  | never (label : Label)
  | all (label : Label) (parts : List (Condition χ))
  | any (label : Label) (parts : List (Condition χ))
  | negation (label : Label) (inner : Condition χ)
  | hasEnemies (label : Label) (count : UInt64)
  | filter (label : Label) (filters : List (Filter χ))
  | custom (label : Label) (test : Predicate χ)

namespace Condition

variable {χ : Type}

/-! ## Plain conditions, shown under the name of their kind -/

/-- The trivial guard. -/
def trivial : Condition χ := always { name := "True" }

/-- The guard that never holds. -/
def impossible : Condition χ := never { name := "False" }

/-- All of at least two conditions. -/
def and? (cs : List (Condition χ)) : Option (Condition χ) :=
  if cs.length < 2 then none else some (all { name := "And" } cs)

/-- One of at least two conditions. -/
def or? (cs : List (Condition χ)) : Option (Condition χ) :=
  if cs.length < 2 then none else some (any { name := "Or" } cs)

def not (c : Condition χ) : Condition χ := negation { name := "Not" } c

def enemies (count : UInt64) : Condition χ :=
  hasEnemies { name := "HasEnemies", parameters := toString count.toNat } count

def selects (fs : List (Filter χ)) : Condition χ := filter { name := "Filter" } fs

instance : Inhabited (Condition χ) := ⟨trivial⟩

/-! ## Labels and texts -/

def label : Condition χ → Label
  | always l | never l | all l _ | any l _ | negation l _ | hasEnemies l _ | filter l _ | custom l _ => l

/-- The same condition under another label. -/
def relabel (l : Label) : Condition χ → Condition χ
  | always _ => always l
  | never _ => never l
  | all _ cs => all l cs
  | any _ cs => any l cs
  | negation _ c => negation l c
  | hasEnemies _ n => hasEnemies l n
  | filter _ fs => filter l fs
  | custom _ t => custom l t

/-- Whether the condition is the one that always holds. -/
def isAlways : Condition χ → Bool
  | always _ => true
  | _ => false

/-- The conditions that a condition is made of. -/
def parts : Condition χ → List (Condition χ)
  | all _ cs | any _ cs => cs
  | negation _ c => [c]
  | _ => []

mutual

/-- The name with the parts in parentheses, or the label of a condition without parts. -/
def text : Condition χ → String
  | always l | never l | hasEnemies l _ | custom l _ => l.text
  | all l cs | any l cs => l.name ++ "(" ++ texts cs ++ ")"
  | negation l c => l.name ++ "(" ++ c.text ++ ")"
  | filter l fs => l.name ++ "(" ++ String.intercalate "," (fs.map Filter.text) ++ ")"

/-- The texts of several conditions, with commas between them. -/
def texts : List (Condition χ) → String
  | [] => ""
  | c :: cs => c.text ++ textRest cs

/-- Further conditions, each after a comma. -/
def textRest : List (Condition χ) → String
  | [] => ""
  | c :: cs => "," ++ c.text ++ textRest cs

end

/-! ## Evaluation -/

variable [Character χ]

/-- Runs the filters on an empty list while the filtered entities are taken away, and leaves the list as
the new filtered entities; holds if somebody was selected. -/
def evaluateFilters (scene : Scene) (board : Blackboard) (fs : List (Filter χ)) (w : Watch χ) :
    Bool × Watch χ :=
  let (out, c) := Filter.applyAll scene board fs { w with filtered := [] } []
  (!out.isEmpty, ⟨c, out⟩)

mutual

/-- Whether the condition holds, and what evaluating it leaves behind. -/
def evaluate (scene : Scene) (board : Blackboard) : Condition χ → Watch χ → Bool × Watch χ
  | always _, w => (true, w)
  | never _, w => (false, w)
  | all _ cs, w => evaluateAll scene board cs w
  | any _ cs, w => evaluateAny scene board cs w
  | negation _ c, w =>
    let (b, w) := evaluate scene board c w
    (!b, w)
  | hasEnemies _ n, w => (n.toNat ≤ (Character.enemies w.character).length, w)
  | filter _ fs, w => evaluateFilters scene board fs w
  | custom _ test, w => test scene board w

/-- Evaluates up to the first condition that does not hold. -/
def evaluateAll (scene : Scene) (board : Blackboard) : List (Condition χ) → Watch χ → Bool × Watch χ
  | [], w => (true, w)
  | c :: cs, w =>
    match evaluate scene board c w with
    | (true, w) => evaluateAll scene board cs w
    | (false, w) => (false, w)

/-- Evaluates up to the first condition that holds. -/
def evaluateAny (scene : Scene) (board : Blackboard) : List (Condition χ) → Watch χ → Bool × Watch χ
  | [], w => (false, w)
  | c :: cs, w =>
    match evaluate scene board c w with
    | (true, w) => (true, w)
    | (false, w) => evaluateAny scene board cs w

end

end Condition

end Behavior
