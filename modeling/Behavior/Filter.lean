import Behavior.Blackboard
import Behavior.Character
import Behavior.Label
import Behavior.Random.Shuffle
/-!
# Filters

A filter selects entities. It appends what it selects to a list of selected entities; the filters that
wrap others collect what each of those selects on its own and combine the results.
-/

namespace Behavior

/-- A selection by the game: the new list of selected entities and the state of the character. -/
abbrev Selector (χ : Type) := Scene → Blackboard → Watch χ → List EntityId → List EntityId × χ

/-- Filters; each carries the label it is shown under. -/
inductive Filter (χ : Type) where
  /-- Drops everything selected so far. -/
  | selectEmpty (label : Label)
  /-- Every other entity of the zone. -/
  | selectAll (label : Label)
  /-- The enemy with the highest aggro. -/
  | selectHighestAggro (label : Label)
  | first (label : Label) (inner : Filter χ)
  | last (label : Label) (inner : Filter χ)
  /-- At most `amount` entities, in random order. -/
  | random (label : Label) (amount : UInt64) (inner : Filter χ)
  | union (label : Label) (parts : List (Filter χ))
  | intersection (label : Label) (parts : List (Filter χ))
  /-- What the first part selects and no later part does. -/
  | difference (label : Label) (parts : List (Filter χ))
  | custom (label : Label) (select : Selector χ)

namespace Filter

variable {χ : Type}

/-! ## Plain filters, shown under the name of their kind -/

def nobody : Filter χ := selectEmpty { name := "SelectEmpty" }

def everybody : Filter χ := selectAll { name := "SelectAll" }

def highestAggro : Filter χ := selectHighestAggro { name := "SelectHighestAggro" }

def firstOf (f : Filter χ) : Filter χ := first { name := "First" } f

def lastOf (f : Filter χ) : Filter χ := last { name := "Last" } f

def randomOf (amount : UInt64) (f : Filter χ) : Filter χ :=
  random { name := "Random", parameters := toString amount.toNat } amount f

/-- The entities that any of the filters selects. -/
def unionOf (fs : List (Filter χ)) : Filter χ := union { name := "Union" } fs

/-- The entities that all of the filters select. -/
def intersectionOf (fs : List (Filter χ)) : Filter χ := intersection { name := "Intersection" } fs

/-- The entities that only the first of the filters selects. -/
def differenceOf (fs : List (Filter χ)) : Filter χ := difference { name := "Difference" } fs

/-! ## Labels and texts -/

def label : Filter χ → Label
  | selectEmpty l | selectAll l | selectHighestAggro l | first l _ | last l _ | random l _ _
  | union l _ | intersection l _ | difference l _ | custom l _ => l

/-- The same filter under another label. -/
def relabel (l : Label) : Filter χ → Filter χ
  | selectEmpty _ => selectEmpty l
  | selectAll _ => selectAll l
  | selectHighestAggro _ => selectHighestAggro l
  | first _ f => first l f
  | last _ f => last l f
  | random _ n f => random l n f
  | union _ fs => union l fs
  | intersection _ fs => intersection l fs
  | difference _ fs => difference l fs
  | custom _ s => custom l s

/-- The filters that a filter wraps. -/
def parts : Filter χ → List (Filter χ)
  | first _ f | last _ f | random _ _ f => [f]
  | union _ fs | intersection _ fs | difference _ fs => fs
  | _ => []

mutual

/-- The label's text, followed by the wrapped filters in parentheses when there are any. -/
def text : Filter χ → String
  | selectEmpty l | selectAll l | selectHighestAggro l | custom l _ => l.text
  | first l f | last l f | random l _ f => l.text ++ "(" ++ f.text ++ ")"
  | union l fs | intersection l fs | difference l fs =>
    match fs with
    | [] => l.text
    | f :: fs => l.text ++ "(" ++ f.text ++ textRest fs ++ ")"

/-- Further filters, each after a comma. -/
def textRest : List (Filter χ) → String
  | [] => ""
  | f :: fs => "," ++ f.text ++ textRest fs

end

/-! ## Selection -/

/-- Adds the entities that are not yet there. -/
def merge (merged : List EntityId) (es : List EntityId) : List EntityId :=
  es.foldl (fun acc e => if acc.contains e then acc else acc ++ [e]) merged

/-- The stream of random choices of a filter that picks `amount` entities. -/
def randomStream (amount : UInt64) : UInt64 := mix (0x5E1EC7ED ^^^ amount)

/-- A random choice of at most `amount` of the entities. -/
def pick (scene : Scene) (amount : UInt64) (es : List EntityId) : List EntityId :=
  ((scene.tick.generator scene.entity (randomStream amount)).shuffle es).1.take amount.toNat

variable [Character χ]

mutual

/-- Appends what a filter selects to `out`; the second result is the state of the character after it. -/
def apply (scene : Scene) (board : Blackboard) : Filter χ → Watch χ → List EntityId → List EntityId × χ
  | selectEmpty _, w, _ => ([], w.character)
  | selectAll _, w, out =>
    match scene.zone with
    | some zone => (out ++ zone.ids.filter (· != scene.entity), w.character)
    | none => (out, w.character)
  | selectHighestAggro _, w, out => (out ++ (Character.enemies w.character).take 1, w.character)
  | first _ f, w, out =>
    let (es, c) := apply scene board f w []
    (out ++ es.take 1, c)
  | last _ f, w, out =>
    let (es, c) := apply scene board f w []
    (out ++ es.getLast?.toList, c)
  | random _ n f, w, out =>
    let (es, c) := apply scene board f w []
    (out ++ pick scene n es, c)
  | union _ fs, w, out =>
    let (es, c) := applyUnion scene board fs w []
    (out ++ es, c)
  | intersection _ fs, w, out =>
    match fs with
    | [] => (out, w.character)
    | f :: fs =>
      let (es, c) := apply scene board f w []
      let (es, c) := applyRetain scene board true fs { w with character := c } (merge [] es)
      (out ++ es, c)
  | difference _ fs, w, out =>
    match fs with
    | [] => (out, w.character)
    | f :: fs =>
      let (es, c) := apply scene board f w []
      let (es, c) := applyRetain scene board false fs { w with character := c } (merge [] es)
      (out ++ es, c)
  | custom _ select, w, out => select scene board w out

/-- Merges what each filter selects on its own into `merged`. -/
def applyUnion (scene : Scene) (board : Blackboard) :
    List (Filter χ) → Watch χ → List EntityId → List EntityId × χ
  | [], w, merged => (merged, w.character)
  | f :: fs, w, merged =>
    let (es, c) := apply scene board f w []
    applyUnion scene board fs { w with character := c } (merge merged es)

/-- Keeps of `kept` what each filter selects (`keep`), or what none of them selects. -/
def applyRetain (scene : Scene) (board : Blackboard) (keep : Bool) :
    List (Filter χ) → Watch χ → List EntityId → List EntityId × χ
  | [], w, kept => (kept, w.character)
  | f :: fs, w, kept =>
    let (es, c) := apply scene board f w []
    applyRetain scene board keep fs { w with character := c } (kept.filter (es.contains · == keep))

end

/-- Applies filters one after another to the same list. -/
def applyAll (scene : Scene) (board : Blackboard) :
    List (Filter χ) → Watch χ → List EntityId → List EntityId × χ
  | [], w, out => (out, w.character)
  | f :: fs, w, out =>
    let (out, c) := f.apply scene board w out
    applyAll scene board fs { w with character := c } out

end Filter

end Behavior
