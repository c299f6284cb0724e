import Behavior.Condition
import Behavior.Proofs.Filter
/-!
# What conditions leave in the cache

Evaluating a condition from left to right, as far as needed, comes by some filter conditions. What they select, in that
order, is its course (`Condition.course`). Main statement: a condition comes to the verdict of its course, and leaves in
the cache what the last filter condition of the course selected, if there was any (`Condition.evaluate_eq`).
-/

namespace Behavior

variable {χ : Type}

/-! ## Tests by the game -/

/-- The test neither reads nor writes the cache. -/
def Predicate.IgnoresCache (test : Predicate χ) : Prop :=
  ∀ scene board c es, test scene board ⟨c, es⟩ =
    ((test scene board ⟨c, []⟩).1, ⟨(test scene board ⟨c, []⟩).2.character, es⟩)

/-- The test leaves no mark on the character. -/
def Predicate.Unmarking (test : Predicate χ) : Prop := ∀ scene board w, (test scene board w).2.character = w.character

/-- What is in the cache after these selections, of which each takes the place of the one before. -/
def latest (selections : List (List EntityId)) (cache : List EntityId) : List EntityId := selections.getLast?.getD cache

@[simp] theorem latest_nil {cache : List EntityId} : latest [] cache = cache := rfl

@[simp] theorem latest_singleton {es cache : List EntityId} : latest [es] cache = es := rfl

theorem latest_append {ss ss' : List (List EntityId)} {cache : List EntityId} :
    latest (ss ++ ss') cache = latest ss' (latest ss cache) := by
  simp only [latest, List.getLast?_append]
  cases ss'.getLast? <;> rfl

namespace Condition

mutual

/-- Every test by the game in a condition has the property, and every selection by the game the other one. -/
def Each (P : Predicate χ → Prop) (Q : Selector χ → Prop) : Condition χ → Prop
  | always _ | never _ | hasEnemies _ _ => True
  | all _ cs | any _ cs => EachAll P Q cs
  | negation _ c => c.Each P Q
  | filter _ fs => ∀ f ∈ fs, f.EachSelector Q
  | custom _ test => P test

def EachAll (P : Predicate χ → Prop) (Q : Selector χ → Prop) : List (Condition χ) → Prop
  | [] => True
  | c :: cs => c.Each P Q ∧ EachAll P Q cs

end

/-- No test by the game reads or writes the cache. Selections by the game find it empty and cannot write it. -/
abbrev IgnoresCache (c : Condition χ) : Prop := c.Each Predicate.IgnoresCache fun _ => True

/-- Neither a test nor a selection by the game leaves a mark on the character. -/
abbrev Unmarking (c : Condition χ) : Prop := c.Each Predicate.Unmarking Selector.Unmarking

/-! ## The course of an evaluation -/

/-- What evaluating a condition comes to: whether it holds, the state of the character after it, and what the filter
conditions that were evaluated selected, one after another. -/
structure Course (χ : Type) where
  holds : Bool
  character : χ
  selections : List (List EntityId) := []

/-- The course after these selections. -/
def Course.after (selections : List (List EntityId)) (r : Course χ) : Course χ :=
  { r with selections := selections ++ r.selections }

variable [Character χ]

section

variable (scene : Scene) (board : Blackboard)

mutual

/-- The course of a condition for a character in this state. There is no cache for it to read. -/
def course : Condition χ → χ → Course χ
  | always _, c => { holds := true, character := c }
  | never _, c => { holds := false, character := c }
  | all _ ks, c => courseAll ks c
  | any _ ks, c => courseAny ks c
  | negation _ k, c => { k.course c with holds := !(k.course c).holds }
  | hasEnemies _ n, c => { holds := n.toNat ≤ (Character.enemies c).length, character := c }
  | filter _ fs, c =>
    let (es, c) := Filter.applyAll scene board fs ⟨c, []⟩ []
    { holds := !es.isEmpty, character := c, selections := [es] }
  | custom _ test, c =>
    let (holds, w) := test scene board ⟨c, []⟩
    { holds, character := w.character }

/-- The first condition that does not hold ends the course. -/
def courseAll : List (Condition χ) → χ → Course χ
  | [], c => { holds := true, character := c }
  | k :: ks, c =>
    let r := k.course c
    if r.holds then (courseAll ks r.character).after r.selections else r

/-- The first condition that holds ends the course. -/
def courseAny : List (Condition χ) → χ → Course χ
  | [], c => { holds := false, character := c }
  | k :: ks, c =>
    let r := k.course c
    if r.holds then r else (courseAny ks r.character).after r.selections

end

end

/-- What a course brings about where this was in the cache. -/
def Course.outcome (r : Course χ) (cache : List EntityId) : Bool × Watch χ :=
  (r.holds, ⟨r.character, latest r.selections cache⟩)

variable {scene : Scene} {board : Blackboard}

omit [Character χ] in
theorem Course.outcome_after {r : Course χ} {selections : List (List EntityId)} {cache : List EntityId} :
    (r.after selections).outcome cache = r.outcome (latest selections cache) := by
  rw [outcome, outcome, after, latest_append]

mutual

/-- A condition comes to the verdict of its course, whatever is in the cache, and leaves there what the course selected
last. -/
theorem evaluate_eq : (k : Condition χ) → k.IgnoresCache → (w : Watch χ) →
    k.evaluate scene board w = (k.course scene board w.character).outcome w.filtered
  | always _, _, _ | never _, _, _ | hasEnemies _ _, _, _ => rfl
  | all _ ks, h, w => evaluateAll_eq ks h w
  | any _ ks, h, w => evaluateAny_eq ks h w
  | negation _ k, h, w => by
      simp only [evaluate, course, evaluate_eq k h w]
      rfl
  | filter _ fs, _, w => rfl
  | custom _ test, h, w => h scene board w.character w.filtered

theorem evaluateAll_eq : (ks : List (Condition χ)) → EachAll Predicate.IgnoresCache (fun _ => True) ks → (w : Watch χ) →
    evaluateAll scene board ks w = (courseAll scene board ks w.character).outcome w.filtered
  | [], _, _ => rfl
  | k :: ks, h, w => by
      rw [evaluateAll, courseAll, evaluate_eq k h.1 w]
      cases hk : (k.course scene board w.character).holds with
      | true =>
          rw [if_pos rfl, Course.outcome_after, Course.outcome, hk]
          exact evaluateAll_eq ks h.2 _
      | false => simp [Course.outcome, hk]

theorem evaluateAny_eq : (ks : List (Condition χ)) → EachAll Predicate.IgnoresCache (fun _ => True) ks → (w : Watch χ) →
    evaluateAny scene board ks w = (courseAny scene board ks w.character).outcome w.filtered
  | [], _, _ => rfl
  | k :: ks, h, w => by
      rw [evaluateAny, courseAny, evaluate_eq k h.1 w]
      cases hk : (k.course scene board w.character).holds with
      | true => simp [Course.outcome, hk]
      | false =>
          rw [if_neg Bool.false_ne_true, Course.outcome_after, Course.outcome, hk]
          exact evaluateAny_eq ks h.2 _

end

/-! ## The character -/

mutual

theorem character_course : (k : Condition χ) → k.Unmarking → (c : χ) → (k.course scene board c).character = c
  | always _, _, _ | never _, _, _ | hasEnemies _ _, _, _ => rfl
  | all _ ks, h, c => character_courseAll ks h c
  | any _ ks, h, c => character_courseAny ks h c
  | negation _ k, h, c => character_course k h c
  | filter _ _, h, _ => Filter.character_applyAll h
  | custom _ _, h, c => h scene board ⟨c, []⟩

theorem character_courseAll : (ks : List (Condition χ)) → EachAll Predicate.Unmarking Selector.Unmarking ks → (c : χ) →
    (courseAll scene board ks c).character = c
  | [], _, _ => rfl
  | k :: ks, h, c => by
      have hk : (k.course scene board c).character = c := character_course k h.1 c
      rw [courseAll, hk]
      split
      · exact character_courseAll ks h.2 c
      · exact hk

theorem character_courseAny : (ks : List (Condition χ)) → EachAll Predicate.Unmarking Selector.Unmarking ks → (c : χ) →
    (courseAny scene board ks c).character = c
  | [], _, _ => rfl
  | k :: ks, h, c => by
      have hk : (k.course scene board c).character = c := character_course k h.1 c
      rw [courseAny, hk]
      split
      · exact hk
      · exact character_courseAny ks h.2 c

end

/-! ## Filter conditions -/

theorem course_filter {l : Label} {fs : List (Filter χ)} (h : ∀ f ∈ fs, f.Fixed) (c : χ) :
    let es := (fs.rtakeWhile fun f => !f.empties).flatMap (·.output scene board ⟨c, []⟩)
    (filter l fs).course scene board c = { holds := !es.isEmpty, character := c, selections := [es] } := by
  simp only [course, Filter.applyAll_eq h]

end Condition

end Behavior
