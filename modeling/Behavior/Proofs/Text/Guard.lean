import Behavior.Condition
import Behavior.Proofs.Decimal.Natural
import Behavior.Proofs.Text.Term
/-!
# The texts of guards

Conditions and filters are shown as terms. Main statement: what is put together from the conditions and filters of the
library, without tests and selections by the game, can be told by its text (`Condition.eq_of_text_eq`).
-/

namespace Behavior

variable {χ : Type}

theorem Label.legible_counted {name : String} (hname : isWord name = true) (n : UInt64) :
    Legible { name, parameters := toString n.toNat } :=
  legible_of_isWord hname fun _ hc => Decimal.isDigit_of_mem_toDigits (by rwa [Decimal.toList_toString] at hc)

theorem toNat_inj_of_toString {m n : UInt64} (h : toString m.toNat = toString n.toNat) : m = n :=
  UInt64.toNat_inj.mp (Decimal.toString_inj h)

/-! ## Filters -/

namespace Filter

mutual

def term : Filter χ → Term
  | selectEmpty l | selectAll l | selectHighestAggro l | custom l _ => .branch l []
  | first l f | last l f | random l _ f => .branch l [f.term]
  | union l fs | intersection l fs | difference l fs => .branch l (terms fs)

def terms : List (Filter χ) → List Term
  | [] => []
  | f :: fs => f.term :: terms fs

end

theorem terms_eq {fs : List (Filter χ)} : terms fs = fs.map term := by
  induction fs with
  | nil => rfl
  | cons f fs ih => rw [terms, ih, List.map_cons]

mutual

theorem toList_text : (f : Filter χ) → f.text.toList = f.term.spell
  | selectEmpty _ | selectAll _ | selectHighestAggro _ | custom _ _ => rfl
  | first l f | last l f | random l _ f => by
      simp [text, term, Term.branch, Term.spell, Term.spellParts, Term.spellRest, toList_text f]
  | union l [] | intersection l [] | difference l [] => rfl
  | union l (f :: fs) | intersection l (f :: fs) | difference l (f :: fs) => by
      have hrest := toList_textRest fs
      simp [text, term, terms, Term.branch, Term.spell, Term.spellParts, toList_text f, ← hrest]

theorem toList_textRest : (fs : List (Filter χ)) → (textRest fs).toList ++ [')'] = Term.spellRest (terms fs)
  | [] => rfl
  | f :: fs => by
      rw [textRest, terms, Term.spellRest, ← toList_text f, ← toList_textRest fs]
      simp

end

theorem intercalate_text {f : Filter χ} {fs : List (Filter χ)} :
    String.intercalate "," ((f :: fs).map text) = f.text ++ textRest fs := by
  induction fs generalizing f with
  | nil => simp [textRest]
  | cons g gs ih =>
      rw [List.map_cons, List.map_cons, String.intercalate_cons_cons, ← List.map_cons, ih, textRest]
      simp only [String.append_assoc]

/-- Put together from the filters of the library. -/
inductive Builtin : Filter χ → Prop
  | nobody : Builtin nobody
  | everybody : Builtin everybody
  | highestAggro : Builtin highestAggro
  | firstOf {f : Filter χ} (hf : Builtin f) : Builtin (firstOf f)
  | lastOf {f : Filter χ} (hf : Builtin f) : Builtin (lastOf f)
  | randomOf (n : UInt64) {f : Filter χ} (hf : Builtin f) : Builtin (randomOf n f)
  | unionOf {fs : List (Filter χ)} (hfs : ∀ f ∈ fs, Builtin f) : Builtin (unionOf fs)
  | intersectionOf {fs : List (Filter χ)} (hfs : ∀ f ∈ fs, Builtin f) : Builtin (intersectionOf fs)
  | differenceOf {fs : List (Filter χ)} (hfs : ∀ f ∈ fs, Builtin f) : Builtin (differenceOf fs)

variable {f g : Filter χ}

theorem Builtin.legible (hf : f.Builtin) : f.term.Legible := by
  induction hf with
  | nobody | everybody | highestAggro => exact Term.legible_branch (Label.legible_word rfl) (by simp)
  | firstOf _ ih | lastOf _ ih => exact Term.legible_branch (Label.legible_word rfl) (by simpa using ih)
  | randomOf n _ ih => exact Term.legible_branch (Label.legible_counted rfl n) (by simpa using ih)
  | unionOf _ ih | intersectionOf _ ih | differenceOf _ ih =>
      refine Term.legible_branch (Label.legible_word rfl) ?_
      simpa [terms_eq] using ih

theorem eq_of_terms_eq {fs gs : List (Filter χ)}
    (h : ∀ f ∈ fs, ∀ {g : Filter χ}, g.Builtin → f.term = g.term → f = g) (hgs : ∀ g ∈ gs, g.Builtin)
    (hterms : terms fs = terms gs) : fs = gs := by
  rw [terms_eq, terms_eq] at hterms
  exact Term.map_inj_of_forall (fun f hf _ => h f hf) hgs hterms

/-- The label tells the kind. -/
theorem Builtin.term_inj (hf : f.Builtin) (hg : g.Builtin) (h : f.term = g.term) : f = g := by
  induction hf generalizing g with
  | nobody => cases hg with
    | nobody => rfl
    | _ => simpa using (Term.branch_inj h).1
  | everybody => cases hg with
    | everybody => rfl
    | _ => simpa using (Term.branch_inj h).1
  | highestAggro => cases hg with
    | highestAggro => rfl
    | _ => simpa using (Term.branch_inj h).1
  | firstOf _ ih => cases hg with
    | firstOf hg => exact congrArg Filter.firstOf (ih hg (List.singleton_inj.mp (Term.branch_inj h).2))
    | _ => simpa using (Term.branch_inj h).1
  | lastOf _ ih => cases hg with
    | lastOf hg => exact congrArg Filter.lastOf (ih hg (List.singleton_inj.mp (Term.branch_inj h).2))
    | _ => simpa using (Term.branch_inj h).1
  | randomOf n _ ih => cases hg with
    | randomOf m hg =>
        obtain ⟨hlabel, hparts⟩ := Term.branch_inj h
        rw [toNat_inj_of_toString (Label.mk.inj hlabel).2, ih hg (List.singleton_inj.mp hparts)]
    | _ => simpa using (Term.branch_inj h).1
  | unionOf _ ih => cases hg with
    | unionOf hgs => exact congrArg Filter.unionOf (eq_of_terms_eq ih hgs (Term.branch_inj h).2)
    | _ => simpa using (Term.branch_inj h).1
  | intersectionOf _ ih => cases hg with
    | intersectionOf hgs => exact congrArg Filter.intersectionOf (eq_of_terms_eq ih hgs (Term.branch_inj h).2)
    | _ => simpa using (Term.branch_inj h).1
  | differenceOf _ ih => cases hg with
    | differenceOf hgs => exact congrArg Filter.differenceOf (eq_of_terms_eq ih hgs (Term.branch_inj h).2)
    | _ => simpa using (Term.branch_inj h).1

end Filter

/-! ## Conditions -/

namespace Condition

mutual

def term : Condition χ → Term
  | always l | never l | hasEnemies l _ | custom l _ => .plain l
  | all l cs | any l cs => .applied { name := l.name } (terms cs)
  | negation l c => .applied { name := l.name } [c.term]
  | filter l fs => .applied { name := l.name } (fs.map Filter.term)

def terms : List (Condition χ) → List Term
  | [] => []
  | c :: cs => c.term :: terms cs

end

@[simp] theorem term_trivial : (trivial : Condition χ).term = .plain { name := "True" } := rfl

@[simp] theorem term_impossible : (impossible : Condition χ).term = .plain { name := "False" } := rfl

@[simp] theorem term_not {c : Condition χ} : c.not.term = .applied { name := "Not" } [c.term] := rfl

@[simp] theorem term_enemies {n : UInt64} :
    (enemies n : Condition χ).term = .plain { name := "HasEnemies", parameters := toString n.toNat } := rfl

@[simp] theorem term_selects {fs : List (Filter χ)} :
    (selects fs).term = .applied { name := "Filter" } (fs.map Filter.term) := rfl

theorem terms_eq {cs : List (Condition χ)} : terms cs = cs.map term := by
  induction cs with
  | nil => rfl
  | cons c cs ih => rw [terms, ih, List.map_cons]

mutual

theorem toList_text : (c : Condition χ) → c.text.toList = c.term.spell
  | always _ | never _ | hasEnemies _ _ | custom _ _ => rfl
  | all l cs | any l cs => by
      simp [text, term, Term.spell, ← toList_texts cs, Label.text]
  | negation l c => by
      simp [text, term, Term.spell, Term.spellParts, Term.spellRest, toList_text c, Label.text]
  | filter l [] => by
      simp [text, term, Term.spell, Term.spellParts, Label.text]
  | filter l (f :: fs) => by
      have hrest := Filter.toList_textRest fs
      rw [Filter.terms_eq] at hrest
      rw [text, Filter.intercalate_text]
      simp [term, Term.spell, Term.spellParts, Label.text, Filter.toList_text, ← hrest]

theorem toList_texts : (cs : List (Condition χ)) → (texts cs).toList ++ [')'] = Term.spellParts (terms cs)
  | [] => rfl
  | c :: cs => by
      rw [texts, terms, Term.spellParts, ← toList_text c, ← toList_textRest cs]
      simp

theorem toList_textRest : (cs : List (Condition χ)) → (textRest cs).toList ++ [')'] = Term.spellRest (terms cs)
  | [] => rfl
  | c :: cs => by
      rw [textRest, terms, Term.spellRest, ← toList_text c, ← toList_textRest cs]
      simp

end

/-- Put together from the conditions of the library, and their filters from the filters of the library. -/
inductive Builtin : Condition χ → Prop
  | trivial : Builtin trivial
  | impossible : Builtin impossible
  | all {cs : List (Condition χ)} (two : 2 ≤ cs.length) (hcs : ∀ c ∈ cs, Builtin c) : Builtin (all { name := "And" } cs)
  | any {cs : List (Condition χ)} (two : 2 ≤ cs.length) (hcs : ∀ c ∈ cs, Builtin c) : Builtin (any { name := "Or" } cs)
  | not {c : Condition χ} (hc : Builtin c) : Builtin (not c)
  | enemies (n : UInt64) : Builtin (enemies n)
  | selects {fs : List (Filter χ)} (hfs : ∀ f ∈ fs, f.Builtin) : Builtin (selects fs)

variable {c d : Condition χ} {cs : List (Condition χ)}

theorem Builtin.of_parts (hcs : ∀ c ∈ cs, c.Builtin) (h : and? cs = some c ∨ or? cs = some c) : c.Builtin := by
  unfold and? or? at h
  by_cases hlen : cs.length < 2
  · simp [hlen] at h
  · rw [if_neg hlen, if_neg hlen] at h
    obtain h | h := h
    · cases h
      exact .all (by omega) hcs
    · cases h
      exact .any (by omega) hcs

theorem Builtin.legible (hc : c.Builtin) : c.term.Legible := by
  induction hc with
  | trivial | impossible => exact Label.legible_word rfl
  | all _ _ ih | any _ _ ih =>
      exact ⟨Label.legible_word rfl, Term.allLegible_iff.mpr (by simpa [terms_eq] using ih)⟩
  | not _ ih => exact ⟨Label.legible_word rfl, Term.allLegible_iff.mpr (by simpa using ih)⟩
  | enemies n => exact Label.legible_counted rfl n
  | selects hfs =>
      exact ⟨Label.legible_word rfl, Term.allLegible_iff.mpr (by simpa using fun f hf => (hfs f hf).legible)⟩

theorem eq_of_terms_eq {ds : List (Condition χ)}
    (h : ∀ c ∈ cs, ∀ {d : Condition χ}, d.Builtin → c.term = d.term → c = d) (hds : ∀ d ∈ ds, d.Builtin)
    (hterms : terms cs = terms ds) : cs = ds := by
  rw [terms_eq, terms_eq] at hterms
  exact Term.map_inj_of_forall (fun c hc _ => h c hc) hds hterms

theorem Builtin.term_inj (hc : c.Builtin) (hd : d.Builtin) (h : c.term = d.term) : c = d := by
  induction hc generalizing d with
  | trivial => cases hd with
    | trivial => rfl
    | _ => simp [term] at h
  | impossible => cases hd with
    | impossible => rfl
    | _ => simp [term] at h
  | all _ _ ih => cases hd with
    | all _ hds => exact congrArg _ (eq_of_terms_eq ih hds (Term.applied.inj h).2)
    | _ => simp [term] at h
  | any _ _ ih => cases hd with
    | any _ hds => exact congrArg _ (eq_of_terms_eq ih hds (Term.applied.inj h).2)
    | _ => simp [term] at h
  | not _ ih => cases hd with
    | not hd => exact congrArg Condition.not (ih hd (List.singleton_inj.mp (Term.applied.inj h).2))
    | _ => simp [term] at h
  | enemies n => cases hd with
    | enemies m => rw [toNat_inj_of_toString (Label.mk.inj (Term.plain.inj h)).2]
    | _ => simp [term] at h
  | selects hfs => cases hd with
    | selects hgs =>
        have hparts := (Term.applied.inj h).2
        exact congrArg Condition.selects
          (Term.map_inj_of_forall (fun f hf _ hg => (hfs f hf).term_inj hg) hgs hparts)
    | _ => simp [term] at h

/-- A text shows one condition at most, which has one value and one effect then. -/
theorem eq_of_text_eq (hc : c.Builtin) (hd : d.Builtin) (h : c.text = d.text) :
    c = d ∧ ∀ [Character χ] (scene : Scene) (board : Blackboard) (w : Watch χ),
      c.evaluate scene board w = d.evaluate scene board w := by
  have hspell : c.term.spell ++ [] = d.term.spell ++ [] := by rw [← toList_text, ← toList_text, h]
  have hend : Term.Closes [] := nofun
  obtain rfl := hc.term_inj hd (Term.spell_inj _ _ hc.legible hd.legible hend hend hspell).1
  exact ⟨rfl, fun _ _ _ => rfl⟩

/-- Parts in parts, and filters that wrap several filters or none. -/
def nested : Condition Unit :=
  all { name := "And" } [not (enemies 3), selects [.randomOf 12 (.unionOf [.everybody, .differenceOf []]), .nobody]]

example :
    nested.text = "And(Not(HasEnemies\x7b3\x7d),Filter(Random\x7b12\x7d(Union(SelectAll,Difference)),SelectEmpty))" :=
  rfl

theorem builtin_nested : nested.Builtin := by
  have hunion : (Filter.unionOf [.everybody, .differenceOf []] : Filter Unit).Builtin :=
    .unionOf (by simpa using ⟨.everybody, .differenceOf (by simp)⟩)
  have hparts : and? [not (enemies 3), selects [.randomOf 12 (.unionOf [.everybody, .differenceOf []]), .nobody]] =
    some nested := rfl
  exact .of_parts (by simpa using ⟨.not (.enemies 3), .selects (by simpa using ⟨.randomOf 12 hunion, .nobody⟩)⟩)
    (.inl hparts)

theorem eq_of_text_eq_nested :
    nested.Builtin ∧ (nested.relabel { name := "And" }).Builtin ∧
    nested.text = (nested.relabel { name := "And" }).text ∧
    (nested = nested.relabel { name := "And" } ∧
      ∀ [Character Unit] (scene : Scene) (board : Blackboard) (w : Watch Unit),
        nested.evaluate scene board w = (nested.relabel { name := "And" }).evaluate scene board w) :=
  ⟨builtin_nested, builtin_nested, rfl, eq_of_text_eq builtin_nested builtin_nested rfl⟩

end Condition

end Behavior
