import Behavior.Label
/-!
# Terms

The form of the texts that conditions and filters are shown as: a label, and behind it the parts in parentheses, with
commas between them. Main statement: a term can be read off a text that begins with it, as long as names are letters and
parameters are digits (`Term.spell_inj`).
-/

namespace Behavior

variable {xs ys as bs : List Char}

/-- Equal texts that begin with as many characters of a kind as they can begin with the same ones. -/
theorem append_inj_of_kind {p : Char → Bool} (ha : ∀ c ∈ as, p c = true) (hb : ∀ c ∈ bs, p c = true)
    (hx : ∀ c ∈ xs.head?, p c = false) (hy : ∀ c ∈ ys.head?, p c = false) (h : as ++ xs = bs ++ ys) :
    as = bs ∧ xs = ys := by
  have hstop {zs : List Char} (hz : ∀ c ∈ zs.head?, p c = false) : zs.takeWhile p = [] := by
    cases zs with
    | nil => rfl
    | cons z zs => rw [List.takeWhile_cons_of_neg (by simp [hz z rfl])]
  have htake := congrArg (List.takeWhile p) h
  rw [List.takeWhile_append_of_pos ha, List.takeWhile_append_of_pos hb, hstop hx, hstop hy, List.append_nil,
    List.append_nil] at htake
  subst htake
  exact ⟨rfl, List.append_cancel_left h⟩

/-! ## Labels -/

namespace Label

variable {l m : Label}

/-- The name is a word of letters, and the parameters are digits if there are any. -/
structure Legible (l : Label) : Prop where
  named : l.name.toList ≠ []
  letters : ∀ c ∈ l.name.toList, c.isAlpha = true
  digits : ∀ c ∈ l.parameters.toList, c.isDigit = true

/-- Whether a name is a word of letters. -/
def isWord (name : String) : Bool := !name.toList.isEmpty && name.toList.all Char.isAlpha

theorem legible_of_isWord {name parameters : String} (hname : isWord name = true)
    (digits : ∀ c ∈ parameters.toList, c.isDigit = true) : Legible { name, parameters } := by
  simp only [isWord, Bool.and_eq_true, List.all_eq_true, Bool.not_eq_true', List.isEmpty_eq_false_iff] at hname
  exact ⟨hname.1, hname.2, digits⟩

theorem legible_word {name : String} (hname : isWord name = true) : Legible { name } :=
  legible_of_isWord hname nofun

/-- What follows the name. -/
def braces (l : Label) : List Char :=
  match l.parameters.toList with
  | [] => []
  | ps => '{' :: (ps ++ ['}'])

theorem toList_text : l.text.toList = l.name.toList ++ l.braces := by
  rw [text, braces]
  by_cases h : l.parameters = ""
  · simp [h]
  · have hne : l.parameters.toList ≠ [] := by simpa using h
    obtain ⟨p, ps, hps⟩ := List.exists_cons_of_ne_nil hne
    simp [h, hps]

/-- No label goes on like this. -/
def Ends (xs : List Char) : Prop := ∀ c ∈ xs.head?, c.isAlpha = false ∧ c ≠ '{'

theorem Ends.braces_append (hx : Ends xs) : ∀ c ∈ (l.braces ++ xs).head?, c.isAlpha = false := by
  unfold braces
  cases l.parameters.toList with
  | nil => exact fun c hc => (hx c hc).1
  | cons p ps =>
      rintro c ⟨⟩
      rfl

theorem braces_inj (hl : l.Legible) (hm : m.Legible) (hx : Ends xs) (hy : Ends ys)
    (h : l.braces ++ xs = m.braces ++ ys) : l.parameters = m.parameters ∧ xs = ys := by
  have hbrace {cs : List Char} : ∀ c ∈ ('}' :: cs).head?, c.isDigit = false := by
    rintro c ⟨⟩
    rfl
  unfold braces at h
  cases hps : l.parameters.toList with
  | nil =>
      cases hqs : m.parameters.toList with
      | nil => exact ⟨String.toList_inj.mp (hps.trans hqs.symm), by simpa [hps, hqs] using h⟩
      | cons q qs =>
          simp only [hps, hqs, List.nil_append, List.cons_append] at h
          exact absurd rfl (hx '{' (by simp [h])).2
  | cons p ps =>
      cases hqs : m.parameters.toList with
      | nil =>
          simp only [hps, hqs, List.nil_append, List.cons_append] at h
          exact absurd rfl (hy '{' (by simp [← h])).2
      | cons q qs =>
          rw [hps, hqs] at h
          have hinner : (p :: ps) ++ '}' :: xs = (q :: qs) ++ '}' :: ys := by
            simpa [List.append_assoc] using h
          obtain ⟨hparameters, hrest⟩ :=
            append_inj_of_kind (hps ▸ hl.digits) (hqs ▸ hm.digits) hbrace hbrace hinner
          exact ⟨String.toList_inj.mp (by rw [hps, hqs, hparameters]), (List.cons.inj hrest).2⟩

/-- A legible label can be read off a text that begins with it. -/
theorem text_inj (hl : l.Legible) (hm : m.Legible) (hx : Ends xs) (hy : Ends ys)
    (h : l.text.toList ++ xs = m.text.toList ++ ys) : l = m ∧ xs = ys := by
  rw [toList_text, toList_text, List.append_assoc, List.append_assoc] at h
  obtain ⟨hname, h⟩ := append_inj_of_kind hl.letters hm.letters hx.braces_append hy.braces_append h
  obtain ⟨hparameters, h⟩ := braces_inj hl hm hx hy h
  refine ⟨?_, h⟩
  cases l
  cases m
  rw [mk.injEq]
  exact ⟨String.toList_inj.mp hname, hparameters⟩

theorem Legible.exists_text (hl : l.Legible) : ∃ c cs, l.text.toList = c :: cs ∧ c.isAlpha = true := by
  obtain ⟨c, cs, hc⟩ := List.exists_cons_of_ne_nil hl.named
  exact ⟨c, cs ++ l.braces, by rw [toList_text, hc, List.cons_append], hl.letters c (by simp [hc])⟩

end Label

/-! ## Terms -/

/-- A label alone, or a label with parts in parentheses, of which there may be none. -/
inductive Term where
  | plain (label : Label)
  | applied (label : Label) (parts : List Term)

namespace Term

mutual

def spell : Term → List Char
  | plain l => l.text.toList
  | applied l ts => l.text.toList ++ '(' :: spellParts ts

/-- Parts, up to the parenthesis that closes them. -/
def spellParts : List Term → List Char
  | [] => [')']
  | t :: ts => t.spell ++ spellRest ts

/-- Further parts, each after a comma. -/
def spellRest : List Term → List Char
  | [] => [')']
  | t :: ts => ',' :: (t.spell ++ spellRest ts)

end

mutual

/-- All labels are legible. -/
def Legible : Term → Prop
  | plain l => l.Legible
  | applied l ts => l.Legible ∧ AllLegible ts

def AllLegible : List Term → Prop
  | [] => True
  | t :: ts => t.Legible ∧ AllLegible ts

end

theorem allLegible_iff {ts : List Term} : AllLegible ts ↔ ∀ t ∈ ts, t.Legible := by
  induction ts with
  | nil => simp [AllLegible]
  | cons t ts ih => simp [AllLegible, ih]

theorem Legible.exists_spell : {t : Term} → t.Legible → ∃ c cs, t.spell = c :: cs ∧ c.isAlpha = true
  | plain _, h => by simpa only [spell] using h.exists_text
  | applied _ ts, h => by
      obtain ⟨c, cs, hcs, hc⟩ := h.1.exists_text
      exact ⟨c, cs ++ '(' :: spellParts ts, by rw [spell, hcs, List.cons_append], hc⟩

/-- Where there is a part, the parts do not close at once. -/
theorem Legible.spellParts_ne {t : Term} (ht : t.Legible) {ts : List Term} :
    spellParts (t :: ts) ++ xs ≠ spellParts [] ++ ys := by
  obtain ⟨c, cs, hcs, hc⟩ := ht.exists_spell
  rw [spellParts, spellParts, hcs]
  intro h
  obtain rfl : c = ')' := (List.cons.inj h).1
  exact absurd hc (by decide)

/-- A part may end here. -/
def Closes (xs : List Char) : Prop := ∀ c ∈ xs.head?, c = ',' ∨ c = ')'

theorem Closes.ends (hx : Closes xs) : Label.Ends xs := by
  intro c hc
  obtain rfl | rfl := hx c hc <;> decide

theorem closes_spellRest {ts : List Term} : Closes (spellRest ts ++ xs) := by
  cases ts with
  | nil =>
      rintro c ⟨⟩
      exact .inr rfl
  | cons t ts =>
      rintro c ⟨⟩
      exact .inl rfl

theorem ends_parenthesis : Label.Ends ('(' :: xs) := by
  rintro c ⟨⟩
  decide

mutual

/-- A legible term can be read off a text that begins with it. -/
theorem spell_inj : (t u : Term) → t.Legible → u.Legible → {xs ys : List Char} → Closes xs → Closes ys →
    t.spell ++ xs = u.spell ++ ys → t = u ∧ xs = ys
  | plain l, plain m, hl, hm, xs, ys, hx, hy, h => by
      obtain ⟨rfl, rfl⟩ := Label.text_inj hl hm hx.ends hy.ends h
      exact ⟨rfl, rfl⟩
  | plain l, applied m us, hl, hm, xs, ys, hx, _, h => by
      rw [spell, spell, List.append_assoc] at h
      obtain ⟨-, rfl⟩ := Label.text_inj hl hm.1 hx.ends ends_parenthesis h
      exact absurd (hx '(' rfl) (by decide)
  | applied l ts, plain m, hl, hm, xs, ys, _, hy, h => by
      rw [spell, spell, List.append_assoc] at h
      obtain ⟨-, rfl⟩ := Label.text_inj hl.1 hm ends_parenthesis hy.ends h
      exact absurd (hy '(' rfl) (by decide)
  | applied l ts, applied m us, hl, hm, xs, ys, _, _, h => by
      rw [spell, spell, List.append_assoc, List.append_assoc] at h
      obtain ⟨rfl, hparts⟩ := Label.text_inj hl.1 hm.1 ends_parenthesis ends_parenthesis h
      obtain ⟨rfl, rfl⟩ := spellParts_inj ts us hl.2 hm.2 (List.cons.inj hparts).2
      exact ⟨rfl, rfl⟩

theorem spellParts_inj : (ts us : List Term) → AllLegible ts → AllLegible us → {xs ys : List Char} →
    spellParts ts ++ xs = spellParts us ++ ys → ts = us ∧ xs = ys
  | [], [], _, _, xs, ys, h => ⟨rfl, (List.cons.inj h).2⟩
  | [], u :: us, _, hu, xs, ys, h => absurd h.symm hu.1.spellParts_ne
  | t :: ts, [], ht, _, xs, ys, h => absurd h ht.1.spellParts_ne
  | t :: ts, u :: us, ht, hu, xs, ys, h => by
      rw [spellParts, spellParts, List.append_assoc, List.append_assoc] at h
      obtain ⟨rfl, hrest⟩ := spell_inj t u ht.1 hu.1 closes_spellRest closes_spellRest h
      obtain ⟨rfl, rfl⟩ := spellRest_inj ts us ht.2 hu.2 hrest
      exact ⟨rfl, rfl⟩

theorem spellRest_inj : (ts us : List Term) → AllLegible ts → AllLegible us → {xs ys : List Char} →
    spellRest ts ++ xs = spellRest us ++ ys → ts = us ∧ xs = ys
  | [], [], _, _, xs, ys, h => ⟨rfl, (List.cons.inj h).2⟩
  | [], u :: us, _, _, xs, ys, h => absurd (List.cons.inj h).1 (by decide)
  | t :: ts, [], _, _, xs, ys, h => absurd (List.cons.inj h).1 (by decide)
  | t :: ts, u :: us, ht, hu, xs, ys, h => by
      rw [spellRest, spellRest, List.cons_append, List.cons_append, List.append_assoc, List.append_assoc] at h
      obtain ⟨rfl, hrest⟩ := spell_inj t u ht.1 hu.1 closes_spellRest closes_spellRest (List.cons.inj h).2
      obtain ⟨rfl, rfl⟩ := spellRest_inj ts us ht.2 hu.2 hrest
      exact ⟨rfl, rfl⟩

end

/-! ## Terms with or without parts -/

/-- The label, with the parts behind it if there are any. -/
def branch (l : Label) : List Term → Term
  | [] => .plain l
  | ts => .applied l ts

variable {l m : Label} {ts us : List Term}

theorem branch_inj (h : branch l ts = branch m us) : l = m ∧ ts = us := by
  cases ts <;> cases us <;> simp_all [branch]

theorem legible_branch (hl : l.Legible) (hts : ∀ t ∈ ts, t.Legible) : (branch l ts).Legible := by
  cases ts with
  | nil => exact hl
  | cons t ts => exact ⟨hl, allLegible_iff.mpr hts⟩

theorem map_inj_of_forall {α : Type} {term : α → Term} {P : α → Prop} {as bs : List α}
    (h : ∀ a ∈ as, ∀ b, P b → term a = term b → a = b) (hbs : ∀ b ∈ bs, P b) (hmap : as.map term = bs.map term) :
    as = bs := by
  induction as generalizing bs with
  | nil => simpa using hmap.symm
  | cons a as ih =>
      cases bs with
      | nil => simp at hmap
      | cons b bs =>
          simp only [List.map_cons, List.cons.injEq] at hmap
          rw [h a (by simp) b (hbs b (by simp)) hmap.1,
            ih (fun a ha => h a (by simp [ha])) (fun b hb => hbs b (by simp [hb])) hmap.2]

end Term

end Behavior
