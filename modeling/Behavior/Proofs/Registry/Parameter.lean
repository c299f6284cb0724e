import Behavior.Proofs.Decimal.Natural
import Behavior.Registry.Standard
import Mathlib.Data.List.DropRight
/-!
# Numbers as parameters

Main statement: the factories of the standard registry that read a number accept the texts that write one of its type,
make their product of it, and refuse every other text with an error that shows it (`Registry.standard_reads_numbers`).
-/

namespace Behavior

variable {χ : Type}

/-! ## Blanks around a text -/

namespace Text

variable {cs before core after : List Char}

theorem exists_trim (cs : List Char) : ∃ before after, cs = before ++ trim cs ++ after ∧
    (∀ c ∈ before, isBlank c = true) ∧ ∀ c ∈ after, isBlank c = true := by
  refine ⟨cs.takeWhile isBlank, (cs.dropWhile isBlank).rtakeWhile isBlank, ?_, ?_, ?_⟩
  · have hrest : trim cs ++ (cs.dropWhile isBlank).rtakeWhile isBlank = cs.dropWhile isBlank :=
      List.rdropWhile_append_rtakeWhile
    rw [List.append_assoc, hrest, List.takeWhile_append_dropWhile]
  · exact fun c hc => List.mem_takeWhile_imp hc
  · exact fun c hc => List.mem_rtakeWhile_imp hc

theorem dropWhile_blanks_append (hbefore : ∀ c ∈ before, isBlank c = true) (hcore : ∀ c ∈ core, isBlank c = false)
    (hne : core ≠ []) : (before ++ (core ++ after)).dropWhile isBlank = core ++ after := by
  obtain ⟨c, cs, rfl⟩ := List.exists_cons_of_ne_nil hne
  rw [List.dropWhile_append_of_pos hbefore, List.cons_append, List.dropWhile_cons_of_neg (by simp [hcore c])]

theorem trim_append (hbefore : ∀ c ∈ before, isBlank c = true) (hcore : ∀ c ∈ core, isBlank c = false)
    (hne : core ≠ []) (hafter : ∀ c ∈ after, isBlank c = true) : trim (before ++ core ++ after) = core := by
  have hend : (after.reverse ++ (core.reverse ++ [])).dropWhile isBlank = core.reverse ++ [] :=
    dropWhile_blanks_append (by simpa using hafter) (by simpa using hcore) (by simpa using hne)
  rw [List.append_nil] at hend
  rw [trim, List.append_assoc, dropWhile_blanks_append hbefore hcore hne, List.reverse_append, hend,
    List.reverse_reverse]

theorem trim_eq_nil_iff : trim cs = [] ↔ ∀ c ∈ cs, isBlank c = true := by
  constructor
  · intro h
    obtain ⟨before, after, hcs, hbefore, hafter⟩ := exists_trim cs
    rw [h, List.append_nil] at hcs
    rw [hcs]
    exact List.forall_mem_append.mpr ⟨hbefore, hafter⟩
  · intro h
    rw [trim, List.dropWhile_eq_nil_iff.mpr h]
    rfl

end Text

namespace Decimal

variable {cs : List Char} {n : Nat}

theorem isBlank_of_isDigit {c : Char} (h : c.isDigit = true) : Text.isBlank c = false := by
  obtain ⟨hlo, hhi⟩ := Char.isDigit_iff_toNat.mp h
  have hapart : ∀ r ∈ Text.blankRanges, r.2 < '0'.toNat ∨ '9'.toNat < r.1 := by decide
  rw [Text.isBlank, List.any_eq_false]
  intro r hr
  rw [Bool.and_eq_true, decide_eq_true_eq, decide_eq_true_eq]
  have := hapart r hr
  omega

theorem Numeral.not_blank (h : Numeral n cs) : ∀ c ∈ cs, Text.isBlank c = false := by
  cases h with
  | bare h => exact fun c hc => isBlank_of_isDigit (h.digits c hc)
  | signed h => exact List.forall_mem_cons.mpr ⟨by decide, fun c hc => isBlank_of_isDigit (h.digits c hc)⟩

end Decimal

/-! ## Parameters -/

namespace Parameter

variable {α β γ : Type} {text name : String} {n : Nat}

/-- The text is nothing but blanks. -/
def Blank (text : String) : Prop := ∀ c ∈ text.toList, Text.isBlank c = true

/-- The text is a numeral of the number, between blanks if there are any. -/
def Writes (text : String) (n : Nat) : Prop :=
  ∃ before numeral after, text.toList = before ++ numeral ++ after ∧ Decimal.Numeral n numeral ∧
    (∀ c ∈ before, Text.isBlank c = true) ∧ ∀ c ∈ after, Text.isBlank c = true

theorem writes_iff : Writes text n ↔ Decimal.Numeral n (Text.trim text.toList) := by
  constructor
  · rintro ⟨before, numeral, after, htext, h, hbefore, hafter⟩
    rwa [htext, Text.trim_append hbefore h.not_blank h.ne_nil hafter]
  · intro h
    obtain ⟨before, after, htext, hbefore, hafter⟩ := Text.exists_trim text.toList
    exact ⟨before, _, after, htext, h, hbefore, hafter⟩

theorem writes_toString (n : Nat) : Writes (toString n) n :=
  ⟨[], (toString n).toList, [], by simp, Decimal.numeral_toString n, by simp, by simp⟩

theorem Writes.not_blank (h : Writes text n) : ¬Blank text := fun hblank =>
  (writes_iff.mp h).ne_nil (Text.trim_eq_nil_iff.mpr hblank)

theorem map_natural?_eq_some_iff {bound : Nat} {ofNat : Nat → α} {toNat : α → Nat} (hlt : ∀ a, toNat a < bound)
    (hof : ∀ a, ofNat (toNat a) = a) (hto : ∀ m < bound, toNat (ofNat m) = m) {a : α} :
    (Decimal.natural? bound (Text.trim text.toList)).map ofNat = some a ↔ Writes text (toNat a) := by
  rw [writes_iff, Option.map_eq_some_iff]
  constructor
  · rintro ⟨m, hm, rfl⟩
    obtain ⟨hnumeral, hm⟩ := Decimal.natural?_eq_some_iff.mp hm
    rwa [hto m hm]
  · intro h
    exact ⟨toNat a, Decimal.natural?_eq_some_iff.mpr ⟨h, hlt a⟩, hof a⟩

theorem word32_eq_some_iff {n : UInt32} : word32 (Text.trim text.toList) = some n ↔ Writes text n.toNat :=
  map_natural?_eq_some_iff UInt32.toNat_lt (fun _ => UInt32.ofNat_toNat) fun _ => UInt32.toNat_ofNat_of_lt'

theorem word64_eq_some_iff {n : UInt64} : word64 (Text.trim text.toList) = some n ↔ Writes text n.toNat :=
  map_natural?_eq_some_iff UInt64.toNat_lt (fun _ => UInt64.ofNat_toNat) fun _ => UInt64.toNat_ofNat_of_lt'

/-- The answer is the product of what is read, or the error where nothing can be read. -/
structure Answers (reads : α → Prop) (product : α → β) (error : RegistryError) (answer : Except RegistryError β) :
    Prop where
  ok_iff (b : β) : answer = .ok b ↔ ∃ a, reads a ∧ product a = b
  error_iff (e : RegistryError) : answer = .error e ↔ (∀ a, ¬reads a) ∧ e = error

section Answers

variable {reads : α → Prop} {product : α → β} {error : RegistryError} {answer : Except RegistryError β}

/-- It is enough to know the answer on either side. -/
theorem answers_of (accepts : ∀ a, reads a → answer = .ok (product a))
    (refuses : (∀ a, ¬reads a) → answer = .error error) : Answers reads product error answer := by
  by_cases hreads : ∃ a, reads a
  · obtain ⟨a, ha⟩ := hreads
    have hanswer := accepts a ha
    constructor
    · intro b
      constructor
      · exact fun h => ⟨a, ha, Except.ok.inj (hanswer.symm.trans h)⟩
      · rintro ⟨a', ha', rfl⟩
        exact accepts a' ha'
    · intro e
      constructor
      · intro h
        cases hanswer.symm.trans h
      · exact fun h => absurd ha (h.1 a)
  · have hnothing := not_exists.mp hreads
    have hanswer := refuses hnothing
    constructor
    · intro b
      constructor
      · intro h
        cases hanswer.symm.trans h
      · exact fun ⟨a, ha, _⟩ => absurd ha (hnothing a)
    · intro e
      constructor
      · exact fun h => ⟨hnothing, (Except.error.inj (hanswer.symm.trans h)).symm⟩
      · rintro ⟨-, rfl⟩
        exact hanswer

theorem Answers.accepts (h : Answers reads product error answer) {a : α} (ha : reads a) : answer = .ok (product a) :=
  (h.ok_iff _).mpr ⟨a, ha, rfl⟩

theorem Answers.refuses (h : Answers reads product error answer) (hreads : ∀ a, ¬reads a) : answer = .error error :=
  (h.error_iff _).mpr ⟨hreads, rfl⟩

theorem Answers.map (h : Answers reads product error answer) (f : β → γ) :
    Answers reads (f ∘ product) error (answer.map f) :=
  answers_of (fun a ha => by rw [h.accepts ha]; rfl) (fun hreads => by rw [h.refuses hreads]; rfl)

end Answers

variable {read : List Char → Option α} {reads : α → Prop}

theorem optional_of_blank (hblank : Blank text) : optional read name text = .ok none := by
  rw [optional, Text.trim_eq_nil_iff.mpr hblank]
  rfl

theorem optional_of_not_blank (hblank : ¬Blank text) : optional read name text =
    match read (Text.trim text.toList) with
    | some a => .ok (some a)
    | none => .error (.invalidParameter name text) := by
  have h : ¬(Text.trim text.toList).isEmpty = true := by rwa [List.isEmpty_iff, Text.trim_eq_nil_iff]
  exact if_neg h

theorem read_eq_none (hread : ∀ a, read (Text.trim text.toList) = some a ↔ reads a) (hreads : ∀ a, ¬reads a) :
    read (Text.trim text.toList) = none :=
  Option.eq_none_iff_forall_ne_some.mpr fun a ha => hreads a ((hread a).mp ha)

section

variable (hread : ∀ a, read (Text.trim text.toList) = some a ↔ reads a) (hblank : ∀ a, reads a → ¬Blank text)

include hread hblank

theorem required_answers (product : α → β) :
    Answers reads product (.invalidParameter name text) ((required read name text).map product) := by
  refine answers_of (fun a ha => ?_) fun hreads => ?_
  · rw [required, optional_of_not_blank (hblank a ha), (hread a).mpr ha]
    rfl
  · by_cases h : Blank text
    · rw [required, optional_of_blank h]
      rfl
    · rw [required, optional_of_not_blank h, read_eq_none hread hreads]
      rfl

theorem optional_answers (product : α → β) (fallback : α) :
    Answers (fun a => reads a ∨ Blank text ∧ a = fallback) product (.invalidParameter name text)
      ((optional read name text).map fun o => product (o.getD fallback)) := by
  refine answers_of (fun a ha => ?_) fun hreads => ?_
  · obtain ha | ⟨h, rfl⟩ := ha
    · rw [optional_of_not_blank (hblank a ha), (hread a).mpr ha]
      rfl
    · rw [optional_of_blank h]
      rfl
  · have h : ¬Blank text := fun h => hreads fallback (.inr ⟨h, rfl⟩)
    rw [optional_of_not_blank h, read_eq_none hread fun a ha => hreads a (.inl ha)]
    rfl

end

end Parameter

/-! ## The factories of the standard registry -/

namespace Registry

open Parameter

theorem standard_factories :
    (standard : Registry χ).nodes["Limit"]? = some limit ∧
    (standard : Registry χ).nodes["Idle"]? = some (fun r => (idle r.parameters).map fun run => r.build (.task run)) ∧
    (standard : Registry χ).filters["Random"]? = some random ∧
    (standard : Registry χ).conditions["HasEnemies"]? = some hasEnemies := by
  simp [standard, withNodes, withConditions, withFilters, registerNode, registerTask, registerCondition,
    registerFilter, Std.ExtTreeMap.getElem_insertIfNew, empty]

theorem limit_answers (r : NodeRequest χ) :
    Answers (fun n : UInt32 => Writes r.parameters n.toNat) (fun n => r.build (.limit n))
      (.invalidParameter r.name r.parameters) (standard.createNode "Limit" r) := by
  rw [createNode, standard_factories.1]
  exact required_answers (fun _ => word32_eq_some_iff) (fun _ h => h.not_blank) _

theorem idle_answers (r : NodeRequest χ) :
    Answers (fun n : UInt64 => Writes r.parameters n.toNat) (fun n => r.build (.task (.idle n)))
      (.invalidParameter "Idle" r.parameters) (standard.createNode "Idle" r) := by
  rw [createNode, standard_factories.2.1]
  exact (required_answers (fun _ => word64_eq_some_iff) (fun _ h => h.not_blank) Task.idle).map fun run =>
    r.build (.task run)

theorem random_answers (parameters : String) (f : Filter χ) :
    Answers (fun n : UInt64 => Writes parameters n.toNat) (fun n => .randomOf n f)
      (.invalidParameter "Random" parameters) (standard.createFilter "Random" { parameters, filters := [f] }) := by
  have hrandom : random { parameters, filters := [f] } =
      (required word64 "Random" parameters).map fun n => .randomOf n f := by
    rw [random]
    cases required word64 "Random" parameters <;> rfl
  rw [createFilter, standard_factories.2.2.1]
  change Answers _ _ _ (random _)
  rw [hrandom]
  exact required_answers (fun _ => word64_eq_some_iff) (fun _ h => h.not_blank) _

theorem hasEnemies_answers (q : ConditionRequest χ) :
    Answers (fun n : UInt64 => Writes q.parameters n.toNat ∨ Blank q.parameters ∧ n = 1) .enemies
      (.invalidParameter "HasEnemies" q.parameters) (standard.createCondition "HasEnemies" q) := by
  rw [createCondition, standard_factories.2.2.2]
  exact optional_answers (fun _ => word64_eq_some_iff) (fun _ h => h.not_blank) _ _

/-- Limits take a word of 32 bits, and waiting leaves, random choices and enemy counts one of 64; for an enemy count
nothing but blanks is as good as one. The texts that are shown for such numbers are among those that write them. -/
theorem standard_reads_numbers :
    (∀ r : NodeRequest χ,
      Answers (fun n : UInt32 => Writes r.parameters n.toNat) (fun n => r.build (.limit n))
        (.invalidParameter r.name r.parameters) (standard.createNode "Limit" r) ∧
      Answers (fun n : UInt64 => Writes r.parameters n.toNat) (fun n => r.build (.task (.idle n)))
        (.invalidParameter "Idle" r.parameters) (standard.createNode "Idle" r)) ∧
    (∀ (parameters : String) (f : Filter χ),
      Answers (fun n : UInt64 => Writes parameters n.toNat) (fun n => .randomOf n f)
        (.invalidParameter "Random" parameters) (standard.createFilter "Random" { parameters, filters := [f] })) ∧
    (∀ q : ConditionRequest χ,
      Answers (fun n : UInt64 => Writes q.parameters n.toNat ∨ Blank q.parameters ∧ n = 1) .enemies
        (.invalidParameter "HasEnemies" q.parameters) (standard.createCondition "HasEnemies" q)) ∧
    (∀ (n : UInt32) (child : TreeNode χ) (r : NodeRequest χ),
      let shown := { r with parameters := ((TreeNode.ofKind (.limit n)).withChildren [child]).1.label.parameters }
      standard.createNode "Limit" shown = .ok (shown.build (.limit n))) ∧
    (∀ (n : UInt64) (r : NodeRequest χ),
      let shown := { r with parameters := (TreeNode.idle n : TreeNode χ).label.parameters }
      standard.createNode "Idle" shown = .ok (shown.build (.task (.idle n)))) ∧
    (∀ (n : UInt64) (f : Filter χ),
      standard.createFilter "Random" { parameters := (f.randomOf n).label.parameters, filters := [f] } =
        .ok (f.randomOf n)) ∧
    ∀ (n : UInt64) (q : ConditionRequest χ),
      let shown := { q with parameters := (Condition.enemies n : Condition χ).label.parameters }
      standard.createCondition "HasEnemies" shown = .ok (.enemies n) := by
  refine ⟨fun r => ⟨limit_answers r, idle_answers r⟩, random_answers, hasEnemies_answers, ?_, ?_, ?_, ?_⟩
  · exact fun n _ r => (limit_answers _).accepts (writes_toString n.toNat)
  · exact fun n r => (idle_answers _).accepts (writes_toString n.toNat)
  · exact fun n f => (random_answers _ f).accepts (writes_toString n.toNat)
  · exact fun n q => (hasEnemies_answers _).accepts (.inl (writes_toString n.toNat))

end Registry

end Behavior
