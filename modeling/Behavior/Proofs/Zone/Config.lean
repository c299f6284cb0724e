import Behavior.Proofs.Decimal.Natural
import Behavior.Proofs.Yaml.Lines
import Behavior.Zone.Config
import Mathlib.Data.List.Nodup
/-!
# Partial configurations

Main statement: what is read from a document that sets some of the fields of a configuration, one a line and in any
order, between lines about other things (`ZoneConfig.ofYaml_document`).
-/

namespace Behavior

/-! ## Numbers and truth values as scalars -/

namespace Yaml

variable {cs : List Char} {n : Nat}

theorem hexValue?_of_isDigit {c : Char} (h : c.isDigit = true) :
    Text.hexValue? c = some (Decimal.digitValue c) ∧ Decimal.digitValue c < 10 := by
  have hall : ∀ n < 58, 48 ≤ n → Text.hexValue? (Char.ofNat n) = some (n - 48) ∧ n - 48 < 10 := by decide
  obtain ⟨hlo, hhi⟩ := Char.isDigit_iff_toNat.mp h
  have hc := hall c.toNat (Nat.lt_succ_of_le hhi) hlo
  rwa [Char.ofNat_toNat] at hc

theorem foldlM_digits (h : ∀ c ∈ cs, c.isDigit = true) :
    cs.foldlM (fun n c => (Text.hexValue? c).bind fun d => if d < 10 then some (10 * n + d) else none) n =
      some (Decimal.valueFrom n cs) := by
  induction cs generalizing n with
  | nil => rfl
  | cons c cs ih =>
      obtain ⟨hc, hcs⟩ := List.forall_mem_cons.mp h
      obtain ⟨hvalue, hlt⟩ := hexValue?_of_isDigit hc
      rw [List.foldlM_cons, hvalue, Option.bind_eq_bind, Option.bind_some, if_pos hlt, Option.bind_some, ih hcs]
      rfl

theorem digits64?_toDigits {w : UInt64} : digits64? 10 (Nat.toDigits 10 w.toNat) = some w := by
  have hdigits : ∀ c ∈ Nat.toDigits 10 w.toNat, c.isDigit = true := fun _ => Decimal.isDigit_of_mem_toDigits
  have hvalue : Decimal.valueFrom 0 (Nat.toDigits 10 w.toNat) = w.toNat := by
    rw [Decimal.valueFrom_eq, Nat.ofDigitChars_ten_toDigits]
  have hfold := foldlM_digits (n := 0) hdigits
  rw [hvalue] at hfold
  simp [digits64?, Nat.toDigits_ne_nil, hfold, w.toNat_lt_size]

/-- Only the number zero begins with a zero, so its digits are no mark of a base. -/
theorem natural64?_toDigits {w : UInt64} : natural64? (Nat.toDigits 10 w.toNat) = some w := by
  have hdigits := digits64?_toDigits (w := w)
  obtain ⟨c, cs, hcs, hdigit, hzero⟩ := Decimal.exists_toDigits_eq_cons w.toNat
  rw [hcs] at hdigits ⊢
  by_cases hw : w.toNat = 0
  · have hw : w = 0 := UInt64.toNat_inj.mp hw
    subst hw
    obtain ⟨rfl, rfl⟩ : c = '0' ∧ cs = [] := by simpa [eq_comm] using hcs
    rfl
  · have hplus : c ≠ '+' := by
      rintro rfl
      cases hdigit
    simpa [natural64?, hplus, hzero hw] using hdigits

theorem isWordChar_of_isDigit {c : Char} (h : c.isDigit = true) : isWordChar c = true := by
  simp [isWordChar, Char.isAlphanum, h]

/-- A number in decimal. -/
def Inline.ofNumber (w : UInt64) : Inline where
  text := toString w.toNat
  inline := by
    rw [Decimal.toList_toString]
    exact isInline_of_isWord (isWord_of_isWordChar Nat.toDigits_ne_nil fun _ hc =>
      isWordChar_of_isDigit (Decimal.isDigit_of_mem_toDigits hc))

def Inline.ofBool (b : Bool) : Inline where
  text := if b then "true" else "false"
  inline := by cases b <;> decide

theorem word64?_ofNumber {w : UInt64} : word64? (.plain (Inline.ofNumber w).text) = some w := by
  rw [word64?, Inline.ofNumber, Decimal.toList_toString, natural64?_toDigits]

theorem flag?_ofBool {b : Bool} : flag? (.plain (Inline.ofBool b).text) = some b := by
  cases b <;> rfl

theorem isNull_ofNumber {w : UInt64} : isNull (.plain (Inline.ofNumber w).text) = false := by
  have hnumeral : Decimal.isNumeral (Inline.ofNumber w).text.toList = true := by
    rw [Inline.ofNumber, Decimal.toList_toString]
    exact Decimal.isNumeral_toDigits
  have hnull : ∀ s ∈ ["", "~", "null", "Null", "NULL"], Decimal.isNumeral s.toList = false := by decide
  by_contra h
  rw [isNull, Bool.not_eq_false, List.contains_iff_mem] at h
  rw [hnull _ h] at hnumeral
  cases hnumeral

theorem option?_ofNumber {w : UInt64} : option? word64? (.plain (Inline.ofNumber w).text) = some (some w) := by
  rw [option?, if_neg (by simp [isNull_ofNumber]), word64?_ofNumber]
  rfl

/-! ## Fields -/

section

variable {α : Type} {fields : List (String × Yaml)} {name key : String} {v : Yaml} {read : Yaml → Option α} {absent : α}

theorem fields?_entries {entries : List Entry} :
    fields? (.mapping (entries.map Entry.pair)) = some (entries.map fun e => (e.key.text, .plain e.value.text)) := by
  rw [fields?, List.mapM_map]
  exact List.mapM_pure

theorem field?_cons_of_ne (h : key ≠ name) :
    field? ((key, v) :: fields) name read absent = field? fields name read absent := by
  rw [field?, List.filter_cons_of_neg (by simpa using h)]
  rfl

theorem field?_cons_self (h : name ∉ fields.map (·.1)) : field? ((name, v) :: fields) name read absent = read v := by
  have hnone : fields.filter (·.1 == name) = [] := by
    refine List.filter_eq_nil_iff.mpr fun f hf heq => h ?_
    exact List.mem_map.mpr ⟨f, hf, beq_iff_eq.mp heq⟩
  rw [field?, List.filter_cons_of_pos (by simp), hnone]

theorem field?_eq_none (h : 1 < (fields.map (·.1)).count name) : field? fields name read absent = none := by
  have hlength : 1 < (fields.filter (·.1 == name)).length := by
    rw [List.count, List.countP_map, List.countP_eq_length_filter] at h
    exact h
  rw [field?]
  split
  · rename_i hfilter
    simp [hfilter] at hlength
  · rename_i hfilter
    simp [hfilter] at hlength
  · rfl

end

end Yaml

namespace ZoneConfig

inductive Field where
  | name
  | tickMillis
  | workerThreads
  | parallel
  | minShardLength
  | debug
  | seed
  deriving DecidableEq

namespace Field

def key : Field → String
  | name => "name"
  | tickMillis => "tick_millis"
  | workerThreads => "worker_threads"
  | parallel => "parallel"
  | minShardLength => "min_shard_len"
  | debug => "debug"
  | seed => "seed"

/-- What a line can say of a field. -/
def Value : Field → Type
  | name => Yaml.Inline
  | parallel | debug => Bool
  | tickMillis | workerThreads | minShardLength | seed => UInt64

/-- The scalar of a value. -/
def scalar : (f : Field) → f.Value → Yaml.Inline
  | name, text => text
  | parallel, on | debug, on => .ofBool on
  | tickMillis, n | workerThreads, n | minShardLength, n | seed, n => .ofNumber n

/-- The configuration with a field replaced. -/
def set : (f : Field) → f.Value → ZoneConfig → ZoneConfig
  | name, text, c => { c with name := text.text }
  | tickMillis, n, c => { c with tickMillis := n }
  | workerThreads, n, c => { c with workerThreads := n }
  | parallel, on, c => { c with parallel := on }
  | minShardLength, n, c => { c with minShardLength := n }
  | debug, on, c => { c with debug := on }
  | seed, n, c => { c with seed := some n }

/-- What a configuration holds in a field. -/
def Held : Field → Type
  | name => String
  | parallel | debug => Bool
  | tickMillis | workerThreads | minShardLength => UInt64
  | seed => Option UInt64

def get : (f : Field) → ZoneConfig → f.Held
  | name, c => c.name
  | tickMillis, c => c.tickMillis
  | workerThreads, c => c.workerThreads
  | parallel, c => c.parallel
  | minShardLength, c => c.minShardLength
  | debug, c => c.debug
  | seed, c => c.seed

def read : (f : Field) → Yaml → Option f.Held
  | name => Yaml.text?
  | parallel | debug => Yaml.flag?
  | tickMillis | workerThreads | minShardLength => Yaml.word64?
  | seed => Yaml.option? Yaml.word64?

variable {f g : Field} {c : ZoneConfig}

theorem key_inj (h : f.key = g.key) : f = g := by
  cases f <;> cases g <;> simp [key] at h ⊢

theorem isWord_key : Yaml.isWord f.key.toList = true := by
  cases f <;> decide

theorem read_scalar {v : f.Value} : f.read (.plain (f.scalar v).text) = some (f.get (f.set v c)) := by
  cases f with
  | name => rfl
  | parallel | debug => exact Yaml.flag?_ofBool
  | tickMillis | workerThreads | minShardLength => exact Yaml.word64?_ofNumber
  | seed => exact Yaml.option?_ofNumber

theorem get_set_of_ne {v : g.Value} (h : f ≠ g) : f.get (g.set v c) = f.get c := by
  cases f <;> cases g <;> first | rfl | exact absurd rfl h

end Field

theorem ofFields?_eq_some_iff {fields : List (String × Yaml)} {c : ZoneConfig} :
    ofFields? fields = some c ↔ ∀ f : Field, Yaml.field? fields f.key f.read (f.get {}) = some (f.get c) := by
  simp only [ofFields?, Option.bind_eq_bind, Option.bind_eq_some_iff, Option.pure_def, Option.some.injEq]
  constructor
  · rintro ⟨name, hname, tick, htick, workers, hworkers, parallel, hparallel, least, hleast, debug, hdebug, seed, hseed,
      rfl⟩ f
    cases f <;> assumption
  · intro h
    exact ⟨_, h .name, _, h .tickMillis, _, h .workerThreads, _, h .parallel, _, h .minShardLength, _, h .debug, _,
      h .seed, rfl⟩

/-- A line that sets a field, or one about something else. -/
inductive Line where
  | setting (f : Field) (v : f.Value)
  | foreign (key : Yaml.Word) (value : Yaml.Inline) (unknown : ∀ f : Field, f.key ≠ key.text)

namespace Line

def entry : Line → Yaml.Entry
  | setting f v => ⟨⟨f.key, f.isWord_key⟩, f.scalar v⟩
  | foreign key value _ => ⟨key, value⟩

def field? : Line → Option Field
  | setting f _ => some f
  | foreign _ _ _ => none

/-- The configuration with what the line says. -/
def set (c : ZoneConfig) : Line → ZoneConfig
  | setting f v => f.set v c
  | foreign _ _ _ => c

end Line

/-- The text of the lines, with or without a line feed behind the last one. -/
def document (terminated : Bool) (lines : List Line) : String := Yaml.document terminated (lines.map Line.entry)

variable {f : Field} {c : ZoneConfig} {line : Line} {lines : List Line} {terminated : Bool}

theorem key_eq_iff : line.entry.key.text = f.key ↔ line.field? = some f := by
  cases line with
  | setting g v =>
      simp only [Line.entry, Line.field?, Option.some.injEq]
      exact ⟨Field.key_inj, congrArg Field.key⟩
  | foreign key value unknown => simp [Line.entry, Line.field?, (unknown f).symm]

theorem get_set_of_ne (h : line.field? ≠ some f) : f.get (line.set c) = f.get c := by
  cases line with
  | setting g v => exact Field.get_set_of_ne fun hfg => h (congrArg some hfg.symm)
  | foreign _ _ _ => rfl

theorem get_foldl_of_not_mem (h : f ∉ lines.filterMap Line.field?) : f.get (lines.foldl Line.set c) = f.get c := by
  induction lines generalizing c with
  | nil => rfl
  | cons line lines ih =>
      simp only [List.mem_filterMap, List.exists_mem_cons_iff, not_or] at h
      rw [List.foldl_cons, ih (by simpa using h.2), get_set_of_ne h.1]

/-- The fields that a mapping of the lines has. -/
def pairs (lines : List Line) : List (String × Yaml) :=
  lines.map fun line => (line.entry.key.text, .plain line.entry.value.text)

theorem count_keys : ((pairs lines).map (·.1)).count f.key = (lines.filterMap Line.field?).count f := by
  rw [pairs, List.map_map, List.count, List.countP_map, List.count, List.countP_filterMap]
  refine List.countP_congr fun line _ => ?_
  have hkey : line.entry.key.text = f.key ↔ line.field? = some f := key_eq_iff
  cases hfield : line.field? with
  | none => simpa [hfield] using hkey
  | some g => simpa [hfield] using hkey

/-- A field that is set at most once is read as what its line says, or as what it was before the lines. -/
theorem field?_pairs (h : (lines.filterMap Line.field?).Nodup) :
    Yaml.field? (pairs lines) f.key f.read (f.get c) = some (f.get (lines.foldl Line.set c)) := by
  induction lines generalizing c with
  | nil => rfl
  | cons line lines ih =>
      cases line with
      | setting g v =>
          obtain ⟨hnew, hrest⟩ := List.nodup_cons.mp h
          by_cases hfg : g = f
          · subst hfg
            have hkeys : g.key ∉ (pairs lines).map (·.1) := by
              rwa [← List.count_eq_zero, count_keys, List.count_eq_zero]
            rw [List.foldl_cons, get_foldl_of_not_mem hnew]
            exact (Yaml.field?_cons_self hkeys).trans Field.read_scalar
          · have hget : f.get (Line.set c (.setting g v)) = f.get c := Field.get_set_of_ne (Ne.symm hfg)
            rw [List.foldl_cons, ← ih hrest, hget]
            exact Yaml.field?_cons_of_ne fun hkey => hfg (Field.key_inj hkey)
      | foreign key value unknown =>
          exact (Yaml.field?_cons_of_ne (unknown f).symm).trans (ih h)

theorem ofFields?_pairs :
    ofFields? (pairs lines) =
      if (lines.filterMap Line.field?).Nodup then some (lines.foldl Line.set {}) else none := by
  by_cases h : (lines.filterMap Line.field?).Nodup
  · rw [if_pos h]
    exact ofFields?_eq_some_iff.mpr fun f => field?_pairs h
  · rw [if_neg h]
    simp only [List.nodup_iff_count_le_one, not_forall, not_le] at h
    obtain ⟨f, hf⟩ := h
    rw [← count_keys] at hf
    cases hc : ofFields? (pairs lines) with
    | none => rfl
    | some c =>
        have hread := ofFields?_eq_some_iff.mp hc f
        rw [Yaml.field?_eq_none hf] at hread
        cases hread

theorem fields?_document :
    (Yaml.parse? (document terminated lines)).bind Yaml.fields? =
      if ∀ line ∈ lines, line.entry.InReach then some (pairs lines) else none := by
  cases lines with
  | nil =>
      rw [document, List.map_nil, Yaml.parse?_document_nil]
      rfl
  | cons line lines =>
      rw [document, Yaml.parse?_document (by simp)]
      by_cases hreach : ∀ x ∈ line :: lines, x.entry.InReach
      · rw [if_pos hreach, if_pos (List.forall_mem_map.mpr hreach), Option.bind_some, Yaml.fields?_entries, pairs,
          List.map_map]
        rfl
      · rw [if_neg hreach, if_neg fun h => hreach (List.forall_mem_map.mp h)]
        rfl

/-- Any nonempty text of letters, digits and underscores may stand as a key and as a value. What is read from a document
of lines is the configuration in which nothing is set, with the fields replaced that the lines set, in whatever order and
between whatever other lines they stand. It is refused if a field is set twice, and if a key is longer than a key may be. -/
theorem ofYaml_document :
    (∀ cs : List Char, cs ≠ [] → (∀ c ∈ cs, Yaml.isWordChar c = true) →
      Yaml.isWord cs = true ∧ Yaml.isInline cs = true) ∧
    ∀ (terminated : Bool) (lines : List Line),
      ofYaml (document terminated lines) =
        if (∀ line ∈ lines, line.entry.key.text.utf8ByteSize ≤ Yaml.keyReach) ∧ (lines.filterMap Line.field?).Nodup then
          .ok (lines.foldl Line.set {})
        else .error .malformed := by
  constructor
  · intro cs hne h
    have hword := Yaml.isWord_of_isWordChar hne h
    exact ⟨hword, Yaml.isInline_of_isWord hword⟩
  · intro terminated lines
    rw [ofYaml, fields?_document]
    by_cases hreach : ∀ line ∈ lines, line.entry.InReach
    · rw [if_pos hreach, Option.bind_some, ofFields?_pairs]
      by_cases hnodup : (lines.filterMap Line.field?).Nodup
      · rw [if_pos hnodup, if_pos ⟨hreach, hnodup⟩]
      · rw [if_neg hnodup, if_neg fun h => hnodup h.2]
    · rw [if_neg hreach, if_neg fun h => hreach h.1]
      rfl

example : document true [.setting .name ⟨"village", by decide⟩, .setting .tickMillis (50 : UInt64),
    .setting .seed (42 : UInt64)] = "name: village\ntick_millis: 50\nseed: 42\n" := by decide

/-! ## A key that is too long -/

/-- A key of one letter and `n` further ones. -/
def letters (n : Nat) : Yaml.Word where
  text := String.ofList (List.replicate (n + 1) 'k')
  word := by
    rw [String.toList_ofList]
    refine Yaml.isWord_of_isWordChar (List.cons_ne_nil _ _) fun c hc => ?_
    rw [List.eq_of_mem_replicate hc]
    decide

theorem utf8Len_replicate {n : Nat} : String.utf8Len (List.replicate n 'k') = n := by
  induction n with
  | zero => rfl
  | succ n ih =>
      rw [List.replicate_succ, String.utf8Len_cons, ih]
      rfl

theorem utf8ByteSize_letters {n : Nat} : (letters n).text.utf8ByteSize = n + 1 := by
  rw [letters, String.utf8ByteSize_ofList, utf8Len_replicate]

theorem key_ne_letters {n : Nat} (hn : 14 ≤ n) (f : Field) : f.key ≠ (letters n).text := by
  have hshort : f.key.length ≤ 14 := by cases f <;> decide
  intro h
  rw [h, letters, String.length_ofList, List.length_replicate] at hshort
  omega

/-- A line with a key of one letter more than a key may have, and one that sets a field. -/
def overlong : List Line :=
  [.foreign (letters Yaml.keyReach) ⟨"1", by decide⟩ (key_ne_letters (by decide)), .setting .seed (1 : UInt64)]

/-- A key does not have to be the name of a field, but it has to be in reach: here nothing is read, although no field
is set twice. -/
theorem overlong_key_refused :
    (overlong.filterMap Line.field?).Nodup ∧ ofYaml (document true overlong) = .error .malformed ∧
      ofYaml (document true overlong) ≠ .ok (overlong.foldl Line.set {}) := by
  have hreach : ¬∀ line ∈ overlong, line.entry.InReach := by
    intro h
    have hkey := h (.foreign (letters Yaml.keyReach) _ _) List.mem_cons_self
    rw [Line.entry, Yaml.Entry.InReach, utf8ByteSize_letters] at hkey
    omega
  have hrefused : ofYaml (document true overlong) = .error .malformed := by
    rw [ofYaml, fields?_document, if_neg hreach]
    rfl
  refine ⟨by decide, hrefused, ?_⟩
  rw [hrefused]
  exact fun h => nomatch h

end ZoneConfig

end Behavior
