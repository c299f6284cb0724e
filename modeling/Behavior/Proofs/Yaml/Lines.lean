import Behavior.Proofs.Yaml.Scalar
import Behavior.Yaml.Document
/-!
# Documents of one entry a line

Main statement: what such a document holds, whatever the keys and values are (`parse?_document`).
-/

namespace Behavior.Yaml

/-- A line of a key, a colon and a value. -/
structure Entry where
  key : Word
  value : Inline

namespace Entry

def text (e : Entry) : String := e.key.text ++ ": " ++ e.value.text

def tokens (e : Entry) : List Token := [.key, .plain e.key.text, .value, .plain e.value.text]

def pair (e : Entry) : Yaml × Yaml := (.plain e.key.text, .plain e.value.text)

/-- Whether the colon is within reach of the beginning of the key. -/
def InReach (e : Entry) : Prop := e.key.text.utf8ByteSize ≤ keyReach

instance (e : Entry) : Decidable e.InReach := inferInstanceAs (Decidable (_ ≤ _))

theorem toList_text_append (e : Entry) (tail : List Char) :
    e.text.toList ++ tail = e.key.text.toList ++ ':' :: ' ' :: (e.value.text.toList ++ tail) := by
  simp [text]

end Entry

/-- The lines of a block mapping, with or without a line feed behind the last one. -/
def document (terminated : Bool) (entries : List Entry) : String :=
  "\n".intercalate (entries.map Entry.text) ++ if terminated then "\n" else ""

section

variable {terminated : Bool} {e : Entry} {es : List Entry}

/-- What stands behind a line in front of further ones. -/
def behindLine (terminated : Bool) : List Entry → List Char
  | [] => if terminated then ['\n'] else []
  | e :: es => '\n' :: (document terminated (e :: es)).toList

theorem toList_document_nil : (document terminated []).toList = behindLine terminated [] := by
  cases terminated <;> simp [document, behindLine]

theorem toList_document_cons :
    (document terminated (e :: es)).toList = e.text.toList ++ behindLine terminated es := by
  cases es with
  | nil => cases terminated <;> simp [document, behindLine]
  | cons e' es => simp [document, behindLine]

theorem closes_behindLine : Closes (behindLine terminated es) := by
  cases es with
  | nil =>
      cases terminated with
      | false => exact .atEnd
      | true => exact .lineFeed (by simp)
  | cons e es =>
      refine .lineFeed ?_
      rw [toList_document_cons, e.toList_text_append, List.head?_append_of_ne_nil _ e.key.ne_nil]
      exact fun c hc => e.key.not_gap c (List.mem_of_mem_head? hc)

end

namespace Lexer

variable {s s' : Lexer} {fuel : Nat} {cs rest tail : List Char} {p : Place} {tokens : List Token} {count : Nat}
  {columns : List Nat}

theorem closeFrom_of_lt {column : Nat} (h : ∀ c ∈ s.columns, c < column) : s.closeFrom column = s := by
  have hnone : s.columns.takeWhile (column ≤ ·) = [] := by
    cases hcolumns : s.columns with
    | nil => rfl
    | cons c cs =>
        have := h c (by simp [hcolumns])
        exact List.takeWhile_cons_of_neg (by simpa using this)
  simp [closeFrom, hnone]

/-- The block collections that are open at the beginning of a line: none yet, or the mapping at the margin. -/
def Margin (columns : List Nat) : Prop := columns = [] ∨ columns = [0]

theorem Margin.lt {column : Nat} (h : Margin columns) : ∀ c ∈ columns, c < column + 1 := by
  obtain rfl | rfl := h <;> simp

theorem approach_eq {allowed : Bool} {cursor : Cursor}
    (hskip : skipFrom s.inFlow s.keyAllowed false s.cursor.toPlace s.cursor.rest = (allowed, cursor))
    (hdrop : dropPast { s with keyAllowed := allowed, cursor := cursor } = some s')
    (hcolumns : ∀ c ∈ s'.columns, c < s'.cursor.column + 1) : s.approach = some s' := by
  simp only [approach, hskip, hdrop, Option.bind_eq_bind, Option.bind_some]
  exact congrArg some (closeFrom_of_lt hcolumns)

theorem finish_of_approach (happroach : s.approach = some s') (hrest : s'.cursor.rest ≠ []) :
    finish (fuel + 1) s = s'.token.bind (finish fuel) := by
  simp [finish, happroach, hrest]

theorem token_of_startsPlain (hflow : s.outer = []) (hboundary : s.cursor.atBoundary = false)
    (hstarts : startsPlain false s.cursor.rest = true) : s.token = s.plain := by
  obtain ⟨hopening, hclosing⟩ := Bool.or_eq_false_iff.mp hboundary
  have hinFlow : s.inFlow = false := by simp [inFlow, hflow]
  cases hrest : s.cursor.rest with
  | nil => simp [hrest, startsPlain] at hstarts
  | cons c rest =>
      rw [hrest] at hstarts
      obtain ⟨hc, hgap⟩ | hc := mark_or_of_startsPlain hstarts
      · obtain rfl | rfl | rfl := hc <;> simp [token, hopening, hclosing, hrest, hinFlow, hgap, hstarts]
      · simp only [indicators, List.mem_cons, List.not_mem_nil, or_false, not_or] at hc
        simp [token, hopening, hclosing, hrest, hinFlow, hstarts, hc]

theorem skipFrom_of_startsPlain {flow allowed : Bool} (hstarts : startsPlain false cs = true)
    (hmark : cs.head? = some '\ufeff' → p.column ≠ 0) :
    skipFrom flow allowed false p cs = (allowed, ⟨p, cs⟩) := by
  cases cs with
  | nil => rfl
  | cons c rest =>
      obtain ⟨hblank, hbreak⟩ := not_gap_of_startsPlain hstarts
      have hcomment : c ≠ '#' := by
        rintro rfl
        cases hstarts
      have hmark' : ¬(c = '\ufeff' ∧ p.column = 0) := by simpa using hmark
      obtain ⟨hspace, htab⟩ : c ≠ ' ' ∧ c ≠ '\t' := by simpa [isBlank] using hblank
      simp [skipFrom, hbreak, hspace, htab, hcomment, hmark']

theorem skipFrom_colon {flow allowed : Bool} :
    skipFrom flow allowed false p (':' :: rest) = (allowed, ⟨p, ':' :: rest⟩) := by
  simp [skipFrom, isBreak]

theorem not_atRule_of_word {mark : Char} (h : ∀ c ∈ cs, isBlank c = false ∧ isBreak c = false) (hmark : ':' ≠ mark) :
    (Cursor.mk p (cs ++ ':' :: rest)).atRule mark = false := by
  -- three marks would reach up to the colon, or a character of the word stands behind them
  match cs with
  | [] => simp [Cursor.atRule, hmark]
  | [_] => simp [Cursor.atRule, hmark]
  | [_, _] => simp [Cursor.atRule, hmark]
  | [_, _, _] => simp [Cursor.atRule, atGap, isBlank, isBreak]
  | _ :: _ :: _ :: d :: _ => simp [Cursor.atRule, atGap, h d (by simp)]

/-- The beginning of a line: the key is a scalar, and its place is kept. -/
theorem finish_key (w : Word) (hp : p.column = 0) (hcolumns : Margin columns) :
    finish (fuel + 1) { cursor := ⟨p, w.text.toList ++ ':' :: ' ' :: rest⟩, tokens, count, columns } =
      finish fuel
        { cursor := ⟨p.along w.text.toList, ':' :: ' ' :: rest⟩
          tokens := .plain w.text :: tokens
          count := count + 1
          columns
          key := some ⟨p, count, columns.head? == some 0⟩
          keyAllowed := false } := by
  have hinline := isInline_of_isWord w.word
  have hstarts := startsPlain_append (':' :: ' ' :: rest) (startsPlain_of_isInline hinline)
  have hboundary : (Cursor.mk p (w.text.toList ++ ':' :: ' ' :: rest)).atBoundary = false :=
    Bool.or_eq_false_iff.mpr ⟨not_atRule_of_word w.not_gap (by decide), not_atRule_of_word w.not_gap (by decide)⟩
  have happroach : approach { cursor := ⟨p, w.text.toList ++ ':' :: ' ' :: rest⟩, tokens, count, columns } =
      some { cursor := ⟨p, w.text.toList ++ ':' :: ' ' :: rest⟩, tokens, count, columns } := by
    refine approach_eq (skipFrom_of_startsPlain hstarts ?_) rfl hcolumns.lt
    rw [List.head?_append_of_ne_nil _ w.ne_nil]
    exact fun hmark => absurd hmark w.head?_ne
  rw [finish_of_approach happroach (by simp), token_of_startsPlain rfl hboundary hstarts]
  simp [plain, noteKey, forgetKey, inFlow, plainScalar_colon hinline, atGap, isBlank, hp, emit]

/-- The marks in front of the first entry. -/
def opening (columns : List Nat) : List Token := if columns = [] then [.blockMapping] else []

theorem reverse_opening : (opening columns).reverse = opening columns := by
  rw [opening]
  split <;> rfl

theorem token_colon (hrest : s.cursor.rest = ':' :: ' ' :: rest) : s.token = s.valueMark := by
  simp [token, Cursor.atOpening, Cursor.atClosing, Cursor.atRule, hrest, atGap, isBlank]

/-- The colon makes a key of the scalar before it. -/
theorem finish_colon {key : PossibleKey} {scalar : Token} (hcolumn : key.place.column = 0) (hindex : key.index = count)
    (hpast : key.isPast p = false) (hcolumns : Margin columns) :
    finish (fuel + 1)
        { cursor := ⟨p, ':' :: ' ' :: rest⟩
          tokens := scalar :: tokens
          count := count + 1
          columns
          key := some key
          keyAllowed := false } =
      finish fuel
        { cursor := ⟨p.after ':', ' ' :: rest⟩
          tokens := .value :: scalar :: .key :: (opening columns ++ tokens)
          count := count + 3 + (opening columns).length
          columns := [0]
          keyAllowed := false } := by
  have happroach : approach
      { cursor := ⟨p, ':' :: ' ' :: rest⟩
        tokens := scalar :: tokens
        count := count + 1
        columns
        key := some key
        keyAllowed := false } = some _ :=
    approach_eq skipFrom_colon (by rw [dropPast, if_neg (by simp [hpast])]) hcolumns.lt
  have hbefore : count + 1 + 1 - count = 2 := by omega
  rw [finish_of_approach happroach (by simp), token_colon rfl]
  obtain rfl | rfl := hcolumns <;>
    simp [valueMark, insert, openBlock, inFlow, least, mark, emit, opening, hcolumn, hindex, hbefore, Cursor.forward]

/-- A colon that is too far from the beginning of the scalar before it is refused. -/
theorem finish_colon_of_isPast {key : PossibleKey} (hpast : key.isPast p = true)
    (hcolumns : Margin columns) :
    finish (fuel + 1)
      { cursor := ⟨p, ':' :: ' ' :: rest⟩, tokens, count, columns, key := some key, keyAllowed := false } = none := by
  by_cases hrequired : key.required = true
  · simp [finish, approach, inFlow, skipFrom_colon, dropPast, hpast, forgetKey, hrequired]
  · have happroach : approach
        { cursor := ⟨p, ':' :: ' ' :: rest⟩, tokens, count, columns, key := some key, keyAllowed := false } =
          some { cursor := ⟨p, ':' :: ' ' :: rest⟩, tokens, count, columns, keyAllowed := false } :=
      approach_eq skipFrom_colon (by simp [dropPast, hpast, forgetKey, hrequired]) hcolumns.lt
    rw [finish_of_approach happroach (by simp), token_colon rfl]
    simp [valueMark, openFor, inFlow]

theorem finish_value (v : Inline) (htail : Closes tail) :
    finish (fuel + 1)
        { cursor := ⟨p, ' ' :: (v.text.toList ++ tail)⟩, tokens, count, columns := [0], keyAllowed := false } =
      finish fuel
        { cursor := ⟨(p.after ' ').along (v.text.toList ++ tail.take 1), tail.drop 1⟩
          tokens := .plain v.text :: tokens
          count := count + 1
          columns := [0]
          keyAllowed := !tail.isEmpty } := by
  have hstarts := startsPlain_append tail (startsPlain_of_isInline v.inline)
  have hskip : skipFrom false false false p (' ' :: (v.text.toList ++ tail)) =
      (false, ⟨p.after ' ', v.text.toList ++ tail⟩) := by
    rw [skipFrom, if_neg (by decide), if_neg (by decide), if_pos (by simp),
      skipFrom_of_startsPlain hstarts fun _ => Nat.succ_ne_zero p.column]
  have happroach : approach
      { cursor := ⟨p, ' ' :: (v.text.toList ++ tail)⟩, tokens, count, columns := [0], keyAllowed := false } =
        some { cursor := ⟨p.after ' ', v.text.toList ++ tail⟩, tokens, count, columns := [0], keyAllowed := false } :=
    approach_eq hskip rfl (by simp)
  have hboundary : (Cursor.mk (p.after ' ') (v.text.toList ++ tail)).atBoundary = false := by
    simp [Cursor.atBoundary, Cursor.atOpening, Cursor.atClosing, Cursor.atRule, Place.after, isBreak]
  rw [finish_of_approach happroach (ne_nil_of_startsPlain hstarts), token_of_startsPlain rfl hboundary hstarts]
  simp [plain, noteKey, inFlow, least, plainScalar_closes v.inline htail, emit]

theorem isPast_along (w : Word) (p : Place) (index : Nat) (required : Bool) :
    PossibleKey.isPast ⟨p, index, required⟩ (p.along w.text.toList) = decide (keyReach < w.text.utf8ByteSize) := by
  simp [PossibleKey.isPast, Place.along_of_not_endsLine w.not_endsLine, String.utf8Len_toList]

/-- One line makes the tokens of its entry, if its colon is in reach. -/
theorem finish_line (e : Entry) (hp : p.column = 0) (hcolumns : Margin columns) (htail : Closes tail)
    (hreach : e.InReach) :
    finish (fuel + 3) { cursor := ⟨p, e.text.toList ++ tail⟩, tokens, count, columns } =
      finish fuel
        { cursor := ⟨p.along (e.text.toList ++ tail.take 1), tail.drop 1⟩
          tokens := e.tokens.reverse ++ (opening columns ++ tokens)
          count := count + 4 + (opening columns).length
          columns := [0]
          keyAllowed := !tail.isEmpty } := by
  have hpast := isPast_along e.key p count (columns.head? == some 0)
  rw [decide_eq_false (Nat.not_lt.mpr hreach)] at hpast
  rw [e.toList_text_append, finish_key e.key hp hcolumns, finish_colon hp rfl hpast hcolumns,
    finish_value e.value htail, e.toList_text_append, Place.along_append]
  have hcount : count + 3 + (opening columns).length + 1 = count + 4 + (opening columns).length := by omega
  simp [Entry.tokens, Place.along_append, hcount]

theorem finish_line_of_not_inReach (e : Entry) (hp : p.column = 0) (hcolumns : Margin columns)
    (hreach : ¬e.InReach) :
    finish (fuel + 2) { cursor := ⟨p, e.text.toList ++ tail⟩, tokens, count, columns } = none := by
  have hpast := isPast_along e.key p count (columns.head? == some 0)
  rw [decide_eq_true (Nat.lt_of_not_le hreach)] at hpast
  rw [e.toList_text_append, finish_key e.key hp hcolumns, finish_colon_of_isPast hpast hcolumns]

/-- At the end of the text the mapping is closed. -/
theorem finish_end {keyAllowed : Bool} :
    finish (fuel + 1) { cursor := ⟨p, []⟩, tokens, count, columns := [0], keyAllowed } =
      some (tokens.reverse ++ [.blockEnd]) := by
  simp [finish, approach, skipFrom, dropPast, closeFrom, inFlow, forgetKey]

theorem finish_document {terminated : Bool} {e : Entry} {es : List Entry} (hp : p.column = 0)
    (hcolumns : Margin columns) (hfuel : 3 * (e :: es).length < fuel) :
    finish fuel { cursor := ⟨p, (document terminated (e :: es)).toList⟩, tokens, count, columns } =
      if ∀ x ∈ e :: es, x.InReach then
        some (tokens.reverse ++ (opening columns ++ (e :: es).flatMap Entry.tokens ++ [.blockEnd]))
      else none := by
  induction es generalizing e fuel tokens count columns p with
  | nil =>
      obtain ⟨fuel, rfl⟩ : ∃ n, fuel = n + 4 := ⟨fuel - 4, by simp at hfuel; omega⟩
      rw [toList_document_cons]
      by_cases hreach : e.InReach
      · have hdrop : (behindLine terminated []).drop 1 = [] := by cases terminated <;> rfl
        rw [finish_line e hp hcolumns closes_behindLine hreach, hdrop, finish_end]
        simp [hreach, reverse_opening]
      · rw [finish_line_of_not_inReach e hp hcolumns hreach]
        simp [hreach]
  | cons e' es ih =>
      -- the line takes up the fuel of three tokens, and the next one begins at the margin again
      obtain ⟨fuel, rfl⟩ : ∃ n, fuel = n + 3 := ⟨fuel - 3, by simp at hfuel; omega⟩
      rw [toList_document_cons]
      by_cases hreach : e.InReach
      · have hcolumn : (p.along (e.text.toList ++ ['\n'])).column = 0 := by
          rw [Place.along_append]
          rfl
        rw [finish_line e hp hcolumns closes_behindLine hreach]
        simp only [behindLine, List.take_succ_cons, List.take_zero, List.drop_succ_cons, List.drop_zero,
          List.isEmpty_cons, Bool.not_false]
        have hopening : opening [0] = [] := rfl
        rw [ih hcolumn (.inr rfl) (by simp at hfuel ⊢; omega), hopening]
        simp [hreach, reverse_opening]
      · rw [finish_line_of_not_inReach e hp hcolumns hreach]
        simp [hreach]

end Lexer

variable {terminated : Bool} {entries : List Entry}

/-! ## The characters of a document -/

/-- The characters that a document holds as they are written. -/
abbrev Unchanged (c : Char) : Prop := isAdmitted c = true ∧ c ≠ '\r' ∧ c ≠ '\u0085'

theorem unchanged_of_isInline {cs : List Char} (h : isInline cs = true) : ∀ c ∈ cs, Unchanged c := by
  intro c hc
  obtain ⟨hadmitted, hline⟩ := admitted_of_continuesPlain (continuesPlain_of_isInline h) c hc
  simp only [endsLine, Bool.or_eq_false_iff, beq_eq_false_iff_ne] at hline
  exact ⟨hadmitted, hline.1.2, hline.2⟩

theorem Entry.unchanged (e : Entry) : ∀ c ∈ e.text.toList, Unchanged c := by
  have htext := e.toList_text_append []
  rw [List.append_nil, List.append_nil] at htext
  rw [htext]
  refine List.forall_mem_append.mpr ⟨unchanged_of_isInline (isInline_of_isWord e.key.word), ?_⟩
  have hvalue := unchanged_of_isInline e.value.inline
  exact List.forall_mem_cons.mpr ⟨by decide, List.forall_mem_cons.mpr ⟨by decide, hvalue⟩⟩

theorem unchanged_behindLine_nil : ∀ c ∈ behindLine terminated [], Unchanged c := by
  cases terminated with
  | false => simp [behindLine]
  | true => exact List.forall_mem_singleton.mpr (by decide)

theorem unchanged_document (terminated : Bool) (entries : List Entry) :
    ∀ c ∈ (document terminated entries).toList, Unchanged c := by
  induction entries with
  | nil =>
      rw [toList_document_nil]
      exact unchanged_behindLine_nil
  | cons e es ih =>
      rw [toList_document_cons]
      refine List.forall_mem_append.mpr ⟨e.unchanged, ?_⟩
      cases es with
      | nil => exact unchanged_behindLine_nil
      | cons e' es => exact List.forall_mem_cons.mpr ⟨by decide, ih⟩

theorem three_mul_le_length_document (terminated : Bool) (entries : List Entry) :
    3 * entries.length ≤ (document terminated entries).toList.length := by
  induction entries with
  | nil => simp
  | cons e es ih =>
      have hbehind : (document terminated es).toList.length ≤ (behindLine terminated es).length := by
        cases es with
        | nil => rw [toList_document_nil]
        | cons e' es => simp [behindLine]
      have hkey := List.length_pos_iff.mpr e.key.ne_nil
      rw [toList_document_cons, e.toList_text_append]
      simp only [List.length_cons, List.length_append]
      omega

theorem unifyBreaks_eq_self {cs : List Char} (h : ∀ c ∈ cs, c ≠ '\r' ∧ c ≠ '\u0085') : unifyBreaks cs = cs := by
  induction cs with
  | nil => rfl
  | cons c rest ih =>
      obtain ⟨⟨hreturn, hnext⟩, hrest⟩ := List.forall_mem_cons.mp h
      rw [unifyBreaks, if_neg (by simp [hreturn, hnext]), ih hrest]
      rintro - rfl
      exact absurd rfl hreturn

theorem start?_document :
    Cursor.start? (document terminated entries) = some { rest := (document terminated entries).toList } := by
  have h := unchanged_document terminated entries
  rw [Cursor.start?, if_pos (List.all_eq_true.mpr fun c hc => (h c hc).1),
    unifyBreaks_eq_self fun c hc => (h c hc).2]

theorem tokens?_document (hne : entries ≠ []) :
    tokens? (document terminated entries) =
      if ∀ e ∈ entries, e.InReach then some (.blockMapping :: entries.flatMap Entry.tokens ++ [.blockEnd])
      else none := by
  obtain ⟨e, es, rfl⟩ := List.exists_cons_of_ne_nil hne
  have hfuel := three_mul_le_length_document terminated (e :: es)
  rw [tokens?, start?_document]
  exact Lexer.finish_document rfl (.inl rfl) (Nat.lt_succ_of_le hfuel)

/-! ## Values -/

section

variable {fuel : Nat} {bare : Bool} {text : String} {rest : List Token}

theorem valueUnless_plain :
    valueUnless Token.endsField true bare (fuel + 2) (.plain text :: rest) = some (.plain text, rest) := rfl

theorem fieldValue_plain :
    fieldValue Token.endsField true (fuel + 3) (.value :: .plain text :: rest) = some (.plain text, rest) := rfl

theorem blockFields_entries (hfuel : entries.length + 4 ≤ fuel) :
    blockFields fuel (entries.flatMap Entry.tokens ++ .blockEnd :: rest) =
      some (entries.map Entry.pair, rest) := by
  induction entries generalizing fuel with
  | nil =>
      obtain ⟨fuel, rfl⟩ : ∃ n, fuel = n + 1 := ⟨fuel - 1, by simp at hfuel; omega⟩
      rfl
  | cons e es ih =>
      obtain ⟨fuel, rfl⟩ : ∃ n, fuel = n + 4 := ⟨fuel - 4, by simp at hfuel; omega⟩
      have hrest : blockFields (fuel + 3) (es.flatMap Entry.tokens ++ .blockEnd :: rest) = _ :=
        ih (by simp at hfuel; omega)
      rw [List.flatMap_cons, Entry.tokens, List.append_assoc, List.cons_append, blockFields]
      simp only [List.cons_append, List.nil_append, valueUnless_plain, fieldValue_plain, hrest, Option.bind_eq_bind,
        Option.bind_some]
      rfl

theorem value_entries (hfuel : entries.length + 4 ≤ fuel) :
    value true bare (fuel + 1) (.blockMapping :: (entries.flatMap Entry.tokens ++ .blockEnd :: rest)) =
      some (.mapping (entries.map Entry.pair), rest) := by
  rw [value, if_pos rfl, blockFields_entries hfuel]
  rfl

end

theorem parse?_document_nil : parse? (document terminated []) = some .empty := by
  rw [parse?, tokens?, start?_document]
  cases terminated <;> rfl

theorem parse?_document (hne : entries ≠ []) :
    parse? (document terminated entries) =
      if ∀ e ∈ entries, e.InReach then some (.mapping (entries.map Entry.pair)) else none := by
  rw [parse?, tokens?_document hne]
  by_cases hreach : ∀ e ∈ entries, e.InReach
  · have hlength : (entries.flatMap Entry.tokens).length = 4 * entries.length := by
      simp [List.length_flatMap, Entry.tokens, Nat.mul_comm]
    have hcontent (fuel : Nat) (ts : List Token) :
        content fuel (.blockMapping :: ts) = value true false fuel (.blockMapping :: ts) := rfl
    rw [if_pos hreach, if_pos hreach, List.cons_append, Option.bind_eq_bind, Option.bind_some, hcontent,
      value_entries (by simp only [List.length_cons, List.length_append, hlength]; omega)]
    rfl
  · rw [if_neg hreach, if_neg hreach]
    rfl

end Behavior.Yaml
