import Behavior.Yaml.Token.Lexer
import Mathlib.Data.String.Basic
/-!
# Plain scalars on one line

Texts that stand on a line without quotes, as a value or as a key, and what the readers of scalars make of them.
-/

namespace Behavior.Yaml

/-! ## Texts on one line -/

/-- The characters that end a line, in any spelling. -/
def endsLine (c : Char) : Bool := isBreak c || c == '\r' || c == '\u0085'

/-- Whether a plain scalar goes on to the end of a text: no character ends the line, the last one is no blank, no
colon stands before a blank or at the end, and no number sign behind a blank. -/
def continuesPlain (behindBlank : Bool) : List Char → Bool
  | [] => !behindBlank
  | c :: rest =>
    isAdmitted c && !endsLine c && !(c == '#' && behindBlank) && !(c == ':' && atGap rest)
      && continuesPlain (isBlank c) rest

/-- Whether a text is a plain scalar on one line. -/
def isInline (cs : List Char) : Bool := startsPlain false cs && continuesPlain false cs

/-- Whether a text is a plain scalar without blanks. At the beginning of a line a byte order mark would not count. -/
def isWord (cs : List Char) : Bool := isInline cs && cs.all (!isBlank ·) && cs.head? != some '\ufeff'

/-- A text that is a plain scalar on one line. -/
structure Inline where
  text : String
  inline : isInline text.toList = true

/-- A text that is a plain scalar without blanks. -/
structure Word where
  text : String
  word : isWord text.toList = true

variable {c : Char} {cs rest tail text blanks : List Char} {p : Place} {least : Nat}

theorem startsPlain_of_isInline (h : isInline cs = true) : startsPlain false cs = true := by
  rw [isInline, Bool.and_eq_true] at h
  exact h.1

theorem continuesPlain_of_isInline (h : isInline cs = true) : continuesPlain false cs = true := by
  rw [isInline, Bool.and_eq_true] at h
  exact h.2

theorem isInline_of_isWord (h : isWord cs = true) : isInline cs = true := by
  rw [isWord, Bool.and_eq_true, Bool.and_eq_true] at h
  exact h.1.1

theorem ne_nil_of_startsPlain (h : startsPlain false cs = true) : cs ≠ [] := by
  rintro rfl
  cases h

theorem not_gap_of_startsPlain (h : startsPlain false (c :: rest) = true) : isBlank c = false ∧ isBreak c = false := by
  by_cases hgap : (isBlank c || isBreak c) = true
  · rw [startsPlain, if_pos hgap] at h
    cases h
  · simpa using hgap

theorem mark_or_of_startsPlain (h : startsPlain false (c :: rest) = true) :
    (c = '-' ∨ c = '?' ∨ c = ':') ∧ atGap rest = false ∨ c ∉ indicators := by
  obtain ⟨hblank, hbreak⟩ := not_gap_of_startsPlain h
  by_cases hdash : c = '-'
  · subst hdash
    exact .inl ⟨.inl rfl, by simpa [startsPlain, hblank, hbreak] using h⟩
  · by_cases hmark : c = '?' ∨ c = ':'
    · exact .inl ⟨.inr hmark, by simpa [startsPlain, hblank, hbreak, hdash, hmark] using h⟩
    · exact .inr (by simpa [startsPlain, hblank, hbreak, hdash, hmark] using h)

theorem atGap_append (h : atGap cs = false) : atGap (cs ++ tail) = false := by
  cases cs with
  | nil => cases h
  | cons c rest => exact h

theorem startsPlain_append (tail : List Char) (h : startsPlain false cs = true) :
    startsPlain false (cs ++ tail) = true := by
  cases cs with
  | nil => cases h
  | cons c rest =>
      obtain ⟨hblank, hbreak⟩ := not_gap_of_startsPlain h
      obtain ⟨hc, hgap⟩ | hc := mark_or_of_startsPlain h
      · obtain rfl | rfl | rfl := hc <;> simp [startsPlain, hblank, hbreak, atGap_append hgap]
      · have hne : ∀ d ∈ indicators, c ≠ d := fun d hd hcd => hc (hcd ▸ hd)
        simp [startsPlain, hblank, hbreak, hc, hne '-' (by decide), hne '?' (by decide), hne ':' (by decide)]

theorem isBreak_of_endsLine (h : endsLine c = false) : isBreak c = false :=
  (Bool.or_eq_false_iff.mp (Bool.or_eq_false_iff.mp h).1).1

theorem admitted_of_continuesPlain {behindBlank : Bool} (h : continuesPlain behindBlank cs = true) :
    ∀ c ∈ cs, isAdmitted c = true ∧ endsLine c = false := by
  induction cs generalizing behindBlank with
  | nil => simp
  | cons c rest ih =>
      simp only [continuesPlain, Bool.and_eq_true, Bool.not_eq_true'] at h
      exact List.forall_mem_cons.mpr ⟨⟨h.1.1.1.1, h.1.1.1.2⟩, ih h.2⟩

theorem Word.not_blank (w : Word) : ∀ c ∈ w.text.toList, isBlank c = false := by
  have h := w.word
  simp only [isWord, Bool.and_eq_true, List.all_eq_true, Bool.not_eq_true'] at h
  exact h.1.2

theorem Word.not_endsLine (w : Word) : ∀ c ∈ w.text.toList, endsLine c = false := fun c hc =>
  (admitted_of_continuesPlain (continuesPlain_of_isInline (isInline_of_isWord w.word)) c hc).2

theorem Word.not_gap (w : Word) : ∀ c ∈ w.text.toList, isBlank c = false ∧ isBreak c = false := fun c hc =>
  ⟨w.not_blank c hc, isBreak_of_endsLine (w.not_endsLine c hc)⟩

theorem Word.head?_ne (w : Word) : w.text.toList.head? ≠ some '\ufeff' := by
  have h := w.word
  rw [isWord, Bool.and_eq_true, bne_iff_ne] at h
  exact h.2

theorem Word.ne_nil (w : Word) : w.text.toList ≠ [] :=
  ne_nil_of_startsPlain (startsPlain_of_isInline (isInline_of_isWord w.word))

/-! ## Letters, digits and underscores -/

/-- The characters of names and numbers. -/
def isWordChar (c : Char) : Bool := c.isAlphanum || c == '_'

/-- The characters that mean something to a reader of scalars. -/
def marks : List Char :=
  indicators ++ [' ', '\t', '\n', '\r', '\u0085', '\u2028', '\u2029', '\ufeff']

theorem isAdmitted_of_isWordChar (h : isWordChar c = true) : isAdmitted c = true := by
  have hrange : 0x20 ≤ c.toNat ∧ c.toNat ≤ 0x7E := by
    unfold isWordChar Char.isAlphanum Char.isAlpha Char.isUpper Char.isLower Char.isDigit at h
    simp only [Bool.or_eq_true, Bool.and_eq_true, decide_eq_true_eq, beq_iff_eq, ge_iff_le, UInt32.le_iff_toNat_le,
      Char.reduceVal, UInt32.reduceToNat] at h
    obtain h | rfl := h
    · change 0x20 ≤ c.val.toNat ∧ c.val.toNat ≤ 0x7E
      omega
    · decide
  rw [isAdmitted, List.any_eq_true]
  exact ⟨(0x20, 0x7E), by decide, by simpa using hrange⟩

theorem ne_of_isWordChar (h : isWordChar c = true) : ∀ d ∈ marks, c ≠ d := by
  have hmarks : marks.all (!isWordChar ·) = true := by decide +kernel
  rintro d hd rfl
  rw [List.all_eq_true] at hmarks
  simpa [h] using hmarks c hd

theorem isBlank_of_isWordChar (h : isWordChar c = true) : isBlank c = false := by
  simp [isBlank, ne_of_isWordChar h ' ' (by decide), ne_of_isWordChar h '\t' (by decide)]

theorem endsLine_of_isWordChar (h : isWordChar c = true) : endsLine c = false := by
  simp [endsLine, isBreak, ne_of_isWordChar h '\n' (by decide), ne_of_isWordChar h '\r' (by decide),
    ne_of_isWordChar h '\u0085' (by decide), ne_of_isWordChar h '\u2028' (by decide),
    ne_of_isWordChar h '\u2029' (by decide)]

theorem continuesPlain_of_isWordChar (h : ∀ c ∈ cs, isWordChar c = true) : continuesPlain false cs = true := by
  induction cs with
  | nil => rfl
  | cons c rest ih =>
      obtain ⟨hc, hrest⟩ := List.forall_mem_cons.mp h
      simp [continuesPlain, isAdmitted_of_isWordChar hc, endsLine_of_isWordChar hc, isBlank_of_isWordChar hc,
        ne_of_isWordChar hc ':' (by decide), ih hrest]

theorem startsPlain_of_isWordChar (h : isWordChar c = true) : startsPlain false (c :: rest) = true := by
  have hindicators : c ∉ indicators := fun hc => ne_of_isWordChar h c (List.mem_append_left _ hc) rfl
  simp [startsPlain, isBlank_of_isWordChar h, isBreak_of_endsLine (endsLine_of_isWordChar h), hindicators,
    ne_of_isWordChar h '-' (by decide), ne_of_isWordChar h '?' (by decide), ne_of_isWordChar h ':' (by decide)]

theorem isWord_of_isWordChar (hne : cs ≠ []) (h : ∀ c ∈ cs, isWordChar c = true) : isWord cs = true := by
  have hblank : cs.all (!isBlank ·) = true := by
    simpa using fun c hc => isBlank_of_isWordChar (h c hc)
  obtain ⟨c, rest, rfl⟩ := List.exists_cons_of_ne_nil hne
  have hc := h c List.mem_cons_self
  simp [isWord, isInline, startsPlain_of_isWordChar hc, continuesPlain_of_isWordChar h, hblank,
    ne_of_isWordChar hc '\ufeff' (by decide)]

/-! ## Places behind a text -/

/-- The place behind a text. -/
def Place.along (p : Place) (cs : List Char) : Place := cs.foldl Place.after p

@[simp]
theorem Place.along_nil : p.along [] = p := rfl

@[simp]
theorem Place.along_cons : p.along (c :: cs) = (p.after c).along cs := rfl

theorem Place.along_append {ds : List Char} : p.along (cs ++ ds) = (p.along cs).along ds := List.foldl_append

theorem Place.after_of_not_endsLine (h : endsLine c = false) :
    p.after c = ⟨p.offset + c.utf8Size, p.line, p.column + 1⟩ := by
  simp [after, isBreak_of_endsLine h]

theorem Place.along_of_not_endsLine (h : ∀ c ∈ cs, endsLine c = false) :
    p.along cs = ⟨p.offset + String.utf8Len cs, p.line, p.column + cs.length⟩ := by
  induction cs generalizing p with
  | nil => rfl
  | cons c rest ih =>
      obtain ⟨hc, hrest⟩ := List.forall_mem_cons.mp h
      rw [along_cons, after_of_not_endsLine hc, ih hrest, String.utf8Len_cons, List.length_cons]
      simp only [Place.mk.injEq, true_and]
      omega

/-! ## Reading a scalar -/

/-- The reader takes up a text to its end, whatever follows it. -/
theorem plainFrom_append (h : continuesPlain (!blanks.isEmpty) cs = true) :
    plainFrom false least text (.blanks blanks) p (cs ++ tail) =
      plainFrom false least (cs.reverse ++ (blanks ++ text)) .empty (p.along cs) tail := by
  induction cs generalizing text blanks p with
  | nil =>
      have hblanks : blanks = [] := by simpa [continuesPlain] using h
      subst hblanks
      rfl
  | cons c rest ih =>
      simp only [continuesPlain, Bool.and_eq_true, Bool.not_eq_true', Bool.and_eq_false_imp, beq_iff_eq] at h
      obtain ⟨⟨⟨⟨-, hline⟩, hcomment⟩, hcolon⟩, hrest⟩ := h
      have hbreak := isBreak_of_endsLine hline
      rw [List.cons_append, plainFrom]
      by_cases hblank : isBlank c = true
      · -- a blank is held back until the text goes on behind it
        have hadd : (Gap.blanks blanks).add c = .blanks (c :: blanks) := by simp [Gap.add, hbreak]
        rw [if_pos (by simp [hblank]), if_neg (by simp [Gap.crossed]), hadd, ih (by simpa [hblank] using hrest)]
        simp
      · have hgap : c = '#' → Gap.blanks blanks = .empty := by
          intro hc
          simpa [Gap.empty] using hcomment hc
        have hends : endsPlain false least (.blanks blanks) p c (rest ++ tail) = false := by
          simp only [endsPlain, Gap.crossed, Bool.false_and, Bool.or_false, Bool.false_or, Bool.or_eq_false_iff,
            Bool.and_eq_false_imp, beq_iff_eq, bne_eq_false_iff_eq]
          exact ⟨hgap, fun hc => atGap_append (hcolon hc)⟩
        rw [if_neg (by simp [hblank, hbreak]), if_neg (by simp [hends]), if_neg (by simp)]
        change plainFrom false least _ (.blanks []) _ _ = _
        rw [ih (by simpa [hblank] using hrest)]
        simp [Gap.text]

/-- A scalar ends in front of a colon before a blank. -/
theorem plainFrom_colon (hrest : atGap rest = true) :
    plainFrom false least text .empty p (':' :: rest) =
      some { text := gathered text, next := ⟨p, ':' :: rest⟩ } := by
  rw [plainFrom, if_neg (by decide), if_pos (by simp [endsPlain, hrest])]
  rfl

/-- What may stand behind a line: nothing, or a line feed, and behind it the end or a line that is not indented. -/
inductive Closes : List Char → Prop
  | atEnd : Closes []
  | lineFeed {rest : List Char} (h : ∀ c ∈ rest.head?, isBlank c = false ∧ isBreak c = false) : Closes ('\n' :: rest)

/-- A scalar ends at the end of its line, and the line feed is passed as well. -/
theorem plainFrom_closes (h : Closes tail) :
    plainFrom false (least + 1) text .empty p tail =
      some { text := gathered text, next := ⟨p.along (tail.take 1), tail.drop 1⟩, crossed := !tail.isEmpty } := by
  cases h with
  | atEnd => rfl
  | @lineFeed rest h =>
      rw [plainFrom, if_pos (by decide), if_neg (by simp)]
      cases rest with
      | nil => rfl
      | cons c rest =>
          obtain ⟨hblank, hbreak⟩ := h c rfl
          have hends : endsPlain false (least + 1) (.breaks ['\n']) (p.after '\n') c rest = true := by
            simp [endsPlain, Gap.crossed, Place.after, isBreak]
          rw [plainFrom, if_neg (by simp [hblank, hbreak])]
          exact if_pos hends

theorem gathered_reverse : gathered cs.reverse = String.ofList cs := by rw [gathered, List.reverse_reverse]

theorem plainScalar_append (h : isInline cs = true) :
    plainScalar false least ⟨p, cs ++ tail⟩ = plainFrom false least cs.reverse .empty (p.along cs) tail := by
  have happend : plainFrom false least [] (.blanks []) p (cs ++ tail) = _ :=
    plainFrom_append (continuesPlain_of_isInline h)
  rwa [List.append_nil, List.append_nil] at happend

theorem plainScalar_colon (h : isInline cs = true) (hrest : atGap rest = true) :
    plainScalar false least ⟨p, cs ++ ':' :: rest⟩ =
      some { text := String.ofList cs, next := ⟨p.along cs, ':' :: rest⟩ } := by
  rw [plainScalar_append h, plainFrom_colon hrest, gathered_reverse]

theorem plainScalar_closes (h : isInline cs = true) (htail : Closes tail) :
    plainScalar false (least + 1) ⟨p, cs ++ tail⟩ =
      some { text := String.ofList cs, next := ⟨p.along (cs ++ tail.take 1), tail.drop 1⟩, crossed := !tail.isEmpty } := by
  rw [plainScalar_append h, plainFrom_closes htail, gathered_reverse, Place.along_append]

end Behavior.Yaml
