import Behavior.Json.Reader
import Behavior.Json.Writer
import Behavior.Proofs.Decimal.Natural
import Behavior.Proofs.Json.Text
/-!
# Writing and reading JSON

A value that has no other numbers than natural ones, and no text that is missing, is read back from its
compact form (`Json.parse?_render`).
-/

namespace Behavior.Json

variable {c : Char} {cs rest : List Char} {fuel n : Nat}

/-! ## Values that the compact form tells apart -/

mutual

def Plain : Json → Prop
  | .numeral _ => False
  | .text s => s.isSome
  | .array vs => PlainAll vs
  | .object fs => PlainFields fs
  | _ => True

def PlainAll : List Json → Prop
  | [] => True
  | v :: vs => v.Plain ∧ PlainAll vs

def PlainFields : List (Option String × Json) → Prop
  | [] => True
  | (k, v) :: fs => k.isSome ∧ v.Plain ∧ PlainFields fs

end

/-! ## Numbers -/

/-- What may stand behind a value in a compact form: nothing, or a sign that no number goes on with. -/
def Follows (rest : List Char) : Prop := ∀ c ∈ rest.head?, c = ',' ∨ c = ']' ∨ c = '\x7d'

theorem follows_nil : Follows [] := nofun

theorem follows_cons (h : c = ',' ∨ c = ']' ∨ c = '\x7d') : Follows (c :: cs) := by
  intro d hd
  rwa [← Option.some.inj hd]

theorem afterDigits?_append (hne : cs ≠ []) (hall : ∀ c ∈ cs, c.isDigit = true)
    (hrest : ∀ c ∈ rest.head?, c.isDigit = false) : afterDigits? (cs ++ rest) = some rest := by
  have hdrop : (cs ++ rest).dropWhile Char.isDigit = rest := by
    rw [List.dropWhile_append_of_pos hall]
    cases rest with
    | nil => rfl
    | cons c rest => rw [List.dropWhile_cons_of_neg (by simp [hrest c rfl])]
  have hlt : rest.length < (cs ++ rest).length := by
    have := List.length_pos_iff.mpr hne
    simp only [List.length_append]
    omega
  simp only [afterDigits?, hdrop, if_pos hlt]

theorem afterWhole?_toDigits (hrest : ∀ c ∈ rest.head?, c.isDigit = false) :
    afterWhole? (Nat.toDigits 10 n ++ rest) = some rest := by
  by_cases hn : n = 0
  · subst hn
    have hhead : (rest.head?.map Char.isDigit).getD false = false := by
      cases rest with
      | nil => rfl
      | cons c rest => simp [hrest c rfl]
    rw [Nat.toDigits_zero, List.singleton_append, afterWhole?]
    simp [hhead]
  · obtain ⟨c, cs, hcs, -, hc⟩ := Decimal.exists_toDigits_eq_cons n
    have hdigits : afterDigits? (Nat.toDigits 10 n ++ rest) = some rest :=
      afterDigits?_append Nat.toDigits_ne_nil (fun _ => Decimal.isDigit_of_mem_toDigits) hrest
    rw [hcs, List.cons_append] at hdigits ⊢
    rw [afterWhole?]
    · exact hdigits
    · intro _ h
      exact absurd (List.cons.inj h).1 (hc hn)

theorem number?_toDigits (hrest : Follows rest) :
    number? (Nat.toDigits 10 n ++ rest) = some (.natural n, rest) := by
  have hdigit : ∀ c ∈ rest.head?, c.isDigit = false := by
    intro c hc
    rcases hrest c hc with rfl | rfl | rfl <;> rfl
  have hwhole := afterWhole?_toDigits (n := n) hdigit
  have hfraction : afterFraction? rest = some rest := by
    rw [afterFraction?]
    rintro _ rfl
    exact absurd (hrest _ rfl) (by decide)
  have hexponent : afterExponent? rest = some rest := by
    rw [afterExponent?]
    · rintro _ rfl
      exact absurd (hrest _ rfl) (by decide)
    · rintro _ rfl
      exact absurd (hrest _ rfl) (by decide)
  unfold number?
  split
  · next _ heq =>
      obtain ⟨c, cs, hcs, hc, -⟩ := Decimal.exists_toDigits_eq_cons n
      rw [hcs, List.cons_append] at heq
      rw [(List.cons.inj heq).1] at hc
      exact absurd hc (by decide)
  · simp [hwhole, hfraction, hexponent, Decimal.digits?_toDigits]

/-! ## Values -/

theorem skip_of_not_blank (h : isBlank c = false) : skip (c :: cs) = c :: cs :=
  List.dropWhile_cons_of_neg (by simp [h])

theorem isBlank_of_isDigit (h : c.isDigit = true) : isBlank c = false := by
  rw [Bool.eq_false_iff]
  intro hblank
  simp only [isBlank, Bool.or_eq_true, beq_iff_eq] at hblank
  rcases hblank with ((rfl | rfl) | rfl) | rfl <;> exact absurd h (by decide)

theorem value?_of_isDigit (h : c.isDigit = true) : value? (fuel + 1) (c :: cs) = number? (c :: cs) := by
  rw [value?, skip_of_not_blank (isBlank_of_isDigit h)]
  split
  all_goals first | rfl | (next heq => rw [(List.cons.inj heq).1] at h; exact absurd h (by decide))

/-- The first sign of a compact form is no blank and closes nothing. -/
theorem exists_write_eq_cons {v : Json} (h : v.Plain) :
    ∃ c cs, write v = c :: cs ∧ isBlank c = false ∧ c ≠ ']' := by
  cases v with
  | null => exact ⟨_, _, by rw [write], by decide, by decide⟩
  | bool b => cases b <;> exact ⟨_, _, by rw [write], by decide, by decide⟩
  | natural n =>
      obtain ⟨c, cs, hcs, hc, -⟩ := Decimal.exists_toDigits_eq_cons n
      refine ⟨c, cs, by rw [write, hcs], isBlank_of_isDigit hc, ?_⟩
      rintro rfl
      exact absurd hc (by decide)
  | numeral => exact h.elim
  | text s => exact ⟨_, _, by rw [write, writeText, quote], by decide, by decide⟩
  | array vs => exact ⟨_, _, by rw [write], by decide, by decide⟩
  | object fs => exact ⟨_, _, by rw [write], by decide, by decide⟩

theorem exists_writeItems_eq_cons {v : Json} (h : v.Plain) (vs : List Json) :
    ∃ c cs, writeItems (v :: vs) = c :: cs ∧ isBlank c = false ∧ c ≠ ']' := by
  obtain ⟨c, cs, hcs, hblank, hc⟩ := exists_write_eq_cons h
  cases vs with
  | nil => exact ⟨c, cs, by rw [writeItems, hcs], hblank, hc⟩
  | cons w vs => exact ⟨c, _, by rw [writeItems, hcs, List.cons_append], hblank, hc⟩

theorem exists_writeFields_eq_cons (k : Option String) (v : Json) (fs : List (Option String × Json)) :
    ∃ cs, writeFields ((k, v) :: fs) = '"' :: cs := by
  cases fs with
  | nil => exact ⟨_, by rw [writeFields, writeText, quote, List.cons_append]⟩
  | cons f fs => exact ⟨_, by rw [writeFields, writeText, quote, List.cons_append]⟩

theorem exists_writeText_eq_cons {s : Option String} (h : s.isSome) :
    ∃ cs, writeText s = '"' :: cs ∧ ∀ rest, text? (cs ++ rest) = some (s, rest) := by
  obtain ⟨s, rfl⟩ := Option.isSome_iff_exists.mp h
  refine ⟨_, rfl, fun rest => ?_⟩
  rw [List.append_assoc, List.singleton_append]
  exact text?_quote s rest

mutual

theorem value?_write : (v : Json) → (fuel : Nat) → (rest : List Char) → v.Plain → 2 * (write v).length ≤ fuel →
    Follows rest → value? fuel (write v ++ rest) = some (v, rest)
  | v, 0, _, hplain, hfuel, _ => by
      obtain ⟨c, cs, hcs, -⟩ := exists_write_eq_cons hplain
      simp [hcs] at hfuel
  | .null, fuel + 1, rest, _, _, _ => by
      simp [write, value?, skip, isBlank]
  | .bool b, fuel + 1, rest, _, _, _ => by
      cases b <;> simp [write, value?, skip, isBlank]
  | .natural n, fuel + 1, rest, _, _, hrest => by
      have hnumber := number?_toDigits (n := n) hrest
      obtain ⟨c, cs, hcs, hc, -⟩ := Decimal.exists_toDigits_eq_cons n
      rw [write]
      rw [hcs, List.cons_append] at hnumber ⊢
      rw [value?_of_isDigit hc, hnumber]
  | .text s, fuel + 1, rest, hplain, _, _ => by
      obtain ⟨cs, hcs, htext⟩ := exists_writeText_eq_cons hplain
      rw [write, hcs, List.cons_append, value?, skip_of_not_blank (by decide)]
      simp [htext]
  | .array [], fuel + 1, rest, _, _, _ => by
      simp [write, writeItems, value?, skip, isBlank]
  | .array (v :: vs), fuel + 1, rest, hplain, hfuel, _ => by
      simp only [write, List.length_cons, List.length_append] at hfuel
      have hvs := items?_writeItems v vs fuel rest hplain (by omega)
      obtain ⟨c, cs, hcs, hblank, hc⟩ := exists_writeItems_eq_cons hplain.1 vs
      rw [write, List.cons_append, List.append_assoc, List.singleton_append, value?, skip_of_not_blank (by decide)]
      rw [hcs, List.cons_append] at hvs ⊢
      simp [skip_of_not_blank hblank, hc, hvs]
  | .object [], fuel + 1, rest, _, _, _ => by
      simp [write, writeFields, value?, skip, isBlank]
  | .object ((k, v) :: fs), fuel + 1, rest, hplain, hfuel, _ => by
      simp only [write, List.length_cons, List.length_append] at hfuel
      have hfs := fields?_writeFields k v fs fuel rest hplain (by omega)
      obtain ⟨cs, hcs⟩ := exists_writeFields_eq_cons k v fs
      rw [write, List.cons_append, List.append_assoc, List.singleton_append, value?, skip_of_not_blank (by decide)]
      rw [hcs, List.cons_append] at hfs ⊢
      simp [skip_of_not_blank, isBlank, hfs]

theorem items?_writeItems : (v : Json) → (vs : List Json) → (fuel : Nat) → (rest : List Char) →
    PlainAll (v :: vs) → 2 * (writeItems (v :: vs)).length < fuel →
    items? fuel (writeItems (v :: vs) ++ ']' :: rest) = some (v :: vs, rest)
  | v, vs, 0, _, _, hfuel => absurd hfuel (Nat.not_lt_zero _)
  | v, [], fuel + 1, rest, hplain, hfuel => by
      simp only [writeItems] at hfuel ⊢
      have hv := value?_write v fuel (']' :: rest) hplain.1 (by omega) (follows_cons (by simp))
      rw [items?, hv]
      simp [skip, isBlank]
  | v, w :: vs, fuel + 1, rest, hplain, hfuel => by
      simp only [writeItems, List.length_append, List.length_cons] at hfuel
      have hv := value?_write v fuel (',' :: (writeItems (w :: vs) ++ ']' :: rest)) hplain.1
        (by omega) (follows_cons (by simp))
      have hvs := items?_writeItems w vs fuel rest hplain.2 (by omega)
      rw [writeItems, List.append_assoc, List.cons_append, items?, hv]
      simp [skip, isBlank, hvs]

theorem fields?_writeFields : (k : Option String) → (v : Json) → (fs : List (Option String × Json)) →
    (fuel : Nat) → (rest : List Char) → PlainFields ((k, v) :: fs) →
    2 * (writeFields ((k, v) :: fs)).length < fuel →
    fields? fuel (writeFields ((k, v) :: fs) ++ '\x7d' :: rest) = some ((k, v) :: fs, rest)
  | _, _, _, 0, _, _, hfuel => absurd hfuel (Nat.not_lt_zero _)
  | k, v, [], fuel + 1, rest, hplain, hfuel => by
      simp only [writeFields, List.length_append, List.length_cons] at hfuel
      obtain ⟨cs, hcs, htext⟩ := exists_writeText_eq_cons hplain.1
      have hv := value?_write v fuel ('\x7d' :: rest) hplain.2.1 (by omega) (follows_cons (by simp))
      rw [writeFields, hcs, List.cons_append, List.cons_append, List.append_assoc, List.cons_append, fields?,
        skip_of_not_blank (by decide)]
      simp [htext, hv, skip_of_not_blank, isBlank]
  | k, v, (l, w) :: fs, fuel + 1, rest, hplain, hfuel => by
      simp only [writeFields, List.length_append, List.length_cons] at hfuel
      obtain ⟨cs, hcs, htext⟩ := exists_writeText_eq_cons hplain.1
      have hv := value?_write v fuel (',' :: (writeFields ((l, w) :: fs) ++ '\x7d' :: rest))
        hplain.2.1 (by omega) (follows_cons (by simp))
      have hfs := fields?_writeFields l w fs fuel rest hplain.2.2 (by omega)
      rw [writeFields, hcs, List.cons_append, List.cons_append, List.append_assoc, List.cons_append,
        List.append_assoc, List.cons_append, fields?, skip_of_not_blank (by decide)]
      simp [htext, hv, hfs, skip_of_not_blank, isBlank]

end

/-- A plain value is read back from its compact form. -/
theorem parse?_render {v : Json} (h : v.Plain) : parse? v.render = some v := by
  have hvalue := value?_write v (2 * (write v).length + 2) [] h (by omega) follows_nil
  rw [List.append_nil] at hvalue
  simp [parse?, render, hvalue, skip]

end Behavior.Json
