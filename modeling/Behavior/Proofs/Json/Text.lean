import Behavior.Json.Text
/-!
# Escaping and reading texts

A text in quotes reads back as the text, whatever its characters are (`Json.text?_quote`).
-/

namespace Behavior.Json

variable {c : Char} {cs rest : List Char} {ps : List Piece} {p : Piece}

/-- What one escape or plain character contributes, if it stands for this character. Of those that are written
as a code unit, none is half of a character. -/
def Piece.Spells (c : Char) : Piece → Prop
  | .char d => d = c
  | .unit n => n = c.toNat ∧ n < 0x20

theorem Piece.Spells.join? (h : p.Spells c) : Json.join? (p :: ps) = (Json.join? ps).map (c :: ·) := by
  cases p with
  | char d =>
      obtain rfl := h
      rw [Json.join?]
  | unit n =>
      obtain ⟨rfl, hlt⟩ := h
      have hhigh : isHigh c.toNat = false := by simp only [isHigh]; grind
      have hlow : isLow c.toNat = false := by simp only [isLow]; grind
      rcases ps with _ | ⟨d | m, ps⟩ <;> simp [Json.join?, hhigh, hlow]

theorem hexValue?_hexDigit : ∀ n < 16, Text.hexValue? (Text.hexDigit n) = some n := by decide

theorem unit?_hexDigits {n : Nat} (h : n < 0x20) :
    unit? '0' '0' (Text.hexDigit (n / 16)) (Text.hexDigit (n % 16)) = some n := by
  have hzero : Text.hexValue? '0' = some 0 := by decide
  have hhigh := hexValue?_hexDigit (n / 16) (by omega)
  have hlow := hexValue?_hexDigit (n % 16) (by omega)
  have hn : 16 * (n / 16) + n % 16 = n := by omega
  simp [unit?, hzero, hhigh, hlow, hn]

/-- The characters that have a short escape when they are written. -/
def shorts : List Char := ['"', '\\', '\x08', '\x0c', '\n', '\r', '\t']

theorem exists_escape_of_mem_shorts (h : c ∈ shorts) :
    ∃ e, escape c = ['\\', e] ∧ e ≠ 'u' ∧ shortEscape? e = some c := by
  simp only [shorts, List.mem_cons, List.not_mem_nil, or_false] at h
  rcases h with rfl | rfl | rfl | rfl | rfl | rfl | rfl <;> exact ⟨_, rfl, by decide, rfl⟩

theorem escape_of_not_mem_shorts (h : c ∉ shorts) :
    escape c = if c.toNat < 0x20 then
      ['\\', 'u', '0', '0', Text.hexDigit (c.toNat / 16), Text.hexDigit (c.toNat % 16)] else [c] := by
  simp only [shorts, List.mem_cons, List.not_mem_nil, or_false, not_or] at h
  simp [escape, h]

theorem pieces?_short {e : Char} (he : e ≠ 'u') (hc : shortEscape? e = some c) :
    pieces? ('\\' :: e :: rest) = (pieces? rest).map fun (ps, rest) => (.char c :: ps, rest) := by
  rw [pieces?]
  · rw [hc]
    cases pieces? rest <;> rfl
  · intro _ _ _ _ _ hu
    exact absurd hu he

theorem pieces?_plain (hquote : c ≠ '"') (hslash : c ≠ '\\') (hge : ¬c.toNat < 0x20) :
    pieces? (c :: rest) = (pieces? rest).map fun (ps, rest) => (.char c :: ps, rest) := by
  rw [pieces?, if_neg hge]
  · cases pieces? rest <;> rfl
  all_goals simp_all

/-- The written form of a character gives one piece that spells the character. -/
theorem exists_pieces?_escape (c : Char) (rest : List Char) :
    ∃ p : Piece, p.Spells c ∧
      pieces? (escape c ++ rest) = (pieces? rest).map fun (ps, rest) => (p :: ps, rest) := by
  by_cases hshort : c ∈ shorts
  · obtain ⟨e, hescape, he, hc⟩ := exists_escape_of_mem_shorts hshort
    refine ⟨.char c, rfl, ?_⟩
    rw [hescape]
    exact pieces?_short he hc
  · rw [escape_of_not_mem_shorts hshort]
    simp only [shorts, List.mem_cons, not_or] at hshort
    obtain ⟨hquote, hslash, -⟩ := hshort
    split
    · next hlt =>
        refine ⟨.unit c.toNat, ⟨rfl, hlt⟩, ?_⟩
        simp only [List.cons_append, List.nil_append]
        rw [pieces?, unit?_hexDigits hlt]
        cases pieces? rest <;> rfl
    · next hge =>
        refine ⟨.char c, rfl, ?_⟩
        rw [List.singleton_append]
        exact pieces?_plain hquote hslash hge

/-- Reading what stands between the quotes gives the text, and then what follows the closing quote. -/
theorem exists_pieces?_flatMap_escape (cs rest : List Char) :
    ∃ ps, pieces? (cs.flatMap escape ++ '"' :: rest) = some (ps, rest) ∧ join? ps = some cs := by
  induction cs with
  | nil => exact ⟨[], by rw [List.flatMap_nil, List.nil_append, pieces?], by rw [join?]⟩
  | cons c cs ih =>
      obtain ⟨ps, hps, hjoin⟩ := ih
      obtain ⟨p, hp, hpieces⟩ := exists_pieces?_escape c (cs.flatMap escape ++ '"' :: rest)
      refine ⟨p :: ps, ?_, ?_⟩
      · rw [List.flatMap_cons, List.append_assoc, hpieces, hps, Option.map_some]
      · rw [hp.join?, hjoin, Option.map_some]

theorem text?_quote (s : String) (rest : List Char) :
    text? (s.toList.flatMap escape ++ '"' :: rest) = some (some s, rest) := by
  obtain ⟨ps, hps, hjoin⟩ := exists_pieces?_flatMap_escape s.toList rest
  simp [text?, hps, hjoin]

end Behavior.Json
