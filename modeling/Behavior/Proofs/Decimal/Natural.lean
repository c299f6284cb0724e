import Behavior.Decimal.Natural
/-!
# Writing and reading natural numbers

The digits of a number in decimal read back as the number, and none of them is a needless zero.
-/

namespace Behavior.Decimal

variable {n : Nat} {cs : List Char}

theorem valueFrom_eq : valueFrom n cs = Nat.ofDigitChars 10 cs n := by
  rw [Nat.ofDigitChars_eq_foldl]
  rfl

theorem isDigit_of_mem_toDigits {c : Char} (h : c ∈ Nat.toDigits 10 n) : c.isDigit = true :=
  Nat.isDigit_of_mem_toDigits (by decide) (by decide) h

theorem isNumeral_toDigits : isNumeral (Nat.toDigits 10 n) = true := by
  have hall : (Nat.toDigits 10 n).all Char.isDigit = true :=
    List.all_eq_true.mpr fun _ => isDigit_of_mem_toDigits
  simp [isNumeral, hall, Nat.toDigits_ne_nil]

theorem digits?_toDigits : digits? (Nat.toDigits 10 n) = some n := by
  rw [digits?, if_pos isNumeral_toDigits, value, valueFrom_eq, Nat.ofDigitChars_ten_toDigits]

theorem toList_toString (n : Nat) : (toString n).toList = Nat.toDigits 10 n := Nat.toList_repr

theorem toString_inj {m : Nat} (h : toString n = toString m) : n = m := by
  have hdigits := congrArg (fun s : String => digits? s.toList) h
  simpa only [toList_toString, digits?_toDigits, Option.some.injEq] using hdigits

theorem head_toDigits_ne_zero (h : n ≠ 0) : (Nat.toDigits 10 n).head? ≠ some '0' := by
  induction n using Nat.strongRecOn with
  | ind n ih =>
      by_cases hlt : n < 10
      · have hall : ∀ n < 10, n ≠ 0 → some n.digitChar ≠ some '0' := by decide
        rw [Nat.toDigits_of_lt_base hlt]
        exact hall n hlt h
      · have hne := ih (n / 10) (by omega) (by omega)
        rw [Nat.toDigits_of_base_le (by decide) (by omega), List.head?_append]
        cases hhead : (Nat.toDigits 10 (n / 10)).head? with
        | none => exact absurd (List.head?_eq_none_iff.mp hhead) Nat.toDigits_ne_nil
        | some c => rwa [hhead] at hne

/-- Only the number zero begins with a zero. -/
theorem exists_toDigits_eq_cons (n : Nat) :
    ∃ c cs, Nat.toDigits 10 n = c :: cs ∧ c.isDigit = true ∧ (n ≠ 0 → c ≠ '0') := by
  cases hcs : Nat.toDigits 10 n with
  | nil => exact absurd hcs Nat.toDigits_ne_nil
  | cons c cs =>
      refine ⟨c, cs, rfl, isDigit_of_mem_toDigits (n := n) (by simp [hcs]), ?_⟩
      rintro hn rfl
      exact head_toDigits_ne_zero hn (by rw [hcs]; rfl)

/-! ## Numerals -/

section Numeral

variable {ds : List Char} {bound : Nat}

/-- Digits that come to the number, of which the first may be zeros. -/
structure Spells (ds : List Char) (n : Nat) : Prop where
  some : ds ≠ []
  digits : ∀ d ∈ ds, d.isDigit = true
  value : Nat.ofDigitChars 10 ds 0 = n

/-- Digits, and a plus sign before them if one likes. -/
inductive Numeral (n : Nat) : List Char → Prop
  | bare {ds : List Char} (h : Spells ds n) : Numeral n ds
  | signed {ds : List Char} (h : Spells ds n) : Numeral n ('+' :: ds)

theorem digits?_eq_some_iff : digits? ds = some n ↔ Spells ds n := by
  have hnumeral : isNumeral ds = true ↔ ds ≠ [] ∧ ∀ d ∈ ds, d.isDigit = true := by simp [isNumeral]
  constructor
  · intro h
    simp only [digits?, value, valueFrom_eq, Option.ite_none_right_eq_some, Option.some.injEq, hnumeral] at h
    exact ⟨h.1.1, h.1.2, h.2⟩
  · rintro ⟨hne, hdigits, rfl⟩
    rw [digits?, if_pos (hnumeral.mpr ⟨hne, hdigits⟩), value, valueFrom_eq]

theorem natural?_eq_some_iff : natural? bound cs = some n ↔ Numeral n cs ∧ n < bound := by
  simp only [natural?, Option.filter_eq_some_iff, decide_eq_true_eq]
  refine and_congr_left fun _ => ?_
  constructor
  · intro h
    split at h
    · exact .signed (digits?_eq_some_iff.mp h)
    · exact .bare (digits?_eq_some_iff.mp h)
  · rintro (⟨h⟩ | ⟨h⟩)
    · split
      · exact absurd (h.digits '+' (by simp)) (by decide)
      · exact digits?_eq_some_iff.mpr h
    · exact digits?_eq_some_iff.mpr h

theorem Numeral.ne_nil (h : Numeral n cs) : cs ≠ [] := by
  cases h with
  | bare h => exact h.some
  | signed _ => exact List.cons_ne_nil _ _

theorem numeral_toString (n : Nat) : Numeral n (toString n).toList := by
  rw [toList_toString]
  exact .bare (digits?_eq_some_iff.mp digits?_toDigits)

end Numeral

end Behavior.Decimal
