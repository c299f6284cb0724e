import Behavior.Filter
import Behavior.Proofs.Random.Shuffle
import Mathlib.Data.List.Basic
import Mathlib.Data.List.DropRight
import Mathlib.Data.List.Induction
import Mathlib.Data.List.Perm.Basic
/-!
# What filters select

A filter that wraps others combines what each of them selects on its own. Main statement: the combinations are
those of sets, listed by first occurrence (`Filter.output_algebra`).
-/

namespace Behavior

variable {χ : Type}

/-! ## First occurrences -/

/-- The entities for which `p` holds, each once, in the order in which they first occur in `source`. -/
structure FirstOccurrences (source : List EntityId) (p : EntityId → Prop) (es : List EntityId) : Prop where
  nodup : es.Nodup
  mem (e : EntityId) : e ∈ es ↔ p e
  ordered : es.Pairwise fun a b => source.idxOf a < source.idxOf b

namespace FirstOccurrences

variable {source es es' : List EntityId} {p p' : EntityId → Prop}

theorem filter (h : FirstOccurrences source p es) (q : EntityId → Bool) :
    FirstOccurrences source (fun e => p e ∧ q e = true) (es.filter q) where
  nodup := h.nodup.filter q
  mem e := by rw [List.mem_filter, h.mem]
  ordered := h.ordered.filter q

theorem congr (h : FirstOccurrences source p es) (hp : ∀ e, p e ↔ p' e) : FirstOccurrences source p' es where
  nodup := h.nodup
  mem e := (h.mem e).trans (hp e)
  ordered := h.ordered

/-- Source and property determine the list. -/
theorem unique (h : FirstOccurrences source p es) (h' : FirstOccurrences source p es') : es = es' := by
  have perm : es.Perm es' := (List.perm_ext_iff_of_nodup h.nodup h'.nodup).mpr fun e => by rw [h.mem, h'.mem]
  exact perm.eq_of_pairwise (fun a b _ _ hab hba => absurd hba (Nat.lt_asymm hab)) h.ordered h'.ordered

theorem nil : FirstOccurrences source (fun _ => False) [] := ⟨.nil, by simp, .nil⟩

end FirstOccurrences

/-! ## Selections by the game -/

/-- The selection leaves no mark on the character. -/
def Selector.Unmarking (select : Selector χ) : Prop :=
  ∀ scene board w out, (select scene board w out).2 = w.character

/-- What the selection finds depends on what it can read alone; it appends that to the list and does nothing else. -/
def Selector.Appends (select : Selector χ) : Prop :=
  ∀ scene board w out, select scene board w out = (out ++ (select scene board w []).1, w.character)

theorem Selector.Appends.unmarking {select : Selector χ} (h : select.Appends) : select.Unmarking :=
  fun scene board w out => by rw [h scene board w out]

namespace Filter

mutual

/-- Every selection by the game in a filter has the property. -/
def EachSelector (P : Selector χ → Prop) : Filter χ → Prop
  | selectEmpty _ | selectAll _ | selectHighestAggro _ => True
  | first _ f | last _ f | random _ _ f => f.EachSelector P
  | union _ fs | intersection _ fs | difference _ fs => EachSelectorAll P fs
  | custom _ select => P select

def EachSelectorAll (P : Selector χ → Prop) : List (Filter χ) → Prop
  | [] => True
  | f :: fs => f.EachSelector P ∧ EachSelectorAll P fs

end

variable {P Q : Selector χ → Prop} {fs : List (Filter χ)}

theorem eachSelectorAll_iff : EachSelectorAll P fs ↔ ∀ f ∈ fs, f.EachSelector P := by
  induction fs with
  | nil => simp [EachSelectorAll]
  | cons f fs ih => rw [EachSelectorAll, ih, List.forall_mem_cons]

mutual

theorem EachSelector.imp (hPQ : ∀ select, P select → Q select) : (f : Filter χ) → f.EachSelector P → f.EachSelector Q
  | selectEmpty _, _ | selectAll _, _ | selectHighestAggro _, _ => trivial
  | first _ f, h | last _ f, h | random _ _ f, h => EachSelector.imp hPQ f h
  | union _ fs, h | intersection _ fs, h | difference _ fs, h => EachSelectorAll.imp hPQ fs h
  | custom _ select, h => hPQ select h

theorem EachSelectorAll.imp (hPQ : ∀ select, P select → Q select) :
    (fs : List (Filter χ)) → EachSelectorAll P fs → EachSelectorAll Q fs
  | [], _ => trivial
  | f :: fs, h => ⟨EachSelector.imp hPQ f h.1, EachSelectorAll.imp hPQ fs h.2⟩

end

/-! ## Merging -/

theorem merge_append {merged xs ys : List EntityId} : merge merged (xs ++ ys) = merge (merge merged xs) ys := by
  rw [merge, List.foldl_append]
  rfl

/-- Merging into nothing keeps the first occurrences. -/
theorem firstOccurrences_merge (es : List EntityId) : FirstOccurrences es (· ∈ es) (merge [] es) := by
  induction es using List.reverseRecOn with
  | nil => exact ⟨.nil, fun _ => .rfl, .nil⟩
  | append_singleton es e ih =>
      have hstep : merge [] (es ++ [e]) = if e ∈ es then merge [] es else merge [] es ++ [e] := by
        rw [merge_append]
        simp [merge, ← ih.mem]
      have hidx {a : EntityId} (ha : a ∈ merge [] es) : (es ++ [e]).idxOf a = es.idxOf a :=
        List.idxOf_append_of_mem ((ih.mem a).mp ha)
      have hordered : (merge [] es).Pairwise fun a b => (es ++ [e]).idxOf a < (es ++ [e]).idxOf b :=
        ih.ordered.imp_of_mem fun ha hb hlt => by rwa [hidx ha, hidx hb]
      rw [hstep]
      split
      · next he =>
        refine ⟨ih.nodup, fun a => ?_, hordered⟩
        rw [ih.mem, List.mem_append, List.mem_singleton]
        exact ⟨.inl, fun h => h.elim id fun h => h ▸ he⟩
      · next he =>
        have hlast : (es ++ [e]).idxOf e = es.length := by simp [List.idxOf_append_of_notMem he]
        refine ⟨?_, fun a => ?_, ?_⟩
        · refine List.nodup_append.mpr ⟨ih.nodup, List.pairwise_singleton _ e, ?_⟩
          rintro a ha b hb rfl
          exact he (List.mem_singleton.mp hb ▸ (ih.mem a).mp ha)
        · rw [List.mem_append, List.mem_append, ih.mem]
        · refine List.pairwise_append.mpr ⟨hordered, List.pairwise_singleton _ e, fun a ha b hb => ?_⟩
          obtain rfl := List.mem_singleton.mp hb
          rw [hidx ha, hlast]
          exact List.idxOf_lt_length_of_mem ((ih.mem a).mp ha)

/-! ## What a filter selects on its own -/

variable [Character χ] (scene : Scene) (board : Blackboard)

/-- What a filter appends to an empty list. -/
def output (f : Filter χ) (w : Watch χ) : List EntityId := (f.apply scene board w []).1

mutual

/-- A filter leaves no mark on the character unless a selection by the game does. -/
theorem character_apply : (f : Filter χ) → f.EachSelector Selector.Unmarking → (w : Watch χ) →
    (out : List EntityId) → (f.apply scene board w out).2 = w.character
  | selectEmpty _, _, _, _ | selectHighestAggro _, _, _, _ => rfl
  | selectAll _, _, w, out => by
      simp only [apply]
      split <;> rfl
  | first _ f, h, w, _ | last _ f, h, w, _ | random _ _ f, h, w, _ => by
      simp only [apply]
      exact character_apply f h w []
  | union _ fs, h, w, _ => by
      simp only [apply]
      exact character_applyUnion fs h w []
  | intersection _ [], _, _, _ | difference _ [], _, _, _ => rfl
  | intersection _ (f :: fs), h, w, _ | difference _ (f :: fs), h, w, _ => by
      simp only [apply]
      exact (character_applyRetain _ fs h.2 _ _).trans (character_apply f h.1 w [])
  | custom _ select, h, w, out => h scene board w out

theorem character_applyUnion : (fs : List (Filter χ)) → EachSelectorAll Selector.Unmarking fs → (w : Watch χ) →
    (merged : List EntityId) → (applyUnion scene board fs w merged).2 = w.character
  | [], _, _, _ => rfl
  | f :: fs, h, w, merged => by
      simp only [applyUnion]
      exact (character_applyUnion fs h.2 _ _).trans (character_apply f h.1 w [])

theorem character_applyRetain (keep : Bool) : (fs : List (Filter χ)) → EachSelectorAll Selector.Unmarking fs →
    (w : Watch χ) → (kept : List EntityId) → (applyRetain scene board keep fs w kept).2 = w.character
  | [], _, _, _ => rfl
  | f :: fs, h, w, kept => by
      simp only [applyRetain]
      exact (character_applyRetain keep fs h.2 _ _).trans (character_apply f h.1 w [])

end

variable {scene board} {f : Filter χ} {w : Watch χ}

theorem character_applyAll (h : ∀ f ∈ fs, f.EachSelector Selector.Unmarking) {out : List EntityId} :
    (applyAll scene board fs w out).2 = w.character := by
  induction fs generalizing w out with
  | nil => rfl
  | cons f fs ih =>
      obtain ⟨hf, hfs⟩ := List.forall_mem_cons.mp h
      rw [applyAll]
      exact (ih hfs).trans (character_apply scene board f hf w out)

theorem apply_nil (h : f.EachSelector Selector.Unmarking) :
    f.apply scene board w [] = (f.output scene board w, w.character) :=
  Prod.ext rfl (character_apply scene board f h w [])

theorem applyUnion_eq (h : ∀ f ∈ fs, f.EachSelector Selector.Unmarking) {merged : List EntityId} :
    applyUnion scene board fs w merged = (merge merged (fs.flatMap (·.output scene board w)), w.character) := by
  induction fs generalizing merged with
  | nil => rfl
  | cons f fs ih =>
      obtain ⟨hf, hfs⟩ := List.forall_mem_cons.mp h
      simp only [applyUnion, apply_nil hf, ih hfs, List.flatMap_cons, merge_append]

theorem applyRetain_eq (h : ∀ f ∈ fs, f.EachSelector Selector.Unmarking) {keep : Bool} {kept : List EntityId} :
    applyRetain scene board keep fs w kept =
      (kept.filter fun e => fs.all fun f => (f.output scene board w).contains e == keep, w.character) := by
  induction fs generalizing kept with
  | nil => simp [applyRetain]
  | cons f fs ih =>
      obtain ⟨hf, hfs⟩ := List.forall_mem_cons.mp h
      simp only [applyRetain, apply_nil hf, ih hfs, List.filter_filter, List.all_cons, Bool.and_comm]

/-! ## Combinations -/

variable {l : Label}

theorem output_union (h : ∀ f ∈ fs, f.EachSelector Selector.Unmarking) :
    (union l fs).output scene board w = merge [] (fs.flatMap (·.output scene board w)) := by
  simp only [output, apply, applyUnion_eq h, List.nil_append]

theorem output_intersection (h : ∀ g ∈ f :: fs, g.EachSelector Selector.Unmarking) :
    (intersection l (f :: fs)).output scene board w =
      (merge [] (f.output scene board w)).filter fun e => fs.all fun g => (g.output scene board w).contains e == true := by
  obtain ⟨hf, hfs⟩ := List.forall_mem_cons.mp h
  rw [output]
  simp only [apply, apply_nil hf, applyRetain_eq hfs, List.nil_append]

theorem output_difference (h : ∀ g ∈ f :: fs, g.EachSelector Selector.Unmarking) :
    (difference l (f :: fs)).output scene board w =
      (merge [] (f.output scene board w)).filter fun e => fs.all fun g => (g.output scene board w).contains e == false := by
  obtain ⟨hf, hfs⟩ := List.forall_mem_cons.mp h
  rw [output]
  simp only [apply, apply_nil hf, applyRetain_eq hfs, List.nil_append]

theorem firstOccurrences_union (h : ∀ f ∈ fs, f.EachSelector Selector.Unmarking) :
    FirstOccurrences (fs.flatMap (·.output scene board w)) (fun e => ∃ f ∈ fs, e ∈ f.output scene board w)
      ((union l fs).output scene board w) := by
  rw [output_union h]
  exact (firstOccurrences_merge _).congr fun e => List.mem_flatMap

theorem firstOccurrences_intersection (h : ∀ g ∈ f :: fs, g.EachSelector Selector.Unmarking) :
    FirstOccurrences (f.output scene board w) (fun e => ∀ g ∈ f :: fs, e ∈ g.output scene board w)
      ((intersection l (f :: fs)).output scene board w) := by
  rw [output_intersection h]
  refine ((firstOccurrences_merge _).filter _).congr fun e => ?_
  simp

theorem firstOccurrences_difference (h : ∀ g ∈ f :: fs, g.EachSelector Selector.Unmarking) :
    FirstOccurrences (f.output scene board w)
      (fun e => e ∈ f.output scene board w ∧ ∀ g ∈ fs, e ∉ g.output scene board w)
      ((difference l (f :: fs)).output scene board w) := by
  rw [output_difference h]
  refine ((firstOccurrences_merge _).filter _).congr fun e => ?_
  simp

theorem output_random {amount : UInt64} (h : f.EachSelector Selector.Unmarking) :
    (random l amount f).output scene board w = pick scene amount (f.output scene board w) := by
  rw [output]
  simp only [apply, apply_nil h, List.nil_append]

theorem length_pick {amount : UInt64} {es : List EntityId} :
    (pick scene amount es).length = min amount.toNat es.length := by
  rw [pick, List.length_take, (Generator.shuffle_perm _ _).length_eq]

theorem pick_subperm {amount : UInt64} {es : List EntityId} : (pick scene amount es).Subperm es :=
  (List.take_sublist _ _).subperm.trans (Generator.shuffle_perm _ _).subperm

/-! ## Whom a filter can select -/

/-- The entity is another one of the zone, or the first enemy. -/
def InSight (scene : Scene) (w : Watch χ) (e : EntityId) : Prop :=
  (∃ zone, scene.zone = some zone ∧ e ∈ zone.ids ∧ e ≠ scene.entity) ∨ (Character.enemies w.character).head? = some e

/-- No selection of the filter is one by the game. -/
abbrev Plain (f : Filter χ) : Prop := f.EachSelector fun _ => False

omit [Character χ] in
theorem Plain.unmarking {f : Filter χ} (h : f.Plain) : f.EachSelector Selector.Unmarking := h.imp (fun _ => False.elim) f

omit [Character χ] in
theorem unmarking_of_plain {fs : List (Filter χ)} (h : EachSelectorAll (fun _ => False) fs) :
    ∀ f ∈ fs, f.EachSelector Selector.Unmarking := fun f hf => Plain.unmarking (eachSelectorAll_iff.mp h f hf)

mutual

theorem inSight_of_mem : (f : Filter χ) → f.Plain → ∀ e ∈ f.output scene board w, InSight scene w e
  | selectEmpty _, _, _, he => by cases he
  | selectAll _, _, e, he => by
      cases hz : scene.zone with
      | none => simp [output, apply, hz] at he
      | some zone => exact .inl ⟨zone, hz, by simpa [output, apply, hz] using he⟩
  | selectHighestAggro _, _, e, he => by
      have he : e ∈ (Character.enemies w.character).take 1 := he
      exact .inr (by simpa [List.take_one, Option.mem_toList] using he)
  | first _ f, h, e, he => by
      have he : e ∈ (f.output scene board w).take 1 := he
      exact inSight_of_mem f h e (List.mem_of_mem_take he)
  | last _ f, h, e, he => by
      have he : e ∈ (f.output scene board w).getLast?.toList := he
      exact inSight_of_mem f h e (List.mem_of_getLast? (Option.mem_toList.mp he))
  | random _ n f, h, e, he => by
      have he : e ∈ pick scene n (f.output scene board w) := he
      exact inSight_of_mem f h e (pick_subperm.subset he)
  | union _ fs, h, e, he => by
      obtain ⟨f, hf, he⟩ := ((firstOccurrences_union (unmarking_of_plain h)).mem e).mp he
      exact inSight_of_mem_of_mem fs h f hf e he
  | intersection _ [], _, _, he | difference _ [], _, _, he => by cases he
  | intersection _ (f :: fs), h, e, he => by
      have he := ((firstOccurrences_intersection (unmarking_of_plain h)).mem e).mp he
      exact inSight_of_mem f h.1 e (he f List.mem_cons_self)
  | difference _ (f :: fs), h, e, he => by
      have he := ((firstOccurrences_difference (unmarking_of_plain h)).mem e).mp he
      exact inSight_of_mem f h.1 e he.1
  | custom _ _, h, _, _ => h.elim

theorem inSight_of_mem_of_mem : (fs : List (Filter χ)) → EachSelectorAll (fun _ => False) fs →
    ∀ f ∈ fs, ∀ e ∈ f.output scene board w, InSight scene w e
  | [], _ => List.forall_mem_nil _
  | f :: fs, h => List.forall_mem_cons.mpr ⟨inSight_of_mem f h.1, inSight_of_mem_of_mem fs h.2⟩

end

/-! ## The algebra -/

/-- Every selection of the game's in the filter appends what it finds, and what it finds depends on what it can read
alone. -/
abbrev Fixed (f : Filter χ) : Prop := f.EachSelector Selector.Appends

omit [Character χ] in
theorem unmarking_of_fixed (h : ∀ f ∈ fs, f.Fixed) : ∀ f ∈ fs, f.EachSelector Selector.Unmarking :=
  fun f hf => (h f hf).imp (fun _ => Selector.Appends.unmarking) f

/-- Whether the filter drops what has been selected before. -/
def empties : Filter χ → Bool
  | selectEmpty _ => true
  | _ => false

/-- A filter that drops everything inside another one drops only what that one has collected. -/
theorem apply_eq_append {f : Filter χ} (h : f.Fixed) (hf : f.empties = false) {out : List EntityId} :
    f.apply scene board w out = (out ++ f.output scene board w, w.character) := by
  have unmarked := character_apply scene board f (h.imp (fun _ => Selector.Appends.unmarking) f) w
  have appends : (f.apply scene board w out).1 = out ++ f.output scene board w := by
    cases f with
    | selectEmpty => cases hf
    | selectAll =>
        simp only [output, apply]
        split <;> simp
    | selectHighestAggro | first | last | random | union => rfl
    | intersection _ fs | difference _ fs =>
        cases fs with
        | nil => exact (List.append_nil out).symm
        | cons f fs => rfl
    | custom _ select => exact congrArg Prod.fst (h scene board w out)
  exact Prod.ext appends (unmarked out)

theorem apply_of_empties {f : Filter χ} (hf : f.empties = true) {out : List EntityId} :
    f.apply scene board w out = ([], w.character) := by
  cases f with
  | selectEmpty => rfl
  | _ => cases hf

theorem applyAll_append {gs : List (Filter χ)} {out : List EntityId} :
    applyAll scene board (fs ++ gs) w out =
      applyAll scene board gs { w with character := (applyAll scene board fs w out).2 }
        (applyAll scene board fs w out).1 := by
  induction fs generalizing w out with
  | nil => rfl
  | cons f fs ih => simp only [List.cons_append, applyAll, ih]

/-- Applied one after another, filters select what each selects on its own, as far as they come after the last one
that drops everything. -/
theorem applyAll_eq (h : ∀ f ∈ fs, f.Fixed) :
    applyAll scene board fs w [] =
      ((fs.rtakeWhile fun f => !f.empties).flatMap (·.output scene board w), w.character) := by
  induction fs using List.reverseRecOn with
  | nil => rfl
  | append_singleton fs f ih =>
      obtain ⟨hfs, hf⟩ := List.forall_mem_append.mp h
      have hf : f.Fixed := hf f (List.mem_singleton_self f)
      rw [applyAll_append, ih hfs, List.rtakeWhile_concat]
      cases he : f.empties with
      | true => simp [applyAll, apply_of_empties he]
      | false => simp [applyAll, apply_eq_append hf he]

/-- Wrapping filters combine what the wrapped ones select as sets are combined. The entities of a union come in the
order in which the parts, one after another, first name them, those of an intersection and of a difference in the order
of the first part; the order of the further parts does not matter, and that of all parts does not matter to a union but
for the order of the result. A random choice takes as many as it may of those there are. Without selections by the game,
only other entities of the zone and the first enemy can be selected. -/
theorem output_algebra (scene : Scene) (board : Blackboard) (w : Watch χ) :
    (∀ l fs, (∀ f ∈ fs, f.Fixed) →
      FirstOccurrences (fs.flatMap (·.output scene board w)) (fun e => ∃ f ∈ fs, e ∈ f.output scene board w)
        ((union l fs).output scene board w) ∧
      FirstOccurrences ((fs.take 1).flatMap (·.output scene board w))
        (fun e => fs ≠ [] ∧ ∀ f ∈ fs, e ∈ f.output scene board w) ((intersection l fs).output scene board w) ∧
      FirstOccurrences ((fs.take 1).flatMap (·.output scene board w))
        (fun e => ∃ f gs, fs = f :: gs ∧ e ∈ f.output scene board w ∧ ∀ g ∈ gs, e ∉ g.output scene board w)
        ((difference l fs).output scene board w)) ∧
    (∀ l f fs gs, (∀ g ∈ f :: fs, g.Fixed) → fs.Perm gs →
      (intersection l (f :: fs)).output scene board w = (intersection l (f :: gs)).output scene board w ∧
      (difference l (f :: fs)).output scene board w = (difference l (f :: gs)).output scene board w) ∧
    (∀ l fs gs, (∀ f ∈ fs, f.Fixed) → fs.Perm gs →
      ((union l fs).output scene board w).Perm ((union l gs).output scene board w)) ∧
    (∀ l n (f : Filter χ), f.Fixed →
      ((random l n f).output scene board w).length = min n.toNat (f.output scene board w).length ∧
      ((random l n f).output scene board w).Subperm (f.output scene board w)) ∧
    ∀ f : Filter χ, f.Plain → ∀ e ∈ f.output scene board w,
      (∃ zone, scene.zone = some zone ∧ e ∈ zone.ids ∧ e ≠ scene.entity) ∨
        (Character.enemies w.character).head? = some e := by
  refine ⟨fun l fs h => ?_, fun l f fs gs h perm => ?_, fun l fs gs h perm => ?_, fun l n f h => ?_,
    fun f h => inSight_of_mem f h⟩
  · have h := unmarking_of_fixed h
    refine ⟨firstOccurrences_union h, ?_⟩
    cases fs with
    | nil => exact ⟨FirstOccurrences.nil.congr (by simp), FirstOccurrences.nil.congr (by simp)⟩
    | cons f fs =>
        simp only [List.take_succ_cons, List.take_zero, List.flatMap_singleton]
        exact ⟨(firstOccurrences_intersection h).congr (by simp), (firstOccurrences_difference h).congr (by simp)⟩
  · have h := unmarking_of_fixed h
    have h' : ∀ g ∈ f :: gs, g.EachSelector Selector.Unmarking := fun g hg => h g ((perm.cons f).mem_iff.mpr hg)
    refine ⟨((firstOccurrences_intersection h).congr fun e => ?_).unique (firstOccurrences_intersection h'),
      ((firstOccurrences_difference h).congr fun e => ?_).unique (firstOccurrences_difference h')⟩
    · simp only [(perm.cons f).mem_iff]
    · simp only [perm.mem_iff]
  · have h := unmarking_of_fixed h
    have listed {fs : List (Filter χ)} (h : ∀ f ∈ fs, f.EachSelector Selector.Unmarking) : FirstOccurrences _ _
        ((union l fs).output scene board w) := firstOccurrences_union h
    have h' : ∀ g ∈ gs, g.EachSelector Selector.Unmarking := fun g hg => h g (perm.mem_iff.mpr hg)
    refine (List.perm_ext_iff_of_nodup (listed h).nodup (listed h').nodup).mpr fun e => ?_
    rw [(listed h).mem, (listed h').mem]
    simp only [perm.mem_iff]
  · rw [output_random (h.imp (fun _ => Selector.Appends.unmarking) f)]
    exact ⟨length_pick, pick_subperm⟩

/-- A selection of the game's that names an entity twice, and the others of a zone. -/
theorem output_algebra_twice :
    let scene : Scene := { entity := ⟨1⟩, zone := some { name := "", ids := [⟨1⟩, ⟨2⟩, ⟨3⟩] } }
    let twice : Filter Unit := custom { name := "Twice" } fun _ _ w out => (out ++ [⟨3⟩, ⟨9⟩, ⟨3⟩], w.character)
    let fs := [twice, everybody]
    (∀ f ∈ fs, f.Fixed) ∧ (unionOf fs).output scene {} ⟨(), []⟩ = [⟨3⟩, ⟨9⟩, ⟨2⟩] ∧
      FirstOccurrences (fs.flatMap (·.output scene {} ⟨(), []⟩)) (fun e => ∃ f ∈ fs, e ∈ f.output scene {} ⟨(), []⟩)
        ((unionOf fs).output scene {} ⟨(), []⟩) ∧
      ((unionOf fs).output scene {} ⟨(), []⟩).Perm ((unionOf fs.reverse).output scene {} ⟨(), []⟩) := by
  intro scene twice fs
  have fixed : ∀ f ∈ fs, f.Fixed := by
    refine List.forall_mem_cons.mpr ⟨fun scene board w out => rfl, ?_⟩
    exact List.forall_mem_singleton.mpr trivial
  obtain ⟨combined, -, reordered, -, -⟩ := output_algebra scene {} (⟨(), []⟩ : Watch Unit)
  exact ⟨fixed, by decide, (combined _ fs fixed).1, reordered _ fs _ fixed fs.reverse_perm.symm⟩

end Filter

end Behavior
