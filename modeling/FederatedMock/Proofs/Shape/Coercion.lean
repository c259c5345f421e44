import FederatedMock.Proofs.Ordered.Members
import FederatedMock.Proofs.Shape.Outcome

/-!
# Coercion as rules

What a shape makes of the values it takes, without reports. `Coerces` has a rule for every way in
which a shape takes a value, or takes its absence; a value that no rule fits is one that issues are
found in. `coerces_of_outcome` and `Coerces.outcome_eq` tie the rules to the walk over the value,
and `validate_eq_ok_iff` ties them to the validation of a document.
-/

namespace FederatedMock.Shape

mutual

/-- The shape takes a value, or its absence, to another one. -/
inductive Coerces : Shape → Option Json → Option Json → Prop
  | absent {inner : Shape} : Coerces (.nullable inner) none none
  | null {inner : Shape} : Coerces (.nullable inner) (some .null) (some .null)
  | present {inner : Shape} {v : Json} {out : Option Json} (notNull : v ≠ .null)
      (inside : Coerces inner (some v) out) : Coerces (.nullable inner) (some v) out
  | scalar {rule : ScalarRule} {value : Option Json} {y : Json}
      (coerced : rule.coerce value = .ok y) : Coerces (.scalar rule) value (some y)
  | enumerator {members : List String} {name : String} (member : name ∈ members) :
      Coerces (.enumeration members) (some (.string name)) (some (.string name))
  | list {item : Shape} {items outs : List Json} (each : ItemsCoerce item items outs) :
      Coerces (.list item) (some (.array items)) (some (.array outs))
  | object {fields : List (String × Shape)} {members outs : Members Json}
      (each : FieldsCoerce fields members outs) :
      Coerces (.object fields) (some (.object members)) (some (.object outs))
  | variant {choices : Variants} {name : String} {fields : List (String × Shape)}
      {members outs : Members Json} (selected : selectVariant choices members = some name)
      (found : choices.get? name = some fields) (each : FieldsCoerce fields members outs) :
      Coerces (.variants choices) (some (.object members)) (some (.object outs))

inductive ItemsCoerce : Shape → List Json → List Json → Prop
  | nil {item : Shape} : ItemsCoerce item [] []
  | cons {item : Shape} {v y : Json} {items outs : List Json}
      (first : Coerces item (some v) (some y)) (others : ItemsCoerce item items outs) :
      ItemsCoerce item (v :: items) (y :: outs)

inductive FieldsCoerce : List (String × Shape) → Members Json → Members Json → Prop
  | nil {members : Members Json} : FieldsCoerce [] members []
  | absent {key : String} {s : Shape} {rest : List (String × Shape)} {members outs : Members Json}
      (first : Coerces s (members.get? key) none) (others : FieldsCoerce rest members outs) :
      FieldsCoerce ((key, s) :: rest) members outs
  | present {key : String} {s : Shape} {rest : List (String × Shape)}
      {members outs : Members Json} {y : Json} (first : Coerces s (members.get? key) (some y))
      (others : FieldsCoerce rest members outs) :
      FieldsCoerce ((key, s) :: rest) members ((key, y) :: outs)

end

theorem Coerces.some_of_some {s : Shape} {v : Json} {out : Option Json} :
    Coerces s (some v) out → ∃ y, out = some y
  | .null => ⟨_, rfl⟩
  | .present _ inside => inside.some_of_some
  | .scalar _ => ⟨_, rfl⟩
  | .enumerator _ => ⟨_, rfl⟩
  | .list _ => ⟨_, rfl⟩
  | .object _ => ⟨_, rfl⟩
  | .variant _ _ _ => ⟨_, rfl⟩

theorem Coerces.enumerator_out {names : List String} {value out : Option Json}
    (taken : Coerces (.enumeration names) value out) :
    ∃ name ∈ names, out = some (.string name) := by
  cases taken with
  | enumerator member => exact ⟨_, member, rfl⟩

theorem ItemsCoerce.exists_item {item : Shape} {items outs : List Json} {y : Json}
    (each : ItemsCoerce item items outs) (out : y ∈ outs) :
    ∃ v, Coerces item (some v) (some y) := by
  induction items generalizing outs with
  | nil =>
      cases each
      cases out
  | cons v rest ih =>
      cases each with
      | cons first others =>
          rcases List.mem_cons.1 out with rfl | there
          · exact ⟨v, first⟩
          · exact ih others there

theorem FieldsCoerce.exists_field {fields : List (String × Shape)} {members outs : Members Json}
    {key : String} {y : Json} (each : FieldsCoerce fields members outs) (out : (key, y) ∈ outs) :
    ∃ s, (key, s) ∈ fields ∧ Coerces s (members.get? key) (some y) := by
  induction fields generalizing outs with
  | nil =>
      cases each
      cases out
  | cons field rest ih =>
      cases each with
      | absent first others =>
          obtain ⟨s, field, taken⟩ := ih others out
          exact ⟨s, List.mem_cons_of_mem _ field, taken⟩
      | present first others =>
          rcases List.mem_cons.1 out with here | there
          · cases here
            exact ⟨_, List.mem_cons_self, first⟩
          · obtain ⟨s, field, taken⟩ := ih others there
            exact ⟨s, List.mem_cons_of_mem _ field, taken⟩

theorem FieldsCoerce.mem_keys {fields : List (String × Shape)} {members outs : Members Json}
    (each : FieldsCoerce fields members outs) {key : String} (out : key ∈ Members.keys outs) :
    key ∈ Members.keys fields := by
  obtain ⟨⟨_, y⟩, member, rfl⟩ := List.mem_map.1 out
  obtain ⟨s, field, _⟩ := each.exists_field member
  exact List.mem_map_of_mem field

theorem FieldsCoerce.exists_absent {fields : List (String × Shape)} {members outs : Members Json}
    {key : String} (each : FieldsCoerce fields members outs) (field : key ∈ Members.keys fields)
    (out : key ∉ Members.keys outs) :
    ∃ s, (key, s) ∈ fields ∧ Coerces s (members.get? key) none := by
  induction fields generalizing outs with
  | nil => cases field
  | cons head rest ih =>
      cases each with
      | absent first others =>
          rcases List.mem_cons.1 field with rfl | there
          · exact ⟨_, List.mem_cons_self, first⟩
          · obtain ⟨s, field, taken⟩ := ih others there out
            exact ⟨s, List.mem_cons_of_mem _ field, taken⟩
      | present first others =>
          simp only [Members.keys, List.map_cons, List.mem_cons, not_or] at out
          rcases List.mem_cons.1 field with rfl | there
          · exact (out.1 rfl).elim
          · obtain ⟨s, field, taken⟩ := ih others there out.2
            exact ⟨s, List.mem_cons_of_mem _ field, taken⟩

theorem FieldsCoerce.get?_out {fields : List (String × Shape)} {members outs : Members Json}
    {key : String} {s : Shape} (each : FieldsCoerce fields members outs)
    (distinct : (Members.keys fields).Nodup) (field : (key, s) ∈ fields) :
    Coerces s (members.get? key) (outs.get? key) := by
  induction fields generalizing outs with
  | nil => cases field
  | cons head rest ih =>
      simp only [Members.keys, List.map_cons, List.nodup_cons] at distinct
      cases each with
      | absent first others =>
          rcases List.mem_cons.1 field with here | there
          · cases here
            rwa [Members.get?_eq_none_iff.2 fun out => distinct.1 (others.mem_keys out)]
          · exact ih others distinct.2 there
      | @present k _ _ _ _ _ first others =>
          rcases List.mem_cons.1 field with here | there
          · cases here
            simpa [Members.get?] using first
          · have other : k ≠ key := by
              rintro rfl
              exact distinct.1 (List.mem_map.2 ⟨_, there, rfl⟩)
            simpa [Members.get?, other] using ih others distinct.2 there

theorem applyVariant_of_get? {choices : Variants} {name : String} {fields : List (String × Shape)}
    (found : choices.get? name = some fields) (members : Members Json) :
    applyVariant choices name members = applyFields fields members := by
  induction choices with
  | nil => cases found
  | cons head rest ih =>
      obtain ⟨n, fs⟩ := head
      funext r
      by_cases h : n = name
      · simp only [Members.get?, h, if_true, Option.some.injEq] at found
        simp only [applyVariant, h, if_true, found]
      · simp only [Members.get?, h, if_false] at found
        simp only [applyVariant, h, if_false, ih found]

theorem get?_of_selectVariant {choices : Variants} {members : Members Json} {name : String}
    (selected : selectVariant choices members = some name) :
    ∃ fields, choices.get? name = some fields := by
  apply Option.ne_none_iff_exists'.1
  intro missing
  unfold selectVariant at selected
  split at selected
  · split at selected
    · rename_i contained
      cases selected
      simp [Members.contains, missing] at contained
    · cases selected
  · cases selected
  · obtain ⟨choice, found, rfl⟩ := Option.map_eq_some_iff.1 selected
    exact Members.get?_eq_none_iff.1 missing (List.mem_map_of_mem (List.mem_of_find?_eq_some found))

open Report

private theorem outcome_mismatch (expected : String) (value : Option Json) (out : Option Json) :
    outcome (applyMismatch expected value) ≠ (out, []) := by
  cases value <;> simp [outcome, applyMismatch, add, empty]

private theorem coerces_of_enumeration {members : List String} {value out : Option Json}
    (clean : outcome (applyEnumeration members value) = (out, [])) :
    Coerces (.enumeration members) value out := by
  cases value with
  | none => simp [outcome, applyEnumeration, add, empty] at clean
  | some v =>
      cases v
      case string name =>
        by_cases h : name ∈ members
        · simp only [outcome, applyEnumeration, h, if_true, Prod.mk.injEq] at clean
          rw [← clean.1]
          exact .enumerator h
        · simp [outcome, applyEnumeration, h, add, empty] at clean
      all_goals simp [outcome, applyEnumeration, add, empty] at clean

private theorem itemsCoerce_of_outcome {item : Shape}
    (each : ∀ value out, outcome (item.apply value) = (out, []) → Coerces item value out)
    (i : Nat) {items outs : List Json}
    (clean : outcome (applyItems item.apply i items) = (outs, [])) :
    ItemsCoerce item items outs := by
  induction items generalizing i outs with
  | nil =>
      cases clean
      exact .nil
  | cons v rest ih =>
      simp only [outcome_items_cons, Prod.mk.injEq, List.append_eq_nil_iff,
        List.map_eq_nil_iff] at clean
      obtain ⟨rfl, here, there⟩ := clean
      have first := each (some v) (outcome (item.apply (some v))).1 (Prod.ext rfl here)
      obtain ⟨y, hy⟩ := first.some_of_some
      rw [hy] at first
      rw [hy]
      exact .cons first (ih _ (Prod.ext rfl there))

mutual

theorem coerces_of_outcome : (s : Shape) → (value out : Option Json) →
    outcome (s.apply value) = (out, []) → Coerces s value out
  | .nullable inner, none, out => by
    intro clean
    cases clean
    exact .absent
  | .nullable inner, some v, out => by
    intro clean
    cases v
    case null =>
      cases clean
      exact .null
    all_goals exact .present (by simp) (coerces_of_outcome inner _ out clean)
  | .scalar rule, value, out => by
    intro clean
    cases coerced : rule.coerce value with
    | ok y =>
      simp only [outcome, apply, coerced, Prod.mk.injEq] at clean
      rw [← clean.1]
      exact .scalar coerced
    | error message => simp [outcome, apply, coerced, add, empty] at clean
  | .enumeration members, value, out => fun clean => coerces_of_enumeration clean
  | .list item, value, out => by
    intro clean
    cases value with
    | none => exact absurd clean (outcome_mismatch "array" none out)
    | some v =>
      cases v
      case array items =>
        simp only [outcome_list, Prod.mk.injEq] at clean
        obtain ⟨rfl, found⟩ := clean
        exact .list (itemsCoerce_of_outcome (coerces_of_outcome item) 0 (Prod.ext rfl found))
      all_goals exact absurd clean (outcome_mismatch "array" (some _) out)
  | .object fields, value, out => by
    intro clean
    cases value with
    | none => exact absurd clean (outcome_mismatch "object" none out)
    | some v =>
      cases v
      case object members =>
        simp only [outcome_object, Prod.mk.injEq] at clean
        obtain ⟨rfl, found⟩ := clean
        exact .object (fieldsCoerce_of_outcome fields members _ (Prod.ext rfl found))
      all_goals exact absurd clean (outcome_mismatch "object" (some _) out)
  | .variants choices, value, out => by
    intro clean
    cases value with
    | none => exact absurd clean (outcome_mismatch "object" none out)
    | some v =>
      cases v
      case object members =>
        cases selected : selectVariant choices members with
        | none =>
          simp [apply_variants, selected, outcome, reportDiscriminator, enter, add, leave,
            empty] at clean
        | some name =>
          obtain ⟨fields, found⟩ := get?_of_selectVariant selected
          simp only [outcome_variant selected, Prod.mk.injEq] at clean
          obtain ⟨rfl, quiet⟩ := clean
          exact .variant selected found
            (variantCoerces_of_outcome choices name fields members _ found (Prod.ext rfl quiet))
      all_goals exact absurd clean (outcome_mismatch "object" (some _) out)

theorem fieldsCoerce_of_outcome : (fields : List (String × Shape)) →
    (members outs : Members Json) → outcome (applyFields fields members) = (outs, []) →
    FieldsCoerce fields members outs
  | [], members, outs => by
    intro clean
    cases clean
    exact .nil
  | (key, s) :: rest, members, outs => by
    intro clean
    simp only [outcome_fields_cons, Prod.mk.injEq, List.append_eq_nil_iff,
      List.map_eq_nil_iff] at clean
    obtain ⟨rfl, here, there⟩ := clean
    have first := coerces_of_outcome s (members.get? key)
      (outcome (s.apply (members.get? key))).1 (Prod.ext rfl here)
    have others := fieldsCoerce_of_outcome rest members
      (outcome (applyFields rest members)).1 (Prod.ext rfl there)
    cases hy : (outcome (s.apply (members.get? key))).1 with
    | none =>
      rw [hy] at first
      exact .absent first others
    | some y =>
      rw [hy] at first
      exact .present first others

theorem variantCoerces_of_outcome : (choices : List (String × List (String × Shape))) →
    (name : String) → (fields : List (String × Shape)) → (members outs : Members Json) →
    Members.get? name choices = some fields →
    outcome (applyVariant choices name members) = (outs, []) → FieldsCoerce fields members outs
  | [], name, fields, members, outs => fun found => nomatch found
  | (n, fs) :: rest, name, fields, members, outs => by
    intro found clean
    by_cases h : n = name
    · simp only [Members.get?, h, if_true, Option.some.injEq] at found
      subst found
      refine fieldsCoerce_of_outcome fs members outs ?_
      simpa only [outcome, applyVariant, h, if_true] using clean
    · simp only [Members.get?, h, if_false] at found
      refine variantCoerces_of_outcome rest name fields members outs found ?_
      simpa only [outcome, applyVariant, h, if_false] using clean

end

mutual

theorem Coerces.outcome_eq {s : Shape} {value out : Option Json} :
    Coerces s value out → outcome (s.apply value) = (out, [])
  | .absent => rfl
  | .null => rfl
  | .present notNull inside => by
    rename_i v
    have nested := inside.outcome_eq
    cases v
    case null => exact absurd rfl notNull
    all_goals exact nested
  | .scalar coerced => by simp [outcome, apply, coerced, empty]
  | .enumerator member => by simp [outcome, apply, applyEnumeration, member, empty]
  | .list each => by rw [outcome_list, each.outcome_eq 0]
  | .object each => by rw [outcome_object, each.outcome_eq]
  | .variant selected found each => by
    rw [outcome_variant selected, applyVariant_of_get? found, each.outcome_eq]

theorem ItemsCoerce.outcome_eq {item : Shape} {items outs : List Json} (i : Nat) :
    ItemsCoerce item items outs → outcome (applyItems item.apply i items) = (outs, [])
  | .nil => rfl
  | .cons first others => by
    rw [outcome_items_cons, first.outcome_eq, others.outcome_eq (i + 1)]
    rfl

theorem FieldsCoerce.outcome_eq {fields : List (String × Shape)} {members outs : Members Json} :
    FieldsCoerce fields members outs → outcome (applyFields fields members) = (outs, [])
  | .nil => rfl
  | .absent first others => by
    rw [outcome_fields_cons, first.outcome_eq, others.outcome_eq]
    rfl
  | .present first others => by
    rw [outcome_fields_cons, first.outcome_eq, others.outcome_eq]
    rfl

end

theorem validate_eq (s : Shape) (x : Json) :
    s.validate x =
      if (outcome (s.apply (some x))).2.isEmpty then
        .ok ((outcome (s.apply (some x))).1.getD .null)
      else .error (outcome (s.apply (some x))).2 := rfl

theorem validate_eq_error_iff {s : Shape} {x : Json} {issues : List Issue} :
    s.validate x = .error issues ↔ issues ≠ [] ∧ (outcome (s.apply (some x))).2 = issues := by
  rw [validate_eq]
  split
  · rename_i clean
    rw [List.isEmpty_iff.mp clean]
    simp [eq_comm]
  · rename_i some
    rw [List.isEmpty_iff] at some
    rw [Except.error.injEq]
    exact ⟨fun same => ⟨same ▸ some, same⟩, fun found => found.2⟩

theorem validate_eq_ok_iff {s : Shape} {x y : Json} :
    s.validate x = .ok y ↔ Coerces s (some x) (some y) := by
  rw [validate_eq]
  constructor
  · intro valid
    split at valid
    · rename_i clean
      have taken := coerces_of_outcome s (some x) (outcome (s.apply (some x))).1
        (Prod.ext rfl (List.isEmpty_iff.1 clean))
      obtain ⟨z, hz⟩ := taken.some_of_some
      rw [hz] at taken
      rw [hz] at valid
      cases valid
      exact taken
    · cases valid
  · intro taken
    simp [taken.outcome_eq]

end FederatedMock.Shape
