import FederatedMock.Proofs.Shape.Idempotence

namespace FederatedMock.Shape

mutual

/-- The value is another one without the type names that the shape does not list, up to the order of
members. -/
inductive Trims : Shape → Json → Json → Prop
  | scalar {rule : ScalarRule} {y : Json} : Trims (.scalar rule) y y
  | enumerator {names : List String} {y : Json} : Trims (.enumeration names) y y
  | null {inner : Shape} : Trims (.nullable inner) .null .null
  | present {inner : Shape} {more y : Json} (inside : Trims inner more y) :
      Trims (.nullable inner) more y
  | list {item : Shape} {more items : List Json} (each : ItemsTrim item more items) :
      Trims (.list item) (.array more) (.array items)
  | object {fields : List (String × Shape)} {more members : Members Json}
      (distinct : (Members.keys members).Nodup) (distinctMore : (Members.keys more).Nodup)
      (listed : ∀ key s, Members.get? key fields = some s →
        MemberTrims s (Members.get? key more) (Members.get? key members))
      (others : ∀ key, Members.get? key fields = none → Members.get? key members = none ∧
        (key = typenameKey ∨ Members.get? key more = none)) :
      Trims (.object fields) (.object more) (.object members)
  | variant {choices : Variants} {name : String} {fields : List (String × Shape)}
      {more members : Members Json} (named : Members.get? typenameKey more = some (.string name))
      (found : Members.get? name choices = some fields)
      (inside : Trims (.object fields) (.object more) (.object members)) :
      Trims (.variants choices) (.object more) (.object members)

inductive ItemsTrim : Shape → List Json → List Json → Prop
  | nil {item : Shape} : ItemsTrim item [] []
  | cons {item : Shape} {more y : Json} {mores items : List Json} (first : Trims item more y)
      (others : ItemsTrim item mores items) : ItemsTrim item (more :: mores) (y :: items)

inductive MemberTrims : Shape → Option Json → Option Json → Prop
  | absent {s : Shape} : MemberTrims s none none
  | present {s : Shape} {more y : Json} (inside : Trims s more y) :
      MemberTrims s (some more) (some y)

end

/-- Both shapes take the value, or its absence, or neither does, and what the first makes of it is
what the second makes of it without type names that the first does not list. -/
structure AgreesOn (s more : Shape) (value : Option Json) : Prop where
  taken : (∃ out, Coerces s value out) ↔ ∃ out, Coerces more value out
  trims : ∀ out out', Coerces s value out → Coerces more value out' → MemberTrims s out' out

section Fields

variable {fields more : Fields} {members outs : Members Json} {key : String}

theorem FieldsCoerce.nodup_keys (each : FieldsCoerce fields members outs)
    (distinct : (Members.keys fields).Nodup) : (Members.keys outs).Nodup := by
  induction fields generalizing outs with
  | nil =>
      cases each
      exact List.nodup_nil
  | cons field rest ih =>
      obtain ⟨fresh, later⟩ := List.nodup_cons.mp distinct
      cases each with
      | absent first others => exact ih others later
      | present first others =>
          exact List.nodup_cons.mpr ⟨fun out => fresh (others.mem_keys out), ih others later⟩

theorem exists_fieldsCoerce_iff (distinct : (Members.keys fields).Nodup) :
    (∃ outs, FieldsCoerce fields members outs) ↔
      ∀ key s, fields.get? key = some s → ∃ out, Coerces s (members.get? key) out := by
  constructor
  · rintro ⟨outs, each⟩ key s found
    exact ⟨_, each.get?_out distinct (Members.mem_of_get? found)⟩
  · intro each
    induction fields with
    | nil => exact ⟨[], .nil⟩
    | cons field rest ih =>
        obtain ⟨key, s⟩ := field
        obtain ⟨fresh, later⟩ := List.nodup_cons.mp distinct
        obtain ⟨out, first⟩ := each key s (by simp [Members.get?])
        have others : ∀ k s, Members.get? k rest = some s →
            ∃ out, Coerces s (members.get? k) out := by
          intro k s' found
          have other : key ≠ k := by
            rintro rfl
            have listed := Members.mem_of_get? found
            exact fresh (List.mem_map.mpr ⟨_, listed, rfl⟩)
          exact each k s' (by simpa [Members.get?, other] using found)
        obtain ⟨outs, rest⟩ := ih later others
        cases out with
        | none => exact ⟨outs, .absent first rest⟩
        | some y => exact ⟨(key, y) :: outs, .present first rest⟩

structure FieldsAgree (fields more : Fields) (members : Members Json) : Prop where
  distinct : (Members.keys fields).Nodup
  distinctMore : (Members.keys more).Nodup
  others : ∀ key, key ≠ typenameKey → Option.Rel (fun s s' => s.AgreesOn s' (members.get? key))
    (fields.get? key) (more.get? key)
  kept : ∀ s, fields.get? typenameKey = some s →
    ∃ s', more.get? typenameKey = some s' ∧ s.AgreesOn s' (members.get? typenameKey)
  taken : ∀ s', more.get? typenameKey = some s' → ∃ out, Coerces s' (members.get? typenameKey) out

theorem FieldsAgree.get? (agree : FieldsAgree fields more members) {s : Shape}
    (found : fields.get? key = some s) :
    ∃ s', more.get? key = some s' ∧ s.AgreesOn s' (members.get? key) := by
  by_cases here : key = typenameKey
  · subst here
    exact agree.kept s found
  · have same := agree.others key here
    rw [found] at same
    cases given : Members.get? key more with
    | none => simp [given] at same
    | some s' =>
        rw [given] at same
        cases same with
        | some agrees => exact ⟨s', rfl, agrees⟩

theorem FieldsAgree.exists_iff (agree : FieldsAgree fields more members) :
    (∃ outs, FieldsCoerce fields members outs) ↔ ∃ outs, FieldsCoerce more members outs := by
  rw [exists_fieldsCoerce_iff agree.distinct, exists_fieldsCoerce_iff agree.distinctMore]
  constructor
  · intro each key s' found
    by_cases here : key = typenameKey
    · subst here
      exact agree.taken s' found
    · have same := agree.others key here
      rw [found] at same
      cases given : Members.get? key fields with
      | none => simp [given] at same
      | some s =>
          rw [given] at same
          cases same with
          | some agrees => exact agrees.taken.mp (each key s given)
  · intro each key s found
    obtain ⟨s', given, agrees⟩ := agree.get? found
    exact agrees.taken.mpr (each key s' given)

theorem FieldsAgree.trims {outs' : Members Json} (agree : FieldsAgree fields more members)
    (each : FieldsCoerce fields members outs) (each' : FieldsCoerce more members outs') :
    Trims (.object fields) (.object outs') (.object outs) := by
  refine .object (each.nodup_keys agree.distinct) (each'.nodup_keys agree.distinctMore) ?_ ?_
  · intro key s found
    obtain ⟨s', given, agrees⟩ := agree.get? found
    have out := each.get?_out agree.distinct (Members.mem_of_get? found)
    have out' := each'.get?_out agree.distinctMore (Members.mem_of_get? given)
    exact agrees.trims _ _ out out'
  · intro key missing
    have unlisted := Members.get?_eq_none_iff.mp missing
    have gone := Members.get?_eq_none_iff.mpr fun out => unlisted (each.mem_keys out)
    refine ⟨gone, ?_⟩
    by_cases here : key = typenameKey
    · exact .inl here
    · have same := agree.others key here
      rw [missing] at same
      cases given : Members.get? key more with
      | some s' => simp [given] at same
      | none =>
          have unlisted' := Members.get?_eq_none_iff.mp given
          exact .inr (Members.get?_eq_none_iff.mpr fun out => unlisted' (each'.mem_keys out))

end Fields

section Items

variable {item more : Shape} {items outs outs' : List Json}

theorem exists_itemsCoerce_iff : (∃ outs, ItemsCoerce item items outs) ↔
    ∀ v ∈ items, ∃ out, Coerces item (some v) out := by
  induction items with
  | nil => exact iff_of_true ⟨[], .nil⟩ fun _ mem => (List.not_mem_nil mem).elim
  | cons v rest ih =>
      rw [List.forall_mem_cons, ← ih]
      constructor
      · rintro ⟨outs, each⟩
        cases each with
        | cons first others => exact ⟨⟨_, first⟩, _, others⟩
      · rintro ⟨⟨out, first⟩, outs, others⟩
        obtain ⟨y, rfl⟩ := first.some_of_some
        exact ⟨y :: outs, .cons first others⟩

theorem ItemsCoerce.trims (each : ItemsCoerce item items outs)
    (each' : ItemsCoerce more items outs')
    (agrees : ∀ v ∈ items, item.AgreesOn more (some v)) : ItemsTrim item outs' outs := by
  induction items generalizing outs outs' with
  | nil =>
      cases each
      cases each'
      exact .nil
  | cons v rest ih =>
      obtain ⟨here, later⟩ := List.forall_mem_cons.mp agrees
      cases each with
      | cons first others =>
          cases each' with
          | cons first' others' =>
              cases here.trims _ _ first first' with
              | present inside => exact .cons inside (ih others others' later)

end Items

namespace AgreesOn

theorem of_not_taken {s more : Shape} {value : Option Json} (left : ∀ out, ¬ Coerces s value out)
    (right : ∀ out, ¬ Coerces more value out) : s.AgreesOn more value where
  taken := iff_of_false (fun ⟨out, taken⟩ => left out taken) fun ⟨out, taken⟩ => right out taken
  trims := fun out _ taken => (left out taken).elim

theorem scalar (rule : ScalarRule) (value : Option Json) :
    (Shape.scalar rule).AgreesOn (.scalar rule) value where
  taken := Iff.rfl
  trims := by
    rintro _ _ (_ | _ | _ | coerced) (_ | _ | _ | coerced')
    cases coerced.symm.trans coerced'
    exact .present .scalar

theorem enumeration (names : List String) (value : Option Json) :
    (Shape.enumeration names).AgreesOn (.enumeration names) value where
  taken := Iff.rfl
  trims := by
    intro out out' taken taken'
    cases taken
    cases taken'
    exact .present .enumerator

theorem nullable {inner more : Shape} {value : Option Json}
    (agrees : ∀ y, value = some y → inner.AgreesOn more value) :
    (Shape.nullable inner).AgreesOn (.nullable more) value where
  taken := by
    cases value with
    | none => exact iff_of_true ⟨_, .absent⟩ ⟨_, .absent⟩
    | some y =>
        by_cases null : y = .null
        · subst null
          exact iff_of_true ⟨_, .null⟩ ⟨_, .null⟩
        · constructor
          · rintro ⟨out, taken⟩
            cases taken with
            | null => exact (null rfl).elim
            | present _ inside =>
                obtain ⟨out', taken'⟩ := (agrees y rfl).taken.mp ⟨_, inside⟩
                exact ⟨out', .present null taken'⟩
          · rintro ⟨out, taken⟩
            cases taken with
            | null => exact (null rfl).elim
            | present _ inside =>
                obtain ⟨out', taken'⟩ := (agrees y rfl).taken.mpr ⟨_, inside⟩
                exact ⟨out', .present null taken'⟩
  trims := by
    intro out out' taken taken'
    cases taken with
    | absent =>
        cases taken'
        exact .absent
    | null =>
        cases taken' with
        | null => exact .present .null
        | present notNull => exact (notNull rfl).elim
    | present notNull inside =>
        cases taken' with
        | null => exact (notNull rfl).elim
        | present _ inside' =>
            cases (agrees _ rfl).trims _ _ inside inside' with
            | present trims => exact .present (.present trims)
            | absent => exact .absent

theorem list {item more : Shape} {value : Option Json}
    (agrees : ∀ items y, value = some (.array items) → y ∈ items → item.AgreesOn more (some y)) :
    (Shape.list item).AgreesOn (.list more) value where
  taken := by
    constructor
    · rintro ⟨_, taken⟩
      cases taken with
      | list each =>
          have each := exists_itemsCoerce_iff.mp ⟨_, each⟩
          obtain ⟨outs, each'⟩ := exists_itemsCoerce_iff.mpr fun v mem =>
            (agrees _ v rfl mem).taken.mp (each v mem)
          exact ⟨_, .list each'⟩
    · rintro ⟨_, taken⟩
      cases taken with
      | list each =>
          have each := exists_itemsCoerce_iff.mp ⟨_, each⟩
          obtain ⟨outs, each'⟩ := exists_itemsCoerce_iff.mpr fun v mem =>
            (agrees _ v rfl mem).taken.mpr (each v mem)
          exact ⟨_, .list each'⟩
  trims := by
    intro _ _ taken taken'
    cases taken with
    | list each =>
        cases taken' with
        | list each' => exact .present (.list (each.trims each' fun v mem => agrees _ v rfl mem))

theorem object {fields more : Fields} {members : Members Json}
    (agree : FieldsAgree fields more members) :
    (Shape.object fields).AgreesOn (.object more) (some (.object members)) where
  taken := by
    constructor
    · rintro ⟨_, taken⟩
      cases taken with
      | object each =>
          obtain ⟨outs, each'⟩ := agree.exists_iff.mp ⟨_, each⟩
          exact ⟨_, .object each'⟩
    · rintro ⟨_, taken⟩
      cases taken with
      | object each =>
          obtain ⟨outs, each'⟩ := agree.exists_iff.mpr ⟨_, each⟩
          exact ⟨_, .object each'⟩
  trims := by
    intro _ _ taken taken'
    cases taken with
    | object each =>
        cases taken' with
        | object each' => exact .present (agree.trims each each')

theorem variants {choices more : Variants} {members : Members Json} {name : String}
    (given : members.get? typenameKey = some (.string name))
    (known : choices.get? name = none ↔ more.get? name = none)
    (agree : ∀ fields fields', choices.get? name = some fields → more.get? name = some fields' →
      FieldsAgree fields fields' members ∧
        (Members.get? typenameKey fields' = some (.scalar (.typename name)) ∨
          Members.get? typenameKey fields' = some (.enumeration [name]))) :
    (Shape.variants choices).AgreesOn (.variants more) (some (.object members)) := by
  have reads (choices : Variants) {n : String} {fields : Fields}
      (selected : selectVariant choices members = some n) (found : choices.get? n = some fields) :
      n = name := by
    simp only [selectVariant, given] at selected
    split at selected
    · exact (Option.some.inj selected).symm
    · cases selected
  constructor
  · constructor
    · rintro ⟨_, taken⟩
      cases taken with
      | variant selected found each =>
          cases reads choices selected found
          obtain ⟨fields', found'⟩ := Option.ne_none_iff_exists'.mp
            ((not_congr known).mp (by simp [found]))
          obtain ⟨outs, each'⟩ := (agree _ _ found found').1.exists_iff.mp ⟨_, each⟩
          exact ⟨_, .variant (selectVariant_of_typename found' given) found' each'⟩
    · rintro ⟨_, taken⟩
      cases taken with
      | variant selected found' each' =>
          cases reads more selected found'
          obtain ⟨fields, found⟩ := Option.ne_none_iff_exists'.mp
            ((not_congr known).mpr (by simp [found']))
          obtain ⟨outs, each⟩ := (agree _ _ found found').1.exists_iff.mpr ⟨_, each'⟩
          exact ⟨_, .variant (selectVariant_of_typename found given) found each⟩
  · intro _ _ taken taken'
    cases taken with
    | variant selected found each =>
        cases taken' with
        | variant selected' found' each' =>
            cases reads choices selected found
            cases reads more selected' found'
            obtain ⟨fields, named⟩ := agree _ _ found found'
            have out := each'.typename_out fields.distinctMore named
            exact .present (.variant out found (fields.trims each each'))

end AgreesOn

end FederatedMock.Shape
