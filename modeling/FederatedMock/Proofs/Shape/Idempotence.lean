import FederatedMock.Proofs.Shape.Coercion
import FederatedMock.Proofs.Shape.Part
import FederatedMock.Proofs.Shape.Scalar

namespace FederatedMock

namespace Shape

structure Settled (s : Shape) : Prop where
  keyed : s.Everywhere DistinctKeys
  named : s.Everywhere NamedVariants

theorem Settled.of_part {a b : Shape} (settled : Settled b) (part : Part a b) : Settled a :=
  ⟨settled.keyed.of_part part, settled.named.of_part part⟩

theorem selectVariant_of_typename {choices : Variants} {members : Members Json} {name : String}
    {fields : List (String × Shape)} (found : choices.get? name = some fields)
    (given : members.get? typenameKey = some (.string name)) :
    selectVariant choices members = some name := by
  simp [selectVariant, given, Members.contains, found]

theorem FieldsCoerce.typename_out {fields : List (String × Shape)} {members outs : Members Json}
    {name : String} (distinct : (Members.keys fields).Nodup)
    (named : Members.get? typenameKey fields = some (.scalar (.typename name)) ∨
      Members.get? typenameKey fields = some (.enumeration [name]))
    (each : FieldsCoerce fields members outs) :
    outs.get? typenameKey = some (.string name) := by
  rcases named with forced | checked
  · have taken := each.get?_out distinct (Members.mem_of_get? forced)
    generalize outs.get? typenameKey = out at taken
    cases taken with
    | scalar coerced =>
        cases h : members.get? typenameKey <;> rw [h] at coerced <;> cases coerced <;> rfl
  · have taken := each.get?_out distinct (Members.mem_of_get? checked)
    generalize members.get? typenameKey = value, outs.get? typenameKey = out at taken
    cases taken with
    | enumerator member => rw [List.mem_singleton.1 member]

mutual

theorem Coerces.again {s : Shape} {value out : Option Json} :
    Coerces s value out → Settled s → Coerces s out out
  | .absent, _ => .absent
  | .null, _ => .null
  | .present notNull inside, settled => by
    have inner := inside.again (settled.of_part (.nullable .refl))
    obtain ⟨y, rfl⟩ := inside.some_of_some
    by_cases h : y = .null
    · rw [h]
      exact .null
    · exact .present h inner
  | .scalar coerced, _ => .scalar (ScalarRule.coerce_coerced coerced)
  | .enumerator member, _ => .enumerator member
  | .list each, settled => .list (each.again (settled.of_part (.list .refl)))
  | .object each, settled => by
    refine .object (each.again settled.keyed.here ?_ fun _ _ => rfl)
    exact fun f member => settled.of_part (.field member .refl)
  | .variant selected found each, settled => by
    have choice := Members.mem_of_get? found
    have distinct := settled.keyed.here.2 _ choice
    have given := each.typename_out distinct (settled.named.here _ choice)
    refine .variant (selectVariant_of_typename found given) found ?_
    refine each.again distinct ?_ fun _ _ => rfl
    exact fun f member => settled.of_part (.choice choice member .refl)

theorem ItemsCoerce.again {item : Shape} {items outs : List Json} :
    ItemsCoerce item items outs → Settled item → ItemsCoerce item outs outs
  | .nil, _ => .nil
  | .cons first others, settled => .cons (first.again settled) (others.again settled)

theorem FieldsCoerce.again {fields : List (String × Shape)} {members outs all : Members Json} :
    FieldsCoerce fields members outs → (Members.keys fields).Nodup →
    (∀ f ∈ fields, Settled f.2) → (∀ key ∈ Members.keys fields, all.get? key = outs.get? key) →
    FieldsCoerce fields all outs
  | .nil, _, _, _ => .nil
  | .absent first others, distinct, settled, same => by
    simp only [Members.keys, List.map_cons, List.nodup_cons] at distinct
    have gone := same _ List.mem_cons_self
    rw [Members.get?_eq_none_iff.2 fun out => distinct.1 (others.mem_keys out)] at gone
    refine .absent ?_ (others.again distinct.2 (fun f member => settled f (.tail _ member))
      fun key member => same key (.tail _ member))
    rw [gone]
    exact first.again (settled _ List.mem_cons_self)
  | .present first others, distinct, settled, same => by
    rename_i key s rest outs y
    simp only [Members.keys, List.map_cons, List.nodup_cons] at distinct
    have here : all.get? key = some y := by
      simpa [Members.get?] using same key List.mem_cons_self
    refine .present ?_ (others.again distinct.2 (fun f member => settled f (.tail _ member)) ?_)
    · rw [here]
      exact first.again (settled _ List.mem_cons_self)
    · intro k member
      have other : key ≠ k := fun e => distinct.1 (e ▸ member)
      simpa [Members.get?, other] using same k (.tail _ member)

end

/-- Validated data is valid and is its own coercion. -/
theorem validate_validated {s : Shape} (keyed : s.Everywhere DistinctKeys)
    (named : s.Everywhere NamedVariants) {x y : Json} (valid : s.validate x = .ok y) :
    s.validate y = .ok y :=
  validate_eq_ok_iff.2 ((validate_eq_ok_iff.1 valid).again ⟨keyed, named⟩)

def mediaShape : Shape :=
  .list (.variants
    [("Film", [(typenameKey, .enumeration ["Film"]), ("minutes", .scalar .number)]),
      ("Book", [(typenameKey, .scalar (.typename "Book")),
        ("title", .nullable (.scalar (.string .any))), ("pages", .scalar .number)])])

def looseMedia : Json :=
  .array [.object [("isbn", .null), ("pages", .string " 12 ")],
    .object [("minutes", .boolean true), (typenameKey, .string "Film")]]

def coercedMedia : Json :=
  .array [.object [(typenameKey, .string "Book"), ("pages", .ofNat 12)],
    .object [(typenameKey, .string "Film"), ("minutes", .ofNat 1)]]

theorem validate_coercedMedia :
    mediaShape.Everywhere DistinctKeys ∧ mediaShape.Everywhere NamedVariants ∧
      mediaShape.validate looseMedia = .ok coercedMedia ∧
      mediaShape.validate coercedMedia = .ok coercedMedia := by
  have keyed : mediaShape.Everywhere DistinctKeys := by
    simp [mediaShape, DistinctKeys, Members.keys, typenameKey, -Prod.forall]
  have named : mediaShape.Everywhere NamedVariants := by
    simp [mediaShape, NamedVariants, Members.get?, -Prod.forall]
  have valid : mediaShape.validate looseMedia = .ok coercedMedia := by rfl
  exact ⟨keyed, named, valid, validate_validated keyed named valid⟩

end Shape

end FederatedMock
