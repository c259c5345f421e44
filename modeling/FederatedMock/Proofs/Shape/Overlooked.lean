import FederatedMock.Proofs.Shape.Idempotence
import FederatedMock.Proofs.Shape.Reordering

namespace FederatedMock

open Shape

inductive Json.AlikeUnread : Json → Json → Prop
  | same (v : Json) : AlikeUnread v v
  | array {items items' : List Json} (length : items.length = items'.length)
      (each : ∀ (i : Nat) v v', items[i]? = some v → items'[i]? = some v' → AlikeUnread v v') :
      AlikeUnread (.array items) (.array items')
  | object (members members' : Members Json) : AlikeUnread (.object members) (.object members')

namespace Shape

def opens : Shape → Json → Bool
  | .nullable _, _ => true
  | .list _, .array _ => true
  | .object _, .object _ => true
  | .variants _, .object _ => true
  | _, _ => false

mutual

/-- The values differ in nothing that the shape reads. -/
inductive Overlooks : Shape → Json → Json → Prop
  | same {s : Shape} (v : Json) : Overlooks s v v
  | unread {s : Shape} {v v' : Json} (shut : s.opens v = false) (alike : v.AlikeUnread v') :
      Overlooks s v v'
  | nullable {inner : Shape} {v v' : Json} (inside : Overlooks inner v v') :
      Overlooks (.nullable inner) v v'
  | list {item : Shape} {items items' : List Json} (length : items.length = items'.length)
      (each : ∀ (i : Nat) v v', items[i]? = some v → items'[i]? = some v' →
        Overlooks item v v') :
      Overlooks (.list item) (.array items) (.array items')
  | object {fields : List (String × Shape)} {members members' : Members Json}
      (each : ∀ f ∈ fields, MemberOverlooked f.2 (members.get? f.1) (members'.get? f.1)) :
      Overlooks (.object fields) (.object members) (.object members')
  | variants {choices : Variants} {members members' : Members Json}
      (typename : Option.Rel Json.AlikeUnread (members.get? typenameKey)
        (members'.get? typenameKey))
      (each : ∀ name fields, selectVariant choices members = some name →
        choices.get? name = some fields →
          ∀ f ∈ fields, MemberOverlooked f.2 (members.get? f.1) (members'.get? f.1)) :
      Overlooks (.variants choices) (.object members) (.object members')

inductive MemberOverlooked : Shape → Option Json → Option Json → Prop
  | forced {name : String} (value value' : Option Json) :
      MemberOverlooked (.scalar (.typename name)) value value'
  | absent {s : Shape} : MemberOverlooked s none none
  | present {s : Shape} {v v' : Json} (inside : Overlooks s v v') :
      MemberOverlooked s (some v) (some v')

end

theorem apply_unread {s : Shape} {v v' : Json} (shut : s.opens v = false)
    (alike : v.AlikeUnread v') : s.apply (some v) = s.apply (some v') := by
  cases alike with
  | same => rfl
  | array length each =>
      cases s with
      | scalar rule => cases rule <;> rfl
      | list item => cases shut
      | nullable inner => cases shut
      | _ => rfl
  | object members members' =>
      cases s with
      | scalar rule => cases rule <;> rfl
      | enumeration names => rfl
      | list item => rfl
      | _ => cases shut

theorem applyItems_congr {f : Option Json → Report → Option Json × Report}
    {items items' : List Json} (length : items.length = items'.length)
    (each : ∀ (i : Nat) v v', items[i]? = some v → items'[i]? = some v' →
      f (some v) = f (some v')) (k : Nat) :
    applyItems f k items = applyItems f k items' := by
  induction items generalizing items' k with
  | nil => rw [List.length_eq_zero_iff.mp length.symm]
  | cons v rest ih =>
      cases items' with
      | nil => cases length
      | cons v' rest' =>
          have others := ih (Nat.succ.inj length) (fun i w w' here there =>
            each (i + 1) w w' here there) (k + 1)
          rw [applyItems_cons, applyItems_cons, each 0 v v' rfl rfl, others]

theorem applyFields_congr {fields : List (String × Shape)} {members members' : Members Json}
    (each : ∀ f ∈ fields, f.2.apply (members.get? f.1) = f.2.apply (members'.get? f.1)) :
    applyFields fields members = applyFields fields members' := by
  induction fields with
  | nil => rfl
  | cons f rest ih =>
      obtain ⟨first, others⟩ := List.forall_mem_cons.mp each
      rw [applyFields_cons, applyFields_cons, first, ih others]

theorem selectVariant_congr {choices : Variants} {members members' : Members Json}
    (typename : Option.Rel Json.AlikeUnread (members.get? typenameKey)
      (members'.get? typenameKey)) :
    selectVariant choices members = selectVariant choices members' := by
  unfold selectVariant
  generalize members.get? typenameKey = given, members'.get? typenameKey = given' at typename
  cases typename with
  | none => rfl
  | some alike => cases alike <;> rfl

theorem Overlooks.null_iff {s : Shape} {v v' : Json} :
    s.Overlooks v v' → (v = .null ↔ v' = .null)
  | .same v => Iff.rfl
  | .unread _ alike => by cases alike <;> simp
  | .nullable inside => inside.null_iff
  | .list _ _ => by simp
  | .object _ => by simp
  | .variants _ _ => by simp

mutual

theorem Overlooks.apply_eq {s : Shape} {v v' : Json} :
    s.Overlooks v v' → s.apply (some v) = s.apply (some v')
  | .same v => rfl
  | .unread shut alike => apply_unread shut alike
  | .nullable inside => by
    by_cases null : v = .null
    · rw [null, inside.null_iff.mp null]
    · have notNull : v' ≠ .null := fun null' => null (inside.null_iff.mpr null')
      rw [apply_nullable null, apply_nullable notNull, inside.apply_eq]
  | .list length each => by
    rw [apply_list, apply_list,
      applyItems_congr length fun i w w' here there => (each i w w' here there).apply_eq]
  | .object each => by
    rw [apply_object, apply_object, applyFields_congr fun f mem => (each f mem).apply_eq]
  | @Overlooks.variants choices members members' typename each => by
    -- Both walks select the same variant, and then the members that it lists are read alike.
    rw [apply_variants, apply_variants, ← selectVariant_congr typename]
    cases selected : selectVariant choices members with
    | none => rfl
    | some name =>
      obtain ⟨fields, found⟩ := get?_of_selectVariant selected
      have read := applyFields_congr fun f mem => (each name fields selected found f mem).apply_eq
      simp only [applyVariant_of_get? found, read]

theorem MemberOverlooked.apply_eq {s : Shape} {value value' : Option Json} :
    s.MemberOverlooked value value' → s.apply value = s.apply value'
  | .forced value value' => by cases value <;> cases value' <;> rfl
  | .absent => rfl
  | .present inside => inside.apply_eq

end

/-- What differs only in what the shape does not read has the same result: the same data in the
same order, or the same issues in the same order. -/
theorem validate_overlooked {s : Shape} {x x' : Json} (same : s.Overlooks x x') :
    s.validate x = s.validate x' := by
  rw [validate, validate, same.apply_eq]

def catalogShape : Shape :=
  .object [("kind", .scalar (.typename "Catalog")), ("media", mediaShape)]

def looseCatalog : Json :=
  .object [("kind", .ofNat 3), ("media", looseMedia)]

def otherMedia : Json :=
  .array [.object [("pages", .string " 12 "), ("shelf", .array [])],
    .object [(typenameKey, .string "Film"), ("minutes", .boolean true)]]

def otherCatalog : Json :=
  .object [("media", otherMedia)]

theorem catalog_overlooked : catalogShape.Overlooks looseCatalog otherCatalog ∧
    catalogShape.validate looseCatalog = catalogShape.validate otherCatalog := by
  have media : mediaShape.Overlooks looseMedia otherMedia := by
    refine .list rfl fun i v v' here there => ?_
    match i with
    | 0 =>
        cases here
        cases there
        refine .variants .none fun name fields selected found => ?_
        cases selected
        cases found
        simp only [List.forall_mem_cons]
        exact ⟨.forced _ _, .absent, .present (.same _), nofun⟩
    | 1 =>
        cases here
        cases there
        refine .variants (.some (.same _)) fun name fields selected found => ?_
        cases selected
        cases found
        simp only [List.forall_mem_cons]
        exact ⟨.present (.same _), .present (.same _), nofun⟩
    | n + 2 => cases here
  have same : catalogShape.Overlooks looseCatalog otherCatalog := by
    refine .object ?_
    simp only [List.forall_mem_cons]
    exact ⟨.forced _ _, .present media, nofun⟩
  exact ⟨same, validate_overlooked same⟩

theorem MemberOverlooked.of_rel {s : Shape} {value value' : Option Json}
    (related : Option.Rel s.Overlooks value value') : s.MemberOverlooked value value' := by
  cases related with
  | none => exact .absent
  | some inside => exact .present inside

theorem overlooks_of_bare {v v' : Json}
    (bare : ∀ s : Shape, (∀ inner, s ≠ .nullable inner) → s.Overlooks v v') (s : Shape) :
    s.Overlooks v v' := by
  induction s using Shape.induction with
  | nullable inner ih => exact .nullable ih
  | _ => exact bare _ nofun

end Shape

theorem Json.Reordered.alikeUnread {v v' : Json} (same : v.Reordered v') : v.AlikeUnread v' := by
  induction same with
  | same v => exact .same v
  | array length each ih => exact .array length ih
  | object distinct distinct' keys each => exact .object _ _

theorem Json.Reordered.overlooked {v v' : Json} (same : v.Reordered v') (s : Shape) :
    s.Overlooks v v' := by
  induction same generalizing s with
  | same v => exact .same v
  | array length each ih =>
      refine overlooks_of_bare (fun s bare => ?_) s
      cases s with
      | list item => exact .list length fun i v v' here there => ih i v v' here there item
      | nullable inner => exact absurd rfl (bare inner)
      | _ => exact .unread rfl (Json.Reordered.array length each).alikeUnread
  | @object members members' distinct distinct' keys each ih =>
      have member (key : String) (s : Shape) :
          s.MemberOverlooked (members.get? key) (members'.get? key) :=
        .of_rel (rel_of_none_iff (keys key) fun v v' here there => ih key v v' here there s)
      refine overlooks_of_bare (fun s bare => ?_) s
      cases s with
      | object fields => exact .object fun f _ => member f.1 f.2
      | variants choices =>
          have typename := rel_of_none_iff (keys typenameKey) fun v v' here there =>
            (each typenameKey v v' here there).alikeUnread
          exact .variants typename fun _ _ _ _ f _ => member f.1 f.2
      | nullable inner => exact absurd rfl (bare inner)
      | _ => exact .unread rfl (.object _ _)

end FederatedMock
