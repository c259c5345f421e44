import FederatedMock.Ordered.Basic
import FederatedMock.Shape.Basic

namespace FederatedMock.Shape

theorem sizeOf_field_lt {fields : List (String × Shape)} {f : String × Shape} (mem : f ∈ fields) :
    sizeOf f.2 < sizeOf fields := by
  have smaller := List.sizeOf_lt_of_mem mem
  obtain ⟨key, s⟩ := f
  rw [Prod.mk.sizeOf_spec] at smaller
  show sizeOf s < sizeOf fields
  omega

theorem sizeOf_choice_lt {choices : Variants} {choice : String × List (String × Shape)}
    (chosen : choice ∈ choices) : sizeOf choice.2 < sizeOf choices := by
  have smaller := List.sizeOf_lt_of_mem chosen
  obtain ⟨name, fields⟩ := choice
  rw [Prod.mk.sizeOf_spec] at smaller
  show sizeOf fields < sizeOf choices
  omega

@[elab_as_elim]
theorem induction {P : Shape → Prop} (scalar : ∀ rule, P (.scalar rule))
    (enumeration : ∀ names, P (.enumeration names)) (list : ∀ item, P item → P (.list item))
    (nullable : ∀ inner, P inner → P (.nullable inner))
    (object : ∀ fields : List (String × Shape), (∀ f ∈ fields, P f.2) → P (.object fields))
    (variants : ∀ choices : Variants, (∀ choice ∈ choices, ∀ f ∈ choice.2, P f.2) →
      P (.variants choices)) :
    ∀ s, P s
  | .scalar rule => scalar rule
  | .enumeration names => enumeration names
  | .list item => list item
      (induction scalar enumeration list nullable object variants item)
  | .nullable inner => nullable inner
      (induction scalar enumeration list nullable object variants inner)
  | .object fields => object fields fun f _ =>
      induction scalar enumeration list nullable object variants f.2
  | .variants choices => variants choices fun _ _ f _ =>
      induction scalar enumeration list nullable object variants f.2
termination_by s => sizeOf s
decreasing_by
  · simp_wf
  · simp_wf
  · rename_i mem
    have field := sizeOf_field_lt mem
    simp_wf
    omega
  · rename_i chosen mem
    have choice := sizeOf_choice_lt chosen
    have field := sizeOf_field_lt mem
    simp_wf
    omega

inductive Part : Shape → Shape → Prop
  | refl {s : Shape} : Part s s
  | list {s item : Shape} (inside : Part s item) : Part s (.list item)
  | nullable {s inner : Shape} (inside : Part s inner) : Part s (.nullable inner)
  | field {s : Shape} {fields : List (String × Shape)} {f : String × Shape} (member : f ∈ fields)
      (inside : Part s f.2) : Part s (.object fields)
  | choice {s : Shape} {choices : Variants} {choice : String × List (String × Shape)}
      {f : String × Shape} (chosen : choice ∈ choices) (member : f ∈ choice.2)
      (inside : Part s f.2) : Part s (.variants choices)

theorem Part.trans {a b c : Shape} (ab : Part a b) (bc : Part b c) : Part a c := by
  induction bc with
  | refl => exact ab
  | list _ ih => exact .list ih
  | nullable _ ih => exact .nullable ih
  | field member _ ih => exact .field member ih
  | choice chosen member _ ih => exact .choice chosen member ih

def Everywhere (P : Shape → Prop) (s : Shape) : Prop :=
  ∀ p, Part p s → P p

section Everywhere

variable {P : Shape → Prop}

theorem Everywhere.here {s : Shape} (all : Everywhere P s) : P s := all s .refl

theorem Everywhere.of_part {a b : Shape} (all : Everywhere P b) (part : Part a b) :
    Everywhere P a :=
  fun p inside => all p (inside.trans part)

@[simp]
theorem everywhere_scalar {rule : ScalarRule} :
    Everywhere P (.scalar rule) ↔ P (.scalar rule) :=
  ⟨Everywhere.here, fun h p part => by cases part; exact h⟩

@[simp]
theorem everywhere_enumeration {members : List String} :
    Everywhere P (.enumeration members) ↔ P (.enumeration members) :=
  ⟨Everywhere.here, fun h p part => by cases part; exact h⟩

@[simp]
theorem everywhere_list {item : Shape} :
    Everywhere P (.list item) ↔ P (.list item) ∧ Everywhere P item := by
  refine ⟨fun all => ⟨all.here, all.of_part (.list .refl)⟩, ?_⟩
  rintro ⟨h, all⟩ p part
  cases part with
  | refl => exact h
  | list inside => exact all p inside

@[simp]
theorem everywhere_nullable {inner : Shape} :
    Everywhere P (.nullable inner) ↔ P (.nullable inner) ∧ Everywhere P inner := by
  refine ⟨fun all => ⟨all.here, all.of_part (.nullable .refl)⟩, ?_⟩
  rintro ⟨h, all⟩ p part
  cases part with
  | refl => exact h
  | nullable inside => exact all p inside

@[simp]
theorem everywhere_object {fields : List (String × Shape)} :
    Everywhere P (.object fields) ↔ P (.object fields) ∧ ∀ f ∈ fields, Everywhere P f.2 := by
  refine ⟨fun all => ⟨all.here, fun f member => all.of_part (.field member .refl)⟩, ?_⟩
  rintro ⟨h, all⟩ p part
  cases part with
  | refl => exact h
  | field member inside => exact all _ member p inside

@[simp]
theorem everywhere_variants {choices : Variants} :
    Everywhere P (.variants choices) ↔
      P (.variants choices) ∧ ∀ choice ∈ choices, ∀ f ∈ choice.2, Everywhere P f.2 := by
  refine ⟨fun all => ⟨all.here, fun choice chosen f member =>
    all.of_part (.choice chosen member .refl)⟩, ?_⟩
  rintro ⟨h, all⟩ p part
  cases part with
  | refl => exact h
  | choice chosen member inside => exact all _ chosen _ member p inside

end Everywhere

def DistinctKeys : Shape → Prop
  | .object fields => (Members.keys fields).Nodup
  | .variants choices =>
    (Members.keys choices).Nodup ∧ ∀ choice ∈ choices, (Members.keys choice.2).Nodup
  | _ => True

/-- What a variant gives under `__typename`, forced or checked, is the name it stands under. -/
def NamedVariants : Shape → Prop
  | .variants choices => ∀ choice ∈ choices,
    Members.get? typenameKey choice.2 = some (.scalar (.typename choice.1)) ∨
      Members.get? typenameKey choice.2 = some (.enumeration [choice.1])
  | _ => True

end FederatedMock.Shape
