import FederatedMock.Proofs.Operation.Cycles
import FederatedMock.Proofs.Operation.Variants
import FederatedMock.Proofs.Shape.Part

namespace FederatedMock

open Graphql Shape

namespace Shape

theorem distinctKeys_insertVariant {name : String} {fields : Fields} {choices : Variants}
    (distinct : DistinctKeys (.variants choices)) (keyed : (Members.keys fields).Nodup) :
    DistinctKeys (.variants (insertVariant name fields choices)) := by
  rw [insertVariant_eq]
  refine ⟨Members.nodup_keys_insert distinct.1, ?_⟩
  intro choice mem
  rcases Members.mem_insert mem with rfl | before
  · cases found : choices.get? name with
    | some existing =>
        exact Members.nodup_keys_insertAll (distinct.2 _ (Members.mem_of_get? found))
    | none => exact keyed
  · exact distinct.2 choice before

theorem distinctKeys_addVariants (shared : Fields) (owns : List (String × Fields))
    {out : Variants} (distinct : DistinctKeys (.variants out)) :
    DistinctKeys (.variants (addVariants shared owns out)) := by
  induction owns generalizing out with
  | nil => exact distinct
  | cons o rest ih =>
      exact ih (distinctKeys_insertVariant distinct
        (Members.nodup_keys_insertAll nodup_keys_variantBase))

theorem distinctKeys_variants (shared : Fields) (owns : List (String × Fields)) :
    DistinctKeys (.variants (addVariants shared owns [])) :=
  distinctKeys_addVariants shared owns ⟨List.nodup_nil, fun _ mem => (List.not_mem_nil mem).elim⟩

theorem variantOf_of_mem {shared : Fields} {owns : List (String × Fields)}
    {choice : String × List (String × Shape)} (chosen : choice ∈ addVariants shared owns []) :
    VariantOf shared owns choice.1 choice.2 :=
  variantOf_of_get? (Members.get?_of_mem (distinctKeys_variants shared owns).1 chosen)

theorem everywhere_addVariants {P : Shape → Prop} {shared : Fields}
    {owns : List (String × Fields)} (here : P (.variants (addVariants shared owns [])))
    (named : ∀ o ∈ owns, P (.enumeration [o.1])) (base : ∀ e ∈ shared, e.2.Everywhere P)
    (own : ∀ o ∈ owns, ∀ e ∈ o.2, e.2.Everywhere P) :
    (Shape.variants (addVariants shared owns [])).Everywhere P := by
  rw [everywhere_variants]
  refine ⟨here, fun choice chosen f mem => ?_⟩
  have variant := variantOf_of_mem chosen
  rcases variant.sound f mem with rfl | ⟨kept, -⟩ | ⟨fields', known, mine⟩
  · obtain ⟨fields', known⟩ := variant.named
    exact everywhere_enumeration.mpr (named (choice.1, fields') known)
  · exact base f kept
  · exact own _ known f mine

theorem everywhere_wrap {P : Shape → Prop} {s : Shape} {type : TypeRef} (inside : s.Everywhere P)
    (list : ∀ item, P (.list item)) (nullable : ∀ inner, P (.nullable inner)) :
    (TypeRef.wrap s type).Everywhere P := by
  induction type with
  | named name nonNull => cases nonNull <;> simp [TypeRef.wrap, nullable, inside]
  | list item nonNull ih => cases nonNull <;> simp [TypeRef.wrap, list, nullable, ih]

end Shape

namespace Scope

variable {c : Scope} {p : Parent} {selections : List Selection}

theorem enters_of_holds {s : Selection}
    (holds : Level.Holds c.fragments (p.applies c.tables) selections s) :
    ∃ inner, Relation.ReflTransGen c.Enters (p, selections) (p, inner) ∧ s ∈ inner := by
  induction holds with
  | here mem => exact ⟨selections, .refl, mem⟩
  | within outer found applied mem ih =>
      obtain ⟨around, reached, listed⟩ := ih
      exact ⟨_, reached.tail ⟨_, listed, .applied found applied⟩, mem⟩

theorem reaches_of_holds {s : Selection} {b : Parent × List Selection}
    (holds : Level.Holds c.fragments (p.applies c.tables) selections s)
    (entered : c.EntersBy p s b) : Relation.ReflTransGen c.Enters (p, selections) b := by
  obtain ⟨inner, reached, listed⟩ := enters_of_holds holds
  exact reached.tail ⟨s, listed, entered⟩

theorem reaches_field {f : FieldSelection} {type : TypeRef} {q : Parent}
    (has : c.HasField p selections f) (plain : f.name ≠ typenameKey)
    (declared : p.field? f.name = some type)
    (composite : c.tables.composite? type.base = some q) :
    Relation.ReflTransGen c.Enters (p, selections) (q, f.selections) := by
  obtain ⟨arguments, directives, holds⟩ := has
  exact reaches_of_holds holds (.field plain declared composite)

theorem reaches_fragment {g : ConditionalFragment} {t : CompositeType} (abstract : p.IsAbstract)
    (has : c.HasFragment p selections g) (type : c.tables.fragmentType? g.condition = some t) :
    Relation.ReflTransGen c.Enters (p, selections) (.object t, g.selections) := by
  obtain ⟨s, holds, found, other⟩ := has
  exact reaches_of_holds holds (.narrowed found other abstract type)

/-- Where a part of the shape of a selection set comes from. The shape of a set that is entered has
had no more selections looked at than the whole, at most `limit`. -/
inductive Origin (c : Scope) (start : Parent × List Selection) (limit : Nat) : Shape → Prop
  | set {a : Parent × List Selection} {v : Shape} {visits depth : Nat}
      (path : Relation.ReflTransGen c.Enters start a)
      (derived : c.Derives a.1 a.2 v visits depth) (room : visits ≤ limit) :
      Origin c start limit v
  | typename {a : Parent × List Selection} (path : Relation.ReflTransGen c.Enters start a) :
      Origin c start limit (a.1.typename c.tables)
  | discriminator {condition : String} {t : CompositeType}
      (type : c.tables.fragmentType? condition = some t) :
      Origin c start limit (.enumeration [condition])
  | scalar {rule : ScalarRule} : Origin c start limit (.scalar rule)
  | enumeration {name : String} {values : List String}
      (found : c.tables.enums.get? name = some values) : Origin c start limit (.enumeration values)
  | list {item : Shape} : Origin c start limit (.list item)
  | nullable {inner : Shape} : Origin c start limit (.nullable inner)

theorem origin_typename {start : Parent × List Selection} {limit : Nat}
    (path : Relation.ReflTransGen c.Enters start (p, selections)) :
    (p.typename c.tables).Everywhere (c.Origin start limit) := by
  have origin : c.Origin start limit (p.typename c.tables) := .typename path
  cases p with
  | object t => exact everywhere_scalar.mpr origin
  | interface t => exact everywhere_enumeration.mpr origin
  | union u => exact everywhere_enumeration.mpr origin

mutual

theorem Derives.origin {start : Parent × List Selection} {limit : Nat} {p : Parent}
    {selections : List Selection} {v : Shape} {visits depth : Nat} :
    c.Derives p selections v visits depth →
      Relation.ReflTransGen c.Enters start (p, selections) → visits ≤ limit →
        v.Everywhere (c.Origin start limit)
  | .object level plain fields => fun path room => by
      have entry := fields.origin path (fun f => level.mem_fields.mp)
        (Nat.le_trans (by omega) room)
      rw [everywhere_object]
      exact ⟨.set path (.object level plain fields) room,
        fun f mem => entry f (Members.mem_ofList mem)⟩
  | .variants level abstract narrowed fields fragments => fun path room => by
      have entry := fields.origin path (fun f => level.mem_fields.mp)
        (Nat.le_trans (by omega) room)
      have own := fragments.origin (fun g listed t type => path.trans
        (reaches_fragment abstract (level.mem_fragments.mp listed) type))
        (Nat.le_trans (by omega) room)
      exact everywhere_addVariants
        (.set path (.variants level abstract narrowed fields fragments) room)
        (fun o known => (own o known).1)
        (fun e kept => entry e (Members.mem_ofList (Parent.mem_of_shared kept)))
        fun o known => (own o known).2

theorem DerivesFields.origin {start : Parent × List Selection} {limit : Nat} {p : Parent}
    {selections : List Selection} {fields : List FieldSelection}
    {entries : List (String × Shape)} {visits depth : Nat} :
    c.DerivesFields p fields entries visits depth →
      Relation.ReflTransGen c.Enters start (p, selections) →
        (∀ f ∈ fields, c.HasField p selections f) → visits ≤ limit →
          ∀ e ∈ entries, e.2.Everywhere (c.Origin start limit)
  | .nil => fun _ _ _ _ mem => (List.not_mem_nil mem).elim
  | .typename name others => fun path has room =>
      List.forall_mem_cons.mpr
        ⟨origin_typename path, others.origin path (List.forall_mem_cons.mp has).2 room⟩
  | .field name declared base others => fun path has room => by
      obtain ⟨first, later⟩ := List.forall_mem_cons.mp has
      have inside := base.origin
        (fun q composite => path.trans (reaches_field first name declared composite))
        (Nat.le_trans (by omega) room)
      exact List.forall_mem_cons.mpr
        ⟨everywhere_wrap inside (fun _ => .list) (fun _ => .nullable),
          others.origin path later (by omega)⟩

theorem DerivesNamed.origin {start : Parent × List Selection} {limit : Nat} {name : String}
    {f : FieldSelection} {v : Shape} {visits depth : Nat} :
    c.DerivesNamed name f v visits depth →
      (∀ q, c.tables.composite? name = some q →
        Relation.ReflTransGen c.Enters start (q, f.selections)) → visits ≤ limit →
          v.Everywhere (c.Origin start limit)
  | .scalar found => fun _ _ => everywhere_scalar.mpr .scalar
  | .enumeration custom found => fun _ _ => everywhere_enumeration.mpr (.enumeration found)
  | .composite found selected inside => fun into room => inside.origin (into _ found) room

theorem DerivesFragments.origin {start : Parent × List Selection} {limit : Nat}
    {fragments : List ConditionalFragment} {owns : List (String × Fields)} {visits depth : Nat} :
    c.DerivesFragments fragments owns visits depth →
      (∀ g ∈ fragments, ∀ t, c.tables.fragmentType? g.condition = some t →
        Relation.ReflTransGen c.Enters start (.object t, g.selections)) → visits ≤ limit →
          ∀ o ∈ owns, c.Origin start limit (.enumeration [o.1]) ∧
            ∀ e ∈ o.2, e.2.Everywhere (c.Origin start limit)
  | .nil => fun _ _ _ mem => (List.not_mem_nil mem).elim
  | .cons found inside others => fun into room => by
      obtain ⟨first, later⟩ := List.forall_mem_cons.mp into
      have here := inside.origin (first _ found) (Nat.le_trans (by omega) room)
      exact List.forall_mem_cons.mpr
        ⟨⟨.discriminator found, (everywhere_object.mp here).2⟩, others.origin later (by omega)⟩

end

theorem Derives.part {v t : Shape} {visits depth : Nat}
    (derived : c.Derives p selections v visits depth) (part : Part t v) :
    c.Origin (p, selections) visits t :=
  derived.origin .refl (Nat.le_refl visits) t part

theorem DerivesFields.entry {fields : List FieldSelection} {entries : List (String × Shape)}
    {visits depth : Nat} (derived : c.DerivesFields p fields entries visits depth) :
    ∀ e ∈ entries, ∃ f ∈ fields, f.key = e.1 ∧
      (f.name = typenameKey → e.2 = p.typename c.tables) := by
  induction fields generalizing entries visits depth with
  | nil =>
      cases derived
      exact fun _ mem => (List.not_mem_nil mem).elim
  | cons f rest ih =>
      have later {others : List (String × Shape)} {visits depth : Nat}
          (derived : c.DerivesFields p rest others visits depth) :
          ∀ e ∈ others, ∃ g ∈ f :: rest, g.key = e.1 ∧
            (g.name = typenameKey → e.2 = p.typename c.tables) := by
        intro e mem
        obtain ⟨g, listed, entry⟩ := ih derived e mem
        exact ⟨g, List.mem_cons_of_mem _ listed, entry⟩
      cases derived with
      | typename name others =>
          exact List.forall_mem_cons.mpr ⟨⟨f, List.mem_cons_self, rfl, fun _ => rfl⟩, later others⟩
      | field plain declared base others =>
          exact List.forall_mem_cons.mpr
            ⟨⟨f, List.mem_cons_self, rfl, fun name => (plain name).elim⟩, later others⟩

theorem DerivesFragments.own {fragments : List ConditionalFragment}
    {owns : List (String × Fields)} {visits depth : Nat}
    (derived : c.DerivesFragments fragments owns visits depth) :
    ∀ o ∈ owns, ∃ g ∈ fragments, g.condition = o.1 ∧
      ∃ t visits depth, c.tables.fragmentType? g.condition = some t ∧
        c.Derives (.object t) g.selections (.object o.2) visits depth := by
  induction fragments generalizing owns visits depth with
  | nil =>
      cases derived
      exact fun _ mem => (List.not_mem_nil mem).elim
  | cons g rest ih =>
      cases derived with
      | cons type inside others =>
          refine List.forall_mem_cons.mpr
            ⟨⟨g, List.mem_cons_self, rfl, _, _, _, type, inside⟩, fun o mem => ?_⟩
          obtain ⟨g', listed, own⟩ := ih others o mem
          exact ⟨g', List.mem_cons_of_mem _ listed, own⟩

theorem Derives.distinctKeys {v : Shape} {visits depth : Nat}
    (derived : c.Derives p selections v visits depth) : DistinctKeys v := by
  cases derived with
  | object level plain fields => exact Members.nodup_keys_ofList _
  | variants => exact distinctKeys_variants _ _

theorem Derives.keyed {v : Shape} {visits depth : Nat}
    (derived : c.Derives p selections v visits depth) : v.Everywhere DistinctKeys := by
  intro t part
  cases derived.part part with
  | set path inside => exact inside.distinctKeys
  | @typename a => cases a.1 <;> trivial
  | _ => trivial

end Scope

namespace Subgraph

theorem compileDocument_distinctKeys {s : Subgraph} {d : Document} {v : Shape} {visits : Nat}
    (compiled : s.compileDocument d = .ok (v, visits)) : v.Everywhere DistinctKeys := by
  obtain ⟨depth, ⟨p, selections, start, derived⟩, -⟩ := compileDocument_eq_ok.mp compiled
  exact derived.keyed

end Subgraph

end FederatedMock
