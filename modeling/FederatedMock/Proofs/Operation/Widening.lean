import FederatedMock.Proofs.Operation.Collection
import FederatedMock.Proofs.Operation.Limits

namespace FederatedMock

open Graphql

inductive UsesCondition (fragments : Members Fragment) (condition : String) :
    List Selection → Prop
  | here {selections inner : List Selection} {s : Selection} (mem : s ∈ selections)
      (found : s.fragment? fragments = some (some condition, inner)) :
      UsesCondition fragments condition selections
  | within {selections inner : List Selection} {s : Selection} {outer : Option String}
      (mem : s ∈ selections) (found : s.fragment? fragments = some (outer, inner))
      (uses : UsesCondition fragments condition inner) :
      UsesCondition fragments condition selections
  | field {selections inner : List Selection} {responseName : Option String} {name : String}
      {arguments : List Argument} {directives : List Directive}
      (mem : .field responseName name arguments directives inner ∈ selections)
      (uses : UsesCondition fragments condition inner) :
      UsesCondition fragments condition selections

section Uses

variable {fragments : Members Fragment} {applies applies' : String → Bool} {condition : String}
  {selections more rest : List Selection}

theorem UsesCondition.mono (uses : UsesCondition fragments condition selections)
    (subset : selections ⊆ more) : UsesCondition fragments condition more := by
  cases uses with
  | here mem found => exact .here (subset mem) found
  | within mem found uses => exact .within (subset mem) found uses
  | field mem uses => exact .field (subset mem) uses

@[simp] theorem usesCondition_nil : ¬ UsesCondition fragments condition [] := by
  rintro (⟨mem, -⟩ | ⟨mem, -, -⟩ | ⟨mem, -⟩) <;> cases mem

@[simp] theorem usesCondition_field {responseName : Option String} {name : String}
    {arguments : List Argument} {directives : List Directive} {inner : List Selection} :
    UsesCondition fragments condition
        (.field responseName name arguments directives inner :: rest) ↔
      UsesCondition fragments condition inner ∨ UsesCondition fragments condition rest := by
  constructor
  · rintro (⟨mem, found⟩ | ⟨mem, found, uses⟩ | ⟨mem, uses⟩) <;>
      rcases List.mem_cons.mp mem with same | mem
    · rw [same] at found
      cases found
    · exact .inr (.here mem found)
    · rw [same] at found
      cases found
    · exact .inr (.within mem found uses)
    · cases same
      exact .inl uses
    · exact .inr (.field mem uses)
  · rintro (uses | uses)
    · exact .field List.mem_cons_self uses
    · exact uses.mono (List.subset_cons_self _ _)

theorem usesCondition_fragment {s : Selection} {outer : Option String} {inner : List Selection}
    (found : s.fragment? fragments = some (outer, inner)) :
    UsesCondition fragments condition (s :: rest) ↔ outer = some condition ∨
      UsesCondition fragments condition inner ∨ UsesCondition fragments condition rest := by
  constructor
  · rintro (⟨mem, found'⟩ | ⟨mem, found', uses⟩ | ⟨mem, uses⟩) <;>
      rcases List.mem_cons.mp mem with same | mem
    · cases found.symm.trans (same ▸ found')
      exact .inl rfl
    · exact .inr (.inr (.here mem found'))
    · cases found.symm.trans (same ▸ found')
      exact .inr (.inl uses)
    · exact .inr (.inr (.within mem found' uses))
    · rw [← same] at found
      cases found
    · exact .inr (.inr (.field mem uses))
  · rintro (rfl | uses | uses)
    · exact .here List.mem_cons_self found
    · exact .within List.mem_cons_self found uses
    · exact uses.mono (List.subset_cons_self _ _)

theorem Level.Holds.uses {s : Selection} (holds : Holds fragments applies selections s)
    (uses : UsesCondition fragments condition [s]) :
    UsesCondition fragments condition selections := by
  induction holds with
  | here mem => exact uses.mono (List.cons_subset.mpr ⟨mem, List.nil_subset _⟩)
  | within outer found applied mem ih =>
      have inner := uses.mono (List.cons_subset.mpr ⟨mem, List.nil_subset _⟩)
      exact ih (.within List.mem_cons_self found inner)

theorem Level.HoldsField.uses {f : FieldSelection}
    (holds : HoldsField fragments applies selections f)
    (uses : UsesCondition fragments condition f.selections) :
    UsesCondition fragments condition selections := by
  obtain ⟨arguments, directives, holds⟩ := holds
  exact holds.uses (.field List.mem_cons_self uses)

theorem Level.HoldsFragment.uses {f : ConditionalFragment}
    (holds : HoldsFragment fragments applies selections f)
    (uses : f.condition = condition ∨ UsesCondition fragments condition f.selections) :
    UsesCondition fragments condition selections := by
  obtain ⟨s, holds, found, -⟩ := holds
  rcases uses with rfl | uses
  · exact holds.uses (.here List.mem_cons_self found)
  · exact holds.uses (.within List.mem_cons_self found uses)

theorem Level.Expands.of_applies_eq {l l' : Level} {visits depth : Nat}
    (derived : Expands fragments applies selections l l' visits depth)
    (same : ∀ condition, UsesCondition fragments condition selections →
      applies' condition = applies condition) :
    Expands fragments applies' selections l l' visits depth := by
  induction derived with
  | nil => exact .nil
  | field others ih =>
      have rest := ih fun condition uses => same condition (uses.mono (List.subset_cons_self _ _))
      exact .field rest
  | again found expanded others ih =>
      have rest := ih fun condition uses => same condition (uses.mono (List.subset_cons_self _ _))
      exact .again found expanded rest
  | into found fresh applied inside others ihInside ihOthers =>
      have within := ihInside fun condition uses =>
        same condition (.within List.mem_cons_self found uses)
      have rest := ihOthers fun condition uses =>
        same condition (uses.mono (List.subset_cons_self _ _))
      refine .into found fresh (fun name listed => ?_) within rest
      cases listed
      rw [same _ (.here List.mem_cons_self found)]
      exact applied _ rfl
  | aside found fresh other others ih =>
      have rest := ih fun condition uses => same condition (uses.mono (List.subset_cons_self _ _))
      refine .aside found fresh ?_ rest
      rw [same _ (.here List.mem_cons_self found)]
      exact other

end Uses

structure CompositeType.Widens (t t' : CompositeType) : Prop where
  name : t'.name = t.name
  interfaces : t'.interfaces = t.interfaces
  fields : ∀ f type, t.fields.get? f = some type → t'.fields.get? f = some type

theorem CompositeType.Widens.refl (t : CompositeType) : t.Widens t :=
  ⟨rfl, rfl, fun _ _ found => found⟩

inductive Parent.Widens : Parent → Parent → Prop
  | object {t t' : CompositeType} (wider : t.Widens t') : Parent.Widens (.object t) (.object t')
  | interface {t t' : CompositeType} (wider : t.Widens t') :
      Parent.Widens (.interface t) (.interface t')
  | union {u : UnionType} : Parent.Widens (.union u) (.union u)

namespace Tables

/-- Looking up a name gives the same or a wider type, if it gave one; a type condition of that one
name may have become one. -/
structure Widens (condition : String) (t t' : Tables) : Prop where
  scalars : ∀ name rule, t.scalars.get? name = some rule → t'.scalars.get? name = some rule
  enums : ∀ name values, t.scalars.get? name = none → t.enums.get? name = some values →
    t'.scalars.get? name = none ∧ t'.enums.get? name = some values
  parents : ∀ name p, t.parent? name = some p → ∃ p', t'.parent? name = some p' ∧ p.Widens p'
  composites : ∀ name p, t.composite? name = some p →
    t'.scalars.get? name = none ∧ t'.enums.get? name = none
  fragmentTypes : ∀ name c, t.fragmentType? name = some c →
    ∃ c', t'.fragmentType? name = some c' ∧ c.Widens c'
  unions : ∀ name, name ≠ condition → t'.unions.get? name = t.unions.get? name
  possibleTypenames : ∀ i i' : CompositeType, i.Widens i' →
    t'.possibleTypenames i' = t.possibleTypenames i

end Tables

section Parents

variable {t t' : Tables} {p p' : Parent} {condition : String}

theorem Parent.Widens.isAbstract_iff (wider : p.Widens p') : p'.IsAbstract ↔ p.IsAbstract := by
  cases wider <;> exact Iff.rfl

theorem Parent.Widens.shared (wider : p.Widens p') (fields : Shape.Fields) :
    p'.shared fields = p.shared fields := by
  cases wider <;> rfl

theorem Parent.Widens.field? (wider : p.Widens p') {name : String} {type : TypeRef}
    (declared : p.field? name = some type) : p'.field? name = some type := by
  cases wider with
  | object wider => exact wider.fields name type declared
  | interface wider => exact wider.fields name type declared
  | union => exact declared

theorem Parent.Widens.typename (wider : p.Widens p') (tables : t.Widens condition t') :
    p'.typename t' = p.typename t := by
  cases wider with
  | object wider => rw [Parent.typename, Parent.typename, wider.name]
  | interface wider => rw [Parent.typename, Parent.typename, tables.possibleTypenames _ _ wider]
  | union => rfl

theorem Parent.Widens.applies (wider : p.Widens p') (tables : t.Widens condition t')
    {name : String} (other : name ≠ condition) : p'.applies t' name = p.applies t name := by
  cases wider with
  | object wider =>
      simp only [Parent.applies, Tables.appliesToObject, CompositeType.implements, wider.name,
        wider.interfaces, tables.unions name other]
  | interface wider =>
      simp only [Parent.applies, CompositeType.appliesToInterface, CompositeType.implements,
        wider.name, wider.interfaces]
  | union => rfl

end Parents

namespace Scope

structure Widens (condition : String) (c c' : Scope) : Prop where
  tables : c.tables.Widens condition c'.tables
  fragments : c'.fragments = c.fragments

variable {c c' : Scope} {condition : String}

theorem Widens.composite? (wide : c.Widens condition c') {name : String} {p : Parent}
    (found : c.tables.composite? name = some p) :
    ∃ p', c'.tables.composite? name = some p' ∧ p.Widens p' := by
  obtain ⟨custom, plain⟩ := wide.tables.composites name p found
  obtain ⟨-, -, parent⟩ := composite?_eq_some_iff.mp found
  obtain ⟨p', parent', wider⟩ := wide.tables.parents name p parent
  exact ⟨p', composite?_eq_some_iff.mpr ⟨custom, plain, parent'⟩, wider⟩

section Level

variable {p p' : Parent} {selections : List Selection} {l : Level} {visits depth : Nat}

theorem Widens.expands (wide : c.Widens condition c') (wider : p.Widens p')
    (level : c.Expands p selections l visits depth)
    (unused : ¬ UsesCondition c.fragments condition selections) :
    c'.Expands p' selections l visits depth := by
  unfold Scope.Expands
  rw [wide.fragments]
  refine Level.Expands.of_applies_eq level fun name uses => wider.applies wide.tables ?_
  rintro rfl
  exact unused uses

theorem Expands.fields_unused (level : c.Expands p selections l visits depth)
    (unused : ¬ UsesCondition c.fragments condition selections) :
    ∀ f ∈ l.fields.reverse, ¬ UsesCondition c.fragments condition f.selections :=
  fun _ listed uses => unused ((level.mem_fields.mp listed).uses uses)

theorem Expands.fragments_unused (level : c.Expands p selections l visits depth)
    (unused : ¬ UsesCondition c.fragments condition selections) :
    ∀ f ∈ l.fragments.reverse, ¬ UsesCondition c.fragments condition f.selections :=
  fun _ listed uses =>
    unused ((level.mem_fragments.mp listed).uses (.inr uses))

end Level

mutual

theorem Derives.widen (wide : c.Widens condition c') {p p' : Parent} (wider : p.Widens p')
    {selections : List Selection} {v : Shape} {visits depth : Nat} :
    c.Derives p selections v visits depth →
      ¬ UsesCondition c.fragments condition selections → c'.Derives p' selections v visits depth
  | .object level plain fields => fun unused =>
      .object (wide.expands wider level unused)
        (fun abstract => plain (wider.isAbstract_iff.mp abstract))
        (fields.widen wide wider (level.fields_unused unused))
  | .variants level abstract narrowed fields fragments => fun unused => by
      rw [← wider.shared]
      exact .variants (wide.expands wider level unused) (wider.isAbstract_iff.mpr abstract) narrowed
        (fields.widen wide wider (level.fields_unused unused))
        (fragments.widen wide (level.fragments_unused unused))

theorem DerivesFields.widen (wide : c.Widens condition c') {p p' : Parent} (wider : p.Widens p')
    {fields : List FieldSelection} {entries : List (String × Shape)} {visits depth : Nat} :
    c.DerivesFields p fields entries visits depth →
      (∀ f ∈ fields, ¬ UsesCondition c.fragments condition f.selections) →
        c'.DerivesFields p' fields entries visits depth
  | .nil => fun _ => .nil
  | .typename name others => fun unused => by
      obtain ⟨-, rest⟩ := List.forall_mem_cons.mp unused
      rw [← wider.typename wide.tables]
      exact .typename name (others.widen wide wider rest)
  | .field name declared base others => fun unused => by
      obtain ⟨here, rest⟩ := List.forall_mem_cons.mp unused
      exact .field name (wider.field? declared) (base.widen wide here) (others.widen wide wider rest)

theorem DerivesNamed.widen (wide : c.Widens condition c') {name : String} {f : FieldSelection}
    {v : Shape} {visits depth : Nat} : c.DerivesNamed name f v visits depth →
      ¬ UsesCondition c.fragments condition f.selections → c'.DerivesNamed name f v visits depth
  | .scalar found => fun _ => .scalar (wide.tables.scalars name _ found)
  | .enumeration custom found => fun _ =>
      have ⟨custom', found'⟩ := wide.tables.enums name _ custom found
      .enumeration custom' found'
  | .composite found selected inside => fun unused =>
      have ⟨_, found', wider⟩ := wide.composite? found
      .composite found' selected (inside.widen wide wider unused)

theorem DerivesFragments.widen (wide : c.Widens condition c')
    {fragments : List ConditionalFragment} {owns : List (String × Shape.Fields)}
    {visits depth : Nat} : c.DerivesFragments fragments owns visits depth →
      (∀ f ∈ fragments, ¬ UsesCondition c.fragments condition f.selections) →
        c'.DerivesFragments fragments owns visits depth
  | .nil => fun _ => .nil
  | .cons found inside others => fun unused => by
      obtain ⟨here, rest⟩ := List.forall_mem_cons.mp unused
      obtain ⟨t', found', wider⟩ := wide.tables.fragmentTypes _ _ found
      exact .cons found' (inside.widen wide (.object wider) here) (others.widen wide rest)

end

end Scope

namespace Subgraph

theorem compileDocument_widened {condition : String} {s s' : Subgraph}
    (tables : s.tables.Widens condition s'.tables) (roots : s'.system.roots = s.system.roots)
    {d : Document} (unused : ∀ o ∈ d.operation?,
      ¬ UsesCondition (fragmentsOf d) condition o.selections) {v : Shape} {visits : Nat}
    (compiled : s.compileDocument d = .ok (v, visits)) :
    s'.compileDocument d = .ok (v, visits) := by
  have wide : (s.scope d).Widens condition (s'.scope d) := ⟨tables, rfl⟩
  obtain ⟨depth, ⟨p, selections, start, derived⟩, limits⟩ := compileDocument_eq_ok.mp compiled
  obtain ⟨o, operation, start⟩ := Option.bind_eq_some_iff.mp start
  obtain ⟨root, named, start⟩ := Option.bind_eq_some_iff.mp start
  obtain ⟨q, parent, same⟩ := Option.bind_eq_some_iff.mp start
  cases same
  obtain ⟨p', parent', wider⟩ := tables.parents root p parent
  have started : s'.start? d = some (p', o.selections) := by
    have named' : s'.root? o.kind = some root := by rw [root?, roots, ← root?, named]
    simp [start?, operation, named', parent']
  refine compileDocument_eq_ok.mpr ⟨depth, ⟨p', o.selections, started, ?_⟩, limits⟩
  exact derived.widen wide wider (unused o operation)

end Subgraph

end FederatedMock
