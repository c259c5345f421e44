import FederatedMock.Proofs.Operation.Discriminators
import FederatedMock.Proofs.Operation.Origin

namespace FederatedMock

open Graphql Shape

inductive Graphql.Selection.Within (s : Selection) : List Selection → Prop
  | here {selections : List Selection} (mem : s ∈ selections) : Within s selections
  | field {selections inner : List Selection} {responseName : Option String} {name : String}
      {arguments : List Argument} {directives : List Directive}
      (mem : .field responseName name arguments directives inner ∈ selections)
      (within : Within s inner) : Within s selections
  | inline {selections inner : List Selection} {condition : Option String}
      {directives : List Directive} (mem : .inline condition directives inner ∈ selections)
      (within : Within s inner) : Within s selections

theorem Graphql.Selection.Within.mono {s : Selection} {selections more : List Selection}
    (within : s.Within selections) (subset : selections ⊆ more) : s.Within more := by
  cases within with
  | here mem => exact .here (subset mem)
  | field mem within => exact .field (subset mem) within
  | inline mem within => exact .inline (subset mem) within

inductive Graphql.Document.Has (d : Document) (s : Selection) : Prop
  | operation {o : Operation} (mem : .operation o ∈ d) (within : s.Within o.selections) : d.Has s
  | fragment {f : Fragment} (mem : .fragment f ∈ d) (within : s.Within f.selections) : d.Has s

theorem Graphql.Document.mem_of_operation? {d : Document} {o : Operation}
    (found : d.operation? = some o) : .operation o ∈ d := by
  obtain ⟨definition, mem, here⟩ := List.exists_of_findSome?_eq_some found
  cases definition with
  | operation o' =>
      cases here
      exact mem
  | _ => cases here

theorem mem_of_fragmentsOf {d : Document} {name : String} {f : Fragment}
    (found : (fragmentsOf d).get? name = some f) : .fragment f ∈ d ∧ f.name = name := by
  have listed := Members.mem_ofList (Members.mem_of_get? found)
  obtain ⟨definition, mem, here⟩ := List.mem_filterMap.mp listed
  cases definition with
  | fragment f' =>
      cases here
      exact ⟨mem, rfl⟩
  | _ => cases here

theorem Subgraph.mem_of_start? {s : Subgraph} {d : Document} {p : Parent}
    {selections : List Selection} (start : s.start? d = some (p, selections)) :
    ∃ o, .operation o ∈ d ∧ o.selections = selections := by
  obtain ⟨o, operation, start⟩ := Option.bind_eq_some_iff.mp start
  obtain ⟨root, -, start⟩ := Option.bind_eq_some_iff.mp start
  obtain ⟨q, -, same⟩ := Option.bind_eq_some_iff.mp start
  cases same
  exact ⟨o, Document.mem_of_operation? operation, rfl⟩

def AllWithin (Q : Selection → Prop) (selections : List Selection) : Prop :=
  ∀ s, s.Within selections → Q s

section AllWithin

variable {Q : Selection → Prop} {selections inner : List Selection} {s : Selection}

theorem allWithin_nil : AllWithin Q [] := by
  intro t within
  cases within with
  | here listed => exact (List.not_mem_nil listed).elim
  | field listed => exact (List.not_mem_nil listed).elim
  | inline listed => exact (List.not_mem_nil listed).elim

theorem allWithin_field {responseName : Option String} {name : String}
    {arguments : List Argument} {directives : List Directive} :
    AllWithin Q [.field responseName name arguments directives inner] ↔
      Q (.field responseName name arguments directives inner) ∧ AllWithin Q inner := by
  have mem := List.mem_singleton_self (Selection.field responseName name arguments directives inner)
  constructor
  · exact fun all => ⟨all _ (.here mem), fun t within => all t (.field mem within)⟩
  · rintro ⟨here, inside⟩ t within
    cases within with
    | here listed => exact List.mem_singleton.mp listed ▸ here
    | field listed within =>
        cases List.mem_singleton.mp listed
        exact inside t within
    | inline listed => cases List.mem_singleton.mp listed

theorem allWithin_inline {condition : Option String} {directives : List Directive} :
    AllWithin Q [.inline condition directives inner] ↔
      Q (.inline condition directives inner) ∧ AllWithin Q inner := by
  have mem := List.mem_singleton_self (Selection.inline condition directives inner)
  constructor
  · exact fun all => ⟨all _ (.here mem), fun t within => all t (.inline mem within)⟩
  · rintro ⟨here, inside⟩ t within
    cases within with
    | here listed => exact List.mem_singleton.mp listed ▸ here
    | field listed => cases List.mem_singleton.mp listed
    | inline listed within =>
        cases List.mem_singleton.mp listed
        exact inside t within

theorem AllWithin.singleton (all : AllWithin Q selections) (mem : s ∈ selections) :
    AllWithin Q [s] :=
  fun t within => all t (within.mono fun _ here => List.mem_singleton.mp here ▸ mem)

theorem AllWithin.fragment {fragments : Members Fragment} {condition : Option String}
    (all : AllWithin Q [s]) (found : s.fragment? fragments = some (condition, inner))
    (named : ∀ name f, fragments.get? name = some f → AllWithin Q f.selections) :
    AllWithin Q inner := by
  cases s with
  | field => cases found
  | inline condition' directives inner' =>
      cases found
      exact (allWithin_inline.mp all).2
  | spread name directives =>
      obtain ⟨f, known, same⟩ := Option.map_eq_some_iff.mp found
      cases same
      exact named name f known

theorem allWithin_spread {name : String} {directives : List Directive} :
    AllWithin Q [.spread name directives] ↔ Q (.spread name directives) := by
  have mem := List.mem_singleton_self (Selection.spread name directives)
  refine ⟨fun all => all _ (.here mem), fun here t within => ?_⟩
  cases within with
  | here listed => exact List.mem_singleton.mp listed ▸ here
  | field listed => cases List.mem_singleton.mp listed
  | inline listed => cases List.mem_singleton.mp listed

theorem allWithin_cons {rest : List Selection} :
    AllWithin Q (s :: rest) ↔ AllWithin Q [s] ∧ AllWithin Q rest := by
  constructor
  · exact fun all => ⟨all.singleton List.mem_cons_self,
      fun t within => all t (within.mono (List.subset_cons_self s rest))⟩
  · rintro ⟨first, others⟩ t within
    have split {t' : Selection} (listed : t' ∈ s :: rest) : t' ∈ [s] ∨ t' ∈ rest :=
      (List.mem_cons.mp listed).imp_left List.mem_singleton.mpr
    cases within with
    | here listed => exact (split listed).elim (first t ∘ .here) (others t ∘ .here)
    | field listed within =>
        exact (split listed).elim (first t <| .field · within) (others t <| .field · within)
    | inline listed within =>
        exact (split listed).elim (first t <| .inline · within) (others t <| .inline · within)

theorem allWithin_iff_forall_mem :
    AllWithin Q selections ↔ ∀ t ∈ selections, AllWithin Q [t] := by
  refine ⟨fun all t mem => all.singleton mem, fun each => ?_⟩
  induction selections with
  | nil => exact allWithin_nil
  | cons t rest ih =>
      obtain ⟨first, others⟩ := List.forall_mem_cons.mp each
      exact allWithin_cons.mpr ⟨first, ih others⟩

theorem Graphql.Document.forall_has_iff {d : Document} : (∀ s, d.Has s → Q s) ↔
    (∀ o, .operation o ∈ d → AllWithin Q o.selections) ∧
      ∀ f, .fragment f ∈ d → AllWithin Q f.selections := by
  constructor
  · exact fun all => ⟨fun o mem s within => all s (.operation mem within),
      fun f mem s within => all s (.fragment mem within)⟩
  · rintro ⟨operations, fragments⟩ s (⟨mem, within⟩ | ⟨mem, within⟩)
    · exact operations _ mem s within
    · exact fragments _ mem s within

theorem Level.Holds.allWithin {fragments : Members Fragment} {applies : String → Bool}
    (holds : Holds fragments applies selections s) (all : AllWithin Q selections)
    (named : ∀ name f, fragments.get? name = some f → AllWithin Q f.selections) :
    AllWithin Q [s] := by
  induction holds with
  | here mem => exact all.singleton mem
  | within outer found applied mem ih => exact (ih.fragment found named).singleton mem

end AllWithin

def Graphql.Selection.ReservesTypename : Selection → Prop
  | .field responseName name _ _ _ => responseKey responseName name = typenameKey →
      name = typenameKey
  | _ => True

instance : DecidablePred Graphql.Selection.ReservesTypename
  | .field .. => inferInstanceAs (Decidable (_ → _))
  | .inline .. => inferInstanceAs (Decidable True)
  | .spread .. => inferInstanceAs (Decidable True)

/-- No field but the type name has its key. -/
def Graphql.Document.ReservesTypename (d : Document) : Prop :=
  ∀ s, d.Has s → s.ReservesTypename

structure Scope.Reserves (c : Scope) (selections : List Selection) : Prop where
  here : AllWithin Selection.ReservesTypename selections
  named : ∀ name f, c.fragments.get? name = some f →
    AllWithin Selection.ReservesTypename f.selections

theorem Subgraph.reserves_of_start? {s : Subgraph} {d : Document} {p : Parent}
    {selections : List Selection} (reserved : d.ReservesTypename)
    (start : s.start? d = some (p, selections)) : (s.scope d).Reserves selections where
  here := by
    obtain ⟨o, mem, rfl⟩ := mem_of_start? start
    exact fun t within => reserved t (.operation mem within)
  named := fun _ _ found t within => reserved t (.fragment (mem_of_fragmentsOf found).1 within)

namespace Scope

variable {c : Scope} {p : Parent} {selections : List Selection}

theorem Reserves.field {f : FieldSelection} (reserved : c.Reserves selections)
    (has : c.HasField p selections f) :
    (f.key = typenameKey → f.name = typenameKey) ∧ c.Reserves f.selections := by
  obtain ⟨arguments, directives, holds⟩ := has
  have all := holds.allWithin reserved.here reserved.named
  obtain ⟨here, inside⟩ := allWithin_field.mp all
  exact ⟨here, inside, reserved.named⟩

theorem Reserves.fragment {f : ConditionalFragment} (reserved : c.Reserves selections)
    (has : c.HasFragment p selections f) : c.Reserves f.selections := by
  obtain ⟨s, holds, found, -⟩ := has
  have all := holds.allWithin reserved.here reserved.named
  exact ⟨all.fragment found reserved.named, reserved.named⟩

theorem Reserves.fields {l : Level} {visits depth : Nat} (reserved : c.Reserves selections)
    (level : c.Expands p selections l visits depth) :
    ∀ f ∈ l.fields.reverse, (f.key = typenameKey → f.name = typenameKey) ∧
      c.Reserves f.selections :=
  fun _ listed => reserved.field (level.mem_fields.mp listed)

theorem Reserves.fragments {l : Level} {visits depth : Nat} (reserved : c.Reserves selections)
    (level : c.Expands p selections l visits depth) :
    ∀ f ∈ l.fragments.reverse, c.Reserves f.selections :=
  fun _ listed => reserved.fragment (level.mem_fragments.mp listed)

theorem Enters.allWithin {Q : Selection → Prop} {a b : Parent × List Selection}
    (entered : c.Enters a b) (all : AllWithin Q a.2)
    (named : ∀ name f, c.fragments.get? name = some f → AllWithin Q f.selections) :
    AllWithin Q b.2 := by
  obtain ⟨s, listed, entered⟩ := entered
  have here := all.singleton listed
  cases entered with
  | applied found applied => exact here.fragment found named
  | narrowed found other abstract type => exact here.fragment found named
  | field plain declared composite => exact (allWithin_field.mp here).2

theorem Reserves.reaches {a b : Parent × List Selection} (reserved : c.Reserves a.2)
    (path : Relation.ReflTransGen c.Enters a b) : c.Reserves b.2 := by
  induction path with
  | refl => exact reserved
  | tail _ step ih => exact ⟨step.allWithin ih.here ih.named, ih.named⟩

def Reserved (c : Scope) (p : Parent) (entries : List (String × Shape)) : Prop :=
  ∀ e ∈ entries, e.1 = typenameKey → e.2 = p.typename c.tables

theorem DerivesFields.reserved {fields : List FieldSelection} {entries : List (String × Shape)}
    {visits depth : Nat} (derived : c.DerivesFields p fields entries visits depth)
    (keys : ∀ f ∈ fields, f.key = typenameKey → f.name = typenameKey) :
    c.Reserved p entries := by
  intro e mem key
  obtain ⟨f, listed, same, typename⟩ := derived.entry e mem
  exact typename (keys f listed (same.trans key))

theorem Derives.reserved {fields : Fields} {visits depth : Nat}
    (derived : c.Derives p selections (.object fields) visits depth)
    (reserved : c.Reserves selections) : c.Reserved p fields := by
  cases derived with
  | object level plain fields =>
      have keys := fields.reserved fun f listed => (reserved.fields level f listed).1
      exact fun e mem => keys e (Members.mem_ofList mem)

end Scope

namespace Shape

theorem typename_mem_variant {shared fields : Fields} {owns : List (String × Fields)}
    {name : String} (found : (addVariants shared owns []).get? name = some fields) :
    typenameKey ∈ Members.keys fields := by
  obtain ⟨own, mem⟩ := (variantOf_of_get? found).named
  have first : (typenameKey, .enumeration [name]) ∈ variantEntries name shared owns := by
    refine List.mem_flatMap.mpr ⟨_, List.mem_filter.mpr ⟨mem, by simp⟩, ?_⟩
    exact List.mem_cons_self
  by_contra missing
  have none := Members.get?_eq_none_iff.mpr missing
  rw [get?_variant found, Members.get?_eq_none_iff] at none
  exact none (List.mem_map_of_mem (List.mem_reverse.mpr first))

theorem typename_of_variant {shared fields : Fields} {owns : List (String × Fields)}
    {name : String} (found : (addVariants shared owns []).get? name = some fields)
    (own : ∀ o ∈ owns, ∀ e ∈ o.2, e.1 = typenameKey → e.2 = .scalar (.typename o.1)) :
    fields.get? typenameKey = some (.scalar (.typename name)) ∨
      fields.get? typenameKey = some (.enumeration [name]) := by
  cases given : fields.get? typenameKey with
  | none => exact (Members.get?_eq_none_iff.mp given (typename_mem_variant found)).elim
  | some s =>
      rcases (variantOf_of_get? found).sound _ (Members.mem_of_get? given) with
        first | ⟨-, other⟩ | ⟨fields', known, mine⟩
      · cases first
        exact .inr rfl
      · exact (other rfl).elim
      · exact .inl (congrArg some (own _ known _ mine rfl))

end Shape

namespace Scope

variable {c : Scope} {p : Parent} {selections : List Selection}

theorem DerivesFragments.reserved (tables : c.tables.WellNamed)
    {fragments : List ConditionalFragment} {owns : List (String × Fields)} {visits depth : Nat}
    (derived : c.DerivesFragments fragments owns visits depth)
    (reserved : ∀ g ∈ fragments, c.Reserves g.selections) :
    ∀ o ∈ owns, ∀ e ∈ o.2, e.1 = typenameKey → e.2 = .scalar (.typename o.1) := by
  intro o known e mine key
  obtain ⟨g, listed, same, t, _, _, type, inside⟩ := derived.own o known
  rw [← same, ← tables.fragmentType type]
  exact inside.reserved (reserved g listed) e mine key

theorem Derives.namedVariants (tables : c.tables.WellNamed) {v : Shape} {visits depth : Nat}
    (derived : c.Derives p selections v visits depth) (reserved : c.Reserves selections) :
    v.NamedVariants := by
  cases derived with
  | object => trivial
  | variants level abstract narrowed fields fragments =>
      intro choice chosen
      have found := Members.get?_of_mem (distinctKeys_variants _ _).1 chosen
      exact typename_of_variant found (fragments.reserved tables (reserved.fragments level))

theorem Derives.named (tables : c.tables.WellNamed) {v : Shape} {visits depth : Nat}
    (derived : c.Derives p selections v visits depth) (reserved : c.Reserves selections) :
    v.Everywhere NamedVariants := by
  intro t part
  cases derived.part part with
  | set path inside => exact inside.namedVariants tables (reserved.reaches path)
  | @typename a => cases a.1 <;> trivial
  | _ => trivial

end Scope

namespace Subgraph

/-- The variants of a compiled shape name themselves if the document reserves the type name. -/
theorem compileDocument_namedVariants {schema d : Document} {s : Subgraph} {v : Shape}
    {visits : Nat} (valid : ofDocument schema = .ok s)
    (compiled : s.compileDocument d = .ok (v, visits)) (reserved : d.ReservesTypename) :
    v.Everywhere NamedVariants := by
  have tables : (s.scope d).tables.WellNamed := by
    rw [eq_completed valid]
    exact Tables.wellNamed_ofDocument _
  obtain ⟨depth, ⟨p, selections, start, derived⟩, -⟩ := compileDocument_eq_ok.mp compiled
  exact derived.named tables (reserves_of_start? reserved start)

end Subgraph

end FederatedMock
