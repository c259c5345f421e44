import FederatedMock.Proofs.Graphql.TypeNames
import FederatedMock.Proofs.Operation.Failures
import FederatedMock.Proofs.Schema.Conservation

namespace FederatedMock

open Graphql Shape

structure Tables.Spelled (t : Tables) : Prop where
  interfaces : ∀ name i, t.interfaces.get? name = some i → IsName name
  objects : ∀ name o, t.objects.get? name = some o → IsName name
  members : ∀ name u, t.unions.get? name = some u → ∀ m ∈ u.members, IsName m
  values : ∀ name vs, t.enums.get? name = some vs → ∀ v ∈ vs, IsName v

theorem isName_of_partsOfKind {d : Document} (spelled : d.Spelled) {kind : TypeKind}
    {name : String} (some : partsOfKind d kind name ≠ []) : IsName name := by
  obtain ⟨p, mem⟩ := List.exists_mem_of_ne_nil _ some
  obtain ⟨listed, rfl, -⟩ := mem_partsOfKind.mp mem
  exact (spelled _ (mem_typeParts.mp listed)).type

theorem Tables.spelled_ofDocument {d : Document} (spelled : d.Spelled) (once : d.DefinesOnce) :
    (Tables.ofDocument d).Spelled where
  interfaces _ _ found :=
    isName_of_partsOfKind spelled (reads_interface.stated_of_get? (fun _ => rfl) once found)
  objects _ _ found :=
    isName_of_partsOfKind spelled (reads_object.stated_of_get? (fun _ => rfl) once found)
  members name u found m mem := by
    have merged : (Tables.ofDocument d).unions.get? name =
        Collected.combine ((partsOfKind d .union name).map unionOf) :=
      reads_union.get?_merge (fun _ => rfl) once name
    rw [merged] at found
    obtain ⟨p, listed, -, said⟩ := mem_statements.mp (((members_of_combine found).2 m).mp mem)
    exact (spelled _ (mem_typeParts.mp listed)).members m (member_mem_clauses.mp said)
  values name vs found v mem := by
    rcases enum_of_document d name with ⟨none, -⟩ | ⟨vs', found', -, enumerates⟩
    · cases found.symm.trans none
    · cases found.symm.trans found'
      obtain ⟨p, listed, -, said⟩ := mem_statements.mp ((enumerates.values v).mp mem)
      exact (spelled _ (mem_typeParts.mp listed)).values v (value_mem_clauses.mp said)

def Shape.ListsNames : Shape → Prop
  | .enumeration names => ∀ name ∈ names, IsName name
  | .variants choices => ∀ choice ∈ choices, IsName choice.1
  | _ => True

def Parent.Spelled : Parent → Prop
  | .object _ => True
  | .interface t => IsName t.name
  | .union u => ∀ m ∈ u.members, IsName m

namespace Tables

variable {t : Tables}

theorem Spelled.parent (spelled : t.Spelled) {p : Parent} (type : p.IsType t) : p.Spelled := by
  cases p with
  | object o => trivial
  | interface i => exact spelled.interfaces _ i type
  | union u => exact spelled.members _ u type

theorem Spelled.isName_of_fragmentType (spelled : t.Spelled) {name : String}
    {type : CompositeType} (found : t.fragmentType? name = some type) : IsName name := by
  unfold fragmentType? at found
  split at found
  · rename_i o object
    exact spelled.objects name o object
  · exact spelled.interfaces name type found

theorem Spelled.typename (spelled : t.Spelled) (named : t.WellNamed) {p : Parent}
    (type : p.IsType t) : (p.typename t).ListsNames := by
  have names := spelled.parent type
  cases p with
  | object o => trivial
  | interface i =>
      intro name mem
      rcases (named.mem_possibleTypenames i name).mp mem with rfl | ⟨o, found, -⟩
      · exact names
      · exact spelled.objects name o found
  | union u => exact names

end Tables

namespace Scope

variable {c : Scope}

theorem Derives.listsNames (spelled : c.tables.Spelled) {p : Parent} {selections : List Selection}
    {v : Shape} {visits depth : Nat} (derived : c.Derives p selections v visits depth) :
    v.ListsNames := by
  cases derived with
  | object => trivial
  | variants level abstract narrowed fields fragments =>
      intro choice chosen
      obtain ⟨own, known⟩ := (variantOf_of_mem chosen).named
      obtain ⟨g, -, same, t, _, _, type, -⟩ := fragments.own _ known
      exact same ▸ spelled.isName_of_fragmentType type

end Scope

namespace Subgraph

theorem spelled_of_parse {sdl : String} {s : Subgraph} (read : parse sdl = .ok s) :
    s.tables.WellNamed ∧ s.tables.Spelled := by
  unfold parse at read
  split at read
  · rename_i d parsed
    have once := definesOnce_of_valid (valid_of_ofDocument read)
    have spelled := spelled_augment (FederatedMock.spelled_of_parse parsed)
    refine ⟨wellNamed_of_valid read, ?_⟩
    rw [eq_completed read]
    exact Tables.spelled_ofDocument spelled once
  · cases read

theorem compile_listsNames {sdl operation : String} {s : Subgraph} {v : Shape}
    (read : parse sdl = .ok s) (compiled : s.compile operation = .ok v) :
    v.Everywhere ListsNames := by
  obtain ⟨named, spelled⟩ := spelled_of_parse read
  obtain ⟨d, visits, -, compiled⟩ := compile_eq_ok compiled
  obtain ⟨depth, ⟨p, selections, start, derived⟩, -⟩ := compileDocument_eq_ok.mp compiled
  intro t part
  cases derived.part part with
  | set path inside => exact inside.listsNames spelled
  | typename path =>
      have reached : s.Reaches d _ := ⟨_, start, path⟩
      exact spelled.typename named (reached.isType named)
  | discriminator type =>
      exact fun name mem => List.mem_singleton.mp mem ▸ spelled.isName_of_fragmentType type
  | enumeration found => exact spelled.values _ _ found
  | _ => trivial

end Subgraph

end FederatedMock
