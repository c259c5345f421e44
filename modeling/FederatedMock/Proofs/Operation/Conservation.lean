import FederatedMock.Proofs.Operation.Widening
import FederatedMock.Proofs.Schema.Conservation

namespace FederatedMock

open Graphql

namespace Tables

variable {root name : String} {t t' : Tables}

/-- The query root is an object type as the tables have it, or no type that takes selections. -/
def RootIsObject (root : String) (t : Tables) : Prop :=
  t.objects.get? root ≠ none ∨ t.interfaces.get? root = none ∧ t.unions.get? root = none

theorem Conserves.object (conserves : Conserves root t t') {o : CompositeType}
    (found : t.objects.get? name = some o) :
    ∃ o', t'.objects.get? name = some o' ∧ o.Widens o' := by
  obtain ⟨more, -, each⟩ := conserves.objects
  refine ⟨_, each name o found, rfl, rfl, fun f type declared => ?_⟩
  rw [Members.get?_append, declared, Option.some_or]

theorem Conserves.no_object (conserves : Conserves root t t') (plain : t.RootIsObject root)
    (missing : t.objects.get? name = none)
    (other : t.interfaces.get? name ≠ none ∨ t.unions.get? name ≠ none) :
    t'.objects.get? name = none := by
  cases added : t'.objects.get? name with
  | none => rfl
  | some o =>
      obtain ⟨-, rfl | ⟨-, lacks⟩⟩ := conserves.addedObjects name o missing added
      · rcases plain with known | ⟨interfaces, unions⟩
        · exact absurd missing known
        · exact absurd other (by simp [interfaces, unions])
      · exact absurd other (by simp [lacks.interfaces, lacks.unions])

theorem Conserves.scalar_eq_none (conserves : Conserves root t t')
    (missing : t.scalars.get? name = none) (known : ¬ t.Lacks name) :
    t'.scalars.get? name = none := by
  by_contra added
  exact known (conserves.addedScalars name missing added).2

theorem Conserves.parent (conserves : Conserves root t t') (plain : t.RootIsObject root)
    {p : Parent} (found : t.parent? name = some p) :
    ∃ p', t'.parent? name = some p' ∧ p.Widens p' := by
  unfold parent? at found ⊢
  rw [conserves.interfaces]
  cases interface : t.interfaces.get? name with
  | some i =>
      rw [interface] at found
      cases found
      exact ⟨_, rfl, .interface (.refl i)⟩
  | none =>
      cases object : t.objects.get? name with
      | some o =>
          obtain ⟨o', object', wider⟩ := conserves.object object
          rw [interface, object] at found
          cases found
          simp only [object']
          exact ⟨_, rfl, .object wider⟩
      | none =>
          simp only [interface, object, Option.map_eq_some_iff] at found
          obtain ⟨u, union, rfl⟩ := found
          have object' := conserves.no_object plain object (.inr (by simp [union]))
          simp only [object', conserves.unions name u union]
          exact ⟨_, rfl, .union⟩

theorem Conserves.fragmentType (conserves : Conserves root t t') (plain : t.RootIsObject root)
    {c : CompositeType} (found : t.fragmentType? name = some c) :
    ∃ c', t'.fragmentType? name = some c' ∧ c.Widens c' := by
  unfold fragmentType? at found ⊢
  rw [conserves.interfaces]
  cases object : t.objects.get? name with
  | some o =>
      obtain ⟨o', object', wider⟩ := conserves.object object
      rw [object] at found
      cases found
      simp only [object']
      exact ⟨_, rfl, wider⟩
  | none =>
      rw [object] at found
      have interface : t.interfaces.get? name = some c := found
      have object' := conserves.no_object plain object (.inl (by simp [interface]))
      simp only [object']
      exact ⟨c, interface, .refl c⟩

theorem Conserves.union (conserves : Conserves root t t') (other : name ≠ entityUnion) :
    t'.unions.get? name = t.unions.get? name := by
  cases union : t.unions.get? name with
  | some u => exact conserves.unions name u union
  | none =>
      by_contra added
      exact other (conserves.addedUnions name union added).1

theorem lacks_parent (lacks : t.Lacks name) : t.parent? name = none := by
  simp [parent?, lacks.interfaces, lacks.objects, lacks.unions]

def implementedBy (t : Tables) (interface name : String) : Bool :=
  (t.objects.get? name).any fun o => o.implements interface

theorem possibleTypenames_eq (named : t.WellNamed) (i : CompositeType) :
    t.possibleTypenames i =
      Names.ofList (i.name :: t.objects.keys.filter (t.implementedBy i.name)) :=
  congrArg (fun rest => Names.ofList (i.name :: rest))
    (named.objects.names_filter fun o => o.implements i.name)

theorem Conserves.implementedBy_known (conserves : Conserves root t t') (interface : String)
    (known : name ∈ t.objects.keys) :
    t'.implementedBy interface name = t.implementedBy interface name := by
  obtain ⟨o, found⟩ := Option.ne_none_iff_exists'.mp
    (mt Members.get?_eq_none_iff.mp (not_not_intro known))
  obtain ⟨o', found', wider⟩ := conserves.object found
  simp [implementedBy, found, found', CompositeType.implements, wider.interfaces]

theorem Conserves.implementedBy_new (conserves : Conserves root t t') (interface : String)
    (new : name ∉ t.objects.keys) : t'.implementedBy interface name = false := by
  have missing := Members.get?_eq_none_iff.mpr new
  cases added : t'.objects.get? name with
  | none => simp [implementedBy, added]
  | some o =>
      have bare := (conserves.addedObjects name o missing added).1
      simp [implementedBy, added, CompositeType.implements, bare]

theorem Conserves.possibleTypenames (conserves : Conserves root t t') (named : t.WellNamed)
    (named' : t'.WellNamed) {i i' : CompositeType} (wider : i.Widens i') :
    t'.possibleTypenames i' = t.possibleTypenames i := by
  -- What the new objects implement is nothing, so that they drop out before the order counts.
  have old : ∀ name, t'.implementedBy i.name name =
      (t'.implementedBy i.name name && decide (name ∈ t.objects.keys)) := by
    intro name
    by_cases known : name ∈ t.objects.keys
    · simp [known]
    · simp [known, conserves.implementedBy_new i.name known]
  have names : t'.objects.keys.filter (t'.implementedBy i.name) =
      t.objects.keys.filter (t.implementedBy i.name) :=
    calc t'.objects.keys.filter (t'.implementedBy i.name)
        = t'.objects.keys.filter fun name =>
            t'.implementedBy i.name name && decide (name ∈ t.objects.keys) :=
          List.filter_congr fun name _ => old name
      _ = (t'.objects.keys.filter fun name => name ∈ t.objects.keys).filter
            (t'.implementedBy i.name) := by
          rw [List.filter_filter]
      _ = t.objects.keys.filter (t'.implementedBy i.name) := by rw [conserves.order]
      _ = t.objects.keys.filter (t.implementedBy i.name) :=
          List.filter_congr fun _ known => conserves.implementedBy_known i.name known
  rw [possibleTypenames_eq named', possibleTypenames_eq named, wider.name, names]

theorem Conserves.widens (conserves : Conserves root t t') (named : t.WellNamed)
    (named' : t'.WellNamed) (plain : t.RootIsObject root) : t.Widens entityUnion t' where
  scalars := conserves.scalars
  enums name values custom found := by
    have known : ¬ t.Lacks name := fun lacks => by simp [lacks.enums] at found
    exact ⟨conserves.scalar_eq_none custom known, by rw [conserves.enums, found]⟩
  parents _ _ := conserves.parent plain
  composites name p found := by
    obtain ⟨custom, enum, parent⟩ := Scope.composite?_eq_some_iff.mp found
    have known : ¬ t.Lacks name := fun lacks => by simp [lacks_parent lacks] at parent
    exact ⟨conserves.scalar_eq_none custom known, by rw [conserves.enums, enum]⟩
  fragmentTypes _ _ := conserves.fragmentType plain
  unions _ := conserves.union
  possibleTypenames _ _ := conserves.possibleTypenames named named'

end Tables

namespace Subgraph

def withTablesOf (s : Subgraph) (d : Document) : Subgraph :=
  { s with tables := .ofDocument d }

/-- The first operation has no fragment on the union of all entities. -/
def SparesEntities (e : Document) : Prop :=
  ∀ o ∈ e.operation?, ¬ UsesCondition (fragmentsOf e) entityUnion o.selections

/-- A supplement conserves the tables of a document, and, if these have the query root as an object,
what operations compile to. -/
theorem ofDocument_conserves {d : Document} {s : Subgraph} (read : ofDocument d = .ok s)
    (surface : d.DefinesSurface) :
    s.root? .query = some d.queryRoot ∧
    (Tables.ofDocument d).Conserves d.queryRoot s.tables ∧
    ((Tables.ofDocument d).RootIsObject d.queryRoot → ∀ e v visits, SparesEntities e →
      (s.withTablesOf d).compileDocument e = .ok (v, visits) →
        s.compileDocument e = .ok (v, visits)) := by
  have valid := valid_of_ofDocument read
  have conserves := conserves_augment (definesOnce_of_valid valid) surface
  obtain rfl := eq_completed read
  refine ⟨?_, conserves, fun plain e v visits unused compiled => ?_⟩
  · have root := query_root valid
    rw [queryRoot_augment] at root
    exact root
  · have wider : ((completed d).withTablesOf d).tables.Widens entityUnion (completed d).tables :=
      conserves.widens (Tables.wellNamed_ofDocument d) (Tables.wellNamed_ofDocument _) plain
    exact compileDocument_widened wider rfl unused compiled

def idOfNode : Fragment :=
  ⟨"NodeId", "Node", [], [.field none "id" [] [] []]⟩

def genreOfBook : Document :=
  [.operation ⟨.query, none, [], [], [.field none "book" [] []
    [.field none "genre" [] [] [], .spread "NodeId" []]]⟩, .fragment idOfNode]

def genreShape : Shape :=
  .object [("book", .nullable (.object [("genre", .nullable (.enumeration ["ESSAY", "NOVEL"])),
    ("id", .nullable (.scalar (.string .any)))]))]

theorem bookDefinition_conserved :
    ofDocument bookDefinition = .ok (completed bookDefinition) ∧ bookDefinition.DefinesSurface ∧
    (Tables.ofDocument bookDefinition).Conserves "Query" (completed bookDefinition).tables ∧
    SparesEntities genreOfBook ∧
    ((completed bookDefinition).withTablesOf bookDefinition).compileDocument genreOfBook =
      .ok (genreShape, 4) ∧
    (completed bookDefinition).compileDocument genreOfBook = .ok (genreShape, 4) := by
  have read : ofDocument bookDefinition = .ok (completed bookDefinition) := rfl
  have surface : bookDefinition.DefinesSurface := by decide
  have spares : SparesEntities genreOfBook := by
    rintro _ ⟨⟩
    have spread : (Selection.spread "NodeId" []).fragment? (fragmentsOf genreOfBook) =
        some (some idOfNode.condition, idOfNode.selections) := rfl
    simp [usesCondition_fragment spread, idOfNode, entityUnion]
  have compiled : ((completed bookDefinition).withTablesOf bookDefinition).compileDocument
      genreOfBook = .ok (genreShape, 4) := rfl
  have rooted : (Tables.ofDocument bookDefinition).RootIsObject bookDefinition.queryRoot :=
    .inl (by decide)
  obtain ⟨-, conserves, conserved⟩ := ofDocument_conserves read surface
  exact ⟨read, surface, conserves, spares, compiled,
    conserved rooted genreOfBook genreShape 4 spares compiled⟩

def rootAsUnion : Document :=
  [.type ⟨true, none, "Query", [], .union ["Shelf"]⟩,
    .type ⟨false, none, "Shelf", [], .object [] [plain "size" "Int"]⟩]

def typenameOfRoot : Document :=
  [.operation ⟨.query, none, [], [], [.field none "__typename" [] [] []]⟩]

def rootAsInterface : Document :=
  [.type ⟨true, none, "Query", [], .interface [] [plain "node" "Node"]⟩,
    .type ⟨false, none, "Node", [], .interface [] [plain "id" "ID"]⟩]

def nodeOfRoot : Document :=
  [.operation ⟨.query, none, [], [], [.field none "node" [] []
    [.inline (some "Query") [] [.field none "node" [] [] [.field none "id" [] [] []]]]]⟩]

/-- An extension that states the query root as another kind of type is valid, and its table has it
until the supplement defines the root. -/
theorem strayRoots_not_conserved :
    (ofDocument rootAsUnion = .ok (completed rootAsUnion) ∧ rootAsUnion.DefinesSurface ∧
      SparesEntities typenameOfRoot ∧
      ∃ v, ((completed rootAsUnion).withTablesOf rootAsUnion).compileDocument typenameOfRoot =
          .ok v ∧
        (completed rootAsUnion).compileDocument typenameOfRoot ≠ .ok v) ∧
    ofDocument rootAsInterface = .ok (completed rootAsInterface) ∧
      rootAsInterface.DefinesSurface ∧ SparesEntities nodeOfRoot ∧
      ∃ v, ((completed rootAsInterface).withTablesOf rootAsInterface).compileDocument nodeOfRoot =
          .ok v ∧
        (completed rootAsInterface).compileDocument nodeOfRoot =
          .error (.unknownField "Query" "node") := by
  have named : (completed rootAsUnion).compileDocument typenameOfRoot =
      .ok (.object [("__typename", .scalar (.typename "Query"))], 1) := rfl
  have typename : SparesEntities typenameOfRoot := by
    rintro _ ⟨⟩
    simp
  have node : SparesEntities nodeOfRoot := by
    rintro _ ⟨⟩
    have inline : (Selection.inline (some "Query") []
        [.field none "node" [] [] [.field none "id" [] [] []]]).fragment? (fragmentsOf nodeOfRoot) =
          some (some "Query", [.field none "node" [] [] [.field none "id" [] [] []]]) := rfl
    simp [usesCondition_fragment inline, entityUnion]
  refine ⟨⟨rfl, by decide, typename, (.object [("__typename", .enumeration ["Shelf"])], 1), rfl, ?_⟩,
    rfl, by decide, node, _, rfl, rfl⟩
  rw [named]
  simp

end Subgraph

end FederatedMock
