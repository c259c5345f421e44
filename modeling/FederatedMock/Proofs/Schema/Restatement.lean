import FederatedMock.Proofs.Operation.Rules
import FederatedMock.Proofs.Schema.Tables

namespace FederatedMock

open Graphql

section Supplement

variable {d d' : Document}

theorem mem_entities {name : String} :
    name ∈ d.entities ↔ ∃ directive, isKeyDirective directive = true ∧
      ⟨name, .object, .directive directive⟩ ∈ d.statements := by
  simp only [mem_statements, directive_mem_clauses, Document.entities, Names.mem_ofList,
    List.mem_filterMap]
  constructor
  · rintro ⟨definition, mem, entity⟩
    cases definition with
    | type p =>
        obtain ⟨extension, description, own, directives, body⟩ := p
        cases body with
        | object interfaces fields =>
            simp only [Option.ite_none_right_eq_some, Option.some.injEq] at entity
            obtain ⟨keyed, rfl⟩ := entity
            obtain ⟨directive, applied, key⟩ := List.any_eq_true.mp keyed
            exact ⟨directive.name, key, _, mem_typeParts.mpr mem, ⟨rfl, rfl⟩, directive, applied,
              rfl⟩
        | _ => cases entity
    | _ => cases entity
  · rintro ⟨_, key, p, mem, ⟨rfl, kind⟩, directive, applied, rfl⟩
    obtain ⟨interfaces, fields, object⟩ := kind_eq_object_iff.mp kind
    have keyed : p.directives.any (fun directive => isKeyDirective directive.name) = true :=
      List.any_eq_true.mpr ⟨directive, applied, key⟩
    exact ⟨.type p, mem_typeParts.mp mem, by simp [object, keyed]⟩

theorem mem_statedFields {type f : String} :
    f ∈ (d.statedFields type).flatten.map FieldDefinition.name ↔
      ∃ fieldType, ⟨type, .object, .field f fieldType⟩ ∈ d.statements := by
  simp only [mem_statements, field_mem_clauses, Document.statedFields, List.mem_map,
    List.mem_flatten, List.mem_filterMap]
  constructor
  · rintro ⟨g, ⟨fields, ⟨definition, mem, stated⟩, listed⟩, rfl⟩
    cases definition with
    | type p =>
        obtain ⟨extension, description, own, directives, body⟩ := p
        cases body with
        | object interfaces own =>
            simp only [Definition.objectFields?, Option.ite_none_right_eq_some,
              Option.some.injEq] at stated
            obtain ⟨same, rfl⟩ := stated
            exact ⟨g.type, _, mem_typeParts.mpr mem, ⟨same, rfl⟩, g, listed, rfl, rfl⟩
        | _ => cases stated
    | _ => cases stated
  · rintro ⟨_, p, mem, ⟨rfl, kind⟩, g, field, rfl, rfl⟩
    obtain ⟨interfaces, fields, object⟩ := kind_eq_object_iff.mp kind
    rw [object] at field
    exact ⟨g, ⟨fields, ⟨.type p, mem_typeParts.mp mem, by simp [Definition.objectFields?, object]⟩,
      field⟩, rfl⟩

theorem directive_of_mem {definition : Definition} (mem : definition ∈ Supplement.directives d) :
    ∃ declared, definition = .directive declared := by
  obtain ⟨⟨name, arguments⟩, -, stated⟩ := List.mem_filterMap.mp mem
  simp only [Option.ite_none_left_eq_some, Option.some.injEq] at stated
  exact ⟨_, stated.2.symm⟩

theorem statements_directives (d : Document) :
    Document.statements (Supplement.directives d) = [] := by
  have none : typeParts (Supplement.directives d) = [] := by
    refine List.filterMap_eq_nil_iff.mpr fun definition mem => ?_
    obtain ⟨declared, rfl⟩ := directive_of_mem mem
    rfl
  rw [Document.statements, none]
  rfl

theorem statements_rootDefinition (d : Document) :
    Document.statements (Supplement.rootDefinition d) =
      match Supplement.rootFields d with
      | [] => []
      | fields => ⟨d.queryRoot, .object, .stated⟩ ::
          fields.map fun f => ⟨d.queryRoot, .object, .field f.name f.type⟩ := by
  unfold Supplement.rootDefinition
  cases Supplement.rootFields d with
  | nil => rfl
  | cons f rest =>
      simp [Document.statements, typeParts, TypeDefinition.clauses, TypeBody.interfaceNames,
        TypeBody.kind, TypeBody.fieldDefinitions, TypeBody.memberNames, TypeBody.valueNames]

theorem queryRoot_augment (d : Document) : (augment d).queryRoot = d.queryRoot := by
  have declared : (Supplement.directives d).flatMap Document.queryRoots = [] := by
    refine List.flatMap_eq_nil_iff.mpr fun definition mem => ?_
    obtain ⟨declared, rfl⟩ := directive_of_mem mem
    rfl
  have root : (Supplement.rootDefinition d).flatMap Document.queryRoots = [] := by
    unfold Supplement.rootDefinition
    split <;> rfl
  have unnamed : (supplement d).flatMap Document.queryRoots = [] := by
    simp only [supplement, List.flatMap_append, declared, root, List.append_nil]
    split <;> split <;> split <;> rfl
  rw [Document.queryRoot, augment, List.flatMap_append, unnamed, List.append_nil]
  rfl

end Supplement

namespace Restates

variable {d d' : Document}

theorem mem_entities (same : Restates d d') {name : String} :
    name ∈ d.entities ↔ name ∈ d'.entities := by
  rw [FederatedMock.mem_entities, FederatedMock.mem_entities]
  exact exists_congr fun directive => and_congr_right fun _ => same _

theorem isEmpty_entities (same : Restates d d') : d.entities.isEmpty = d'.entities.isEmpty := by
  rw [Bool.eq_iff_iff, List.isEmpty_iff, List.isEmpty_iff, List.eq_nil_iff_forall_not_mem,
    List.eq_nil_iff_forall_not_mem]
  exact forall_congr' fun name => not_congr same.mem_entities

theorem rootFields (same : Restates d d') (query : d.queryRoot = d'.queryRoot) :
    Supplement.rootFields d = Supplement.rootFields d' := by
  have stated (f : String) :
      ((d.statedFields d.queryRoot).flatten.map FieldDefinition.name).contains f =
        ((d'.statedFields d'.queryRoot).flatten.map FieldDefinition.name).contains f := by
    rw [Bool.eq_iff_iff, List.contains_iff_mem, List.contains_iff_mem, mem_statedFields,
      mem_statedFields, query]
    exact exists_congr fun type => same _
  simp only [Supplement.rootFields, stated, same.isEmpty_entities]

theorem entityDefinition (same : Restates d d') :
    Restates [Supplement.entityDefinition d.entities]
      [Supplement.entityDefinition d'.entities] := by
  have said (entities : List String) (s : Statement) :
      s ∈ Document.statements [Supplement.entityDefinition entities] ↔
        s = ⟨entityUnion, .union, .stated⟩ ∨
          ∃ name ∈ entities, ⟨entityUnion, .union, .member name⟩ = s := by
    simp [Document.statements, typeParts, Supplement.entityDefinition, Supplement.typeDefinition,
      TypeDefinition.clauses, TypeBody.interfaceNames, TypeBody.kind, TypeBody.fieldDefinitions,
      TypeBody.memberNames, TypeBody.valueNames]
  intro s
  rw [said, said]
  exact or_congr_right (exists_congr fun name => and_congr_left fun _ => same.mem_entities)

theorem append {more more' : Document} (same : Restates d d') (others : Restates more more') :
    Restates (d ++ more) (d' ++ more') := by
  intro s
  rw [statements_append, statements_append, List.mem_append, List.mem_append]
  exact or_congr (same s) (others s)

instance : Decidable (Restates d d') :=
  decidable_of_iff
    ((∀ s ∈ d.statements, s ∈ d'.statements) ∧ ∀ s ∈ d'.statements, s ∈ d.statements)
    ⟨fun both s => ⟨both.1 s, both.2 s⟩, fun same => ⟨fun s => (same s).mp, fun s => (same s).mpr⟩⟩

theorem of_eq (same : d.statements = d'.statements) : Restates d d' := by
  intro s
  rw [same]

end Restates

/-- The documents say the same of their types, and define the same types of the federation
surface. -/
structure Redistributes (d d' : Document) : Prop where
  statements : Restates d d'
  surface : ∀ name ∈ [anyScalar, serviceType, entityUnion], d.definesType name = d'.definesType name

theorem Redistributes.augment {d d' : Document} (same : Redistributes d d')
    (query : d.queryRoot = d'.queryRoot) : Restates (augment d) (augment d') := by
  have any : d.definesType anyScalar = d'.definesType anyScalar := same.surface _ (by simp)
  have service : d.definesType serviceType = d'.definesType serviceType := same.surface _ (by simp)
  have union : d.definesType entityUnion = d'.definesType entityUnion := same.surface _ (by simp)
  have entities : Restates
      (if d.entities.isEmpty || d.definesType entityUnion then []
        else [Supplement.entityDefinition d.entities])
      (if d'.entities.isEmpty || d'.definesType entityUnion then []
        else [Supplement.entityDefinition d'.entities]) := by
    rw [same.statements.isEmpty_entities, union]
    split
    · exact .of_eq rfl
    · exact same.statements.entityDefinition
  have directives : Restates (Supplement.directives d) (Supplement.directives d') :=
    .of_eq (by rw [statements_directives, statements_directives])
  have root : Restates (Supplement.rootDefinition d) (Supplement.rootDefinition d') :=
    .of_eq (by
      rw [statements_rootDefinition, statements_rootDefinition, same.statements.rootFields query,
        query])
  refine same.statements.append ?_
  rw [supplement, supplement, any, service]
  exact ((((Restates.of_eq rfl).append (.of_eq rfl)).append entities).append directives).append root

namespace Subgraph

/-- What is stated of a type as if it were of another kind, which validation passes over before its
definition, does not give one field two types. -/
def StraysAgree (s : Subgraph) : Prop :=
  ∀ name kind f type type',
    (∀ t, s.system.types.get? name = some t → t.body.kind ≠ kind) →
    ⟨name, kind, .field f type⟩ ∈ s.document.statements →
    ⟨name, kind, .field f type'⟩ ∈ s.document.statements → type = type'

variable {d d' : Document} {s s' : Subgraph}

theorem fields_agree (valid : validateSchema s.document = .ok s.system) (strays : s.StraysAgree) :
    s.document.FieldsAgree := by
  intro name kind f type type' said said'
  -- Validity has a field stated once among the parts of the type's kind, and looks at no others.
  by_cases own : ∃ t, s.system.types.get? name = some t ∧ t.body.kind = kind
  · obtain ⟨t, found, rfl⟩ := own
    obtain ⟨p, mem, ⟨rfl, kind⟩, clause⟩ := mem_statements.mp said
    obtain ⟨p', mem', ⟨name, kind'⟩, clause'⟩ := mem_statements.mp said'
    obtain ⟨g, field, rfl, rfl⟩ := field_mem_clauses.mp clause
    obtain ⟨g', field', same, rfl⟩ := field_mem_clauses.mp clause'
    rw [field_unique valid mem mem' name found kind kind' field field' same.symm]
  · refine strays name kind f type type' (fun t found kind => ?_) said said'
    exact own ⟨t, found, kind⟩

theorem straysAgree_of_kinds (kinds : ∀ a ∈ s.document.statements,
    (s.system.types.get? a.name).map (fun t => t.body.kind) = some a.kind) : s.StraysAgree := by
  intro name kind f type type' stray said
  obtain ⟨t, found, same⟩ := Option.map_eq_some_iff.mp (kinds _ said)
  exact (stray t found same).elim

theorem valid_of_ofDocument (read : ofDocument d = .ok s) :
    validateSchema (augment d) = .ok s.system := by
  unfold ofDocument at read
  cases valid : validateSchema (augment d) with
  | error e => simp [valid] at read
  | ok system =>
      simp only [valid, Except.ok.injEq] at read
      subst read
      rfl

/-- Operations compile alike against documents that say the same, whatever the order and the
distribution of what they say. -/
theorem compile_redistributed (read : ofDocument d = .ok s) (read' : ofDocument d' = .ok s')
    (same : Redistributes d d') (roots : s.system.roots = s'.system.roots)
    (strays : s.StraysAgree) (operation : String) :
    (s.compile operation).map Shape.sortNames = (s'.compile operation).map Shape.sortNames := by
  obtain rfl := eq_completed read
  obtain rfl := eq_completed read'
  have valid := valid_of_ofDocument read
  have valid' := valid_of_ofDocument read'
  -- The supplement goes by the root that the document names; validity makes it that of the system.
  have query : d.queryRoot = d'.queryRoot := by
    have root := (query_root valid).symm.trans
      ((congrArg Roots.query roots).trans (query_root valid'))
    rw [queryRoot_augment, queryRoot_augment] at root
    exact Option.some.inj root
  have agree : (augment d).FieldsAgree := fields_agree (s := completed d) valid strays
  have tables := tables_alike (same.augment query) agree (definesOnce_of_valid valid)
    (definesOnce_of_valid valid')
  exact compile_alike tables (Tables.wellNamed_ofDocument _) (Tables.wellNamed_ofDocument _) roots
    operation

def plain (name base : String) : FieldDefinition :=
  ⟨none, name, [], .named base false, []⟩

def keyedById : Directive :=
  ⟨"key", [⟨"fields", .string "id"⟩]⟩

def bookDefinition : Document :=
  [.type ⟨false, none, "Query", [], .object [] [plain "book" "Book"]⟩,
    .type ⟨false, none, "Node", [], .interface [] [plain "id" "ID"]⟩,
    .type ⟨false, none, "Book", [keyedById],
      .object ["Node"] [plain "id" "ID", plain "genre" "Genre"]⟩,
    .type ⟨false, none, "Genre", [], .enumeration [⟨none, "ESSAY", []⟩, ⟨none, "NOVEL", []⟩]⟩]

def bookExtensions : Document :=
  [.type ⟨true, none, "Book", [], .object ["Node"] [plain "id" "ID"]⟩,
    .type ⟨true, none, "Genre", [], .enumeration [⟨none, "NOVEL", []⟩]⟩,
    .type ⟨true, none, "Genre", [], .enumeration [⟨none, "ESSAY", []⟩]⟩,
    .type ⟨false, none, "Query", [], .object [] [plain "book" "Book"]⟩,
    .type ⟨true, none, "Book", [keyedById], .object [] []⟩,
    .type ⟨false, none, "Book", [], .object [] [plain "genre" "Genre"]⟩,
    .type ⟨false, none, "Node", [], .interface [] [plain "id" "ID"]⟩]

theorem bookExtensions_redistributed :
    ofDocument bookDefinition = .ok (completed bookDefinition) ∧
    ofDocument bookExtensions = .ok (completed bookExtensions) ∧
    Redistributes bookDefinition bookExtensions ∧
    (completed bookDefinition).system.roots = (completed bookExtensions).system.roots ∧
    (completed bookDefinition).StraysAgree ∧
    ∀ operation, ((completed bookDefinition).compile operation).map Shape.sortNames =
      ((completed bookExtensions).compile operation).map Shape.sortNames := by
  have read : ofDocument bookDefinition = .ok (completed bookDefinition) := rfl
  have read' : ofDocument bookExtensions = .ok (completed bookExtensions) := rfl
  have same : Redistributes bookDefinition bookExtensions := ⟨by decide, by decide⟩
  have roots : (completed bookDefinition).system.roots =
      (completed bookExtensions).system.roots := rfl
  have strays : (completed bookDefinition).StraysAgree := straysAgree_of_kinds (by decide)
  exact ⟨read, read', same, roots, strays, compile_redistributed read read' same roots strays⟩

def shelfSize (base : String) : Definition :=
  .type ⟨true, none, "Shelf", [], .interface [] [plain "size" base]⟩

def shelfObject : Document :=
  [.type ⟨false, none, "Shelf", [], .object [] [plain "size" "Int"]⟩,
    .type ⟨false, none, "Query", [], .object [] [plain "shelf" "Shelf"]⟩]

def shelfByInt : Document :=
  shelfSize "Int" :: shelfSize "String" :: shelfObject

def shelfByString : Document :=
  shelfSize "String" :: shelfSize "Int" :: shelfObject

def shelfShape (size : ScalarRule) : Shape :=
  .object [("shelf", .nullable (.object [("size", .nullable (.scalar size))]))]

def sizeOfShelf : Document :=
  [.operation
    ⟨.query, none, [], [], [.field none "shelf" [] [] [.field none "size" [] [] []]]⟩]

theorem parse_sizeOfShelf : Document.parse? "{ shelf { size } }" = some sizeOfShelf := by
  have lexed : lex "{ shelf { size } }" =
      some [.punctuator '\x7b', .name "shelf", .punctuator '\x7b', .name "size",
        .punctuator '\x7d', .punctuator '\x7d'] := by decide +kernel
  rw [Document.parse?, lexed]
  rfl

/-- Extensions of a type as an interface that come before its definition as an object are valid,
whatever they say, and the first of them counts. -/
theorem shelfExtensions_ordered :
    shelfByInt.Perm shelfByString ∧
    ofDocument shelfByInt = .ok (completed shelfByInt) ∧
    ofDocument shelfByString = .ok (completed shelfByString) ∧
    Redistributes shelfByInt shelfByString ∧
    (completed shelfByInt).system.roots = (completed shelfByString).system.roots ∧
    ((completed shelfByInt).compile "{ shelf { size } }").map Shape.sortNames ≠
      ((completed shelfByString).compile "{ shelf { size } }").map Shape.sortNames := by
  have byInt : (completed shelfByInt).compile "{ shelf { size } }" =
      .ok (shelfShape .number) := by
    rw [compile, parse_sizeOfShelf]
    rfl
  have byString : (completed shelfByString).compile "{ shelf { size } }" =
      .ok (shelfShape (.string .any)) := by
    rw [compile, parse_sizeOfShelf]
    rfl
  refine ⟨.swap _ _ _, rfl, rfl, ⟨by decide, by decide⟩, rfl, ?_⟩
  rw [byInt, byString]
  simp [Except.map, shelfShape, Shape.sortNames, Shape.sortFields]

end Subgraph

end FederatedMock
