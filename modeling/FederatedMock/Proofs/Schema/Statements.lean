import FederatedMock.Proofs.Schema.Validity

namespace FederatedMock

open Graphql

inductive Clause where
  | stated
  | implements (interface : String)
  | field (name : String) (type : TypeRef)
  | member (name : String)
  | value (name : String)
  | directive (name : String)
deriving DecidableEq

structure Statement where
  name : String
  kind : TypeKind
  clause : Clause
deriving DecidableEq

namespace Graphql

namespace TypeBody

def interfaceNames : TypeBody → List String
  | .object interfaces _ => interfaces
  | .interface interfaces _ => interfaces
  | _ => []

def memberNames : TypeBody → List String
  | .union members => members
  | _ => []

def valueNames : TypeBody → List String
  | .enumeration values => values.map EnumValue.name
  | _ => []

end TypeBody

/-- What a part says of its type. Fields of input objects are left out: no operation sees them. -/
def TypeDefinition.clauses (p : TypeDefinition) : List Clause :=
  .stated :: p.body.interfaceNames.map .implements ++
    (p.body.fieldDefinitions.map fun f => .field f.name f.type) ++
    p.body.memberNames.map .member ++ p.body.valueNames.map .value ++
    p.directives.map fun d => .directive d.name

def Document.statements (d : Document) : List Statement :=
  (typeParts d).flatMap fun p => p.clauses.map fun clause => ⟨p.name, p.body.kind, clause⟩

end Graphql

section Clauses

variable {p : TypeDefinition}

theorem stated_mem_clauses : .stated ∈ p.clauses := by
  simp [TypeDefinition.clauses]

theorem implements_mem_clauses {i : String} :
    .implements i ∈ p.clauses ↔ i ∈ p.body.interfaceNames := by
  simp [TypeDefinition.clauses]

theorem field_mem_clauses {f : String} {type : TypeRef} :
    .field f type ∈ p.clauses ↔ ∃ g ∈ p.body.fieldDefinitions, g.name = f ∧ g.type = type := by
  simp [TypeDefinition.clauses]

theorem member_mem_clauses {m : String} : .member m ∈ p.clauses ↔ m ∈ p.body.memberNames := by
  simp [TypeDefinition.clauses]

theorem value_mem_clauses {v : String} : .value v ∈ p.clauses ↔ v ∈ p.body.valueNames := by
  simp [TypeDefinition.clauses]

theorem directive_mem_clauses {name : String} :
    .directive name ∈ p.clauses ↔ ∃ d ∈ p.directives, d.name = name := by
  simp [TypeDefinition.clauses]

end Clauses

theorem mem_typeParts {d : Document} {p : TypeDefinition} :
    p ∈ typeParts d ↔ .type p ∈ d := by
  rw [typeParts, List.mem_filterMap]
  constructor
  · rintro ⟨definition, mem, same⟩
    cases definition <;> cases same
    exact mem
  · exact fun mem => ⟨_, mem, rfl⟩

theorem mem_statements {d : Document} {name : String} {kind : TypeKind} {clause : Clause} :
    ⟨name, kind, clause⟩ ∈ d.statements ↔
      ∃ p ∈ typeParts d, (p.name = name ∧ p.body.kind = kind) ∧ clause ∈ p.clauses := by
  simp only [Document.statements, List.mem_flatMap, List.mem_map, Statement.mk.injEq]
  constructor
  · rintro ⟨p, mem, c, said, rfl, rfl, rfl⟩
    exact ⟨p, mem, ⟨rfl, rfl⟩, said⟩
  · rintro ⟨p, mem, ⟨rfl, rfl⟩, said⟩
    exact ⟨p, mem, clause, said, rfl, rfl, rfl⟩

theorem statements_append (d more : Document) :
    Document.statements (d ++ more) = d.statements ++ more.statements := by
  rw [Document.statements, typeParts, List.filterMap_append, List.flatMap_append]
  rfl

def Restates (d d' : Document) : Prop :=
  ∀ s, s ∈ d.statements ↔ s ∈ d'.statements

def partsOfKind (d : Document) (kind : TypeKind) (name : String) : List TypeDefinition :=
  ((typeParts d).filter (fun p => !p.extension) ++ (typeParts d).filter TypeDefinition.extension)
    |>.filter fun p => p.name = name ∧ p.body.kind = kind

theorem mem_partsOfKind {d : Document} {kind : TypeKind} {name : String} {p : TypeDefinition} :
    p ∈ partsOfKind d kind name ↔ p ∈ typeParts d ∧ p.name = name ∧ p.body.kind = kind := by
  simp only [partsOfKind, List.mem_filter, List.mem_append, decide_eq_true_eq]
  cases p.extension <;> simp

theorem exists_clause_iff {d : Document} {kind : TypeKind} {name : String} {clause : Clause} :
    ⟨name, kind, clause⟩ ∈ d.statements ↔ ∃ p ∈ partsOfKind d kind name, clause ∈ p.clauses := by
  simp only [mem_statements, mem_partsOfKind]
  constructor
  · rintro ⟨p, mem, ⟨same, kind⟩, said⟩
    exact ⟨p, ⟨mem, same, kind⟩, said⟩
  · rintro ⟨p, ⟨mem, same, kind⟩, said⟩
    exact ⟨p, mem, ⟨same, kind⟩, said⟩

theorem partsOfKind_eq_nil_iff {d : Document} {kind : TypeKind} {name : String} :
    partsOfKind d kind name = [] ↔ ⟨name, kind, .stated⟩ ∉ d.statements := by
  rw [exists_clause_iff, List.eq_nil_iff_forall_not_mem]
  simp [stated_mem_clauses]

end FederatedMock
