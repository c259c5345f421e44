import FederatedMock.Graphql.Parser
import FederatedMock.Schema.Extension
import FederatedMock.Schema.Validation
import FederatedMock.Shape.Basic

namespace FederatedMock

open Graphql

/-- Definitions by kind, as they come in a document. Scalars and enums need no merging in two steps:
each mention adds to the table. -/
structure Definitions where
  scalars : List String
  enums : List (String × List String)
  interfaces : Collected CompositeType
  objects : Collected CompositeType
  unions : Collected UnionType

namespace Definitions

def select {α : Type} (d : Document) (extension : Bool) (f : TypeDefinition → Option α) :
    List α :=
  d.filterMap fun
    | .type t => if t.extension = extension then f t else none
    | _ => none

def collected {α : Type} (d : Document) (f : TypeDefinition → Option α) : Collected α :=
  ⟨select d false f, select d true f⟩

def scalar? (t : TypeDefinition) : Option String :=
  match t.body with
  | .scalar => some t.name
  | _ => none

def enum? (t : TypeDefinition) : Option (String × List String) :=
  match t.body with
  | .enumeration values => some (t.name, values.map EnumValue.name)
  | _ => none

def object? (t : TypeDefinition) : Option CompositeType :=
  match t.body with
  | .object interfaces fields => some (.ofDefinition t.name interfaces fields)
  | _ => none

def interface? (t : TypeDefinition) : Option CompositeType :=
  match t.body with
  | .interface interfaces fields => some (.ofDefinition t.name interfaces fields)
  | _ => none

def union? (t : TypeDefinition) : Option UnionType :=
  match t.body with
  | .union members => some (.ofDefinition t.name members)
  | _ => none

def mentions {α : Type} (d : Document) (f : TypeDefinition → Option α) : List α :=
  d.filterMap fun
    | .type t => f t
    | _ => none

def collect (d : Document) : Definitions where
  scalars := mentions d scalar?
  enums := mentions d enum?
  interfaces := collected d interface?
  objects := collected d object?
  unions := collected d union?

end Definitions

structure Tables where
  scalars : Members ScalarRule
  enums : Members (List String)
  interfaces : Members CompositeType
  objects : Members CompositeType
  unions : Members UnionType

namespace Tables

def addEnum (table : Members (List String)) (e : String × List String) :
    Members (List String) :=
  table.insert e.1 (Names.addAll ((table.get? e.1).getD []) e.2)

def ofDefinitions (c : Definitions) : Tables where
  scalars := Members.insertAllIfNew []
    ((builtInScalars ++ c.scalars).map fun name => (name, .ofScalar name))
  enums := c.enums.foldl addEnum []
  interfaces := c.interfaces.merge
  objects := c.objects.merge
  unions := c.unions.merge

def ofDocument (d : Document) : Tables :=
  ofDefinitions (Definitions.collect d)

end Tables

/-- A subgraph schema: a valid document with its supplement, its type system and its tables. -/
structure Subgraph where
  document : Document
  system : TypeSystem
  tables : Tables

namespace Subgraph

def ofDocument (d : Document) : Except SchemaError Subgraph :=
  match validateSchema (augment d) with
  | .ok system => .ok ⟨augment d, system, Tables.ofDocument (augment d)⟩
  | .error e => .error e

def parse (sdl : String) : Except SchemaError Subgraph :=
  match Document.parse? sdl with
  | some d => ofDocument d
  | none => .error .syntaxError

def root? (s : Subgraph) (kind : OperationKind) : Option String :=
  s.system.roots.get kind

end Subgraph

end FederatedMock
