import FederatedMock.Graphql.Syntax
import FederatedMock.Ordered.Basic

namespace FederatedMock

open Graphql

structure CompositeType where
  name : String
  interfaces : List String
  fields : Members TypeRef
deriving DecidableEq, Repr

structure UnionType where
  name : String
  members : List String
deriving DecidableEq, Repr

class Extendable (α : Type) where
  name : α → String
  absorb : α → α → α

namespace CompositeType

def ofDefinition (name : String) (interfaces : List String) (fields : List FieldDefinition) :
    CompositeType :=
  ⟨name, Names.ofList interfaces, Members.insertAllIfNew [] (fields.map fun f => (f.name, f.type))⟩

def implements (t : CompositeType) (interface : String) : Bool :=
  t.interfaces.contains interface

def absorb (t extension : CompositeType) : CompositeType :=
  { t with
    interfaces := Names.addAll t.interfaces extension.interfaces
    fields := t.fields.insertAllIfNew extension.fields }

instance : Extendable CompositeType := ⟨CompositeType.name, absorb⟩

end CompositeType

namespace UnionType

def ofDefinition (name : String) (members : List String) : UnionType :=
  ⟨name, Names.ofList members⟩

def absorb (t extension : UnionType) : UnionType :=
  { t with members := Names.addAll t.members extension.members }

instance : Extendable UnionType := ⟨UnionType.name, absorb⟩

end UnionType

structure Collected (α : Type) where
  definitions : List α
  extensions : List α

namespace Collected

variable {α : Type} [Extendable α]

def define (table : Members α) (t : α) : Members α :=
  table.insert (Extendable.name t) t

def extend (table : Members α) (extension : α) : Members α :=
  match table.get? (Extendable.name extension) with
  | some t => table.insert (Extendable.name extension) (Extendable.absorb t extension)
  | none => table ++ [(Extendable.name extension, extension)]

/-- The table of the types by name: definitions in order, then types that only extensions state. -/
def merge (c : Collected α) : Members α :=
  c.extensions.foldl extend (c.definitions.foldl define [])

end Collected

end FederatedMock
