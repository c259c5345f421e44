import FederatedMock.Operation.Level

/-!
# From operations to shapes

The shape of the data that answers an operation. An object type gives a plain object shape, an
interface or a union one with variants as soon as fragments narrow it. `Subgraph.compile` compiles
the first operation of a document.
-/

namespace FederatedMock

open Graphql

inductive Parent where
  | object (t : CompositeType)
  | interface (t : CompositeType)
  | union (t : UnionType)

namespace Tables

/-- The type of that name that takes a selection set; interfaces are looked up first. -/
def parent? (t : Tables) (name : String) : Option Parent :=
  match t.interfaces.get? name with
  | some i => some (.interface i)
  | none =>
    match t.objects.get? name with
    | some o => some (.object o)
    | none => (t.unions.get? name).map .union

/-- The type that a fragment within an abstract selection narrows to; objects are looked up
first. -/
def fragmentType? (t : Tables) (name : String) : Option CompositeType :=
  match t.objects.get? name with
  | some o => some o
  | none => t.interfaces.get? name

def possibleTypenames (t : Tables) (interface : CompositeType) : List String :=
  Names.ofList <| interface.name ::
    (t.objects.filter fun o => o.2.implements interface.name).map fun o => o.2.name

def appliesToObject (t : Tables) (object : CompositeType) (condition : String) : Bool :=
  object.name == condition || object.implements condition ||
    match t.unions.get? condition with
    | some u => u.members.contains object.name
    | none => false

end Tables

def CompositeType.appliesToInterface (interface : CompositeType) (condition : String) : Bool :=
  condition == interface.name || interface.implements condition

def UnionType.appliesToUnion (u : UnionType) (condition : String) : Bool :=
  condition == u.name

/-- The layers of a declared type around the shape of its base: a list for each list, nullable
unless null is ruled out. -/
def TypeRef.wrap (base : Shape) : TypeRef → Shape
  | .named _ nonNull => if nonNull then base else .nullable base
  | .list item nonNull => if nonNull then .list (TypeRef.wrap base item)
    else .nullable (.list (TypeRef.wrap base item))

structure Scope where
  tables : Tables
  fragments : Members Fragment

namespace Scope

abbrev Nested := Parent → List Selection → Compiling Shape

def namedShape (c : Scope) (nested : Nested) (name : String) (f : FieldSelection) :
    Compiling Shape :=
  -- What is selected on a scalar or an enumeration is passed over.
  match c.tables.scalars.get? name with
  | some rule => return .scalar rule
  | none =>
    match c.tables.enums.get? name with
    | some values => return .enumeration values
    | none =>
      match c.tables.parent? name with
      | none => throw (.unresolvedType name)
      | some parent =>
        if f.selections.isEmpty then throw (.missingSelectionSet name f.name)
        else nested parent f.selections

def fieldShape (c : Scope) (nested : Nested) (t : CompositeType) (f : FieldSelection) :
    Compiling Shape :=
  match t.fields.get? f.name with
  | none => throw (.unknownField t.name f.name)
  | some type => return TypeRef.wrap (← c.namedShape nested type.base f) type

def fieldShapes (c : Scope) (nested : Nested) (t : CompositeType) (typename : Shape)
    (fields : List FieldSelection) : Compiling Shape.Fields :=
  fields.foldlM (fun out f => do
    let shape ← if f.name = typenameKey then pure typename else c.fieldShape nested t f
    return Shape.insertField f.key shape out) []

def unionShapes (u : UnionType) (fields : List FieldSelection) : Compiling Shape.Fields :=
  fields.foldlM (fun out f =>
    if f.name = typenameKey then return Shape.insertField f.key (.enumeration u.members) out
    else throw (.unknownField u.name f.name)) []

def fragmentShapes (c : Scope) (nested : Nested) (f : ConditionalFragment) :
    Compiling Shape.Fields :=
  match c.tables.fragmentType? f.condition with
  | none => throw (.unresolvedType f.condition)
  | some t => do
    match ← nested (.object t) f.selections with
    | .object fields => return fields
    | _ => return []

/-- The variants of an abstract selection: for each fragment its type name, the shared fields, and
its own fields, which win. -/
def variantShapes (c : Scope) (nested : Nested) (shared : Shape.Fields)
    (fragments : List ConditionalFragment) : Compiling Shape.Variants :=
  fragments.foldlM (fun out f => do
    -- The name comes first, and keeps its place where the fragment selects it itself.
    let base := Shape.insertField typenameKey (.enumeration [f.condition]) []
    let base := (shared.filter fun s => s.1 != typenameKey).foldl
      (fun fields s => Shape.insertField s.1 s.2 fields) base
    let own ← c.fragmentShapes nested f
    return Shape.insertVariant f.condition (Shape.mergeFields base own) out) []

def level (c : Scope) (applies : String → Bool) (levels : Nat) (selections : List Selection) :
    Compiling (List FieldSelection × List ConditionalFragment) := do
  let l ← Level.expand c.fragments applies levels selections .empty
  return (l.fields.reverse, l.fragments.reverse)

def selectionShape (c : Scope) : Nat → Nested
  | 0 => fun _ _ => throw .recursionLimitExceeded
  | levels + 1 => fun parent selections =>
    match parent with
    | .object t => do
      -- Fragments that do not apply to an object type are not looked into.
      let (fields, _) ← c.level (c.tables.appliesToObject t) (levels + 1) selections
      return .object
        (← c.fieldShapes (c.selectionShape levels) t (.scalar (.typename t.name)) fields)
    | .interface t => do
      let (fields, fragments) ← c.level t.appliesToInterface (levels + 1) selections
      let names := Shape.enumeration (c.tables.possibleTypenames t)
      let shared ← c.fieldShapes (c.selectionShape levels) t names fields
      if fragments.isEmpty then return .object shared
      else return .variants (← c.variantShapes (c.selectionShape levels) shared fragments)
    | .union u => do
      let (fields, fragments) ← c.level u.appliesToUnion (levels + 1) selections
      let shared ← unionShapes u fields
      if fragments.isEmpty then return .object shared
      else return .variants (← c.variantShapes (c.selectionShape levels) [] fragments)

end Scope

namespace Subgraph

/-- The shape of the first operation of a document, and the number of selections looked at. -/
def compileDocument (s : Subgraph) (d : Document) : Except OperationError (Shape × Nat) :=
  match d.operation? with
  | none => .error .missingOperation
  | some o =>
    match s.root? o.kind with
    | none => .error (.unsupportedOperationKind o.kind.text)
    | some root =>
      match s.tables.parent? root with
      | none => .error (.unresolvedType root)
      | some parent =>
        Scope.selectionShape ⟨s.tables, fragmentsOf d⟩ (recursionLimit + 1) parent o.selections 0

def compile (s : Subgraph) (operation : String) : Except OperationError Shape :=
  match Document.parse? operation with
  | none => .error .syntaxError
  | some d => (s.compileDocument d).map Prod.fst

end Subgraph

end FederatedMock
