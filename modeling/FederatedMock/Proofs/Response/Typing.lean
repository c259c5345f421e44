import FederatedMock.Proofs.Operation.Collection
import FederatedMock.Proofs.Shape.Scalar

/-!
# Well typed responses

What it takes for data to answer a selection set, by the selections and the declared types alone. An
object answers for its parent type as it is, or as a value that one of the fragments that narrow the
parent has matched. Its members answer fields that are selected for it, and fit their types.
-/

namespace FederatedMock

open Graphql

def Parent.typenames (tables : Tables) : Parent → List String
  | .object t => [t.name]
  | .interface t => tables.possibleTypenames t
  | .union u => u.members

namespace Scope

inductive Matches (c : Scope) (p : Parent) (selections : List Selection) : Option String → Prop
  | plain (whole : p.IsAbstract → ∀ f, ¬ c.HasFragment p selections f) : Matches c p selections none
  | narrowed {f : ConditionalFragment} (abstract : p.IsAbstract)
      (has : c.HasFragment p selections f) : Matches c p selections (some f.condition)

/-- A field is selected on a type, for an object that has matched the condition. What is selected
on an interface is for objects of all fragments, but for the key of the type name; on a union it is
for objects that no fragment narrows. -/
inductive Selects (c : Scope) (p : Parent) (selections : List Selection) :
    Option String → Parent → FieldSelection → Prop
  | plain {f : FieldSelection} (has : c.HasField p selections f) : Selects c p selections none p f
  | shared {t : CompositeType} {condition : String} {f : FieldSelection}
      (interface : p = .interface t) (has : c.HasField p selections f)
      (key : f.key ≠ typenameKey) : Selects c p selections (some condition) p f
  | own {g : ConditionalFragment} {t : CompositeType} {f : FieldSelection} (abstract : p.IsAbstract)
      (fragment : c.HasFragment p selections g)
      (type : c.tables.fragmentType? g.condition = some t)
      (has : c.HasField (.object t) g.selections f) :
      Selects c p selections (some g.condition) (.object t) f

def Declares (q : Parent) (f : FieldSelection) (type : TypeRef) : Prop :=
  f.name ≠ typenameKey ∧ q.field? f.name = some type

mutual

inductive Fits (c : Scope) : TypeRef → List Selection → Json → Prop
  | null {type : TypeRef} {selections : List Selection} (nullable : type.isNonNull = false) :
      Fits c type selections .null
  | array {item : TypeRef} {nonNull : Bool} {selections : List Selection} {items : List Json}
      (each : ∀ v ∈ items, Fits c item selections v) :
      Fits c (.list item nonNull) selections (.array items)
  | scalar {name : String} {nonNull : Bool} {selections : List Selection} {rule : ScalarRule}
      {v : Json} (found : c.tables.scalars.get? name = some rule) (admitted : rule.admits v) :
      Fits c (.named name nonNull) selections v
  | enumerator {name : String} {nonNull : Bool} {selections : List Selection}
      {values : List String} {value : String} (custom : c.tables.scalars.get? name = none)
      (found : c.tables.enums.get? name = some values) (mem : value ∈ values) :
      Fits c (.named name nonNull) selections (.string value)
  | composite {name : String} {nonNull : Bool} {selections : List Selection} {p : Parent} {v : Json}
      (found : c.tables.composite? name = some p) (answers : Answers c p selections v) :
      Fits c (.named name nonNull) selections v

/-- A value answers a selection set on a parent: it is an object, its members answer fields, and a
member that is missing answers none that has to be there. -/
inductive Answers (c : Scope) : Parent → List Selection → Json → Prop
  | object {p : Parent} {selections : List Selection} {condition : Option String}
      {members : List (String × Json)} (matched : c.Matches p selections condition)
      (each : ∀ m ∈ members, Member c p selections condition m.1 m.2)
      (present : ∀ q f, c.Selects p selections condition q f → f.key ∈ Members.keys members ∨
        ∃ q' f' type, c.Selects p selections condition q' f' ∧ f'.key = f.key ∧
          Declares q' f' type ∧ type.isNonNull = false) :
      Answers c p selections (.object members)

inductive Member (c : Scope) : Parent → List Selection → Option String → String → Json → Prop
  | field {p q : Parent} {selections : List Selection} {condition : Option String}
      {f : FieldSelection} {type : TypeRef} {v : Json}
      (selected : c.Selects p selections condition q f) (declared : Declares q f type)
      (fits : Fits c type f.selections v) : Member c p selections condition f.key v
  | typename {p q : Parent} {selections : List Selection} {condition : Option String}
      {f : FieldSelection} {name : String} (selected : c.Selects p selections condition q f)
      (field : f.name = typenameKey) (possible : name ∈ q.typenames c.tables) :
      Member c p selections condition f.key (.string name)
  | discriminator {p : Parent} {selections : List Selection} {condition : String} :
      Member c p selections (some condition) typenameKey (.string condition)

end

end Scope

def Subgraph.Answers (s : Subgraph) (d : Document) (v : Json) : Prop :=
  ∃ p selections, s.start? d = some (p, selections) ∧ (s.scope d).Answers p selections v

end FederatedMock
