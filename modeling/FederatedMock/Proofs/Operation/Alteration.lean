import FederatedMock.Proofs.Operation.Rules
import FederatedMock.Proofs.Ordered.Members

namespace FederatedMock

open Graphql

theorem eq_nil_iff_of_forall₂ {α β : Type} {r : α → β → Prop} {as : List α} {bs : List β}
    (related : List.Forall₂ r as bs) : as = [] ↔ bs = [] := by
  cases related <;> simp

section Collected

variable (r : List Selection → List Selection → Prop)

structure FieldSelection.Alters (f f' : FieldSelection) : Prop where
  responseName : f.responseName = f'.responseName
  name : f.name = f'.name
  selections : r f.selections f'.selections

structure ConditionalFragment.Alters (f f' : ConditionalFragment) : Prop where
  condition : f.condition = f'.condition
  selections : r f.selections f'.selections

structure Level.Alters (l l' : Level) : Prop where
  fields : List.Forall₂ (FieldSelection.Alters r) l.fields l'.fields
  fragments : List.Forall₂ (ConditionalFragment.Alters r) l.fragments l'.fragments

end Collected

variable {r : List Selection → List Selection → Prop}

theorem FieldSelection.Alters.key {f f' : FieldSelection} (alters : f.Alters r f') :
    f.key = f'.key := by
  rw [FieldSelection.key, FieldSelection.key, alters.responseName, alters.name]

theorem Level.alters_empty : Level.empty.Alters r .empty := ⟨.nil, .nil⟩

theorem Level.Alters.addField {l l' : Level} (alters : l.Alters r l') {f f' : FieldSelection}
    (field : f.Alters r f') : (l.addField f).Alters r (l'.addField f') :=
  ⟨.cons field alters.fields, alters.fragments⟩

theorem Level.Alters.addFragment {l l' : Level} (alters : l.Alters r l') (condition : String)
    {inner inner' : List Selection} (inside : r inner inner') :
    (l.addFragment condition inner).Alters r (l'.addFragment condition inner') :=
  ⟨alters.fields, .cons ⟨rfl, inside⟩ alters.fragments⟩

theorem Level.Alters.mark {l l' : Level} (alters : l.Alters r l') (s s' : Selection) :
    (l.mark s).Alters r (l'.mark s') := by
  refine ⟨?_, ?_⟩
  · rw [mark_fields, mark_fields]
    exact alters.fields
  · rw [mark_fragments, mark_fragments]
    exact alters.fragments

namespace Graphql

section Definitions

variable (r : List Selection → List Selection → Prop)

structure Fragment.Alters (f f' : Fragment) : Prop where
  name : f.name = f'.name
  condition : f.condition = f'.condition
  selections : r f.selections f'.selections

inductive Definition.Alters : Definition → Definition → Prop
  | operation {o : Operation} {selections : List Selection} (altered : r o.selections selections) :
      Alters (.operation o) (.operation { o with selections := selections })
  | fragment {f : Fragment} {selections : List Selection} (altered : r f.selections selections) :
      Alters (.fragment f) (.fragment { f with selections := selections })
  | schema {s : SchemaDefinition} : Alters (.schema s) (.schema s)
  | directive {d : DirectiveDefinition} : Alters (.directive d) (.directive d)
  | type {t : TypeDefinition} : Alters (.type t) (.type t)

def Document.Alters (d d' : Document) : Prop :=
  List.Forall₂ (Definition.Alters r) d d'

end Definitions

def Definition.mapSelections (f : List Selection → List Selection) : Definition → Definition
  | .operation o => .operation { o with selections := f o.selections }
  | .fragment g => .fragment { g with selections := f g.selections }
  | d => d

theorem Document.alters_map {d : Document} {f : List Selection → List Selection}
    (operations : ∀ o, .operation o ∈ d → r o.selections (f o.selections))
    (fragments : ∀ g, .fragment g ∈ d → r g.selections (f g.selections)) :
    d.Alters r (d.map (·.mapSelections f)) := by
  refine List.forall₂_map_right_iff.mpr (List.forall₂_same.mpr fun definition mem => ?_)
  cases definition with
  | operation o => exact .operation (operations o mem)
  | fragment g => exact .fragment (fragments g mem)
  | schema s => exact .schema
  | directive d => exact .directive
  | type t => exact .type

theorem Document.Alters.operation? {d d' : Document} (alters : d.Alters r d') :
    Option.Rel (fun o o' => o.kind = o'.kind ∧ r o.selections o'.selections) d.operation?
      d'.operation? := by
  unfold Document.operation?
  induction alters with
  | nil => exact .none
  | cons first _ ih =>
      cases first with
      | operation altered => exact .some ⟨rfl, altered⟩
      | _ => exact ih

theorem Document.Alters.fragments {d d' : Document} (alters : d.Alters r d') (name : String) :
    Option.Rel (Fragment.Alters r) ((fragmentsOf d).get? name) ((fragmentsOf d').get? name) := by
  unfold fragmentsOf
  rw [Members.get?_ofList, Members.get?_ofList]
  refine Members.rel_get? name (List.rel_reverse (List.rel_filterMap ?_ alters))
  intro definition definition' same
  cases same with
  | fragment altered => exact .some ⟨rfl, rfl, rfl, altered⟩
  | _ => exact .none

end Graphql

namespace Subgraph

theorem compileDocument_of_operations (s : Subgraph) {d d' : Document}
    (operations : Option.Rel (fun o o' => o.kind = o'.kind ∧ r o.selections o'.selections)
      d.operation? d'.operation?) :
    (s.start? d = none ∧ s.start? d' = none ∧ s.compileDocument d = s.compileDocument d') ∨
      ∃ p selections selections', s.start? d = some (p, selections) ∧
        s.start? d' = some (p, selections') ∧ r selections selections' := by
  unfold start? compileDocument
  generalize d.operation? = operation, d'.operation? = operation' at operations ⊢
  cases operations with
  | none => exact .inl ⟨rfl, rfl, rfl⟩
  | @some o o' related =>
      obtain ⟨kind, selections⟩ := related
      cases root : s.root? o'.kind with
      | none => exact .inl (by simp [kind, root])
      | some name =>
          cases parent : s.tables.parent? name with
          | none => exact .inl (by simp [kind, root, parent])
          | some p =>
              exact .inr ⟨p, _, _, by simp [kind, root, parent], by simp [root, parent], selections⟩

end Subgraph

end FederatedMock
