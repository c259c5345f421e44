import FederatedMock.Proofs.Operation.Failures
import FederatedMock.Proofs.Operation.Reserved

namespace FederatedMock

open Graphql Shape

def Shape.KeysIn (K : String → Prop) : Shape → Prop
  | .object fields => ∀ f ∈ fields, K f.1
  | .variants choices => ∀ choice ∈ choices, ∀ f ∈ choice.2, K f.1
  | _ => True

def Graphql.Selection.KeyIn (K : String → Prop) : Selection → Prop
  | .field responseName name _ _ _ => K (responseKey responseName name)
  | _ => True

namespace Scope

variable {c : Scope} {p : Parent} {selections : List Selection} {K : String → Prop}

structure Keyed (K : String → Prop) (c : Scope) : Prop where
  typename : K typenameKey
  named : ∀ name f, c.fragments.get? name = some f → AllWithin (Selection.KeyIn K) f.selections

def KeyedFields (K : String → Prop) (fields : List FieldSelection) : Prop :=
  ∀ f ∈ fields, K f.key ∧ AllWithin (Selection.KeyIn K) f.selections

theorem Keyed.fields {l : Level} {visits depth : Nat} (keyed : c.Keyed K)
    (level : c.Expands p selections l visits depth)
    (all : AllWithin (Selection.KeyIn K) selections) : KeyedFields K l.fields.reverse := by
  intro f listed
  obtain ⟨arguments, directives, holds⟩ := level.mem_fields.mp listed
  exact allWithin_field.mp (holds.allWithin all keyed.named)

theorem Keyed.fragments {l : Level} {visits depth : Nat} (keyed : c.Keyed K)
    (level : c.Expands p selections l visits depth)
    (all : AllWithin (Selection.KeyIn K) selections) :
    ∀ f ∈ l.fragments.reverse, AllWithin (Selection.KeyIn K) f.selections := by
  intro f listed
  obtain ⟨s, holds, found, -⟩ := level.mem_fragments.mp listed
  exact (holds.allWithin all keyed.named).fragment found keyed.named

theorem DerivesFields.keysIn {fields : List FieldSelection} {entries : List (String × Shape)}
    {visits depth : Nat} (derived : c.DerivesFields p fields entries visits depth)
    (keyed : KeyedFields K fields) : ∀ e ∈ entries, K e.1 := by
  intro e mem
  obtain ⟨f, listed, same, -⟩ := derived.entry e mem
  exact same ▸ (keyed f listed).1

theorem Derives.keysIn (keyed : c.Keyed K) {v : Shape} {visits depth : Nat}
    (derived : c.Derives p selections v visits depth)
    (all : AllWithin (Selection.KeyIn K) selections) : v.KeysIn K := by
  cases derived with
  | object level plain fields =>
      have keys := fields.keysIn (keyed.fields level all)
      exact fun e mem => keys e (Members.mem_ofList mem)
  | variants level abstract narrowed fields fragments =>
      intro choice chosen e mem
      rcases (variantOf_of_mem chosen).sound e mem with rfl | ⟨shared, -⟩ | ⟨own, known, mine⟩
      · exact keyed.typename
      · have keys := fields.keysIn (keyed.fields level all)
        exact keys e (Members.mem_ofList (Parent.mem_of_shared shared))
      · obtain ⟨g, listed, -, t, _, _, -, inside⟩ := fragments.own _ known
        cases inside with
        | object level' plain fields' =>
            have keys := fields'.keysIn (keyed.fields level' (keyed.fragments level all g listed))
            exact keys e (Members.mem_ofList mine)

end Scope

namespace Subgraph

theorem compileDocument_keysIn {K : String → Prop} {s : Subgraph} {d : Document} {v : Shape}
    {visits : Nat} (typename : K typenameKey) (each : ∀ t, d.Has t → t.KeyIn K)
    (compiled : s.compileDocument d = .ok (v, visits)) : v.Everywhere (KeysIn K) := by
  obtain ⟨depth, ⟨p, selections, start, derived⟩, -⟩ := compileDocument_eq_ok.mp compiled
  have named (name : String) (f : Fragment) (found : (fragmentsOf d).get? name = some f) :
      AllWithin (Selection.KeyIn K) f.selections :=
    fun t within => each t (allWithin_has_fragment name f found t within)
  intro t part
  cases derived.part part with
  | set path inside =>
      have reached : s.Reaches d _ := ⟨_, start, path⟩
      exact inside.keysIn ⟨typename, named⟩ fun t within => each t (reached.allWithin t within)
  | @typename a => cases a.1 <;> trivial
  | _ => trivial

end Subgraph

end FederatedMock
