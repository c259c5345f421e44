import FederatedMock.Proofs.Generation.Correction
import FederatedMock.Proofs.Response.Soundness

namespace FederatedMock

open Graphql Shape

theorem isWordSized_one : IsWordSized (1 : Nat) := by decide

variable {σ : Type}

def Json.IsEnvelope (v : Json) : Prop :=
  ∃ data, v.get? dataKey = some data ∧ data ≠ .null

theorem unwrapData_of_get? {v data : Json} (found : v.get? dataKey = some data)
    (notNull : data ≠ .null) : unwrapData v = data := by
  cases v with
  | object members =>
      have present : data.isNull = false := by
        cases data with
        | null => exact (notNull rfl).elim
        | _ => rfl
      have found : Members.get? dataKey members = some data := found
      simp [unwrapData, found, present]
  | _ => cases found

theorem unwrapData_of_not_isEnvelope {v : Json} (bare : ¬ v.IsEnvelope) : unwrapData v = v := by
  cases v with
  | object members =>
      cases found : Members.get? dataKey members with
      | none => simp [unwrapData, found]
      | some data =>
          have null : data = .null := Classical.not_not.mp fun notNull => bare ⟨data, found, notNull⟩
          simp [unwrapData, found, null, Json.isNull]
  | _ => rfl

namespace Shape

theorem Coerces.object_out {s : Shape} {value : Option Json} {outs : Members Json} :
    Coerces s value (some (.object outs)) →
      ∃ fields members, value = some (.object members) ∧ FieldsCoerce fields members outs
  | .present _ inside => inside.object_out
  | @Coerces.scalar rule _ _ coerced => by
      cases rule <;> cases ScalarRule.admits_coerce coerced
  | .object each => ⟨_, _, rfl, each⟩
  | .variant _ _ each => ⟨_, _, rfl, each⟩

/-- No value is a member of what a shape makes of it, since that member would be made of a member
of the value that is smaller, and so on without end. -/
theorem Coerces.get?_ne {s : Shape} {x y : Json} (taken : Coerces s (some x) (some y))
    (key : String) : y.get? key ≠ some x := by
  intro found
  induction size : sizeOf x using Nat.strongRecOn generalizing s x y with
  | ind n smaller =>
      cases y with
      | object outs =>
          obtain ⟨fields, members, same, each⟩ := taken.object_out
          cases Option.some.inj same
          obtain ⟨s', -, inside⟩ := each.exists_field (Members.mem_of_get? found)
          obtain ⟨-, inner, given, -⟩ := inside.object_out
          rw [given] at inside
          have less : sizeOf (Json.object inner) < n := by
            have below := Members.sizeOf_lt_of_get? given
            rw [← size, Json.object.sizeOf_spec members]
            omega
          exact smaller _ less inside given rfl
      | _ => cases found

end Shape

def AcceptedAtOnce (shape : Shape) (g : Generator σ) (s : σ) (value data : Json) : Prop :=
  correct shape value g s = (⟨data, .accepted, 0⟩, s) ∧
    correct shape value g.noting (s, []) = (⟨data, .accepted, 0⟩, s, [])

theorem acceptedAtOnce_iff {shape : Shape} {g : Generator σ} {s : σ} {value data : Json} :
    AcceptedAtOnce shape g s value data ↔ shape.validate (unwrapData value) = .ok data := by
  constructor
  · rintro ⟨-, noted⟩
    obtain ⟨data', outcome, asked, s', rounds⟩ := exists_rounds shape g 1 (unwrapData value) s
    obtain ⟨-, noted'⟩ := rounds.correctFrom_eq 0 []
    obtain ⟨same, rest⟩ := Prod.mk.inj (noted.symm.trans noted')
    obtain ⟨rfl, -, -⟩ := Correction.mk.inj same
    cases rest
    exact rounds.truthful.data_of_unasked rfl
  · exact fun valid =>
      ⟨correctFrom_of_valid _ _ valid, correctFrom_of_valid _ _ valid⟩

namespace Subgraph

def SelectsAtRoot (s : Subgraph) (d : Document) (key : String) : Prop :=
  ∃ p selections condition q f, s.start? d = some (p, selections) ∧
    (s.scope d).Selects p selections condition q f ∧ f.key = key

section

variable {s : Subgraph} {d : Document} {v : Shape} {visits : Nat} {x y : Json}

theorem Answers.isObject (answers : s.Answers d y) : ∃ members, y = .object members := by
  obtain ⟨p, selections, start, answers⟩ := answers
  cases answers
  exact ⟨_, rfl⟩

theorem Answers.selectsAtRoot (answers : s.Answers d y) {key : String} {w : Json}
    (found : y.get? key = some w) (other : key ≠ typenameKey) : s.SelectsAtRoot d key := by
  obtain ⟨p, selections, start, answers⟩ := answers
  cases answers with
  | object matched each present =>
      cases each _ (Members.mem_of_get? found) with
      | field selected declared fits => exact ⟨p, selections, _, _, _, start, selected, rfl⟩
      | typename selected field possible => exact ⟨p, selections, _, _, _, start, selected, rfl⟩
      | discriminator => exact (other rfl).elim

theorem answers_of_validate (compiled : s.compileDocument d = .ok (v, visits))
    (valid : v.validate x = .ok y) : s.Answers d y := by
  obtain ⟨depth, ⟨p, selections, start, derived⟩, -⟩ := compileDocument_eq_ok.mp compiled
  exact ⟨p, selections, start, derived.answers _ _ (validate_eq_ok_iff.mp valid)⟩

end

/-- Valid data of an operation is accepted at once in an envelope, and without one exactly if it is
not taken for an envelope, which takes a root field that is selected under that key. -/
theorem valid_acceptedAtOnce {s : Subgraph} {d : Document} {v : Shape} {visits : Nat} {y : Json}
    (compiled : s.compileDocument d = .ok (v, visits)) (valid : v.validate y = .ok y)
    (g : Generator σ) (state : σ) :
    AcceptedAtOnce v g state (.object [(dataKey, y)]) y ∧
      (AcceptedAtOnce v g state y y ↔ ¬ y.IsEnvelope) ∧
      (y.IsEnvelope → s.SelectsAtRoot d dataKey) := by
  have answers := answers_of_validate compiled valid
  obtain ⟨members, object⟩ := answers.isObject
  have notNull : y ≠ .null := by simp [object]
  have enveloped : unwrapData (.object [(dataKey, y)]) = y := unwrapData_of_get? rfl notNull
  refine ⟨acceptedAtOnce_iff.mpr (by rw [enveloped, valid]), ⟨?_, ?_⟩, ?_⟩
  · rintro accepted ⟨data, found, present⟩
    have valid' := acceptedAtOnce_iff.mp accepted
    rw [unwrapData_of_get? found present] at valid'
    exact (validate_eq_ok_iff.mp valid').get?_ne dataKey found
  · intro bare
    exact acceptedAtOnce_iff.mpr (by rw [unwrapData_of_not_isEnvelope bare, valid])
  · rintro ⟨data, found, -⟩
    exact answers.selectsAtRoot found (by decide)

-- `type Query { data: Shelf! }  type Shelf { size: Int! }`
def depotSchema : Document :=
  [.type ⟨false, none, "Query", [], .object [] [⟨none, "data", [], .named "Shelf" true, []⟩]⟩,
    .type ⟨false, none, "Shelf", [], .object [] [⟨none, "size", [], .named "Int" true, []⟩]⟩]

def depot : Subgraph :=
  completed depotSchema

def depotQuery (alias? : Option String) : Document :=
  [.operation ⟨.query, none, [], [],
    [.field alias? "data" [] [] [.field none "size" [] [] []]]⟩]

def depotShape (key : String) : Shape :=
  .object [(key, .object [("size", .scalar .number)])]

def depotData (key : String) : Json :=
  .object [(key, .object [("size", .ofNat 1 isWordSized_one)])]

theorem aliasedData_acceptedAtOnce :
    depot.compileDocument (depotQuery (some "shelf")) = .ok (depotShape "shelf", 2) ∧
      (depotShape "shelf").validate (depotData "shelf") = .ok (depotData "shelf") ∧
      AcceptedAtOnce (depotShape "shelf") Script.generator ⟨[], []⟩ (depotData "shelf")
        (depotData "shelf") := by
  have compiled : depot.compileDocument (depotQuery (some "shelf")) =
      .ok (depotShape "shelf", 2) := rfl
  have valid : (depotShape "shelf").validate (depotData "shelf") = .ok (depotData "shelf") := rfl
  obtain ⟨-, bare, -⟩ := valid_acceptedAtOnce compiled valid Script.generator ⟨[], []⟩
  refine ⟨compiled, valid, bare.mpr ?_⟩
  rintro ⟨data, found, -⟩
  cases found

theorem selectedData_not_acceptedAtOnce :
    ofDocument depotSchema = .ok depot ∧
      depot.compileDocument (depotQuery none) = .ok (depotShape "data", 2) ∧
      (depotShape "data").validate (depotData "data") = .ok (depotData "data") ∧
      (correct (depotShape "data") (depotData "data") Script.generator ⟨[], []⟩).1 =
        ⟨.object [("size", .ofNat 1)], .generationFailed, 1⟩ :=
  ⟨rfl, rfl, rfl, rfl⟩

end Subgraph

end FederatedMock
