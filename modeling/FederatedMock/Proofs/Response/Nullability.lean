import FederatedMock.Proofs.Operation.Coverage
import FederatedMock.Proofs.Schema.Tables
import FederatedMock.Proofs.Shape.Places

namespace FederatedMock

open Graphql Shape Report

def Json.at? : Json → List Nat → Option Json
  | v, [] => some v
  | .array items, i :: place => items[i]?.bind (·.at? place)
  | _, _ :: _ => none

def Graphql.TypeRef.layer? : TypeRef → Nat → Option TypeRef
  | type, 0 => some type
  | .list item _, n + 1 => item.layer? n
  | .named _ _, _ + 1 => none

namespace Shape

variable {base : Shape}

theorem apply_wrap_list {item : TypeRef} {nonNull : Bool} (items : List Json) :
    (TypeRef.wrap base (.list item nonNull)).apply (some (.array items)) =
      (Shape.list (TypeRef.wrap base item)).apply (some (.array items)) := by
  cases nonNull with
  | true => rfl
  | false =>
      funext r
      rw [TypeRef.wrap, if_neg (by decide), apply]
      exact Json.noConfusion

theorem outcome_at {type layer : TypeRef} {place : List Nat} {y x : Json} (base : Shape)
    (deep : type.layer? place.length = some layer) (here : y.at? place = some x) :
    ((outcome ((TypeRef.wrap base type).apply (some y))).1.getD .null).at? place =
        some ((outcome ((TypeRef.wrap base layer).apply (some x))).1.getD .null) ∧
      issuesAt (place.map .index) (outcome ((TypeRef.wrap base type).apply (some y))).2 =
        (outcome ((TypeRef.wrap base layer).apply (some x))).2.map
          (Issue.under (place.map .index)) := by
  induction place generalizing type y with
  | nil =>
      cases type <;> cases deep <;> cases here
      all_goals
        refine ⟨rfl, ?_⟩
        rw [List.map_nil, issuesAt_nil, funext Issue.under_nil]
        exact (List.map_id _).symm
  | cons i place ih =>
      cases type with
      | named name nonNull => cases deep
      | list item nonNull =>
          cases y with
          | array items =>
              obtain ⟨v, listed, inside⟩ := Option.bind_eq_some_iff.mp here
              obtain ⟨out, issues⟩ := ih deep inside
              obtain ⟨out', issues'⟩ := outcome_items_at (TypeRef.wrap base item) listed 0
                (place.map .index)
              rw [apply_wrap_list, outcome_list]
              constructor
              · rw [Option.getD_some, Json.at?, out']
                exact out
              · rw [Nat.zero_add] at issues'
                rw [List.map_cons, issues', issues, List.map_map]
                exact congrArg (List.map · _) (funext fun i => (Issue.under_append _ _ i).symm)
          | _ => cases here

end Shape

def nullOfScalar (name : String) : Option Json :=
  match name with
  | "Int" | "Float" => some (.number .zero)
  | "Boolean" => some (.boolean false)
  | "DateTime" | "LocalTime" | "Url" => none
  | _ => some (.string "null")

theorem coerce_null_of_some {name : String} {v : Json} (given : nullOfScalar name = some v) :
    (ScalarRule.ofScalar name).coerce (some .null) = .ok v := by
  unfold nullOfScalar at given
  unfold ScalarRule.ofScalar
  split at given <;> cases given <;> try rfl
  split <;> first | rfl | simp_all

theorem coerce_null_of_none {name : String} (given : nullOfScalar name = none) :
    ∃ message, (ScalarRule.ofScalar name).coerce (some .null) = .error message := by
  unfold nullOfScalar at given
  unfold ScalarRule.ofScalar
  split at given <;> cases given
  all_goals exact ⟨_, rfl⟩

theorem coerce_none_ofScalar (name : String) :
    (ScalarRule.ofScalar name).coerce none = .error requiredMessage := by
  unfold ScalarRule.ofScalar
  split <;> rfl

def Tables.forNull (t : Tables) : TypeRef → Option Json
  | .list _ _ => none
  | .named name _ => if t.scalars.contains name then nullOfScalar name else none

structure NullRule (t : Tables) (layer : TypeRef) (s : Shape) : Prop where
  nullable : layer.isNonNull = false → ∀ r, s.apply none r = (none, r) ∧
    s.apply (some .null) r = (some .null, r)
  absent : layer.isNonNull = true → ∀ r, s.apply none r = (none, r.add "Required")
  taken : layer.isNonNull = true → ∀ v, t.forNull layer = some v →
    ∀ r, s.apply (some .null) r = (some v, r)
  rejected : layer.isNonNull = true → t.forNull layer = none →
    ∃ message, ∀ r, s.apply (some .null) r = (none, r.add message)

theorem nullRule_list (t : Tables) (item : TypeRef) (nonNull : Bool) (base : Shape) :
    NullRule t (.list item nonNull) (TypeRef.wrap base (.list item nonNull)) := by
  cases nonNull with
  | true => exact ⟨nofun, fun _ _ => rfl, nofun, fun _ _ => ⟨_, fun _ => rfl⟩⟩
  | false => exact ⟨fun _ r => ⟨rfl, rfl⟩, nofun, nofun, nofun⟩

theorem nullRule_named {t : Tables} {name : String} {nonNull : Bool} {base : Shape}
    (absent : ∀ r, base.apply none r = (none, r.add "Required"))
    (taken : ∀ v, t.forNull (.named name true) = some v →
      ∀ r, base.apply (some .null) r = (some v, r))
    (rejected : t.forNull (.named name true) = none →
      ∃ message, ∀ r, base.apply (some .null) r = (none, r.add message)) :
    NullRule t (.named name nonNull) (TypeRef.wrap base (.named name nonNull)) := by
  cases nonNull with
  | true => exact ⟨nofun, fun _ => absent, fun _ => taken, fun _ => rejected⟩
  | false => exact ⟨fun _ r => ⟨rfl, rfl⟩, nofun, nofun, nofun⟩

theorem forNull_of_no_scalar {t : Tables} {name : String} {nonNull : Bool}
    (custom : t.scalars.get? name = none) : t.forNull (.named name nonNull) = none := by
  simp [Tables.forNull, Members.contains, custom]

theorem nullRule_layer {t : Tables} {type layer : TypeRef} {base : Shape} {n : Nat}
    (named : ∀ nonNull, NullRule t (.named type.base nonNull)
      (TypeRef.wrap base (.named type.base nonNull)))
    (deep : type.layer? n = some layer) : NullRule t layer (TypeRef.wrap base layer) := by
  induction n generalizing type with
  | zero =>
      cases type with
      | named name nonNull =>
          cases deep
          exact named nonNull
      | list item nonNull =>
          cases deep
          exact nullRule_list t item nonNull base
  | succ n ih =>
      cases type with
      | named name nonNull => cases deep
      | list item nonNull =>
          have inner : ∀ nonNull, NullRule t (.named item.base nonNull)
            (TypeRef.wrap base (.named item.base nonNull)) := named
          exact ih inner deep

namespace Scope

variable {c : Scope} {p : Parent} {f : FieldSelection}

theorem DerivesNamed.nullRule {name : String} {nonNull : Bool} {base : Shape} {visits depth : Nat}
    (rules : ∀ name rule, c.tables.scalars.get? name = some rule → rule = .ofScalar name)
    (derived : c.DerivesNamed name f base visits depth) :
    NullRule c.tables (.named name nonNull) (TypeRef.wrap base (.named name nonNull)) := by
  cases derived with
  | @scalar _ _ rule found =>
      cases rules name rule found
      have forNull : c.tables.forNull (.named name true) = nullOfScalar name := by
        simp [Tables.forNull, Members.contains, found]
      refine nullRule_named (fun r => ?_) (fun v given r => ?_) fun given => ?_
      · rw [apply, coerce_none_ofScalar]
        rfl
      · rw [apply, coerce_null_of_some (forNull ▸ given)]
      · obtain ⟨message, fails⟩ := coerce_null_of_none (forNull ▸ given)
        refine ⟨message, fun r => ?_⟩
        rw [apply, fails]
  | enumeration custom found =>
      refine nullRule_named (fun r => rfl) (fun v given => ?_) fun _ => ⟨_, fun r => rfl⟩
      rw [forNull_of_no_scalar custom] at given
      cases given
  | composite found selected inside =>
      have custom := (composite?_eq_some_iff.mp found).1
      cases inside with
      | object level plain fields =>
          refine nullRule_named (fun r => rfl) (fun v given => ?_) fun _ => ⟨_, fun r => rfl⟩
          rw [forNull_of_no_scalar custom] at given
          cases given
      | variants level abstract narrowed fields fragments =>
          refine nullRule_named (fun r => rfl) (fun v given => ?_) fun _ => ⟨_, fun r => rfl⟩
          rw [forNull_of_no_scalar custom] at given
          cases given

theorem FieldCompiles.nullRule {type : TypeRef} {w : Shape}
    (rules : ∀ name rule, c.tables.scalars.get? name = some rule → rule = .ofScalar name)
    (compiled : c.FieldCompiles p f w) (declared : Declares p f type) :
    ∃ base, w = TypeRef.wrap base type ∧ ∀ n layer, type.layer? n = some layer →
      NullRule c.tables layer (TypeRef.wrap base layer) := by
  obtain ⟨plain, field⟩ := declared
  obtain ⟨type', base, visits, depth, field', derived, -, rfl⟩ :=
    (fieldCompiles_declared plain).mp compiled
  cases field.symm.trans field'
  exact ⟨base, rfl, fun n layer => nullRule_layer fun nonNull => derived.nullRule rules⟩

end Scope

/-- At that place null has come out as a value without an issue, or there is one issue, of the place
itself. -/
def TakenAt (place : List Nat) (given : Option Json) (result : Option Json × List Issue) : Prop :=
  match given with
  | some v => (result.1.getD .null).at? place = some v ∧
      issuesAt (place.map .index) result.2 = []
  | none => ∃ message, issuesAt (place.map .index) result.2 = [⟨place.map .index, message⟩]

theorem NullRule.takenAt {t : Tables} {type layer : TypeRef} {base : Shape} {place : List Nat}
    {y : Json} (rule : NullRule t layer (TypeRef.wrap base layer))
    (deep : type.layer? place.length = some layer) (here : y.at? place = some .null) :
    TakenAt place (if layer.isNonNull then t.forNull layer else some .null)
      (outcome ((TypeRef.wrap base type).apply (some y))) := by
  obtain ⟨out, issues⟩ := outcome_at base deep here
  have found (given : Option Json) (message : Option String)
      (run : ∀ r, (TypeRef.wrap base layer).apply (some .null) r =
        (given, message.elim r r.add)) :
      outcome ((TypeRef.wrap base layer).apply (some .null)) =
        (given, message.elim [] fun m => [⟨[], m⟩]) := by
    rw [outcome, run]
    cases message <;> rfl
  cases strict : layer.isNonNull with
  | false =>
      rw [found (some .null) none fun r => ((rule.nullable strict) r).2] at out issues
      exact ⟨out, issues⟩
  | true =>
      cases given : t.forNull layer with
      | some v =>
          rw [found (some v) none (rule.taken strict v given)] at out issues
          rw [if_pos rfl]
          exact ⟨out, issues⟩
      | none =>
          obtain ⟨message, rejected⟩ := rule.rejected strict given
          rw [found none (some message) rejected] at issues
          refine ⟨message, issues.trans ?_⟩
          simp [Issue.under]

namespace Subgraph

/-- Null and absence follow the declared type of a field: at each of its layers, at each place in a
value of it, as deep in lists as the layer is, and for each object that has the field. -/
theorem fieldCompiles_null {schema d : Document} {s : Subgraph} {p : Parent} {f : FieldSelection}
    {type : TypeRef} {w : Shape} (valid : ofDocument schema = .ok s)
    (compiled : (s.scope d).FieldCompiles p f w) (declared : Scope.Declares p f type) :
    (∃ base, w = TypeRef.wrap base type ∧ ∀ n layer, type.layer? n = some layer →
      NullRule s.tables layer (TypeRef.wrap base layer)) ∧
    (∀ place layer y, type.layer? place.length = some layer → y.at? place = some .null →
      TakenAt place (if layer.isNonNull then s.tables.forNull layer else some .null)
        (outcome (w.apply (some y)))) ∧
    ∀ fields members, (Members.keys fields).Nodup → Members.get? f.key fields = some w →
      Members.get? f.key members = none →
        Members.get? f.key (outcome (applyFields fields members)).1 = none ∧
        issuesAt [.key f.key] (outcome (applyFields fields members)).2 =
          if type.isNonNull then [⟨[.key f.key], "Required"⟩] else [] := by
  have rules : ∀ name rule, s.tables.scalars.get? name = some rule → rule = .ofScalar name := by
    intro name rule found
    rw [eq_completed valid] at found
    have known := (scalar_of_document _ name).symm.trans found
    split at known
    · exact (Option.some.inj known).symm
    · cases known
  obtain ⟨base, rfl, each⟩ := Scope.FieldCompiles.nullRule rules compiled declared
  refine ⟨⟨base, rfl, each⟩, ?_, ?_⟩
  · intro place layer y deep here
    exact (each _ layer deep).takenAt deep here
  · intro fields members distinct found missing
    have rule := each 0 type (by cases type <;> rfl)
    obtain ⟨out, issues⟩ := outcome_fields_at distinct found members []
    rw [missing] at out issues
    rw [out, issues, issuesAt_nil]
    cases strict : type.isNonNull with
    | false =>
        rw [outcome, (rule.nullable strict _).1]
        exact ⟨rfl, rfl⟩
    | true =>
        rw [outcome, rule.absent strict]
        exact ⟨rfl, rfl⟩

def gridSchema : Document :=
  [.type ⟨false, none, "Query", [], .object []
    [⟨none, "grid", [], .list (.list (.named "Int" true) false) true, []⟩]⟩]

def grids : Subgraph :=
  completed gridSchema

def gridQuery : Parent :=
  .object ⟨"Query", [], [("grid", .list (.list (.named "Int" true) false) true),
    ("_service", .named "_Service" true)]⟩

def gridField : FieldSelection := ⟨none, "grid", []⟩

def gridShape : Shape := .list (.nullable (.list (.scalar .number)))

def gappedGrid : Json := .array [.null, .array [.string "1", .null]]

theorem gappedGrid_null :
    ofDocument gridSchema = .ok grids ∧
    grids.tables.parent? "Query" = some gridQuery ∧
    (grids.scope []).FieldCompiles gridQuery gridField gridShape ∧
    Scope.Declares gridQuery gridField (.list (.list (.named "Int" true) false) true) ∧
    TakenAt [0] (some .null) (outcome (gridShape.apply (some gappedGrid))) ∧
    TakenAt [1, 1] (some (.number .zero)) (outcome (gridShape.apply (some gappedGrid))) ∧
    TakenAt [] none (outcome (gridShape.apply (some .null))) ∧
    issuesAt [.key "grid"] (outcome (applyFields [("grid", gridShape)] [])).2 =
      [⟨[.key "grid"], "Required"⟩] := by
  have valid : ofDocument gridSchema = .ok grids := rfl
  have compiled : (grids.scope []).FieldCompiles gridQuery gridField gridShape := ⟨1, 0, rfl⟩
  have declared : Scope.Declares gridQuery gridField
      (.list (.list (.named "Int" true) false) true) := ⟨by decide, rfl⟩
  obtain ⟨-, places, absent⟩ := fieldCompiles_null valid compiled declared
  exact ⟨valid, rfl, compiled, declared, places [0] _ gappedGrid rfl rfl,
    places [1, 1] _ gappedGrid rfl rfl, places [] _ .null rfl rfl,
    (absent [("grid", gridShape)] [] (by decide) rfl rfl).2⟩

end Subgraph

end FederatedMock
