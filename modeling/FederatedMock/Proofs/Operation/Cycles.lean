import FederatedMock.Proofs.Operation.Collection
import FederatedMock.Proofs.Operation.Limits
import Mathlib.Logic.Relation

namespace FederatedMock

open Graphql

namespace Scope

inductive EntersBy (c : Scope) (p : Parent) : Selection → Parent × List Selection → Prop
  | applied {s : Selection} {condition : Option String} {selections : List Selection}
      (found : s.fragment? c.fragments = some (condition, selections))
      (applied : ∀ name ∈ condition, p.applies c.tables name = true) :
      EntersBy c p s (p, selections)
  | narrowed {s : Selection} {condition : String} {selections : List Selection}
      {t : CompositeType} (found : s.fragment? c.fragments = some (some condition, selections))
      (other : p.applies c.tables condition = false) (abstract : p.IsAbstract)
      (type : c.tables.fragmentType? condition = some t) : EntersBy c p s (.object t, selections)
  | field {responseName : Option String} {name : String} {arguments : List Argument}
      {directives : List Directive} {selections : List Selection} {type : TypeRef} {q : Parent}
      (plain : name ≠ typenameKey) (declared : p.field? name = some type)
      (composite : c.tables.composite? type.base = some q) :
      EntersBy c p (.field responseName name arguments directives selections) (q, selections)

def Enters (c : Scope) (a b : Parent × List Selection) : Prop :=
  ∃ s ∈ a.2, c.EntersBy a.1 s b

def Ends (c : Scope) (a : Parent × List Selection) : Prop :=
  Acc (flip c.Enters) a

theorem Ends.not_transGen {c : Scope} {a : Parent × List Selection} (ends : c.Ends a) :
    ¬ Relation.TransGen c.Enters a a := by
  induction ends with
  | intro a _ ih =>
      intro cycle
      obtain ⟨b, step, back⟩ := Relation.TransGen.head'_iff.mp cycle
      exact ih b step (Relation.TransGen.tail' back step)

theorem Ends.of_reflTransGen {c : Scope} {a b : Parent × List Selection} (ends : c.Ends a)
    (path : Relation.ReflTransGen c.Enters a b) : c.Ends b := by
  induction path with
  | refl => exact ends
  | tail _ step ih => exact ih.inv step

theorem ends_iff {c : Scope} {p : Parent} {selections : List Selection} :
    c.Ends (p, selections) ↔ ∀ s ∈ selections, ∀ b, c.EntersBy p s b → c.Ends b := by
  constructor
  · intro ends s mem b entered
    exact Acc.inv ends ⟨s, mem, entered⟩
  · intro each
    exact Acc.intro _ fun b ⟨s, mem, entered⟩ => each s mem b entered

def FieldEnds (c : Scope) (p : Parent) (f : FieldSelection) : Prop :=
  ∀ type q, f.name ≠ typenameKey → p.field? f.name = some type →
    c.tables.composite? type.base = some q → c.Ends (q, f.selections)

def FragmentEnds (c : Scope) (p : Parent) (f : ConditionalFragment) : Prop :=
  ∀ t, p.IsAbstract → c.tables.fragmentType? f.condition = some t →
    c.Ends (.object t, f.selections)

variable {c : Scope} {p : Parent}

theorem ends_of_has {l : Level} {s : Selection}
    (has : Level.Has c.fragments (p.applies c.tables) l s)
    (fields : ∀ f ∈ l.fields, c.FieldEnds p f) (fragments : ∀ f ∈ l.fragments, c.FragmentEnds p f)
    {b : Parent × List Selection} (entered : c.EntersBy p s b) : c.Ends b := by
  -- A fragment that was passed over leads where the level has been led before.
  induction has generalizing b with
  | field mem =>
      cases entered with
      | applied found => cases found
      | narrowed found => cases found
      | field plain declared composite => exact fields ⟨_, _, _⟩ mem _ _ plain declared composite
  | applied found applied each ih =>
      cases entered with
      | applied found' =>
          cases found.symm.trans found'
          exact ends_iff.mpr fun s mem b => ih s mem
      | narrowed found' other =>
          cases found.symm.trans found'
          simp [applied _ rfl] at other
      | field => cases found
  | aside found other mem =>
      cases entered with
      | applied found' applied =>
          cases found.symm.trans found'
          simp [applied _ rfl] at other
      | narrowed found' other' abstract type =>
          cases found.symm.trans found'
          exact fragments ⟨_, _⟩ mem _ abstract type
      | field => cases found

theorem ends_of_expands {selections : List Selection} {l : Level} {visits depth : Nat}
    (level : c.Expands p selections l visits depth) (fields : ∀ f ∈ l.fields, c.FieldEnds p f)
    (fragments : ∀ f ∈ l.fragments, c.FragmentEnds p f) : c.Ends (p, selections) := by
  rw [ends_iff]
  intro s mem b entered
  exact ends_of_has (level.has s mem) fields fragments entered

mutual

theorem Derives.ends {p : Parent} {selections : List Selection} {v : Shape} {visits depth : Nat} :
    c.Derives p selections v visits depth → c.Ends (p, selections)
  | .object level plain fields =>
      ends_of_expands level (fun f mem => fields.ends f (List.mem_reverse.mpr mem))
        (fun f mem t abstract => by simp [plain abstract] at mem)
  | .variants level abstract narrowed fields fragments =>
      ends_of_expands level (fun f mem => fields.ends f (List.mem_reverse.mpr mem))
        (fun f mem t abstract => fragments.ends f (List.mem_reverse.mpr mem) t)

theorem DerivesFields.ends {p : Parent} {fields : List FieldSelection}
    {entries : List (String × Shape)} {visits depth : Nat} :
    c.DerivesFields p fields entries visits depth → ∀ f ∈ fields, c.FieldEnds p f
  | .nil => fun f mem => (List.not_mem_nil mem).elim
  | .typename name others =>
      List.forall_mem_cons.mpr ⟨fun type q plain => (plain name).elim, others.ends⟩
  | .field name declared base others => by
      refine List.forall_mem_cons.mpr ⟨?_, others.ends⟩
      intro type q _ declared' composite
      cases declared.symm.trans declared'
      exact base.ends q composite

theorem DerivesNamed.ends {name : String} {f : FieldSelection} {v : Shape} {visits depth : Nat} :
    c.DerivesNamed name f v visits depth →
      ∀ q, c.tables.composite? name = some q → c.Ends (q, f.selections)
  | .scalar found => fun q composite => by simp [Tables.composite?, found] at composite
  | .enumeration custom found => fun q composite => by
      simp [Tables.composite?, custom, found] at composite
  | .composite found selected inside => by
      intro q composite
      cases found.symm.trans composite
      exact inside.ends

theorem DerivesFragments.ends {fragments : List ConditionalFragment}
    {owns : List (String × Shape.Fields)} {visits depth : Nat} :
    c.DerivesFragments fragments owns visits depth → ∀ f ∈ fragments, ∀ t,
      c.tables.fragmentType? f.condition = some t → c.Ends (.object t, f.selections)
  | .nil => fun f mem => (List.not_mem_nil mem).elim
  | .cons found inside others => by
      refine List.forall_mem_cons.mpr ⟨?_, others.ends⟩
      intro t found'
      cases found.symm.trans found'
      exact inside.ends

end

end Scope

namespace Subgraph

/-- Compilation of the document reaches a selection set that it enters again from there. Fields and
inline fragments only lead to selections within them, so it takes spreads to lead back. -/
def ReachesCycle (s : Subgraph) (d : Document) : Prop :=
  ∃ start again, s.start? d = some start ∧
    Relation.ReflTransGen (s.scope d).Enters start again ∧
    Relation.TransGen (s.scope d).Enters again again

theorem Derives.not_reachesCycle {s : Subgraph} {d : Document} {v : Shape} {visits depth : Nat}
    (derived : s.Derives d v visits depth) : ¬ s.ReachesCycle d := by
  obtain ⟨p, selections, start, derived⟩ := derived
  rintro ⟨_, again, start', path, cycle⟩
  cases start.symm.trans start'
  exact (derived.ends.of_reflTransGen path).not_transGen cycle

theorem Derives.unique {s : Subgraph} {d : Document} {v v' : Shape}
    {visits depth visits' depth' : Nat} (first : s.Derives d v visits depth)
    (second : s.Derives d v' visits' depth') : v = v' ∧ visits = visits' ∧ depth = depth' := by
  obtain ⟨p, selections, start, derived⟩ := first
  obtain ⟨q, others, start', derived'⟩ := second
  cases start.symm.trans start'
  exact derived.unique derived'

/-- Compilation ends. What it gives is the one shape that the rules give, it gives that shape
whenever it is within the limits, and it gives none if it reaches a cycle. -/
theorem compileDocument_limits (s : Subgraph) (d : Document) :
    ((∃ v visits, s.compileDocument d = .ok (v, visits)) ∨
      ∃ e, s.compileDocument d = .error e) ∧
    (∀ v visits, s.compileDocument d = .ok (v, visits) → ∃ depth, s.Derives d v visits depth ∧
      ∀ v' visits' depth', s.Derives d v' visits' depth' → v' = v) ∧
    (∀ v visits depth, s.Derives d v visits depth → visits ≤ selectionLimit →
      depth ≤ recursionLimit → s.compileDocument d = .ok (v, visits)) ∧
    (s.ReachesCycle d → ∃ e, s.compileDocument d = .error e) := by
  refine ⟨?_, ?_, ?_, ?_⟩
  · cases run : s.compileDocument d with
    | ok result => exact .inl ⟨result.1, result.2, rfl⟩
    | error e => exact .inr ⟨e, rfl⟩
  · intro v visits run
    obtain ⟨depth, derived, -, -⟩ := compileDocument_eq_ok.mp run
    exact ⟨depth, derived, fun v' visits' depth' other => (other.unique derived).1⟩
  · intro v visits depth derived limit deep
    exact compileDocument_eq_ok.mpr ⟨depth, derived, limit, deep⟩
  · intro cycle
    cases run : s.compileDocument d with
    | error e => exact ⟨e, rfl⟩
    | ok result =>
        obtain ⟨v, visits⟩ := result
        obtain ⟨depth, derived, -, -⟩ := compileDocument_eq_ok.mp run
        exact (derived.not_reachesCycle cycle).elim

def folderSchema : Document :=
  [.type ⟨false, none, "Query", [], .object [] [⟨none, "name", [], .named "String" true, []⟩,
    ⟨none, "inner", [], .named "Query" false, []⟩]⟩]

def folders : Subgraph :=
  completed folderSchema

-- `query { ...Contents }` with `fragment Contents on Query { inner { ...Contents } }`.
def nestedContents : Document :=
  [.operation ⟨.query, none, [], [], [.spread "Contents" []]⟩,
    .fragment ⟨"Contents", "Query", [], [.field none "inner" [] [] [.spread "Contents" []]]⟩]

theorem nestedContents_reachesCycle : folders.ReachesCycle nestedContents := by
  let folder : Parent := .object ⟨"Query", [], [("name", .named "String" true),
    ("inner", .named "Query" false), ("_service", .named "_Service" true)]⟩
  let contents : List Selection := [.field none "inner" [] [] [.spread "Contents" []]]
  have spread : (folders.scope nestedContents).Enters (folder, [.spread "Contents" []])
      (folder, contents) :=
    ⟨_, List.mem_singleton_self _, .applied rfl (by decide)⟩
  have inner : (folders.scope nestedContents).Enters (folder, contents)
      (folder, [.spread "Contents" []]) :=
    ⟨_, List.mem_singleton_self _, .field (by decide) rfl rfl⟩
  exact ⟨_, _, rfl, .refl, .head spread (.single inner)⟩

-- `query { inner { name } }`
def innerName : Document :=
  [.operation ⟨.query, none, [], [],
    [.field none "inner" [] [] [.field none "name" [] [] []]]⟩]

def innerNameShape : Shape :=
  .object [("inner", .nullable (.object [("name", .scalar (.string .any))]))]

theorem folders_compile_limits :
    ofDocument folderSchema = .ok folders ∧
    (folders.ReachesCycle nestedContents ∧
      ∃ e, folders.compileDocument nestedContents = .error e) ∧
    ∃ depth, (folders.Derives innerName innerNameShape 2 depth ∧ depth ≤ recursionLimit) ∧
      folders.compileDocument innerName = .ok (innerNameShape, 2) := by
  refine ⟨rfl, ⟨nestedContents_reachesCycle, ?_⟩, ?_⟩
  · exact (compileDocument_limits folders nestedContents).2.2.2 nestedContents_reachesCycle
  · obtain ⟨depth, derived, limit, deep⟩ := compileDocument_eq_ok.mp
      (rfl : folders.compileDocument innerName = .ok (innerNameShape, 2))
    exact ⟨depth, ⟨derived, deep⟩,
      (compileDocument_limits folders innerName).2.2.1 _ _ depth derived limit deep⟩

end Subgraph

end FederatedMock
