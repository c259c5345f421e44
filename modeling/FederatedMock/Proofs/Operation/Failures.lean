import FederatedMock.Proofs.Operation.Coverage
import FederatedMock.Proofs.Operation.Reserved

namespace FederatedMock

open Graphql

namespace Compiling

variable {α β : Type} {e : OperationError} {k : Nat}

theorem bind_eq_error {x : Compiling α} {f : α → Compiling β} :
    (x >>= f) k = .error e ↔
      x k = .error e ∨ ∃ a j, x k = .ok (a, j) ∧ f a j = .error e := by
  change (x k >>= fun result => f result.1 result.2) = _ ↔ _
  cases h : x k with
  | error e' => simp [bind, Except.bind]
  | ok result =>
      obtain ⟨a, j⟩ := result
      simp [bind, Except.bind, and_assoc]

theorem pure_eq_error {a : α} : (pure a : Compiling α) k = .error e ↔ False := by
  change Except.ok (a, k) = .error e ↔ _
  simp

theorem throw_eq_error {e' : OperationError} :
    (throw e' : Compiling α) k = .error e ↔ e' = e := by
  change Except.error e' = (.error e : Except OperationError (α × Nat)) ↔ _
  simp

theorem map_eq_error {x : Compiling α} {f : α → β} :
    (f <$> x) k = .error e ↔ x k = .error e := by
  rw [← bind_pure_comp, bind_eq_error]
  simp [pure_eq_error]

theorem countSelection_eq_error :
    countSelection k = .error e ↔ e = .selectionLimitExceeded ∧ selectionLimit ≤ k := by
  rw [countSelection_apply]
  split <;> simp [eq_comm] <;> omega

theorem foldlM_error {step : β → α → Compiling β} {items : List α} {b : β} (I : Nat → Prop)
    (keeps : ∀ b x j b' j', I j → step b x j = .ok (b', j') → I j') (start : I k)
    (failed : items.foldlM step b k = .error e) :
    ∃ x ∈ items, ∃ b' j, I j ∧ step b' x j = .error e := by
  induction items generalizing b k with
  | nil => exact (pure_eq_error.mp failed).elim
  | cons x rest ih =>
      rw [List.foldlM_cons, bind_eq_error] at failed
      obtain here | ⟨b', j, stepped, later⟩ := failed
      · exact ⟨x, List.mem_cons_self, b, k, start, here⟩
      · obtain ⟨y, listed, found⟩ := ih (keeps _ _ _ _ _ start stepped) later
        exact ⟨y, List.mem_cons_of_mem _ listed, found⟩

end Compiling

def OperationError.IsLimit (e : OperationError) : Prop :=
  e = .recursionLimitExceeded ∨ e = .selectionLimitExceeded

namespace Level

open Compiling

variable {fragments : Members Fragment} {applies : String → Bool}
  {inner : List Selection → Level → Compiling Level} {l : Level} {s : Selection}
  {selections : List Selection} {e : OperationError} {k : Nat}

theorem add_error (failed : add fragments applies inner l s k = .error e) :
    e.IsLimit ∨ (∃ name directives, s = .spread name directives ∧ fragments.get? name = none ∧
      e = .unknownFragment name) ∨
    ∃ condition selections, s.fragment? fragments = some (condition, selections) ∧
      (∀ name ∈ condition, applies name = true) ∧ ∃ l' j, inner selections l' j = .error e := by
  cases found : s.fragment? fragments with
  | some f =>
      obtain ⟨condition, selections⟩ := f
      rw [add_fragment found, bind_eq_error] at failed
      obtain counted | ⟨-, j, -, failed⟩ := failed
      · exact .inl (.inr (countSelection_eq_error.mp counted).1)
      split at failed
      · exact (pure_eq_error.mp failed).elim
      · rw [map_eq_error] at failed
        by_cases applied : ∀ name ∈ condition, applies name = true
        · rw [enter_of_applied applied] at failed
          exact .inr (.inr ⟨condition, selections, rfl, applied, _, _, failed⟩)
        · cases condition with
          | none => exact (applied (by simp)).elim
          | some condition =>
              rw [enter_of_other (by simpa using applied), pure_eq_error] at failed
              exact failed.elim
  | none =>
      cases s with
      | inline condition directives selections => cases found
      | field responseName name arguments directives selections =>
          simp only [add, bind_eq_error, pure_eq_error, and_false, exists_false, or_false,
            countSelection_eq_error] at failed
          exact .inl (.inr failed.1)
      | spread name directives =>
          have missing : fragments.get? name = none := Option.map_eq_none_iff.mp found
          simp only [add, missing, bind_eq_error, throw_eq_error, countSelection_eq_error] at failed
          obtain ⟨counted, -⟩ | ⟨-, -, -, unknown⟩ := failed
          · exact .inl (.inr counted)
          · exact .inr (.inl ⟨name, directives, rfl, missing, unknown.symm⟩)

theorem expand_error {levels : Nat} {whole : List Selection}
    (held : ∀ s ∈ selections, Holds fragments applies whole s)
    (failed : expand fragments applies levels selections l k = .error e) :
    e.IsLimit ∨ ∃ name directives, Holds fragments applies whole (.spread name directives) ∧
      fragments.get? name = none ∧ e = .unknownFragment name := by
  induction levels generalizing selections l k with
  | zero => exact .inl (.inl (throw_eq_error.mp failed).symm)
  | succ levels ih =>
      obtain ⟨s, listed, l', j, -, added⟩ :=
        foldlM_error (fun _ => True) (fun _ _ _ _ _ _ _ => trivial) trivial failed
      obtain limit | ⟨name, directives, rfl, missing, unknown⟩ |
        ⟨condition, inner, found, applied, l'', j', inside⟩ := add_error added
      · exact .inl limit
      · exact .inr ⟨name, directives, held _ listed, missing, unknown⟩
      · exact ih (fun t mem => .within (held s listed) found applied mem) inside

end Level

def Parent.name : Parent → String
  | .object t => t.name
  | .interface t => t.name
  | .union u => u.name

namespace Scope

open Compiling

inductive FailsBy (c : Scope) (p : Parent) : Selection → OperationError → Prop
  | unknown {name : String} {directives : List Directive} (missing : c.fragments.get? name = none) :
      FailsBy c p (.spread name directives) (.unknownFragment name)
  | undeclared {responseName : Option String} {name : String} {arguments : List Argument}
      {directives : List Directive} {selections : List Selection} (plain : name ≠ typenameKey)
      (undeclared : p.field? name = none) :
      FailsBy c p (.field responseName name arguments directives selections)
        (.unknownField p.name name)
  | unresolved {responseName : Option String} {name : String} {arguments : List Argument}
      {directives : List Directive} {selections : List Selection} {type : TypeRef}
      (plain : name ≠ typenameKey) (declared : p.field? name = some type)
      (missing : c.tables.parent? type.base = none) :
      FailsBy c p (.field responseName name arguments directives selections)
        (.unresolvedType type.base)
  | unselected {responseName : Option String} {name : String} {arguments : List Argument}
      {directives : List Directive} {type : TypeRef} {q : Parent}
      (plain : name ≠ typenameKey) (declared : p.field? name = some type)
      (composite : c.tables.composite? type.base = some q) :
      FailsBy c p (.field responseName name arguments directives [])
        (.missingSelectionSet type.base name)
  | narrowed {s : Selection} {condition : String} {selections : List Selection}
      (found : s.fragment? c.fragments = some (some condition, selections))
      (other : p.applies c.tables condition = false) (abstract : p.IsAbstract)
      (missing : c.tables.fragmentType? condition = none) :
      FailsBy c p s (.unresolvedType condition)

def Fails (c : Scope) (a : Parent × List Selection) (e : OperationError) : Prop :=
  ∃ b, Relation.ReflTransGen c.Enters a b ∧ ∃ s ∈ b.2, c.FailsBy b.1 s e

variable {c : Scope} {p : Parent} {selections : List Selection} {nested : Nested}
  {e : OperationError} {levels k : Nat}

theorem Fails.of_enters {a b : Parent × List Selection} (fails : c.Fails b e)
    (path : Relation.ReflTransGen c.Enters a b) : c.Fails a e := by
  obtain ⟨b', reached, found⟩ := fails
  exact ⟨b', path.trans reached, found⟩

theorem fails_of_holds {s : Selection}
    (holds : Level.Holds c.fragments (p.applies c.tables) selections s)
    (fails : c.FailsBy p s e) : c.Fails (p, selections) e := by
  obtain ⟨inner, reached, listed⟩ := enters_of_holds holds
  exact ⟨_, reached, s, listed, fails⟩

def Nested.Reasons (c : Scope) (nested : Nested) : Prop :=
  ∀ {p : Parent} {selections : List Selection} {k : Nat} {e : OperationError},
    k ≤ selectionLimit → nested p selections k = .error e →
      e.IsLimit ∨ c.Fails (p, selections) e

theorem namedShape_error (reasons : nested.Reasons c) (below : k ≤ selectionLimit) {name : String}
    {f : FieldSelection} (failed : c.namedShape nested name f k = .error e) :
    (e = .unresolvedType name ∧ c.tables.parent? name = none) ∨
    ∃ q, c.tables.composite? name = some q ∧
      ((e = .missingSelectionSet name f.name ∧ f.selections = []) ∨
        e.IsLimit ∨ c.Fails (q, f.selections) e) := by
  unfold namedShape at failed
  cases scalar : c.tables.scalars.get? name with
  | some rule => simp only [scalar, pure_eq_error] at failed
  | none =>
      cases enum : c.tables.enums.get? name with
      | some values => simp only [scalar, enum, pure_eq_error] at failed
      | none =>
          cases parent : c.tables.parent? name with
          | none =>
              simp only [scalar, enum, parent, throw_eq_error] at failed
              exact .inl ⟨failed.symm, rfl⟩
          | some q =>
              have composite := composite?_eq_some_iff.mpr ⟨scalar, enum, parent⟩
              simp only [scalar, enum, parent] at failed
              split at failed
              · rename_i empty
                rw [throw_eq_error] at failed
                exact .inr ⟨q, composite, .inl ⟨failed.symm, List.isEmpty_iff.mp empty⟩⟩
              · exact .inr ⟨q, composite, .inr (reasons below failed)⟩

theorem fieldShape_error (reasons : nested.Reasons c) (below : k ≤ selectionLimit)
    {f : FieldSelection} (failed : c.selectedShape nested p f k = .error e)
    (has : c.HasField p selections f) : e.IsLimit ∨ c.Fails (p, selections) e := by
  by_cases plain : f.name = typenameKey
  · rw [selectedShape_typename plain, pure_eq_error] at failed
    exact failed.elim
  obtain ⟨arguments, directives, holds⟩ := has
  cases declared : p.field? f.name with
  | none =>
      have unknown : e = .unknownField p.name f.name := by
        cases p <;> simp_all [selectedShape, fieldShape, Parent.field?, Parent.name, throw_eq_error]
      subst unknown
      exact .inr (fails_of_holds holds (.undeclared plain declared))
  | some type =>
      have inside : c.namedShape nested type.base f k = .error e := by
        cases p <;> simp_all [selectedShape, fieldShape, Parent.field?, map_eq_error]
      obtain ⟨rfl, missing⟩ | ⟨q, composite, ⟨rfl, empty⟩ | rest⟩ :=
        namedShape_error reasons below inside
      · exact .inr (fails_of_holds holds (.unresolved plain declared missing))
      · rw [empty] at holds
        exact .inr (fails_of_holds holds (.unselected plain declared composite))
      · refine rest.imp_right fun fails => fails.of_enters ?_
        exact reaches_of_holds holds (.field plain declared composite)

theorem selectedShape_below (agrees : nested.Agrees c levels) (below : k ≤ selectionLimit)
    {f : FieldSelection} {s : Shape} {k' : Nat}
    (run : c.selectedShape nested p f k = .ok (s, k')) : k' ≤ selectionLimit := by
  by_cases plain : f.name = typenameKey
  · rw [selectedShape_typename plain, pure_eq_ok] at run
    exact run.2 ▸ below
  · obtain ⟨type, base, declared, named, rfl⟩ := (selectedShape_eq_ok plain).mp run
    obtain ⟨visits, depth, derived, deep, count, limit⟩ := namedShape_ok agrees below named
    exact limit

theorem levelShapes_error (agrees : nested.Agrees c levels) (reasons : nested.Reasons c)
    (below : k ≤ selectionLimit) {fields : List FieldSelection} {out : Shape.Fields}
    (failed : c.levelShapes nested p fields out k = .error e)
    (has : ∀ f ∈ fields, c.HasField p selections f) :
    e.IsLimit ∨ c.Fails (p, selections) e := by
  unfold levelShapes at failed
  obtain ⟨f, listed, out', j, below', step⟩ := foldlM_error (· ≤ selectionLimit) (by
    intro out f j out' j' below' step
    obtain ⟨s, i, run, step⟩ := bind_eq_ok.mp step
    obtain ⟨-, rfl⟩ := pure_eq_ok.mp step
    exact selectedShape_below agrees below' run) below failed
  obtain here | ⟨s, i, -, step⟩ := bind_eq_error.mp step
  · exact fieldShape_error reasons below' here (has f listed)
  · exact (pure_eq_error.mp step).elim

theorem fragmentShapes_error (reasons : nested.Reasons c) (below : k ≤ selectionLimit)
    {g : ConditionalFragment} (abstract : p.IsAbstract)
    (failed : c.fragmentShapes nested g k = .error e) (has : c.HasFragment p selections g) :
    e.IsLimit ∨ c.Fails (p, selections) e := by
  unfold fragmentShapes at failed
  cases type : c.tables.fragmentType? g.condition with
  | none =>
      simp only [type, throw_eq_error] at failed
      subst failed
      obtain ⟨s, holds, found, other⟩ := has
      exact .inr (fails_of_holds holds (.narrowed found other abstract type))
  | some t =>
      simp only [type, bind_eq_error] at failed
      obtain inside | ⟨v, j, -, rest⟩ := failed
      · refine (reasons below inside).imp_right fun fails => fails.of_enters ?_
        exact reaches_fragment abstract has type
      · split at rest <;> exact (pure_eq_error.mp rest).elim

theorem choices_error (agrees : nested.Agrees c levels) (reasons : nested.Reasons c)
    (below : k ≤ selectionLimit) {shared : Shape.Fields} {fragments : List ConditionalFragment}
    {out : Shape.Variants} (abstract : p.IsAbstract)
    (failed : c.choices nested shared fragments out k = .error e)
    (has : ∀ g ∈ fragments, c.HasFragment p selections g) :
    e.IsLimit ∨ c.Fails (p, selections) e := by
  unfold choices at failed
  obtain ⟨g, listed, out', j, below', step⟩ := foldlM_error (· ≤ selectionLimit) (by
    intro out g j out' j' below' step
    obtain ⟨own, i, run, step⟩ := bind_eq_ok.mp step
    obtain ⟨-, rfl⟩ := pure_eq_ok.mp step
    obtain ⟨t, type, visits, depth, derived, deep, count, limit⟩ :=
      fragmentShapes_ok agrees below' run
    exact limit) below failed
  obtain here | ⟨own, i, -, step⟩ := bind_eq_error.mp step
  · exact fragmentShapes_error reasons below' abstract here (has g listed)
  · exact (pure_eq_error.mp step).elim

theorem selectionShape_fails (c : Scope) (levels : Nat) :
    Nested.Reasons c (c.selectionShape levels) := by
  induction levels with
  | zero =>
      intro p selections k e below failed
      exact .inl (.inl (throw_eq_error.mp failed).symm)
  | succ levels reasons =>
      intro p selections k e below failed
      have agrees : Nested.Agrees c (c.selectionShape levels) levels :=
        c.selectionShape_agrees levels
      rw [selectionShape_succ, bind_eq_error] at failed
      obtain failed | ⟨l, k₁, expanded, failed⟩ := failed
      · obtain limit | ⟨name, directives, holds, missing, rfl⟩ :=
          Level.expand_error (fun s mem => .here mem) failed
        · exact .inl limit
        · exact .inr (fails_of_holds holds (.unknown missing))
      obtain ⟨visits, depth, level, deep, -, below₁⟩ := (Level.expand_eq_ok below).mp expanded
      have fields : ∀ f ∈ l.fields.reverse, c.HasField p selections f :=
        fun f listed => Expands.mem_fields level |>.mp listed
      have fragments : ∀ g ∈ l.fragments.reverse, c.HasFragment p selections g :=
        fun g listed => Expands.mem_fragments level |>.mp listed
      rw [bind_eq_error] at failed
      obtain failed | ⟨shared, k₂, selected, failed⟩ := failed
      · exact levelShapes_error agrees reasons below₁ failed fields
      obtain ⟨entries, ⟨-, -, -, -, -, below₂⟩, -⟩ := levelShapes_ok agrees below₁ selected
      by_cases plain : p.IsAbstract → l.fragments = []
      · rw [assemble_plain (by simpa using plain), pure_eq_error] at failed
        exact failed.elim
      · obtain ⟨abstract, narrowed⟩ := Classical.not_imp.mp plain
        rw [assemble_narrowed abstract (by simpa using narrowed), map_eq_error] at failed
        exact choices_error agrees reasons below₂ abstract failed fragments

end Scope

/-- The parent is a type of the tables. Fragments take interfaces for objects. -/
def Parent.IsType (tables : Tables) : Parent → Prop
  | .object t => tables.objects.get? t.name = some t ∨ tables.interfaces.get? t.name = some t
  | .interface t => tables.interfaces.get? t.name = some t
  | .union u => tables.unions.get? u.name = some u

namespace Tables

variable {t : Tables} {name : String}

theorem WellNamed.parent (named : t.WellNamed) {p : Parent} (found : t.parent? name = some p) :
    p.name = name ∧ p.IsType t := by
  unfold parent? at found
  split at found
  · rename_i i interface
    cases found
    have same : i.name = name := named.interfaces.name _ (Members.mem_of_get? interface)
    exact ⟨same, by rw [Parent.IsType, same, interface]⟩
  split at found
  · rename_i o object
    cases found
    have same : o.name = name := named.objects.name _ (Members.mem_of_get? object)
    exact ⟨same, .inl (by rw [same, object])⟩
  · obtain ⟨u, union, rfl⟩ := Option.map_eq_some_iff.mp found
    have same : u.name = name := named.unions.name _ (Members.mem_of_get? union)
    exact ⟨same, by rw [Parent.IsType, same, union]⟩

theorem WellNamed.isType_fragmentType (named : t.WellNamed) {type : CompositeType}
    (found : t.fragmentType? name = some type) : (Parent.object type).IsType t := by
  have same := named.fragmentType found
  unfold fragmentType? at found
  split at found
  · rename_i o object
    cases found
    exact .inl (by rw [same, object])
  · exact .inr (by rw [same, found])

theorem parent?_eq_none_iff : t.parent? name = none ↔
    t.objects.get? name = none ∧ t.interfaces.get? name = none ∧ t.unions.get? name = none := by
  unfold parent?
  cases t.interfaces.get? name <;> cases t.objects.get? name <;> simp

theorem fragmentType?_eq_none_iff : t.fragmentType? name = none ↔
    t.objects.get? name = none ∧ t.interfaces.get? name = none := by
  unfold fragmentType?
  cases t.objects.get? name <;> simp

end Tables

theorem Scope.Enters.isType {c : Scope} {a b : Parent × List Selection}
    (named : c.tables.WellNamed) (entered : c.Enters a b) (type : a.1.IsType c.tables) :
    b.1.IsType c.tables := by
  obtain ⟨s, listed, entered⟩ := entered
  cases entered with
  | applied found applied => exact type
  | narrowed found other abstract narrower => exact named.isType_fragmentType narrower
  | field plain declared composite =>
      exact (named.parent (Scope.composite?_eq_some_iff.mp composite).2.2).2

theorem fragmentsOf_eq_none {d : Document} {name : String}
    (missing : (fragmentsOf d).get? name = none) : ∀ f, .fragment f ∈ d → f.name ≠ name := by
  rintro f mem rfl
  rw [fragmentsOf, Members.get?_eq_none_iff, Members.mem_keys_ofList] at missing
  exact missing (List.mem_map.mpr ⟨(f.name, f), List.mem_filterMap.mpr ⟨_, mem, rfl⟩, rfl⟩)

namespace Subgraph

variable {schema d : Document} {s : Subgraph} {e : OperationError}

theorem allWithin_has_fragment (name : String) (f : Fragment)
    (found : (fragmentsOf d).get? name = some f) : AllWithin d.Has f.selections :=
  fun _ within => .fragment (mem_of_fragmentsOf found).1 within

theorem Reaches.allWithin {a : Parent × List Selection} (reached : s.Reaches d a) :
    AllWithin d.Has a.2 := by
  obtain ⟨⟨p, selections⟩, start, path⟩ := reached
  obtain ⟨o, mem, rfl⟩ := mem_of_start? start
  induction path with
  | refl => exact fun t within => .operation mem within
  | tail _ step ih => exact step.allWithin ih allWithin_has_fragment

theorem Reaches.has {a : Parent × List Selection} (reached : s.Reaches d a) {t : Selection}
    (mem : t ∈ a.2) : d.Has t :=
  reached.allWithin t (.here mem)

theorem Reaches.isType {a : Parent × List Selection} (named : s.tables.WellNamed)
    (reached : s.Reaches d a) : a.1.IsType s.tables := by
  obtain ⟨⟨p, selections⟩, start, path⟩ := reached
  induction path with
  | refl =>
      obtain ⟨o, -, start⟩ := Option.bind_eq_some_iff.mp start
      obtain ⟨root, -, start⟩ := Option.bind_eq_some_iff.mp start
      obtain ⟨q, parent, same⟩ := Option.bind_eq_some_iff.mp start
      cases same
      exact (named.parent parent).2
  | tail _ step ih => exact step.isType named ih

/-- The selection stands in the document, and compilation comes to it on that type of the schema. -/
structure ComesTo (s : Subgraph) (d : Document) (p : Parent) (t : Selection) : Prop where
  has : d.Has t
  type : p.IsType s.tables
  reached : ∃ selections, s.Reaches d (p, selections) ∧ t ∈ selections

def Truthful (s : Subgraph) (d : Document) : OperationError → Prop
  | .syntaxError => False
  | .missingOperation => ∀ o, .operation o ∉ d
  | .unsupportedOperationKind kind =>
    ∃ o, d.operation? = some o ∧ o.kind.text = kind ∧ s.root? o.kind = none
  | .unknownField type field => field ≠ typenameKey ∧ ∃ p : Parent, p.name = type ∧
    p.field? field = none ∧ ∃ responseName arguments directives inner,
      s.ComesTo d p (.field responseName field arguments directives inner)
  | .unresolvedType name => s.tables.objects.get? name = none ∧
    s.tables.interfaces.get? name = none ∧ s.tables.unions.get? name = none
  | .missingSelectionSet type field => (∃ q, s.tables.composite? type = some q) ∧
    ∃ p : Parent, (∃ declared, p.field? field = some declared ∧ declared.base = type) ∧
      ∃ responseName arguments directives,
        s.ComesTo d p (.field responseName field arguments directives [])
  | .unknownFragment name =>
    (∃ directives, d.Has (.spread name directives)) ∧ ∀ f, .fragment f ∈ d → f.name ≠ name
  | .recursionLimitExceeded => True
  | .selectionLimitExceeded => True

def NarrowsToUnion (s : Subgraph) (d : Document) (name : String) : Prop :=
  (∃ u, s.tables.unions.get? name = some u) ∧ ∃ p selections t inner,
    s.Reaches d (p, selections) ∧ p.IsAbstract ∧ t ∈ selections ∧
    t.fragment? (fragmentsOf d) = some (some name, inner) ∧ p.applies s.tables name = false

theorem truthful_of_fails {a : Parent × List Selection} {t : Selection}
    (named : s.tables.WellNamed) (reached : s.Reaches d a) (mem : t ∈ a.2)
    (fails : (s.scope d).FailsBy a.1 t e) :
    s.Truthful d e ∨ ∃ name, e = .unresolvedType name ∧ s.NarrowsToUnion d name := by
  have comes : s.ComesTo d a.1 t := ⟨reached.has mem, reached.isType named, a.2, reached, mem⟩
  cases fails with
  | unknown missing => exact .inl ⟨⟨_, comes.has⟩, fragmentsOf_eq_none missing⟩
  | undeclared plain undeclared =>
      exact .inl ⟨plain, a.1, rfl, undeclared, _, _, _, _, comes⟩
  | unresolved plain declared missing => exact .inl (Tables.parent?_eq_none_iff.mp missing)
  | unselected plain declared composite =>
      exact .inl ⟨⟨_, composite⟩, a.1, ⟨_, declared, rfl⟩, _, _, _, comes⟩
  | @narrowed _ condition inner found other abstract missing =>
      obtain ⟨object, interface⟩ := Tables.fragmentType?_eq_none_iff.mp missing
      cases union : s.tables.unions.get? condition with
      | none => exact .inl ⟨object, interface, union⟩
      | some u =>
          exact .inr ⟨condition, rfl, ⟨u, union⟩, a.1, a.2, t, inner, reached, abstract, mem,
            found, other⟩

theorem truthful_of_start? (missing : s.start? d = none) (failed : s.compileDocument d = .error e) :
    s.Truthful d e := by
  unfold compileDocument at failed
  unfold start? at missing
  cases operation : d.operation? with
  | none =>
      simp only [operation, Except.error.injEq] at failed
      subst failed
      intro o mem
      simpa using List.findSome?_eq_none_iff.mp operation _ mem
  | some o =>
      cases root : s.root? o.kind with
      | none =>
          simp only [operation, root, Except.error.injEq] at failed
          subst failed
          exact ⟨o, operation, rfl, root⟩
      | some name =>
          cases parent : s.tables.parent? name with
          | some p => simp [operation, root, parent] at missing
          | none =>
              simp only [operation, root, parent, Except.error.injEq] at failed
              subst failed
              exact Tables.parent?_eq_none_iff.mp parent

/-- Errors are truthful, but for one: a fragment on a union in a selection on another abstract type
is said to be on a type that cannot be resolved. -/
theorem compileDocument_truthful (valid : ofDocument schema = .ok s)
    (failed : s.compileDocument d = .error e) :
    s.Truthful d e ∨ ∃ name, e = .unresolvedType name ∧ s.NarrowsToUnion d name := by
  have named := wellNamed_of_valid valid
  cases start : s.start? d with
  | none => exact .inl (truthful_of_start? start failed)
  | some a =>
      rw [compileDocument_of_start? start] at failed
      obtain limit | ⟨b, path, t, mem, fails⟩ :=
        (s.scope d).selectionShape_fails _ (Nat.zero_le _) failed
      · refine .inl ?_
        obtain rfl | rfl := limit
        · trivial
        · trivial
      · exact truthful_of_fails named ⟨a, start, path⟩ mem fails

-- `query { node { pages } }`
def nodePages : Document :=
  [.operation ⟨.query, none, [], [], [.field none "node" [] [] [.field none "pages" [] [] []]]⟩]

theorem nodePages_truthful :
    ofDocument librarySchema = .ok library ∧
    library.compileDocument nodePages = .error (.unknownField "Node" "pages") ∧
    library.Truthful nodePages (.unknownField "Node" "pages") := by
  have valid : ofDocument librarySchema = .ok library := rfl
  have failed : library.compileDocument nodePages = .error (.unknownField "Node" "pages") := rfl
  refine ⟨valid, failed, (compileDocument_truthful valid failed).resolve_right ?_⟩
  rintro ⟨name, other, -⟩
  cases other

def unionLibrarySchema : Document :=
  librarySchema ++ [.type ⟨false, none, "Media", [], .union ["Book"]⟩]

def unionLibrary : Subgraph :=
  completed unionLibrarySchema

-- `query { node { ... on Media { __typename } } }`
def nodeOnMedia : Document :=
  [.operation ⟨.query, none, [], [], [.field none "node" [] []
    [.inline (some "Media") [] [.field none "__typename" [] [] []]]]⟩]

theorem nodeOnMedia_untruthful :
    ofDocument unionLibrarySchema = .ok unionLibrary ∧
    unionLibrary.tables.unions.get? "Media" = some ⟨"Media", ["Book"]⟩ ∧
    unionLibrary.tables.parent? "Media" = some (.union ⟨"Media", ["Book"]⟩) ∧
    libraryBook.applies unionLibrary.tables "Media" = true ∧
    unionLibrary.compileDocument nodeOnMedia = .error (.unresolvedType "Media") ∧
    ¬ unionLibrary.Truthful nodeOnMedia (.unresolvedType "Media") := by
  refine ⟨rfl, rfl, rfl, by decide, rfl, ?_⟩
  rintro ⟨-, -, union⟩
  cases union

end Subgraph

end FederatedMock
