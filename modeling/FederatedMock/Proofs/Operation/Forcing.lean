import FederatedMock.Proofs.Operation.Discriminators
import FederatedMock.Proofs.Schema.Tables

namespace FederatedMock

open Graphql Shape

namespace Tables

theorem scalar_ne_typename {d : Document} {type name : String} :
    (ofDocument d).scalars.get? type ≠ some (.typename name) := by
  rw [scalar_of_document]
  split
  · unfold ScalarRule.ofScalar
    split <;> simp
  · simp

end Tables

namespace TypeRef

theorem eq_of_wrap_scalar {s : Shape} {rule : ScalarRule} {type : TypeRef}
    (same : TypeRef.wrap s type = .scalar rule) : s = .scalar rule := by
  cases type with
  | named name nonNull =>
      cases nonNull with
      | true => exact same
      | false => cases same
  | list item nonNull => cases nonNull <;> cases same

end TypeRef

namespace Shape

theorem forcesTypename_iff {fields : Fields} :
    forcesTypename fields = true ↔
      ∃ name, fields.get? typenameKey = some (.scalar (.typename name)) := by
  unfold forcesTypename
  split
  · rename_i name found
    simp [found]
  · rename_i other
    simpa using other

end Shape

namespace Occurrence

theorem last?_map_field {key : String} {q : Parent} {fields : List FieldSelection} :
    last? key (fields.map (.field q)) =
      ((fields.filter fun f => f.key = key).getLast?).map (.field q) := by
  rw [last?, ← List.map_reverse, List.find?_map, List.getLast?_eq_head?_reverse,
    ← List.filter_reverse, List.head?_filter]
  rfl

end Occurrence

namespace Scope

variable {c : Scope} {p : Parent} {selections : List Selection}

/-- The fragment is the last one of that condition on the level of the selection set. -/
def LastOn (c : Scope) (p : Parent) (selections : List Selection) (name : String)
    (g : ConditionalFragment) : Prop :=
  ∃ fields fragments, c.Collects p selections fields fragments ∧
    (fragments.filter fun g => g.condition = name).getLast? = some g

/-- What the fragment selects last under the key of the type name, on its own level, is the type
name. -/
def NamesItself (c : Scope) (g : ConditionalFragment) : Prop :=
  ∃ t own aside f, c.tables.fragmentType? g.condition = some t ∧
    c.Collects (.object t) g.selections own aside ∧
    (own.filter fun f => f.key = typenameKey).getLast? = some f ∧ f.name = typenameKey

theorem LastOn.unique {name : String} {g g' : ConditionalFragment}
    (first : c.LastOn p selections name g) (second : c.LastOn p selections name g') : g = g' := by
  obtain ⟨fields, fragments, level, last⟩ := first
  obtain ⟨fields', fragments', level', last'⟩ := second
  obtain ⟨rfl, rfl⟩ := level.unique level'
  exact Option.some.inj (last.symm.trans last')

theorem LastOn.hasFragment {name : String} {g : ConditionalFragment}
    (last : c.LastOn p selections name g) : c.HasFragment p selections g ∧ g.condition = name := by
  obtain ⟨fields, fragments, level, last⟩ := last
  obtain ⟨listed, same⟩ := List.mem_filter.mp (List.mem_of_getLast? last)
  exact ⟨level.mem_fragments.mp listed, of_decide_eq_true same⟩

theorem FragmentsOccur.last_typename {shared : List Occurrence}
    {fragments : List ConditionalFragment} {occs : List Occurrence} {g : ConditionalFragment}
    (occur : c.FragmentsOccur shared fragments occs)
    (others : ∀ o ∈ shared, o.key ≠ typenameKey) (last : fragments.getLast? = some g) :
    ∃ t own aside, c.tables.fragmentType? g.condition = some t ∧
      c.Collects (.object t) g.selections own aside ∧
      Occurrence.last? typenameKey occs =
        (Occurrence.last? typenameKey (own.map (.field (.object t)))).or
          (some (.discriminator g.condition)) := by
  induction occur with
  | nil => cases last
  | @cons f rest t own aside occs type level occur ih =>
      rw [Occurrence.last?_append]
      cases rest with
      | nil =>
          cases last
          cases occur
          refine ⟨t, own, aside, type, level, ?_⟩
          rw [Occurrence.last?_cons, Occurrence.last?_append,
            Occurrence.last?_eq_none_iff.mpr others, Option.or_none]
          rfl
      | cons f' rest =>
          rw [List.getLast?_cons_cons] at last
          obtain ⟨t', own', aside', type', level', found⟩ := ih last
          refine ⟨t', own', aside', type', level', ?_⟩
          rw [found, Option.or_assoc, Option.some_or]

theorem key_ne_of_mem_sharedOccurrences {fields : List FieldSelection} :
    ∀ o ∈ p.sharedOccurrences fields, o.key ≠ typenameKey := by
  intro o mem
  cases p with
  | interface t => simpa using (List.mem_filter.mp mem).2
  | object t => cases mem
  | union u => cases mem

theorem Occurs.last_typename {name : String} {occs : List Occurrence}
    (occurs : c.Occurs p selections (some name) occs) :
    ∃ g t own aside, c.LastOn p selections name g ∧ g.condition = name ∧
      c.tables.fragmentType? g.condition = some t ∧
      c.Collects (.object t) g.selections own aside ∧
      Occurrence.last? typenameKey occs =
        (((own.filter fun f => f.key = typenameKey).getLast?).map (.field (.object t))).or
          (some (.discriminator name)) := by
  cases occurs with
  | @variant fields fragments _ _ level abstract named own =>
      obtain ⟨g₀, listed, same⟩ := named
      cases last : (fragments.filter fun g => g.condition = name).getLast? with
      | none =>
          have kept : g₀ ∈ fragments.filter fun g => g.condition = name := by
            simpa using ⟨listed, same⟩
          exact (List.ne_nil_of_mem kept (List.getLast?_eq_none_iff.mp last)).elim
      | some g =>
          obtain ⟨t, mine, aside, type, inside, found⟩ :=
            own.last_typename key_ne_of_mem_sharedOccurrences last
          have here : c.LastOn p selections name g := ⟨fields, fragments, level, last⟩
          have condition := here.hasFragment.2
          refine ⟨g, t, mine, aside, here, condition, type, inside, ?_⟩
          rw [found, Occurrence.last?_map_field, condition]

theorem FieldCompiles.forced_iff {t : CompositeType} {f : FieldSelection} {s : Shape}
    (scalars : ∀ type name, c.tables.scalars.get? type ≠ some (.typename name))
    (compiled : c.FieldCompiles (.object t) f s) :
    (∃ name, s = .scalar (.typename name)) ↔ f.name = typenameKey := by
  constructor
  · rintro ⟨name, rfl⟩
    by_contra plain
    obtain ⟨type, base, visits, depth, declared, derived, -, same⟩ :=
      (fieldCompiles_declared plain).mp compiled
    cases TypeRef.eq_of_wrap_scalar same
    cases derived with
    | scalar found => exact scalars _ _ found
    | composite found selected inside => cases inside
  · intro name
    exact ⟨t.name, compiled.eq_typename name⟩

theorem namesItself_iff {g : ConditionalFragment} {t : CompositeType} {own : List FieldSelection}
    {aside : List ConditionalFragment} (type : c.tables.fragmentType? g.condition = some t)
    (level : c.Collects (.object t) g.selections own aside) :
    c.NamesItself g ↔ ∃ f, (own.filter fun f => f.key = typenameKey).getLast? = some f ∧
      f.name = typenameKey := by
  constructor
  · rintro ⟨t', own', aside', f, type', level', last, name⟩
    cases type.symm.trans type'
    obtain ⟨rfl, -⟩ := level.unique level'
    exact ⟨f, last, name⟩
  · rintro ⟨f, last, name⟩
    exact ⟨t, own, aside, f, type, level, last, name⟩

theorem Compiles.forces {choices : Variants} {name : String} {fields : Fields}
    (named : c.tables.WellNamed)
    (scalars : ∀ type name, c.tables.scalars.get? type ≠ some (.typename name))
    (compiled : c.Compiles p selections (.variants choices))
    (found : choices.get? name = some fields) :
    ∃ g, c.LastOn p selections name g ∧
      (forcesTypename fields = true ↔ c.NamesItself g) ∧
      (forcesTypename fields = true ↔
        fields.get? typenameKey = some (.scalar (.typename name))) := by
  have part : (Shape.variants choices).part? (some name) = some fields := found
  obtain ⟨occs, occurs, entered⟩ := compiled.entered part
  obtain ⟨g, t, own, aside, last, condition, type, level, decides⟩ := occurs.last_typename
  have entry := entered typenameKey
  rw [decides] at entry
  have same : t.name = name := (named.fragmentType type).trans condition
  refine ⟨g, last, ?_⟩
  rw [namesItself_iff type level, forcesTypename_iff]
  cases mine : (own.filter fun f => f.key = typenameKey).getLast? with
  | none =>
      rw [mine] at entry
      obtain ⟨s, given, gives⟩ := exists_of_rel_some entry
      rw [given]
      cases gives
      simp
  | some f =>
      rw [mine] at entry
      obtain ⟨s, given, gives⟩ := exists_of_rel_some entry
      rw [given]
      cases gives with
      | field compiled =>
          have forced := compiled.forced_iff scalars
          have itself : f.name = typenameKey → s = .scalar (.typename name) := by
            intro plain
            rw [compiled.eq_typename plain, ← same]
            rfl
          simp only [Option.some.injEq, exists_eq_left', forced, true_and]
          exact ⟨itself, fun here => forced.mp ⟨name, here⟩⟩

end Scope

namespace Subgraph

/-- Every discriminated shape of a document comes from a selection set that compilation reaches, and
the type name of a variant of it is forced exactly if the last fragment on its type names itself. So
fragments can change places, within a document or between two, and as long as the last ones on a
type do the same, an object without a type name can stand for it as before. -/
theorem compileDocument_forces {schema d : Document} {s : Subgraph} {v : Shape} {visits : Nat}
    (valid : ofDocument schema = .ok s) (compiled : s.compileDocument d = .ok (v, visits)) :
    (∀ choices, Part (.variants choices) v →
      ∃ a, s.Reaches d a ∧ (s.scope d).Compiles a.1 a.2 (.variants choices)) ∧
    (∀ p selections choices name fields,
      (s.scope d).Compiles p selections (.variants choices) →
        Members.get? name choices = some fields →
          ∃ g, (s.scope d).LastOn p selections name g ∧
            (forcesTypename fields = true ↔ (s.scope d).NamesItself g) ∧
            (forcesTypename fields = true ↔
              Members.get? typenameKey fields = some (.scalar (.typename name)))) ∧
    ∀ d' p selections choices p' selections' choices' name fields fields' g g',
      (s.scope d).Compiles p selections (.variants choices) →
        Members.get? name choices = some fields →
      (s.scope d').Compiles p' selections' (.variants choices') →
        Members.get? name choices' = some fields' →
      (s.scope d).LastOn p selections name g → (s.scope d').LastOn p' selections' name g' →
        ((s.scope d).NamesItself g ↔ (s.scope d').NamesItself g') →
          forcesTypename fields = forcesTypename fields' := by
  have named := wellNamed_of_valid valid
  have scalars : ∀ type name, s.tables.scalars.get? type ≠ some (.typename name) := by
    rw [eq_completed valid]
    exact fun type name => Tables.scalar_ne_typename
  refine ⟨fun choices part => reaches_of_part compiled part, ?_, ?_⟩
  · intro p selections choices name fields inside found
    exact inside.forces named scalars found
  · intro d' p selections choices p' selections' choices' name fields fields' g g' inside found
      inside' found' last last' alike
    obtain ⟨_, here, first, -⟩ := inside.forces named scalars found
    obtain ⟨_, here', second, -⟩ := inside'.forces named scalars found'
    cases here.unique last
    cases here'.unique last'
    rw [Bool.eq_iff_iff, first, second, alike]

def typenameOnBook : Selection :=
  .inline (some "Book") [] [.field none "__typename" [] [] []]

def titleOnBook : Selection :=
  .inline (some "Book") [] [.field none "title" [] [] []]

def nodeQuery (selections : List Selection) : Document :=
  [.operation ⟨.query, none, [], [], [.field none "node" [] [] selections]⟩]

def typenameField : FieldSelection := ⟨none, "__typename", []⟩

def typenameFragment : ConditionalFragment := ⟨"Book", [.field none "__typename" [] [] []]⟩

def checkedBook : Fields :=
  [(typenameKey, .enumeration ["Book"]), ("title", .nullable (.scalar (.string .any)))]

def forcedBook : Fields :=
  [(typenameKey, .scalar (.typename "Book")), ("title", .nullable (.scalar (.string .any)))]

theorem typenameLast_forces :
    ofDocument librarySchema = .ok library ∧
    library.compileDocument (nodeQuery [titleOnBook, typenameOnBook]) =
      .ok (.object [("node", .nullable (.variants [("Book", forcedBook)]))], 5) ∧
    forcesTypename forcedBook = true := by
  have valid : ofDocument librarySchema = .ok library := rfl
  have compiled : library.compileDocument (nodeQuery [titleOnBook, typenameOnBook]) =
      .ok (.object [("node", .nullable (.variants [("Book", forcedBook)]))], 5) := rfl
  have inside : (library.scope (nodeQuery [titleOnBook, typenameOnBook])).Compiles libraryNode
      [titleOnBook, typenameOnBook] (.variants [("Book", forcedBook)]) := ⟨3, 4, rfl⟩
  have last : (library.scope (nodeQuery [titleOnBook, typenameOnBook])).LastOn libraryNode
      [titleOnBook, typenameOnBook] "Book" typenameFragment :=
    ⟨[], [titleFragment, typenameFragment], ⟨3, 2, rfl⟩, rfl⟩
  have itself : (library.scope (nodeQuery [titleOnBook, typenameOnBook])).NamesItself
      typenameFragment :=
    ⟨_, [typenameField], [], typenameField, rfl, ⟨3, 1, rfl⟩, rfl, rfl⟩
  obtain ⟨g, here, forces, -⟩ :=
    (compileDocument_forces valid compiled).2.1 _ _ _ "Book" forcedBook inside rfl
  cases here.unique last
  exact ⟨valid, compiled, forces.mpr itself⟩

def untypedBook : Json :=
  .object [("node", .object [("title", .string "Emma")])]

def typedBook : Json :=
  .object [("node", .object [(typenameKey, .string "Book"), ("title", .string "Emma")])]

theorem typenameFirst_unforced :
    ofDocument librarySchema = .ok library ∧
    (∀ order, order = [typenameOnBook, titleOnBook] ∨ order = [titleOnBook, typenameOnBook] →
      (library.scope (nodeQuery order)).Collects libraryBook typenameFragment.selections
        [typenameField] [] ∧
      (library.scope (nodeQuery order)).Collects libraryBook titleFragment.selections
        [titleField] []) ∧
    (library.scope (nodeQuery [typenameOnBook, titleOnBook])).Collects libraryNode
      [typenameOnBook, titleOnBook] [] [typenameFragment, titleFragment] ∧
    library.compileDocument (nodeQuery [typenameOnBook, titleOnBook]) =
      .ok (.object [("node", .nullable (.variants [("Book", checkedBook)]))], 5) ∧
    library.compileDocument (nodeQuery [titleOnBook, typenameOnBook]) =
      .ok (.object [("node", .nullable (.variants [("Book", forcedBook)]))], 5) ∧
    forcesTypename checkedBook = false ∧ forcesTypename forcedBook = true ∧
    (Shape.object [("node", .nullable (.variants [("Book", checkedBook)]))]).validate
      untypedBook = .error [⟨[.key "node", .key typenameKey],
        "Invalid discriminator value. Expected 'Book'"⟩] ∧
    (Shape.object [("node", .nullable (.variants [("Book", forcedBook)]))]).validate
      untypedBook = .ok typedBook := by
  refine ⟨rfl, ?_, ⟨3, 2, rfl⟩, rfl, rfl, rfl, rfl, rfl, rfl⟩
  rintro order (rfl | rfl)
  · exact ⟨⟨3, 1, rfl⟩, ⟨3, 1, rfl⟩⟩
  · exact ⟨⟨3, 1, rfl⟩, ⟨3, 1, rfl⟩⟩

end Subgraph

end FederatedMock
