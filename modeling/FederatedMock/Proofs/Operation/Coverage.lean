import FederatedMock.Proofs.Operation.Occurrences

namespace FederatedMock

open Graphql Shape

namespace Scope

variable {c : Scope} {p : Parent} {selections : List Selection}

def SourceFrom (c : Scope) (start : Parent × List Selection) (choices : Variants)
    (limit : Nat) : Prop :=
  ∃ a visits depth, Relation.ReflTransGen c.Enters start a ∧
    c.Derives a.1 a.2 (.variants choices) visits depth ∧ visits ≤ limit

theorem Derives.source {v : Shape} {choices : Variants} {visits depth : Nat}
    (derived : c.Derives p selections v visits depth) (part : Part (.variants choices) v) :
    c.SourceFrom (p, selections) choices visits := by
  generalize known : Shape.variants choices = t at part
  cases derived.part part with
  | set path inside room =>
      subst known
      exact ⟨_, _, _, path, inside, room⟩
  | @typename a =>
      obtain ⟨q, inner⟩ := a
      cases q <;> cases known
  | _ => cases known

/-- The fields have an entry for the type name and for each key that is selected on an interface
itself or in a fragment of that condition. No fragment of another condition adds to them. -/
structure Covers (c : Scope) (p : Parent) (selections : List Selection) (name : String)
    (fields : Fields) : Prop where
  typename : typenameKey ∈ Members.keys fields
  shared : ∀ t f, p = .interface t → c.HasField p selections f → f.key ∈ Members.keys fields
  own : ∀ g t f, c.HasFragment p selections g → g.condition = name →
    c.tables.fragmentType? name = some t → c.HasField (.object t) g.selections f →
      f.key ∈ Members.keys fields
  only : ∀ key ∈ Members.keys fields, key = typenameKey ∨
    (∃ f, c.HasField p selections f ∧ f.key = key) ∨
    ∃ g t f, c.HasFragment p selections g ∧ g.condition = name ∧
      c.tables.fragmentType? name = some t ∧ c.HasField (.object t) g.selections f ∧ f.key = key

theorem FragmentsOccur.discriminator_mem {shared : List Occurrence}
    {fragments : List ConditionalFragment} {occs : List Occurrence}
    (occur : c.FragmentsOccur shared fragments occs) :
    ∀ g ∈ fragments, .discriminator g.condition ∈ occs := by
  induction occur with
  | nil => exact fun _ mem => (List.not_mem_nil mem).elim
  | cons type level others ih =>
      refine List.forall_mem_cons.mpr ⟨List.mem_cons_self, fun g mem => ?_⟩
      exact List.mem_append_right _ (ih g mem)

theorem Occurs.discriminator_mem {name : String} {occs : List Occurrence}
    (occurs : c.Occurs p selections (some name) occs) : .discriminator name ∈ occs := by
  cases occurs with
  | variant level abstract named own =>
      obtain ⟨g, listed, rfl⟩ := named
      exact own.discriminator_mem g (by simpa using listed)

theorem Compiles.abstract {choices : Variants}
    (compiled : c.Compiles p selections (.variants choices)) : p.IsAbstract := by
  obtain ⟨visits, depth, derived, -⟩ := compiles_iff.mp compiled
  cases derived with
  | variants level abstract narrowed fields fragments => exact abstract

theorem Compiles.mem_keys_iff {choices : Variants} {name : String}
    (compiled : c.Compiles p selections (.variants choices)) :
    name ∈ Members.keys choices ↔ ∃ g, c.HasFragment p selections g ∧ g.condition = name := by
  obtain ⟨visits, depth, derived, -⟩ := compiles_iff.mp compiled
  cases derived with
  | variants level abstract narrowed fields fragments =>
      obtain ⟨sound, complete⟩ := fragments.owns
      constructor
      · intro mem
        obtain ⟨fields, found⟩ := Option.ne_none_iff_exists'.mp
          fun missing => Members.get?_eq_none_iff.mp missing mem
        obtain ⟨own, known⟩ := (variantOf_of_get? found).named
        obtain ⟨g, listed, same, -⟩ := sound _ known
        exact ⟨g, level.mem_fragments.mp listed, same⟩
      · rintro ⟨g, has, rfl⟩
        obtain ⟨own, known, -⟩ := complete g (level.mem_fragments.mpr has)
        refine Classical.byContradiction fun missing => ?_
        exact get?_addVariants_ne_none (.inr ⟨own, known⟩) (Members.get?_eq_none_iff.mpr missing)

theorem Compiles.covers {choices : Variants} {name : String} {fields : Fields}
    (compiled : c.Compiles p selections (.variants choices))
    (found : choices.get? name = some fields) : c.Covers p selections name fields := by
  have part : (Shape.variants choices).part? (some name) = some fields := found
  obtain ⟨occs, occurs, entered⟩ := compiled.entered part
  have kept := lastKept_of_entered entered
  have present : ∀ q f, c.Selects p selections (some name) q f → f.key ∈ Members.keys fields :=
    fun q f selected => (kept.keys _).mpr ⟨_, occurs.mem_field_iff.mpr selected, rfl⟩
  have abstract := compiled.abstract
  have typename : typenameKey ∈ Members.keys fields :=
    (kept.keys _).mpr ⟨_, occurs.discriminator_mem, rfl⟩
  refine ⟨typename, fun t f interface has => ?_, fun g t f fragment same type has => ?_,
    fun key mem => ?_⟩
  · by_cases key : f.key = typenameKey
    · rwa [key]
    · exact present p f (.shared interface has key)
  · subst same
    exact present _ f (.own abstract fragment type has)
  · obtain ⟨o, listed, rfl⟩ := (kept.keys key).mp mem
    cases o with
    | discriminator condition => exact .inl rfl
    | field q f =>
        cases occurs.mem_field_iff.mp listed with
        | shared interface has other => exact .inr (.inl ⟨f, has, rfl⟩)
        | @own g t _ abstract fragment type has =>
            exact .inr (.inr ⟨g, t, f, fragment, rfl, type, has, rfl⟩)

end Scope

namespace Subgraph

def Reaches (s : Subgraph) (d : Document) (a : Parent × List Selection) : Prop :=
  ∃ start, s.start? d = some start ∧ Relation.ReflTransGen (s.scope d).Enters start a

theorem reaches_of_part {s : Subgraph} {d : Document} {v : Shape} {visits : Nat}
    {choices : Variants} (compiled : s.compileDocument d = .ok (v, visits))
    (part : Part (.variants choices) v) :
    ∃ a, s.Reaches d a ∧ (s.scope d).Compiles a.1 a.2 (.variants choices) := by
  obtain ⟨depth, ⟨p, selections, start, derived⟩, limit, -⟩ := compileDocument_eq_ok.mp compiled
  obtain ⟨a, visits', depth', reached, derived', below⟩ := derived.source part
  have inside := Scope.compiles_iff.mpr ⟨visits', depth', derived', Nat.le_trans below limit⟩
  exact ⟨a, ⟨_, start, reached⟩, inside⟩

/-- The discriminated shapes of a document are those of abstract selection sets that compilation
reaches, and their variants cover what is selected for them. -/
theorem compileDocument_covers {s : Subgraph} {d : Document} {v : Shape} {visits : Nat}
    (compiled : s.compileDocument d = .ok (v, visits)) :
    (∀ choices, Part (.variants choices) v →
      ∃ a, s.Reaches d a ∧ (s.scope d).Compiles a.1 a.2 (.variants choices)) ∧
    ∀ p selections choices, (s.scope d).Compiles p selections (.variants choices) →
      p.IsAbstract ∧
      (∀ name, name ∈ Members.keys choices ↔
        ∃ g, (s.scope d).HasFragment p selections g ∧ g.condition = name) ∧
      ∀ name fields, Members.get? name choices = some fields →
        (s.scope d).Covers p selections name fields := by
  constructor
  · exact fun choices part => reaches_of_part compiled part
  · intro p selections choices inside
    exact ⟨inside.abstract, fun name => inside.mem_keys_iff,
      fun name fields found => inside.covers found⟩

def libraryBook : Parent :=
  .object ⟨"Book", ["Node"], [("id", .named "ID" false), ("title", .named "String" false)]⟩

def kindOfNode : FieldSelection := ⟨some "kind", "__typename", []⟩

def nodeId : FieldSelection := ⟨some "name", "id", []⟩

def onNodeAndBook : List Selection :=
  [.field (some "kind") "__typename" [] [] [],
    .inline (some "Book") [] [.inline (some "Node") [] [.field (some "name") "id" [] [] []]]]

-- `query { node { kind: __typename ... on Book { ... on Node { name: id } } } }`
def bookName : Document :=
  [.operation ⟨.query, none, [], [], [.field none "node" [] [] onNodeAndBook]⟩]

def bookNameFields : Fields :=
  [(typenameKey, .enumeration ["Book"]), ("kind", .enumeration ["Node", "Book"]),
    ("name", .nullable (.scalar (.string .any)))]

def bookNameShape : Shape :=
  .object [("node", .nullable (.variants [("Book", bookNameFields)]))]

theorem bookName_covered :
    library.compileDocument bookName = .ok (bookNameShape, 5) ∧
    (∃ a, library.Reaches bookName a ∧
      (library.scope bookName).Compiles a.1 a.2 (.variants [("Book", bookNameFields)])) ∧
    kindOfNode.key ∈ Members.keys bookNameFields ∧ nodeId.key ∈ Members.keys bookNameFields := by
  have compiled : library.compileDocument bookName = .ok (bookNameShape, 5) := rfl
  have part : Part (.variants [("Book", bookNameFields)]) bookNameShape :=
    .field (List.mem_singleton_self _) (.nullable .refl)
  have inside : (library.scope bookName).Compiles libraryNode onNodeAndBook
      (.variants [("Book", bookNameFields)]) := ⟨3, 4, rfl⟩
  have kind : (library.scope bookName).HasField libraryNode onNodeAndBook kindOfNode :=
    ⟨[], [], .here (by simp [onNodeAndBook, kindOfNode])⟩
  have onBook : (library.scope bookName).HasFragment libraryNode onNodeAndBook
      ⟨"Book", [.inline (some "Node") [] [.field (some "name") "id" [] [] []]]⟩ :=
    ⟨_, .here (List.mem_cons_of_mem _ (List.mem_singleton_self _)), rfl, rfl⟩
  have name : (library.scope bookName).HasField libraryBook
      [.inline (some "Node") [] [.field (some "name") "id" [] [] []]] nodeId :=
    ⟨[], [], .within (.here (List.mem_singleton_self _)) rfl (by decide)
      (List.mem_singleton_self _)⟩
  have covered := ((compileDocument_covers compiled).2 _ _ _ inside).2.2 "Book" bookNameFields rfl
  exact ⟨compiled, (compileDocument_covers compiled).1 _ part, covered.shared _ _ rfl kind,
    covered.own _ _ _ onBook rfl rfl name⟩

def mediaSchema : Document :=
  let title : FieldDefinition := ⟨none, "title", [], .named "String" false, []⟩
  [.type ⟨false, none, "Query", [], .object [] [⟨none, "media", [], .named "Media" false, []⟩]⟩,
    .type ⟨false, none, "Media", [], .union ["Book"]⟩,
    .type ⟨false, none, "Titled", [], .interface [] [title]⟩,
    .type ⟨false, none, "Book", [], .object ["Titled"]
      [title, ⟨none, "isbn", [], .named "ID" false, []⟩,
        ⟨none, "pages", [], .named "Int" false, []⟩]⟩]

def media : Subgraph :=
  completed mediaSchema

def mediaUnion : Parent := .union ⟨"Media", ["Book"]⟩

def mediaBook : Parent :=
  .object ⟨"Book", ["Titled"], [("title", .named "String" false), ("isbn", .named "ID" false),
    ("pages", .named "Int" false)]⟩

def onTitled : List Selection :=
  [.field none "title" [] [] [], .inline (some "Book") [] [.field none "isbn" [] [] []]]

def onBookAndTitled : List Selection :=
  [.field (some "kind") "__typename" [] [] [],
    .inline (some "Book") [] [.field none "pages" [] [] []], .inline (some "Titled") [] onTitled]

-- `query { media { kind: __typename ... on Book { pages } ... on Titled { title
-- ... on Book { isbn } } } }`
def titledBook : Document :=
  [.operation ⟨.query, none, [], [], [.field none "media" [] [] onBookAndTitled]⟩]

def pagesFields : Fields :=
  [(typenameKey, .enumeration ["Book"]), ("pages", .nullable (.scalar .number))]

def titledFields : Fields :=
  [(typenameKey, .enumeration ["Titled"]), ("title", .nullable (.scalar (.string .any)))]

def bookOrTitled : Variants :=
  [("Book", pagesFields), ("Titled", titledFields)]

/-- A fragment on an interface is a variant of its own, and what it selects for books the variant of
books does not have; nor does it have the alias that stands on the union itself. -/
theorem titledBook_uncovered :
    ofDocument mediaSchema = .ok media ∧
    media.compileDocument titledBook =
      .ok (.object [("media", .nullable (.variants bookOrTitled))], 7) ∧
    (media.scope titledBook).Compiles mediaUnion onBookAndTitled (.variants bookOrTitled) ∧
    Members.get? "Book" bookOrTitled = some pagesFields ∧
    ((media.scope titledBook).HasField mediaBook onBookAndTitled ⟨none, "title", []⟩ ∧
      "title" ∉ Members.keys pagesFields) ∧
    ((media.scope titledBook).HasField mediaBook onBookAndTitled ⟨none, "isbn", []⟩ ∧
      "isbn" ∉ Members.keys pagesFields) ∧
    (media.scope titledBook).HasField mediaUnion onBookAndTitled ⟨some "kind", "__typename", []⟩ ∧
      "kind" ∉ Members.keys pagesFields := by
  have titled : Level.Holds (media.scope titledBook).fragments (mediaBook.applies media.tables)
      onBookAndTitled (.inline (some "Titled") [] onTitled) :=
    .here (by simp [onBookAndTitled])
  have within {s : Selection} (mem : s ∈ onTitled) := titled.within rfl (by decide) mem
  have title : (media.scope titledBook).HasField mediaBook onBookAndTitled ⟨none, "title", []⟩ :=
    ⟨[], [], within List.mem_cons_self⟩
  have isbn : (media.scope titledBook).HasField mediaBook onBookAndTitled ⟨none, "isbn", []⟩ :=
    ⟨[], [], .within (within (List.mem_cons_of_mem _ (List.mem_singleton_self _))) rfl (by decide)
      (List.mem_singleton_self _)⟩
  have kind : (media.scope titledBook).HasField mediaUnion onBookAndTitled
      ⟨some "kind", "__typename", []⟩ := ⟨[], [], .here List.mem_cons_self⟩
  exact ⟨rfl, rfl, ⟨3, 6, rfl⟩, rfl, ⟨title, by decide⟩, ⟨isbn, by decide⟩, kind, by decide⟩

end Subgraph

end FederatedMock
