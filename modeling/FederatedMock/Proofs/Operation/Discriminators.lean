import FederatedMock.Proofs.Operation.Coverage
import FederatedMock.Proofs.Schema.Merging

namespace FederatedMock

open Graphql Shape

namespace Shape

def GivesOnly (s : Shape) (name : String) : Prop :=
  ∀ value r w, (s.apply value r).1 = some w → w = .string name

theorem givesOnly_typename (name : String) : (scalar (.typename name)).GivesOnly name := by
  intro value r w given
  cases value with
  | none =>
      cases given
      rfl
  | some v =>
      cases given
      rfl

theorem givesOnly_singleton (name : String) : (enumeration [name]).GivesOnly name := by
  intro value r w given
  cases value with
  | none => cases given
  | some v =>
      cases v
      case string other =>
        rw [apply, applyEnumeration] at given
        split at given
        · rename_i listed
          cases List.mem_singleton.mp listed
          exact (Option.some.inj given).symm
        · cases given
      all_goals cases given

theorem GivesOnly.eq_of_mem {names : List String} {name other : String}
    (only : (enumeration names).GivesOnly name) (listed : other ∈ names) : other = name := by
  have given := only (some (.string other)) .empty (.string other)
  rw [apply, applyEnumeration, if_pos listed] at given
  exact Json.string.inj (given rfl)

end Shape

namespace Tables

theorem WellNamed.fragmentType {t : Tables} (named : t.WellNamed) {name : String}
    {type : CompositeType} (found : t.fragmentType? name = some type) : type.name = name := by
  unfold fragmentType? at found
  split at found
  · rename_i o object
    cases found
    exact named.objects.name _ (Members.mem_of_get? object)
  · exact named.interfaces.name _ (Members.mem_of_get? found)

end Tables

theorem Subgraph.wellNamed_of_valid {schema : Graphql.Document} {s : Subgraph}
    (valid : ofDocument schema = .ok s) : s.tables.WellNamed := by
  rw [eq_completed valid]
  exact Tables.wellNamed_ofDocument _

theorem Occurrence.mem_of_last? {key : String} {occs : List Occurrence} {o : Occurrence}
    (last : Occurrence.last? key occs = some o) : o ∈ occs ∧ o.key = key := by
  have same := List.find?_some last
  exact ⟨List.mem_reverse.mp (List.mem_of_find?_eq_some last), of_decide_eq_true same⟩

namespace Scope

variable {c : Scope} {p : Parent} {selections : List Selection}

theorem FieldCompiles.eq_typename {f : FieldSelection} {s : Shape}
    (compiled : c.FieldCompiles p f s) (name : f.name = typenameKey) :
    s = p.typename c.tables := by
  obtain ⟨levels, visits, run⟩ := compiled
  rw [selectedShape_typename name, Compiling.pure_eq_ok] at run
  exact run.1.symm

theorem FragmentsOccur.condition_of_mem {shared : List Occurrence}
    {fragments : List ConditionalFragment} {occs : List Occurrence} {condition : String}
    (occur : c.FragmentsOccur shared fragments occs) (fields : ∀ o ∈ shared, ∃ q f, o = .field q f)
    (mem : .discriminator condition ∈ occs) : ∃ g ∈ fragments, g.condition = condition := by
  induction occur with
  | nil => cases mem
  | @cons g rest t own aside occs type level others ih =>
      rcases List.mem_cons.mp mem with here | there
      · cases here
        exact ⟨g, List.mem_cons_self, rfl⟩
      · rcases List.mem_append.mp there with first | later
        · rcases List.mem_append.mp first with kept | mine
          · obtain ⟨q, f, other⟩ := fields _ kept
            cases other
          · obtain ⟨f, -, other⟩ := List.mem_map.mp mine
            cases other
        · obtain ⟨g', listed, same⟩ := ih later
          exact ⟨g', List.mem_cons_of_mem _ listed, same⟩

theorem fields_sharedOccurrences {fields : List FieldSelection} :
    ∀ o ∈ p.sharedOccurrences fields, ∃ q f, o = .field q f := by
  intro o mem
  cases p with
  | interface t =>
      obtain ⟨f, -, rfl⟩ := List.mem_map.mp (List.mem_filter.mp mem).1
      exact ⟨_, f, rfl⟩
  | object t => cases mem
  | union u => cases mem

theorem Occurs.condition_eq {name condition : String} {occs : List Occurrence}
    (occurs : c.Occurs p selections (some name) occs) (mem : .discriminator condition ∈ occs) :
    condition = name := by
  cases occurs with
  | variant level abstract named own =>
      obtain ⟨g, listed, rfl⟩ := own.condition_of_mem fields_sharedOccurrences mem
      exact of_decide_eq_true (List.mem_filter.mp listed).2

theorem Occurs.ne_interface {t : CompositeType} {name : String} {occs : List Occurrence}
    (occurs : c.Occurs (.interface t) selections (some name) occs) : t.name ≠ name := by
  cases occurs with
  | variant level abstract named own =>
      obtain ⟨g, listed, rfl⟩ := named
      obtain ⟨s, holds, found, other⟩ := level.mem_fragments.mp listed
      intro same
      simp [Parent.applies, CompositeType.appliesToInterface, same] at other

/-- The type name of the objects of a variant is given as the name of the variant: under its key,
and under every key whose last selection is an alias of it. -/
structure Honest (occs : List Occurrence) (name : String) (fields : Fields) : Prop where
  discriminator : ∃ entry, fields.get? typenameKey = some entry ∧ entry.GivesOnly name
  aliases : ∀ q f entry, Occurrence.last? f.key occs = some (.field q f) →
    f.name = typenameKey → fields.get? f.key = some entry → entry.GivesOnly name

structure Unmixed (occs : List Occurrence) (name : String) (fields : Fields) : Prop where
  own : ∀ q f entry, Occurrence.last? typenameKey occs = some (.field q f) →
    f.name ≠ typenameKey → fields.get? typenameKey = some entry → entry.GivesOnly name
  shared : ∀ t f, Occurrence.last? f.key occs = some (.field (.interface t) f) →
    f.name ≠ typenameKey

section Variant

variable {name : String} {fields : Fields} {occs : List Occurrence}

theorem givesOnly_of_own {q : Parent} {f : FieldSelection} {entry : Shape}
    (named : c.tables.WellNamed) (occurs : c.Occurs p selections (some name) occs)
    (unmixed : Unmixed occs name fields) (last : Occurrence.last? f.key occs = some (.field q f))
    (typename : f.name = typenameKey) (given : c.Gives (.field q f) entry) :
    entry.GivesOnly name := by
  have selected := occurs.mem_field_iff.mp (Occurrence.mem_of_last? last).1
  cases given with
  | field compiled =>
      rw [compiled.eq_typename typename]
      cases selected with
      | @shared t _ _ interface has other =>
          subst interface
          exact (unmixed.shared t f last typename).elim
      | own abstract fragment type has =>
          rw [← named.fragmentType type]
          exact givesOnly_typename _

theorem honest_of_unmixed (named : c.tables.WellNamed)
    (occurs : c.Occurs p selections (some name) occs)
    (entered : ∀ key, Option.Rel c.Gives (Occurrence.last? key occs) (fields.get? key))
    (unmixed : Unmixed occs name fields) : Honest occs name fields where
  discriminator := by
    have given := entered typenameKey
    cases last : Occurrence.last? typenameKey occs with
    | none => exact (Occurrence.last?_eq_none_iff.mp last _ occurs.discriminator_mem rfl).elim
    | some o =>
        cases found : fields.get? typenameKey with
        | none =>
            rw [last, found] at given
            cases given
        | some entry =>
            rw [last, found] at given
            refine ⟨entry, rfl, ?_⟩
            cases given with
            | some given =>
                obtain ⟨mem, key⟩ := Occurrence.mem_of_last? last
                cases o with
                | discriminator condition =>
                    cases given
                    rw [occurs.condition_eq mem]
                    exact givesOnly_singleton name
                | field q f =>
                    by_cases typename : f.name = typenameKey
                    · rw [← key] at last
                      exact givesOnly_of_own named occurs unmixed last typename given
                    · exact unmixed.own q f entry last typename found
  aliases := by
    intro q f entry last typename found
    have given := entered f.key
    rw [last, found] at given
    cases given with
    | some given => exact givesOnly_of_own named occurs unmixed last typename given

theorem unmixed_of_honest (occurs : c.Occurs p selections (some name) occs)
    (entered : ∀ key, Option.Rel c.Gives (Occurrence.last? key occs) (fields.get? key))
    (honest : Honest occs name fields) : Unmixed occs name fields where
  own := by
    intro q f entry _ _ found
    obtain ⟨entry', found', only⟩ := honest.discriminator
    cases found.symm.trans found'
    exact only
  shared := by
    intro t f last typename
    have selected := occurs.mem_field_iff.mp (Occurrence.mem_of_last? last).1
    have given := entered f.key
    rw [last] at given
    cases found : fields.get? f.key with
    | none =>
        rw [found] at given
        cases given
    | some entry =>
        have only := honest.aliases _ f entry last typename found
        rw [found] at given
        cases given with
        | some given =>
            cases given with
            | field compiled =>
                rw [compiled.eq_typename typename] at only
                have listed : t.name ∈ c.tables.possibleTypenames t :=
                  Names.mem_ofList.mpr List.mem_cons_self
                cases selected with
                | shared interface has other =>
                    exact occurs.ne_interface (only.eq_of_mem listed)

end Variant

end Scope

namespace Subgraph

/-- Every discriminated shape of a document comes from a selection set that compilation reaches,
each of its variants has an entry for its type name, and it is honest exactly if nothing else is
mixed in. -/
theorem compileDocument_discriminators {schema d : Document} {s : Subgraph} {v : Shape}
    {visits : Nat} (valid : ofDocument schema = .ok s)
    (compiled : s.compileDocument d = .ok (v, visits)) :
    (∀ choices, Part (.variants choices) v →
      ∃ a, s.Reaches d a ∧ (s.scope d).Compiles a.1 a.2 (.variants choices)) ∧
    ∀ p selections choices name fields, (s.scope d).Compiles p selections (.variants choices) →
      Members.get? name choices = some fields →
        typenameKey ∈ Members.keys fields ∧
        (∃ occs, (s.scope d).Occurs p selections (some name) occs) ∧
        ∀ occs, (s.scope d).Occurs p selections (some name) occs →
          (Scope.Honest occs name fields ↔ Scope.Unmixed occs name fields) := by
  have named : (s.scope d).tables.WellNamed := by
    rw [eq_completed valid]
    exact Tables.wellNamed_ofDocument _
  refine ⟨fun choices part => reaches_of_part compiled part, ?_⟩
  intro p selections choices name fields inside found
  have here : (Shape.variants choices).part? (some name) = some fields := found
  obtain ⟨occs, occurs, entered⟩ := inside.entered here
  refine ⟨(inside.covers found).typename, ⟨occs, occurs⟩, fun occs' occurs' => ?_⟩
  cases occurs'.unique occurs
  exact ⟨Scope.unmixed_of_honest occurs entered, Scope.honest_of_unmixed named occurs entered⟩

def bookTitleFields : Fields :=
  [(typenameKey, .enumeration ["Book"]), ("title", .nullable (.scalar (.string .any)))]

def titleField : FieldSelection := ⟨none, "title", []⟩

def titleFragment : ConditionalFragment := ⟨"Book", [.field none "title" [] [] []]⟩

theorem bookTitle_honest :
    ofDocument librarySchema = .ok library ∧
    library.compileDocument bookTitle = .ok (bookTitleShape, 3) ∧
    (library.scope bookTitle).Compiles libraryNode onBook
      (.variants [("Book", bookTitleFields)]) ∧
    Scope.Honest [.discriminator "Book", .field libraryBook titleField] "Book" bookTitleFields := by
  have inside : (library.scope bookTitle).Compiles libraryNode onBook
      (.variants [("Book", bookTitleFields)]) := ⟨3, 2, rfl⟩
  have level : (library.scope bookTitle).Collects libraryNode onBook [] [titleFragment] :=
    ⟨3, 1, rfl⟩
  have fragment : (library.scope bookTitle).Collects libraryBook titleFragment.selections
      [titleField] [] := ⟨2, 1, rfl⟩
  have own : (library.scope bookTitle).FragmentsOccur (libraryNode.sharedOccurrences [])
      [titleFragment] [.discriminator "Book", .field libraryBook titleField] :=
    .cons rfl fragment .nil
  have occurs : (library.scope bookTitle).Occurs libraryNode onBook (some "Book")
      [.discriminator "Book", .field libraryBook titleField] :=
    .variant level trivial ⟨_, List.mem_singleton_self _, rfl⟩ own
  have unmixed : Scope.Unmixed [.discriminator "Book", .field libraryBook titleField] "Book"
      bookTitleFields := by
    constructor
    · intro q f entry last
      cases last
    · intro t f last
      obtain ⟨mem, -⟩ := Occurrence.mem_of_last? last
      simp [libraryBook] at mem
  have valid : ofDocument librarySchema = .ok library := rfl
  have discriminators := (compileDocument_discriminators valid bookTitle_compiles).2
  have honest := (discriminators _ _ _ "Book" _ inside rfl).2.2 _ occurs
  exact ⟨valid, bookTitle_compiles, inside, honest.mpr unmixed⟩

-- `query { node { kind: __typename ... on Book { title } } }`
def bookKind : Document :=
  [.operation ⟨.query, none, [], [],
    [.field none "node" [] [] (.field (some "kind") "__typename" [] [] [] :: onBook)]⟩]

def bookKindShape : Shape :=
  .object [("node", .nullable (.variants [("Book",
    [(typenameKey, .enumeration ["Book"]), ("kind", .enumeration ["Node", "Book"]),
      ("title", .nullable (.scalar (.string .any)))])]))]

def bookOfKindNode : Json :=
  .object [("node", .object [(typenameKey, .string "Book"), ("kind", .string "Node"),
    ("title", .string "Emma")])]

theorem bookKind_dishonest :
    ofDocument librarySchema = .ok library ∧
    library.compileDocument bookKind = .ok (bookKindShape, 4) ∧
    bookKindShape.validate bookOfKindNode = .ok bookOfKindNode :=
  ⟨rfl, rfl, rfl⟩

end Subgraph

end FederatedMock
