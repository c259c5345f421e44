import FederatedMock.Proofs.Operation.Limits
import FederatedMock.Proofs.Operation.Variants
import FederatedMock.Proofs.Response.Typing
import FederatedMock.Proofs.Shape.Coercion

namespace FederatedMock

open Graphql Shape

namespace Scope

variable {c : Scope} {p : Parent} {selections : List Selection}

theorem fits_of_wrap {type : TypeRef} {s : Shape}
    (base : ∀ nonNull value w, Coerces s value (some w) →
      c.Fits (.named type.base nonNull) selections w)
    {value : Option Json} {w : Json} (taken : Coerces (TypeRef.wrap s type) value (some w)) :
    c.Fits type selections w := by
  induction type generalizing value w with
  | named name nonNull =>
      cases nonNull with
      | true => exact base true value w taken
      | false =>
          cases taken with
          | null => exact .null rfl
          | present notNull inside => exact base false _ w inside
  | list item nonNull ih =>
      cases nonNull with
      | true =>
          cases taken with
          | list each =>
              refine .array fun v mem => ?_
              obtain ⟨before, inside⟩ := each.exists_item mem
              exact ih base inside
      | false =>
          cases taken with
          | null => exact .null rfl
          | present notNull inside =>
              cases inside with
              | list each =>
                  refine .array fun v mem => ?_
                  obtain ⟨before, inside⟩ := each.exists_item mem
                  exact ih base inside

theorem nullable_of_absent {type : TypeRef} {s : Shape} (base : ∀ value, ¬ Coerces s value none)
    {value : Option Json} (absent : Coerces (TypeRef.wrap s type) value none) :
    type.isNonNull = false := by
  cases type with
  | named name nonNull =>
      cases nonNull with
      | true => exact (base value absent).elim
      | false => rfl
  | list item nonNull =>
      cases nonNull with
      | true => cases absent
      | false => rfl

inductive FieldFits (c : Scope) (q : Parent) (f : FieldSelection) : Json → Prop
  | declared {type : TypeRef} {v : Json} (declared : Declares q f type)
      (fits : c.Fits type f.selections v) : FieldFits c q f v
  | typename {name : String} (field : f.name = typenameKey)
      (possible : name ∈ q.typenames c.tables) : FieldFits c q f (.string name)

/-- A shape stands for a field: what it takes is a value of the field, and it lets only those be
absent that need not be there. -/
structure StandsFor (c : Scope) (q : Parent) (f : FieldSelection) (s : Shape) : Prop where
  fits : ∀ value w, Coerces s value (some w) → c.FieldFits q f w
  absent : ∀ value, Coerces s value none → ∃ type, Declares q f type ∧ type.isNonNull = false

structure EntriesOf (c : Scope) (q : Parent) (fields : FieldSelection → Prop)
    (entries : List (String × Shape)) : Prop where
  sound : ∀ e ∈ entries, ∃ f, fields f ∧ f.key = e.1 ∧ c.StandsFor q f e.2
  complete : ∀ f, fields f → f.key ∈ Members.keys entries

theorem standsFor_typename {q : Parent} {f : FieldSelection} (field : f.name = typenameKey) :
    c.StandsFor q f (q.typename c.tables) where
  fits := by
    intro value w taken
    cases q with
    | object t =>
        cases taken with
        | scalar coerced =>
            cases value with
            | none =>
                cases coerced
                exact .typename field (List.mem_singleton_self _)
            | some v =>
                cases coerced
                exact .typename field (List.mem_singleton_self _)
    | interface t =>
        cases taken with
        | enumerator mem => exact .typename field mem
    | union u =>
        cases taken with
        | enumerator mem => exact .typename field mem
  absent := by
    intro value taken
    cases q <;> cases taken

theorem standsFor_declared {q : Parent} {f : FieldSelection} {type : TypeRef} {s : Shape}
    (declared : Declares q f type)
    (fits : ∀ nonNull value w, Coerces s value (some w) →
      c.Fits (.named type.base nonNull) f.selections w)
    (present : ∀ {value}, ¬ Coerces s value none) : c.StandsFor q f (TypeRef.wrap s type) where
  fits := fun _ _ taken => .declared declared (fits_of_wrap fits taken)
  absent := fun _ taken => ⟨type, declared, nullable_of_absent (fun _ => present) taken⟩

theorem EntriesOf.cons {q : Parent} {f : FieldSelection} {rest : List FieldSelection} {s : Shape}
    {entries : List (String × Shape)} (others : c.EntriesOf q (· ∈ rest) entries)
    (first : c.StandsFor q f s) : c.EntriesOf q (· ∈ f :: rest) ((f.key, s) :: entries) where
  sound := by
    refine List.forall_mem_cons.mpr ⟨⟨f, List.mem_cons_self, rfl, first⟩, ?_⟩
    intro e mem
    obtain ⟨g, listed, stands⟩ := others.sound e mem
    exact ⟨g, List.mem_cons_of_mem _ listed, stands⟩
  complete := by
    refine List.forall_mem_cons.mpr ⟨List.mem_cons_self, ?_⟩
    intro g mem
    exact List.mem_cons_of_mem _ (others.complete g mem)

theorem Derives.present {v : Shape} {visits depth : Nat}
    (derived : c.Derives p selections v visits depth) {value : Option Json} :
    ¬ Coerces v value none := by
  intro taken
  cases derived <;> cases taken

theorem DerivesNamed.present {name : String} {f : FieldSelection} {v : Shape}
    {visits depth : Nat} (derived : c.DerivesNamed name f v visits depth) {value : Option Json} :
    ¬ Coerces v value none := by
  intro taken
  cases derived with
  | scalar found => cases taken
  | enumeration custom found => cases taken
  | composite found selected inside => exact inside.present taken

theorem EntriesOf.of_level {l : Level} {visits depth : Nat} {entries : List (String × Shape)}
    (stand : c.EntriesOf p (· ∈ l.fields.reverse) entries)
    (level : c.Expands p selections l visits depth) :
    c.EntriesOf p (c.HasField p selections) (Members.ofList entries) where
  sound := by
    intro e mem
    obtain ⟨f, listed, key, stands⟩ := stand.sound e (Members.mem_ofList mem)
    exact ⟨f, level.mem_fields.mp listed, key, stands⟩
  complete := by
    intro f has
    have listed := level.mem_fields.mpr has
    exact Members.mem_keys_ofList.mpr (stand.complete f listed)

def OwnOf (c : Scope) (g : ConditionalFragment) (own : Fields) : Prop :=
  ∃ t, c.tables.fragmentType? g.condition = some t ∧
    c.EntriesOf (.object t) (c.HasField (.object t) g.selections) own

theorem answers_of_fields {condition : Option String} {fields : List (String × Shape)}
    {members outs : Members Json} (matched : c.Matches p selections condition)
    (each : FieldsCoerce fields members outs)
    (sound : ∀ e ∈ fields,
      (∃ q f, c.Selects p selections condition q f ∧ f.key = e.1 ∧ c.StandsFor q f e.2) ∨
        ∃ name, condition = some name ∧ e = (typenameKey, .enumeration [name]))
    (complete : ∀ q f, c.Selects p selections condition q f → f.key ∈ Members.keys fields) :
    c.Answers p selections (.object outs) := by
  refine .object matched ?_ ?_
  · rintro ⟨key, w⟩ out
    obtain ⟨s, mem, taken⟩ := each.exists_field out
    rcases sound _ mem with ⟨q, f, selected, rfl, stands⟩ | ⟨name, rfl, same⟩
    · cases stands.fits _ _ taken with
      | declared declared fits => exact .field selected declared fits
      | typename field possible => exact .typename selected field possible
    · obtain ⟨rfl, rfl⟩ := Prod.mk.inj same
      obtain ⟨name', listed, out⟩ := taken.enumerator_out
      cases List.mem_singleton.mp listed
      cases out
      exact .discriminator
  · intro q f selected
    by_cases out : f.key ∈ Members.keys outs
    · exact .inl out
    · obtain ⟨s, mem, taken⟩ := each.exists_absent (complete q f selected) out
      rcases sound _ mem with ⟨q', f', selected', same, stands⟩ | ⟨name, rfl, same⟩
      · obtain ⟨type, declared, nullable⟩ := stands.absent _ taken
        exact .inr ⟨q', f', type, selected', same, declared, nullable⟩
      · obtain ⟨-, rfl⟩ := Prod.mk.inj same
        obtain ⟨name', -, out⟩ := taken.enumerator_out
        cases out

theorem answers_of_plain {entries : Fields} {members outs : Members Json}
    (whole : p.IsAbstract → ∀ g, ¬ c.HasFragment p selections g)
    (stand : c.EntriesOf p (c.HasField p selections) entries)
    (each : FieldsCoerce entries members outs) : c.Answers p selections (.object outs) := by
  refine answers_of_fields (.plain whole) each ?_ ?_
  · intro e mem
    obtain ⟨f, has, key, stands⟩ := stand.sound e mem
    exact .inl ⟨p, f, .plain has, key, stands⟩
  · intro q f selected
    cases selected with
    | plain has => exact stand.complete f has

theorem answers_of_variant {entries fields : Fields} {owns : List (String × Fields)}
    {name : String} {members outs : Members Json} (abstract : p.IsAbstract)
    (stand : c.EntriesOf p (c.HasField p selections) entries)
    (sound : ∀ o ∈ owns, ∃ g, c.HasFragment p selections g ∧ g.condition = o.1 ∧ c.OwnOf g o.2)
    (complete : ∀ g, c.HasFragment p selections g →
      ∃ own, (g.condition, own) ∈ owns ∧ c.OwnOf g own)
    (variant : VariantOf (p.shared entries) owns name fields)
    (each : FieldsCoerce fields members outs) : c.Answers p selections (.object outs) := by
  obtain ⟨own, mem⟩ := variant.named
  obtain ⟨g, has, same, -⟩ := sound _ mem
  have matched : c.Matches p selections (some g.condition) := .narrowed abstract has
  change g.condition = name at same
  rw [same] at matched
  refine answers_of_fields matched each ?_ ?_
  · intro e mem
    rcases variant.sound e mem with first | ⟨kept, other⟩ | ⟨own, known, mine⟩
    · exact .inr ⟨name, rfl, first⟩
    · cases p with
      | object t => exact abstract.elim
      | interface t =>
          obtain ⟨f, has, key, stands⟩ := stand.sound e kept
          exact .inl ⟨_, f, .shared rfl has (key ▸ other), key, stands⟩
      | union u => exact (List.not_mem_nil kept).elim
    · obtain ⟨g, has, rfl, t, type, stand⟩ := sound _ known
      obtain ⟨f, hasField, key, stands⟩ := stand.sound e mine
      exact .inl ⟨_, f, .own abstract has type hasField, key, stands⟩
  · intro q f selected
    cases selected with
    | shared interface has key =>
        subst interface
        exact variant.shares _ (stand.complete f has) key
    | own _ fragment type has =>
        obtain ⟨own, known, t, type', stand'⟩ := complete _ fragment
        cases type.symm.trans type'
        exact variant.owns own known _ (stand'.complete f has)

mutual

theorem Derives.answers {p : Parent} {selections : List Selection} {v : Shape}
    {visits depth : Nat} : c.Derives p selections v visits depth →
      ∀ value w, Coerces v value (some w) → c.Answers p selections w
  | .object level plain fields => by
      intro value w taken
      cases taken with
      | object each =>
          refine answers_of_plain ?_ (fields.entries.of_level level) each
          intro abstract g has
          have mem := level.mem_fragments.mpr has
          simp [plain abstract] at mem
  | .variants level abstract narrowed fields fragments => by
      intro value w taken
      cases taken with
      | variant selected found each =>
          obtain ⟨sound, complete⟩ := fragments.owns
          refine answers_of_variant abstract (fields.entries.of_level level) ?_ ?_
            (variantOf_of_get? found) each
          · intro o mem
            obtain ⟨g, listed, same, own⟩ := sound o mem
            exact ⟨g, level.mem_fragments.mp listed, same, own⟩
          · intro g has
            exact complete g (level.mem_fragments.mpr has)

theorem DerivesFields.entries {p : Parent} {fields : List FieldSelection}
    {entries : List (String × Shape)} {visits depth : Nat} :
    c.DerivesFields p fields entries visits depth → c.EntriesOf p (· ∈ fields) entries
  | .nil => ⟨fun _ mem => (List.not_mem_nil mem).elim, fun _ mem => (List.not_mem_nil mem).elim⟩
  | .typename name others => others.entries.cons (standsFor_typename name)
  | .field name declared base others =>
      others.entries.cons (standsFor_declared ⟨name, declared⟩ base.fits base.present)

theorem DerivesNamed.fits {name : String} {f : FieldSelection} {v : Shape} {visits depth : Nat} :
    c.DerivesNamed name f v visits depth → ∀ nonNull value w, Coerces v value (some w) →
      c.Fits (.named name nonNull) f.selections w
  | .scalar found => by
      intro nonNull value w taken
      cases taken with
      | scalar coerced => exact .scalar found (ScalarRule.admits_coerce coerced)
  | .enumeration custom found => by
      intro nonNull value w taken
      cases taken with
      | enumerator mem => exact .enumerator custom found mem
  | .composite found selected inside => by
      intro nonNull value w taken
      exact .composite found (inside.answers value w taken)

theorem DerivesFragments.owns {fragments : List ConditionalFragment}
    {owns : List (String × Fields)} {visits depth : Nat} :
    c.DerivesFragments fragments owns visits depth →
      (∀ o ∈ owns, ∃ g ∈ fragments, g.condition = o.1 ∧ c.OwnOf g o.2) ∧
        ∀ g ∈ fragments, ∃ own, (g.condition, own) ∈ owns ∧ c.OwnOf g own
  | .nil => ⟨fun _ mem => (List.not_mem_nil mem).elim, fun _ mem => (List.not_mem_nil mem).elim⟩
  | .cons found (.object level plain fields) others => by
      obtain ⟨sound, complete⟩ := others.owns
      have own : c.OwnOf _ _ := ⟨_, found, fields.entries.of_level level⟩
      refine ⟨List.forall_mem_cons.mpr ⟨?_, ?_⟩, List.forall_mem_cons.mpr ⟨?_, ?_⟩⟩
      · exact ⟨_, List.mem_cons_self, rfl, own⟩
      · intro o mem
        obtain ⟨g, listed, rest⟩ := sound o mem
        exact ⟨g, List.mem_cons_of_mem _ listed, rest⟩
      · exact ⟨_, List.mem_cons_self, own⟩
      · intro g mem
        obtain ⟨own, listed, rest⟩ := complete g mem
        exact ⟨own, List.mem_cons_of_mem _ listed, rest⟩

end

end Scope

namespace Subgraph

/-- What the shape of a document makes of a value answers the document. -/
theorem validate_answers {s : Subgraph} {d : Document} {v : Shape} {visits : Nat} {x y : Json}
    (compiled : s.compileDocument d = .ok (v, visits)) (accepted : v.validate x = .ok y) :
    s.Answers d y := by
  obtain ⟨depth, ⟨p, selections, start, derived⟩, -⟩ := compileDocument_eq_ok.mp compiled
  exact ⟨p, selections, start, derived.answers _ _ (validate_eq_ok_iff.mp accepted)⟩

def librarySchema : Document :=
  let id : FieldDefinition := ⟨none, "id", [], .named "ID" false, []⟩
  let title : FieldDefinition := ⟨none, "title", [], .named "String" false, []⟩
  [.type ⟨false, none, "Query", [], .object [] [⟨none, "node", [], .named "Node" false, []⟩]⟩,
    .type ⟨false, none, "Node", [], .interface [] [id]⟩,
    .type ⟨false, none, "Book", [], .object ["Node"] [id, title]⟩]

def library : Subgraph :=
  completed librarySchema

def onBook : List Selection :=
  [.inline (some "Book") [] [.field none "title" [] [] []]]

-- `query { node { ... on Book { title } } }`
def bookTitle : Document :=
  [.operation ⟨.query, none, [], [], [.field none "node" [] [] onBook]⟩]

def bookTitleShape : Shape :=
  .object [("node", .nullable (.variants [("Book",
    [(typenameKey, .enumeration ["Book"]), ("title", .nullable (.scalar (.string .any)))])]))]

def book : Json :=
  .object [("node", .object [(typenameKey, .string "Book"), ("title", .string "Emma")])]

theorem bookTitle_compiles :
    library.compileDocument bookTitle = .ok (bookTitleShape, 3) := rfl

theorem book_validates : bookTitleShape.validate book = .ok book := rfl

theorem bookTitle_answered : library.compileDocument bookTitle = .ok (bookTitleShape, 3) ∧
    bookTitleShape.validate book = .ok book ∧ library.Answers bookTitle book :=
  ⟨bookTitle_compiles, book_validates, validate_answers bookTitle_compiles book_validates⟩

def libraryNode : Parent := .interface ⟨"Node", [], [("id", .named "ID" false)]⟩

theorem typename_unselected :
    ofDocument librarySchema = .ok library ∧
    library.compileDocument bookTitle = .ok (bookTitleShape, 3) ∧
    bookTitleShape.validate book = .ok book ∧
    library.tables.composite? "Node" = some libraryNode ∧
    ∀ condition q f, (library.scope bookTitle).Selects libraryNode onBook condition q f →
      f.key ≠ typenameKey := by
  refine ⟨rfl, bookTitle_compiles, book_validates, rfl, ?_⟩
  have aside {s : Selection} (holds : Level.Holds (library.scope bookTitle).fragments
      (libraryNode.applies library.tables) onBook s) : s ∈ onBook := by
    refine holds.mem_of_asides fun f mem condition inner found => ?_
    cases List.mem_singleton.mp mem
    cases found
    exact ⟨"Book", rfl, rfl⟩
  have direct (f : FieldSelection) :
      ¬ (library.scope bookTitle).HasField libraryNode onBook f := by
    rintro ⟨arguments, directives, holds⟩
    cases List.mem_singleton.mp (aside holds)
  intro condition q f selected
  cases selected with
  | plain has => exact (direct f has).elim
  | shared interface has => exact (direct f has).elim
  | @own g t f abstract fragment type has =>
      obtain ⟨s, holds, found, -⟩ := fragment
      obtain ⟨condition, selections⟩ := g
      cases List.mem_singleton.mp (aside holds)
      cases found
      obtain ⟨arguments, directives, holds⟩ := has
      have mem := holds.mem_of_asides fun f mem condition inner found => by
        cases List.mem_singleton.mp mem
        cases found
      obtain ⟨responseName, name, selections⟩ := f
      cases List.mem_singleton.mp mem
      simp [FieldSelection.key, responseKey, typenameKey]

end Subgraph

end FederatedMock
