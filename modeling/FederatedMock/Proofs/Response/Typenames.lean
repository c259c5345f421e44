import FederatedMock.Proofs.Operation.Typenames
import FederatedMock.Proofs.Shape.Trimming

namespace FederatedMock

open Graphql Shape Occurrence

inductive AtBase : TypeRef → Json → Json → Prop
  | named {name : String} {nonNull : Bool} {y : Json} : AtBase (.named name nonNull) y y
  | list {item : TypeRef} {nonNull : Bool} {items : List Json} {y z : Json} (mem : y ∈ items)
      (inside : AtBase item y z) : AtBase (.list item nonNull) (.array items) z

theorem AtBase.sizeOf_le {type : TypeRef} {y z : Json} (base : AtBase type y z) :
    sizeOf z ≤ sizeOf y := by
  induction base with
  | named => exact Nat.le_refl _
  | list mem inside ih =>
      have smaller := List.sizeOf_lt_of_mem mem
      simp only [Json.array.sizeOf_spec]
      omega

theorem Shape.AgreesOn.wrap {base more : Shape} (absent : base.AgreesOn more none)
    {type : TypeRef} {value : Option Json}
    (agrees : ∀ y z, value = some y → AtBase type y z → base.AgreesOn more (some z)) :
    (TypeRef.wrap base type).AgreesOn (TypeRef.wrap more type) value := by
  induction type generalizing value with
  | named name nonNull =>
      have plain : base.AgreesOn more value := by
        cases value with
        | none => exact absent
        | some y => exact agrees y y rfl .named
      cases nonNull with
      | true => exact plain
      | false => exact .nullable fun _ _ => plain
  | list item nonNull ih =>
      have items : (Shape.list (TypeRef.wrap base item)).AgreesOn
          (.list (TypeRef.wrap more item)) value := by
        refine .list fun items y array mem => ih fun y' z same inside => ?_
        cases same
        exact agrees _ z array (.list mem inside)
      cases nonNull with
      | true => exact items
      | false => exact .nullable fun _ _ => items

namespace Scope

/-- Within a value that a selection set is made of on a parent, a value stands at a position of some
parent: it is the value itself, or it stands within a member, at the type of the field that has the
key of the member. Objects that fragments narrow are read by their type name. -/
inductive Stands (c : Scope) (q : Parent) (z : Json) : Parent → List Selection → Json → Prop
  | here {selections : List Selection} : Stands c q z q selections z
  | member {p p' r : Parent} {selections : List Selection} {condition : Option String}
      {occs : List Occurrence} {members : Members Json} {key : String} {f : FieldSelection}
      {type : TypeRef} {y w : Json} (occurs : c.Occurs p selections condition occs)
      (read : ∀ name ∈ condition, members.get? typenameKey = some (.string name))
      (last : last? key occs = some (.field p' f)) (declared : Declares p' f type)
      (composite : c.tables.composite? type.base = some r) (given : members.get? key = some y)
      (base : AtBase type y w) (inside : Stands c q z r f.selections w) :
      Stands c q z p selections (.object members)

def Typenamed (c : Scope) (p : Parent) (selections : List Selection) (x : Json) : Prop :=
  ∀ q (members : Members Json), c.Stands q (.object members) p selections x → q.IsAbstract →
    ∃ name ∈ q.typenames c.tables, members.get? typenameKey = some (.string name)

end Scope

namespace Scope

variable {c : Scope} {p : Parent} {selections more : List Selection}

theorem agreesOn_typename (p : Parent) (value : Option Json) :
    (p.typename c.tables).AgreesOn (p.typename c.tables) value := by
  cases p with
  | object t => exact .scalar _ _
  | interface t => exact .enumeration _ _
  | union u => exact .enumeration _ _

theorem typename_taken (members : Members Json) (typed : p.IsAbstract →
      ∃ name ∈ p.typenames c.tables, members.get? typenameKey = some (.string name)) :
    ∃ out, Coerces (p.typename c.tables) (members.get? typenameKey) out := by
  cases p with
  | object t =>
      refine ⟨some (.string t.name), .scalar ?_⟩
      cases members.get? typenameKey <;> rfl
  | interface t =>
      obtain ⟨name, possible, given⟩ := typed trivial
      rw [given]
      exact ⟨_, .enumerator possible⟩
  | union u =>
      obtain ⟨name, possible, given⟩ := typed trivial
      rw [given]
      exact ⟨_, .enumerator possible⟩

theorem coerces_named {name : String} {s : Shape} {out : Option Json}
    (named : s = .scalar (.typename name) ∨ s = .enumeration [name]) :
    Coerces s (some (.string name)) out ↔ out = some (.string name) := by
  constructor
  · intro taken
    rcases named with rfl | rfl
    · cases taken with
      | scalar coerced =>
          cases coerced
          rfl
    · cases taken
      rfl
  · rintro rfl
    rcases named with rfl | rfl
    · exact .scalar rfl
    · exact .enumerator (List.mem_singleton_self name)

theorem agreesOn_named {name : String} {s s' : Shape}
    (named : s = .scalar (.typename name) ∨ s = .enumeration [name])
    (named' : s' = .scalar (.typename name) ∨ s' = .enumeration [name]) :
    s.AgreesOn s' (some (.string name)) where
  taken := iff_of_true ⟨_, (coerces_named named).mpr rfl⟩ ⟨_, (coerces_named named').mpr rfl⟩
  trims := by
    intro out out' taken taken'
    rw [(coerces_named named).mp taken, (coerces_named named').mp taken']
    rcases named with rfl | rfl
    · exact .present .scalar
    · exact .present .enumerator

theorem Compiles.reserved_plain {fields : Fields} {s : Shape}
    (compiled : c.Compiles p selections (.object fields)) (reserved : c.Reserves selections)
    (found : fields.get? typenameKey = some s) : s = p.typename c.tables := by
  obtain ⟨visits, depth, derived, -⟩ := compiles_iff.mp compiled
  exact derived.reserved reserved _ (Members.mem_of_get? found) rfl

theorem Compiles.reserved_variant (tables : c.tables.WellNamed) {choices : Variants}
    {fields : Fields} {name : String} (compiled : c.Compiles p selections (.variants choices))
    (reserved : c.Reserves selections) (found : choices.get? name = some fields) :
    fields.get? typenameKey = some (.scalar (.typename name)) ∨
      fields.get? typenameKey = some (.enumeration [name]) := by
  obtain ⟨visits, depth, derived, -⟩ := compiles_iff.mp compiled
  exact (derived.named tables reserved).here _ (Members.mem_of_get? found)

theorem Selects.reserves {condition : Option String} {q : Parent} {f : FieldSelection}
    (selected : c.Selects p selections condition q f) (reserved : c.Reserves selections) :
    c.Reserves f.selections := by
  cases selected with
  | plain has => exact (reserved.field has).2
  | shared _ has _ => exact (reserved.field has).2
  | own _ fragment _ has => exact ((reserved.fragment fragment).field has).2

def AgreesBelow (c : Scope) (n : Nat) : Prop :=
  ∀ p selections more v v' x, sizeOf x < n → c.Compiles p selections v →
    c.addTypename.Compiles p more v' → AddsTypename selections more → c.Reserves selections →
      c.Typenamed p selections x → v.AgreesOn v' (some x)

theorem Derives.absent_not_taken {v : Shape} {visits depth : Nat} {out : Option Json}
    (derived : c.Derives p selections v visits depth) : ¬ Coerces v none out := by
  intro taken
  cases derived <;> cases taken

theorem DerivesNamed.flat_or_composite {name : String} {f f' : FieldSelection} {s s' : Shape}
    {visits depth visits' depth' : Nat} (derived : c.DerivesNamed name f s visits depth)
    (derived' : c.addTypename.DerivesNamed name f' s' visits' depth') :
    (∀ value, s.AgreesOn s' value) ∨ ∃ r depth depth', c.tables.composite? name = some r ∧
      c.Derives r f.selections s visits depth ∧
        c.addTypename.Derives r f'.selections s' visits' depth' := by
  cases derived with
  | scalar found =>
      cases derived' with
      | scalar found' =>
          cases found.symm.trans found'
          exact .inl (.scalar _)
      | enumeration custom => cases found.symm.trans custom
      | composite found' => simp [Tables.composite?, found] at found'
  | enumeration custom found =>
      cases derived' with
      | scalar found' => cases custom.symm.trans found'
      | enumeration custom' found' =>
          cases found.symm.trans found'
          exact .inl (.enumeration _)
      | composite found' => simp [Tables.composite?, custom, found] at found'
  | composite found selected inside =>
      obtain ⟨custom, plain, -⟩ := composite?_eq_some_iff.mp found
      cases derived' with
      | scalar found' => cases custom.symm.trans found'
      | enumeration custom' found' => cases plain.symm.trans found'
      | composite found' selected' inside' =>
          cases found.symm.trans found'
          exact .inr ⟨_, _, _, found, inside, inside'⟩

theorem FieldCompiles.agreesOn {q : Parent} {f f' : FieldSelection} {s s' : Shape} {n : Nat}
    {value : Option Json} (below : c.AgreesBelow n) (compiled : c.FieldCompiles q f s)
    (compiled' : c.addTypename.FieldCompiles q f' s') (adds : f.AddsTypename f')
    (reserved : c.Reserves f.selections) (small : ∀ y, value = some y → sizeOf y < n)
    (typed : ∀ type r y z, Declares q f type → c.tables.composite? type.base = some r →
      value = some y → AtBase type y z → c.Typenamed r f.selections z) : s.AgreesOn s' value := by
  by_cases name : f.name = typenameKey
  · rw [compiled.eq_typename name, compiled'.eq_typename (adds.name.trans name)]
    exact agreesOn_typename q value
  have name' : f'.name ≠ typenameKey := by rwa [adds.name]
  obtain ⟨type, base, visits, depth, declared, derived, limit, rfl⟩ :=
    (fieldCompiles_declared name).mp compiled
  obtain ⟨type', base', visits', depth', declared', derived', limit', rfl⟩ :=
    (fieldCompiles_declared name').mp compiled'
  rw [adds.name] at declared'
  cases declared.symm.trans declared'
  rcases derived.flat_or_composite derived' with flat | ⟨r, _, _, found, inside, inside'⟩
  · exact .wrap (flat none) fun _ z _ _ => flat (some z)
  · refine .wrap ?_ fun y z given base => ?_
    · exact .of_not_taken (fun _ => inside.absent_not_taken) fun _ => inside'.absent_not_taken
    · have less := Nat.lt_of_le_of_lt base.sizeOf_le (small y given)
      exact below _ _ _ _ _ z less (compiles_iff.mpr ⟨_, _, inside, limit⟩)
        (compiles_iff.mpr ⟨_, _, inside', limit'⟩) (adds.selections name) reserved
        (typed _ _ _ _ ⟨name, declared⟩ found given base)

theorem AgreesBelow.others {members : Members Json} {v v' : Shape} {fields fields' : Fields}
    (below : c.AgreesBelow (sizeOf (Json.object members))) (name : Option String)
    (compiled : c.Compiles p selections v) (compiled' : c.addTypename.Compiles p more v')
    (adds : AddsTypename selections more) (reserved : c.Reserves selections)
    (typed : c.Typenamed p selections (.object members))
    (read : ∀ n ∈ name, members.get? typenameKey = some (.string n))
    (part : v.part? name = some fields) (part' : v'.part? name = some fields') (key : String)
    (other : key ≠ typenameKey) :
    Option.Rel (fun s s' => s.AgreesOn s' (members.get? key)) (fields.get? key)
      (fields'.get? key) := by
  obtain ⟨occs, occurs, entered⟩ := compiled.entered part
  obtain ⟨occs', occurs', entered'⟩ := compiled'.entered part'
  have same := last?_pads (occurs.pads adds occurs') other
  have entry := entered key
  have entry' := entered' key
  generalize found : last? key occs = o at same entry
  generalize last? key occs' = o' at same entry'
  generalize fields.get? key = s at entry ⊢
  generalize fields'.get? key = s' at entry' ⊢
  cases same with
  | none =>
      cases entry
      cases entry'
      exact .none
  | some same =>
      cases entry with
      | some gives =>
          cases entry' with
          | some gives' =>
              cases same with
              | discriminator => exact (other (mem_of_last? found).2.symm).elim
              | @field q f f' extended =>
                  cases gives with
                  | field compiles =>
                      cases gives' with
                      | field compiles' =>
                          have selected := occurs.mem_field_iff.mp (mem_of_last? found).1
                          refine .some (compiles.agreesOn below compiles' extended
                            (selected.reserves reserved) ?_ ?_)
                          · intro y given
                            have below := Members.sizeOf_lt_of_get? given
                            rw [Json.object.sizeOf_spec]
                            omega
                          · intro type r y z declared composite given base q members' inside
                            exact typed q members' (.member occurs read found declared composite
                              given base inside)

theorem Compiles.alike {v v' : Shape} (compiled : c.Compiles p selections v)
    (compiled' : c.addTypename.Compiles p more v') (adds : AddsTypename selections more) :
    (∃ fields fields', v = .object fields ∧ v' = .object fields') ∨
      ∃ choices choices' : Variants, v = .variants choices ∧ v' = .variants choices' ∧
        ∀ name, choices.get? name = none ↔ choices'.get? name = none := by
  obtain ⟨visits, depth, derived, -⟩ := compiles_iff.mp compiled
  obtain ⟨visits', depth', derived', -⟩ := compiles_iff.mp compiled'
  cases derived with
  | @object _ _ l _ _ _ _ _ level plain fields =>
      cases derived' with
      | object => exact .inl ⟨_, _, rfl, rfl⟩
      | variants level' abstract narrowed =>
          have same := level.conditions adds level'
          rw [plain abstract] at same
          exact (narrowed (List.map_eq_nil_iff.mp same)).elim
  | variants level abstract narrowed fields fragments =>
      cases derived' with
      | object level' plain' =>
          have same := level.conditions adds level'
          rw [plain' abstract] at same
          exact (narrowed (List.map_eq_nil_iff.mp same.symm)).elim
      | variants level' abstract' narrowed' =>
          refine .inr ⟨_, _, rfl, rfl, fun name => ?_⟩
          rw [Members.get?_eq_none_iff, Members.get?_eq_none_iff, compiled.mem_keys_iff,
            compiled'.mem_keys_iff]
          simp only [← level.mem_fragments, ← level'.mem_fragments, ← List.mem_map,
            List.map_reverse, level.conditions adds level']

theorem Compiles.takes_object {v : Shape} {x : Json} {out : Option Json}
    (compiled : c.Compiles p selections v) (taken : Coerces v (some x) out) :
    ∃ members, x = .object members := by
  obtain ⟨visits, depth, derived, -⟩ := compiles_iff.mp compiled
  cases derived <;> cases taken <;> exact ⟨_, rfl⟩

theorem Compiles.distinctKeys {v : Shape} (compiled : c.Compiles p selections v) :
    DistinctKeys v := by
  obtain ⟨visits, depth, derived, -⟩ := compiles_iff.mp compiled
  exact derived.keyed.here

theorem Compiles.typename_kept {fields fields' : Fields}
    (compiled : c.Compiles p selections (.object fields))
    (compiled' : c.addTypename.Compiles p more (.object fields'))
    (adds : AddsTypename selections more) (listed : fields.get? typenameKey ≠ none) :
    fields'.get? typenameKey ≠ none := by
  have part : (Shape.object fields).part? none = some fields := rfl
  have part' : (Shape.object fields').part? none = some fields' := rfl
  obtain ⟨occs, occurs, entered⟩ := compiled.entered part
  obtain ⟨occs', occurs', entered'⟩ := compiled'.entered part'
  rw [ne_eq, ← Gives.eq_none_iff (entered typenameKey), last?_eq_none_iff] at listed
  rw [ne_eq, ← Gives.eq_none_iff (entered' typenameKey), last?_eq_none_iff]
  intro fresh
  refine listed fun o mem same => ?_
  obtain ⟨o', mem', key⟩ := exists_key_of_pads (occurs.pads adds occurs') mem
  exact fresh o' mem' (key.trans same)

theorem Compiles.agreesOn_plain {fields fields' : Fields} {members : Members Json}
    (below : c.AgreesBelow (sizeOf (Json.object members)))
    (compiled : c.Compiles p selections (.object fields))
    (compiled' : c.addTypename.Compiles p more (.object fields'))
    (adds : AddsTypename selections more) (reserved : c.Reserves selections)
    (typed : c.Typenamed p selections (.object members)) :
    (Shape.object fields).AgreesOn (.object fields') (some (.object members)) := by
  refine .object ⟨compiled.distinctKeys, compiled'.distinctKeys, ?_, ?_, ?_⟩
  · exact below.others none compiled compiled' adds reserved typed (by simp) rfl rfl
  · intro s found
    obtain ⟨s', found'⟩ := Option.ne_none_iff_exists'.mp
      (compiled.typename_kept compiled' adds (by simp [found]))
    -- Under the key of the type name both have the type name of the parent.
    cases compiled.reserved_plain reserved found
    cases compiled'.reserved_plain (reserved.addTypename adds) found'
    exact ⟨_, found', agreesOn_typename p _⟩
  · intro s' found'
    cases compiled'.reserved_plain (reserved.addTypename adds) found'
    exact typename_taken members (typed p members .here)

theorem Compiles.agreesOn_variants (tables : c.tables.WellNamed) {choices choices' : Variants}
    {members : Members Json} (below : c.AgreesBelow (sizeOf (Json.object members)))
    (compiled : c.Compiles p selections (.variants choices))
    (compiled' : c.addTypename.Compiles p more (.variants choices'))
    (adds : AddsTypename selections more) (reserved : c.Reserves selections)
    (typed : c.Typenamed p selections (.object members))
    (known : ∀ name, choices.get? name = none ↔ choices'.get? name = none) :
    (Shape.variants choices).AgreesOn (.variants choices') (some (.object members)) := by
  obtain ⟨name, -, given⟩ := typed p members .here compiled.abstract
  refine .variants given (known name) fun fields fields' found found' => ?_
  have named := compiled.reserved_variant tables reserved found
  have named' := Compiles.reserved_variant (c := c.addTypename) tables compiled'
    (reserved.addTypename adds) found'
  have distinct := compiled.distinctKeys.2 _ (Members.mem_of_get? found)
  have distinct' := compiled'.distinctKeys.2 _ (Members.mem_of_get? found')
  refine ⟨⟨distinct, distinct', ?_, ?_, ?_⟩, named'⟩
  · refine below.others (some name) compiled compiled' adds reserved typed ?_ found found'
    rintro n ⟨⟩
    exact given
  · intro s listed
    -- Whether the name of the variant is checked or forced, it is the one that was given.
    rcases named' with forced | checked
    · exact ⟨_, forced, given ▸ agreesOn_named (by simpa [listed] using named) (.inl rfl)⟩
    · exact ⟨_, checked, given ▸ agreesOn_named (by simpa [listed] using named) (.inr rfl)⟩
  · intro s' listed'
    rw [given]
    exact ⟨_, (coerces_named (by simpa [listed'] using named')).mpr rfl⟩

theorem agreesBelow (tables : c.tables.WellNamed) (n : Nat) : c.AgreesBelow n := by
  -- The members of an object are smaller than it, whatever types their fields have.
  induction n using Nat.strongRecOn with
  | ind n ih =>
      intro p selections more v v' x small compiled compiled' adds reserved typed
      have below : c.AgreesBelow (sizeOf x) := ih _ small
      by_cases object : ∃ members, x = .object members
      · obtain ⟨members, rfl⟩ := object
        rcases compiled.alike compiled' adds with
          ⟨fields, fields', rfl, rfl⟩ | ⟨choices, choices', rfl, rfl, known⟩
        · exact compiled.agreesOn_plain below compiled' adds reserved typed
        · exact compiled.agreesOn_variants tables below compiled' adds reserved typed known
      · exact .of_not_taken (fun _ taken => object (compiled.takes_object taken))
          fun _ taken => object (compiled'.takes_object taken)

end Scope

namespace Subgraph

/-- Objects of abstract types within a value for a document name a possible type. -/
def Typenamed (s : Subgraph) (d : Document) (x : Json) : Prop :=
  ∀ p selections, s.start? d = some (p, selections) → (s.scope d).Typenamed p selections x

/-- Both shapes accept a value or neither does, and what the first makes of it is what the second
makes of it without type names that the first does not list. -/
structure ValidateAlike (v more : Shape) (x : Json) : Prop where
  accepted : (∃ y, v.validate x = .ok y) ↔ ∃ y, more.validate x = .ok y
  trims : ∀ y y', v.validate x = .ok y → more.validate x = .ok y' → v.Trims y' y

theorem validateAlike_of_agreesOn {v more : Shape} {x : Json} (agrees : v.AgreesOn more (some x)) :
    ValidateAlike v more x where
  accepted := by
    simp only [validate_eq_ok_iff]
    constructor
    · rintro ⟨y, taken⟩
      obtain ⟨out, taken'⟩ := agrees.taken.mp ⟨_, taken⟩
      obtain ⟨y', rfl⟩ := taken'.some_of_some
      exact ⟨y', taken'⟩
    · rintro ⟨y', taken'⟩
      obtain ⟨out, taken⟩ := agrees.taken.mpr ⟨_, taken'⟩
      obtain ⟨y, rfl⟩ := taken.some_of_some
      exact ⟨y, taken⟩
  trims := by
    intro y y' valid valid'
    cases agrees.trims _ _ (validate_eq_ok_iff.mp valid) (validate_eq_ok_iff.mp valid') with
    | present inside => exact inside

/-- A document with type names added compiles as far as the limit of selections allows, and its
shape matches that of the document itself. -/
theorem compileDocument_addTypename {schema d : Document} {s : Subgraph} {v : Shape} {visits : Nat}
    (read : ofDocument schema = .ok s) (compiled : s.compileDocument d = .ok (v, visits))
    (reserved : d.ReservesTypename) :
    (∃ v' visits', s.compileDocument d.addTypename = .ok (v', visits') ∧
      ∀ x, s.Typenamed d x → ValidateAlike v v' x) ∨
    s.compileDocument d.addTypename = .error .selectionLimitExceeded := by
  have tables : (s.scope d).tables.WellNamed := by
    rw [eq_completed read]
    exact Tables.wellNamed_ofDocument _
  obtain ⟨depth, derives, limit, nested⟩ := compileDocument_eq_ok.mp compiled
  obtain ⟨v', visits', derives'⟩ := derives.addTypename
  have run := compileDocument_of_derives derives' nested
  by_cases room : visits' ≤ selectionLimit
  · rw [if_pos room] at run
    refine .inl ⟨v', visits', run, fun x typed => validateAlike_of_agreesOn ?_⟩
    obtain ⟨p, selections, start, derived⟩ := derives
    obtain ⟨p', selections', start', derived'⟩ := derives'
    cases start'.symm.trans (start?_addTypename start)
    rw [scope_addTypename] at derived'
    exact Scope.agreesBelow tables _ p _ _ v v' x (Nat.lt_succ_self _)
      (Scope.compiles_iff.mpr ⟨_, _, derived, limit⟩) (Scope.compiles_iff.mpr ⟨_, _, derived', room⟩)
      (addsTypename_addTypenames _) (reserves_of_start? reserved start) (typed p _ start)
  · rw [if_neg room] at run
    exact .inr run

theorem bookTitle_reserves : bookTitle.ReservesTypename := by
  refine Document.forall_has_iff.mpr ⟨fun o mem => ?_, fun f mem => ?_⟩
  · cases List.mem_singleton.mp mem
    rw [onBook, allWithin_field, allWithin_inline, allWithin_field]
    exact ⟨by decide, trivial, by decide, allWithin_nil⟩
  · cases List.mem_singleton.mp mem

def namedTitleShape : Shape :=
  .object [("node", .nullable (.variants [("Book",
    [(typenameKey, .scalar (.typename "Book")), ("title", .nullable (.scalar (.string .any)))])]))]

theorem not_stands_string {c : Scope} {p q : Parent} {selections : List Selection}
    {members : Members Json} {type : TypeRef} {text : String} {w : Json}
    (base : AtBase type (.string text) w) : ¬ c.Stands q (.object members) p selections w := by
  cases base
  intro stands
  cases stands

theorem book_typenamed : library.Typenamed bookTitle book := by
  rintro p selections ⟨⟩ q members stands abstract
  cases stands with
  | here => exact abstract.elim
  | @member _ _ _ _ _ _ _ _ f _ _ _ occurs read last declared composite given base inside =>
      obtain ⟨mem, key⟩ := Occurrence.mem_of_last? last
      cases occurs.mem_field_iff.mp mem with
      | shared interface => cases interface
      | own abstract => exact abstract.elim
      | plain has =>
          obtain ⟨arguments, directives, holds⟩ := has
          have listed := holds.mem_of_asides fun s mem condition inner found => by
            cases List.mem_singleton.mp mem
            cases found
          obtain ⟨alias?, name, inner⟩ := f
          cases List.mem_singleton.mp listed
          have type : some (TypeRef.named "Node" false) = some _ := declared.2
          cases type
          have parent : some libraryNode = some _ := composite
          cases parent
          cases key
          cases given
          cases base
          cases inside with
          | here => exact ⟨"Book", by decide, rfl⟩
          | member occurs read last declared composite given base inside =>
              rcases List.mem_cons.mp (Members.mem_of_get? given) with same | later
              · cases same
                exact (not_stands_string base inside).elim
              · cases List.mem_singleton.mp later
                exact (not_stands_string base inside).elim

theorem bookTitle_addTypename : ofDocument librarySchema = .ok library ∧
    library.compileDocument bookTitle = .ok (bookTitleShape, 3) ∧ bookTitle.ReservesTypename ∧
    library.Typenamed bookTitle book ∧
    library.compileDocument bookTitle.addTypename = .ok (namedTitleShape, 5) ∧
    ValidateAlike bookTitleShape namedTitleShape book := by
  have read : ofDocument librarySchema = .ok library := rfl
  have named : library.compileDocument bookTitle.addTypename = .ok (namedTitleShape, 5) := rfl
  refine ⟨read, bookTitle_compiles, bookTitle_reserves, book_typenamed, named, ?_⟩
  rcases compileDocument_addTypename read bookTitle_compiles bookTitle_reserves with
    ⟨v', visits', run, alike⟩ | fails
  · cases named.symm.trans run
    exact alike book book_typenamed
  · cases named.symm.trans fails

end Subgraph

end FederatedMock
