import FederatedMock.Proofs.Operation.Failures
import FederatedMock.Proofs.Operation.Forcing
import FederatedMock.Proofs.Operation.Rearrangement
import FederatedMock.Proofs.Response.Typenames
import FederatedMock.Proofs.Shape.Reordering

namespace FederatedMock

open Graphql Shape

namespace Scope

open Occurrence

variable {c c' : Scope} {p : Parent} {selections selections' : List Selection}

theorem Occurs.key_iff {condition : Option String} {occs : List Occurrence} {key : String}
    (occurs : c.Occurs p selections condition occs) :
    (∃ o ∈ occs, o.key = key) ↔ (condition ≠ none ∧ key = typenameKey) ∨
      ∃ q f, c.Selects p selections condition q f ∧ f.key = key := by
  constructor
  · rintro ⟨o, mem, rfl⟩
    cases o with
    | field q f => exact .inr ⟨q, f, occurs.mem_field_iff.mp mem, rfl⟩
    | discriminator name =>
        cases occurs with
        | plain level whole =>
            obtain ⟨f, -, other⟩ := List.mem_map.mp mem
            cases other
        | variant level abstract named own => exact .inl ⟨by simp, rfl⟩
  · rintro (⟨variant, rfl⟩ | ⟨q, f, selected, rfl⟩)
    · obtain ⟨name, rfl⟩ := Option.ne_none_iff_exists'.mp variant
      exact ⟨_, occurs.discriminator_mem, rfl⟩
    · exact ⟨_, occurs.mem_field_iff.mpr selected, rfl⟩

theorem Compiles.entry {v : Shape} {condition : Option String} {fields : Fields} {key : String}
    {s : Shape} (compiled : c.Compiles p selections v) (part : v.part? condition = some fields)
    (other : condition = none ∨ key ≠ typenameKey) (found : fields.get? key = some s) :
    ∃ occs q f, c.Occurs p selections condition occs ∧
      last? key occs = some (.field q f) ∧ f.key = key ∧ c.FieldCompiles q f s := by
  obtain ⟨occs, occurs, entered⟩ := compiled.entered part
  have entry := entered key
  rw [found] at entry
  cases last : last? key occs with
  | none =>
      rw [last] at entry
      cases entry
  | some o =>
      rw [last] at entry
      obtain ⟨mem, same⟩ := mem_of_last? last
      cases entry with
      | some gives =>
          cases gives with
          | @field q f _ compiled => exact ⟨occs, q, f, occurs, last, same, compiled⟩
          | @discriminator name =>
              rcases other with rfl | other
              · cases occurs with
                | plain level whole =>
                    obtain ⟨f, -, other⟩ := List.mem_map.mp mem
                    cases other
              · exact (other same.symm).elim

theorem exists_selects {condition : Option String} {key : String} (scopes : c.Rearranged c')
    (same : Rearranges selections selections') :
    (∃ q f, c.Selects p selections condition q f ∧ f.key = key) →
      ∃ q f, c'.Selects p selections' condition q f ∧ f.key = key := by
  rintro ⟨q, f, selected, rfl⟩
  obtain ⟨f', selected', alters⟩ := selected.rearranged scopes same
  exact ⟨q, f', selected', alters.key.symm⟩

theorem Compiles.none_iff {v v' : Shape} {condition : Option String} {fields fields' : Fields}
    (compiled : c.Compiles p selections v) (compiled' : c'.Compiles p selections' v')
    (scopes : c.Rearranged c') (same : Rearranges selections selections')
    (part : v.part? condition = some fields) (part' : v'.part? condition = some fields')
    (key : String) : fields.get? key = none ↔ fields'.get? key = none := by
  obtain ⟨occs, occurs, entered⟩ := compiled.entered part
  obtain ⟨occs', occurs', entered'⟩ := compiled'.entered part'
  have keys := (lastKept_of_entered entered).keys key
  have keys' := (lastKept_of_entered entered').keys key
  rw [Members.get?_eq_none_iff, Members.get?_eq_none_iff, keys, keys', occurs.key_iff,
    occurs'.key_iff]
  exact not_congr (or_congr_right
    ⟨exists_selects scopes same, exists_selects scopes.symm same.symm⟩)

def ReordersBelow (c c' : Scope) (n : Nat) : Prop :=
  ∀ p selections selections' v v', sizeOf v < n → c.Compiles p selections v →
    c'.Compiles p selections' v' → Rearranges selections selections' →
      (∀ b, Relation.ReflTransGen c.Enters (p, selections) b → c.Orderly b) → Reorders v v'

theorem reorders_typename (p : Parent) :
    Reorders (p.typename c.tables) (p.typename c.tables) := by
  cases p with
  | object t => exact .scalar _
  | interface t => exact .enumeration _
  | union u => exact .enumeration _

theorem reorders_wrap {base base' : Shape} (inside : Reorders base base') (type : TypeRef) :
    Reorders (TypeRef.wrap base type) (TypeRef.wrap base' type) := by
  induction type with
  | named name nonNull =>
      cases nonNull with
      | true => exact inside
      | false => exact .nullable inside
  | list item nonNull ih =>
      cases nonNull with
      | true => exact .list ih
      | false => exact .nullable (.list ih)

theorem sizeOf_le_wrap (base : Shape) (type : TypeRef) :
    sizeOf base ≤ sizeOf (TypeRef.wrap base type) := by
  induction type with
  | named name nonNull => cases nonNull <;> simp [TypeRef.wrap]
  | list item nonNull ih => cases nonNull <;> simp [TypeRef.wrap] <;> omega

theorem DerivesNamed.reorders {name : String} {f f' : FieldSelection} {s s' : Shape}
    {visits depth visits' depth' : Nat} (tables : c.tables = c'.tables)
    (derived : c.DerivesNamed name f s visits depth)
    (derived' : c'.DerivesNamed name f' s' visits' depth')
    (inside : ∀ r depth depth', c.tables.composite? name = some r →
      c.Derives r f.selections s visits depth → c'.Derives r f'.selections s' visits' depth' →
        Reorders s s') : Reorders s s' := by
  cases derived with
  | scalar found =>
      rw [tables] at found
      cases derived' with
      | scalar found' =>
          cases found.symm.trans found'
          exact .scalar _
      | enumeration custom => cases found.symm.trans custom
      | composite found' => simp [Tables.composite?, found] at found'
  | enumeration custom found =>
      rw [tables] at custom found
      cases derived' with
      | scalar found' => cases custom.symm.trans found'
      | enumeration custom' found' =>
          cases found.symm.trans found'
          exact .enumeration _
      | composite found' => simp [Tables.composite?, custom, found] at found'
  | composite found selected derives =>
      have composite := found
      rw [tables] at found
      obtain ⟨custom, plain, -⟩ := composite?_eq_some_iff.mp found
      cases derived' with
      | scalar found' => cases custom.symm.trans found'
      | enumeration custom' found' => cases plain.symm.trans found'
      | composite found' selected' derives' =>
          cases found.symm.trans found'
          exact inside _ _ _ composite derives derives'

theorem FieldCompiles.reorders {q q' : Parent} {f f' : FieldSelection} {s s' : Shape} {n : Nat}
    (tables : c.tables = c'.tables) (compiled : c.FieldCompiles q f s)
    (compiled' : c'.FieldCompiles q' f' s') (name : f.name = f'.name)
    (parents : q = q' ∨ f.name ≠ typenameKey ∧ q.field? f.name = q'.field? f.name)
    (selections : Rearranges f.selections f'.selections) (below : c.ReordersBelow c' n)
    (small : sizeOf s < n)
    (orderly : ∀ type r, Declares q f type → c.tables.composite? type.base = some r →
      ∀ b, Relation.ReflTransGen c.Enters (r, f.selections) b → c.Orderly b) : Reorders s s' := by
  by_cases typename : f.name = typenameKey
  · rw [compiled.eq_typename typename, compiled'.eq_typename (name ▸ typename)]
    rcases parents with rfl | ⟨plain, -⟩
    · rw [← tables]
      exact reorders_typename q
    · exact (plain typename).elim
  have declared_eq : q.field? f.name = q'.field? f.name := by
    rcases parents with rfl | ⟨-, declared⟩
    · rfl
    · exact declared
  obtain ⟨type, base, visits, depth, declared, derived, limit, rfl⟩ :=
    (fieldCompiles_declared typename).mp compiled
  obtain ⟨type', base', visits', depth', declared', derived', limit', rfl⟩ :=
    (fieldCompiles_declared (name ▸ typename)).mp compiled'
  rw [← name, ← declared_eq] at declared'
  cases declared.symm.trans declared'
  refine reorders_wrap (derived.reorders tables derived' fun r _ _ composite inside inside' => ?_) _
  have less := Nat.lt_of_le_of_lt (sizeOf_le_wrap base type) small
  exact below r _ _ _ _ less (compiles_iff.mpr ⟨_, _, inside, limit⟩)
    (compiles_iff.mpr ⟨_, _, inside', limit'⟩) selections
    (orderly type r ⟨typename, declared⟩ composite)

theorem Selects.reaches {condition : Option String} {q r : Parent} {f : FieldSelection}
    {type : TypeRef} (selected : c.Selects p selections condition q f)
    (declared : Declares q f type) (composite : c.tables.composite? type.base = some r) :
    Relation.ReflTransGen c.Enters (p, selections) (r, f.selections) := by
  cases selected with
  | plain has => exact reaches_field has declared.1 declared.2 composite
  | shared interface has key => exact reaches_field has declared.1 declared.2 composite
  | own abstract fragment type has =>
      exact (reaches_fragment abstract fragment type).trans
        (reaches_field has declared.1 declared.2 composite)

theorem Compiles.entries_reorder {v v' : Shape} {condition : Option String}
    {fields fields' : Fields} {key : String} {s s' : Shape} (scopes : c.Rearranged c')
    (same : Rearranges selections selections')
    (orderly : ∀ b, Relation.ReflTransGen c.Enters (p, selections) b → c.Orderly b)
    (below : c.ReordersBelow c' (sizeOf v)) (compiled : c.Compiles p selections v)
    (compiled' : c'.Compiles p selections' v') (part : v.part? condition = some fields)
    (part' : v'.part? condition = some fields') (other : condition = none ∨ key ≠ typenameKey)
    (found : fields.get? key = some s) (found' : fields'.get? key = some s')
    (small : sizeOf s < sizeOf v) : Reorders s s' := by
  obtain ⟨occs, q, f, occurs, last, key_eq, field⟩ := compiled.entry part other found
  obtain ⟨occs', q', f', occurs', last', key_eq', field'⟩ := compiled'.entry part' other found'
  have selected := occurs.mem_field_iff.mp (mem_of_last? last).1
  have selected' := occurs'.mem_field_iff.mp (mem_of_last? last').1
  -- What is selected there is selected here, where all selections of the key are the same.
  obtain ⟨f₀, selected₀, alters⟩ := selected'.rearranged scopes.symm same.symm
  have here := orderly _ .refl
  obtain ⟨name, inner⟩ := here.unambiguous condition q f q' f₀ selected selected₀
    (key_eq.trans (key_eq'.symm.trans alters.key))
  have name' : f.name = f'.name := name.trans alters.name.symm
  have parents := parents_alike scopes same here.settled occurs occurs' last last' name' other
  refine field.reorders scopes.tables field' name' parents (inner.trans alters.selections.symm)
    below small fun type r declared composite b reached => ?_
  exact orderly b ((selected.reaches declared composite).trans reached)

theorem exists_hasFragment {name : String} (scopes : c.Rearranged c')
    (same : Rearranges selections selections') :
    (∃ g, c.HasFragment p selections g ∧ g.condition = name) →
      ∃ g, c'.HasFragment p selections' g ∧ g.condition = name := by
  rintro ⟨g, fragment, rfl⟩
  obtain ⟨g', fragment', alters⟩ := fragment.rearranged scopes same
  exact ⟨g', fragment', alters.condition.symm⟩

theorem Compiles.kind {v : Shape} (compiled : c.Compiles p selections v) :
    (∃ fields, v = .object fields ∧ (p.IsAbstract → ∀ g, ¬ c.HasFragment p selections g)) ∨
      ∃ choices : Variants, v = .variants choices ∧ p.IsAbstract ∧
        ∃ g, c.HasFragment p selections g := by
  obtain ⟨visits, depth, derived, -⟩ := compiles_iff.mp compiled
  cases derived with
  | object level plain fields =>
      refine .inl ⟨_, rfl, fun abstract g fragment => ?_⟩
      have mem := level.mem_fragments.mpr fragment
      simp [plain abstract] at mem
  | variants level abstract narrowed fields fragments =>
      obtain ⟨g, listed⟩ := List.exists_mem_of_ne_nil _ narrowed
      exact .inr ⟨_, rfl, abstract, g, level.mem_fragments.mp (List.mem_reverse.mpr listed)⟩

theorem Compiles.sameKind {v v' : Shape} (scopes : c.Rearranged c')
    (same : Rearranges selections selections') (compiled : c.Compiles p selections v)
    (compiled' : c'.Compiles p selections' v') :
    (∃ fields fields', v = .object fields ∧ v' = .object fields') ∨
      ∃ choices choices' : Variants, v = .variants choices ∧ v' = .variants choices' := by
  rcases compiled.kind with ⟨fields, object, plain⟩ | ⟨choices, variants, abstract, g, fragment⟩ <;>
    rcases compiled'.kind with
      ⟨fields', object', plain'⟩ | ⟨choices', variants', abstract', g', fragment'⟩
  · exact .inl ⟨fields, fields', object, object'⟩
  · obtain ⟨g, fragment, -⟩ := fragment'.rearranged scopes.symm same.symm
    exact (plain abstract' g fragment).elim
  · obtain ⟨g', fragment', -⟩ := fragment.rearranged scopes same
    exact (plain' abstract g' fragment').elim
  · exact .inr ⟨choices, choices', variants, variants'⟩

theorem Compiles.names_iff {choices choices' : Variants} (scopes : c.Rearranged c')
    (same : Rearranges selections selections')
    (compiled : c.Compiles p selections (.variants choices))
    (compiled' : c'.Compiles p selections' (.variants choices')) (name : String) :
    choices.get? name = none ↔ choices'.get? name = none := by
  rw [Members.get?_eq_none_iff, Members.get?_eq_none_iff, compiled.mem_keys_iff,
    compiled'.mem_keys_iff]
  exact not_congr ⟨exists_hasFragment scopes same, exists_hasFragment scopes.symm same.symm⟩

theorem reordersBelow (scopes : c.Rearranged c') (n : Nat) : c.ReordersBelow c' n := by
  -- An entry is smaller than the shape that has it, whatever selection it comes from.
  induction n using Nat.strongRecOn with
  | ind n ih =>
      intro p selections selections' v v' small compiled compiled' same orderly
      have below : c.ReordersBelow c' (sizeOf v) := ih _ small
      rcases compiled.sameKind scopes same compiled' with
        ⟨fields, fields', rfl, rfl⟩ | ⟨choices, choices', rfl, rfl⟩
      · have part : (Shape.object fields).part? none = some fields := rfl
        have part' : (Shape.object fields').part? none = some fields' := rfl
        refine .object (compiled.none_iff compiled' scopes same part part') ?_
        intro key s s' found found'
        have less := Members.sizeOf_lt_of_get? found
        exact compiled.entries_reorder scopes same orderly below compiled' part part' (.inl rfl)
          found found' (by rw [Shape.object.sizeOf_spec]; omega)
      · refine .variants (compiled.names_iff scopes same compiled') ?_ ?_
        · intro name fields fields' chosen chosen'
          have part : (Shape.variants choices).part? (some name) = some fields := chosen
          have part' : (Shape.variants choices').part? (some name) = some fields' := chosen'
          exact compiled.none_iff compiled' scopes same part part'
        · intro name fields fields' chosen chosen' key s s' other found found'
          have part : (Shape.variants choices).part? (some name) = some fields := chosen
          have part' : (Shape.variants choices').part? (some name) = some fields' := chosen'
          have less := Members.sizeOf_lt_of_get? found
          have less' := Members.sizeOf_lt_of_get? chosen
          exact compiled.entries_reorder scopes same orderly below compiled' part part' (.inr other)
            found found' (by rw [Shape.variants.sizeOf_spec]; omega)

end Scope

def Graphql.Selection.Plain (inside : String → List Selection) : Selection → Prop
  | .field responseName name _ _ inner => responseName = none ∧ inner = inside name
  | _ => True

theorem Graphql.Selection.Plain.reservesTypename {inside : String → List Selection} {t : Selection}
    (plain : t.Plain inside) : t.ReservesTypename := by
  cases t with
  | field responseName name arguments directives inner =>
      obtain ⟨rfl, -⟩ := plain
      exact id
  | inline => trivial
  | spread => trivial

namespace Subgraph

section Plain

variable {s : Subgraph} {d : Document} {a : Parent × List Selection}
variable {inside : String → List Selection}

theorem Reaches.hasFragment {g : ConditionalFragment} (reached : s.Reaches d a)
    (fragment : (s.scope d).HasFragment a.1 a.2 g) :
    AllWithin d.Has g.selections ∧
      ∃ t, d.Has t ∧ t.fragment? (fragmentsOf d) = some (some g.condition, g.selections) := by
  obtain ⟨t, holds, found, -⟩ := fragment
  have stands := holds.allWithin reached.allWithin allWithin_has_fragment
  exact ⟨stands.fragment found allWithin_has_fragment, t,
    stands t (.here (List.mem_singleton_self _)), found⟩

theorem plain_of_hasField {p : Parent} {selections : List Selection} {f : FieldSelection}
    (plain : ∀ t, d.Has t → t.Plain inside) (all : AllWithin d.Has selections)
    (has : (s.scope d).HasField p selections f) : f = ⟨none, f.name, inside f.name⟩ := by
  obtain ⟨responseName, name, inner⟩ := f
  obtain ⟨arguments, directives, holds⟩ := has
  have stands := holds.allWithin all allWithin_has_fragment
  have same : responseName = none ∧ inner = inside name :=
    plain _ (stands _ (.here (List.mem_singleton_self _)))
  rw [same.1, same.2]

theorem Reaches.identical (reached : s.Reaches d a) (plain : ∀ t, d.Has t → t.Plain inside)
    {condition : Option String} {q q' : Parent} {f f' : FieldSelection}
    (selected : (s.scope d).Selects a.1 a.2 condition q f)
    (selected' : (s.scope d).Selects a.1 a.2 condition q' f') (key : f.key = f'.key) : f = f' := by
  have each {q : Parent} {f : FieldSelection}
      (selected : (s.scope d).Selects a.1 a.2 condition q f) :
      f = ⟨none, f.name, inside f.name⟩ := by
    cases selected with
    | plain has => exact plain_of_hasField plain reached.allWithin has
    | shared interface has key => exact plain_of_hasField plain reached.allWithin has
    | own abstract fragment type has =>
        exact plain_of_hasField plain (reached.hasFragment fragment).1 has
  have name : f.name = f'.name := by
    rw [each selected, each selected'] at key
    exact key
  rw [each selected, each selected', name]

end Plain

end Subgraph

namespace Subgraph

/-- Documents that differ in the order of selections only have shapes that accept the same values,
and make the same data of them up to the order of keys, or else find the same issues up to the order
in which messages name types. -/
theorem compileDocument_rearranged {schema d d' : Document} {s : Subgraph} {v v' : Shape}
    {visits visits' : Nat} {x : Json} (valid : ofDocument schema = .ok s)
    (compiled : s.compileDocument d = .ok (v, visits))
    (compiled' : s.compileDocument d' = .ok (v', visits')) (rearranged : d.Alters Rearranges d')
    (reserved : d.ReservesTypename) (orderly : ∀ a, s.Reaches d a → (s.scope d).Orderly a)
    (tagged : v.Tagged x) : VerdictsAlike (v.validate x) (v'.validate x) := by
  have tables := wellNamed_of_valid valid
  have scopes : (s.scope d).Rearranged (s.scope d') := ⟨rfl, rearranged.fragments⟩
  obtain ⟨depth, ⟨p, selections, start, derived⟩, limit, -⟩ := compileDocument_eq_ok.mp compiled
  obtain ⟨depth', ⟨p', selections', start', derived'⟩, limit', -⟩ :=
    compileDocument_eq_ok.mp compiled'
  obtain ⟨none, -⟩ | ⟨q, before, after, found, found', same⟩ :=
    s.compileDocument_of_operations rearranged.operation?
  · cases start.symm.trans none
  · cases start.symm.trans found
    cases start'.symm.trans found'
    have reserves := reserves_of_start? reserved start
    have reserves' := reserves.rearranged scopes same
    have shapes : Reorders v v' :=
      Scope.reordersBelow scopes _ p selections selections' v v' (Nat.lt_succ_self _)
        (Scope.compiles_iff.mpr ⟨_, _, derived, limit⟩)
        (Scope.compiles_iff.mpr ⟨_, _, derived', limit'⟩) same
        fun b path => orderly b ⟨_, start, path⟩
    refine shapes.verdictsAlike (fun t part => ?_) (fun t part => ?_) tagged
    · exact ⟨derived.keyed t part, derived.named tables reserves t part⟩
    · exact ⟨derived'.keyed t part, derived'.named tables reserves' t part⟩

def nodesSchema : Document :=
  let name : FieldDefinition := ⟨none, "name", [], .named "String" false, []⟩
  [.type ⟨false, none, "Query", [], .object [] [⟨none, "node", [], .named "Node" false, []⟩]⟩,
    .type ⟨false, none, "Node", [], .interface [] [name]⟩,
    .type ⟨false, none, "Book", [], .object ["Node"]
      [⟨none, "name", [], .named "String" true, []⟩,
        ⟨none, "title", [], .named "String" false, []⟩,
        ⟨none, "pages", [], .named "Int" false, []⟩]⟩]

def nodes : Subgraph :=
  completed nodesSchema

def leaf (name : String) : Selection :=
  .field none name [] [] []

def onBooks (names : List String) : Selection :=
  .inline (some "Book") [] (names.map leaf)

def NodeSelections (selections : List Selection) : Prop :=
  ∀ t ∈ selections, (∃ name, name ≠ "node" ∧ t = leaf name) ∨
    ∃ names, "node" ∉ names ∧ t = onBooks names

theorem NodeSelections.has {selections : List Selection} (leaves : NodeSelections selections) :
    ∀ t, (nodeQuery selections).Has t → t = .field none "node" [] [] selections ∨
      (∃ name, name ≠ "node" ∧ t = leaf name) ∨ ∃ names, t = onBooks names ∧ t ∈ selections := by
  refine Document.forall_has_iff.mpr ⟨fun o mem => ?_, fun f mem => ?_⟩
  · cases List.mem_singleton.mp mem
    refine allWithin_field.mpr ⟨.inl rfl, allWithin_iff_forall_mem.mpr fun t mem => ?_⟩
    rcases leaves t mem with ⟨name, other, rfl⟩ | ⟨names, others, rfl⟩
    · exact allWithin_field.mpr ⟨.inr (.inl ⟨name, other, rfl⟩), allWithin_nil⟩
    · refine allWithin_inline.mpr ⟨.inr (.inr ⟨names, rfl, mem⟩), ?_⟩
      refine allWithin_iff_forall_mem.mpr fun t mem => ?_
      obtain ⟨name, listed, rfl⟩ := List.mem_map.mp mem
      have other : name ≠ "node" := fun same => others (same ▸ listed)
      exact allWithin_field.mpr ⟨.inr (.inl ⟨name, other, rfl⟩), allWithin_nil⟩
  · cases List.mem_singleton.mp mem

theorem NodeSelections.plain {selections : List Selection} (leaves : NodeSelections selections)
    (t : Selection) (has : (nodeQuery selections).Has t) :
    t.Plain fun name => if name = "node" then selections else [] := by
  rcases leaves.has t has with rfl | ⟨name, other, rfl⟩ | ⟨names, rfl, -⟩
  · exact ⟨rfl, (if_pos rfl).symm⟩
  · exact ⟨rfl, (if_neg other).symm⟩
  · trivial

theorem NodeSelections.reserves {selections : List Selection} (leaves : NodeSelections selections) :
    (nodeQuery selections).ReservesTypename :=
  fun t has => (leaves.plain t has).reservesTypename

def bookNode (fields : Fields) : Shape :=
  .object [("node", .nullable (.variants [("Book", fields)]))]

def titleFirst : Fields :=
  [(typenameKey, .enumeration ["Book"]), ("name", .scalar (.string .any)),
    ("title", .nullable (.scalar (.string .any))), ("pages", .nullable (.scalar .number))]

def pagesFirst : Fields :=
  [(typenameKey, .enumeration ["Book"]), ("name", .scalar (.string .any)),
    ("pages", .nullable (.scalar .number)), ("title", .nullable (.scalar (.string .any)))]

def emma : Json :=
  .object [("node", .object [(typenameKey, .string "Book"), ("name", .string "Emma")])]

theorem book_tagged {fields : Fields} {members : Members Json}
    (flat : ∀ e ∈ members, ∃ text, e.2 = .string text)
    (typed : ∃ name, members.get? typenameKey = some (.string name)) :
    (bookNode fields).Tagged (.object [("node", .object members)]) := by
  intro choices members' meets
  cases meets with
  | field found given inside =>
      cases List.mem_singleton.mp (Members.mem_of_get? given)
      cases found
      cases inside with
      | nullable notNull inside =>
          cases inside with
          | here => exact typed
          | choice selected chosen found given inside =>
              obtain ⟨text, same⟩ := flat _ (Members.mem_of_get? given)
              cases same
              exact (not_meets_string inside).elim

def nameAndTitle : List Selection :=
  [leaf "name", onBooks ["name", "title", "pages"]]

def pagesAndName : List Selection :=
  [onBooks ["pages", "name", "title"], leaf "name"]

theorem nameAndTitle_rearranges : Rearranges nameAndTitle pagesAndName := by
  have inside : Rearranges (["name", "title", "pages"].map leaf)
      (["pages", "name", "title"].map leaf) :=
    .trans (.cons (Selection.rearranged_refl _) .swap) .swap
  exact .trans (.cons (Selection.rearranged_refl _) (.cons (.inline inside) .nil)) .swap

theorem nameAndTitle_leaves : NodeSelections nameAndTitle := by
  rintro t (_ | ⟨_, _ | ⟨_, ⟨⟩⟩⟩)
  · exact .inl ⟨"name", by decide, rfl⟩
  · exact .inr ⟨["name", "title", "pages"], by decide, rfl⟩

theorem nameAndTitle_orderly {a : Parent × List Selection}
    (reached : nodes.Reaches (nodeQuery nameAndTitle) a) :
    (nodes.scope (nodeQuery nameAndTitle)).Orderly a := by
  -- There is one fragment only, and what it selects no other fragment leaves out.
  have alone {t : Selection} (has : (nodeQuery nameAndTitle).Has t) {condition : Option String}
      {inner : List Selection}
      (found : t.fragment? (fragmentsOf (nodeQuery nameAndTitle)) = some (condition, inner)) :
      inner = ["name", "title", "pages"].map leaf := by
    rcases nameAndTitle_leaves.has t has with rfl | ⟨name, other, rfl⟩ | ⟨names, rfl, mem⟩
    · cases found
    · cases found
    · cases found
      rcases List.mem_cons.mp mem with other | only
      · cases other
      · exact (Selection.inline.inj (List.mem_singleton.mp only)).2.2
  constructor
  · intro condition q f q' f' selected selected' key
    rw [reached.identical nameAndTitle_leaves.plain selected selected' key]
    exact ⟨rfl, rearranges_refl _⟩
  · intro t u f f' g interface has other fragment type has' key
    refine .inr fun g' fragment' _ => ⟨f', ?_, key⟩
    obtain ⟨-, s, stands, found⟩ := reached.hasFragment fragment
    obtain ⟨-, s', stands', found'⟩ := reached.hasFragment fragment'
    rw [alone stands' found', ← alone stands found]
    exact has'

-- `query { node { name ... on Book { name title pages } } }` and
-- `query { node { ... on Book { pages name title } name } }`
theorem nameAndTitle_rearranged :
    ofDocument nodesSchema = .ok nodes ∧
    nodes.compileDocument (nodeQuery nameAndTitle) = .ok (bookNode titleFirst, 6) ∧
    nodes.compileDocument (nodeQuery pagesAndName) = .ok (bookNode pagesFirst, 6) ∧
    (nodeQuery nameAndTitle).Alters Rearranges (nodeQuery pagesAndName) ∧
    (nodeQuery nameAndTitle).ReservesTypename ∧
    (∀ a, nodes.Reaches (nodeQuery nameAndTitle) a →
      (nodes.scope (nodeQuery nameAndTitle)).Orderly a) ∧
    (bookNode titleFirst).Tagged emma ∧
    VerdictsAlike ((bookNode titleFirst).validate emma) ((bookNode pagesFirst).validate emma) := by
  have valid : ofDocument nodesSchema = .ok nodes := rfl
  have compiled : nodes.compileDocument (nodeQuery nameAndTitle) = .ok (bookNode titleFirst, 6) :=
    rfl
  have compiled' : nodes.compileDocument (nodeQuery pagesAndName) = .ok (bookNode pagesFirst, 6) :=
    rfl
  have altered : (nodeQuery nameAndTitle).Alters Rearranges (nodeQuery pagesAndName) :=
    .cons (.operation (.cons (.field nameAndTitle_rearranges) .nil)) .nil
  have orderly := fun a (reached : nodes.Reaches (nodeQuery nameAndTitle) a) =>
    nameAndTitle_orderly reached
  have tagged : (bookNode titleFirst).Tagged emma := book_tagged (by simp) ⟨"Book", rfl⟩
  exact ⟨valid, compiled, compiled', altered, nameAndTitle_leaves.reserves, orderly, tagged,
    compileDocument_rearranged valid compiled compiled' altered nameAndTitle_leaves.reserves orderly
      tagged⟩

def namedThenTitled : List Selection :=
  [leaf "name", onBooks ["name"], onBooks ["title"]]

def titledThenNamed : List Selection :=
  [leaf "name", onBooks ["title"], onBooks ["name"]]

def nullableName : Fields :=
  [(typenameKey, .enumeration ["Book"]), ("name", .nullable (.scalar (.string .any))),
    ("title", .nullable (.scalar (.string .any)))]

def requiredName : Fields :=
  [(typenameKey, .enumeration ["Book"]), ("name", .scalar (.string .any)),
    ("title", .nullable (.scalar (.string .any)))]

theorem namedThenTitled_rejected :
    ofDocument nodesSchema = .ok nodes ∧
    nodes.compileDocument (nodeQuery namedThenTitled) = .ok (bookNode nullableName, 6) ∧
    nodes.compileDocument (nodeQuery titledThenNamed) = .ok (bookNode requiredName, 6) ∧
    (nodeQuery namedThenTitled).Alters Rearranges (nodeQuery titledThenNamed) ∧
    (∀ order, order = namedThenTitled ∨ order = titledThenNamed →
      (nodeQuery order).ReservesTypename ∧
      ∀ a, nodes.Reaches (nodeQuery order) a → ∀ condition q f q' f',
        (nodes.scope (nodeQuery order)).Selects a.1 a.2 condition q f →
        (nodes.scope (nodeQuery order)).Selects a.1 a.2 condition q' f' → f.key = f'.key → f = f') ∧
    (bookNode nullableName).Tagged typedBook ∧ (bookNode requiredName).Tagged typedBook ∧
    (bookNode nullableName).validate typedBook = .ok typedBook ∧
    (bookNode requiredName).validate typedBook =
      .error [⟨[.key "node", .key "name"], "Required"⟩] := by
  have altered : Rearranges namedThenTitled titledThenNamed :=
    .cons (Selection.rearranged_refl _) .swap
  have leaves : ∀ order, order = namedThenTitled ∨ order = titledThenNamed →
      NodeSelections order := by
    rintro order (rfl | rfl) t (_ | ⟨_, _ | ⟨_, _ | ⟨_, ⟨⟩⟩⟩⟩)
    · exact .inl ⟨"name", by decide, rfl⟩
    · exact .inr ⟨["name"], by decide, rfl⟩
    · exact .inr ⟨["title"], by decide, rfl⟩
    · exact .inl ⟨"name", by decide, rfl⟩
    · exact .inr ⟨["title"], by decide, rfl⟩
    · exact .inr ⟨["name"], by decide, rfl⟩
  have flat : ∃ name, Members.get? typenameKey [(typenameKey, .string "Book"),
      ("title", .string "Emma")] = some (Json.string name) := ⟨"Book", rfl⟩
  refine ⟨rfl, rfl, rfl, .cons (.operation (.cons (.field altered) .nil)) .nil, ?_,
    book_tagged (by simp) flat, book_tagged (by simp) flat, rfl, rfl⟩
  intro order either
  refine ⟨(leaves order either).reserves, fun a reached condition q f q' f' => ?_⟩
  exact reached.identical (leaves order either).plain

end Subgraph

end FederatedMock
