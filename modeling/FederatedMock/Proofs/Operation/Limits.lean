import FederatedMock.Proofs.Operation.Rules

namespace FederatedMock

open Graphql

namespace Compiling

variable {α β : Type}

theorem bind_eq_ok {x : Compiling α} {f : α → Compiling β} {k k' : Nat} {b : β} :
    (x >>= f) k = .ok (b, k') ↔ ∃ a j, x k = .ok (a, j) ∧ f a j = .ok (b, k') := by
  change (x k >>= fun result => f result.1 result.2) = _ ↔ _
  cases h : x k with
  | error e => simp [bind, Except.bind]
  | ok result =>
      obtain ⟨a, j⟩ := result
      simp [bind, Except.bind, and_assoc]

theorem pure_eq_ok {a b : α} {k k' : Nat} :
    (pure a : Compiling α) k = .ok (b, k') ↔ a = b ∧ k = k' := by
  change Except.ok (a, k) = .ok (b, k') ↔ _
  simp

theorem map_eq_ok {x : Compiling α} {f : α → β} {k k' : Nat} {b : β} :
    (f <$> x) k = .ok (b, k') ↔ ∃ a, x k = .ok (a, k') ∧ f a = b := by
  rw [← bind_pure_comp, bind_eq_ok]
  simp only [pure_eq_ok]
  constructor
  · rintro ⟨a, j, run, rfl, rfl⟩
    exact ⟨a, run, rfl⟩
  · rintro ⟨a, run, rfl⟩
    exact ⟨a, k', run, rfl, rfl⟩

theorem throw_eq_ok {e : OperationError} {k k' : Nat} {a : α} :
    (throw e : Compiling α) k = .ok (a, k') ↔ False := by
  change Except.error e = .ok (a, k') ↔ _
  simp

theorem countSelection_apply (k : Nat) : countSelection k =
    if k + 1 > selectionLimit then .error .selectionLimitExceeded else .ok ((), k + 1) := by
  unfold countSelection
  change (if k + 1 > selectionLimit then
      (do throw OperationError.selectionLimitExceeded; set (k + 1) : Compiling Unit)
    else set (k + 1) : Compiling Unit) k = _
  split <;> rfl

theorem countSelection_eq_ok {k k' : Nat} {u : Unit} :
    countSelection k = .ok (u, k') ↔ k < selectionLimit ∧ k' = k + 1 := by
  rw [countSelection_apply]
  split <;> simp <;> omega

/-- A run from one count of selections to another that keeps within the limits, at that cost. -/
def Within (levels k k' : Nat) (cost : Nat → Nat → Prop) : Prop :=
  ∃ visits depth, cost visits depth ∧ depth < levels ∧ k' = k + visits ∧ k' ≤ selectionLimit

end Compiling

namespace Level

open Compiling

variable {fragments : Members Fragment} {applies : String → Bool}
  {inner : List Selection → Level → Compiling Level} {l l' : Level} {s : Selection} {k k' : Nat}

theorem add_field_eq_ok {responseName : Option String} {name : String} {arguments : List Argument}
    {directives : List Directive} {selections : List Selection} :
    add fragments applies inner l (.field responseName name arguments directives selections) k =
        .ok (l', k') ↔
      k < selectionLimit ∧ l.addField ⟨responseName, name, selections⟩ = l' ∧ k + 1 = k' := by
  simp only [add, bind_eq_ok, countSelection_eq_ok, pure_eq_ok]
  constructor
  · rintro ⟨-, -, ⟨below, rfl⟩, entered⟩
    exact ⟨below, entered⟩
  · rintro ⟨below, entered⟩
    exact ⟨(), k + 1, ⟨below, rfl⟩, entered⟩

theorem add_fragment {condition : Option String} {selections : List Selection}
    (found : s.fragment? fragments = some (condition, selections)) :
    add fragments applies inner l s = (do
      countSelection
      if l.HasExpanded s then return l
      else (·.mark s) <$> enter inner applies condition selections l) := by
  cases s with
  | field => cases found
  | inline condition' directives selections' =>
      cases found
      have fresh : ¬ l.HasExpanded (.inline condition directives selections) := id
      simp only [add, if_neg fresh, mark, id_map']
  | spread name directives =>
      obtain ⟨f, named, same⟩ := Option.map_eq_some_iff.mp found
      cases same
      simp only [add, named, bind_pure_comp]
      rfl

theorem add_fragment_eq_ok {condition : Option String} {selections : List Selection}
    (found : s.fragment? fragments = some (condition, selections)) :
    add fragments applies inner l s k = .ok (l', k') ↔
      k < selectionLimit ∧ ((l.HasExpanded s ∧ l = l' ∧ k + 1 = k') ∨
        (¬ l.HasExpanded s ∧ ∃ l₁, enter inner applies condition selections l (k + 1) =
          .ok (l₁, k') ∧ l₁.mark s = l')) := by
  rw [add_fragment found, bind_eq_ok]
  by_cases expanded : l.HasExpanded s
  · simp [expanded, countSelection_eq_ok, pure_eq_ok, and_assoc]
  · simp [expanded, countSelection_eq_ok, map_eq_ok, and_assoc]

theorem add_ne_ok (field : ∀ r n a d ss, s ≠ .field r n a d ss)
    (missing : s.fragment? fragments = none) :
    add fragments applies inner l s k ≠ .ok (l', k') := by
  cases s with
  | field responseName name arguments directives selections => exact (field _ _ _ _ _ rfl).elim
  | inline condition directives selections => cases missing
  | spread name directives =>
      have named : fragments.get? name = none := Option.map_eq_none_iff.mp missing
      simp [add, named, bind_eq_ok, throw_eq_ok]

theorem enter_of_applied {condition : Option String} {selections : List Selection}
    (applied : ∀ name ∈ condition, applies name = true) :
    enter inner applies condition selections l = inner selections l := by
  cases condition with
  | none => rfl
  | some name => simp [enter, applied name rfl]

theorem enter_of_other {condition : String} {selections : List Selection}
    (other : applies condition = false) :
    enter inner applies (some condition) selections l =
      pure (l.addFragment condition selections) := by
  simp [enter, other]

theorem expand_nil {levels : Nat} : expand fragments applies (levels + 1) [] l = pure l := rfl

theorem expand_cons {levels : Nat} {rest : List Selection} :
    expand fragments applies (levels + 1) (s :: rest) l =
      add fragments applies (expand fragments applies levels) l s >>=
        expand fragments applies (levels + 1) rest := by
  rw [expand, List.foldlM_cons]
  rfl

theorem expands_of_expand {levels : Nat} {selections : List Selection}
    (below : k ≤ selectionLimit)
    (run : expand fragments applies levels selections l k = .ok (l', k')) :
    ∃ visits depth, Expands fragments applies selections l l' visits depth ∧ depth < levels ∧
      k' = k + visits ∧ k' ≤ selectionLimit := by
  -- Fragments are entered with one level less, the selections beside them with as many.
  induction levels generalizing selections l l' k k' with
  | zero => exact (throw_eq_ok.mp run).elim
  | succ levels inside =>
      induction selections generalizing l k with
      | nil =>
          rw [expand_nil, pure_eq_ok] at run
          obtain ⟨rfl, rfl⟩ := run
          exact ⟨0, 0, .nil, by omega, rfl, below⟩
      | cons s rest others =>
          rw [expand_cons, bind_eq_ok] at run
          obtain ⟨l₁, k₁, added, run⟩ := run
          by_cases field : ∃ r n a d ss, s = .field r n a d ss
          · obtain ⟨r, n, a, d, ss, rfl⟩ := field
            obtain ⟨room, rfl, rfl⟩ := add_field_eq_ok.mp added
            obtain ⟨visits, depth, derived, nested, count, limit⟩ := others room run
            exact ⟨visits + 1, depth, .field derived, nested, by omega, limit⟩
          cases found : s.fragment? fragments with
          | none =>
              have field : ∀ r n a d ss, s ≠ .field r n a d ss := by
                intro r n a d ss same
                exact field ⟨r, n, a, d, ss, same⟩
              exact (add_ne_ok field found added).elim
          | some f =>
              obtain ⟨condition, selections⟩ := f
              obtain ⟨room, ⟨expanded, rfl, rfl⟩ | ⟨fresh, l₂, entered, rfl⟩⟩ :=
                (add_fragment_eq_ok found).mp added
              · obtain ⟨visits, depth, derived, nested, count, limit⟩ := others room run
                exact ⟨visits + 1, depth, .again found expanded derived, nested, by omega, limit⟩
              · by_cases applied : ∀ name ∈ condition, applies name = true
                · rw [enter_of_applied applied] at entered
                  obtain ⟨visits, depth, derived, nested, rfl, limit⟩ := inside room entered
                  obtain ⟨visits', depth', derived', nested', count, limit⟩ := others limit run
                  exact ⟨visits + visits' + 1, max (depth + 1) depth',
                    .into found fresh applied derived derived', by omega, by omega, limit⟩
                · cases condition with
                  | none => exact (applied (by simp)).elim
                  | some condition =>
                      have other : applies condition = false := by simpa using applied
                      rw [enter_of_other other, pure_eq_ok] at entered
                      obtain ⟨rfl, rfl⟩ := entered
                      obtain ⟨visits, depth, derived, nested, count, limit⟩ := others room run
                      exact ⟨visits + 1, depth, .aside found fresh other derived, nested,
                        by omega, limit⟩

theorem Expands.expand {levels visits depth : Nat} {selections : List Selection}
    (derived : Expands fragments applies selections l l' visits depth) (nested : depth < levels)
    (count : k' = k + visits) (limit : k' ≤ selectionLimit) :
    Level.expand fragments applies levels selections l k = .ok (l', k') := by
  obtain ⟨levels, rfl⟩ : ∃ n, levels = n + 1 := ⟨levels - 1, by omega⟩
  induction derived generalizing levels k k' with
  | nil =>
      cases count
      rfl
  | field others ih =>
      rw [expand_cons, bind_eq_ok]
      exact ⟨_, k + 1, add_field_eq_ok.mpr ⟨by omega, rfl, rfl⟩,
        ih (by omega) limit levels nested⟩
  | again found expanded others ih =>
      rw [expand_cons, bind_eq_ok]
      exact ⟨_, k + 1, (add_fragment_eq_ok found).mpr ⟨by omega, .inl ⟨expanded, rfl, rfl⟩⟩,
        ih (by omega) limit levels nested⟩
  | @into s condition selections rest l l₁ l' visits depth visits' depth' found fresh applied
      inside others ihInside ihOthers =>
      obtain ⟨levels, rfl⟩ : ∃ n, levels = n + 1 := ⟨levels - 1, by omega⟩
      have entered : enter (Level.expand fragments applies (levels + 1)) applies condition
          selections l (k + 1) = .ok (l₁, k + 1 + visits) := by
        rw [enter_of_applied applied]
        exact ihInside rfl (by omega) levels (by omega)
      rw [expand_cons, bind_eq_ok]
      exact ⟨_, _, (add_fragment_eq_ok found).mpr ⟨by omega, .inr ⟨fresh, l₁, entered, rfl⟩⟩,
        ihOthers (by omega) limit (levels + 1) (by omega)⟩
  | @aside s condition selections rest l l' visits depth found fresh other others ih =>
      have entered : enter (Level.expand fragments applies levels) applies (some condition)
          selections l (k + 1) = .ok (l.addFragment condition selections, k + 1) := by
        rw [enter_of_other other, pure_eq_ok]
        exact ⟨rfl, rfl⟩
      rw [expand_cons, bind_eq_ok]
      exact ⟨_, k + 1, (add_fragment_eq_ok found).mpr ⟨by omega, .inr ⟨fresh, _, entered, rfl⟩⟩,
        ih (by omega) limit levels nested⟩

theorem expand_eq_ok {levels : Nat} {selections : List Selection} (below : k ≤ selectionLimit) :
    Level.expand fragments applies levels selections l k = .ok (l', k') ↔
      Within levels k k' (Expands fragments applies selections l l') := by
  constructor
  · exact expands_of_expand below
  · rintro ⟨visits, depth, derived, nested, count, limit⟩
    exact derived.expand nested count limit

end Level

namespace Scope

open Compiling

variable {c : Scope} {nested : Nested} {levels k k' : Nat}

def Nested.Agrees (c : Scope) (nested : Nested) (levels : Nat) : Prop :=
  ∀ {p : Parent} {selections : List Selection} {v : Shape} {k k' : Nat}, k ≤ selectionLimit →
    (nested p selections k = .ok (v, k') ↔ Within levels k k' (c.Derives p selections v))

theorem composite?_eq_some_iff {t : Tables} {name : String} {p : Parent} :
    t.composite? name = some p ↔
      t.scalars.get? name = none ∧ t.enums.get? name = none ∧ t.parent? name = some p := by
  unfold Tables.composite?
  cases t.scalars.get? name <;> cases t.enums.get? name <;> simp

theorem namedShape_ok (agrees : nested.Agrees c levels) (below : k ≤ selectionLimit)
    {name : String} {f : FieldSelection} {v : Shape}
    (run : c.namedShape nested name f k = .ok (v, k')) :
    Within (levels + 1) k k' (c.DerivesNamed name f v) := by
  unfold namedShape at run
  cases scalar : c.tables.scalars.get? name with
  | some rule =>
      simp only [scalar, pure_eq_ok] at run
      obtain ⟨rfl, rfl⟩ := run
      exact ⟨0, 0, .scalar scalar, by omega, rfl, below⟩
  | none =>
      cases enum : c.tables.enums.get? name with
      | some values =>
          simp only [scalar, enum, pure_eq_ok] at run
          obtain ⟨rfl, rfl⟩ := run
          exact ⟨0, 0, .enumeration scalar enum, by omega, rfl, below⟩
      | none =>
          cases parent : c.tables.parent? name with
          | none =>
              simp only [scalar, enum, parent, throw_eq_ok] at run
          | some p =>
              have found := composite?_eq_some_iff.mpr ⟨scalar, enum, parent⟩
              by_cases empty : f.selections.isEmpty
              · simp only [scalar, enum, parent, empty, ↓reduceIte, throw_eq_ok] at run
              · simp only [scalar, enum, parent, empty, Bool.false_eq_true, ↓reduceIte] at run
                obtain ⟨visits, depth, derived, deep, count, limit⟩ := (agrees below).mp run
                exact ⟨visits, depth + 1, .composite found (by simpa using empty) derived,
                  by omega, count, limit⟩

theorem namedShape_of (agrees : nested.Agrees c levels) (below : k ≤ selectionLimit)
    {name : String} {f : FieldSelection} {v : Shape}
    (within : Within (levels + 1) k k' (c.DerivesNamed name f v)) :
    c.namedShape nested name f k = .ok (v, k') := by
  obtain ⟨visits, depth, derived, deep, count, limit⟩ := within
  unfold namedShape
  cases derived with
  | scalar found => simpa [found, pure_eq_ok] using count.symm
  | enumeration custom found => simpa [custom, found, pure_eq_ok] using count.symm
  | composite found selected inside =>
      obtain ⟨custom, plain, parent⟩ := composite?_eq_some_iff.mp found
      have filled : f.selections.isEmpty = false := by simpa using selected
      simp only [custom, plain, parent, filled, Bool.false_eq_true, ↓reduceIte]
      exact (agrees below).mpr ⟨_, _, inside, by omega, count, limit⟩

def selectedShape (c : Scope) (nested : Nested) (p : Parent) (f : FieldSelection) :
    Compiling Shape :=
  if f.name = typenameKey then pure (p.typename c.tables)
  else
    match p with
    | .object t => c.fieldShape nested t f
    | .interface t => c.fieldShape nested t f
    | .union u => throw (.unknownField u.name f.name)

def levelShapes (c : Scope) (nested : Nested) (p : Parent) (fields : List FieldSelection)
    (out : Shape.Fields) : Compiling Shape.Fields :=
  fields.foldlM (fun out f => do
    let shape ← c.selectedShape nested p f
    return Shape.insertField f.key shape out) out

def choices (c : Scope) (nested : Nested) (shared : Shape.Fields)
    (fragments : List ConditionalFragment) (out : Shape.Variants) : Compiling Shape.Variants :=
  fragments.foldlM (fun out f => do
    let own ← c.fragmentShapes nested f
    return Shape.insertVariant f.condition
      (Shape.mergeFields (Shape.variantBase f.condition shared) own) out) out

theorem fieldShapes_object {t : CompositeType} {fields : List FieldSelection} :
    c.fieldShapes nested t (.scalar (.typename t.name)) fields =
      c.levelShapes nested (.object t) fields [] := by
  unfold fieldShapes levelShapes selectedShape
  congr
  funext out f
  split <;> rfl

theorem fieldShapes_interface {t : CompositeType} {fields : List FieldSelection} :
    c.fieldShapes nested t (.enumeration (c.tables.possibleTypenames t)) fields =
      c.levelShapes nested (.interface t) fields [] := by
  unfold fieldShapes levelShapes selectedShape
  congr
  funext out f
  split <;> rfl

theorem unionShapes_eq (c : Scope) (nested : Nested) {u : UnionType}
    {fields : List FieldSelection} :
    unionShapes u fields = c.levelShapes nested (.union u) fields [] := by
  unfold unionShapes levelShapes selectedShape
  congr
  funext out f
  split <;> rfl

def assemble (c : Scope) (nested : Nested) (p : Parent) (fields : Shape.Fields)
    (fragments : List ConditionalFragment) : Compiling Shape :=
  match p, fragments with
  | .object _, _ => pure (.object fields)
  | _, [] => pure (.object fields)
  | p, fragments => .variants <$> c.choices nested (p.shared fields) fragments []

theorem assemble_plain {p : Parent} {fields : Shape.Fields} {fragments : List ConditionalFragment}
    (plain : p.IsAbstract → fragments = []) :
    c.assemble nested p fields fragments = pure (.object fields) := by
  cases p with
  | object t => rfl
  | interface t => rw [plain trivial]; rfl
  | union u => rw [plain trivial]; rfl

theorem assemble_narrowed {p : Parent} {fields : Shape.Fields}
    {fragments : List ConditionalFragment} (abstract : p.IsAbstract) (narrowed : fragments ≠ []) :
    c.assemble nested p fields fragments =
      .variants <$> c.choices nested (p.shared fields) fragments [] := by
  cases fragments with
  | nil => exact (narrowed rfl).elim
  | cons f rest =>
      cases p with
      | object t => exact abstract.elim
      | interface t => rfl
      | union u => rfl

theorem selectionShape_succ {p : Parent} {selections : List Selection} :
    c.selectionShape (levels + 1) p selections = (do
      let l ← Level.expand c.fragments (p.applies c.tables) (levels + 1) selections .empty
      let fields ← c.levelShapes (c.selectionShape levels) p l.fields.reverse []
      c.assemble (c.selectionShape levels) p fields l.fragments.reverse) := by
  cases p with
  | object t =>
      simp only [selectionShape, level, bind_assoc, pure_bind, fieldShapes_object]
      rfl
  | interface t =>
      simp only [selectionShape, level, bind_assoc, pure_bind, fieldShapes_interface]
      congr
      funext l
      congr
      funext shared
      cases l.fragments.reverse with
      | nil => rfl
      | cons f rest => rfl
  | union u =>
      simp only [selectionShape, level, bind_assoc, pure_bind,
        unionShapes_eq c (c.selectionShape levels)]
      congr
      funext l
      congr
      funext shared
      cases l.fragments.reverse with
      | nil => rfl
      | cons f rest => rfl

theorem selectedShape_typename {p : Parent} {f : FieldSelection} (name : f.name = typenameKey) :
    c.selectedShape nested p f = pure (p.typename c.tables) := by
  simp [selectedShape, name]

theorem selectedShape_declared {p : Parent} {f : FieldSelection} {type : TypeRef}
    (name : f.name ≠ typenameKey) (declared : p.field? f.name = some type) :
    c.selectedShape nested p f =
      (fun s => TypeRef.wrap s type) <$> c.namedShape nested type.base f := by
  cases p with
  | object t =>
      have declared : t.fields.get? f.name = some type := declared
      simp [selectedShape, name, fieldShape, declared]
  | interface t =>
      have declared : t.fields.get? f.name = some type := declared
      simp [selectedShape, name, fieldShape, declared]
  | union u => cases declared

theorem fieldShape_eq_ok {t : CompositeType} {f : FieldSelection} {v : Shape} :
    c.fieldShape nested t f k = .ok (v, k') ↔ ∃ type s, t.fields.get? f.name = some type ∧
      c.namedShape nested type.base f k = .ok (s, k') ∧ TypeRef.wrap s type = v := by
  unfold fieldShape
  cases t.fields.get? f.name with
  | none => simp [throw_eq_ok]
  | some type => simp [-bind_pure_comp, bind_eq_ok, pure_eq_ok]

theorem selectedShape_eq_ok {p : Parent} {f : FieldSelection} {v : Shape}
    (name : f.name ≠ typenameKey) :
    c.selectedShape nested p f k = .ok (v, k') ↔ ∃ type s, p.field? f.name = some type ∧
      c.namedShape nested type.base f k = .ok (s, k') ∧ TypeRef.wrap s type = v := by
  cases p with
  | object t =>
      simp only [selectedShape, name, ↓reduceIte]
      exact fieldShape_eq_ok
  | interface t =>
      simp only [selectedShape, name, ↓reduceIte]
      exact fieldShape_eq_ok
  | union u => simp [selectedShape, name, throw_eq_ok, Parent.field?]

theorem levelShapes_cons {p : Parent} {f : FieldSelection} {rest : List FieldSelection}
    {out v : Shape.Fields} :
    c.levelShapes nested p (f :: rest) out k = .ok (v, k') ↔
      ∃ s j, c.selectedShape nested p f k = .ok (s, j) ∧
        c.levelShapes nested p rest (Shape.insertField f.key s out) j = .ok (v, k') := by
  simp only [levelShapes, List.foldlM_cons, bind_assoc, pure_bind, bind_eq_ok]

theorem levelShapes_ok (agrees : nested.Agrees c levels) {p : Parent}
    {fields : List FieldSelection} {out v : Shape.Fields} (below : k ≤ selectionLimit)
    (run : c.levelShapes nested p fields out k = .ok (v, k')) :
    ∃ entries, Within (levels + 1) k k' (c.DerivesFields p fields entries) ∧
      Members.insertAll out entries = v := by
  induction fields generalizing out k with
  | nil =>
      obtain ⟨rfl, rfl⟩ := pure_eq_ok.mp run
      exact ⟨[], ⟨0, 0, .nil, by omega, rfl, below⟩, rfl⟩
  | cons f rest others =>
      obtain ⟨s, j, selected, run⟩ := levelShapes_cons.mp run
      by_cases name : f.name = typenameKey
      · rw [selectedShape_typename name, pure_eq_ok] at selected
        obtain ⟨rfl, rfl⟩ := selected
        obtain ⟨entries, ⟨visits, depth, derived, within⟩, rfl⟩ := others below run
        exact ⟨_, ⟨visits, depth, .typename name derived, within⟩, rfl⟩
      · obtain ⟨type, base, declared, named, rfl⟩ := (selectedShape_eq_ok name).mp selected
        obtain ⟨visits, depth, derived, deep, rfl, limit⟩ := namedShape_ok agrees below named
        obtain ⟨entries, ⟨visits', depth', derived', deep', count, limit⟩, rfl⟩ :=
          others limit run
        exact ⟨_, ⟨visits + visits', max depth depth', .field name declared derived derived',
          by omega, by omega, limit⟩, rfl⟩

theorem levelShapes_of (agrees : nested.Agrees c levels) {p : Parent}
    {fields : List FieldSelection} {entries : List (String × Shape)} {out : Shape.Fields}
    {visits depth : Nat} (derived : c.DerivesFields p fields entries visits depth)
    (deep : depth < levels + 1) (count : k' = k + visits) (limit : k' ≤ selectionLimit) :
    c.levelShapes nested p fields out k = .ok (Members.insertAll out entries, k') := by
  induction fields generalizing entries out k visits depth with
  | nil =>
      cases derived
      cases count
      rfl
  | cons f rest ih =>
      rw [levelShapes_cons]
      cases derived with
      | typename name others =>
          refine ⟨_, k, ?_, ih others deep count⟩
          rw [selectedShape_typename name, pure_eq_ok]
          exact ⟨rfl, rfl⟩
      | @field _ _ _ type s entries visits depth visits' depth' name declared base others =>
          have below : k ≤ selectionLimit := by omega
          have named := namedShape_of agrees below
            ⟨visits, depth, base, by omega, rfl, by omega⟩
          exact ⟨_, k + visits, (selectedShape_eq_ok name).mpr ⟨type, s, declared, named, rfl⟩,
            ih others (by omega) (by omega)⟩

theorem Derives.object_of_object {t : CompositeType} {selections : List Selection} {v : Shape}
    {visits depth : Nat} (derived : c.Derives (.object t) selections v visits depth) :
    ∃ fields, v = .object fields := by
  cases derived with
  | object level plain fields => exact ⟨_, rfl⟩
  | variants level abstract narrowed fields fragments => exact abstract.elim

theorem fragmentShapes_ok (agrees : nested.Agrees c levels) (below : k ≤ selectionLimit)
    {f : ConditionalFragment} {fields : Shape.Fields}
    (run : c.fragmentShapes nested f k = .ok (fields, k')) :
    ∃ t, c.tables.fragmentType? f.condition = some t ∧
      Within levels k k' (c.Derives (.object t) f.selections (.object fields)) := by
  unfold fragmentShapes at run
  cases found : c.tables.fragmentType? f.condition with
  | none => simp only [found, throw_eq_ok] at run
  | some t =>
      simp only [found, bind_eq_ok] at run
      obtain ⟨v, j, inside, run⟩ := run
      obtain ⟨visits, depth, derived, within⟩ := (agrees below).mp inside
      obtain ⟨own, rfl⟩ := derived.object_of_object
      obtain ⟨rfl, rfl⟩ := pure_eq_ok.mp run
      exact ⟨t, rfl, visits, depth, derived, within⟩

theorem fragmentShapes_of (agrees : nested.Agrees c levels) (below : k ≤ selectionLimit)
    {f : ConditionalFragment} {t : CompositeType} {fields : Shape.Fields}
    (found : c.tables.fragmentType? f.condition = some t)
    (within : Within levels k k' (c.Derives (.object t) f.selections (.object fields))) :
    c.fragmentShapes nested f k = .ok (fields, k') := by
  simp only [fragmentShapes, found, bind_eq_ok]
  exact ⟨_, k', (agrees below).mpr within, rfl⟩

theorem choices_cons {shared : Shape.Fields} {f : ConditionalFragment}
    {rest : List ConditionalFragment} {out v : Shape.Variants} :
    c.choices nested shared (f :: rest) out k = .ok (v, k') ↔
      ∃ own j, c.fragmentShapes nested f k = .ok (own, j) ∧
        c.choices nested shared rest (Shape.insertVariant f.condition
          (Shape.mergeFields (Shape.variantBase f.condition shared) own) out) j = .ok (v, k') := by
  simp only [choices, List.foldlM_cons, bind_assoc, pure_bind, bind_eq_ok]

theorem choices_ok (agrees : nested.Agrees c levels) {shared : Shape.Fields}
    {fragments : List ConditionalFragment} {out v : Shape.Variants} (below : k ≤ selectionLimit)
    (run : c.choices nested shared fragments out k = .ok (v, k')) :
    ∃ owns, Within (levels + 1) k k' (c.DerivesFragments fragments owns) ∧
      Shape.addVariants shared owns out = v := by
  induction fragments generalizing out k with
  | nil =>
      obtain ⟨rfl, rfl⟩ := pure_eq_ok.mp run
      exact ⟨[], ⟨0, 0, .nil, by omega, rfl, below⟩, rfl⟩
  | cons f rest others =>
      obtain ⟨own, j, inside, run⟩ := choices_cons.mp run
      obtain ⟨t, found, visits, depth, derived, deep, rfl, limit⟩ :=
        fragmentShapes_ok agrees below inside
      obtain ⟨owns, ⟨visits', depth', derived', deep', count, limit⟩, rfl⟩ := others limit run
      exact ⟨_, ⟨visits + visits', max (depth + 1) depth', .cons found derived derived',
        by omega, by omega, limit⟩, rfl⟩

theorem choices_of (agrees : nested.Agrees c levels) {shared : Shape.Fields}
    {fragments : List ConditionalFragment} {owns : List (String × Shape.Fields)}
    {out : Shape.Variants} {visits depth : Nat}
    (derived : c.DerivesFragments fragments owns visits depth) (deep : depth < levels + 1)
    (count : k' = k + visits) (limit : k' ≤ selectionLimit) :
    c.choices nested shared fragments out k = .ok (Shape.addVariants shared owns out, k') := by
  induction fragments generalizing owns out k visits depth with
  | nil =>
      cases derived
      cases count
      rfl
  | cons f rest ih =>
      cases derived with
      | @cons _ _ t fields owns visits depth visits' depth' found inside others =>
          have below : k ≤ selectionLimit := by omega
          have own := fragmentShapes_of agrees below found
            ⟨visits, depth, inside, by omega, rfl, by omega⟩
          exact choices_cons.mpr ⟨fields, k + visits, own, ih others (by omega) (by omega)⟩

theorem selectionShape_agrees (c : Scope) (levels : Nat) :
    Nested.Agrees c (c.selectionShape levels) levels := by
  induction levels with
  | zero =>
      intro p selections v k k' below
      constructor
      · intro run
        exact (throw_eq_ok.mp run).elim
      · rintro ⟨visits, depth, -, deep, -⟩
        omega
  | succ levels agrees =>
      intro p selections v k k' below
      simp only [selectionShape_succ, bind_eq_ok]
      constructor
      · rintro ⟨l, k₁, expanded, fields, k₂, selected, run⟩
        obtain ⟨visits, depth, level, deep, rfl, limit⟩ := (Level.expand_eq_ok below).mp expanded
        obtain ⟨entries, ⟨visits', depth', derived, deep', rfl, limit'⟩, rfl⟩ :=
          levelShapes_ok agrees limit selected
        by_cases plain : p.IsAbstract → l.fragments = []
        · rw [assemble_plain (by simpa using plain), pure_eq_ok] at run
          obtain ⟨rfl, rfl⟩ := run
          exact ⟨visits + visits', max depth depth', .object level plain derived, by omega,
            by omega, limit'⟩
        · obtain ⟨abstract, narrowed⟩ := Classical.not_imp.mp plain
          rw [assemble_narrowed abstract (by simpa using narrowed), map_eq_ok] at run
          obtain ⟨out, run, rfl⟩ := run
          obtain ⟨owns, ⟨visits'', depth'', derived', deep'', rfl, limit''⟩, rfl⟩ :=
            choices_ok agrees limit' run
          exact ⟨visits + visits' + visits'', max depth (max depth' depth''),
            .variants level abstract narrowed derived derived', by omega, by omega, limit''⟩
      · rintro ⟨visits, depth, derived, deep, rfl, limit⟩
        cases derived with
        | @object _ _ l entries visits depth visits' depth' level plain fields =>
            refine ⟨l, k + visits, ?_, Members.ofList entries, k + (visits + visits'), ?_, ?_⟩
            · exact level.expand (by omega) rfl (by omega)
            · exact levelShapes_of agrees fields (by omega) (by omega) limit
            · rw [assemble_plain (by simpa using plain), pure_eq_ok]
              exact ⟨rfl, rfl⟩
        | @variants _ _ l entries owns visits depth visits' depth' visits'' depth'' level abstract
            narrowed fields fragments =>
            refine ⟨l, k + visits, ?_, Members.ofList entries, k + visits + visits', ?_, ?_⟩
            · exact level.expand (by omega) rfl (by omega)
            · exact levelShapes_of agrees fields (by omega) rfl (by omega)
            · rw [assemble_narrowed abstract (by simpa using narrowed), map_eq_ok]
              exact ⟨_, choices_of agrees fragments (by omega) (by omega) limit, rfl⟩

end Scope

namespace Subgraph

theorem compileDocument_eq (s : Subgraph) (d : Document) :
    (∃ e, s.start? d = none ∧ s.compileDocument d = .error e) ∨
      ∃ p selections, s.start? d = some (p, selections) ∧ s.compileDocument d =
        (s.scope d).selectionShape (recursionLimit + 1) p selections 0 := by
  unfold compileDocument start?
  cases operation : d.operation? with
  | none => exact .inl ⟨_, rfl, rfl⟩
  | some o =>
      cases root : s.root? o.kind with
      | none => exact .inl ⟨_, by simp [root], by simp [root]; rfl⟩
      | some name =>
          cases parent : s.tables.parent? name with
          | none => exact .inl ⟨_, by simp [root, parent], by simp [root, parent]; rfl⟩
          | some p =>
              exact .inr ⟨p, o.selections, by simp [root, parent], by simp [root, parent]; rfl⟩

theorem compileDocument_of_start? {s : Subgraph} {d : Document} {p : Parent}
    {selections : List Selection} (start : s.start? d = some (p, selections)) :
    s.compileDocument d = (s.scope d).selectionShape (recursionLimit + 1) p selections 0 := by
  rcases s.compileDocument_eq d with ⟨e, missing, -⟩ | ⟨q, others, start', run⟩
  · cases start.symm.trans missing
  · cases start.symm.trans start'
    exact run

/-- A document compiles exactly if the rules give a shape within the limits, and then to that
shape. -/
theorem compileDocument_eq_ok {s : Subgraph} {d : Document} {v : Shape} {visits : Nat} :
    s.compileDocument d = .ok (v, visits) ↔
      ∃ depth, s.Derives d v visits depth ∧ visits ≤ selectionLimit ∧ depth ≤ recursionLimit := by
  rcases s.compileDocument_eq d with ⟨e, start, fails⟩ | ⟨p, selections, start, run⟩
  · rw [fails]
    constructor
    · intro h
      cases h
    · rintro ⟨depth, ⟨p, selections, started, -⟩, -⟩
      rw [start] at started
      cases started
  · rw [run, (s.scope d).selectionShape_agrees _ (Nat.zero_le _)]
    constructor
    · rintro ⟨n, depth, derived, deep, count, limit⟩
      have same : visits = n := by omega
      subst same
      exact ⟨depth, ⟨p, selections, start, derived⟩, limit, by omega⟩
    · rintro ⟨depth, ⟨q, others, started, derived⟩, limit, deep⟩
      rw [start] at started
      cases started
      exact ⟨visits, depth, derived, by omega, by omega, limit⟩

theorem compile_eq_ok {s : Subgraph} {operation : String} {v : Shape}
    (compiled : s.compile operation = .ok v) :
    ∃ d visits, Document.parse? operation = some d ∧ s.compileDocument d = .ok (v, visits) := by
  unfold compile at compiled
  cases parsed : Document.parse? operation with
  | none => simp [parsed] at compiled
  | some d =>
      cases result : s.compileDocument d with
      | error e => simp [parsed, result, Except.map] at compiled
      | ok out =>
          simp only [parsed, result, Except.map, Except.ok.injEq] at compiled
          subst compiled
          exact ⟨d, out.2, rfl, result⟩

end Subgraph

end FederatedMock
