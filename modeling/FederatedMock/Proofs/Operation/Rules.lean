import FederatedMock.Operation.Compile

/-!
# Compilation as rules

What operations compile to if nothing is limited. `Level.Expands` has the rules for the selections
of one level, `Scope.Derives` those for shapes. Both count: `visits` selections are looked at, and
fragments and fields nest selection sets `depth` deep. The rules give one result at most.
-/

namespace FederatedMock

open Graphql

/-! ## Levels -/

def Graphql.Selection.fragment? (fragments : Members Fragment) :
    Selection → Option (Option String × List Selection)
  | .field .. => none
  | .inline condition _ selections => some (condition, selections)
  | .spread name _ => (fragments.get? name).map fun f => (some f.condition, f.selections)

theorem Graphql.Selection.fragment?_spread {fragments : Members Fragment} {name : String}
    {f : Fragment} (directives : List Directive) (found : fragments.get? name = some f) :
    (Selection.spread name directives).fragment? fragments =
      some (some f.condition, f.selections) := by
  rw [fragment?, found, Option.map_some]

namespace Level

def HasExpanded (l : Level) : Selection → Prop
  | .spread name _ => name ∈ l.expanded
  | _ => False

instance (l : Level) (s : Selection) : Decidable (l.HasExpanded s) :=
  match s with
  | .field .. => inferInstanceAs (Decidable False)
  | .inline .. => inferInstanceAs (Decidable False)
  | .spread name _ => inferInstanceAs (Decidable (name ∈ l.expanded))

def mark (l : Level) : Selection → Level
  | .spread name _ => l.markExpanded name
  | _ => l

@[simp] theorem mark_fields {l : Level} {s : Selection} : (l.mark s).fields = l.fields := by
  cases s <;> rfl

@[simp] theorem mark_fragments {l : Level} {s : Selection} :
    (l.mark s).fragments = l.fragments := by
  cases s <;> rfl

/-- Entering the selections takes one level to another. A fragment whose condition applies is
entered into the level itself, any other is set aside, and a named one counts once. -/
inductive Expands (fragments : Members Fragment) (applies : String → Bool) :
    List Selection → Level → Level → Nat → Nat → Prop
  | nil {l : Level} : Expands fragments applies [] l l 0 0
  | field {responseName : Option String} {name : String} {arguments : List Argument}
      {directives : List Directive} {selections rest : List Selection} {l l' : Level}
      {visits depth : Nat}
      (others : Expands fragments applies rest (l.addField ⟨responseName, name, selections⟩) l'
        visits depth) :
      Expands fragments applies (.field responseName name arguments directives selections :: rest)
        l l' (visits + 1) depth
  | again {s : Selection} {f : Option String × List Selection} {rest : List Selection}
      {l l' : Level} {visits depth : Nat} (found : s.fragment? fragments = some f)
      (expanded : l.HasExpanded s) (others : Expands fragments applies rest l l' visits depth) :
      Expands fragments applies (s :: rest) l l' (visits + 1) depth
  | into {s : Selection} {condition : Option String} {selections rest : List Selection}
      {l l₁ l' : Level} {visits depth visits' depth' : Nat}
      (found : s.fragment? fragments = some (condition, selections)) (fresh : ¬ l.HasExpanded s)
      (applied : ∀ name ∈ condition, applies name = true)
      (inside : Expands fragments applies selections l l₁ visits depth)
      (others : Expands fragments applies rest (l₁.mark s) l' visits' depth') :
      Expands fragments applies (s :: rest) l l' (visits + visits' + 1) (max (depth + 1) depth')
  | aside {s : Selection} {condition : String} {selections rest : List Selection} {l l' : Level}
      {visits depth : Nat} (found : s.fragment? fragments = some (some condition, selections))
      (fresh : ¬ l.HasExpanded s) (other : applies condition = false)
      (others : Expands fragments applies rest ((l.addFragment condition selections).mark s) l'
        visits depth) :
      Expands fragments applies (s :: rest) l l' (visits + 1) depth

end Level

/-! ## Parents -/

namespace Parent

def applies (tables : Tables) : Parent → String → Bool
  | .object t => tables.appliesToObject t
  | .interface t => t.appliesToInterface
  | .union u => u.appliesToUnion

def typename (tables : Tables) : Parent → Shape
  | .object t => .scalar (.typename t.name)
  | .interface t => .enumeration (tables.possibleTypenames t)
  | .union u => .enumeration u.members

def field? : Parent → String → Option TypeRef
  | .object t, name => t.fields.get? name
  | .interface t, name => t.fields.get? name
  | .union _, _ => none

def IsAbstract : Parent → Prop
  | .object _ => False
  | _ => True

def shared (fields : Shape.Fields) : Parent → Shape.Fields
  | .interface _ => fields
  | _ => []

end Parent

namespace Tables

def composite? (t : Tables) (name : String) : Option Parent :=
  match t.scalars.get? name, t.enums.get? name with
  | none, none => t.parent? name
  | _, _ => none

end Tables

namespace Shape

def variantBase (condition : String) (shared : Fields) : Fields :=
  (shared.filter fun s => s.1 != typenameKey).foldl
    (fun fields s => insertField s.1 s.2 fields)
    (insertField typenameKey (.enumeration [condition]) [])

def addVariants (shared : Fields) (fragments : List (String × Fields)) (out : Variants) :
    Variants :=
  fragments.foldl
    (fun out f => insertVariant f.1 (mergeFields (variantBase f.1 shared) f.2) out) out

end Shape

namespace Scope

def Expands (c : Scope) (p : Parent) (selections : List Selection) (l : Level)
    (visits depth : Nat) : Prop :=
  Level.Expands c.fragments (p.applies c.tables) selections .empty l visits depth

mutual

inductive Derives (c : Scope) : Parent → List Selection → Shape → Nat → Nat → Prop
  | object {p : Parent} {selections : List Selection} {l : Level}
      {entries : List (String × Shape)} {visits depth visits' depth' : Nat}
      (level : c.Expands p selections l visits depth) (plain : p.IsAbstract → l.fragments = [])
      (fields : DerivesFields c p l.fields.reverse entries visits' depth') :
      Derives c p selections (.object (Members.ofList entries)) (visits + visits')
        (max depth depth')
  | variants {p : Parent} {selections : List Selection} {l : Level}
      {entries : List (String × Shape)} {owns : List (String × Shape.Fields)}
      {visits depth visits' depth' visits'' depth'' : Nat}
      (level : c.Expands p selections l visits depth) (abstract : p.IsAbstract)
      (narrowed : l.fragments ≠ [])
      (fields : DerivesFields c p l.fields.reverse entries visits' depth')
      (fragments : DerivesFragments c l.fragments.reverse owns visits'' depth'') :
      Derives c p selections
        (.variants (Shape.addVariants (p.shared (Members.ofList entries)) owns []))
        (visits + visits' + visits'') (max depth (max depth' depth''))

inductive DerivesFields (c : Scope) :
    Parent → List FieldSelection → List (String × Shape) → Nat → Nat → Prop
  | nil {p : Parent} : DerivesFields c p [] [] 0 0
  | typename {p : Parent} {f : FieldSelection} {rest : List FieldSelection}
      {entries : List (String × Shape)} {visits depth : Nat} (name : f.name = typenameKey)
      (others : DerivesFields c p rest entries visits depth) :
      DerivesFields c p (f :: rest) ((f.key, p.typename c.tables) :: entries) visits depth
  | field {p : Parent} {f : FieldSelection} {rest : List FieldSelection} {type : TypeRef}
      {s : Shape} {entries : List (String × Shape)} {visits depth visits' depth' : Nat}
      (name : f.name ≠ typenameKey) (declared : p.field? f.name = some type)
      (base : DerivesNamed c type.base f s visits depth)
      (others : DerivesFields c p rest entries visits' depth') :
      DerivesFields c p (f :: rest) ((f.key, TypeRef.wrap s type) :: entries) (visits + visits')
        (max depth depth')

inductive DerivesNamed (c : Scope) : String → FieldSelection → Shape → Nat → Nat → Prop
  | scalar {name : String} {f : FieldSelection} {rule : ScalarRule}
      (found : c.tables.scalars.get? name = some rule) : DerivesNamed c name f (.scalar rule) 0 0
  | enumeration {name : String} {f : FieldSelection} {values : List String}
      (custom : c.tables.scalars.get? name = none)
      (found : c.tables.enums.get? name = some values) :
      DerivesNamed c name f (.enumeration values) 0 0
  | composite {name : String} {f : FieldSelection} {p : Parent} {s : Shape} {visits depth : Nat}
      (found : c.tables.composite? name = some p) (selected : f.selections ≠ [])
      (inside : Derives c p f.selections s visits depth) :
      DerivesNamed c name f s visits (depth + 1)

inductive DerivesFragments (c : Scope) :
    List ConditionalFragment → List (String × Shape.Fields) → Nat → Nat → Prop
  | nil : DerivesFragments c [] [] 0 0
  | cons {f : ConditionalFragment} {rest : List ConditionalFragment} {t : CompositeType}
      {fields : Shape.Fields} {owns : List (String × Shape.Fields)}
      {visits depth visits' depth' : Nat} (found : c.tables.fragmentType? f.condition = some t)
      (inside : Derives c (.object t) f.selections (.object fields) visits depth)
      (others : DerivesFragments c rest owns visits' depth') :
      DerivesFragments c (f :: rest) ((f.condition, fields) :: owns) (visits + visits')
        (max (depth + 1) depth')

end

end Scope

namespace Subgraph

def completed (d : Document) : Subgraph :=
  ⟨augment d, (TypeSystem.ofDocument (augment d)).1, .ofDocument (augment d)⟩

theorem eq_completed {d : Document} {s : Subgraph} (valid : ofDocument d = .ok s) :
    s = completed d := by
  unfold ofDocument validateSchema at valid
  unfold completed
  cases checked : TypeSystem.ofDocument (augment d) with
  | mk system problems =>
      cases problems with
      | cons problem rest => simp [checked] at valid
      | nil =>
          cases more : system.problems with
          | nil => simpa [checked, more] using valid.symm
          | cons problem rest => simp [checked, more] at valid

def start? (s : Subgraph) (d : Document) : Option (Parent × List Selection) := do
  let o ← d.operation?
  let root ← s.root? o.kind
  let p ← s.tables.parent? root
  return (p, o.selections)

def scope (s : Subgraph) (d : Document) : Scope :=
  ⟨s.tables, fragmentsOf d⟩

def Derives (s : Subgraph) (d : Document) (v : Shape) (visits depth : Nat) : Prop :=
  ∃ p selections, s.start? d = some (p, selections) ∧
    (s.scope d).Derives p selections v visits depth

end Subgraph

/-! ## Uniqueness -/

namespace Level

theorem Expands.unique {fragments : Members Fragment} {applies : String → Bool} {l l₁ l₂ : Level}
    {selections : List Selection} {visits depth visits' depth' : Nat}
    (first : Expands fragments applies selections l l₁ visits depth)
    (second : Expands fragments applies selections l l₂ visits' depth') :
    l₁ = l₂ ∧ visits = visits' ∧ depth = depth' := by
  induction first generalizing l₂ visits' depth' with
  | nil =>
      cases second
      exact ⟨rfl, rfl, rfl⟩
  | field others ih =>
      cases second with
      | field others' =>
          obtain ⟨rfl, rfl, rfl⟩ := ih others'
          exact ⟨rfl, rfl, rfl⟩
      | again found => cases found
      | into found => cases found
      | aside found => cases found
  | again found expanded others ih =>
      cases second with
      | field => cases found
      | again found' expanded' others' =>
          obtain ⟨rfl, rfl, rfl⟩ := ih others'
          exact ⟨rfl, rfl, rfl⟩
      | into found' fresh => exact (fresh expanded).elim
      | aside found' fresh => exact (fresh expanded).elim
  | into found fresh applied inside others ihInside ihOthers =>
      cases second with
      | field => cases found
      | again found' expanded => exact (fresh expanded).elim
      | into found' fresh' applied' inside' others' =>
          cases found.symm.trans found'
          obtain ⟨rfl, rfl, rfl⟩ := ihInside inside'
          obtain ⟨rfl, rfl, rfl⟩ := ihOthers others'
          exact ⟨rfl, rfl, rfl⟩
      | aside found' fresh' other =>
          cases found.symm.trans found'
          simp [applied _ rfl] at other
  | aside found fresh other others ih =>
      cases second with
      | field => cases found
      | again found' expanded => exact (fresh expanded).elim
      | into found' fresh' applied =>
          cases found.symm.trans found'
          simp [applied _ rfl] at other
      | aside found' fresh' other' others' =>
          cases found.symm.trans found'
          obtain ⟨rfl, rfl, rfl⟩ := ih others'
          exact ⟨rfl, rfl, rfl⟩

end Level

namespace Scope

variable {c : Scope}

mutual

theorem Derives.unique {p : Parent} {selections : List Selection} {v v' : Shape}
    {visits depth visits' depth' : Nat} : c.Derives p selections v visits depth →
      c.Derives p selections v' visits' depth' → v = v' ∧ visits = visits' ∧ depth = depth'
  | .object level plain fields => fun second => by
      cases second with
      | object level' plain' fields' =>
          obtain ⟨rfl, rfl, rfl⟩ := level.unique level'
          obtain ⟨rfl, rfl, rfl⟩ := fields.unique fields'
          exact ⟨rfl, rfl, rfl⟩
      | variants level' abstract narrowed =>
          obtain ⟨rfl, -, -⟩ := level.unique level'
          exact (narrowed (plain abstract)).elim
  | .variants level abstract narrowed fields fragments => fun second => by
      cases second with
      | object level' plain' fields' =>
          obtain ⟨rfl, -, -⟩ := level.unique level'
          exact (narrowed (plain' abstract)).elim
      | variants level' abstract' narrowed' fields' fragments' =>
          obtain ⟨rfl, rfl, rfl⟩ := level.unique level'
          obtain ⟨rfl, rfl, rfl⟩ := fields.unique fields'
          obtain ⟨rfl, rfl, rfl⟩ := fragments.unique fragments'
          exact ⟨rfl, rfl, rfl⟩

theorem DerivesFields.unique {p : Parent} {fields : List FieldSelection}
    {entries entries' : List (String × Shape)} {visits depth visits' depth' : Nat} :
    c.DerivesFields p fields entries visits depth →
      c.DerivesFields p fields entries' visits' depth' →
        entries = entries' ∧ visits = visits' ∧ depth = depth'
  | .nil => fun second => by
      cases second
      exact ⟨rfl, rfl, rfl⟩
  | .typename name others => fun second => by
      cases second with
      | typename name' others' =>
          obtain ⟨rfl, rfl, rfl⟩ := others.unique others'
          exact ⟨rfl, rfl, rfl⟩
      | field plain => exact (plain name).elim
  | .field plain declared base others => fun second => by
      cases second with
      | typename name others' => exact (plain name).elim
      | field plain' declared' base' others' =>
          cases declared.symm.trans declared'
          obtain ⟨rfl, rfl, rfl⟩ := base.unique base'
          obtain ⟨rfl, rfl, rfl⟩ := others.unique others'
          exact ⟨rfl, rfl, rfl⟩

theorem DerivesNamed.unique {name : String} {f : FieldSelection} {v v' : Shape}
    {visits depth visits' depth' : Nat} : c.DerivesNamed name f v visits depth →
      c.DerivesNamed name f v' visits' depth' → v = v' ∧ visits = visits' ∧ depth = depth'
  | .scalar found => fun second => by
      cases second with
      | scalar found' =>
          cases found.symm.trans found'
          exact ⟨rfl, rfl, rfl⟩
      | enumeration custom => cases found.symm.trans custom
      | composite found' => simp [Tables.composite?, found] at found'
  | .enumeration custom found => fun second => by
      cases second with
      | scalar found' => cases custom.symm.trans found'
      | enumeration custom' found' =>
          cases found.symm.trans found'
          exact ⟨rfl, rfl, rfl⟩
      | composite found' => simp [Tables.composite?, custom, found] at found'
  | .composite found selected inside => fun second => by
      cases second with
      | scalar found' => simp [Tables.composite?, found'] at found
      | enumeration custom found' => simp [Tables.composite?, custom, found'] at found
      | composite found' selected' inside' =>
          cases found.symm.trans found'
          obtain ⟨rfl, rfl, rfl⟩ := inside.unique inside'
          exact ⟨rfl, rfl, rfl⟩

theorem DerivesFragments.unique {fragments : List ConditionalFragment}
    {owns owns' : List (String × Shape.Fields)} {visits depth visits' depth' : Nat} :
    c.DerivesFragments fragments owns visits depth →
      c.DerivesFragments fragments owns' visits' depth' →
        owns = owns' ∧ visits = visits' ∧ depth = depth'
  | .nil => fun second => by
      cases second
      exact ⟨rfl, rfl, rfl⟩
  | .cons found inside others => fun second => by
      cases second with
      | cons found' inside' others' =>
          cases found.symm.trans found'
          obtain ⟨same, rfl, rfl⟩ := inside.unique inside'
          cases same
          obtain ⟨rfl, rfl, rfl⟩ := others.unique others'
          exact ⟨rfl, rfl, rfl⟩

end

end Scope

end FederatedMock
