import FederatedMock.Proofs.Operation.Alteration
import FederatedMock.Proofs.Operation.Limits

/-!
# Compilations in lockstep

Two compilations go step by step together if their steps end with the same error or with related
results at the same count. What the selections of their levels have in common (`r`) is left open, as
long as sets are empty together: then the shapes are the same.
-/

namespace FederatedMock

open Graphql

namespace Compiling

variable {α β γ δ : Type} {r : α → β → Prop} {r' : γ → δ → Prop}

/-- Two runs end with the same error, or with values that are related at the same count. -/
inductive Lockstep (r : α → β → Prop) :
    Except OperationError (α × Nat) → Except OperationError (β × Nat) → Prop
  | error {e : OperationError} : Lockstep r (.error e) (.error e)
  | ok {a : α} {b : β} {k : Nat} (related : r a b) : Lockstep r (.ok (a, k)) (.ok (b, k))

theorem lockstep_refl (x : Except OperationError (α × Nat)) : Lockstep Eq x x := by
  cases x with
  | error e => exact .error
  | ok result => exact .ok rfl

theorem Lockstep.eq {x y : Except OperationError (α × Nat)} (runs : Lockstep Eq x y) : x = y := by
  cases runs with
  | error => rfl
  | ok same => rw [same]

theorem Lockstep.bind {x : Compiling α} {y : Compiling β} {f : α → Compiling γ}
    {g : β → Compiling δ} {k : Nat} (first : Lockstep r (x k) (y k))
    (later : ∀ a b j, x k = .ok (a, j) → r a b → Lockstep r' (f a j) (g b j)) :
    Lockstep r' ((x >>= f) k) ((y >>= g) k) := by
  change Lockstep r' ((x k).bind fun result => f result.1 result.2)
    ((y k).bind fun result => g result.1 result.2)
  revert later
  generalize x k = left, y k = right at first ⊢
  intro later
  cases first with
  | error => exact .error
  | ok related => exact later _ _ _ rfl related

theorem Lockstep.map {x : Compiling α} {y : Compiling β} {f : α → γ} {g : β → δ} {k : Nat}
    (first : Lockstep r (x k) (y k)) (later : ∀ a b, r a b → r' (f a) (g b)) :
    Lockstep r' ((f <$> x) k) ((g <$> y) k) := by
  rw [← bind_pure_comp, ← bind_pure_comp]
  exact first.bind fun a b j _ related => .ok (later a b related)

theorem lockstep_foldlM {q : γ → δ → Prop} {step : α → γ → Compiling α}
    {step' : α → δ → Compiling α} {items : List γ} {items' : List δ} {a : α} {k : Nat}
    (related : List.Forall₂ q items items')
    (each : ∀ before x y after b j, items = before ++ x :: after → q x y →
      before.foldlM step a k = .ok (b, j) → Lockstep Eq (step b x j) (step' b y j)) :
    Lockstep Eq (items.foldlM step a k) (items'.foldlM step' a k) := by
  induction related generalizing a k with
  | nil => exact .ok rfl
  | @cons x y rest rest' first others ih =>
      rw [List.foldlM_cons, List.foldlM_cons]
      -- The later steps are taken from where the first has led.
      refine (each [] x y rest a k rfl first rfl).bind fun b b' j stepped same => ?_
      cases same
      refine ih fun before x' y' after b' j' split related run => ?_
      refine each (x :: before) x' y' after b' j' (congrArg (x :: ·) split) related ?_
      rw [List.foldlM_cons, bind_eq_ok]
      exact ⟨b, j, stepped, run⟩

end Compiling

namespace Level

open Compiling

variable {fragments fragments' : Members Fragment} {applies : String → Bool}
  {q : Level → Level → Prop} {l l' : Level} {k : Nat}
  {run run' : List Selection → Level → Compiling Level} {condition : Option String}
  {inner inner' : List Selection}

theorem enter_lockstep (aside : ∀ name, q (l.addFragment name inner) (l'.addFragment name inner'))
    (entered : (∀ name ∈ condition, applies name = true) →
      Lockstep q (run inner l k) (run' inner' l' k)) :
    Lockstep q (enter run applies condition inner l k)
      (enter run' applies condition inner' l' k) := by
  by_cases applied : ∀ name ∈ condition, applies name = true
  · rw [enter_of_applied applied, enter_of_applied applied]
    exact entered applied
  · cases condition with
    | none => exact (applied (by simp)).elim
    | some name =>
        have other : applies name = false := by simpa using applied
        rw [enter_of_other other, enter_of_other other]
        exact .ok (aside name)

theorem add_field_lockstep {responseName : Option String} {name : String}
    {arguments arguments' : List Argument} {directives directives' : List Directive}
    (added : q (l.addField ⟨responseName, name, inner⟩)
      (l'.addField ⟨responseName, name, inner'⟩)) :
    Lockstep q
      (add fragments applies run l (.field responseName name arguments directives inner) k)
      (add fragments' applies run' l' (.field responseName name arguments' directives' inner')
        k) :=
  Lockstep.bind (lockstep_refl (countSelection k)) fun _ _ _ _ _ => .ok added

theorem add_fragment_lockstep {s s' : Selection} (here : q l l')
    (found : s.fragment? fragments = some (condition, inner))
    (found' : s'.fragment? fragments' = some (condition, inner'))
    (again : k < selectionLimit → (l.HasExpanded s ↔ l'.HasExpanded s'))
    (marked : ∀ a b, q a b → q (a.mark s) (b.mark s'))
    (aside : ∀ name, q (l.addFragment name inner) (l'.addFragment name inner'))
    (entered : k < selectionLimit → ¬ l.HasExpanded s → (∀ name ∈ condition, applies name = true) →
      Lockstep q (run inner l (k + 1)) (run' inner' l' (k + 1))) :
    Lockstep q (add fragments applies run l s k) (add fragments' applies run' l' s' k) := by
  rw [add_fragment found, add_fragment found']
  refine Lockstep.bind (lockstep_refl (countSelection k)) fun _ _ j counted _ => ?_
  obtain ⟨room, rfl⟩ := countSelection_eq_ok.mp counted
  by_cases expanded : l.HasExpanded s
  · rw [if_pos expanded, if_pos ((again room).mp expanded)]
    exact .ok here
  · rw [if_neg expanded, if_neg (mt (again room).mpr expanded)]
    exact (enter_lockstep aside (entered room expanded)).map marked

end Level

namespace Scope

open Compiling

section Steps

variable {c c' : Scope} {nested nested' : Nested} {r : List Selection → List Selection → Prop}
  {p : Parent} {k : Nat}

theorem namedShape_lockstep (empty : ∀ {a b}, r a b → a.isEmpty = b.isEmpty)
    (tables : c.tables = c'.tables) {f f' : FieldSelection}
    (alters : f.Alters r f') (name : String)
    (inside : ∀ q, c.tables.composite? name = some q →
      Lockstep Eq (nested q f.selections k) (nested' q f'.selections k)) :
    Lockstep Eq (c.namedShape nested name f k) (c'.namedShape nested' name f' k) := by
  unfold namedShape
  rw [← tables, ← alters.name, ← empty alters.selections]
  cases custom : c.tables.scalars.get? name with
  | some rule => exact .ok rfl
  | none =>
      cases plain : c.tables.enums.get? name with
      | some values => exact .ok rfl
      | none =>
          cases parent : c.tables.parent? name with
          | none => exact .error
          | some q =>
              by_cases bare : f.selections.isEmpty
              · simp only [bare, if_true]
                exact .error
              · simp only [bare, if_false, Bool.false_eq_true]
                exact inside q (composite?_eq_some_iff.mpr ⟨custom, plain, parent⟩)

theorem selectedShape_lockstep (empty : ∀ {a b}, r a b → a.isEmpty = b.isEmpty)
    (tables : c.tables = c'.tables) {f f' : FieldSelection}
    (alters : f.Alters r f')
    (inside : ∀ type q, f.name ≠ typenameKey → p.field? f.name = some type →
      c.tables.composite? type.base = some q →
        Lockstep Eq (nested q f.selections k) (nested' q f'.selections k)) :
    Lockstep Eq (c.selectedShape nested p f k) (c'.selectedShape nested' p f' k) := by
  have same := alters.name
  by_cases name : f.name = typenameKey
  · rw [selectedShape_typename name, selectedShape_typename (same ▸ name), tables]
    exact lockstep_refl _
  · cases declared : p.field? f.name with
    | none =>
        unfold selectedShape fieldShape
        rw [← same, if_neg name, if_neg name]
        cases p with
        | union u => exact .error
        | _ t =>
            have undeclared : t.fields.get? f.name = none := declared
            simp only [undeclared]
            exact .error
    | some type =>
        rw [selectedShape_declared name declared,
          selectedShape_declared (same ▸ name) (same ▸ declared)]
        have base := namedShape_lockstep empty tables alters type.base (inside type · name declared)
        exact base.map fun _ _ same => congrArg (TypeRef.wrap · type) same

theorem levelShapes_lockstep (empty : ∀ {a b}, r a b → a.isEmpty = b.isEmpty)
    (tables : c.tables = c'.tables) {fields fields' : List FieldSelection}
    (alters : List.Forall₂ (FieldSelection.Alters r) fields fields')
    (inside : ∀ before f f' after out j type q, fields = before ++ f :: after →
      f.Alters r f' → c.levelShapes nested p before [] k = .ok (out, j) →
      f.name ≠ typenameKey → p.field? f.name = some type →
      c.tables.composite? type.base = some q →
        Lockstep Eq (nested q f.selections j) (nested' q f'.selections j)) :
    Lockstep Eq (c.levelShapes nested p fields [] k) (c'.levelShapes nested' p fields' [] k) := by
  refine lockstep_foldlM alters fun before f f' after out j split altered run => ?_
  have selected := selectedShape_lockstep empty tables altered (p := p) (k := j)
    fun type q => inside before f f' after out j type q split altered run
  refine selected.bind fun s s' _ _ same => .ok ?_
  rw [same, altered.key]

theorem fragmentShapes_lockstep (tables : c.tables = c'.tables) {f f' : ConditionalFragment}
    (alters : f.Alters r f')
    (inside : ∀ t, c.tables.fragmentType? f.condition = some t →
      Lockstep Eq (nested (.object t) f.selections k) (nested' (.object t) f'.selections k)) :
    Lockstep Eq (c.fragmentShapes nested f k) (c'.fragmentShapes nested' f' k) := by
  unfold fragmentShapes
  rw [← tables, ← alters.condition]
  cases type : c.tables.fragmentType? f.condition with
  | none => exact .error
  | some t =>
      refine (inside t type).bind fun v v' j _ same => ?_
      rw [same]
      exact lockstep_refl _

theorem choices_lockstep (tables : c.tables = c'.tables) {shared : Shape.Fields}
    {fragments₁ fragments₂ : List ConditionalFragment}
    (alters : List.Forall₂ (ConditionalFragment.Alters r) fragments₁ fragments₂)
    (inside : ∀ before f f' after out j t, fragments₁ = before ++ f :: after →
      f.Alters r f' → c.choices nested shared before [] k = .ok (out, j) →
      c.tables.fragmentType? f.condition = some t →
        Lockstep Eq (nested (.object t) f.selections j) (nested' (.object t) f'.selections j)) :
    Lockstep Eq (c.choices nested shared fragments₁ [] k)
      (c'.choices nested' shared fragments₂ [] k) := by
  refine lockstep_foldlM alters fun before f f' after out j split altered run => ?_
  have own := fragmentShapes_lockstep tables altered
    fun t => inside before f f' after out j t split altered run
  refine own.bind fun s s' _ _ same => .ok ?_
  rw [same, altered.condition]

theorem assemble_lockstep {fields : Shape.Fields}
    {fragments₁ fragments₂ : List ConditionalFragment}
    (alters : List.Forall₂ (ConditionalFragment.Alters r) fragments₁ fragments₂)
    (inside : p.IsAbstract → Lockstep Eq (c.choices nested (p.shared fields) fragments₁ [] k)
      (c'.choices nested' (p.shared fields) fragments₂ [] k)) :
    Lockstep Eq (c.assemble nested p fields fragments₁ k)
      (c'.assemble nested' p fields fragments₂ k) := by
  have none_iff := eq_nil_iff_of_forall₂ alters
  by_cases plain : p.IsAbstract → fragments₁ = []
  · have plain' : p.IsAbstract → fragments₂ = [] := fun abstract => none_iff.mp (plain abstract)
    rw [assemble_plain plain, assemble_plain plain']
    exact lockstep_refl _
  · obtain ⟨abstract, narrowed⟩ := Classical.not_imp.mp plain
    rw [assemble_narrowed abstract narrowed,
      assemble_narrowed abstract ((not_congr none_iff).mp narrowed)]
    exact (inside abstract).map fun _ _ same => congrArg Shape.variants same

end Steps

end Scope

end FederatedMock
