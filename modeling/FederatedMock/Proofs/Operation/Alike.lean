import FederatedMock.Proofs.Operation.Limits
import FederatedMock.Proofs.Schema.Merging
import FederatedMock.Proofs.Shape.SortedNames

namespace FederatedMock

open Graphql Shape

namespace Compiling

variable {α β γ δ : Type}

/-- The runs fail alike, or give results that are the same by `f`, at the same counts. -/
def Same (f : α → β) (x y : Compiling α) : Prop :=
  ∀ k, (x k).map (Prod.map f id) = (y k).map (Prod.map f id)

theorem same_refl (f : α → β) (x : Compiling α) : Same f x x := fun _ => rfl

theorem same_pure {f : α → β} {a b : α} (same : f a = f b) :
    Same f (pure a : Compiling α) (pure b) := by
  intro k
  change Except.ok (f a, k) = Except.ok (f b, k)
  rw [same]

theorem same_throw (f : α → β) (e : OperationError) :
    Same f (throw e : Compiling α) (throw e) := fun _ => rfl

theorem Same.bind {f : α → β} {g : γ → δ} {x y : Compiling α} {next next' : α → Compiling γ}
    (first : Same f x y) (later : ∀ a b, f a = f b → Same g (next a) (next' b)) :
    Same g (x >>= next) (y >>= next') := by
  intro k
  have here := first k
  change ((x k).bind fun r => next r.1 r.2).map _ = ((y k).bind fun r => next' r.1 r.2).map _
  cases left : x k with
  | error e =>
      cases right : y k with
      | error e' =>
          rw [left, right] at here
          cases here
          rfl
      | ok r =>
          rw [left, right] at here
          cases here
  | ok r =>
      cases right : y k with
      | error e =>
          rw [left, right] at here
          cases here
      | ok r' =>
          rw [left, right] at here
          obtain ⟨results, counts⟩ := Prod.mk.inj (Except.ok.inj here)
          change r.2 = r'.2 at counts
          simp only [Except.bind]
          rw [counts]
          exact later r.1 r'.1 results r'.2

theorem Same.map {f : α → β} {g : γ → δ} {x y : Compiling α} {h h' : α → γ} (first : Same f x y)
    (later : ∀ a b, f a = f b → g (h a) = g (h' b)) : Same g (h <$> x) (h' <$> y) := by
  rw [← bind_pure_comp, ← bind_pure_comp]
  exact first.bind fun a b same => same_pure (later a b same)

theorem same_foldlM {f : α → β} {step step' : α → γ → Compiling α} (items : List γ)
    (each : ∀ a b, f a = f b → ∀ x ∈ items, Same f (step a x) (step' b x)) :
    ∀ a b, f a = f b → Same f (items.foldlM step a) (items.foldlM step' b) := by
  induction items with
  | nil => exact fun a b same => same_pure same
  | cons x rest ih =>
      intro a b same
      rw [List.foldlM_cons, List.foldlM_cons]
      have others := ih fun a b same x mem => each a b same x (List.mem_cons_of_mem _ mem)
      exact (each a b same x List.mem_cons_self).bind others

end Compiling

structure CompositeType.Alike (t t' : CompositeType) : Prop where
  name : t.name = t'.name
  implements : ∀ interface, t.implements interface = t'.implements interface
  fields : ∀ f, t.fields.get? f = t'.fields.get? f

structure UnionType.Alike (u u' : UnionType) : Prop where
  name : u.name = u'.name
  members : u.members.Perm u'.members

namespace Tables

structure Alike (t t' : Tables) : Prop where
  scalars : ∀ name, t.scalars.get? name = t'.scalars.get? name
  enums : ∀ name, Option.Rel List.Perm (t.enums.get? name) (t'.enums.get? name)
  interfaces : ∀ name,
    Option.Rel CompositeType.Alike (t.interfaces.get? name) (t'.interfaces.get? name)
  objects : ∀ name, Option.Rel CompositeType.Alike (t.objects.get? name) (t'.objects.get? name)
  unions : ∀ name, Option.Rel UnionType.Alike (t.unions.get? name) (t'.unions.get? name)

end Tables

inductive Parent.Alike : Parent → Parent → Prop
  | object {t t' : CompositeType} (alike : t.Alike t') : Parent.Alike (.object t) (.object t')
  | interface {t t' : CompositeType} (alike : t.Alike t') :
      Parent.Alike (.interface t) (.interface t')
  | union {u u' : UnionType} (alike : u.Alike u') : Parent.Alike (.union u) (.union u')

namespace Tables

variable {t t' : Tables}

theorem Alike.parent? (alike : t.Alike t') (name : String) :
    Option.Rel Parent.Alike (t.parent? name) (t'.parent? name) := by
  unfold Tables.parent?
  rcases none_or_some_of_rel (alike.interfaces name) with ⟨left, right⟩ | ⟨i, i', left, right, same⟩
  · rw [left, right]
    rcases none_or_some_of_rel (alike.objects name) with ⟨left, right⟩ | ⟨o, o', left, right, same⟩
    · rw [left, right]
      rcases none_or_some_of_rel (alike.unions name) with ⟨left, right⟩ | ⟨u, u', left, right, same⟩
      · rw [left, right]
        exact .none
      · rw [left, right]
        exact .some (.union same)
    · rw [left, right]
      exact .some (.object same)
  · rw [left, right]
    exact .some (.interface same)

theorem Alike.fragmentType? (alike : t.Alike t') (name : String) :
    Option.Rel CompositeType.Alike (t.fragmentType? name) (t'.fragmentType? name) := by
  unfold Tables.fragmentType?
  rcases none_or_some_of_rel (alike.objects name) with ⟨left, right⟩ | ⟨o, o', left, right, same⟩
  · rw [left, right]
    exact alike.interfaces name
  · rw [left, right]
    exact .some same

theorem WellNamed.mem_possibleTypenames (named : t.WellNamed) (interface : CompositeType)
    (name : String) : name ∈ t.possibleTypenames interface ↔
      name = interface.name ∨ ∃ o, t.objects.get? name = some o ∧ o.implements interface.name := by
  rw [possibleTypenames, Names.mem_ofList, List.mem_cons]
  refine or_congr_right ?_
  constructor
  · intro mem
    obtain ⟨⟨key, o⟩, listed, rfl⟩ := List.mem_map.mp mem
    obtain ⟨listed, implements⟩ := List.mem_filter.mp listed
    have key : o.name = key := named.objects.name _ listed
    rw [key]
    exact ⟨o, Members.get?_of_mem named.objects.distinct listed, implements⟩
  · rintro ⟨o, found, implements⟩
    have listed := Members.mem_of_get? found
    have key : o.name = name := named.objects.name _ listed
    rw [← key]
    exact List.mem_map_of_mem (List.mem_filter.mpr ⟨listed, implements⟩)

theorem Alike.possibleTypenames (alike : t.Alike t') (named : t.WellNamed) (named' : t'.WellNamed)
    {interface interface' : CompositeType} (same : interface.Alike interface') :
    (t.possibleTypenames interface).Perm (t'.possibleTypenames interface') := by
  refine (List.perm_ext_iff_of_nodup (Names.nodup_ofList _) (Names.nodup_ofList _)).mpr ?_
  intro name
  have left := named.mem_possibleTypenames interface name
  have right := named'.mem_possibleTypenames interface' name
  refine left.trans (Iff.trans ?_ right.symm)
  rw [same.name]
  rcases none_or_some_of_rel (alike.objects name) with ⟨left, right⟩ | ⟨o, o', left, right, found⟩
  · simp [left, right]
  · simp [left, right, found.implements]

end Tables

namespace Scope

open Compiling

structure Alike (c c' : Scope) : Prop where
  tables : c.tables.Alike c'.tables
  named : c.tables.WellNamed
  named' : c'.tables.WellNamed
  fragments : c.fragments = c'.fragments

variable {c c' : Scope} {p p' : Parent}

theorem Alike.applies (scopes : c.Alike c') (same : Parent.Alike p p') :
    p.applies c.tables = p'.applies c'.tables := by
  funext condition
  cases same with
  | object same =>
      simp only [Parent.applies, Tables.appliesToObject, same.name, same.implements]
      rcases none_or_some_of_rel (scopes.tables.unions condition) with
        ⟨left, right⟩ | ⟨u, u', left, right, found⟩
      · rw [left, right]
      · rw [left, right]
        simp only [found.members.contains_eq]
  | interface same =>
      simp only [Parent.applies, CompositeType.appliesToInterface, same.name, same.implements]
  | union same => simp only [Parent.applies, UnionType.appliesToUnion, same.name]

theorem Alike.typename (scopes : c.Alike c') (same : Parent.Alike p p') :
    (p.typename c.tables).sortNames = (p'.typename c'.tables).sortNames := by
  cases same with
  | object same => rw [Parent.typename, Parent.typename, same.name]
  | interface same =>
      exact sortNames_enumeration
        (scopes.tables.possibleTypenames scopes.named scopes.named' same)
  | union same => exact sortNames_enumeration same.members

theorem sortFields_shared (same : Parent.Alike p p') {fields fields' : Fields}
    (sorted : sortFields fields = sortFields fields') :
    sortFields (p.shared fields) = sortFields (p'.shared fields') := by
  cases same with
  | interface same => exact sorted
  | _ => rfl

def Nested.Same (nested nested' : Nested) : Prop :=
  ∀ p p' selections, Parent.Alike p p' →
    Compiling.Same sortNames (nested p selections) (nested' p' selections)

section Steps

variable {nested nested' : Nested}

theorem namedShape_same (scopes : c.Alike c') (inside : Nested.Same nested nested')
    (name : String) (f : FieldSelection) :
    Same sortNames (c.namedShape nested name f) (c'.namedShape nested' name f) := by
  unfold namedShape
  rw [scopes.tables.scalars name]
  cases c'.tables.scalars.get? name with
  | some rule => exact same_refl _ _
  | none =>
      rcases none_or_some_of_rel (scopes.tables.enums name) with
        ⟨left, right⟩ | ⟨values, values', left, right, same⟩
      · rw [left, right]
        rcases none_or_some_of_rel (scopes.tables.parent? name) with
          ⟨left, right⟩ | ⟨p, p', left, right, same⟩
        · rw [left, right]
          exact same_throw _ _
        · rw [left, right]
          by_cases empty : f.selections.isEmpty
          · simp only [empty, if_true]
            exact same_throw _ _
          · simp only [empty, if_false, Bool.false_eq_true]
            exact inside _ _ _ same
      · rw [left, right]
        exact same_pure (sortNames_enumeration same)

theorem fieldShape_same (scopes : c.Alike c') (inside : Nested.Same nested nested')
    {t t' : CompositeType} (same : t.Alike t') (f : FieldSelection) :
    Same sortNames (c.fieldShape nested t f) (c'.fieldShape nested' t' f) := by
  unfold fieldShape
  rw [same.fields, same.name]
  cases t'.fields.get? f.name with
  | none => exact same_throw _ _
  | some type =>
      refine (namedShape_same scopes inside type.base f).bind fun s s' sorted => same_pure ?_
      rw [sortNames_wrap, sortNames_wrap, sorted]

theorem selectedShape_same (scopes : c.Alike c') (inside : Nested.Same nested nested')
    (same : Parent.Alike p p') (f : FieldSelection) :
    Same sortNames (c.selectedShape nested p f) (c'.selectedShape nested' p' f) := by
  unfold selectedShape
  split
  · exact same_pure (scopes.typename same)
  · cases same with
    | object same => exact fieldShape_same scopes inside same f
    | interface same => exact fieldShape_same scopes inside same f
    | union same =>
        simp only [same.name]
        exact same_throw _ _

theorem levelShapes_same (scopes : c.Alike c') (inside : Nested.Same nested nested')
    (same : Parent.Alike p p') (fields : List FieldSelection) :
    Same sortFields (c.levelShapes nested p fields []) (c'.levelShapes nested' p' fields []) := by
  refine same_foldlM fields (fun out out' outs f _ => ?_) [] [] rfl
  refine (selectedShape_same scopes inside same f).bind fun s s' sorted => same_pure ?_
  rw [sortFields_insertField, sortFields_insertField, sorted, outs]

theorem fragmentShapes_same (scopes : c.Alike c') (inside : Nested.Same nested nested')
    (f : ConditionalFragment) :
    Same sortFields (c.fragmentShapes nested f) (c'.fragmentShapes nested' f) := by
  unfold fragmentShapes
  rcases none_or_some_of_rel (scopes.tables.fragmentType? f.condition) with
    ⟨left, right⟩ | ⟨t, t', left, right, same⟩
  · rw [left, right]
    exact same_throw _ _
  · rw [left, right]
    refine (inside _ _ f.selections (.object same)).bind fun s s' sorted => ?_
    cases s <;> cases s' <;> simp only [sortNames, reduceCtorEq, Shape.object.injEq] at sorted
    case object.object => exact same_pure sorted
    all_goals exact same_pure rfl

theorem choices_same (scopes : c.Alike c') (inside : Nested.Same nested nested')
    {shared shared' : Fields} (sorted : sortFields shared = sortFields shared')
    (fragments : List ConditionalFragment) :
    Same sortVariants (c.choices nested shared fragments [])
      (c'.choices nested' shared' fragments []) := by
  refine same_foldlM fragments (fun out out' outs f _ => ?_) [] [] rfl
  refine (fragmentShapes_same scopes inside f).bind fun own own' owns => same_pure ?_
  rw [sortVariants_insertVariant, sortVariants_insertVariant, sortFields_mergeFields,
    sortFields_mergeFields, sortFields_variantBase, sortFields_variantBase, sorted, owns, outs]

theorem assemble_same (scopes : c.Alike c') (inside : Nested.Same nested nested')
    (same : Parent.Alike p p') {fields fields' : Fields}
    (sorted : sortFields fields = sortFields fields') (fragments : List ConditionalFragment) :
    Same sortNames (c.assemble nested p fields fragments)
      (c'.assemble nested' p' fields' fragments) := by
  have objects : (Shape.object fields).sortNames = (Shape.object fields').sortNames :=
    congrArg Shape.object sorted
  by_cases plain : p.IsAbstract → fragments = []
  · have plain' : p'.IsAbstract → fragments = [] := by
      cases same <;> exact plain
    rw [assemble_plain plain, assemble_plain plain']
    exact same_pure objects
  · obtain ⟨abstract, narrowed⟩ := Classical.not_imp.mp plain
    have abstract' : p'.IsAbstract := by
      cases same <;> exact abstract
    rw [assemble_narrowed abstract narrowed, assemble_narrowed abstract' narrowed]
    have variants := choices_same scopes inside (sortFields_shared same sorted) fragments
    exact variants.map fun choices choices' outs => congrArg Shape.variants outs

end Steps

theorem selectionShape_same (scopes : c.Alike c') (levels : Nat) :
    Nested.Same (c.selectionShape levels) (c'.selectionShape levels) := by
  induction levels with
  | zero => exact fun _ _ _ _ => same_throw _ _
  | succ levels inside =>
      intro p p' selections same
      rw [selectionShape_succ, selectionShape_succ, scopes.fragments, scopes.applies same]
      refine (same_refl id _).bind fun l l' levels => ?_
      cases levels
      have fields := levelShapes_same scopes inside same l.fields.reverse
      exact fields.bind fun out out' sorted =>
        assemble_same scopes inside same sorted l.fragments.reverse

end Scope

namespace Subgraph

theorem compileDocument_alike {s s' : Subgraph} (tables : s.tables.Alike s'.tables)
    (named : s.tables.WellNamed) (named' : s'.tables.WellNamed)
    (roots : s.system.roots = s'.system.roots) (d : Document) :
    (s.compileDocument d).map (Prod.map sortNames id) =
      (s'.compileDocument d).map (Prod.map sortNames id) := by
  have scopes : (s.scope d).Alike (s'.scope d) := ⟨tables, named, named', rfl⟩
  unfold compileDocument
  cases d.operation? with
  | none => rfl
  | some o =>
      have root : s.root? o.kind = s'.root? o.kind := congrArg (Roots.get · o.kind) roots
      simp only [root]
      cases s'.root? o.kind with
      | none => rfl
      | some name =>
          simp only
          rcases none_or_some_of_rel (tables.parent? name) with
            ⟨left, right⟩ | ⟨p, p', left, right, same⟩
          · rw [left, right]
          · rw [left, right]
            exact Scope.selectionShape_same scopes _ _ _ o.selections same 0

/-- Subgraphs with the same roots and tables that answer alike compile operations alike. -/
theorem compile_alike {s s' : Subgraph} (tables : s.tables.Alike s'.tables)
    (named : s.tables.WellNamed) (named' : s'.tables.WellNamed)
    (roots : s.system.roots = s'.system.roots) (operation : String) :
    (s.compile operation).map sortNames = (s'.compile operation).map sortNames := by
  unfold compile
  cases Document.parse? operation with
  | none => rfl
  | some d =>
      have documents := compileDocument_alike tables named named' roots d
      have shapes (result : Except OperationError (Shape × Nat)) :
          (result.map Prod.fst).map sortNames =
            (result.map (Prod.map sortNames id)).map Prod.fst := by
        cases result <;> rfl
      simp only [shapes, documents]

end Subgraph

end FederatedMock
