import FederatedMock.Proofs.Operation.Limits

namespace FederatedMock

open Graphql

namespace Compiling

variable {α β : Type} {x : Compiling α} {a : α} {b : β} {n m : Nat}

/-- The run gives that value at the cost of so many selections, if the limit allows as many. -/
def Costs (x : Compiling α) (visits : Nat) (a : α) : Prop :=
  ∀ k ≤ selectionLimit, x k =
    if k + visits ≤ selectionLimit then .ok (a, k + visits) else .error .selectionLimitExceeded

theorem costs_pure (a : α) : Costs (pure a) 0 a := by
  intro k below
  rw [Nat.add_zero, if_pos below]
  rfl

theorem costs_countSelection : Costs countSelection 1 () := by
  intro k below
  by_cases room : k + 1 ≤ selectionLimit
  · rw [if_pos room]
    exact countSelection_eq_ok.mpr ⟨room, rfl⟩
  · have full : k + 1 > selectionLimit := by omega
    rw [if_neg room, countSelection]
    change (if k + 1 > selectionLimit then
        (do throw OperationError.selectionLimitExceeded; set (k + 1) : Compiling Unit)
      else set (k + 1) : Compiling Unit) k = _
    rw [if_pos full]
    rfl

theorem Costs.bind {f : α → Compiling β} (first : Costs x n a) (later : Costs (f a) m b) :
    Costs (x >>= f) (n + m) b := by
  intro k below
  change (x k >>= fun result => f result.1 result.2) = _
  rw [first k below]
  by_cases room : k + n ≤ selectionLimit
  · rw [if_pos room]
    change f a (k + n) = _
    rw [later (k + n) room, Nat.add_assoc]
  · have full : ¬ k + (n + m) ≤ selectionLimit := by omega
    rw [if_neg room, if_neg full]
    rfl

theorem Costs.map (f : α → β) (first : Costs x n a) : Costs (f <$> x) n (f a) := by
  rw [← bind_pure_comp, ← Nat.add_zero n]
  refine first.bind ?_
  exact costs_pure (f a)

end Compiling

namespace Level

open Compiling

variable {fragments : Members Fragment} {applies : String → Bool}
  {inner : List Selection → Level → Compiling Level} {l l₁ l' : Level} {s : Selection}

theorem costs_add_field {responseName : Option String} {name : String} {arguments : List Argument}
    {directives : List Directive} {selections : List Selection} :
    Costs (add fragments applies inner l (.field responseName name arguments directives selections))
      1 (l.addField ⟨responseName, name, selections⟩) := by
  refine costs_countSelection.bind (m := 0) ?_
  exact costs_pure _

theorem costs_add_again {f : Option String × List Selection}
    (found : s.fragment? fragments = some f) (expanded : l.HasExpanded s) :
    Costs (add fragments applies inner l s) 1 l := by
  rw [add_fragment found, if_pos expanded]
  refine costs_countSelection.bind (m := 0) ?_
  exact costs_pure l

theorem costs_add_fresh {condition : Option String} {selections : List Selection} {n : Nat}
    (found : s.fragment? fragments = some (condition, selections)) (fresh : ¬ l.HasExpanded s)
    (entered : Costs (enter inner applies condition selections l) n l₁) :
    Costs (add fragments applies inner l s) (1 + n) (l₁.mark s) := by
  rw [add_fragment found, if_neg fresh]
  exact costs_countSelection.bind (entered.map (·.mark s))

theorem Expands.costs {levels visits depth : Nat} {selections : List Selection}
    (derived : Expands fragments applies selections l l' visits depth) (nested : depth < levels) :
    Costs (Level.expand fragments applies levels selections l) visits l' := by
  obtain ⟨levels, rfl⟩ : ∃ n, levels = n + 1 := ⟨levels - 1, by omega⟩
  induction derived generalizing levels with
  | @nil l => exact costs_pure l
  | @field _ _ _ _ _ _ _ _ visits _ others ih =>
      rw [expand_cons, Nat.add_comm visits]
      exact costs_add_field.bind (ih levels nested)
  | @again _ _ _ _ _ visits _ found expanded others ih =>
      rw [expand_cons, Nat.add_comm visits]
      exact (costs_add_again found expanded).bind (ih levels nested)
  | @into s condition selections rest l l₁ l' visits depth visits' depth' found fresh applied
      inside others ihInside ihOthers =>
      obtain ⟨levels, rfl⟩ : ∃ n, levels = n + 1 := ⟨levels - 1, by omega⟩
      have entered : Costs (enter (Level.expand fragments applies (levels + 1)) applies condition
          selections l) visits l₁ := by
        rw [enter_of_applied applied]
        exact ihInside levels (by omega)
      have count : visits + visits' + 1 = 1 + visits + visits' := by omega
      rw [expand_cons, count]
      exact (costs_add_fresh found fresh entered).bind (ihOthers (levels + 1) (by omega))
  | @aside s condition selections rest l l' visits depth found fresh other others ih =>
      have entered : Costs (enter (Level.expand fragments applies levels) applies (some condition)
          selections l) 0 (l.addFragment condition selections) := by
        rw [enter_of_other other]
        exact costs_pure _
      rw [expand_cons, Nat.add_comm visits]
      exact (costs_add_fresh found fresh entered).bind (ih levels nested)

end Level

namespace Scope

open Compiling

variable {c : Scope} {levels : Nat}

theorem levelShapes_cons_eq {nested : Nested} {p : Parent} {f : FieldSelection}
    {rest : List FieldSelection} {out : Shape.Fields} :
    c.levelShapes nested p (f :: rest) out = c.selectedShape nested p f >>= fun s =>
      c.levelShapes nested p rest (Shape.insertField f.key s out) := by
  simp only [levelShapes, List.foldlM_cons, bind_assoc, pure_bind]

mutual

theorem Derives.costs {p : Parent} {selections : List Selection} {v : Shape} {visits depth : Nat} :
    c.Derives p selections v visits depth → ∀ levels, depth < levels →
      Costs (c.selectionShape levels p selections) visits v
  | .object level plain fields => fun levels nested => by
      obtain ⟨levels, rfl⟩ : ∃ n, levels = n + 1 := ⟨levels - 1, by omega⟩
      rw [selectionShape_succ]
      refine (level.costs (by omega)).bind ((fields.costs levels [] (by omega)).bind (m := 0) ?_)
      rw [assemble_plain (by simpa using plain)]
      exact costs_pure _
  | .variants level abstract narrowed fields fragments => fun levels nested => by
      obtain ⟨levels, rfl⟩ : ∃ n, levels = n + 1 := ⟨levels - 1, by omega⟩
      rw [selectionShape_succ, Nat.add_assoc]
      refine (level.costs (by omega)).bind ((fields.costs levels [] (by omega)).bind ?_)
      rw [assemble_narrowed abstract (by simpa using narrowed)]
      exact (fragments.costs levels _ [] (by omega)).map Shape.variants

theorem DerivesFields.costs {p : Parent} {fields : List FieldSelection}
    {entries : List (String × Shape)} {visits depth : Nat} :
    c.DerivesFields p fields entries visits depth → ∀ levels out, depth < levels + 1 →
      Costs (c.levelShapes (c.selectionShape levels) p fields out) visits
        (Members.insertAll out entries)
  | .nil => fun _ out _ => costs_pure out
  | .typename name others => fun levels out nested => by
      rw [levelShapes_cons_eq, selectedShape_typename name, pure_bind]
      exact others.costs levels _ nested
  | .field name declared base others => fun levels out nested => by
      rw [levelShapes_cons_eq, selectedShape_declared name declared]
      exact ((base.costs levels (by omega)).map _).bind (others.costs levels _ (by omega))

theorem DerivesNamed.costs {name : String} {f : FieldSelection} {v : Shape} {visits depth : Nat} :
    c.DerivesNamed name f v visits depth → ∀ levels, depth < levels + 1 →
      Costs (c.namedShape (c.selectionShape levels) name f) visits v
  | .scalar found => fun levels _ => by
      simp only [namedShape, found]
      exact costs_pure _
  | .enumeration custom found => fun levels _ => by
      simp only [namedShape, custom, found]
      exact costs_pure _
  | .composite found selected inside => fun levels nested => by
      obtain ⟨custom, plain, parent⟩ := composite?_eq_some_iff.mp found
      have filled : f.selections.isEmpty = false := by simpa using selected
      simp only [namedShape, custom, plain, parent, filled, Bool.false_eq_true, ↓reduceIte]
      exact inside.costs levels (by omega)

theorem DerivesFragments.costs {fragments : List ConditionalFragment}
    {owns : List (String × Shape.Fields)} {visits depth : Nat} :
    c.DerivesFragments fragments owns visits depth → ∀ levels shared out, depth < levels + 1 →
      Costs (c.choices (c.selectionShape levels) shared fragments out) visits
        (Shape.addVariants shared owns out)
  | .nil => fun _ _ out _ => costs_pure out
  | .cons found inside others => fun levels shared out nested => by
      simp only [choices, List.foldlM_cons, fragmentShapes, found, bind_assoc, pure_bind]
      exact (inside.costs levels (by omega)).bind (others.costs levels shared _ (by omega))

end

end Scope

namespace Subgraph

theorem compileDocument_of_derives {s : Subgraph} {d : Document} {v : Shape} {visits depth : Nat}
    (derived : s.Derives d v visits depth) (nested : depth ≤ recursionLimit) :
    s.compileDocument d =
      if visits ≤ selectionLimit then .ok (v, visits) else .error .selectionLimitExceeded := by
  obtain ⟨p, selections, start, derived⟩ := derived
  rw [compileDocument_of_start? start,
    derived.costs _ (Nat.lt_succ_of_le nested) 0 (Nat.zero_le _), Nat.zero_add]

end Subgraph

end FederatedMock
