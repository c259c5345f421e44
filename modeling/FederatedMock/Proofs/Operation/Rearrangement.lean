import FederatedMock.Proofs.Operation.Alteration
import FederatedMock.Proofs.Operation.Reserved

namespace FederatedMock

open Graphql

namespace Graphql

mutual

inductive Selection.Rearranged : Selection → Selection → Prop
  | field {responseName : Option String} {name : String} {arguments : List Argument}
      {directives : List Directive} {inner inner' : List Selection}
      (inside : Rearranges inner inner') :
      Selection.Rearranged (.field responseName name arguments directives inner)
        (.field responseName name arguments directives inner')
  | inline {condition : Option String} {directives : List Directive}
      {inner inner' : List Selection} (inside : Rearranges inner inner') :
      Selection.Rearranged (.inline condition directives inner)
        (.inline condition directives inner')
  | spread {name : String} {directives : List Directive} :
      Selection.Rearranged (.spread name directives) (.spread name directives)

inductive Rearranges : List Selection → List Selection → Prop
  | nil : Rearranges [] []
  | cons {s s' : Selection} {rest rest' : List Selection} (first : Selection.Rearranged s s')
      (others : Rearranges rest rest') : Rearranges (s :: rest) (s' :: rest')
  | swap {s t : Selection} {rest : List Selection} : Rearranges (s :: t :: rest) (t :: s :: rest)
  | trans {a b c : List Selection} (first : Rearranges a b) (second : Rearranges b c) :
      Rearranges a c

end

mutual

theorem Selection.rearranged_refl : (s : Selection) → s.Rearranged s
  | .field _ _ _ _ inner => .field (rearranges_refl inner)
  | .inline _ _ inner => .inline (rearranges_refl inner)
  | .spread _ _ => .spread

theorem rearranges_refl : (selections : List Selection) → Rearranges selections selections
  | [] => .nil
  | s :: rest => .cons s.rearranged_refl (rearranges_refl rest)

end

mutual

theorem Selection.Rearranged.symm {s s' : Selection} :
    s.Rearranged s' → s'.Rearranged s
  | .field inside => .field inside.symm
  | .inline inside => .inline inside.symm
  | .spread => .spread

theorem Rearranges.symm {a b : List Selection} : Rearranges a b → Rearranges b a
  | .nil => .nil
  | .cons first others => .cons first.symm others.symm
  | .swap => .swap
  | .trans first second => .trans second.symm first.symm

end

theorem Selection.Rearranged.trans {s t u : Selection} (first : s.Rearranged t)
    (second : t.Rearranged u) : s.Rearranged u := by
  cases first with
  | field inside =>
      cases second with
      | field inside' => exact .field (.trans inside inside')
  | inline inside =>
      cases second with
      | inline inside' => exact .inline (.trans inside inside')
  | spread => exact second

theorem Rearranges.mem {a b : List Selection} :
    Rearranges a b → ∀ s ∈ a, ∃ s' ∈ b, s.Rearranged s'
  | .nil => fun _ mem => (List.not_mem_nil mem).elim
  | .cons first others => by
      refine List.forall_mem_cons.mpr ⟨⟨_, List.mem_cons_self, first⟩, fun s mem => ?_⟩
      obtain ⟨s', mem', same⟩ := others.mem s mem
      exact ⟨s', List.mem_cons_of_mem _ mem', same⟩
  | .swap => by
      intro s mem
      refine ⟨s, ?_, s.rearranged_refl⟩
      simp only [List.mem_cons] at mem ⊢
      tauto
  | .trans first second => by
      intro s mem
      obtain ⟨t, mem', same⟩ := first.mem s mem
      obtain ⟨u, mem'', same'⟩ := second.mem t mem'
      exact ⟨u, mem'', same.trans same'⟩

theorem Selection.Within.rearranged {s : Selection} {selections selections' : List Selection}
    (within : s.Within selections) (same : Rearranges selections selections') :
    ∃ s', s'.Within selections' ∧ s.Rearranged s' := by
  induction within generalizing selections' with
  | here mem =>
      obtain ⟨s', mem', same⟩ := same.mem _ mem
      exact ⟨s', .here mem', same⟩
  | field mem within ih =>
      obtain ⟨_, mem', around⟩ := same.mem _ mem
      cases around with
      | field inside =>
          obtain ⟨s', within', same⟩ := ih inside
          exact ⟨s', .field mem' within', same⟩
  | inline mem within ih =>
      obtain ⟨_, mem', around⟩ := same.mem _ mem
      cases around with
      | inline inside =>
          obtain ⟨s', within', same⟩ := ih inside
          exact ⟨s', .inline mem' within', same⟩

theorem Selection.Rearranged.reservesTypename {s s' : Selection} (same : s.Rearranged s')
    (reserved : s.ReservesTypename) : s'.ReservesTypename := by
  cases same with
  | field inside => exact reserved
  | inline inside => trivial
  | spread => trivial

end Graphql

structure Scope.Rearranged (c c' : Scope) : Prop where
  tables : c.tables = c'.tables
  fragments : ∀ name, Option.Rel (Fragment.Alters Rearranges) (c.fragments.get? name)
    (c'.fragments.get? name)

theorem Scope.Rearranged.symm {c c' : Scope} (same : c.Rearranged c') : c'.Rearranged c where
  tables := same.tables.symm
  fragments := by
    intro name
    have related := same.fragments name
    generalize c.fragments.get? name = f at related ⊢
    generalize c'.fragments.get? name = f' at related ⊢
    cases related with
    | none => exact .none
    | some alters =>
        exact .some ⟨alters.name.symm, alters.condition.symm, alters.selections.symm⟩

theorem Scope.Rearranged.fragment {c c' : Scope} (same : c.Rearranged c') {name : String}
    {f : Fragment} (found : c.fragments.get? name = some f) :
    ∃ f', c'.fragments.get? name = some f' ∧ f.Alters Rearranges f' := by
  have related := same.fragments name
  rw [found] at related
  exact exists_of_rel_some related

section Rearranged

variable {c c' : Scope} {p : Parent} {selections selections' : List Selection}

theorem Graphql.Selection.Rearranged.fragment? {s s' : Selection} {condition : Option String}
    {inner : List Selection} (same : s.Rearranged s') (scopes : c.Rearranged c')
    (found : s.fragment? c.fragments = some (condition, inner)) :
    ∃ inner', s'.fragment? c'.fragments = some (condition, inner') ∧ Rearranges inner inner' := by
  cases same with
  | field inside => cases found
  | inline inside =>
      cases found
      exact ⟨_, rfl, inside⟩
  | @spread name directives =>
      obtain ⟨f, known, here⟩ := Option.map_eq_some_iff.mp found
      cases here
      obtain ⟨f', known', alters⟩ := scopes.fragment known
      refine ⟨f'.selections, ?_, alters.selections⟩
      rw [Selection.fragment?_spread directives known', alters.condition]

theorem Level.Holds.rearranged {applies : String → Bool} {s : Selection}
    (holds : Level.Holds c.fragments applies selections s) (scopes : c.Rearranged c')
    (same : Rearranges selections selections') :
    ∃ s', Level.Holds c'.fragments applies selections' s' ∧ s.Rearranged s' := by
  induction holds with
  | here mem =>
      obtain ⟨s', mem', same⟩ := same.mem _ mem
      exact ⟨s', .here mem', same⟩
  | within outer found applied mem ih =>
      obtain ⟨f', holds', around⟩ := ih
      obtain ⟨inner', found', inside⟩ := around.fragment? scopes found
      obtain ⟨s', mem', same⟩ := inside.mem _ mem
      exact ⟨s', .within holds' found' applied mem', same⟩

namespace Scope

theorem Reserves.rearranged (reserved : c.Reserves selections) (scopes : c.Rearranged c')
    (same : Rearranges selections selections') : c'.Reserves selections' where
  here := by
    intro s' within
    obtain ⟨s, within, back⟩ := within.rearranged same.symm
    exact back.symm.reservesTypename (reserved.here s within)
  named := by
    intro name f' found s' within
    obtain ⟨f, known, alters⟩ := scopes.symm.fragment found
    obtain ⟨s, within, back⟩ := within.rearranged alters.selections
    exact back.symm.reservesTypename (reserved.named name f known s within)

theorem HasField.rearranged {f : FieldSelection} (has : c.HasField p selections f)
    (scopes : c.Rearranged c') (same : Rearranges selections selections') :
    ∃ f', c'.HasField p selections' f' ∧ f.Alters Rearranges f' := by
  obtain ⟨arguments, directives, holds⟩ := has
  rw [scopes.tables] at holds
  obtain ⟨s', holds', same'⟩ := holds.rearranged scopes same
  cases same' with
  | @field _ _ _ _ _ inner' inside =>
      exact ⟨⟨f.responseName, f.name, inner'⟩, ⟨arguments, directives, holds'⟩, rfl, rfl, inside⟩

theorem HasFragment.rearranged {g : ConditionalFragment} (has : c.HasFragment p selections g)
    (scopes : c.Rearranged c') (same : Rearranges selections selections') :
    ∃ g', c'.HasFragment p selections' g' ∧ g.Alters Rearranges g' := by
  obtain ⟨s, holds, found, other⟩ := has
  rw [scopes.tables] at holds other
  obtain ⟨s', holds', same'⟩ := holds.rearranged scopes same
  obtain ⟨inner', found', inside⟩ := same'.fragment? scopes found
  exact ⟨⟨g.condition, inner'⟩, ⟨s', holds', found', other⟩, rfl, inside⟩

theorem Selects.rearranged {condition : Option String} {q : Parent} {f : FieldSelection}
    (selected : c.Selects p selections condition q f) (scopes : c.Rearranged c')
    (same : Rearranges selections selections') :
    ∃ f', c'.Selects p selections' condition q f' ∧ f.Alters Rearranges f' := by
  cases selected with
  | plain has =>
      obtain ⟨f', has', alters⟩ := has.rearranged scopes same
      exact ⟨f', .plain has', alters⟩
  | shared interface has key =>
      obtain ⟨f', has', alters⟩ := has.rearranged scopes same
      exact ⟨f', .shared interface has' (alters.key ▸ key), alters⟩
  | own abstract fragment type has =>
      obtain ⟨g', fragment', altersFragment⟩ := fragment.rearranged scopes same
      obtain ⟨f', has', alters⟩ := has.rearranged scopes altersFragment.selections
      rw [scopes.tables, altersFragment.condition] at type
      rw [altersFragment.condition]
      exact ⟨f', .own abstract fragment' type has', alters⟩

end Scope

end Rearranged

namespace Scope

open Occurrence

variable {c c' : Scope} {p : Parent} {selections selections' : List Selection}

/-- What is selected under one key of an object or a variant is the same, but for its order. -/
def Unambiguous (c : Scope) (p : Parent) (selections : List Selection) : Prop :=
  ∀ condition q f q' f', c.Selects p selections condition q f →
    c.Selects p selections condition q' f' → f.key = f'.key →
      f.name = f'.name ∧ Rearranges f.selections f'.selections

/-- A field of an interface that comes back in a fragment on a type comes back in all fragments on
the type, or the type declares it as the interface does. -/
def Settled (c : Scope) (p : Parent) (selections : List Selection) : Prop :=
  ∀ t u f f' g, p = .interface t → c.HasField p selections f → f.key ≠ typenameKey →
    c.HasFragment p selections g → c.tables.fragmentType? g.condition = some u →
      c.HasField (.object u) g.selections f' → f'.key = f.key →
        (f.name ≠ typenameKey ∧ t.fields.get? f.name = u.fields.get? f.name) ∨
        ∀ g', c.HasFragment p selections g' → g'.condition = g.condition →
          ∃ f'', c.HasField (.object u) g'.selections f'' ∧ f''.key = f.key

structure Orderly (c : Scope) (a : Parent × List Selection) : Prop where
  unambiguous : c.Unambiguous a.1 a.2
  settled : c.Settled a.1 a.2

theorem selects_some_iff {name : String} {q : Parent} {f : FieldSelection} :
    c.Selects p selections (some name) q f ↔
      (∃ t, p = .interface t ∧ q = p ∧ c.HasField p selections f ∧ f.key ≠ typenameKey) ∨
      ∃ g u, p.IsAbstract ∧ c.HasFragment p selections g ∧ g.condition = name ∧
        c.tables.fragmentType? g.condition = some u ∧ q = .object u ∧
        c.HasField (.object u) g.selections f := by
  constructor
  · intro selected
    cases selected with
    | shared interface has key => exact .inl ⟨_, interface, rfl, has, key⟩
    | own abstract fragment type has =>
        exact .inr ⟨_, _, abstract, fragment, rfl, type, rfl, has⟩
  · rintro (⟨t, interface, rfl, has, key⟩ | ⟨g, u, abstract, fragment, rfl, type, rfl, has⟩)
    · exact .shared interface has key
    · exact .own abstract fragment type has

theorem FragmentsOccur.last_own {shared : List Occurrence} {fragments : List ConditionalFragment}
    {occs : List Occurrence} {key : String} (occur : c.FragmentsOccur shared fragments occs)
    (some : fragments ≠ [])
    (each : ∀ g ∈ fragments, ∀ t, c.tables.fragmentType? g.condition = .some t →
      ∃ f, c.HasField (.object t) g.selections f ∧ f.key = key) :
    ∃ t f, last? key occs = .some (.field (.object t) f) := by
  induction occur with
  | nil => exact (some rfl).elim
  | @cons g rest t own aside occs type level occur ih =>
      obtain ⟨first, later⟩ := List.forall_mem_cons.mp each
      rw [last?_append]
      by_cases empty : rest = []
      · subst empty
        cases occur
        obtain ⟨f, has, rfl⟩ := first t type
        have kept : last? f.key (own.map (.field (.object t))) ≠ none := by
          rw [ne_eq, last?_eq_none_iff]
          exact fun fresh => fresh _ (List.mem_map_of_mem (level.mem_fields.mpr has)) rfl
        obtain ⟨o, last⟩ := Option.ne_none_iff_exists'.mp kept
        obtain ⟨mem, -⟩ := mem_of_last? last
        obtain ⟨f', -, rfl⟩ := List.mem_map.mp mem
        refine ⟨t, f', ?_⟩
        rw [last?_cons, last?_append, last]
        rfl
      · obtain ⟨u, f, last⟩ := ih empty later
        exact ⟨u, f, by rw [last]; rfl⟩

theorem Occurs.last_own {name key : String} {occs : List Occurrence}
    (occurs : c.Occurs p selections (some name) occs)
    (each : ∀ g, c.HasFragment p selections g → g.condition = name →
      ∀ t, c.tables.fragmentType? g.condition = some t →
        ∃ f, c.HasField (.object t) g.selections f ∧ f.key = key) :
    ∃ t f, last? key occs = some (.field (.object t) f) := by
  cases occurs with
  | @variant fields fragments _ _ level abstract named own =>
      obtain ⟨g₀, listed, same⟩ := named
      refine own.last_own (List.ne_nil_of_mem (a := g₀) (by simpa using ⟨listed, same⟩)) ?_
      intro g mem
      obtain ⟨listed, same⟩ := List.mem_filter.mp mem
      exact each g (level.mem_fragments.mp listed) (of_decide_eq_true same)

theorem Settled.rearranged (settled : c.Settled p selections) (scopes : c.Rearranged c')
    (same : Rearranges selections selections') : c'.Settled p selections' := by
  intro t u f f' g interface has other fragment type has' key
  obtain ⟨f₀, has₀, alters⟩ := has.rearranged scopes.symm same.symm
  obtain ⟨g₀, fragment₀, altersFragment⟩ := fragment.rearranged scopes.symm same.symm
  obtain ⟨f₁, has₁, alters'⟩ := has'.rearranged scopes.symm altersFragment.selections
  rw [← scopes.tables, altersFragment.condition] at type
  obtain ⟨plain, declared⟩ | every := settled t u f₀ f₁ g₀ interface has₀ (alters.key ▸ other)
    fragment₀ type has₁ (alters'.key.symm.trans (key.trans alters.key))
  · rw [alters.name]
    exact .inl ⟨plain, declared⟩
  · refine .inr fun g' fragment' condition => ?_
    obtain ⟨g'', fragment'', alters''⟩ := fragment'.rearranged scopes.symm same.symm
    obtain ⟨f'', has'', key''⟩ := every g'' fragment''
      (alters''.condition.symm.trans (condition.trans altersFragment.condition))
    obtain ⟨f₂, has₂, alters₂⟩ := has''.rearranged scopes alters''.selections.symm
    exact ⟨f₂, has₂, alters₂.key.symm.trans (key''.trans alters.key.symm)⟩

theorem declared_alike {name key : String} {t u : CompositeType} {occs : List Occurrence}
    {f f' : FieldSelection} (settled : c.Settled p selections)
    (occurs : c.Occurs p selections (some name) occs) (last : last? key occs = some (.field p f))
    (interface : p = .interface t) (same : f.key = key) (other : key ≠ typenameKey)
    (selected : c.Selects p selections (some name) (.object u) f') (same' : f'.key = key) :
    f.name ≠ typenameKey ∧ t.fields.get? f.name = u.fields.get? f.name := by
  have has : c.HasField p selections f := by
    rcases selects_some_iff.mp (occurs.mem_field_iff.mp (mem_of_last? last).1) with
      ⟨_, _, _, has, _⟩ | ⟨g, _, _, _, _, _, object, _⟩
    · exact has
    · rw [interface] at object
      cases object
  rcases selects_some_iff.mp selected with
    ⟨_, _, object, -⟩ | ⟨g, _, abstract, fragment, condition, type, object, has'⟩
  · rw [interface] at object
    cases object
  · cases object
    obtain declared | every := settled t u f f' g interface has (same ▸ other) fragment type has'
      (same'.trans same.symm)
    · exact declared
    · -- All fragments select the key, so that the last selection of it is one of theirs.
      have each : ∀ g', c.HasFragment p selections g' → g'.condition = name →
          ∀ t', c.tables.fragmentType? g'.condition = some t' →
            ∃ f'', c.HasField (.object t') g'.selections f'' ∧ f''.key = key := by
        intro g' fragment' condition' t' type'
        rw [condition', ← condition, type] at type'
        cases type'
        rw [← same]
        exact every g' fragment' (condition'.trans condition.symm)
      obtain ⟨u', f'', own⟩ := occurs.last_own each
      rw [last, interface] at own
      cases own

theorem parents_alike {condition : Option String} {key : String} {occs occs' : List Occurrence}
    {q q' : Parent} {f f' : FieldSelection} (scopes : c.Rearranged c')
    (same : Rearranges selections selections') (settled : c.Settled p selections)
    (occurs : c.Occurs p selections condition occs)
    (occurs' : c'.Occurs p selections' condition occs')
    (last : last? key occs = some (.field q f)) (last' : last? key occs' = some (.field q' f'))
    (name : f.name = f'.name) (other : condition = none ∨ key ≠ typenameKey) :
    q = q' ∨ f.name ≠ typenameKey ∧ q.field? f.name = q'.field? f.name := by
  have key_eq := (mem_of_last? last).2
  have key_eq' := (mem_of_last? last').2
  have selected := occurs.mem_field_iff.mp (mem_of_last? last).1
  have selected' := occurs'.mem_field_iff.mp (mem_of_last? last').1
  cases condition with
  | none =>
      cases selected
      cases selected'
      exact .inl rfl
  | some condition =>
      have apart : key ≠ typenameKey := other.resolve_left (by simp)
      rcases selects_some_iff.mp selected with
        ⟨t, interface, here, has, -⟩ | ⟨g, u, abstract, fragment, rfl, type, here, has⟩
      · rcases selects_some_iff.mp selected' with
          ⟨t', interface', here', has', -⟩ | ⟨g', u', -, -, -, -, here', -⟩
        · exact .inl (here.trans here'.symm)
        · obtain ⟨f₀, selected₀, alters⟩ := selected'.rearranged scopes.symm same.symm
          rw [here] at last
          rw [here'] at selected₀
          obtain ⟨plain, declared⟩ := declared_alike settled occurs last interface key_eq apart
            selected₀ (alters.key.symm.trans key_eq')
          rw [here, here', interface]
          exact .inr ⟨plain, declared⟩
      · rcases selects_some_iff.mp selected' with
          ⟨t', interface', here', has', -⟩ | ⟨g', u', -, -, condition', type', here', -⟩
        · obtain ⟨f₀, selected₀, alters⟩ := selected.rearranged scopes same
          rw [here'] at last'
          rw [here] at selected₀
          obtain ⟨plain, declared⟩ := declared_alike (settled.rearranged scopes same) occurs' last'
            interface' key_eq' apart selected₀ (alters.key.symm.trans key_eq)
          rw [here, here', interface', name]
          exact .inr ⟨plain, declared.symm⟩
        · rw [condition', ← scopes.tables, type] at type'
          cases type'
          exact .inl (here.trans here'.symm)

end Scope

end FederatedMock
