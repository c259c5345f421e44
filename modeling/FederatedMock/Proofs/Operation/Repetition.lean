import FederatedMock.Proofs.Operation.Inlining
import FederatedMock.Proofs.Operation.Lockstep

namespace FederatedMock

open Graphql

namespace Level

open Compiling

/-- Expanding the selections, with that many levels of fragments left and after that many selections
are counted, comes to a spread of a fragment that the level has expanded already. -/
inductive Repeats (fragments : Members Fragment) (applies : String → Bool) :
    Nat → List Selection → Level → Nat → Prop
  | here {levels k : Nat} {s : Selection} {rest : List Selection} {l : Level}
      (room : k < selectionLimit) (expanded : l.HasExpanded s) :
      Repeats fragments applies (levels + 1) (s :: rest) l k
  | inside {levels k : Nat} {s : Selection} {condition : Option String}
      {selections rest : List Selection} {l : Level} (room : k < selectionLimit)
      (found : s.fragment? fragments = some (condition, selections)) (fresh : ¬ l.HasExpanded s)
      (applied : ∀ name ∈ condition, applies name = true)
      (repeats : Repeats fragments applies levels selections l (k + 1)) :
      Repeats fragments applies (levels + 1) (s :: rest) l k
  | later {levels k k₁ : Nat} {s : Selection} {rest : List Selection} {l l₁ : Level}
      (added : add fragments applies (expand fragments applies levels) l s k = .ok (l₁, k₁))
      (repeats : Repeats fragments applies (levels + 1) rest l₁ k₁) :
      Repeats fragments applies (levels + 1) (s :: rest) l k

variable {fragments fragments' : Members Fragment} {applies : String → Bool}

theorem Repeats.not_fields {levels k : Nat} {selections : List Selection} {l : Level}
    (repeats : Repeats fragments applies levels selections l k) :
    ¬ ∀ s ∈ selections, ∃ r n a d ss, s = .field r n a d ss := by
  intro fields
  induction repeats with
  | here room expanded =>
      obtain ⟨r, n, a, d, ss, rfl⟩ := fields _ List.mem_cons_self
      exact expanded
  | inside room found =>
      obtain ⟨r, n, a, d, ss, rfl⟩ := fields _ List.mem_cons_self
      cases found
  | later added repeats ih => exact ih fun s mem => fields s (List.mem_cons_of_mem _ mem)

theorem expand_inlines (fragments' : Members Fragment) (levels : Nat)
    {selections selections' : List Selection} {l l' : Level} {k : Nat}
    (inlines : Inlines fragments selections selections')
    (alters : l.Alters (Inlines fragments) l')
    (once : ¬ Repeats fragments applies levels selections l k) :
    Lockstep (Level.Alters (Inlines fragments)) (expand fragments applies levels selections l k)
      (expand fragments' applies levels selections' l' k) := by
  -- Fragments are entered with one level less, the selections beside them with as many.
  induction levels generalizing selections selections' l l' k with
  | zero => exact .error
  | succ levels within =>
      induction inlines generalizing l l' k with
      | nil => exact .ok alters
      | @field responseName name arguments directives inner inner' rest rest' inside others _ ih =>
          have fields : (l.addField ⟨responseName, name, inner⟩).Alters (Inlines fragments)
              (l'.addField ⟨responseName, name, inner'⟩) :=
            alters.addField ⟨rfl, rfl, inside⟩
          rw [expand_cons, expand_cons]
          refine (add_field_lockstep fields).bind fun _ _ j added related => ?_
          exact ih related fun repeats => once (.later added repeats)
      | inline inside others _ ih =>
          rw [expand_cons, expand_cons]
          refine (add_fragment_lockstep alters rfl rfl (fun _ => Iff.rfl)
            (fun _ _ related => related.mark _ _) (alters.addFragment · inside)
            fun room fresh applied => ?_).bind fun _ _ j added related => ?_
          · exact within inside alters fun repeats => once (.inside room rfl fresh applied repeats)
          · exact ih related fun repeats => once (.later added repeats)
      | @spread name directives f inner rest rest' found inside others _ ih =>
          have known := Selection.fragment?_spread directives found
          have fresh (room : k < selectionLimit) : ¬ l.HasExpanded (.spread name directives) :=
            fun expanded => once (.here room expanded)
          rw [expand_cons, expand_cons]
          refine (add_fragment_lockstep alters known rfl (fun room => iff_of_false (fresh room) id)
            (fun _ _ related => related.mark _ _) (alters.addFragment · inside)
            fun room fresh applied => ?_).bind fun _ _ j added related => ?_
          · exact within inside alters fun repeats =>
              once (.inside room known fresh applied repeats)
          · exact ih related fun repeats => once (.later added repeats)

end Level

namespace Scope

open Compiling

inductive Repeats (c : Scope) : Nat → Parent → List Selection → Nat → Prop
  | level {levels k : Nat} {p : Parent} {selections : List Selection}
      (repeats : Level.Repeats c.fragments (p.applies c.tables) (levels + 1) selections .empty k) :
      Repeats c (levels + 1) p selections k
  | field {levels k k₁ k₂ : Nat} {p q : Parent} {selections : List Selection} {l : Level}
      {before after : List FieldSelection} {f : FieldSelection} {out : Shape.Fields}
      {type : TypeRef}
      (level : Level.expand c.fragments (p.applies c.tables) (levels + 1) selections .empty k =
        .ok (l, k₁))
      (split : l.fields.reverse = before ++ f :: after)
      (earlier : c.levelShapes (c.selectionShape levels) p before [] k₁ = .ok (out, k₂))
      (plain : f.name ≠ typenameKey) (declared : p.field? f.name = some type)
      (composite : c.tables.composite? type.base = some q)
      (repeats : Repeats c levels q f.selections k₂) : Repeats c (levels + 1) p selections k
  | fragment {levels k k₁ k₂ k₃ : Nat} {p : Parent} {selections : List Selection} {l : Level}
      {before after : List ConditionalFragment} {f : ConditionalFragment} {fields : Shape.Fields}
      {out : Shape.Variants} {t : CompositeType}
      (level : Level.expand c.fragments (p.applies c.tables) (levels + 1) selections .empty k =
        .ok (l, k₁))
      (shared : c.levelShapes (c.selectionShape levels) p l.fields.reverse [] k₁ =
        .ok (fields, k₂)) (abstract : p.IsAbstract)
      (split : l.fragments.reverse = before ++ f :: after)
      (earlier : c.choices (c.selectionShape levels) (p.shared fields) before [] k₂ =
        .ok (out, k₃))
      (type : c.tables.fragmentType? f.condition = some t)
      (repeats : Repeats c levels (.object t) f.selections k₃) :
      Repeats c (levels + 1) p selections k

theorem selectionShape_inlines (c c' : Scope) (tables : c.tables = c'.tables) (levels : Nat)
    {p : Parent} {selections selections' : List Selection} {k : Nat}
    (inlines : Inlines c.fragments selections selections')
    (once : ¬ c.Repeats levels p selections k) :
    Lockstep Eq (c.selectionShape levels p selections k)
      (c'.selectionShape levels p selections' k) := by
  induction levels generalizing p selections selections' k with
  | zero => exact .error
  | succ levels within =>
      rw [selectionShape_succ, selectionShape_succ, ← tables]
      have level := Level.expand_inlines c'.fragments (levels + 1) inlines
        Level.alters_empty fun repeats => once (.level repeats)
      refine level.bind fun l l' k₁ expanded alters => ?_
      have fields := List.rel_reverse alters.fields
      refine (levelShapes_lockstep Inlines.isEmpty_eq tables fields ?_).bind
        fun fields fields' k₂ shared same => ?_
      · intro before f f' after out j type q split altered earlier name declared composite
        exact within altered.selections fun repeats =>
          once (.field expanded split earlier name declared composite repeats)
      · cases same
        have reversed := List.rel_reverse alters.fragments
        refine assemble_lockstep reversed fun abstract => choices_lockstep tables reversed ?_
        intro before f f' after out j t split altered earlier type
        exact within altered.selections fun repeats =>
          once (.fragment expanded shared abstract split earlier type repeats)

end Scope

namespace Subgraph

def Repeats (s : Subgraph) (d : Document) : Prop :=
  ∃ p selections, s.start? d = some (p, selections) ∧
    (s.scope d).Repeats (recursionLimit + 1) p selections 0

theorem compileDocument_inlines {s : Subgraph} {d d' : Document}
    (inlines : d.Alters (Inlines (fragmentsOf d)) d') (once : ¬ s.Repeats d) :
    s.compileDocument d' = s.compileDocument d := by
  rcases s.compileDocument_of_operations inlines.operation? with
    ⟨-, -, same⟩ | ⟨p, selections, selections', start, start', related⟩
  · exact same.symm
  · have runs := Scope.selectionShape_inlines (s.scope d) (s.scope d') rfl (recursionLimit + 1)
      related fun repeats => once ⟨p, selections, start, repeats⟩
    rw [compileDocument_of_start? start, compileDocument_of_start? start', runs.eq]

end Subgraph

end FederatedMock
