import FederatedMock.Proofs.Operation.Rules

namespace FederatedMock

open Graphql

namespace Level

variable {fragments : Members Fragment} {applies : String → Bool}

/-- A selection stands among others, or in a fragment among them that applies. -/
inductive Holds (fragments : Members Fragment) (applies : String → Bool)
    (selections : List Selection) : Selection → Prop
  | here {s : Selection} (mem : s ∈ selections) : Holds fragments applies selections s
  | within {f s : Selection} {condition : Option String} {inner : List Selection}
      (outer : Holds fragments applies selections f)
      (found : f.fragment? fragments = some (condition, inner))
      (applied : ∀ name ∈ condition, applies name = true) (mem : s ∈ inner) :
      Holds fragments applies selections s

theorem Holds.mem_of_asides {selections : List Selection} {s : Selection}
    (holds : Holds fragments applies selections s)
    (asides : ∀ f ∈ selections, ∀ condition inner,
      f.fragment? fragments = some (condition, inner) →
        ∃ name ∈ condition, applies name = false) : s ∈ selections := by
  induction holds with
  | here mem => exact mem
  | within outer found applied mem ih =>
      obtain ⟨name, listed, other⟩ := asides _ ih _ _ found
      simp [applied name listed] at other

def HoldsField (fragments : Members Fragment) (applies : String → Bool)
    (selections : List Selection) (f : FieldSelection) : Prop :=
  ∃ arguments directives, Holds fragments applies selections
    (.field f.responseName f.name arguments directives f.selections)

def HoldsFragment (fragments : Members Fragment) (applies : String → Bool)
    (selections : List Selection) (f : ConditionalFragment) : Prop :=
  ∃ s, Holds fragments applies selections s ∧
    s.fragment? fragments = some (some f.condition, f.selections) ∧ applies f.condition = false

inductive Has (fragments : Members Fragment) (applies : String → Bool) (l : Level) :
    Selection → Prop
  | field {responseName : Option String} {name : String} {arguments : List Argument}
      {directives : List Directive} {selections : List Selection}
      (mem : ⟨responseName, name, selections⟩ ∈ l.fields) :
      Has fragments applies l (.field responseName name arguments directives selections)
  | applied {f : Selection} {condition : Option String} {inner : List Selection}
      (found : f.fragment? fragments = some (condition, inner))
      (applied : ∀ name ∈ condition, applies name = true)
      (each : ∀ s ∈ inner, Has fragments applies l s) : Has fragments applies l f
  | aside {f : Selection} {condition : String} {inner : List Selection}
      (found : f.fragment? fragments = some (some condition, inner))
      (other : applies condition = false) (mem : ⟨condition, inner⟩ ∈ l.fragments) :
      Has fragments applies l f

theorem Has.of_subset {l l' : Level} {s : Selection} (has : Has fragments applies l s)
    (fields : l.fields ⊆ l'.fields) (asides : l.fragments ⊆ l'.fragments) :
    Has fragments applies l' s := by
  induction has with
  | field mem => exact .field (fields mem)
  | applied found applied each ih => exact .applied found applied ih
  | aside found other mem => exact .aside found other (asides mem)

theorem Has.of_spread {l : Level} {name : String} {ds ds' : List Directive}
    (has : Has fragments applies l (.spread name ds)) :
    Has fragments applies l (.spread name ds') := by
  cases has with
  | applied found applied each => exact .applied found applied each
  | aside found other mem => exact .aside found other mem

theorem not_hasExpanded_empty (s : Selection) : ¬ empty.HasExpanded s := by
  cases s with
  | spread name ds => exact List.not_mem_nil
  | _ => exact id

theorem hasExpanded_mark {l : Level} {s s' : Selection} (h : (l.mark s).HasExpanded s') :
    l.HasExpanded s' ∨ ∃ name ds ds', s = .spread name ds ∧ s' = .spread name ds' := by
  cases s' with
  | spread name ds' =>
      cases s with
      | spread other ds =>
          rcases List.mem_cons.mp h with rfl | h
          · exact .inr ⟨name, ds, ds', rfl, rfl⟩
          · exact .inl h
      | _ => exact .inl h
  | _ => exact h.elim

theorem Expands.subset {l l' : Level} {selections : List Selection} {visits depth : Nat}
    (derived : Expands fragments applies selections l l' visits depth) :
    l.fields ⊆ l'.fields ∧ l.fragments ⊆ l'.fragments := by
  induction derived with
  | nil => exact ⟨List.Subset.refl _, List.Subset.refl _⟩
  | field others ih => exact ⟨List.Subset.trans (List.subset_cons_self _ _) ih.1, ih.2⟩
  | again found expanded others ih => exact ih
  | into found fresh applied inside others ihInside ihOthers =>
      rw [mark_fields, mark_fragments] at ihOthers
      exact ⟨List.Subset.trans ihInside.1 ihOthers.1, List.Subset.trans ihInside.2 ihOthers.2⟩
  | aside found fresh other others ih =>
      rw [mark_fields, mark_fragments] at ih
      exact ⟨ih.1, List.Subset.trans (List.subset_cons_self _ _) ih.2⟩

def Keeps (fragments : Members Fragment) (applies : String → Bool) (l : Level) : Prop :=
  ∀ s, l.HasExpanded s → Has fragments applies l s

theorem keeps_empty : Keeps fragments applies empty := by
  intro s expanded
  exact (not_hasExpanded_empty s expanded).elim

theorem Keeps.addField {l : Level} (keeps : Keeps fragments applies l) (f : FieldSelection) :
    Keeps fragments applies (l.addField f) := by
  intro s expanded
  have before : l.HasExpanded s := by cases s <;> exact expanded
  exact (keeps s before).of_subset (List.subset_cons_self _ _) (List.Subset.refl _)

theorem Keeps.addFragment {l : Level} (keeps : Keeps fragments applies l) (condition : String)
    (inner : List Selection) : Keeps fragments applies (l.addFragment condition inner) := by
  intro s expanded
  have before : l.HasExpanded s := by cases s <;> exact expanded
  exact (keeps s before).of_subset (List.Subset.refl _) (List.subset_cons_self _ _)

theorem Has.mark {l : Level} {s s' : Selection} (has : Has fragments applies l s) :
    Has fragments applies (l.mark s') s :=
  has.of_subset (by rw [mark_fields]; exact List.Subset.refl _)
    (by rw [mark_fragments]; exact List.Subset.refl _)

theorem Keeps.mark {l : Level} {s : Selection} (keeps : Keeps fragments applies l)
    (has : Has fragments applies l s) : Keeps fragments applies (l.mark s) := by
  intro s' expanded
  rcases hasExpanded_mark expanded with before | ⟨name, ds, ds', rfl, rfl⟩
  · exact (keeps s' before).mark
  · exact has.of_spread.mark

theorem Expands.has {l l' : Level} {selections : List Selection} {visits depth : Nat}
    (derived : Expands fragments applies selections l l' visits depth)
    (keeps : Keeps fragments applies l) :
    (∀ s ∈ selections, Has fragments applies l' s) ∧ Keeps fragments applies l' := by
  induction derived with
  | nil => exact ⟨fun s mem => (List.not_mem_nil mem).elim, keeps⟩
  | field others ih =>
      obtain ⟨rest, kept⟩ := ih (keeps.addField _)
      have first := others.subset.1 List.mem_cons_self
      exact ⟨List.forall_mem_cons.mpr ⟨.field first, rest⟩, kept⟩
  | again found expanded others ih =>
      obtain ⟨rest, kept⟩ := ih keeps
      have first := (keeps _ expanded).of_subset others.subset.1 others.subset.2
      exact ⟨List.forall_mem_cons.mpr ⟨first, rest⟩, kept⟩
  | into found fresh applied inside others ihInside ihOthers =>
      obtain ⟨inner, keptInside⟩ := ihInside keeps
      have has := Has.applied found applied inner
      obtain ⟨rest, kept⟩ := ihOthers (keptInside.mark has)
      have first := has.mark.of_subset others.subset.1 others.subset.2
      exact ⟨List.forall_mem_cons.mpr ⟨first, rest⟩, kept⟩
  | @aside s condition selections rest l l' visits depth found fresh other others ih =>
      have has : Has fragments applies (l.addFragment condition selections) s :=
        .aside found other List.mem_cons_self
      obtain ⟨rest, kept⟩ := ih ((keeps.addFragment _ _).mark has)
      have first := has.mark.of_subset others.subset.1 others.subset.2
      exact ⟨List.forall_mem_cons.mpr ⟨first, rest⟩, kept⟩

structure From (fragments : Members Fragment) (applies : String → Bool)
    (selections : List Selection) (l : Level) : Prop where
  fields : ∀ f ∈ l.fields, HoldsField fragments applies selections f
  fragments : ∀ f ∈ l.fragments, HoldsFragment fragments applies selections f

theorem from_empty (whole : List Selection) : From fragments applies whole empty :=
  ⟨fun _ mem => (List.not_mem_nil mem).elim, fun _ mem => (List.not_mem_nil mem).elim⟩

theorem From.mark {l : Level} {whole : List Selection} {s : Selection}
    (origin : From fragments applies whole l) : From fragments applies whole (l.mark s) :=
  ⟨by rw [mark_fields]; exact origin.fields, by rw [mark_fragments]; exact origin.fragments⟩

theorem Expands.origin {l l' : Level} {selections whole : List Selection} {visits depth : Nat}
    (derived : Expands fragments applies selections l l' visits depth)
    (held : ∀ s ∈ selections, Holds fragments applies whole s)
    (origin : From fragments applies whole l) : From fragments applies whole l' := by
  induction derived with
  | nil => exact origin
  | field others ih =>
      obtain ⟨first, rest⟩ := List.forall_mem_cons.mp held
      exact ih rest ⟨List.forall_mem_cons.mpr ⟨⟨_, _, first⟩, origin.fields⟩, origin.fragments⟩
  | again found expanded others ih => exact ih (List.forall_mem_cons.mp held).2 origin
  | into found fresh applied inside others ihInside ihOthers =>
      obtain ⟨first, rest⟩ := List.forall_mem_cons.mp held
      have inner := ihInside (fun s mem => .within first found applied mem) origin
      exact ihOthers rest inner.mark
  | aside found fresh other others ih =>
      obtain ⟨first, rest⟩ := List.forall_mem_cons.mp held
      refine ih rest (From.mark ⟨origin.fields, ?_⟩)
      exact List.forall_mem_cons.mpr ⟨⟨_, first, found, other⟩, origin.fragments⟩

theorem Holds.has {l : Level} {selections : List Selection} {s : Selection}
    (holds : Holds fragments applies selections s)
    (all : ∀ s ∈ selections, Has fragments applies l s) : Has fragments applies l s := by
  induction holds with
  | here mem => exact all _ mem
  | within outer found applied mem ih =>
      cases ih with
      | field => cases found
      | applied found' applied' each =>
          cases found.symm.trans found'
          exact each _ mem
      | aside found' other =>
          cases found.symm.trans found'
          simp [applied _ rfl] at other

end Level

namespace Scope

variable {c : Scope} {p : Parent} {selections : List Selection} {l : Level} {visits depth : Nat}

abbrev HasField (c : Scope) (p : Parent) (selections : List Selection) (f : FieldSelection) :
    Prop :=
  Level.HoldsField c.fragments (p.applies c.tables) selections f

abbrev HasFragment (c : Scope) (p : Parent) (selections : List Selection)
    (f : ConditionalFragment) : Prop :=
  Level.HoldsFragment c.fragments (p.applies c.tables) selections f

theorem Expands.has (level : c.Expands p selections l visits depth) :
    ∀ s ∈ selections, Level.Has c.fragments (p.applies c.tables) l s :=
  (Level.Expands.has level Level.keeps_empty).1

theorem Expands.mem_fields (level : c.Expands p selections l visits depth) {f : FieldSelection} :
    f ∈ l.fields.reverse ↔ c.HasField p selections f := by
  rw [List.mem_reverse]
  constructor
  · have origin := Level.Expands.origin level (fun s mem => .here mem) (Level.from_empty _)
    exact origin.fields f
  · rintro ⟨arguments, directives, holds⟩
    cases holds.has level.has with
    | field mem => exact mem
    | applied found => cases found
    | aside found => cases found

theorem Expands.mem_fragments (level : c.Expands p selections l visits depth)
    {f : ConditionalFragment} : f ∈ l.fragments.reverse ↔ c.HasFragment p selections f := by
  rw [List.mem_reverse]
  constructor
  · have origin := Level.Expands.origin level (fun s mem => .here mem) (Level.from_empty _)
    exact origin.fragments f
  · rintro ⟨s, holds, found, other⟩
    cases holds.has level.has with
    | field => cases found
    | applied found' applied =>
        cases found.symm.trans found'
        simp [applied _ rfl] at other
    | aside found' other mem =>
        cases found.symm.trans found'
        exact mem

end Scope

end FederatedMock
