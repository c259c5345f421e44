import FederatedMock.Proofs.Operation.Cycles
import FederatedMock.Proofs.Operation.Repetition

namespace FederatedMock

open Graphql

namespace Graphql

def Selection.spreads : Selection → List String
  | .spread name _ => [name]
  | _ => []

mutual

inductive Selection.Thins : Selection → Selection → Prop
  | field {responseName : Option String} {name : String} {arguments : List Argument}
      {directives : List Directive} {inner inner' : List Selection}
      (inside : Thins [] inner inner') :
      Selection.Thins (.field responseName name arguments directives inner)
        (.field responseName name arguments directives inner')
  | inline {condition : Option String} {directives : List Directive}
      {inner inner' : List Selection} (inside : Thins [] inner inner') :
      Selection.Thins (.inline condition directives inner) (.inline condition directives inner')
  | spread {name : String} {directives : List Directive} :
      Selection.Thins (.spread name directives) (.spread name directives)

/-- Spreads may be left out, here and within, of fragments that the same list spreads earlier. The
names are those of the spreads before these selections. -/
inductive Thins : List String → List Selection → List Selection → Prop
  | nil {earlier : List String} : Thins earlier [] []
  | keep {earlier : List String} {s s' : Selection} {rest rest' : List Selection}
      (kept : s.Thins s') (others : Thins (s.spreads ++ earlier) rest rest') :
      Thins earlier (s :: rest) (s' :: rest')
  | drop {earlier : List String} {name : String} {directives : List Directive}
      {rest rest' : List Selection} (spread : name ∈ earlier) (others : Thins earlier rest rest') :
      Thins earlier (.spread name directives :: rest) rest'

end

mutual

theorem Selection.thins_refl : ∀ s : Selection, s.Thins s
  | .field _ _ _ _ inner => .field (thins_refl [] inner)
  | .inline _ _ inner => .inline (thins_refl [] inner)
  | .spread _ _ => .spread

theorem thins_refl (earlier : List String) : ∀ selections, Thins earlier selections selections
  | [] => .nil
  | s :: rest => .keep s.thins_refl (thins_refl (s.spreads ++ earlier) rest)

end

theorem Thins.prepend {earlier : List String} {rest rest' : List Selection}
    (before : List Selection) (thins : ∀ more, earlier ⊆ more → Thins more rest rest') :
    Thins earlier (before ++ rest) (before ++ rest') := by
  induction before generalizing earlier with
  | nil => exact thins earlier (List.Subset.refl _)
  | cons s before ih =>
      refine .keep s.thins_refl (ih fun more known => thins more ?_)
      exact List.Subset.trans (List.subset_append_right _ _) known

theorem thins_delete {name : String} {directives directives' : List Directive}
    (before middle after : List Selection) :
    Thins [] (before ++ .spread name directives :: (middle ++ .spread name directives' :: after))
      (before ++ .spread name directives :: (middle ++ after)) := by
  refine .prepend before fun earlier _ => .keep .spread (.prepend middle fun more known => ?_)
  exact .drop (known List.mem_cons_self) (thins_refl more after)

def ThinsFragments (fragments fragments' : Members Fragment) : Prop :=
  ∀ name, Option.Rel (Fragment.Alters (Thins [])) (fragments.get? name) (fragments'.get? name)

theorem Thins.ne_nil {selections selections' : List Selection}
    (thins : Thins [] selections selections') (some : selections ≠ []) : selections' ≠ [] := by
  cases thins with
  | nil => exact (some rfl).elim
  | keep kept others => exact List.cons_ne_nil _ _
  | drop spread => exact (List.not_mem_nil spread).elim

end Graphql

namespace Level

structure Thins (l l' : Level) : Prop extends Level.Alters (Graphql.Thins []) l l' where
  expanded : l.expanded = l'.expanded

variable {l l' : Level} {s s' : Selection}

theorem mem_expanded_mark {name : String} :
    name ∈ (l.mark s).expanded ↔ name ∈ s.spreads ∨ name ∈ l.expanded := by
  cases s <;> simp [mark, markExpanded, Selection.spreads]

theorem subset_mark {names : List String} (known : names ⊆ l.expanded) :
    s.spreads ++ names ⊆ (l.mark s).expanded := by
  intro name mem
  exact mem_expanded_mark.mpr ((List.mem_append.mp mem).imp_right fun later => known later)

theorem spreads_subset (expanded : l.HasExpanded s) : s.spreads ⊆ l.expanded := by
  cases s with
  | spread name directives => exact fun other mem => List.mem_singleton.mp mem ▸ expanded
  | _ => exact expanded.elim

theorem Thins.hasExpanded_iff (levels : l.Thins l') (thins : s.Thins s') :
    l'.HasExpanded s' ↔ l.HasExpanded s := by
  cases thins with
  | field => exact Iff.rfl
  | inline => exact Iff.rfl
  | spread => rw [HasExpanded, HasExpanded, levels.expanded]

theorem Thins.mark (levels : l.Thins l') (thins : s.Thins s') :
    (l.mark s).Thins (l'.mark s') := by
  refine ⟨levels.toAlters.mark s s', ?_⟩
  cases thins with
  | field => exact levels.expanded
  | inline => exact levels.expanded
  | spread => exact congrArg (_ :: ·) levels.expanded

theorem Expands.expanded_subset {fragments : Members Fragment} {applies : String → Bool}
    {selections : List Selection} {visits depth : Nat}
    (derived : Expands fragments applies selections l l' visits depth) :
    l.expanded ⊆ l'.expanded := by
  induction derived with
  | nil => exact List.Subset.refl _
  | field others ih => exact ih
  | again found expanded others ih => exact ih
  | into found fresh applied inside others ihInside ihOthers =>
      exact fun name mem => ihOthers (mem_expanded_mark.mpr (.inr (ihInside mem)))
  | aside found fresh other others ih =>
      exact fun name mem => ih (mem_expanded_mark.mpr (.inr mem))

section Fragments

variable {fragments fragments' : Members Fragment} {applies : String → Bool}

theorem fragment?_thins (related : ThinsFragments fragments fragments') (thins : s.Thins s')
    {condition : Option String} {inner : List Selection}
    (found : s.fragment? fragments = some (condition, inner)) :
    ∃ inner', s'.fragment? fragments' = some (condition, inner') ∧
      Graphql.Thins [] inner inner' := by
  cases thins with
  | field => cases found
  | inline inside =>
      cases found
      exact ⟨_, rfl, inside⟩
  | @spread name directives =>
      obtain ⟨f, named, same⟩ := Option.map_eq_some_iff.mp found
      cases same
      have altered := related name
      rw [named] at altered
      obtain ⟨f', known, altered⟩ := exists_of_rel_some altered
      refine ⟨f'.selections, ?_, altered.selections⟩
      rw [Selection.fragment?_spread directives known, altered.condition]

theorem Expands.thins (related : ThinsFragments fragments fragments')
    {selections : List Selection} {visits depth : Nat}
    (derived : Expands fragments applies selections l l' visits depth) :
    ∀ {earlier selections' m}, Graphql.Thins earlier selections selections' → l.Thins m →
      earlier ⊆ l.expanded →
        ∃ m' visits', Expands fragments' applies selections' m m' visits' depth ∧ l'.Thins m' ∧
          visits' ≤ visits := by
  induction derived with
  | @nil l =>
      intro earlier selections' m thins levels known
      cases thins
      exact ⟨m, 0, .nil, levels, Nat.le_refl 0⟩
  | @field responseName name arguments directives inner rest l l' visits depth others ih =>
      intro earlier selections' m thins levels known
      cases thins with
      | keep kept rest =>
          cases kept with
          | @field _ _ _ _ _ inner' inside =>
              have field : FieldSelection.Alters (Graphql.Thins []) ⟨responseName, name, inner⟩
                  ⟨responseName, name, inner'⟩ := ⟨rfl, rfl, inside⟩
              obtain ⟨m', visits', expands, after, fewer⟩ :=
                ih rest ⟨levels.addField field, levels.expanded⟩ known
              exact ⟨m', visits' + 1, .field expands, after, Nat.succ_le_succ fewer⟩
  | @again s f rest l l' visits depth found expanded others ih =>
      intro earlier selections' m thins levels known
      cases thins with
      | keep kept rest =>
          have again : s.spreads ++ earlier ⊆ l.expanded :=
            List.append_subset.mpr ⟨spreads_subset expanded, known⟩
          obtain ⟨inner', found, -⟩ := fragment?_thins related kept found
          obtain ⟨m', visits', expands, after, fewer⟩ := ih rest levels again
          have expanded := (levels.hasExpanded_iff kept).mpr expanded
          exact ⟨m', visits' + 1, .again found expanded expands, after, Nat.succ_le_succ fewer⟩
      | drop spread rest =>
          -- The level passes over the spread, which changes nothing but the count.
          obtain ⟨m', visits', expands, after, fewer⟩ := ih rest levels known
          exact ⟨m', visits', expands, after, Nat.le_succ_of_le fewer⟩
  | @into s condition selections rest l l₁ l' visits depth visits' depth' found fresh applied inside
      others ihInside ihOthers =>
      intro earlier selections' m thins levels known
      cases thins with
      | keep kept rest =>
          obtain ⟨inner', found, inner⟩ := fragment?_thins related kept found
          obtain ⟨m₁, visits₁, expandsInside, between, fewer⟩ :=
            ihInside inner levels (List.nil_subset _)
          have after := subset_mark (s := s) (List.Subset.trans known inside.expanded_subset)
          obtain ⟨m', visits₂, expands, after, fewer'⟩ := ihOthers rest (between.mark kept) after
          have fresh := (not_congr (levels.hasExpanded_iff kept)).mpr fresh
          exact ⟨m', visits₁ + visits₂ + 1, .into found fresh applied expandsInside expands, after,
            by omega⟩
      | drop spread rest =>
          -- What the list spreads earlier is expanded by now.
          exact (fresh (known spread)).elim
  | @aside s condition selections rest l l' visits depth found fresh other others ih =>
      intro earlier selections' m thins levels known
      cases thins with
      | keep kept rest =>
          obtain ⟨inner', found, inner⟩ := fragment?_thins related kept found
          have set : (l.addFragment condition selections).Thins (m.addFragment condition inner') :=
            ⟨levels.addFragment condition inner, levels.expanded⟩
          obtain ⟨m', visits', expands, after, fewer⟩ :=
            ih rest (set.mark kept) (subset_mark known)
          have fresh := (not_congr (levels.hasExpanded_iff kept)).mpr fresh
          exact ⟨m', visits' + 1, .aside found fresh other expands, after, Nat.succ_le_succ fewer⟩
      | drop spread rest => exact (fresh (known spread)).elim

end Fragments

end Level

namespace Scope

variable {c : Scope} {fragments' : Members Fragment}

theorem Expands.thins (related : ThinsFragments c.fragments fragments') {p : Parent}
    {selections selections' : List Selection} {l : Level} {visits depth : Nat}
    (level : c.Expands p selections l visits depth)
    (thins : Graphql.Thins [] selections selections') :
    ∃ l' visits', Expands { c with fragments := fragments' } p selections' l' visits' depth ∧
      l.Thins l' ∧ visits' ≤ visits :=
  Level.Expands.thins related level thins ⟨Level.alters_empty, rfl⟩ (List.nil_subset _)

mutual

theorem Derives.thins (related : ThinsFragments c.fragments fragments') {p : Parent}
    {selections : List Selection} {v : Shape} {visits depth : Nat} :
    c.Derives p selections v visits depth →
      ∀ selections', Graphql.Thins [] selections selections' →
        ∃ visits', Derives { c with fragments := fragments' } p selections' v visits' depth ∧
          visits' ≤ visits
  | .object level plain fields => fun selections' thins => by
      obtain ⟨l', visits₁, level', levels, fewer⟩ := level.thins related thins
      obtain ⟨visits₂, fields', fewer'⟩ :=
        fields.thins related _ (List.rel_reverse levels.fields)
      have plain' (abstract : p.IsAbstract) : l'.fragments = [] :=
        (eq_nil_iff_of_forall₂ levels.fragments).mp (plain abstract)
      exact ⟨_, .object level' plain' fields', Nat.add_le_add fewer fewer'⟩
  | .variants level abstract narrowed fields fragments => fun selections' thins => by
      obtain ⟨l', visits₁, level', levels, fewer⟩ := level.thins related thins
      obtain ⟨visits₂, fields', fewer'⟩ :=
        fields.thins related _ (List.rel_reverse levels.fields)
      obtain ⟨visits₃, fragments', fewer''⟩ :=
        fragments.thins related _ (List.rel_reverse levels.fragments)
      have narrowed' := (not_congr (eq_nil_iff_of_forall₂ levels.fragments)).mp narrowed
      exact ⟨_, .variants level' abstract narrowed' fields' fragments', by omega⟩

theorem DerivesFields.thins (related : ThinsFragments c.fragments fragments') {p : Parent}
    {fields : List FieldSelection} {entries : List (String × Shape)} {visits depth : Nat} :
    c.DerivesFields p fields entries visits depth →
      ∀ fields', List.Forall₂ (FieldSelection.Alters (Graphql.Thins [])) fields fields' →
        ∃ visits',
          DerivesFields { c with fragments := fragments' } p fields' entries visits' depth ∧
            visits' ≤ visits
  | .nil => fun fields' thins => by
      cases thins
      exact ⟨0, .nil, Nat.le_refl 0⟩
  | .typename name others => fun fields' thins => by
      cases thins with
      | cons first rest =>
          obtain ⟨visits', others', fewer⟩ := others.thins related _ rest
          rw [first.key]
          exact ⟨visits', .typename (first.name.symm.trans name) others', fewer⟩
  | .field name declared base others => fun fields' thins => by
      cases thins with
      | cons first rest =>
          obtain ⟨visits₁, base', fewer⟩ := base.thins related _ first
          obtain ⟨visits₂, others', fewer'⟩ := others.thins related _ rest
          rw [first.name] at name declared
          rw [first.key]
          exact ⟨_, .field name declared base' others', Nat.add_le_add fewer fewer'⟩

theorem DerivesNamed.thins (related : ThinsFragments c.fragments fragments') {name : String}
    {f : FieldSelection} {v : Shape} {visits depth : Nat} : c.DerivesNamed name f v visits depth →
      ∀ f', f.Alters (Graphql.Thins []) f' →
        ∃ visits', DerivesNamed { c with fragments := fragments' } name f' v visits' depth ∧
          visits' ≤ visits
  | .scalar found => fun f' _ => ⟨0, .scalar found, Nat.le_refl 0⟩
  | .enumeration custom found => fun f' _ => ⟨0, .enumeration custom found, Nat.le_refl 0⟩
  | .composite found selected inside => fun f' thins => by
      obtain ⟨visits', inside', fewer⟩ := inside.thins related _ thins.selections
      exact ⟨visits', .composite found (thins.selections.ne_nil selected) inside', fewer⟩

theorem DerivesFragments.thins (related : ThinsFragments c.fragments fragments')
    {fragments : List ConditionalFragment} {owns : List (String × Shape.Fields)}
    {visits depth : Nat} : c.DerivesFragments fragments owns visits depth →
      ∀ more, List.Forall₂ (ConditionalFragment.Alters (Graphql.Thins [])) fragments more →
        ∃ visits', DerivesFragments { c with fragments := fragments' } more owns visits' depth ∧
          visits' ≤ visits
  | .nil => fun more thins => by
      cases thins
      exact ⟨0, .nil, Nat.le_refl 0⟩
  | .cons found inside others => fun more thins => by
      cases thins with
      | cons first rest =>
          obtain ⟨visits₁, inside', fewer⟩ := inside.thins related _ first.selections
          obtain ⟨visits₂, others', fewer'⟩ := others.thins related _ rest
          rw [first.condition] at found ⊢
          exact ⟨_, .cons found inside' others', Nat.add_le_add fewer fewer'⟩

end

end Scope

namespace Subgraph

theorem compileDocument_thins {s : Subgraph} {d d' : Document} {v : Shape} {visits : Nat}
    (thins : d.Alters (Thins []) d') (compiled : s.compileDocument d = .ok (v, visits)) :
    ∃ visits' ≤ visits, s.compileDocument d' = .ok (v, visits') := by
  obtain ⟨depth, ⟨p, selections, start, derived⟩, limit, deep⟩ := compileDocument_eq_ok.mp compiled
  rcases s.compileDocument_of_operations thins.operation? with
    ⟨missing, -⟩ | ⟨q, found, selections', known, start', related⟩
  · cases start.symm.trans missing
  · cases start.symm.trans known
    have fragments : ThinsFragments (s.scope d).fragments (fragmentsOf d') := thins.fragments
    obtain ⟨visits', derived', fewer⟩ := derived.thins fragments selections' related
    exact ⟨visits', fewer, compileDocument_eq_ok.mpr
      ⟨depth, ⟨p, selections', start', derived'⟩, Nat.le_trans fewer limit, deep⟩⟩

/-- Named fragments abbreviate. Where spreads resolve and none repeats on its level, a document
compiles as it does with inline fragments in their place, limits included; and one that compiles
gives the same shape without spreads that repeat an earlier one of their list. -/
theorem compileDocument_spreads (s : Subgraph) (d : Document) :
    (d.Resolves → ¬ s.Repeats d → d.Alters (Inlines (fragmentsOf d)) d.inlineSpreads ∧
      s.compileDocument d.inlineSpreads = s.compileDocument d) ∧
    ∀ d' v visits, d.Alters (Thins []) d' → s.compileDocument d = .ok (v, visits) →
      ∃ visits' ≤ visits, s.compileDocument d' = .ok (v, visits') := by
  refine ⟨fun resolves once => ?_, fun d' v visits => compileDocument_thins⟩
  exact ⟨resolves.inlines, compileDocument_inlines resolves.inlines once⟩

def nameFragment : Definition :=
  .fragment ⟨"Name", "Query", [], [.field none "name" [] [] []]⟩

-- `query { ...Name inner { ...Name } }` with `fragment Name on Query { name }`.
def nameSpread : Document :=
  [.operation ⟨.query, none, [], [], [.spread "Name" [],
    .field none "inner" [] [] [.spread "Name" []]]⟩, nameFragment]

-- `query { ...Name inner { ...Name ...Name } ...Name }` with the same fragment.
def nameSpreadAgain : Document :=
  [.operation ⟨.query, none, [], [], [.spread "Name" [],
    .field none "inner" [] [] [.spread "Name" [], .spread "Name" []], .spread "Name" []]⟩,
    nameFragment]

def nameSpreadShape : Shape :=
  .object [("name", .scalar (.string .any)),
    ("inner", .nullable (.object [("name", .scalar (.string .any))]))]

theorem nameSpread_resolves : nameSpread.Resolves := by
  -- All spreads name the one fragment, and that has none.
  have only : ∀ s, nameSpread.Has s → s.spreads ⊆ ["Name"] := by
    refine Document.forall_has_iff.mpr ⟨fun o mem => ?_, fun f mem => ?_⟩
    · obtain rfl : o = _ := by simpa [nameSpread, nameFragment] using mem
      rw [allWithin_cons, allWithin_spread, allWithin_field, allWithin_spread]
      simp [Selection.spreads]
    · obtain rfl : f = _ := by simpa [nameSpread, nameFragment] using mem
      rw [allWithin_field]
      exact ⟨List.nil_subset _, allWithin_nil⟩
  have unmentioned (name other : String) : ¬ Mentions (fragmentsOf nameSpread) name other := by
    rintro ⟨f, directives, found, within⟩
    obtain rfl : f = _ := by
      simpa [nameSpread, nameFragment] using (mem_of_fragmentsOf found).1
    have none : AllWithin (fun s => s.spreads = []) [.field none "name" [] [] []] :=
      allWithin_field.mpr ⟨rfl, allWithin_nil⟩
    cases none _ within
  intro name directives has
  obtain rfl : name = "Name" := by simpa [Selection.spreads] using only _ has
  refine ⟨rfl, fun cycle => ?_⟩
  obtain ⟨other, mentions, -⟩ := Relation.TransGen.head'_iff.mp cycle
  exact unmentioned _ _ mentions

theorem nameSpread_level {applies : String → Bool} {levels k : Nat} {rest : List Selection}
    (fields : ∀ s ∈ rest, ∃ r n a d ss, s = .field r n a d ss) :
    ¬ Level.Repeats (fragmentsOf nameSpread) applies levels (.spread "Name" [] :: rest) .empty k := by
  intro repeats
  cases repeats with
  | here room expanded => exact Level.not_hasExpanded_empty _ expanded
  | inside room found fresh applied repeats =>
      cases found
      exact repeats.not_fields (by simp)
  | later added repeats => exact repeats.not_fields fields

theorem nameSpread_once : ¬ folders.Repeats nameSpread := by
  rintro ⟨p, selections, start, repeats⟩
  cases start
  cases repeats with
  | level repeats => exact nameSpread_level (by simp) repeats
  | @field _ _ _ _ _ _ _ _ before _ _ _ _ level split earlier plain declared composite repeats =>
      -- The level has two fields, and only the second has a selection set.
      cases level
      rcases before with _ | ⟨name, _ | ⟨inner, more⟩⟩
      · cases split
        cases declared
        cases composite
      · cases split
        cases declared
        cases composite
        cases earlier
        cases repeats with
        | level repeats => exact nameSpread_level (by simp) repeats
        | @field _ _ _ _ _ _ _ _ before _ _ _ _ level split earlier plain declared composite =>
            cases level
            rcases before with _ | ⟨name, more⟩
            · cases split
              cases declared
              cases composite
            · simpa using (List.cons.inj split).2
        | fragment level shared abstract => exact abstract
      · simpa using (List.cons.inj split).2
  | fragment level shared abstract => exact abstract

theorem nameSpread_thins : nameSpreadAgain.Alters (Thins []) nameSpread := by
  have inner : Thins [] [.spread "Name" [], .spread "Name" []] [.spread "Name" []] :=
    thins_delete [] [] []
  refine .cons (.operation ?_) (.cons (.fragment (thins_refl [] _)) .nil)
  exact .keep .spread (.keep (.field inner) (.drop List.mem_cons_self .nil))

theorem nameSpread_abbreviates :
    ofDocument folderSchema = .ok folders ∧
    (nameSpread.Resolves ∧ ¬ folders.Repeats nameSpread ∧
      nameSpread.Alters (Inlines (fragmentsOf nameSpread)) nameSpread.inlineSpreads ∧
      folders.compileDocument nameSpread.inlineSpreads = .ok (nameSpreadShape, 5)) ∧
    nameSpreadAgain.Alters (Thins []) nameSpread ∧
    folders.compileDocument nameSpreadAgain = .ok (nameSpreadShape, 7) ∧
    ∃ visits ≤ 7, folders.compileDocument nameSpread = .ok (nameSpreadShape, visits) := by
  have compiled : folders.compileDocument nameSpread = .ok (nameSpreadShape, 5) := rfl
  have compiledAgain : folders.compileDocument nameSpreadAgain = .ok (nameSpreadShape, 7) := rfl
  obtain ⟨inlines, same⟩ :=
    (compileDocument_spreads folders nameSpread).1 nameSpread_resolves nameSpread_once
  have thinned :=
    (compileDocument_spreads folders nameSpreadAgain).2 _ _ _ nameSpread_thins compiledAgain
  exact ⟨rfl, ⟨nameSpread_resolves, nameSpread_once, inlines, same.trans compiled⟩,
    nameSpread_thins, compiledAgain, thinned⟩

end Subgraph

end FederatedMock
