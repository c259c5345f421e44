import FederatedMock.Operation.Typename
import FederatedMock.Proofs.Operation.Alteration
import FederatedMock.Proofs.Operation.Cost
import FederatedMock.Proofs.Operation.Occurrences
import FederatedMock.Proofs.Operation.Reserved
import FederatedMock.Proofs.Ordered.Padding

namespace FederatedMock

open Graphql

namespace Graphql

def Fragment.addTypename (f : Fragment) : Fragment :=
  { f with selections := extend f.selections (Selection.addTypenames f.selections) }

def AddsTypename (selections more : List Selection) : Prop :=
  ∃ extra, (extra = [] ∨ extra = [typenameSelection]) ∧
    more = Selection.addTypenames selections ++ extra

theorem addsTypename_addTypenames (selections : List Selection) :
    AddsTypename selections (Selection.addTypenames selections) :=
  ⟨[], .inl rfl, (List.append_nil _).symm⟩

theorem addsTypename_extend (selections : List Selection) :
    AddsTypename selections (extend selections (Selection.addTypenames selections)) := by
  unfold extend
  split
  · exact addsTypename_addTypenames selections
  · exact ⟨_, .inr rfl, rfl⟩

theorem AddsTypename.of_nil {more : List Selection} (adds : AddsTypename [] more) :
    more = [] ∨ more = [typenameSelection] := by
  obtain ⟨extra, rfl | rfl, rfl⟩ := adds
  · exact .inl rfl
  · exact .inr rfl

theorem AddsTypename.of_cons {s : Selection} {rest more : List Selection}
    (adds : AddsTypename (s :: rest) more) :
    ∃ later, more = s.addTypename :: later ∧ AddsTypename rest later := by
  obtain ⟨extra, known, rfl⟩ := adds
  exact ⟨_, rfl, extra, known, rfl⟩

theorem AddsTypename.ne_nil {selections more : List Selection} (adds : AddsTypename selections more)
    (some : selections ≠ []) : more ≠ [] := by
  cases selections with
  | nil => exact (some rfl).elim
  | cons s rest =>
      obtain ⟨later, rfl, -⟩ := adds.of_cons
      exact List.cons_ne_nil _ _

theorem Selection.addTypename_field (alias? : Option String) (name : String)
    (arguments : List Argument) (directives : List Directive) (selections : List Selection) :
    ∃ more, (Selection.field alias? name arguments directives selections).addTypename =
      .field alias? name arguments directives more ∧
        (more = selections ∨ AddsTypename selections more) ∧
        (name ≠ typenameKey → AddsTypename selections more) := by
  rw [addTypename]
  split
  · rename_i bare
    refine ⟨selections, rfl, .inl rfl, fun other => ?_⟩
    have none : selections = [] := by simpa [other] using bare
    rw [none]
    exact addsTypename_addTypenames []
  · split
    · exact ⟨_, rfl, .inr (addsTypename_addTypenames _), fun _ => addsTypename_addTypenames _⟩
    · exact ⟨_, rfl, .inr (addsTypename_extend _), fun _ => addsTypename_extend _⟩

end Graphql

def typenameField : FieldSelection :=
  ⟨none, typenameKey, []⟩

structure FieldSelection.AddsTypename (f more : FieldSelection) : Prop where
  responseName : more.responseName = f.responseName
  name : more.name = f.name
  selections : f.name ≠ typenameKey → Graphql.AddsTypename f.selections more.selections

theorem FieldSelection.AddsTypename.key {f more : FieldSelection} (adds : f.AddsTypename more) :
    more.key = f.key := by
  rw [FieldSelection.key, FieldSelection.key, adds.responseName, adds.name]

structure ConditionalFragment.AddsTypename (f more : ConditionalFragment) : Prop where
  condition : more.condition = f.condition
  selections : Graphql.AddsTypename f.selections more.selections

namespace Graphql

theorem mem_addTypenames {selections : List Selection} {s : Selection}
    (mem : s ∈ Selection.addTypenames selections) : ∃ t ∈ selections, s = t.addTypename := by
  induction selections with
  | nil => exact (List.not_mem_nil mem).elim
  | cons t rest ih =>
      rcases List.mem_cons.mp mem with rfl | later
      · exact ⟨t, List.mem_cons_self, rfl⟩
      · obtain ⟨t', listed, same⟩ := ih later
        exact ⟨t', List.mem_cons_of_mem _ listed, same⟩

theorem AddsTypename.mem {selections more : List Selection} {s : Selection}
    (adds : AddsTypename selections more) (mem : s ∈ more) :
    s = typenameSelection ∨ ∃ t ∈ selections, s = t.addTypename := by
  obtain ⟨extra, known, rfl⟩ := adds
  rcases List.mem_append.mp mem with earlier | last
  · exact .inr (mem_addTypenames earlier)
  · rcases known with rfl | rfl
    · exact (List.not_mem_nil last).elim
    · exact .inl (List.mem_singleton.mp last)

def MayAddTypename (selections more : List Selection) : Prop :=
  more = selections ∨ AddsTypename selections more

theorem MayAddTypename.field {alias? : Option String} {name : String} {arguments : List Argument}
    {directives : List Directive} {selections more inner : List Selection}
    (adds : MayAddTypename selections more)
    (mem : .field alias? name arguments directives inner ∈ more) :
    inner = [] ∨ ∃ inner₀, .field alias? name arguments directives inner₀ ∈ selections ∧
      MayAddTypename inner₀ inner := by
  rcases adds with rfl | adds
  · exact .inr ⟨inner, mem, .inl rfl⟩
  · rcases adds.mem mem with same | ⟨t, listed, same⟩
    · cases same
      exact .inl rfl
    · cases t with
      | field alias' name' arguments' directives' inner₀ =>
          obtain ⟨inner', changed, adds, -⟩ :=
            Selection.addTypename_field alias' name' arguments' directives' inner₀
          cases same.trans changed
          exact .inr ⟨inner₀, listed, adds⟩
      | inline => cases same
      | spread => cases same

theorem MayAddTypename.inline {condition : Option String} {directives : List Directive}
    {selections more inner : List Selection} (adds : MayAddTypename selections more)
    (mem : .inline condition directives inner ∈ more) :
    ∃ inner₀, .inline condition directives inner₀ ∈ selections ∧ MayAddTypename inner₀ inner := by
  rcases adds with rfl | adds
  · exact ⟨inner, mem, .inl rfl⟩
  · rcases adds.mem mem with same | ⟨t, listed, same⟩
    · cases same
    · cases t with
      | field alias' name' arguments' directives' inner₀ =>
          obtain ⟨inner', changed, -⟩ :=
            Selection.addTypename_field alias' name' arguments' directives' inner₀
          cases same.trans changed
      | inline condition' directives' inner₀ =>
          cases same
          exact ⟨inner₀, listed, .inr (addsTypename_extend inner₀)⟩
      | spread => cases same

theorem Selection.ReservesTypename.addTypename {s : Selection} (reserved : s.ReservesTypename) :
    s.addTypename.ReservesTypename := by
  cases s with
  | field alias? name arguments directives inner =>
      obtain ⟨inner', changed, -⟩ :=
        Selection.addTypename_field alias? name arguments directives inner
      rw [changed]
      exact reserved
  | inline => trivial
  | spread => trivial

end Graphql

theorem AllWithin.mayAddTypename {selections more : List Selection}
    (all : AllWithin Selection.ReservesTypename selections) (adds : MayAddTypename selections more) :
    AllWithin Selection.ReservesTypename more := by
  intro t within
  induction within generalizing selections with
  | here mem =>
      rcases adds with rfl | adds
      · exact all t (.here mem)
      · rcases adds.mem mem with rfl | ⟨s, listed, rfl⟩
        · exact fun _ => rfl
        · exact (all s (.here listed)).addTypename
  | field mem within ih =>
      rcases adds.field mem with rfl | ⟨inner₀, listed, adds⟩
      · exact ih allWithin_nil (.inl rfl)
      · exact ih (allWithin_field.mp (all.singleton listed)).2 adds
  | inline mem within ih =>
      obtain ⟨inner₀, listed, adds⟩ := adds.inline mem
      exact ih (allWithin_inline.mp (all.singleton listed)).2 adds

namespace Level

abbrev PadsFields : List FieldSelection → List FieldSelection → Prop :=
  Pads (· = typenameField) FieldSelection.AddsTypename

structure AddsTypename (l more : Level) : Prop where
  fields : PadsFields l.fields more.fields
  fragments : List.Forall₂ ConditionalFragment.AddsTypename l.fragments more.fragments
  expanded : more.expanded = l.expanded

variable {l more : Level} {s : Selection}

theorem AddsTypename.hasExpanded_iff (adds : l.AddsTypename more) :
    more.HasExpanded s.addTypename ↔ l.HasExpanded s := by
  cases s with
  | field alias? name arguments directives selections =>
      obtain ⟨inner, same, -⟩ :=
        Selection.addTypename_field alias? name arguments directives selections
      rw [same]
      exact Iff.rfl
  | inline condition directives selections => exact Iff.rfl
  | spread name directives =>
      change name ∈ more.expanded ↔ name ∈ l.expanded
      rw [adds.expanded]

theorem AddsTypename.mark (adds : l.AddsTypename more) :
    (l.mark s).AddsTypename (more.mark s.addTypename) := by
  cases s with
  | field alias? name arguments directives selections =>
      obtain ⟨inner, same, -⟩ :=
        Selection.addTypename_field alias? name arguments directives selections
      rw [same]
      exact adds
  | inline condition directives selections => exact adds
  | spread name directives =>
      exact ⟨adds.fields, adds.fragments, congrArg (name :: ·) adds.expanded⟩

theorem fragment?_addTypename {fragments : Members Fragment} {condition : Option String}
    {inner : List Selection} (found : s.fragment? fragments = some (condition, inner)) :
    ∃ inner', s.addTypename.fragment? (fragments.mapValues Fragment.addTypename) =
      some (condition, inner') ∧ Graphql.AddsTypename inner inner' := by
  cases s with
  | field => cases found
  | inline condition' directives selections =>
      cases found
      exact ⟨_, rfl, addsTypename_extend inner⟩
  | spread name directives =>
      obtain ⟨f, named, same⟩ := Option.map_eq_some_iff.mp found
      cases same
      refine ⟨_, ?_, addsTypename_extend f.selections⟩
      change ((fragments.mapValues Fragment.addTypename).get? name).map _ = _
      rw [Members.get?_mapValues, named]
      rfl

theorem Expands.addTypename {fragments : Members Fragment} {applies : String → Bool} {l' : Level}
    {selections : List Selection} {visits depth : Nat}
    (derived : Expands fragments applies selections l l' visits depth) :
    ∀ {selections' m}, Graphql.AddsTypename selections selections' → l.AddsTypename m →
      ∃ m' visits', Expands (fragments.mapValues Fragment.addTypename) applies selections' m m'
        visits' depth ∧ l'.AddsTypename m' := by
  induction derived with
  | nil =>
      intro selections' m adds levels
      -- What is added at the end is one field more, and no fragment to enter.
      rcases adds.of_nil with rfl | rfl
      · exact ⟨m, 0, .nil, levels⟩
      · exact ⟨_, 1, .field .nil, .pad rfl levels.fields, levels.fragments, levels.expanded⟩
  | @field alias? name arguments directives inner rest l l' visits depth others ih =>
      intro selections' m adds levels
      obtain ⟨later, rfl, rest⟩ := adds.of_cons
      obtain ⟨inner', same, -, extended⟩ :=
        Selection.addTypename_field alias? name arguments directives inner
      have field : FieldSelection.AddsTypename ⟨alias?, name, inner⟩ ⟨alias?, name, inner'⟩ :=
        ⟨rfl, rfl, extended⟩
      have added : (l.addField ⟨alias?, name, inner⟩).AddsTypename
          (m.addField ⟨alias?, name, inner'⟩) :=
        ⟨.keep field levels.fields, levels.fragments, levels.expanded⟩
      obtain ⟨m', visits', expands, after⟩ := ih rest added
      rw [same]
      exact ⟨m', visits' + 1, .field expands, after⟩
  | again found expanded others ih =>
      intro selections' m adds levels
      obtain ⟨later, rfl, rest⟩ := adds.of_cons
      obtain ⟨inner', found, -⟩ := fragment?_addTypename found
      obtain ⟨m', visits', expands, after⟩ := ih rest levels
      exact ⟨m', visits' + 1, .again found (levels.hasExpanded_iff.mpr expanded) expands, after⟩
  | into found fresh applied inside others ihInside ihOthers =>
      intro selections' m adds levels
      obtain ⟨later, rfl, rest⟩ := adds.of_cons
      obtain ⟨inner', found, inner⟩ := fragment?_addTypename found
      obtain ⟨m₁, visits₁, expandsInside, between⟩ := ihInside inner levels
      obtain ⟨m', visits', expands, after⟩ := ihOthers rest between.mark
      have fresh' := (not_congr levels.hasExpanded_iff).mpr fresh
      exact ⟨m', visits₁ + visits' + 1, .into found fresh' applied expandsInside expands, after⟩
  | @aside s condition inner rest l l' visits depth found fresh other others ih =>
      intro selections' m adds levels
      obtain ⟨later, rfl, rest⟩ := adds.of_cons
      obtain ⟨inner', found, extended⟩ := fragment?_addTypename found
      have set : (l.addFragment condition inner).AddsTypename (m.addFragment condition inner') :=
        ⟨levels.fields, .cons ⟨rfl, extended⟩ levels.fragments, levels.expanded⟩
      obtain ⟨m', visits', expands, after⟩ := ih rest (set.mark (s := s))
      have fresh' := (not_congr levels.hasExpanded_iff).mpr fresh
      exact ⟨m', visits' + 1, .aside found fresh' other expands, after⟩

theorem addsTypename_empty : AddsTypename empty empty :=
  ⟨.nil, .nil, rfl⟩

end Level

namespace Scope

variable {c : Scope} {p : Parent} {selections more : List Selection}

def addTypename (c : Scope) : Scope :=
  ⟨c.tables, c.fragments.mapValues Fragment.addTypename⟩

@[simp] theorem addTypename_tables : c.addTypename.tables = c.tables := rfl

theorem Expands.addTypename {l : Level} {visits depth : Nat}
    (level : c.Expands p selections l visits depth) (adds : AddsTypename selections more) :
    ∃ l' visits', c.addTypename.Expands p more l' visits' depth ∧ l.AddsTypename l' :=
  Level.Expands.addTypename level adds Level.addsTypename_empty

theorem Expands.conditions {l l' : Level} {visits depth visits' depth' : Nat}
    (level : c.Expands p selections l visits depth) (adds : AddsTypename selections more)
    (level' : c.addTypename.Expands p more l' visits' depth') :
    l'.fragments.map (·.condition) = l.fragments.map (·.condition) := by
  obtain ⟨l₁, visits₁, level₁, levels⟩ := level.addTypename adds
  obtain ⟨rfl, -, -⟩ := level'.unique level₁
  rw [← List.forall₂_eq_eq_eq, List.forall₂_map_left_iff, List.forall₂_map_right_iff]
  exact levels.fragments.flip.imp fun _ _ same => same.condition

theorem Reserves.addTypename (reserved : c.Reserves selections)
    (adds : AddsTypename selections more) : c.addTypename.Reserves more where
  here := reserved.here.mayAddTypename (.inr adds)
  named := by
    intro name f' found
    have found : (c.fragments.mapValues Fragment.addTypename).get? name = some f' := found
    rw [Members.get?_mapValues] at found
    obtain ⟨f, known, rfl⟩ := Option.map_eq_some_iff.mp found
    exact (reserved.named name f known).mayAddTypename (.inr (addsTypename_extend f.selections))

theorem derivesFields_append {before rest : List FieldSelection} {entries : List (String × Shape)}
    {visits depth : Nat} (extra : ∀ f ∈ before, f = typenameField)
    (others : c.DerivesFields p rest entries visits depth) :
    ∃ entries', c.DerivesFields p (before ++ rest) entries' visits depth := by
  induction before with
  | nil => exact ⟨entries, others⟩
  | cons f before ih =>
      obtain ⟨rfl, later⟩ := List.forall_mem_cons.mp extra
      obtain ⟨entries', derived⟩ := ih later
      exact ⟨_, .typename rfl derived⟩

mutual

theorem Derives.addTypename {p : Parent} {selections : List Selection} {v : Shape}
    {visits depth : Nat} : c.Derives p selections v visits depth →
      ∀ more, AddsTypename selections more →
        ∃ v' visits', c.addTypename.Derives p more v' visits' depth
  | .object level plain fields => fun more adds => by
      obtain ⟨l', visits₁, level', levels⟩ := level.addTypename adds
      obtain ⟨entries', visits₂, fields'⟩ := fields.addTypename _ levels.fields.reverse
      have plain' (abstract : p.IsAbstract) : l'.fragments = [] :=
        (eq_nil_iff_of_forall₂ levels.fragments).mp (plain abstract)
      exact ⟨_, _, .object level' plain' fields'⟩
  | .variants level abstract narrowed fields fragments => fun more adds => by
      obtain ⟨l', visits₁, level', levels⟩ := level.addTypename adds
      obtain ⟨entries', visits₂, fields'⟩ := fields.addTypename _ levels.fields.reverse
      have reversed := List.rel_reverse levels.fragments
      obtain ⟨owns', visits₃, fragments'⟩ := fragments.addTypename _ reversed
      have narrowed' := (not_congr (eq_nil_iff_of_forall₂ levels.fragments)).mp narrowed
      exact ⟨_, _, .variants level' abstract narrowed' fields' fragments'⟩

theorem DerivesFields.addTypename {p : Parent} {fields : List FieldSelection}
    {entries : List (String × Shape)} {visits depth : Nat} :
    c.DerivesFields p fields entries visits depth → ∀ more, Level.PadsFields fields more →
      ∃ entries' visits', c.addTypename.DerivesFields p more entries' visits' depth
  | .nil => fun more pads => by
      have first := derivesFields_append (c := c.addTypename) (p := p) pads.of_nil .nil
      rw [List.append_nil] at first
      obtain ⟨entries', derived⟩ := first
      exact ⟨entries', 0, derived⟩
  | .typename name others => fun more pads => by
      obtain ⟨before, f', rest, rfl, extra, adds, pads⟩ := pads.of_cons
      obtain ⟨entries', visits', derived⟩ := others.addTypename rest pads
      obtain ⟨entries', derived⟩ :=
        derivesFields_append extra (.typename (adds.name.trans name) derived)
      exact ⟨entries', visits', derived⟩
  | .field name declared base others => fun more pads => by
      obtain ⟨before, f', rest, rfl, extra, adds, pads⟩ := pads.of_cons
      obtain ⟨s', visits₁, base'⟩ := base.addTypename f' adds name
      obtain ⟨entries', visits₂, derived⟩ := others.addTypename rest pads
      rw [← adds.name] at name declared
      obtain ⟨entries', derived⟩ :=
        derivesFields_append extra (.field name declared base' derived)
      exact ⟨entries', _, derived⟩

theorem DerivesNamed.addTypename {name : String} {f : FieldSelection} {v : Shape}
    {visits depth : Nat} : c.DerivesNamed name f v visits depth →
      ∀ f', f.AddsTypename f' → f.name ≠ typenameKey →
        ∃ v' visits', c.addTypename.DerivesNamed name f' v' visits' depth
  | .scalar found => fun _ _ _ => ⟨_, 0, .scalar found⟩
  | .enumeration custom found => fun _ _ _ => ⟨_, 0, .enumeration custom found⟩
  | .composite found selected inside => fun f' adds other => by
      have extended := adds.selections other
      obtain ⟨v', visits', derived⟩ := inside.addTypename _ extended
      exact ⟨v', visits', .composite found (extended.ne_nil selected) derived⟩

theorem DerivesFragments.addTypename {fragments : List ConditionalFragment}
    {owns : List (String × Shape.Fields)} {visits depth : Nat} :
    c.DerivesFragments fragments owns visits depth →
      ∀ more, List.Forall₂ ConditionalFragment.AddsTypename fragments more →
        ∃ owns' visits', c.addTypename.DerivesFragments more owns' visits' depth
  | .nil => fun more adds => by
      cases adds
      exact ⟨[], 0, .nil⟩
  | .cons found inside others => fun more adds => by
      cases adds with
      | cons first rest =>
          obtain ⟨v', visits₁, inside'⟩ := inside.addTypename _ first.selections
          obtain ⟨fields', rfl⟩ := inside'.object_of_object
          obtain ⟨owns', visits₂, others'⟩ := others.addTypename _ rest
          rw [← first.condition] at found
          exact ⟨_, _, .cons found inside' others'⟩

end

end Scope

namespace Occurrence

inductive AddsTypename : Occurrence → Occurrence → Prop
  | field {p : Parent} {f more : FieldSelection} (adds : f.AddsTypename more) :
      AddsTypename (.field p f) (.field p more)
  | discriminator {condition : String} :
      AddsTypename (.discriminator condition) (.discriminator condition)

def IsTypename (o : Occurrence) : Prop :=
  ∃ p, o = .field p typenameField

abbrev PadsOccurrences : List Occurrence → List Occurrence → Prop :=
  Pads IsTypename AddsTypename

theorem AddsTypename.key_eq {o o' : Occurrence} (adds : AddsTypename o o') : o'.key = o.key := by
  cases adds with
  | field adds => exact adds.key
  | discriminator => rfl

theorem last?_pads {occs more : List Occurrence} {key : String} (pads : PadsOccurrences occs more)
    (other : key ≠ typenameKey) :
    Option.Rel AddsTypename (last? key occs) (last? key more) := by
  induction pads with
  | nil => exact .none
  | @keep o o' occs more same rest ih =>
      rw [last?_cons, last?_cons, same.key_eq]
      refine rel_or ih ?_
      split
      · exact .some same
      · exact .none
  | pad extra rest ih =>
      obtain ⟨p, rfl⟩ := extra
      have fresh : ¬ (Occurrence.field p typenameField).key = key := fun same => other same.symm
      rwa [last?_cons, if_neg fresh, Option.or_none]

theorem exists_key_of_pads {occs more : List Occurrence} (pads : PadsOccurrences occs more)
    {o : Occurrence} (mem : o ∈ occs) : ∃ o' ∈ more, o'.key = o.key := by
  induction pads with
  | nil => exact (List.not_mem_nil mem).elim
  | keep same rest ih =>
      rcases List.mem_cons.mp mem with rfl | later
      · exact ⟨_, List.mem_cons_self, same.key_eq⟩
      · obtain ⟨o', listed, key⟩ := ih later
        exact ⟨o', List.mem_cons_of_mem _ listed, key⟩
  | pad extra rest ih =>
      obtain ⟨o', listed, key⟩ := ih mem
      exact ⟨o', List.mem_cons_of_mem _ listed, key⟩

end Occurrence

open Occurrence

theorem Level.PadsFields.occurrences {fields more : List FieldSelection} (p : Parent)
    (pads : Level.PadsFields fields more) :
    PadsOccurrences (fields.map (.field p)) (more.map (.field p)) :=
  Pads.map pads (fun _ same => ⟨p, congrArg _ same⟩) fun _ _ adds => .field adds

theorem Level.PadsFields.shared {fields more : List FieldSelection} (p : Parent)
    (pads : Level.PadsFields fields more) :
    PadsOccurrences (p.sharedOccurrences fields) (p.sharedOccurrences more) := by
  cases p with
  | interface t => exact (pads.occurrences _).filter fun o o' adds => by rw [adds.key_eq]
  | _ => exact .nil

namespace Scope

variable {c : Scope} {p : Parent} {selections more : List Selection}

theorem Collects.pads {fields fields' : List FieldSelection}
    {fragments fragments' : List ConditionalFragment}
    (level : c.Collects p selections fields fragments) (adds : AddsTypename selections more)
    (level' : c.addTypename.Collects p more fields' fragments') :
    Level.PadsFields fields fields' ∧
      List.Forall₂ ConditionalFragment.AddsTypename fragments fragments' := by
  obtain ⟨l, visits, depth, expands, -, rfl, rfl⟩ := collects_iff.mp level
  obtain ⟨l', visits', depth', expands', -, rfl, rfl⟩ := collects_iff.mp level'
  obtain ⟨l₁, visits₁, expands₁, levels⟩ := expands.addTypename adds
  obtain ⟨rfl, -, -⟩ := expands'.unique expands₁
  exact ⟨levels.fields.reverse, List.rel_reverse levels.fragments⟩

theorem FragmentsOccur.pads {shared shared' : List Occurrence}
    {fragments fragments' : List ConditionalFragment} {occs occs' : List Occurrence}
    (occur : c.FragmentsOccur shared fragments occs)
    (occur' : c.addTypename.FragmentsOccur shared' fragments' occs')
    (adds : List.Forall₂ ConditionalFragment.AddsTypename fragments fragments')
    (pads : PadsOccurrences shared shared') : PadsOccurrences occs occs' := by
  induction adds generalizing occs occs' with
  | nil =>
      cases occur
      cases occur'
      exact .nil
  | cons first rest ih =>
      cases occur with
      | @cons _ _ t _ _ _ type level others =>
          cases occur' with
          | cons type' level' others' =>
              rw [first.condition] at type' ⊢
              cases type.symm.trans type'
              obtain ⟨own, -⟩ := level.pads first.selections level'
              have fields := pads.append (own.occurrences (.object t))
              exact Pads.keep .discriminator (fields.append (ih others others'))

theorem Occurs.pads {name : Option String} {occs occs' : List Occurrence}
    (occurs : c.Occurs p selections name occs) (adds : AddsTypename selections more)
    (occurs' : c.addTypename.Occurs p more name occs') : PadsOccurrences occs occs' := by
  cases occurs with
  | plain level whole =>
      cases occurs' with
      | plain level' whole' => exact (level.pads adds level').1.occurrences p
  | variant level abstract named own =>
      cases occurs' with
      | variant level' abstract' named' own' =>
          obtain ⟨fields, fragments⟩ := level.pads adds level'
          refine own.pads own' ?_ (fields.shared p)
          exact List.rel_filter (fun f f' adds => by simp only [adds.condition]) fragments

end Scope

namespace Subgraph

theorem scope_addTypename (s : Subgraph) (d : Document) :
    s.scope d.addTypename = (s.scope d).addTypename := by
  have fragments : fragmentsOf d.addTypename =
      (fragmentsOf d).mapValues Fragment.addTypename := by
    unfold fragmentsOf
    rw [Members.ofList, Members.ofList, Members.mapValues_insertAll, Document.addTypename,
      List.filterMap_map]
    congr 1
    rw [Members.mapValues, List.map_filterMap]
    congr 1
    funext definition
    cases definition <;> rfl
  rw [scope, fragments]
  rfl

theorem start?_addTypename {s : Subgraph} {d : Document} {p : Parent} {selections : List Selection}
    (start : s.start? d = some (p, selections)) :
    s.start? d.addTypename = some (p, Selection.addTypenames selections) := by
  have operation : d.addTypename.operation? = d.operation?.map fun o =>
      { o with selections := Selection.addTypenames o.selections } := by
    rw [Document.operation?, Document.operation?, Document.addTypename, List.findSome?_map,
      List.map_findSome?]
    congr 1
    funext definition
    cases definition <;> rfl
  obtain ⟨o, found, start⟩ := Option.bind_eq_some_iff.mp start
  obtain ⟨root, known, start⟩ := Option.bind_eq_some_iff.mp start
  obtain ⟨q, parent, start⟩ := Option.bind_eq_some_iff.mp start
  cases start
  simp [start?, operation, found, known, parent]

theorem Derives.addTypename {s : Subgraph} {d : Document} {v : Shape} {visits depth : Nat}
    (derived : s.Derives d v visits depth) :
    ∃ v' visits', s.Derives d.addTypename v' visits' depth := by
  obtain ⟨p, selections, start, derived⟩ := derived
  obtain ⟨v', visits', derived'⟩ :=
    derived.addTypename _ (addsTypename_addTypenames selections)
  rw [← scope_addTypename] at derived'
  exact ⟨v', visits', p, _, start?_addTypename start, derived'⟩

end Subgraph

end FederatedMock
