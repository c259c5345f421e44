import FederatedMock.Proofs.Shape.Reordering
import FederatedMock.Proofs.Shape.Scalar

/-!
# The nodes of a walk

A walk along a shape comes to nodes, each a shape and what it is applied to, a value or nothing
(`Visits`). A node either reports an issue and does not go on to its parts, or it reports none and
has the issues of its parts (`finds`, and `Finds.induction` for the whole walk). So every issue is
one that a node on the way reports (`exists_visit_of_mem_issues`), and no issue stands at the place
of another one or below it (`pairwise_apart_issues`).
-/

namespace FederatedMock

open Report

/-! ## Places in a value -/

def Json.step? : Json → Step → Option Json
  | .object members, .key k => Members.get? k members
  | .array items, .index n => items[n]?
  | _, _ => none

def Json.resolve? (x : Json) : Path → Option Json
  | [] => some x
  | step :: rest => (x.step? step).bind fun v => v.resolve? rest

theorem Json.resolve?_append (x : Json) (p q : Path) :
    x.resolve? (p ++ q) = (x.resolve? p).bind fun v => v.resolve? q := by
  induction p generalizing x with
  | nil => rfl
  | cons step rest ih =>
      cases here : x.step? step with
      | none => simp [resolve?, here]
      | some v => simp [resolve?, here, ih]

namespace Shape

/-! ## What a node reports -/

theorem discriminatorMessage_ne_required (names : List String) :
    discriminatorMessage names ≠ requiredMessage := by
  have begins : (toString "Invalid discriminator value. Expected ").toList.head? = some 'I' := by
    decide +kernel
  exact append_ne_required begins (by decide)

inductive Reports : Shape → Option Json → Issue → Prop
  | required {s : Shape} : Reports s none ⟨[], requiredMessage⟩
  | unusable {s : Shape} {v : Json} {message : String} (other : message ≠ requiredMessage) :
      Reports s (some v) ⟨[], message⟩
  | unchosen {choices : Variants} {members : Members Json}
      (unselected : selectVariant choices members = none) :
      Reports (.variants choices) (some (.object members))
        ⟨[.key typenameKey], discriminatorMessage choices.keys⟩

inductive Finds : Shape → Option Json → List Issue → Prop
  | nothing {s : Shape} {value : Option Json} : Finds s value []
  | own {s : Shape} {value : Option Json} {i : Issue} (reports : Reports s value i) :
      Finds s value [i]
  | nullable {inner : Shape} {v : Json} (notNull : v ≠ .null) :
      Finds (.nullable inner) (some v) (outcome (inner.apply (some v))).2
  | list {item : Shape} {items : List Json} :
      Finds (.list item) (some (.array items)) (outcome (applyItems item.apply 0 items)).2
  | object {fields : List (String × Shape)} {members : Members Json} :
      Finds (.object fields) (some (.object members)) (outcome (applyFields fields members)).2
  | variant {choices : Variants} {name : String} {fields : List (String × Shape)}
      {members : Members Json} (selected : selectVariant choices members = some name)
      (found : choices.get? name = some fields) :
      Finds (.variants choices) (some (.object members)) (outcome (applyFields fields members)).2

theorem finds_scalar (rule : ScalarRule) (value : Option Json) :
    Finds (.scalar rule) value (outcome ((scalar rule).apply value)).2 := by
  cases coerced : rule.coerce value with
  | ok y =>
      simp only [outcome, apply, coerced]
      exact .nothing
  | error message =>
      simp only [outcome, apply, coerced]
      cases value with
      | some v => exact .own (.unusable (ScalarRule.complaint_of_coercePresent coerced).ne_required)
      | none => cases rule <;> cases coerced <;> exact .own .required

theorem finds_enumeration (names : List String) (value : Option Json) :
    Finds (.enumeration names) value (outcome ((enumeration names).apply value)).2 := by
  cases value with
  | none => exact .own .required
  | some v =>
      cases v
      case string name =>
        by_cases listed : name ∈ names
        · simp only [outcome, apply, applyEnumeration, listed, if_true]
          exact .nothing
        · simp only [outcome, apply, applyEnumeration, listed, if_false]
          have begins : (toString "Invalid enum value. Expected ").toList.head? = some 'I' := by
            decide +kernel
          refine .own (.unusable ?_)
          simp only [String.append_assoc]
          exact append_ne_required begins (by decide)
      all_goals exact .own (.unusable (mismatch_ne_required (Text.choices names) _))

theorem finds_variants (choices : Variants) (members : Members Json) :
    Finds (.variants choices) (some (.object members))
      (outcome ((variants choices).apply (some (.object members)))).2 := by
  cases selected : selectVariant choices members with
  | none =>
      rw [apply_variants, selected]
      exact .own (.unchosen selected)
  | some name =>
      obtain ⟨fields, found⟩ := get?_of_selectVariant selected
      rw [outcome_variant selected, applyVariant_of_get? found]
      exact .variant selected found

theorem finds (s : Shape) (value : Option Json) : Finds s value (outcome (s.apply value)).2 := by
  cases s with
  | scalar rule => exact finds_scalar rule value
  | enumeration names => exact finds_enumeration names value
  | nullable inner =>
      cases value with
      | none => exact .nothing
      | some v =>
          by_cases null : v = .null
          · rw [null]
            exact .nothing
          · rw [apply_nullable null]
            exact .nullable null
  | list item =>
      cases value with
      | none => exact .own .required
      | some v =>
          cases v
          case array items =>
            rw [outcome_list]
            exact .list
          all_goals exact .own (.unusable (mismatch_ne_required _ _))
  | object fields =>
      cases value with
      | none => exact .own .required
      | some v =>
          cases v
          case object members =>
            rw [outcome_object]
            exact .object
          all_goals exact .own (.unusable (mismatch_ne_required _ _))
  | variants choices =>
      cases value with
      | none => exact .own .required
      | some v =>
          cases v
          case object members => exact finds_variants choices members
          all_goals exact .own (.unusable (mismatch_ne_required _ _))

theorem Finds.induction {P : Shape → Option Json → List Issue → Prop}
    (nothing : ∀ s value, P s value [])
    (own : ∀ s value i, Reports s value i → P s value [i])
    (nullable : ∀ inner v, v ≠ .null → P inner (some v) (outcome (inner.apply (some v))).2 →
      P (.nullable inner) (some v) (outcome (inner.apply (some v))).2)
    (list : ∀ item items, (∀ v ∈ items, P item (some v) (outcome (item.apply (some v))).2) →
      P (.list item) (some (.array items)) (outcome (applyItems item.apply 0 items)).2)
    (object : ∀ (fields : List (String × Shape)) (members : Members Json),
      (∀ f ∈ fields, P f.2 (members.get? f.1) (outcome (f.2.apply (members.get? f.1))).2) →
        P (.object fields) (some (.object members)) (outcome (applyFields fields members)).2)
    (variant : ∀ (choices : Variants) name (fields : List (String × Shape))
      (members : Members Json), selectVariant choices members = some name →
        choices.get? name = some fields →
        (∀ f ∈ fields, P f.2 (members.get? f.1) (outcome (f.2.apply (members.get? f.1))).2) →
          P (.variants choices) (some (.object members)) (outcome (applyFields fields members)).2)
    {s : Shape} {value : Option Json} {issues : List Issue} (found : Finds s value issues) :
    P s value issues := by
  induction s using Shape.induction generalizing value issues with
  | scalar rule =>
      cases found with
      | nothing => exact nothing _ _
      | own reports => exact own _ _ _ reports
  | enumeration names =>
      cases found with
      | nothing => exact nothing _ _
      | own reports => exact own _ _ _ reports
  | list item ih =>
      cases found with
      | nothing => exact nothing _ _
      | own reports => exact own _ _ _ reports
      | list => exact list _ _ fun v _ => ih (finds item _)
  | nullable inner ih =>
      cases found with
      | nothing => exact nothing _ _
      | own reports => exact own _ _ _ reports
      | nullable notNull => exact nullable _ _ notNull (ih (finds inner _))
  | object fields ih =>
      cases found with
      | nothing => exact nothing _ _
      | own reports => exact own _ _ _ reports
      | object => exact object _ _ fun f listed => ih f listed (finds f.2 _)
  | variants choices ih =>
      cases found with
      | nothing => exact nothing _ _
      | own reports => exact own _ _ _ reports
      | variant selected chosen =>
          have choice := Members.mem_of_get? chosen
          exact variant _ _ _ _ selected chosen fun f listed => ih _ choice f listed (finds f.2 _)

/-! ## Nodes that are visited -/

/-- Where a shape is applied to a value, or to its absence, the walk along the path applies another
shape to what is there. -/
inductive Visits : Shape → Option Json → Path → Shape → Option Json → Prop
  | here {s : Shape} {value : Option Json} : Visits s value [] s value
  | nullable {inner t : Shape} {v : Json} {path : Path} {z : Option Json} (notNull : v ≠ .null)
      (inside : Visits inner (some v) path t z) : Visits (.nullable inner) (some v) path t z
  | item {item t : Shape} {items : List Json} {n : Nat} {v : Json} {path : Path} {z : Option Json}
      (given : items[n]? = some v) (inside : Visits item (some v) path t z) :
      Visits (.list item) (some (.array items)) (.index n :: path) t z
  | field {fields : List (String × Shape)} {members : Members Json} {f : String × Shape}
      {t : Shape} {path : Path} {z : Option Json} (listed : f ∈ fields)
      (inside : Visits f.2 (members.get? f.1) path t z) :
      Visits (.object fields) (some (.object members)) (.key f.1 :: path) t z
  | choice {choices : Variants} {fields : List (String × Shape)} {members : Members Json}
      {name : String} {f : String × Shape} {t : Shape} {path : Path} {z : Option Json}
      (selected : selectVariant choices members = some name)
      (found : choices.get? name = some fields) (listed : f ∈ fields)
      (inside : Visits f.2 (members.get? f.1) path t z) :
      Visits (.variants choices) (some (.object members)) (.key f.1 :: path) t z

theorem Visits.resolve? {s t : Shape} {value z : Option Json} {path : Path}
    (visits : Visits s value path t z) : (value.bind fun x => x.resolve? path) = z := by
  induction visits with
  | @here s value => cases value <;> rfl
  | nullable notNull inside ih => exact ih
  | item given inside ih => simpa [Json.resolve?, Json.step?, given] using ih
  | field listed inside ih => simpa [Json.resolve?, Json.step?] using ih
  | choice selected found listed inside ih => simpa [Json.resolve?, Json.step?] using ih

theorem Visits.parent {s t : Shape} {value z : Option Json} {path : Path}
    (visits : Visits s value path t z) (below : path ≠ []) :
    ∃ v, (value.bind fun x => x.resolve? path.dropLast) = some v := by
  induction visits with
  | here => exact absurd rfl below
  | nullable notNull inside ih => exact ih below
  | @item _ _ _ _ _ path _ given inside ih =>
      cases path with
      | nil => exact ⟨_, rfl⟩
      | cons step rest => simpa [Json.resolve?, Json.step?, given] using ih (List.cons_ne_nil _ _)
  | @field _ _ _ _ path _ listed inside ih =>
      cases path with
      | nil => exact ⟨_, rfl⟩
      | cons step rest => simpa [Json.resolve?, Json.step?] using ih (List.cons_ne_nil _ _)
  | @choice _ _ _ _ _ _ path _ selected found listed inside ih =>
      cases path with
      | nil => exact ⟨_, rfl⟩
      | cons step rest => simpa [Json.resolve?, Json.step?] using ih (List.cons_ne_nil _ _)

/-! ## Issues of the nodes -/

theorem exists_visit_of_mem_issues (s : Shape) (value : Option Json) :
    ∀ i ∈ (outcome (s.apply value)).2,
      ∃ path t z j, Visits s value path t z ∧ Reports t z j ∧ i = j.under path := by
  refine Finds.induction (P := fun s value issues => ∀ i ∈ issues, ∃ path t z j,
    Visits s value path t z ∧ Reports t z j ∧ i = j.under path) ?nothing ?own ?nullable ?list
    ?object ?variant (finds s value)
  case nothing => exact fun s value i mem => (List.not_mem_nil mem).elim
  case own =>
    intro s value i reports j mem
    cases List.mem_singleton.mp mem
    exact ⟨[], s, value, i, .here, reports, rfl⟩
  case nullable =>
    intro inner v notNull ih i mem
    obtain ⟨path, t, z, j, visits, reports, rfl⟩ := ih i mem
    exact ⟨path, t, z, j, .nullable notNull visits, reports, rfl⟩
  case list =>
    intro item items ih i mem
    obtain ⟨n, v, given, k, there, rfl⟩ := mem_issues_items.mp mem
    obtain ⟨path, t, z, j, visits, reports, rfl⟩ := ih v (List.mem_of_getElem? given) k there
    rw [Nat.zero_add, ← Issue.under_append]
    exact ⟨_, t, z, j, .item given visits, reports, rfl⟩
  case object =>
    intro fields members ih i mem
    obtain ⟨f, listed, k, there, rfl⟩ := mem_issues_fields.mp mem
    obtain ⟨path, t, z, j, visits, reports, rfl⟩ := ih f listed k there
    rw [← Issue.under_append]
    exact ⟨_, t, z, j, .field listed visits, reports, rfl⟩
  case variant =>
    intro choices name fields members selected found ih i mem
    obtain ⟨f, listed, k, there, rfl⟩ := mem_issues_fields.mp mem
    obtain ⟨path, t, z, j, visits, reports, rfl⟩ := ih f listed k there
    rw [← Issue.under_append]
    exact ⟨_, t, z, j, .choice selected found listed visits, reports, rfl⟩

end Shape

/-! ## Places of issues -/

def Issue.Apart (i j : Issue) : Prop :=
  ¬ i.path <+: j.path ∧ ¬ j.path <+: i.path

theorem Issue.Apart.under {i j : Issue} (apart : i.Apart j) (path : Path) :
    (i.under path).Apart (j.under path) :=
  ⟨fun before => apart.1 ((List.prefix_append_right_inj path).mp before),
    fun before => apart.2 ((List.prefix_append_right_inj path).mp before)⟩

theorem Issue.apart_of_steps {step step' : Step} (other : step ≠ step') (i j : Issue) :
    (i.under [step]).Apart (j.under [step']) :=
  ⟨fun before => other (List.cons_prefix_cons.mp before).1,
    fun before => other (List.cons_prefix_cons.mp before).1.symm⟩

namespace Shape

theorem pairwise_apart_items {item : Shape} {items : List Json}
    (each : ∀ v ∈ items, (outcome (item.apply (some v))).2.Pairwise Issue.Apart) (k : Nat) :
    (outcome (applyItems item.apply k items)).2.Pairwise Issue.Apart := by
  induction items generalizing k with
  | nil => exact .nil
  | cons v rest ih =>
      obtain ⟨first, later⟩ := List.forall_mem_cons.mp each
      rw [outcome_items_cons]
      refine List.pairwise_append.mpr ⟨?_, ih later (k + 1), ?_⟩
      · exact first.map _ fun i j apart => apart.under _
      · intro i here j there
        obtain ⟨i, -, rfl⟩ := List.mem_map.mp here
        obtain ⟨n, -, -, j, -, rfl⟩ := mem_issues_items.mp there
        refine Issue.apart_of_steps ?_ i j
        intro same
        have here := Step.index.inj same
        omega

theorem pairwise_apart_fields {fields : List (String × Shape)} {members : Members Json}
    (distinct : (Members.keys fields).Nodup)
    (each : ∀ f ∈ fields, (outcome (f.2.apply (members.get? f.1))).2.Pairwise Issue.Apart) :
    (outcome (applyFields fields members)).2.Pairwise Issue.Apart := by
  induction fields with
  | nil => exact .nil
  | cons f rest ih =>
      obtain ⟨fresh, distinct⟩ := List.nodup_cons.mp distinct
      obtain ⟨first, later⟩ := List.forall_mem_cons.mp each
      rw [outcome_fields_cons]
      refine List.pairwise_append.mpr ⟨?_, ih distinct later, ?_⟩
      · exact first.map _ fun i j apart => apart.under _
      · intro i here j there
        obtain ⟨i, -, rfl⟩ := List.mem_map.mp here
        obtain ⟨f', listed, j, -, rfl⟩ := mem_issues_fields.mp there
        refine Issue.apart_of_steps ?_ i j
        intro same
        exact fresh (Step.key.inj same ▸ List.mem_map_of_mem listed)

/-- No two issues stand at one place, and none below another one. -/
theorem pairwise_apart_issues {s : Shape} (keyed : s.Everywhere DistinctKeys)
    (value : Option Json) : (outcome (s.apply value)).2.Pairwise Issue.Apart := by
  revert keyed
  refine Finds.induction (P := fun s _ issues => s.Everywhere DistinctKeys →
    issues.Pairwise Issue.Apart) ?nothing ?own ?nullable ?list ?object ?variant (finds s value)
  case nothing => exact fun _ _ _ => .nil
  case own => exact fun _ _ i _ _ => List.pairwise_singleton _ i
  case nullable => exact fun inner v _ ih keyed => ih (everywhere_nullable.mp keyed).2
  case list =>
    exact fun item items ih keyed => pairwise_apart_items
      (fun v mem => ih v mem (everywhere_list.mp keyed).2) 0
  case object =>
    intro fields members ih keyed
    obtain ⟨distinct, inside⟩ := everywhere_object.mp keyed
    exact pairwise_apart_fields distinct fun f listed => ih f listed (inside f listed)
  case variant =>
    intro choices name fields members selected found ih keyed
    obtain ⟨distinct, inside⟩ := everywhere_variants.mp keyed
    have choice := Members.mem_of_get? found
    exact pairwise_apart_fields (distinct.2 _ choice) fun f listed =>
      ih f listed (inside _ choice f listed)

end Shape

end FederatedMock
