import FederatedMock.Proofs.Shape.Coercion
import FederatedMock.Proofs.Shape.Part
import FederatedMock.Proofs.Shape.Places

namespace FederatedMock

open Shape Report

inductive Json.Reordered : Json → Json → Prop
  | same (v : Json) : Reordered v v
  | array {items items' : List Json} (length : items.length = items'.length)
      (each : ∀ (i : Nat) v v', items[i]? = some v → items'[i]? = some v' → Reordered v v') :
      Reordered (.array items) (.array items')
  | object {members members' : Members Json} (distinct : members.keys.Nodup)
      (distinct' : members'.keys.Nodup)
      (keys : ∀ key, members.get? key = none ↔ members'.get? key = none)
      (each : ∀ key v v', members.get? key = some v → members'.get? key = some v' →
        Reordered v v') :
      Reordered (.object members) (.object members')

def discriminatorMessage (names : List String) : String :=
  s!"Invalid discriminator value. Expected {Text.choices names}"

inductive Issue.Alike : Issue → Issue → Prop
  | same (i : Issue) : Alike i i
  | discriminator {path : Path} {names names' : List String} (perm : names.Perm names') :
      Alike ⟨path, discriminatorMessage names⟩ ⟨path, discriminatorMessage names'⟩

theorem Issue.Alike.under {i i' : Issue} (alike : i.Alike i') (path : Path) :
    (i.under path).Alike (i'.under path) := by
  cases alike with
  | same => exact .same _
  | discriminator perm => exact .discriminator perm

structure IssuesAlike (issues issues' : List Issue) : Prop where
  left : ∀ i ∈ issues, ∃ i' ∈ issues', i.Alike i'
  right : ∀ i' ∈ issues', ∃ i ∈ issues, i.Alike i'

theorem issuesAlike_refl (issues : List Issue) : IssuesAlike issues issues :=
  ⟨fun i mem => ⟨i, mem, .same i⟩, fun i mem => ⟨i, mem, .same i⟩⟩

theorem issuesAlike_singleton {i i' : Issue} (alike : i.Alike i') : IssuesAlike [i] [i'] := by
  constructor
  · intro j mem
    cases List.mem_singleton.mp mem
    exact ⟨i', List.mem_singleton_self _, alike⟩
  · intro j mem
    cases List.mem_singleton.mp mem
    exact ⟨i, List.mem_singleton_self _, alike⟩

theorem IssuesAlike.nil_iff {issues issues' : List Issue} (alike : IssuesAlike issues issues') :
    issues = [] ↔ issues' = [] := by
  constructor
  · rintro rfl
    refine List.eq_nil_iff_forall_not_mem.mpr fun i mem => ?_
    obtain ⟨j, none, -⟩ := alike.right i mem
    cases none
  · rintro rfl
    refine List.eq_nil_iff_forall_not_mem.mpr fun i mem => ?_
    obtain ⟨j, none, -⟩ := alike.left i mem
    cases none

structure OutcomesAlike (o o' : Option Json × List Issue) : Prop where
  value : Option.Rel Json.Reordered o.1 o'.1
  issues : IssuesAlike o.2 o'.2

theorem outcomesAlike_refl (o : Option Json × List Issue) : OutcomesAlike o o where
  value := by
    cases o.1 with
    | none => exact .none
    | some v => exact .some (.same v)
  issues := issuesAlike_refl o.2

theorem OutcomesAlike.getD {o o' : Option Json × List Issue} (alike : OutcomesAlike o o') :
    (o.1.getD .null).Reordered (o'.1.getD .null) := by
  cases o
  cases o'
  cases alike.value with
  | none => exact .same _
  | some same => exact same

namespace Shape

/-- The same entries under the same keys. What variants have for the type name is left out. -/
inductive Reorders : Shape → Shape → Prop
  | scalar (rule : ScalarRule) : Reorders (.scalar rule) (.scalar rule)
  | enumeration (names : List String) : Reorders (.enumeration names) (.enumeration names)
  | list {item item' : Shape} (inside : Reorders item item') : Reorders (.list item) (.list item')
  | nullable {inner inner' : Shape} (inside : Reorders inner inner') :
      Reorders (.nullable inner) (.nullable inner')
  | object {fields fields' : Fields}
      (keys : ∀ key, fields.get? key = none ↔ fields'.get? key = none)
      (each : ∀ key s s', fields.get? key = some s → fields'.get? key = some s' → Reorders s s') :
      Reorders (.object fields) (.object fields')
  | variants {choices choices' : Variants}
      (names : ∀ name, choices.get? name = none ↔ choices'.get? name = none)
      (keys : ∀ name fields fields', choices.get? name = some fields →
        choices'.get? name = some fields' →
          ∀ key, Members.get? key fields = none ↔ Members.get? key fields' = none)
      (each : ∀ name fields fields', choices.get? name = some fields →
        choices'.get? name = some fields' → ∀ key s s', key ≠ typenameKey →
          Members.get? key fields = some s → Members.get? key fields' = some s' → Reorders s s') :
      Reorders (.variants choices) (.variants choices')

def WellKeyed (s : Shape) : Prop :=
  DistinctKeys s ∧ NamedVariants s

inductive Meets (t : Shape) (z : Json) : Shape → Json → Prop
  | here : Meets t z t z
  | nullable {inner : Shape} {y : Json} (notNull : y ≠ .null) (inside : Meets t z inner y) :
      Meets t z (.nullable inner) y
  | item {item : Shape} {items : List Json} {y : Json} (mem : y ∈ items)
      (inside : Meets t z item y) : Meets t z (.list item) (.array items)
  | field {fields : Fields} {members : Members Json} {key : String} {s : Shape} {y : Json}
      (found : fields.get? key = some s) (given : members.get? key = some y)
      (inside : Meets t z s y) : Meets t z (.object fields) (.object members)
  | choice {choices : Variants} {fields : Fields} {members : Members Json} {name key : String}
      {s : Shape} {y : Json} (selected : selectVariant choices members = some name)
      (chosen : choices.get? name = some fields) (found : fields.get? key = some s)
      (given : members.get? key = some y) (inside : Meets t z s y) :
      Meets t z (.variants choices) (.object members)

theorem not_meets_string {choices : Variants} {members : Members Json} {s : Shape}
    {text : String} : ¬ Meets (.variants choices) (.object members) s (.string text) := by
  intro meets
  generalize same : Json.string text = y at meets
  induction meets with
  | nullable notNull inside ih => exact ih same
  | _ => cases same

/-- Every object that comes to a discriminated shape has a string for its type name. -/
def Tagged (s : Shape) (y : Json) : Prop :=
  ∀ choices members, Meets (.variants choices) (.object members) s y →
    ∃ name, Members.get? typenameKey members = some (.string name)

end Shape

theorem issues_fields_related {r : Issue → Issue → Prop} {fields fields' : Fields}
    {members : Members Json}
    (under : ∀ i i' path, r i i' → r (i.under path) (i'.under path))
    (distinct : (Members.keys fields).Nodup)
    (each : ∀ key s, fields.get? key = some s → ∃ s', fields'.get? key = some s' ∧
      ∀ i ∈ (outcome (s.apply (members.get? key))).2,
        ∃ i' ∈ (outcome (s'.apply (members.get? key))).2, r i i') :
    ∀ i ∈ (outcome (applyFields fields members)).2,
      ∃ i' ∈ (outcome (applyFields fields' members)).2, r i i' := by
  intro i mem
  obtain ⟨⟨key, s⟩, listed, j, inside, rfl⟩ := mem_issues_fields.mp mem
  obtain ⟨s', there, related⟩ := each key s (Members.get?_of_mem distinct listed)
  obtain ⟨j', inside', same⟩ := related j inside
  exact ⟨_, mem_issues_fields.mpr ⟨_, Members.mem_of_get? there, j', inside', rfl⟩,
    under _ _ _ same⟩

theorem outcomesAlike_fields {fields fields' : Fields} {members : Members Json}
    (distinct : (Members.keys fields).Nodup) (distinct' : (Members.keys fields').Nodup)
    (keys : ∀ key, fields.get? key = none ↔ fields'.get? key = none)
    (each : ∀ key s s', fields.get? key = some s → fields'.get? key = some s' →
      OutcomesAlike (outcome (s.apply (members.get? key)))
        (outcome (s'.apply (members.get? key)))) :
    OutcomesAlike
      (some (.object (outcome (applyFields fields members)).1),
        (outcome (applyFields fields members)).2)
      (some (.object (outcome (applyFields fields' members)).1),
        (outcome (applyFields fields' members)).2) := by
  have found (key : String) : (fields.get? key = none ∧ fields'.get? key = none) ∨
      ∃ s s', fields.get? key = some s ∧ fields'.get? key = some s' := by
    have same := keys key
    cases here : fields.get? key with
    | none => exact .inl ⟨rfl, same.mp here⟩
    | some s =>
        cases there : fields'.get? key with
        | none => cases here.symm.trans (same.mpr there)
        | some s' => exact .inr ⟨s, s', rfl, rfl⟩
  have outs (key : String) : Option.Rel Json.Reordered
      (Members.get? key (outcome (applyFields fields members)).1)
      (Members.get? key (outcome (applyFields fields' members)).1) := by
    rw [get?_outcome_fields distinct, get?_outcome_fields distinct']
    rcases found key with ⟨here, there⟩ | ⟨s, s', here, there⟩
    · rw [here, there]
      exact .none
    · rw [here, there]
      exact (each key s s' here there).value
  refine ⟨.some (.object ?_ ?_ ?_ ?_), ?_, ?_⟩
  · exact (keys_outcome_fields fields members).nodup distinct
  · exact (keys_outcome_fields fields' members).nodup distinct'
  · intro key
    have related := outs key
    generalize Members.get? key (outcome (applyFields fields members)).1 = out at related ⊢
    generalize Members.get? key (outcome (applyFields fields' members)).1 = out' at related ⊢
    cases related <;> simp
  · intro key v v' here there
    have related := outs key
    rw [here, there] at related
    cases related with
    | some same => exact same
  · refine issues_fields_related (fun _ _ path alike => alike.under path) distinct ?_
    intro key s here
    rcases found key with ⟨missing, -⟩ | ⟨_, s', here', there⟩
    · cases here.symm.trans missing
    · cases here.symm.trans here'
      exact ⟨s', there, (each key s s' here there).issues.left⟩
  · refine issues_fields_related (fun _ _ path alike => alike.under path) distinct' ?_
    intro key s' there
    rcases found key with ⟨-, missing⟩ | ⟨s, _, here, there'⟩
    · cases there.symm.trans missing
    · cases there.symm.trans there'
      exact ⟨s, here, (each key s s' here there).issues.right⟩

theorem outcomesAlike_items {item item' : Shape} {items : List Json}
    (each : ∀ v ∈ items, OutcomesAlike (outcome (item.apply (some v)))
      (outcome (item'.apply (some v)))) :
    OutcomesAlike (outcome ((Shape.list item).apply (some (.array items))))
      (outcome ((Shape.list item').apply (some (.array items)))) := by
  rw [outcome_list, outcome_list]
  refine ⟨.some (.array ?_ ?_), ?_, ?_⟩
  · rw [length_outcome_items, length_outcome_items]
  · intro i w w' here there
    cases listed : items[i]? with
    | none =>
        have short : (outcome (applyItems item.apply 0 items)).1[i]? = none := by
          rw [List.getElem?_eq_none_iff, length_outcome_items]
          exact List.getElem?_eq_none_iff.mp listed
        cases here.symm.trans short
    | some v =>
        cases here.symm.trans (outcome_items_at item listed 0 []).1
        cases there.symm.trans (outcome_items_at item' listed 0 []).1
        exact (each v (List.mem_of_getElem? listed)).getD
  · intro i mem
    obtain ⟨n, v, listed, j, inside, rfl⟩ := mem_issues_items.mp mem
    obtain ⟨j', inside', alike⟩ := (each v (List.mem_of_getElem? listed)).issues.left j inside
    exact ⟨_, mem_issues_items.mpr ⟨n, v, listed, j', inside', rfl⟩, alike.under _⟩
  · intro i mem
    obtain ⟨n, v, listed, j, inside, rfl⟩ := mem_issues_items.mp mem
    obtain ⟨j', inside', alike⟩ := (each v (List.mem_of_getElem? listed)).issues.right j inside
    exact ⟨_, mem_issues_items.mpr ⟨n, v, listed, j', inside', rfl⟩, alike.under _⟩

theorem outcome_unknownType {choices : Variants} {members : Members Json}
    (unknown : selectVariant choices members = none) :
    outcome ((Shape.variants choices).apply (some (.object members))) =
      (none, [⟨[.key typenameKey], discriminatorMessage choices.keys⟩]) := by
  rw [apply_variants, unknown]
  rfl

theorem outcome_typename {name : String} {s : Shape}
    (named : s = .scalar (.typename name) ∨ s = .enumeration [name]) :
    outcome (s.apply (some (.string name))) = (some (.string name), []) := by
  rcases named with rfl | rfl
  · rfl
  · simp [outcome, apply, applyEnumeration, empty]

theorem selectVariant_alike {choices choices' : Variants} {members : Members Json} {name : String}
    (names : ∀ name, choices.get? name = none ↔ choices'.get? name = none)
    (given : members.get? typenameKey = some (.string name)) :
    (selectVariant choices members = if choices.get? name = none then none else some name) ∧
      selectVariant choices' members = selectVariant choices members := by
  have read (choices : Variants) : selectVariant choices members =
      if choices.get? name = none then none else some name := by
    rw [selectVariant, given]
    cases found : choices.get? name <;> simp [Members.contains, found]
  rw [read, read]
  refine ⟨rfl, ?_⟩
  simp only [names]

theorem perm_keys {choices choices' : Variants} (distinct : choices.keys.Nodup)
    (distinct' : choices'.keys.Nodup)
    (names : ∀ name, choices.get? name = none ↔ choices'.get? name = none) :
    choices.keys.Perm choices'.keys := by
  refine (List.perm_ext_iff_of_nodup distinct distinct').mpr fun name => ?_
  have same := names name
  rw [Members.get?_eq_none_iff, Members.get?_eq_none_iff] at same
  exact not_iff_not.mp same

theorem outcomesAlike_variants {choices choices' : Variants} {members : Members Json}
    {name : String} (keyed : WellKeyed (.variants choices))
    (keyed' : WellKeyed (.variants choices'))
    (names : ∀ name, choices.get? name = none ↔ choices'.get? name = none)
    (keys : ∀ name fields fields', choices.get? name = some fields →
      choices'.get? name = some fields' →
        ∀ key, Members.get? key fields = none ↔ Members.get? key fields' = none)
    (given : members.get? typenameKey = some (.string name))
    (each : ∀ fields fields', selectVariant choices members = some name →
      choices.get? name = some fields → choices'.get? name = some fields' →
        ∀ key s s', key ≠ typenameKey → Members.get? key fields = some s →
          Members.get? key fields' = some s' →
            OutcomesAlike (outcome (s.apply (members.get? key)))
              (outcome (s'.apply (members.get? key)))) :
    OutcomesAlike (outcome ((Shape.variants choices).apply (some (.object members))))
      (outcome ((Shape.variants choices').apply (some (.object members)))) := by
  obtain ⟨read, read'⟩ := selectVariant_alike names given
  cases chosen : choices.get? name with
  | none =>
      rw [if_pos chosen] at read
      rw [outcome_unknownType read, outcome_unknownType (read'.trans read)]
      have perm := perm_keys keyed.1.1 keyed'.1.1 names
      exact ⟨.none, issuesAlike_singleton (.discriminator perm)⟩
  | some fields =>
      rw [if_neg (by simp [chosen])] at read
      obtain ⟨fields', chosen'⟩ : ∃ fields', choices'.get? name = some fields' :=
        Option.ne_none_iff_exists'.mp fun missing => by
          simp [(names name).mpr missing] at chosen
      have listed := Members.mem_of_get? chosen
      have listed' := Members.mem_of_get? chosen'
      rw [outcome_variant read, outcome_variant (read'.trans read),
        applyVariant_of_get? chosen, applyVariant_of_get? chosen']
      refine outcomesAlike_fields (keyed.1.2 _ listed) (keyed'.1.2 _ listed')
        (keys name fields fields' chosen chosen') fun key s s' here there => ?_
      by_cases typename : key = typenameKey
      · subst typename
        have named := keyed.2 _ listed
        have named' := keyed'.2 _ listed'
        rw [here] at named
        rw [there] at named'
        rw [given, outcome_typename (by simpa using named),
          outcome_typename (by simpa using named')]
        exact outcomesAlike_refl _
      · exact each fields fields' read chosen chosen' key s s' typename here there

namespace Shape

theorem Everywhere.entry {P : Shape → Prop} {fields : Fields} {key : String} {s : Shape}
    (all : Everywhere P (.object fields)) (found : fields.get? key = some s) : Everywhere P s :=
  (everywhere_object.mp all).2 _ (Members.mem_of_get? found)

theorem Everywhere.choiceEntry {P : Shape → Prop} {choices : Variants} {fields : Fields}
    {name key : String} {s : Shape} (all : Everywhere P (.variants choices))
    (chosen : choices.get? name = some fields) (found : fields.get? key = some s) :
    Everywhere P s :=
  (everywhere_variants.mp all).2 _ (Members.mem_of_get? chosen) _ (Members.mem_of_get? found)

theorem Reorders.outcomesAlike {s s' : Shape} {value : Option Json} (same : Reorders s s')
    (keyed : Everywhere WellKeyed s) (keyed' : Everywhere WellKeyed s')
    (tagged : ∀ y, value = some y → s.Tagged y) :
    OutcomesAlike (outcome (s.apply value)) (outcome (s'.apply value)) := by
  induction same generalizing value with
  | scalar rule => exact outcomesAlike_refl _
  | enumeration names => exact outcomesAlike_refl _
  | nullable inside ih =>
      have below := (everywhere_nullable.mp keyed).2
      have below' := (everywhere_nullable.mp keyed').2
      cases value with
      | none => exact outcomesAlike_refl _
      | some y =>
          cases y
          case null => exact outcomesAlike_refl _
          all_goals
            refine ih below below' fun y given => ?_
            cases given
            intro choices members meets
            exact tagged _ rfl choices members (.nullable (by simp) meets)
  | list inside ih =>
      have below := (everywhere_list.mp keyed).2
      have below' := (everywhere_list.mp keyed').2
      cases value with
      | none => exact outcomesAlike_refl _
      | some y =>
          cases y
          case array items =>
            refine outcomesAlike_items fun v mem => ih below below' fun y given => ?_
            cases given
            exact fun choices members meets => tagged _ rfl choices members (.item mem meets)
          all_goals exact outcomesAlike_refl _
  | object keys each ih =>
      cases value with
      | none => exact outcomesAlike_refl _
      | some y =>
          cases y
          case object members =>
            rw [outcome_object, outcome_object]
            refine outcomesAlike_fields keyed.here.1 keyed'.here.1 keys ?_
            intro key s s' here there
            refine ih key s s' here there (keyed.entry here) (keyed'.entry there) fun y given => ?_
            exact fun choices members meets =>
              tagged _ rfl choices members (.field here given meets)
          all_goals exact outcomesAlike_refl _
  | @variants choices choices' names keys each ih =>
      cases value with
      | none => exact outcomesAlike_refl _
      | some y =>
          cases y
          case object members =>
            obtain ⟨name, given⟩ := tagged _ rfl choices members .here
            refine outcomesAlike_variants keyed.here keyed'.here names keys given ?_
            intro fields fields' read chosen chosen' key s s' other here there
            refine ih name fields fields' chosen chosen' key s s' other here there
              (keyed.choiceEntry chosen here) (keyed'.choiceEntry chosen' there) fun y given' => ?_
            exact fun choices members meets =>
              tagged _ rfl choices members (.choice read chosen here given' meets)
          all_goals exact outcomesAlike_refl _

end Shape

inductive VerdictsAlike : Except (List Issue) Json → Except (List Issue) Json → Prop
  | accepted {y y' : Json} (same : y.Reordered y') : VerdictsAlike (.ok y) (.ok y')
  | rejected {issues issues' : List Issue} (same : IssuesAlike issues issues') :
      VerdictsAlike (.error issues) (.error issues')

theorem Shape.Reorders.verdictsAlike {s s' : Shape} {x : Json} (same : Reorders s s')
    (keyed : Everywhere WellKeyed s) (keyed' : Everywhere WellKeyed s') (tagged : s.Tagged x) :
    VerdictsAlike (s.validate x) (s'.validate x) := by
  have alike : OutcomesAlike (outcome (s.apply (some x))) (outcome (s'.apply (some x))) := by
    refine same.outcomesAlike keyed keyed' fun y given => ?_
    cases given
    exact tagged
  rw [validate_eq, validate_eq]
  by_cases clean : (outcome (s.apply (some x))).2 = []
  · rw [clean, alike.issues.nil_iff.mp clean]
    exact .accepted alike.getD
  · have found := fun clean' => clean (alike.issues.nil_iff.mpr clean')
    rw [if_neg (by simpa using clean), if_neg (by simpa using found)]
    exact .rejected alike.issues

end FederatedMock
