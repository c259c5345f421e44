import FederatedMock.Shape.Validate

namespace FederatedMock

def Issue.under (path : Path) (i : Issue) : Issue :=
  { i with path := path ++ i.path }

theorem Issue.under_nil (i : Issue) : i.under [] = i := rfl

theorem Issue.under_append (p q : Path) (i : Issue) : i.under (p ++ q) = (i.under q).under p := by
  simp [Issue.under]

namespace Report

variable {α β : Type}

/-- What a walk gives when it starts with nothing: a result and the issues it finds. -/
def outcome (f : Report → α × Report) : α × List Issue :=
  ((f empty).1, (f empty).2.issues)

def AddsOnly (f : Report → α × Report) : Prop :=
  ∀ r, f r = ((outcome f).1, ⟨r.path, r.issues ++ (outcome f).2.map (Issue.under r.path)⟩)

def within (step : Step) (f : Report → α × Report) (r : Report) : α × Report :=
  ((f (r.enter step)).1, (f (r.enter step)).2.leave)

def andThen (f : Report → α × Report) (g : α → Report → β × Report) (r : Report) : β × Report :=
  g (f r).1 (f r).2

theorem addsOnly_result (a : α) : AddsOnly fun r => (a, r) := by
  intro r
  simp [outcome, empty]

theorem addsOnly_add (a : α) (message : String) : AddsOnly fun r => (a, r.add message) := by
  intro r
  simp [outcome, empty, add, Issue.under]

theorem outcome_within {f : Report → α × Report} (hf : AddsOnly f) (step : Step) :
    outcome (within step f) = ((outcome f).1, (outcome f).2.map (Issue.under [step])) := by
  have inside := hf ⟨[step], []⟩
  change ((f ⟨[step], []⟩).1, (f ⟨[step], []⟩).2.leave.issues) = _
  rw [inside]
  rfl

theorem addsOnly_within {f : Report → α × Report} (hf : AddsOnly f) (step : Step) :
    AddsOnly (within step f) := by
  intro r
  have inside := hf (r.enter step)
  have paths : Issue.under (r.enter step).path = Issue.under r.path ∘ Issue.under [step] :=
    funext fun i => Issue.under_append _ _ i
  rw [outcome_within hf, within, inside, paths, List.map_map]
  simp [enter, leave]

theorem outcome_andThen {f : Report → α × Report} {g : α → Report → β × Report}
    (hf : AddsOnly f) (hg : ∀ a, AddsOnly (g a)) :
    outcome (andThen f g) =
      ((outcome (g (outcome f).1)).1, (outcome f).2 ++ (outcome (g (outcome f).1)).2) := by
  have outermost : (f empty).2.path = [] := congrArg (fun result => result.2.path) (hf empty)
  have second := hg (f empty).1 (f empty).2
  have plain : Issue.under [] = id := funext Issue.under_nil
  rw [outermost, plain, List.map_id] at second
  change ((g (f empty).1 (f empty).2).1, (g (f empty).1 (f empty).2).2.issues) = _
  rw [second]
  rfl

theorem addsOnly_andThen {f : Report → α × Report} {g : α → Report → β × Report}
    (hf : AddsOnly f) (hg : ∀ a, AddsOnly (g a)) : AddsOnly (andThen f g) := by
  intro r
  rw [outcome_andThen hf hg, andThen, hf r]
  simp only
  rw [hg]
  simp only [List.map_append, List.append_assoc]

end Report

namespace Shape

open Report

theorem applyItems_cons (f : Option Json → Report → Option Json × Report) (i : Nat) (v : Json)
    (rest : List Json) :
    applyItems f i (v :: rest) = andThen (within (.index i) (f (some v))) fun out =>
      andThen (applyItems f (i + 1) rest) fun outs r => (out.getD .null :: outs, r) := rfl

theorem applyFields_cons (key : String) (s : Shape) (rest : List (String × Shape))
    (members : Members Json) :
    applyFields ((key, s) :: rest) members =
      andThen (within (.key key) (s.apply (members.get? key))) fun out =>
        andThen (applyFields rest members) fun outs r =>
          (match out with | some v => (key, v) :: outs | none => outs, r) := rfl

theorem apply_nullable {inner : Shape} {v : Json} (notNull : v ≠ .null) :
    (nullable inner).apply (some v) = inner.apply (some v) := by
  funext r
  rw [apply]
  exact notNull

theorem apply_list (item : Shape) (items : List Json) :
    (list item).apply (some (.array items)) =
      andThen (applyItems item.apply 0 items) fun outs r => (some (.array outs), r) := rfl

theorem apply_object (fields : List (String × Shape)) (members : Members Json) :
    (object fields).apply (some (.object members)) =
      andThen (applyFields fields members) fun out r => (some (.object out), r) := rfl

theorem apply_variants (choices : Variants) (members : Members Json) :
    (variants choices).apply (some (.object members)) =
      match selectVariant choices members with
      | some name =>
        andThen (applyVariant choices name members) fun out r => (some (.object out), r)
      | none => fun r => (none, reportDiscriminator choices r) := by
  funext r
  rw [apply]
  cases selectVariant choices members <;> rfl

theorem addsOnly_applyItems {f : Option Json → Report → Option Json × Report}
    (hf : ∀ value, AddsOnly (f value)) (i : Nat) (items : List Json) :
    AddsOnly (applyItems f i items) := by
  induction items generalizing i with
  | nil => exact addsOnly_result []
  | cons v rest ih =>
      rw [applyItems_cons]
      exact addsOnly_andThen (addsOnly_within (hf _) _) fun out =>
        addsOnly_andThen (ih (i + 1)) fun outs => addsOnly_result _

theorem addsOnly_applyMismatch (expected : String) (value : Option Json) :
    AddsOnly (applyMismatch expected value) := by
  cases value <;> exact addsOnly_add _ _

theorem addsOnly_applyEnumeration (members : List String) (value : Option Json) :
    AddsOnly (applyEnumeration members value) := by
  cases value with
  | none => exact addsOnly_add _ _
  | some v =>
      cases v
      case string name =>
        intro r
        by_cases h : name ∈ members
        · simpa [outcome, applyEnumeration, h] using addsOnly_result (some (Json.string name)) r
        · simpa [outcome, applyEnumeration, h] using addsOnly_add (none : Option Json) _ r
      all_goals exact addsOnly_add _ _

theorem addsOnly_reportDiscriminator (choices : Variants) :
    AddsOnly fun r => ((none : Option Json), reportDiscriminator choices r) :=
  addsOnly_within (addsOnly_add none _) (.key typenameKey)

mutual

theorem apply_addsOnly : (s : Shape) → (value : Option Json) → AddsOnly (s.apply value)
  | .nullable inner, none => addsOnly_result none
  | .nullable inner, some v => by
    have inside := apply_addsOnly inner (some v)
    cases v
    case null => exact addsOnly_result _
    all_goals
      intro r
      simpa only [apply] using inside r
  | .scalar rule, value => by
    intro r
    cases coerced : rule.coerce value with
    | ok v => simpa [outcome, apply, coerced] using addsOnly_result (some v) r
    | error message =>
      simpa [outcome, apply, coerced] using addsOnly_add (none : Option Json) message r
  | .enumeration members, value => by
    intro r
    simpa only [outcome, apply] using addsOnly_applyEnumeration members value r
  | .list item, value => by
    cases value with
    | none => exact addsOnly_applyMismatch "array" none
    | some v =>
      cases v
      case array items =>
        rw [apply_list]
        exact addsOnly_andThen (addsOnly_applyItems (apply_addsOnly item) 0 items)
          fun outs => addsOnly_result _
      all_goals exact addsOnly_applyMismatch "array" (some _)
  | .object fields, value => by
    cases value with
    | none => exact addsOnly_applyMismatch "object" none
    | some v =>
      cases v
      case object members =>
        rw [apply_object]
        exact addsOnly_andThen (applyFields_addsOnly fields members) fun out => addsOnly_result _
      all_goals exact addsOnly_applyMismatch "object" (some _)
  | .variants choices, value => by
    cases value with
    | none => exact addsOnly_applyMismatch "object" none
    | some v =>
      cases v
      case object members =>
        rw [apply_variants]
        split
        · exact addsOnly_andThen (applyVariant_addsOnly choices _ members)
            fun out => addsOnly_result _
        · exact addsOnly_reportDiscriminator choices
      all_goals exact addsOnly_applyMismatch "object" (some _)

theorem applyFields_addsOnly : (fields : List (String × Shape)) → (members : Members Json) →
    AddsOnly (applyFields fields members)
  | [], members => addsOnly_result []
  | (key, s) :: rest, members => by
    rw [applyFields_cons]
    exact addsOnly_andThen (addsOnly_within (apply_addsOnly s _) _) fun out =>
      addsOnly_andThen (applyFields_addsOnly rest members) fun outs => addsOnly_result _

theorem applyVariant_addsOnly : (choices : List (String × List (String × Shape))) →
    (name : String) → (members : Members Json) → AddsOnly (applyVariant choices name members)
  | [], name, members => addsOnly_result []
  | (n, fields) :: rest, name, members => by
    intro r
    by_cases h : n = name
    · simpa only [outcome, applyVariant, h, if_true] using applyFields_addsOnly fields members r
    · simpa only [outcome, applyVariant, h, if_false] using
        applyVariant_addsOnly rest name members r

end

theorem outcome_list (item : Shape) (items : List Json) :
    outcome ((list item).apply (some (.array items))) =
      (some (.array (outcome (applyItems item.apply 0 items)).1),
        (outcome (applyItems item.apply 0 items)).2) := by
  rw [apply_list, outcome_andThen (addsOnly_applyItems (apply_addsOnly item) 0 items)
    fun _ => addsOnly_result _]
  simp [outcome, empty]

theorem outcome_items_cons (item : Shape) (i : Nat) (v : Json) (rest : List Json) :
    outcome (applyItems item.apply i (v :: rest)) =
      ((outcome (item.apply (some v))).1.getD .null ::
          (outcome (applyItems item.apply (i + 1) rest)).1,
        (outcome (item.apply (some v))).2.map (Issue.under [.index i]) ++
          (outcome (applyItems item.apply (i + 1) rest)).2) := by
  have later := addsOnly_applyItems (apply_addsOnly item) (i + 1) rest
  rw [applyItems_cons, outcome_andThen (addsOnly_within (apply_addsOnly item _) _)
    (fun _ => addsOnly_andThen later fun _ => addsOnly_result _),
    outcome_within (apply_addsOnly item _), outcome_andThen later fun _ => addsOnly_result _]
  simp [outcome, empty]

theorem outcome_object (fields : List (String × Shape)) (members : Members Json) :
    outcome ((object fields).apply (some (.object members))) =
      (some (.object (outcome (applyFields fields members)).1),
        (outcome (applyFields fields members)).2) := by
  rw [apply_object, outcome_andThen (applyFields_addsOnly fields members)
    fun _ => addsOnly_result _]
  simp [outcome, empty]

theorem outcome_fields_cons (key : String) (s : Shape) (rest : List (String × Shape))
    (members : Members Json) :
    outcome (applyFields ((key, s) :: rest) members) =
      (match (outcome (s.apply (members.get? key))).1 with
        | some v => (key, v) :: (outcome (applyFields rest members)).1
        | none => (outcome (applyFields rest members)).1,
        (outcome (s.apply (members.get? key))).2.map (Issue.under [.key key]) ++
          (outcome (applyFields rest members)).2) := by
  have later := applyFields_addsOnly rest members
  rw [applyFields_cons, outcome_andThen (addsOnly_within (apply_addsOnly s _) _)
    (fun _ => addsOnly_andThen later fun _ => addsOnly_result _),
    outcome_within (apply_addsOnly s _), outcome_andThen later fun _ => addsOnly_result _]
  simp only [outcome, empty, List.append_nil]

theorem outcome_variant {choices : Variants} {members : Members Json} {name : String}
    (selected : selectVariant choices members = some name) :
    outcome ((variants choices).apply (some (.object members))) =
      (some (.object (outcome (applyVariant choices name members)).1),
        (outcome (applyVariant choices name members)).2) := by
  rw [apply_variants, selected]
  simp only
  rw [outcome_andThen (applyVariant_addsOnly choices name members) fun _ => addsOnly_result _]
  simp [outcome, empty]

end Shape

end FederatedMock
