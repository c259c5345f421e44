import FederatedMock.Proofs.Operation.Alteration
import FederatedMock.Proofs.Operation.Reserved
import Mathlib.Logic.Relation

namespace FederatedMock.Graphql

/-- The selections with inline fragments in place of spreads. A fragment is not entered within
itself, so that spreads which lead back to it stay. -/
def inlineSpreads (fragments : Members Fragment) : List Selection → List Selection
  | [] => []
  | .field responseName name arguments directives inner :: rest =>
    .field responseName name arguments directives (inlineSpreads fragments inner) ::
      inlineSpreads fragments rest
  | .inline condition directives inner :: rest =>
    .inline condition directives (inlineSpreads fragments inner) :: inlineSpreads fragments rest
  | .spread name directives :: rest =>
    match _ : fragments.get? name with
    | none => .spread name directives :: inlineSpreads fragments rest
    | some f =>
      .inline (some f.condition) directives
          (inlineSpreads (fragments.erase name) f.selections) ::
        inlineSpreads fragments rest
termination_by selections => (fragments.length, sizeOf selections)
decreasing_by
  all_goals first
    | exact .left _ _ (Members.length_erase_lt ‹_›)
    | decreasing_tactic

theorem inlineSpreads_spread {fragments : Members Fragment} {name : String}
    {directives : List Directive} {f : Fragment} {rest : List Selection}
    (found : fragments.get? name = some f) :
    inlineSpreads fragments (.spread name directives :: rest) =
      .inline (some f.condition) directives (inlineSpreads (fragments.erase name) f.selections) ::
        inlineSpreads fragments rest := by
  rw [inlineSpreads]
  split
  · rename_i missing
    cases found.symm.trans missing
  · rename_i known
    cases found.symm.trans known
    rfl

def Document.inlineSpreads (d : Document) : Document :=
  d.map (·.mapSelections (Graphql.inlineSpreads (fragmentsOf d)))

inductive Inlines (fragments : Members Fragment) : List Selection → List Selection → Prop
  | nil : Inlines fragments [] []
  | field {responseName : Option String} {name : String} {arguments : List Argument}
      {directives : List Directive} {inner inner' rest rest' : List Selection}
      (inside : Inlines fragments inner inner') (others : Inlines fragments rest rest') :
      Inlines fragments (.field responseName name arguments directives inner :: rest)
        (.field responseName name arguments directives inner' :: rest')
  | inline {condition : Option String} {directives : List Directive}
      {inner inner' rest rest' : List Selection} (inside : Inlines fragments inner inner')
      (others : Inlines fragments rest rest') :
      Inlines fragments (.inline condition directives inner :: rest)
        (.inline condition directives inner' :: rest')
  | spread {name : String} {directives : List Directive} {f : Fragment}
      {inner rest rest' : List Selection} (found : fragments.get? name = some f)
      (inside : Inlines fragments f.selections inner) (others : Inlines fragments rest rest') :
      Inlines fragments (.spread name directives :: rest)
        (.inline (some f.condition) directives inner :: rest')

theorem Inlines.isEmpty_eq {fragments : Members Fragment} {selections selections' : List Selection}
    (inlines : Inlines fragments selections selections') :
    selections.isEmpty = selections'.isEmpty := by
  cases inlines <;> rfl

def Mentions (fragments : Members Fragment) (name other : String) : Prop :=
  ∃ f directives, fragments.get? name = some f ∧
    (Selection.spread other directives).Within f.selections

/-- Every spread of the document names a fragment that it defines, and that does not lead to itself
by spreads. -/
def Document.Resolves (d : Document) : Prop :=
  ∀ name directives, d.Has (.spread name directives) →
    ((fragmentsOf d).get? name).isSome ∧ ¬ Relation.TransGen (Mentions (fragmentsOf d)) name name

def LeadsTo (fragments : Members Fragment) (selections : List Selection) (name : String) : Prop :=
  ∃ first directives, (Selection.spread first directives).Within selections ∧
    Relation.ReflTransGen (Mentions fragments) first name

def ResolvesBy (fragments left : Members Fragment) (selections : List Selection) : Prop :=
  ∀ name, LeadsTo fragments selections name → left.get? name = fragments.get? name ∧
    (fragments.get? name).isSome ∧ ¬ Relation.TransGen (Mentions fragments) name name

variable {fragments left : Members Fragment} {selections inner rest : List Selection}

theorem leadsTo_spread {name : String} {directives : List Directive} :
    LeadsTo fragments (.spread name directives :: rest) name :=
  ⟨name, directives, .here List.mem_cons_self, .refl⟩

theorem LeadsTo.of_within {name : String} (leads : LeadsTo fragments inner name)
    (within : ∀ s : Selection, s.Within inner → s.Within selections) :
    LeadsTo fragments selections name := by
  obtain ⟨first, directives, spread, path⟩ := leads
  exact ⟨first, directives, within _ spread, path⟩

theorem LeadsTo.transGen {name other : String} {f : Fragment}
    (leads : LeadsTo fragments f.selections other) (found : fragments.get? name = some f) :
    Relation.TransGen (Mentions fragments) name other := by
  obtain ⟨first, directives, within, path⟩ := leads
  exact .head' ⟨f, directives, found, within⟩ path

theorem LeadsTo.of_fragment {name other : String} {directives : List Directive} {f : Fragment}
    (leads : LeadsTo fragments f.selections other) (found : fragments.get? name = some f) :
    LeadsTo fragments (.spread name directives :: rest) other :=
  ⟨name, directives, .here List.mem_cons_self, (leads.transGen found).to_reflTransGen⟩

theorem ResolvesBy.of_within (resolves : ResolvesBy fragments left selections)
    (within : ∀ s : Selection, s.Within inner → s.Within selections) :
    ResolvesBy fragments left inner :=
  fun name leads => resolves name (leads.of_within within)

theorem ResolvesBy.tail {s : Selection} (resolves : ResolvesBy fragments left (s :: rest)) :
    ResolvesBy fragments left rest :=
  resolves.of_within fun _ within => within.mono (List.subset_cons_self s rest)

theorem ResolvesBy.erase {name : String} {directives : List Directive} {f : Fragment}
    (resolves : ResolvesBy fragments left (.spread name directives :: rest))
    (found : fragments.get? name = some f) :
    ResolvesBy fragments (left.erase name) f.selections := by
  intro other leads
  obtain ⟨known, defined, acyclic⟩ := resolves other (leads.of_fragment found)
  -- A fragment that its own selections lead to would lead to itself.
  have different : other ≠ name := by
    rintro rfl
    exact acyclic (leads.transGen found)
  rw [Members.get?_erase_of_ne different]
  exact ⟨known, defined, acyclic⟩

theorem ResolvesBy.inlines (resolves : ResolvesBy fragments left selections) :
    Inlines fragments selections (inlineSpreads left selections) := by
  induction left, selections using inlineSpreads.induct with
  | case1 left =>
      rw [inlineSpreads]
      exact .nil
  | case2 left responseName name arguments directives inner rest ihInner ihRest =>
      rw [inlineSpreads]
      have inside := resolves.of_within fun _ => Selection.Within.field List.mem_cons_self
      exact .field (ihInner inside) (ihRest resolves.tail)
  | case3 left condition directives inner rest ihInner ihRest =>
      rw [inlineSpreads]
      have inside := resolves.of_within fun _ => Selection.Within.inline List.mem_cons_self
      exact .inline (ihInner inside) (ihRest resolves.tail)
  | case4 left name directives rest missing ihRest =>
      obtain ⟨known, defined, -⟩ := resolves name leadsTo_spread
      rw [← known, missing] at defined
      cases defined
  | case5 left name directives rest f found ihInner ihRest =>
      have known := (resolves name leadsTo_spread).1.symm.trans found
      rw [inlineSpreads_spread found]
      exact .spread known (ihInner (resolves.erase known)) (ihRest resolves.tail)

theorem Document.Resolves.inlines {d : Document} (resolves : d.Resolves) :
    d.Alters (Inlines (fragmentsOf d)) d.inlineSpreads := by
  have each (selections : List Selection)
      (has : ∀ s : Selection, s.Within selections → d.Has s) :
      ResolvesBy (fragmentsOf d) (fragmentsOf d) selections := by
    rintro name ⟨first, directives, within, path⟩
    obtain ⟨ds, spread⟩ : ∃ ds, d.Has (.spread name ds) := by
      rcases Relation.ReflTransGen.cases_tail path with rfl | ⟨last, _, f, ds, found, within⟩
      · exact ⟨directives, has _ within⟩
      · exact ⟨ds, .fragment (mem_of_fragmentsOf found).1 within⟩
    exact ⟨rfl, resolves name ds spread⟩
  refine Document.alters_map (fun o mem => ?_) fun f mem => ?_
  · exact (each o.selections fun _ => .operation mem).inlines
  · exact (each f.selections fun _ => .fragment mem).inlines

end FederatedMock.Graphql
