import FederatedMock.Proofs.Operation.Spreads

namespace FederatedMock

open Graphql

namespace Graphql

mutual

def Selection.outline : Selection → Selection
  | .field responseName name _ _ inner => .field responseName name [] [] (outlines inner)
  | .inline condition _ inner => .inline condition [] (outlines inner)
  | .spread name _ => .spread name []

def outlines : List Selection → List Selection
  | [] => []
  | s :: rest => s.outline :: outlines rest

end

def Fragment.Agrees (f f' : Fragment) : Prop :=
  f.condition = f'.condition ∧ outlines f.selections = outlines f'.selections

/-- The selections have the same outlines, and so have the fragments that they lead to, of which
either both documents define one or neither does. -/
structure Agree (fragments fragments' : Members Fragment)
    (selections selections' : List Selection) : Prop where
  outlines : outlines selections = outlines selections'
  fragments : ∀ name, LeadsTo fragments selections name →
    Option.Rel Fragment.Agrees (fragments.get? name) (fragments'.get? name)

inductive Selection.Agrees (fragments fragments' : Members Fragment) : Selection → Selection → Prop
  | field {responseName : Option String} {name : String} {arguments arguments' : List Argument}
      {directives directives' : List Directive} {inner inner' : List Selection}
      (inside : Agree fragments fragments' inner inner') :
      Selection.Agrees fragments fragments' (.field responseName name arguments directives inner)
        (.field responseName name arguments' directives' inner')
  | inline {condition : Option String} {directives directives' : List Directive}
      {inner inner' : List Selection} (inside : Agree fragments fragments' inner inner') :
      Selection.Agrees fragments fragments' (.inline condition directives inner)
        (.inline condition directives' inner')
  | spread {name : String} {directives directives' : List Directive} {f f' : Fragment}
      (found : fragments.get? name = some f) (found' : fragments'.get? name = some f')
      (condition : f.condition = f'.condition)
      (inside : Agree fragments fragments' f.selections f'.selections) :
      Selection.Agrees fragments fragments' (.spread name directives) (.spread name directives')
  | unknown {name : String} {directives directives' : List Directive}
      (missing : fragments.get? name = none) (missing' : fragments'.get? name = none) :
      Selection.Agrees fragments fragments' (.spread name directives) (.spread name directives')

variable {fragments fragments' : Members Fragment} {s s' : Selection}
  {selections selections' rest : List Selection}

theorem agrees_of_outline (same : s.outline = s'.outline)
    (reached : ∀ name, LeadsTo fragments [s] name →
      Option.Rel Fragment.Agrees (fragments.get? name) (fragments'.get? name)) :
    s.Agrees fragments fragments' s' := by
  have mem := List.mem_singleton_self s
  cases s with
  | field responseName name arguments directives inner =>
      cases s' with
      | field =>
          obtain ⟨rfl, rfl, -, -, inside⟩ := Selection.field.inj same
          refine .field ⟨inside, fun name leads => reached name ?_⟩
          exact leads.of_within fun _ => .field mem
      | _ => cases same
  | inline condition directives inner =>
      cases s' with
      | inline =>
          obtain ⟨rfl, -, inside⟩ := Selection.inline.inj same
          refine .inline ⟨inside, fun name leads => reached name ?_⟩
          exact leads.of_within fun _ => .inline mem
      | _ => cases same
  | spread name directives =>
      cases s' with
      | spread =>
          obtain ⟨rfl, -⟩ := Selection.spread.inj same
          -- The selections lead to what they spread, so both documents define it or neither does.
          have here := reached name leadsTo_spread
          rcases none_or_some_of_rel here with ⟨missing, missing'⟩ | ⟨f, f', found, found', alike⟩
          · exact .unknown missing missing'
          · obtain ⟨condition, inside⟩ := alike
            exact .spread found found' condition
              ⟨inside, fun name leads => reached name (leads.of_fragment found)⟩
      | _ => cases same

theorem Agree.cons (agree : Agree fragments fragments' (s :: rest) selections') :
    ∃ s' rest', selections' = s' :: rest' ∧ s.Agrees fragments fragments' s' ∧
      Agree fragments fragments' rest rest' := by
  obtain ⟨same, reached⟩ := agree
  cases selections' with
  | nil => cases same
  | cons s' rest' =>
      obtain ⟨first, others⟩ := List.cons.inj same
      have reaches {part : List Selection} (subset : part ⊆ s :: rest) (name : String)
          (leads : LeadsTo fragments part name) :=
        reached name (leads.of_within fun _ within => within.mono subset)
      exact ⟨s', rest', rfl, agrees_of_outline first (reaches (by simp)),
        others, reaches (List.subset_cons_self s rest)⟩

theorem Agree.isEmpty_eq (agree : Agree fragments fragments' selections selections') :
    selections.isEmpty = selections'.isEmpty := by
  obtain ⟨same, -⟩ := agree
  cases selections <;> cases selections' <;> first | rfl | cases same

theorem LeadsTo.mem {name : String} {names : List String}
    (leads : LeadsTo fragments selections name)
    (here : AllWithin (fun s => s.spreads ⊆ names) selections)
    (closed : ∀ known ∈ names, ∀ f, fragments.get? known = some f →
      AllWithin (fun s => s.spreads ⊆ names) f.selections) : name ∈ names := by
  obtain ⟨first, directives, within, path⟩ := leads
  induction path with
  | refl => exact here _ within List.mem_cons_self
  | tail _ step ih =>
      obtain ⟨f, directives, found, within⟩ := step
      exact closed _ ih f found _ within List.mem_cons_self

end Graphql

section Run

open Compiling

variable {fragments fragments' : Members Fragment} {applies : String → Bool} {l l' : Level}

structure Level.Agrees (fragments fragments' : Members Fragment) (l l' : Level) : Prop extends
    l.Alters (Agree fragments fragments') l' where
  expanded : l.expanded = l'.expanded

theorem Level.add_agrees {s s' : Selection} {run run' : List Selection → Level → Compiling Level}
    {k : Nat} (first : s.Agrees fragments fragments' s') (same : l.Agrees fragments fragments' l')
    (within : ∀ {inner inner' k}, Agree fragments fragments' inner inner' →
      Lockstep (Level.Agrees fragments fragments') (run inner l k) (run' inner' l' k)) :
    Lockstep (Level.Agrees fragments fragments') (add fragments applies run l s k)
      (add fragments' applies run' l' s' k) := by
  have aside {inner inner' : List Selection} (inside : Agree fragments fragments' inner inner')
      (condition : String) : (l.addFragment condition inner).Agrees fragments fragments'
        (l'.addFragment condition inner') :=
    ⟨same.addFragment condition inside, same.expanded⟩
  cases first with
  | @field responseName name _ _ _ _ inner inner' inside =>
      have field : (l.addField ⟨responseName, name, inner⟩).Agrees fragments fragments'
          (l'.addField ⟨responseName, name, inner'⟩) :=
        ⟨same.addField ⟨rfl, rfl, inside⟩, same.expanded⟩
      exact add_field_lockstep field
  | inline inside =>
      exact add_fragment_lockstep same rfl rfl (fun _ => Iff.rfl) (fun _ _ same => same)
        (aside inside) fun _ _ _ => within inside
  | @spread name directives directives' f f' found found' condition inside =>
      have known := Selection.fragment?_spread directives found
      have known' := Selection.fragment?_spread directives' found'
      rw [← condition] at known'
      refine add_fragment_lockstep same known known' (fun _ => ?_) (fun a b same => ?_)
        (aside inside) fun _ _ _ => within inside
      · exact iff_of_eq (congrArg (name ∈ ·) same.expanded)
      · exact ⟨same.mark _ _, congrArg (name :: ·) same.expanded⟩
  | unknown missing missing' =>
      refine Lockstep.bind (lockstep_refl (countSelection k)) fun _ _ _ _ _ => ?_
      simp only [missing, missing']
      exact .error

theorem Level.expand_agrees (levels : Nat) {selections selections' : List Selection} {k : Nat}
    (agree : Agree fragments fragments' selections selections')
    (same : l.Agrees fragments fragments' l') :
    Lockstep (Level.Agrees fragments fragments') (expand fragments applies levels selections l k)
      (expand fragments' applies levels selections' l' k) := by
  -- Whatever is entered from here agrees again, with one level less for a fragment.
  induction levels generalizing selections selections' l l' k with
  | zero => exact .error
  | succ levels within =>
      induction selections generalizing selections' l l' k with
      | nil =>
          obtain rfl : selections' = [] := List.isEmpty_iff.mp agree.isEmpty_eq.symm
          exact .ok same
      | cons s rest ih =>
          obtain ⟨s', rest', rfl, first, others⟩ := agree.cons
          rw [expand_cons, expand_cons]
          exact (add_agrees first same (within · same)).bind fun _ _ _ _ same => ih others same

theorem Scope.selectionShape_agree (c c' : Scope) (tables : c.tables = c'.tables) (levels : Nat)
    {p : Parent} {selections selections' : List Selection} {k : Nat}
    (agree : Agree c.fragments c'.fragments selections selections') :
    Lockstep Eq (c.selectionShape levels p selections k)
      (c'.selectionShape levels p selections' k) := by
  induction levels generalizing p selections selections' k with
  | zero => exact .error
  | succ levels within =>
      rw [selectionShape_succ, selectionShape_succ, ← tables]
      refine (Level.expand_agrees (levels + 1) agree ⟨Level.alters_empty, rfl⟩).bind
        fun l l' k₁ _ same => ?_
      have fields := List.rel_reverse same.fields
      refine (levelShapes_lockstep Agree.isEmpty_eq tables fields ?_).bind
        fun fields fields' k₂ _ shared => ?_
      · intro _ f f' _ _ j _ q _ altered _ _ _ _
        exact within altered.selections
      · cases shared
        have reversed := List.rel_reverse same.fragments
        refine assemble_lockstep reversed fun _ => choices_lockstep tables reversed ?_
        intro _ f f' _ _ j t _ altered _ _
        exact within altered.selections

end Run

namespace Subgraph

/-- Documents whose first operations are of one kind and agree, with the fragments that they lead
to, compile to the same shape at the same count of selections, or with the same error. -/
theorem compileDocument_agree (s : Subgraph) {d d' : Document} {o o' : Operation}
    (first : d.operation? = some o) (first' : d'.operation? = some o') (kind : o.kind = o'.kind)
    (agree : Agree (fragmentsOf d) (fragmentsOf d') o.selections o'.selections) :
    s.compileDocument d = s.compileDocument d' := by
  have operations : Option.Rel (fun o o' : Operation => o.kind = o'.kind ∧
      Agree (fragmentsOf d) (fragmentsOf d') o.selections o'.selections)
      d.operation? d'.operation? := by
    rw [first, first']
    exact .some ⟨kind, agree⟩
  rcases s.compileDocument_of_operations operations with
    ⟨-, -, same⟩ | ⟨p, selections, selections', start, start', agree⟩
  · exact same
  · rw [compileDocument_of_start? start, compileDocument_of_start? start']
    exact (Scope.selectionShape_agree (s.scope d) (s.scope d') rfl (recursionLimit + 1) agree).eq

-- `query { ...Contents }` with `fragment Contents on Query { inner { ...Name } }` and
-- `fragment Name on Query { name }`.
def namedContents : Document :=
  [.operation ⟨.query, none, [], [], [.spread "Contents" []]⟩,
    .fragment ⟨"Contents", "Query", [], [.field none "inner" [] [] [.spread "Name" []]]⟩,
    nameFragment]

-- The same with arguments and directives, with the fragments in another order, and with a fragment
-- and an operation more.
def adornedContents : Document :=
  [.fragment ⟨"Name", "Query", [⟨"short", []⟩],
      [.field none "name" [⟨"upper", .boolean true⟩] [] []]⟩,
    .fragment ⟨"Stray", "Shelf", [], [.spread "Stray" []]⟩,
    .operation ⟨.query, some "Contents", [⟨"deep", .named "Boolean" true, none, []⟩], [],
      [.spread "Contents" [⟨"include", [⟨"if", .variable "deep"⟩]⟩]]⟩,
    .operation ⟨.mutation, some "Move", [], [], [.spread "Stray" []]⟩,
    .fragment ⟨"Contents", "Query", [], [.field none "inner" [⟨"depth", .int "1"⟩] []
      [.spread "Name" [⟨"live", []⟩]]]⟩]

theorem namedContents_agree :
    Agree (fragmentsOf namedContents) (fragmentsOf adornedContents) [.spread "Contents" []]
      [.spread "Contents" [⟨"include", [⟨"if", .variable "deep"⟩]⟩]] := by
  refine ⟨rfl, fun name leads => ?_⟩
  have listed : name ∈ ["Contents", "Name"] := by
    have here : AllWithin (fun s => s.spreads ⊆ ["Contents", "Name"]) [.spread "Contents" []] :=
      allWithin_spread.mpr (by simp [Selection.spreads])
    refine leads.mem here fun known mem f found => ?_
    obtain rfl | rfl : known = "Contents" ∨ known = "Name" := by simpa using mem
    · cases found
      rw [allWithin_field, allWithin_spread]
      simp [Selection.spreads]
    · cases found
      rw [allWithin_field]
      exact ⟨List.nil_subset _, allWithin_nil⟩
  obtain rfl | rfl : name = "Contents" ∨ name = "Name" := by simpa using listed
  · exact .some ⟨rfl, rfl⟩
  · exact .some ⟨rfl, rfl⟩

theorem namedContents_adorned :
    ofDocument folderSchema = .ok folders ∧
    Agree (fragmentsOf namedContents) (fragmentsOf adornedContents) [.spread "Contents" []]
      [.spread "Contents" [⟨"include", [⟨"if", .variable "deep"⟩]⟩]] ∧
    folders.compileDocument namedContents = .ok (innerNameShape, 4) ∧
    folders.compileDocument adornedContents = .ok (innerNameShape, 4) := by
  have same : folders.compileDocument namedContents = folders.compileDocument adornedContents :=
    compileDocument_agree folders rfl rfl rfl namedContents_agree
  have compiled : folders.compileDocument namedContents = .ok (innerNameShape, 4) := rfl
  exact ⟨rfl, namedContents_agree, compiled, same.symm.trans compiled⟩

end Subgraph

end FederatedMock
