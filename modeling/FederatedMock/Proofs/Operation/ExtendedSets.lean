import FederatedMock.Proofs.Operation.Typenames

namespace FederatedMock.Graphql

theorem rel_map {α β γ δ : Type} {r : α → β → Prop} {r' : γ → δ → Prop} {f : α → γ} {g : β → δ}
    {x : Option α} {y : Option β} (related : Option.Rel r x y)
    (step : ∀ a b, r a b → r' (f a) (g b)) : Option.Rel r' (x.map f) (y.map g) := by
  cases related with
  | none => exact .none
  | some related => exact .some (step _ _ related)

theorem map_eq_map_of_rel {α β γ : Type} {r : α → β → Prop} {f : β → γ} {x : Option α}
    {y z : Option β} (left : Option.Rel r x y) (right : Option.Rel r x z)
    (same : ∀ a b c, r a b → r a c → f b = f c) : y.map f = z.map f := by
  cases left with
  | none =>
      cases right
      rfl
  | some left =>
      cases right with
      | some right => exact congrArg some (same _ _ _ left right)

namespace Selection

def head : Selection → Selection
  | .field alias? name arguments directives _ => .field alias? name arguments directives []
  | .inline condition directives _ => .inline condition directives []
  | .spread name directives => .spread name directives

def set? : Selection → Option (List Selection)
  | .field _ _ _ _ selections => if selections.isEmpty then none else some selections
  | .inline _ _ selections => some selections
  | .spread _ _ => none

structure Reached where
  owners : List Selection
  set : List Selection

def Reached.within (owner : Selection) (r : Reached) : Reached :=
  ⟨owner :: r.owners, r.set⟩

def follow? (set : List Selection) : List Nat → Option Reached
  | [] => some ⟨[], set⟩
  | i :: path => do
    let owner ← set[i]?
    let inner ← owner.set?
    return (← follow? inner path).within owner

def headsAt? (set : List Selection) (path : List Nat) : Option (List Selection) :=
  (follow? set path).map fun r => r.set.map head

variable {set inner : List Selection} {owner : Selection} {i : Nat}

theorem follow?_cons (found : set[i]? = some owner) (within : owner.set? = some inner)
    (path : List Nat) : follow? set (i :: path) = (follow? inner path).map (.within owner) := by
  simp only [follow?, found, within, Option.bind_eq_bind, Option.bind_some]
  cases follow? inner path <;> rfl

theorem follow?_of_no_selection (none : set[i]? = none) (path : List Nat) :
    follow? set (i :: path) = .none := by
  simp only [follow?, none, Option.bind_eq_bind, Option.bind_none]

theorem follow?_of_no_set (found : set[i]? = some owner) (none : owner.set? = none)
    (path : List Nat) : follow? set (i :: path) = .none := by
  simp only [follow?, found, none, Option.bind_eq_bind, Option.bind_some, Option.bind_none]

theorem headsAt?_zero (s : Selection) (rest : List Selection) (path : List Nat) :
    headsAt? (s :: rest) (0 :: path) = s.set?.bind fun inner => headsAt? inner path := by
  cases within : s.set? with
  | none =>
      rw [headsAt?, follow?_of_no_set List.getElem?_cons_zero within, Option.map_none,
        Option.bind_none]
  | some inner =>
      rw [headsAt?, follow?_cons List.getElem?_cons_zero within, Option.map_map, Option.bind_some]
      rfl

mutual

theorem eq_of_head_eq : ∀ {s t : Selection}, s.head = t.head →
    (∀ path, (s.set?.bind fun inner => headsAt? inner path) =
      t.set?.bind fun inner => headsAt? inner path) → s = t
  | .field alias? name arguments directives inner, t, heads, within => by
      cases t with
      | field alias' name' arguments' directives' inner' =>
          cases heads
          cases inner with
          | nil =>
              cases inner' with
              | nil => rfl
              | cons s' rest' => cases within []
          | cons s rest =>
              cases inner' with
              | nil => cases within []
              | cons s' rest' => rw [eq_of_headsAt?_eq within]
      | inline => cases heads
      | spread => cases heads
  | .inline condition directives inner, t, heads, within => by
      cases t with
      | field => cases heads
      | inline condition' directives' inner' =>
          cases heads
          rw [eq_of_headsAt?_eq within]
      | spread => cases heads
  | .spread name directives, t, heads, _ => by
      cases t with
      | field => cases heads
      | inline => cases heads
      | spread => exact heads

theorem eq_of_headsAt?_eq : ∀ {set other : List Selection},
    (∀ path, headsAt? set path = headsAt? other path) → set = other
  | [], other, same => by
      cases other with
      | nil => rfl
      | cons t later => cases same []
  | s :: rest, other, same => by
      cases other with
      | nil => cases same []
      | cons t later =>
          obtain ⟨first, others⟩ := List.cons.inj (Option.some.inj (same []))
          have here : s = t := eq_of_head_eq first fun path => by
            rw [← headsAt?_zero s rest, same, headsAt?_zero]
          have there : rest = later := eq_of_headsAt?_eq fun
            | [] => congrArg some others
            | i :: path => same ((i + 1) :: path)
          rw [here, there]

end

def IsTypename : Selection → Prop
  | .field _ name _ _ _ => name = typenameKey
  | _ => False

def MayGain : Selection → Prop
  | .field _ _ _ directives _ => ∀ d ∈ directives, d.name ≠ exportDirective
  | .inline _ _ _ => True
  | .spread _ _ => False

def SelectsMeta (set : List Selection) : Prop :=
  ∃ alias? name arguments directives inner,
    .field alias? name arguments directives inner ∈ set ∧ ['_', '_'] <+: name.toList

/-- A set gains the type name if the innermost of the selections entered to reach it allows that
(or its definition, if none is entered), none of them is a type name, and the set selects no meta
field yet. -/
structure Reached.Gains (start : Prop) (r : Reached) : Prop where
  belongs : r.owners.getLast?.elim start MayGain
  outside : ∀ owner ∈ r.owners, ¬ owner.IsTypename
  plain : ¬ SelectsMeta r.set

structure Reached.ExtendsTo (start : Prop) (r more : Reached) : Prop where
  appended : r.Gains start → more.set.map head = r.set.map head ++ [typenameSelection]
  kept : ¬ r.Gains start → more.set.map head = r.set.map head

/-- The same positions lead to sets in both, and these differ by what the sets of the first gain. -/
def ExtendsTo (start : Prop) (set more : List Selection) : Prop :=
  ∀ path, Option.Rel (Reached.ExtendsTo start) (follow? set path) (follow? more path)

end Selection

namespace Definition

def head : Definition → Definition
  | .operation o => .operation { o with selections := [] }
  | .fragment f => .fragment { f with selections := [] }
  | d => d

def set? : Definition → Option (List Selection)
  | .operation o => some o.selections
  | .fragment f => some f.selections
  | _ => none

def IsFragment : Definition → Prop
  | .fragment _ => True
  | _ => False

structure ExtendsTo (x more : Definition) : Prop where
  head : more.head = x.head
  sets : Option.Rel (Selection.ExtendsTo x.IsFragment) x.set? more.set?

end Definition

namespace Selection

variable {start : Prop} {set more inner : List Selection} {s owner : Selection}

theorem isReserved_iff {name : String} : isReserved name ↔ ['_', '_'] <+: name.toList := by
  rw [isReserved, beq_iff_eq, List.prefix_iff_eq_take, eq_comm]
  rfl

theorem selectsReserved_iff : selectsReserved set ↔ SelectsMeta set := by
  simp only [selectsReserved, List.any_eq_true, SelectsMeta]
  constructor
  · rintro ⟨s, mem, reserved⟩
    cases s with
    | field alias? name arguments directives inner =>
        exact ⟨_, _, _, _, _, mem, isReserved_iff.mp reserved⟩
    | inline => cases reserved
    | spread => cases reserved
  · rintro ⟨alias?, name, arguments, directives, inner, mem, reserved⟩
    exact ⟨_, mem, isReserved_iff.mpr reserved⟩

theorem mayGain_field_iff {alias? : Option String} {name : String} {arguments : List Argument}
    {directives : List Directive} {inner : List Selection} :
    (Selection.field alias? name arguments directives inner).MayGain ↔
      ¬ isExported directives := by
  simp [MayGain, isExported]

theorem head_addTypename (s : Selection) : s.addTypename.head = s.head := by
  cases s with
  | field alias? name arguments directives inner =>
      obtain ⟨more, same, -⟩ := addTypename_field alias? name arguments directives inner
      rw [same]
      rfl
  | inline => rfl
  | spread => rfl

theorem addTypenames_eq_map (set : List Selection) : addTypenames set = set.map addTypename := by
  induction set with
  | nil => rfl
  | cons s rest ih => rw [addTypenames, ih, List.map_cons]

theorem map_head_addTypenames (set : List Selection) :
    (addTypenames set).map head = set.map head := by
  rw [addTypenames_eq_map, List.map_map]
  exact List.map_congr_left fun s _ => head_addTypename s

structure Grows (start : Prop) (set more : List Selection) : Prop where
  appended : start → ¬ SelectsMeta set → more = addTypenames set ++ [typenameSelection]
  kept : ¬ (start ∧ ¬ SelectsMeta set) → more = addTypenames set

theorem grows_addTypenames (not : ¬ start) (set : List Selection) :
    Grows start set (addTypenames set) :=
  ⟨fun may => (not may).elim, fun _ => rfl⟩

theorem grows_extend (may : start) (set : List Selection) :
    Grows start set (extend set (addTypenames set)) where
  appended _ plain := if_neg fun reserved => plain (selectsReserved_iff.mp reserved)
  kept bars := if_pos (selectsReserved_iff.mpr (by_contra fun plain => bars ⟨may, plain⟩))

theorem Grows.addsTypename (grows : Grows start set more) : AddsTypename set more := by
  by_cases gains : start ∧ ¬ SelectsMeta set
  · exact ⟨_, .inr rfl, grows.appended gains.1 gains.2⟩
  · rw [grows.kept gains]
    exact addsTypename_addTypenames set

theorem Grows.here (grows : Grows start set more) (owners : List Selection) :
    Reached.ExtendsTo start ⟨[], set⟩ ⟨owners, more⟩ where
  appended gains := by
    rw [grows.appended gains.belongs gains.plain, List.map_append, map_head_addTypenames]
    rfl
  kept not := by
    have bars : ¬ (start ∧ ¬ SelectsMeta set) := fun gains =>
      not ⟨gains.1, List.forall_mem_nil _, gains.2⟩
    rw [grows.kept bars, map_head_addTypenames]

theorem set?_addTypename_of_none (none : s.set? = none) : s.addTypename.set? = .none := by
  cases s with
  | field alias? name arguments directives inner =>
      cases inner with
      | nil =>
          rw [addTypename, if_pos (.inl rfl)]
          rfl
      | cons => cases none
  | inline => cases none
  | spread => rfl

theorem addTypename_of_isTypename (typename : s.IsTypename) : s.addTypename = s := by
  cases s with
  | field => exact if_pos (.inr typename)
  | inline => exact typename.elim
  | spread => exact typename.elim

theorem set?_field_iff {alias? : Option String} {name : String} {arguments : List Argument}
    {directives : List Directive} : (Selection.field alias? name arguments directives set).set? =
      some inner ↔ set = inner ∧ set ≠ [] := by
  rw [set?]
  split
  · rename_i empty
    exact ⟨fun found => (by cases found), fun found => (found.2 (List.isEmpty_iff.mp empty)).elim⟩
  · rename_i filled
    exact ⟨fun found => ⟨Option.some.inj found, fun nil => filled (List.isEmpty_iff.mpr nil)⟩,
      fun found => congrArg some found.1⟩

theorem grows_field (alias? : Option String) (name : String) (arguments : List Argument)
    (directives : List Directive) (set : List Selection) :
    Grows (Selection.field alias? name arguments directives set).MayGain set
      (if isExported directives then addTypenames set else extend set (addTypenames set)) := by
  split
  · rename_i exported
    exact grows_addTypenames (fun may => mayGain_field_iff.mp may exported) set
  · rename_i plain
    exact grows_extend (mayGain_field_iff.mpr plain) set

theorem addTypename_of_filled {alias? : Option String} {name : String} {arguments : List Argument}
    {directives : List Directive} (filled : set ≠ []) (other : name ≠ typenameKey) :
    (Selection.field alias? name arguments directives set).addTypename =
      .field alias? name arguments directives
        (if isExported directives then addTypenames set else extend set (addTypenames set)) := by
  have entered : ¬ (set.isEmpty ∨ name = typenameKey) :=
    not_or.mpr ⟨fun empty => filled (List.isEmpty_iff.mp empty), other⟩
  rw [addTypename, if_neg entered]
  split <;> rfl

theorem set?_addTypename (within : owner.set? = some inner) (other : ¬ owner.IsTypename) :
    ∃ more, owner.addTypename.set? = some more ∧ Grows owner.MayGain inner more := by
  cases owner with
  | field alias? name arguments directives selections =>
      obtain ⟨rfl, filled⟩ := set?_field_iff.mp within
      have grows := grows_field alias? name arguments directives selections
      rw [addTypename_of_filled filled other]
      exact ⟨_, set?_field_iff.mpr ⟨rfl, grows.addsTypename.ne_nil filled⟩, grows⟩
  | inline =>
      cases within
      exact ⟨_, rfl, grows_extend trivial inner⟩
  | spread => cases within

theorem gains_within {r : Reached} :
    (r.within owner).Gains start ↔ ¬ owner.IsTypename ∧ r.Gains owner.MayGain := by
  have last : (owner :: r.owners).getLast?.elim start MayGain =
      r.owners.getLast?.elim owner.MayGain MayGain := by
    rw [List.getLast?_cons]
    cases r.owners.getLast? <;> rfl
  constructor
  · intro gains
    obtain ⟨first, others⟩ := List.forall_mem_cons.mp gains.outside
    exact ⟨first, last ▸ gains.belongs, others, gains.plain⟩
  · rintro ⟨first, gains⟩
    exact ⟨last ▸ gains.belongs, List.forall_mem_cons.mpr ⟨first, gains.outside⟩, gains.plain⟩

theorem Reached.ExtendsTo.within {r more : Reached} (extended : r.ExtendsTo owner.MayGain more)
    (other : ¬ owner.IsTypename) (owner' : Selection) :
    (r.within owner).ExtendsTo start (more.within owner') where
  appended gains := extended.appended (gains_within.mp gains).2
  kept not := extended.kept fun gains => not (gains_within.mpr ⟨other, gains⟩)

theorem extendsTo_within_typename (typename : owner.IsTypename) (r : Reached) :
    (r.within owner).ExtendsTo start (r.within owner) :=
  ⟨fun gains => ((gains_within.mp gains).1 typename).elim, fun _ => rfl⟩

theorem follow?_append_typename (set : List Selection) (i : Nat) (path : List Nat) :
    follow? (set ++ [typenameSelection]) (i :: path) = follow? set (i :: path) := by
  rcases Nat.lt_or_ge i set.length with before | past
  · simp only [follow?, List.getElem?_append_left before]
  · rw [follow?_of_no_selection (List.getElem?_eq_none past)]
    cases found : (set ++ [typenameSelection])[i]? with
    | none => exact follow?_of_no_selection found path
    | some t =>
        have last : t = typenameSelection := by
          rw [List.getElem?_append_right past] at found
          exact List.mem_singleton.mp (List.mem_of_getElem? found)
        -- What is appended has no set to enter.
        exact follow?_of_no_set (last ▸ found) rfl path

theorem Grows.follow?_cons (grows : Grows start set more) (i : Nat) (path : List Nat) :
    follow? more (i :: path) = follow? (addTypenames set) (i :: path) := by
  obtain ⟨extra, rfl | rfl, rfl⟩ := grows.addsTypename
  · rw [List.append_nil]
  · exact follow?_append_typename _ i path

theorem Grows.extendsTo (grows : Grows start set more) : ExtendsTo start set more := by
  intro path
  -- What is entered by the first position grows by the rule of its owner, unless that is a type
  -- name: then it stays, and nothing below it gains anything either.
  induction path generalizing start set more with
  | nil => exact .some (grows.here [])
  | cons i path ih =>
      have rewritten : (addTypenames set)[i]? = set[i]?.map addTypename := by
        rw [addTypenames_eq_map, List.getElem?_map]
      rw [grows.follow?_cons]
      cases found : set[i]? with
      | none =>
          rw [found] at rewritten
          rw [follow?_of_no_selection found, follow?_of_no_selection rewritten]
          exact .none
      | some owner =>
          rw [found] at rewritten
          cases within : owner.set? with
          | none =>
              have within' := set?_addTypename_of_none within
              rw [follow?_of_no_set found within, follow?_of_no_set rewritten within']
              exact .none
          | some inner =>
              by_cases typename : owner.IsTypename
              · rw [Option.map_some, addTypename_of_isTypename typename] at rewritten
                rw [Selection.follow?_cons found within, Selection.follow?_cons rewritten within]
                cases follow? inner path with
                | none => exact .none
                | some r => exact .some (extendsTo_within_typename typename r)
              · obtain ⟨inner', within', grows'⟩ := set?_addTypename within typename
                rw [Selection.follow?_cons found within, Selection.follow?_cons rewritten within']
                exact rel_map (ih grows') fun r r' extended => extended.within typename _

theorem Reached.ExtendsTo.heads_eq {r more other : Reached} (extended : r.ExtendsTo start more)
    (extended' : r.ExtendsTo start other) : more.set.map head = other.set.map head := by
  by_cases gains : r.Gains start
  · rw [extended.appended gains, extended'.appended gains]
  · rw [extended.kept gains, extended'.kept gains]

theorem ExtendsTo.unique {other : List Selection} (extended : ExtendsTo start set more)
    (extended' : ExtendsTo start set other) : more = other :=
  eq_of_headsAt?_eq fun path => map_eq_map_of_rel (extended path) (extended' path)
    fun _ _ _ one two => one.heads_eq two

end Selection

namespace Definition

theorem eq_of_head_eq {x y : Definition} (heads : x.head = y.head) (sets : x.set? = y.set?) :
    x = y := by
  cases x with
  | operation o =>
      cases y with
      | operation o' =>
          obtain ⟨_, _, _, _, _⟩ := o
          obtain ⟨_, _, _, _, _⟩ := o'
          cases heads
          cases sets
          rfl
      | _ => cases heads
  | fragment f =>
      cases y with
      | fragment f' =>
          obtain ⟨_, _, _, _⟩ := f
          obtain ⟨_, _, _, _⟩ := f'
          cases heads
          cases sets
          rfl
      | _ => cases heads
  | _ =>
      cases y with
      | operation => cases heads
      | fragment => cases heads
      | _ => exact heads

theorem extendsTo_addTypename (x : Definition) : x.ExtendsTo x.addTypename := by
  cases x with
  | operation o =>
      exact ⟨rfl, .some (Selection.grows_addTypenames not_false o.selections).extendsTo⟩
  | fragment f => exact ⟨rfl, .some (Selection.grows_extend trivial f.selections).extendsTo⟩
  | _ => exact ⟨rfl, .none⟩

theorem ExtendsTo.unique {x more other : Definition} (extended : x.ExtendsTo more)
    (extended' : x.ExtendsTo other) : more = other := by
  refine eq_of_head_eq (extended.head.trans extended'.head.symm) ?_
  have sets := map_eq_map_of_rel (f := id) extended.sets extended'.sets
    fun _ _ _ one two => one.unique two
  simpa using sets

end Definition

namespace Selection

variable {set : List Selection}

theorem selectsReserved_map_head (set : List Selection) :
    selectsReserved (set.map head) = selectsReserved set := by
  rw [selectsReserved, selectsReserved, List.any_map]
  congr 1
  funext s
  cases s <;> rfl

theorem selectsReserved_addTypenames (set : List Selection) :
    selectsReserved (addTypenames set) = selectsReserved set := by
  rw [← selectsReserved_map_head, map_head_addTypenames, selectsReserved_map_head]

theorem selectsReserved_extend (set : List Selection) :
    selectsReserved (extend set (addTypenames set)) := by
  rw [extend]
  split
  · rename_i reserved
    rwa [selectsReserved_addTypenames]
  · rw [selectsReserved, List.any_append]
    exact Bool.or_eq_true_iff.mpr (.inr (by decide))

theorem addTypenames_extend (same : addTypenames (addTypenames set) = addTypenames set) :
    addTypenames (extend set (addTypenames set)) = extend set (addTypenames set) := by
  rw [extend]
  split
  · exact same
  · rw [addTypenames_eq_map, List.map_append, ← addTypenames_eq_map, same]
    rfl

theorem extend_extend (same : addTypenames (addTypenames set) = addTypenames set) :
    extend (extend set (addTypenames set)) (addTypenames (extend set (addTypenames set))) =
      extend set (addTypenames set) := by
  rw [extend, if_pos (selectsReserved_extend set), addTypenames_extend same]

mutual

theorem addTypename_addTypename : ∀ s : Selection, s.addTypename.addTypename = s.addTypename
  | .field alias? name arguments directives selections => by
      have again := addTypenames_addTypenames selections
      by_cases typename : name = typenameKey
      · have same : (Selection.field alias? name arguments directives selections).addTypename =
            .field alias? name arguments directives selections := if_pos (.inr typename)
        rw [same, same]
      · by_cases empty : selections = []
        · subst empty
          rfl
        · have grows := grows_field alias? name arguments directives selections
          have filled := grows.addsTypename.ne_nil empty
          rw [addTypename_of_filled empty typename, addTypename_of_filled filled typename]
          congr 1
          split
          · exact again
          · exact extend_extend again
  | .inline condition directives selections =>
      congrArg (Selection.inline condition directives)
        (extend_extend (addTypenames_addTypenames selections))
  | .spread _ _ => rfl

theorem addTypenames_addTypenames :
    ∀ set : List Selection, addTypenames (addTypenames set) = addTypenames set
  | [] => rfl
  | s :: rest => by
      rw [addTypenames, addTypenames, addTypename_addTypename s, addTypenames_addTypenames rest]

end

end Selection

theorem Definition.addTypename_addTypename (x : Definition) :
    x.addTypename.addTypename = x.addTypename := by
  cases x with
  | operation o =>
      exact congrArg (fun set => Definition.operation { o with selections := set })
        (Selection.addTypenames_addTypenames o.selections)
  | fragment f =>
      exact congrArg (fun set => Definition.fragment { f with selections := set })
        (Selection.extend_extend (Selection.addTypenames_addTypenames f.selections))
  | _ => rfl

theorem Document.extendsTo_addTypename (d : Document) :
    List.Forall₂ Definition.ExtendsTo d d.addTypename :=
  List.forall₂_map_right_iff.mpr
    (List.forall₂_same.mpr fun x _ => Definition.extendsTo_addTypename x)

/-- The type name is appended to the sets that gain it and nothing else is changed. In particular
the sets of operations select what they did, and the second time nothing is appended. -/
theorem Document.addTypename_exact (d : Document) :
    (∀ more, List.Forall₂ Definition.ExtendsTo d more ↔ more = d.addTypename) ∧
      (∀ (i : Nat) (o : Operation), d[i]? = some (.operation o) →
        ∃ o' : Operation, d.addTypename[i]? = some (.operation o') ∧
          o'.selections.map Selection.head = o.selections.map Selection.head) ∧
      d.addTypename.addTypename = d.addTypename := by
  refine ⟨fun more => ⟨fun extended => ?_, ?_⟩, fun i o listed => ?_, ?_⟩
  · have unique : Relator.RightUnique Definition.ExtendsTo := fun _ _ _ one two => one.unique two
    exact List.right_unique_forall₂' unique extended d.extendsTo_addTypename
  · rintro rfl
    exact d.extendsTo_addTypename
  · refine ⟨{ o with selections := Selection.addTypenames o.selections }, ?_,
      Selection.map_head_addTypenames o.selections⟩
    rw [addTypename, List.getElem?_map, listed]
    rfl
  · rw [addTypename, addTypename, List.map_map]
    exact List.map_congr_left fun x _ => x.addTypename_addTypename

example :
    (Selection.field none "author" [] [⟨"export", []⟩]
      [.field none "publisher" [] [] [.spread "Address" []]]).addTypename =
    .field none "author" [] [⟨"export", []⟩]
      [.field none "publisher" [] [] [.spread "Address" [], typenameSelection]] := rfl

end FederatedMock.Graphql
