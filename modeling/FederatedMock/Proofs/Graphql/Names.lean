import FederatedMock.Proofs.Graphql.Front
import FederatedMock.Proofs.Operation.ResponseKeys
import Mathlib.Data.List.TakeWhile

namespace FederatedMock

namespace Graphql

def IsName (s : String) : Prop :=
  ∃ c cs, s.toList = c :: cs ∧ isNameStart c = true ∧ ∀ d ∈ cs, isNameRest d = true

theorem isName_typenameKey : IsName typenameKey :=
  ⟨'_', ['_', 't', 'y', 'p', 'e', 'n', 'a', 'm', 'e'], rfl, rfl, List.all_eq_true.mp rfl⟩

def Token.Proper : Token → Prop
  | .name s => IsName s
  | _ => True

theorem isNameRest_of_isNameStart {c : Char} (start : isNameStart c = true) :
    isNameRest c = true := by
  unfold isNameStart isNameRest at *
  simp only [Char.isAlphanum, Bool.or_eq_true] at *
  tauto

theorem proper_span {c : Char} (start : isNameStart c = true) (rest : List Char) :
    (Token.name (String.ofList ((c :: rest).span isNameRest).1)).Proper := by
  refine ⟨c, rest.takeWhile isNameRest, ?_, start, ?_⟩
  · simp [List.span_eq_takeWhile_dropWhile, isNameRest_of_isNameStart start]
  · exact fun d mem => List.mem_takeWhile_imp mem

theorem proper_lexString {cs rest : List Char} {t : Token} (read : lexString? cs = some (t, rest)) :
    t.Proper := by
  unfold lexString? at read
  split at read
  all_goals
    obtain ⟨_, -, same⟩ := Option.map_eq_some_iff.mp read
    cases same
    trivial

theorem proper_lexNumber {cs rest : List Char} {t : Token} (read : lexNumber? cs = some (t, rest)) :
    t.Proper := by
  simp only [lexNumber?, Option.bind_eq_bind, Option.bind_eq_some_iff] at read
  obtain ⟨_, -, _, -, _, -, last⟩ := read
  split at last
  · cases last
  · cases last
    split <;> trivial

theorem proper_cons {t : Token} {ts : List Token} (first : t.Proper) (others : ∀ t ∈ ts, t.Proper) :
    ∀ t' ∈ t :: ts, t'.Proper :=
  List.forall_mem_cons.mpr ⟨first, others⟩

theorem proper_lexFrom {fuel : Nat} {acc ts : List Token} {cs : List Char}
    (before : ∀ t ∈ acc, t.Proper) (read : lexFrom fuel acc cs = some ts) : ∀ t ∈ ts, t.Proper := by
  fun_induction lexFrom fuel acc cs with
  | case1 => cases read
  | case2 fuel acc =>
      cases read
      exact fun t mem => before t (List.mem_reverse.mp mem)
  | case3 fuel acc c rest ignored ih => exact ih before read
  | case4 fuel acc rest other ih => exact ih before read
  | case5 fuel acc c rest _ _ punctuator ih => exact ih (proper_cons trivial before) read
  | case6 fuel acc c rest _ _ _ start name after split ih =>
      have proper := proper_span start rest
      rw [split] at proper
      exact ih (proper_cons proper before) read
  | case7 fuel acc rest _ _ _ _ ih => exact ih (proper_cons trivial before) read
  | case8 => cases read
  | case9 fuel acc c rest _ _ _ _ _ token after literal ih =>
      have proper : token.Proper := by
        split at literal
        · exact proper_lexString literal
        · exact proper_lexNumber literal
      exact ih (proper_cons proper before) read
  | case10 => cases read

theorem proper_lex {text : String} {ts : List Token} (read : lex text = some ts) :
    ∀ t ∈ ts, t.Proper :=
  proper_lexFrom (fun _ mem => (List.not_mem_nil mem).elim) read

namespace Parser

variable {α β : Type} {Q : α → Prop} {R : β → Prop}

def Yields (p : Parser α) (Q : α → Prop) : Prop :=
  ∀ ts a rest, (∀ t ∈ ts, t.Proper) → p ts = some (a, rest) → Q a

theorem yields_pure {a : α} (good : Q a) : (pure a : Parser α).Yields Q := by
  intro ts a' rest _ read
  cases read
  exact good

theorem yields_fail : (fail : Parser α).Yields Q :=
  fun _ _ _ _ read => (by cases read)

theorem Yields.bind {p : Parser α} [FromFront p] {f : α → Parser β} (first : p.Yields Q)
    (later : ∀ a, Q a → (f a).Yields R) : (p >>= f).Yields R := by
  intro ts b rest proper read
  obtain ⟨a, after, here, there⟩ := exists_of_bind_eq_some read
  have left := (FromFront.suffix here).subset
  exact later a (first _ _ _ proper here) _ _ _ (fun t mem => proper t (left mem)) there

theorem yields_bind {p : Parser α} [FromFront p] {f : α → Parser β}
    (later : ∀ a, (f a).Yields R) : (p >>= f).Yields R :=
  Yields.bind (Q := fun _ => True) (fun _ _ _ _ _ => trivial) fun a _ => later a

theorem yields_name : name.Yields IsName := by
  intro ts s rest proper read
  unfold name at read
  split at read
  · cases read
    exact proper _ List.mem_cons_self
  · cases read

theorem Yields.untilClose {p : Parser α} [FromFront p] (each : p.Yields Q) (close : Char)
    (fuel : Nat) : (untilClose close p fuel).Yields fun as => ∀ a ∈ as, Q a := by
  induction fuel with
  | zero => exact yields_fail
  | succ fuel ih =>
      intro ts as rest proper read
      simp only [Parser.untilClose] at read
      split at read
      · cases read
      split at read
      · cases read
        exact fun _ mem => (List.not_mem_nil mem).elim
      split at read
      · rename_i here
        have left := (FromFront.suffix here).subset
        split at read
        · rename_i there
          cases read
          exact List.forall_mem_cons.mpr ⟨each _ _ _ proper here,
            ih _ _ _ (fun t mem => proper t (left mem)) there⟩
        · cases read
      · cases read

theorem Yields.between1 {p : Parser α} [FromFront p] (each : p.Yields Q) (opening close : Char) :
    (between1 opening close p).Yields fun as => ∀ a ∈ as, Q a := by
  have all : (between opening close p).Yields fun as => ∀ a ∈ as, Q a :=
    fun ts => yields_bind (fun _ => each.untilClose close _) ts
  refine all.bind fun as good => ?_
  split
  · exact yields_fail
  · exact yields_pure good

def Named (selections : List Selection) : Prop :=
  AllWithin (Selection.KeyIn IsName) selections

section Selections

variable (levels : Nat) {set : Parser (List Selection)} [FromFront set]

theorem yields_spreadOrInline (inside : set.Yields Named) :
    (selection.spreadOrInline levels set).Yields fun s => Named [s] := by
  have inline (condition : Option String) (directives : List Directive)
      (selections : List Selection) (named : Named selections) :
      Named [.inline condition directives selections] :=
    allWithin_inline.mpr ⟨trivial, named⟩
  have spread (fragment : String) (directives : List Directive) :
      Named [.spread fragment directives] := allWithin_spread.mpr trivial
  unfold selection.spreadOrInline
  refine yields_bind fun _ => yields_bind fun next => ?_
  split
  · refine yields_bind fun _ => yields_bind fun condition => yields_bind fun directives => ?_
    exact inside.bind fun selections named => yields_pure (inline _ _ _ named)
  · refine yields_bind fun _ => yields_bind fun directives => ?_
    exact yields_pure (spread _ _)
  · refine yields_bind fun directives => ?_
    exact inside.bind fun selections named => yields_pure (inline _ _ _ named)

theorem yields_field (inside : set.Yields Named) (key : Option String × String)
    (named : IsName (responseKey key.1 key.2)) : Yields (do
      let args ← arguments false levels
      let dirs ← directives false levels
      let selections ← if ← isNext '\x7b' then set else pure []
      return Selection.field key.1 key.2 args dirs selections) fun s => Named [s] := by
  refine yields_bind fun args => yields_bind fun dirs => yields_bind fun nested => ?_
  dsimp only
  split
  · exact inside.bind fun selections all => yields_pure (allWithin_field.mpr ⟨named, all⟩)
  · refine Yields.bind (Q := Named) (yields_pure allWithin_nil) fun selections all => ?_
    exact yields_pure (allWithin_field.mpr ⟨named, all⟩)

theorem yields_selection (inside : set.Yields Named) :
    (selection levels set).Yields fun s => Named [s] := by
  unfold selection
  refine yields_bind fun next => ?_
  split
  · exact yields_spreadOrInline levels inside
  · refine yields_name.bind fun first here => yields_bind fun aliased => ?_
    have finish := yields_field levels inside
    dsimp only
    split
    · refine Yields.bind ?_ finish
      refine yields_bind fun _ => yields_bind fun fieldName => yields_pure here
    · refine Yields.bind ?_ finish
      exact yields_pure here

end Selections

theorem yields_selectionSet (levels : Nat) : (selectionSet levels).Yields Named := by
  induction levels with
  | zero => exact yields_fail
  | succ levels ih =>
      have each := (yields_selection levels ih).between1 '\x7b' '\x7d'
      exact fun ts a rest proper read => allWithin_iff_forall_mem.mpr (each ts a rest proper read)

def NamedIn : Definition → Prop
  | .operation o => Named o.selections
  | .fragment f => Named f.selections
  | _ => True

theorem yields_operation (kind : OperationKind) :
    (operation kind).Yields fun o => Named o.selections := by
  unfold operation
  have finish (label : Option String) : Yields (do
      let defined ← optionalBetween1 '(' ')' variableDefinition
      let dirs ← directives false maxLevels
      return (⟨kind, label, defined, dirs, ← selectionSet maxLevels⟩ : Operation))
      fun o => Named o.selections := by
    refine yields_bind fun defined => yields_bind fun dirs => ?_
    exact (yields_selectionSet maxLevels).bind fun selections named => yields_pure named
  refine yields_bind fun next => ?_
  dsimp only
  split
  · exact yields_bind fun _ => yields_bind finish
  · exact yields_bind finish

theorem yields_fragment : fragment.Yields fun f => Named f.selections := by
  unfold fragment
  refine yields_bind fun label => ?_
  split
  · exact yields_fail
  · refine yields_bind fun _ => yields_bind fun condition => yields_bind fun directives => ?_
    exact (yields_selectionSet maxLevels).bind fun selections named => yields_pure named

theorem yields_typeSystem (extension : Bool) (text : Option String) :
    (typeSystem extension text).Yields NamedIn := by
  unfold typeSystem
  refine yields_bind fun word => ?_
  split
  case h_8 =>
    split
    · exact yields_fail
    · exact yields_bind fun _ => yields_pure trivial
  case h_9 => exact yields_fail
  all_goals exact yields_bind fun _ => yields_pure trivial

theorem yields_definition : definition.Yields NamedIn := by
  unfold definition
  refine yields_bind fun text => ?_
  split
  · exact yields_typeSystem false _
  · refine yields_bind fun next => ?_
    split
    · exact (yields_selectionSet maxLevels).bind fun selections named => yields_pure named
    · split
      · refine yields_bind fun _ => ?_
        exact (yields_operation _).bind fun o named => yields_pure named
      · split
        · refine yields_bind fun _ => ?_
          exact yields_fragment.bind fun f named => yields_pure named
        · split
          · exact yields_bind fun _ => yields_typeSystem true none
          · exact yields_typeSystem false none
    · exact yields_fail

theorem Yields.definitions {Q : Definition → Prop} (each : definition.Yields Q) {fuel : Nat}
    {ts : List Token} {d : Document} (proper : ∀ t ∈ ts, t.Proper)
    (read : Parser.definitions fuel ts = some d) : ∀ x ∈ d, Q x := by
  fun_induction Parser.definitions fuel ts generalizing d with
  | case1 =>
      cases read
      exact fun _ mem => (List.not_mem_nil mem).elim
  | case2 => cases read
  | case3 fuel ts _ x rest here ih =>
      obtain ⟨later, there, rfl⟩ := Option.map_eq_some_iff.mp read
      have left := (FromFront.suffix here).subset
      exact List.forall_mem_cons.mpr ⟨each _ _ _ proper here,
        ih (fun t mem => proper t (left mem)) there⟩
  | case4 => cases read

end Parser

theorem forall_mem_of_parse {Q : Definition → Prop} (each : Parser.definition.Yields Q)
    {text : String} {d : Document} (parsed : Document.parse? text = some d) : ∀ x ∈ d, Q x := by
  unfold Document.parse? at parsed
  split at parsed
  · rename_i ts cut
    split at parsed
    · cases parsed
    · exact each.definitions (proper_lex cut) parsed
  · cases parsed

theorem isName_of_parse {text : String} {d : Document} (parsed : Document.parse? text = some d) :
    ∀ s, d.Has s → s.KeyIn IsName := by
  have named := forall_mem_of_parse Parser.yields_definition parsed
  exact Document.forall_has_iff.mpr ⟨fun o mem => named _ mem, fun f mem => named _ mem⟩

end Graphql

namespace Subgraph

theorem compile_keysIn {s : Subgraph} {operation : String} {v : Shape}
    (compiled : s.compile operation = .ok v) : v.Everywhere (Shape.KeysIn Graphql.IsName) := by
  obtain ⟨d, visits, parsed, compiled⟩ := compile_eq_ok compiled
  exact compileDocument_keysIn Graphql.isName_typenameKey (Graphql.isName_of_parse parsed) compiled

end Subgraph

end FederatedMock
