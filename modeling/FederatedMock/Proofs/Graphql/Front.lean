import FederatedMock.Graphql.Parser
import Mathlib.Data.List.Infix

namespace FederatedMock.Graphql

namespace Parser

variable {α β : Type}

class FromFront (p : Parser α) : Prop where
  suffix {ts : List Token} {a : α} {rest : List Token} : p ts = some (a, rest) → rest <:+ ts

theorem exists_of_bind_eq_some {p : Parser α} {f : α → Parser β} {ts rest : List Token} {b : β}
    (read : (p >>= f) ts = some (b, rest)) :
    ∃ a after, p ts = some (a, after) ∧ f a after = some (b, rest) := by
  change Parser.bind p f ts = some (b, rest) at read
  unfold Parser.bind at read
  split at read
  · exact ⟨_, _, ‹_›, read⟩
  · cases read

instance fromFront_bind {p : Parser α} {f : α → Parser β} [first : FromFront p]
    [later : ∀ a, FromFront (f a)] : FromFront (p >>= f) where
  suffix read := by
    obtain ⟨a, after, here, there⟩ := exists_of_bind_eq_some read
    exact ((later a).suffix there).trans (first.suffix here)

instance fromFront_pure {a : α} : FromFront (pure a : Parser α) where
  suffix read := by
    cases read
    exact List.suffix_rfl

instance fromFront_ok {a : α} : FromFront (ok a) := fromFront_pure

instance fromFront_fail : FromFront (fail : Parser α) where
  suffix read := nomatch read

instance fromFront_ite {c : Prop} [Decidable c] {p q : Parser α} [yes : FromFront p]
    [no : FromFront q] : FromFront (if c then p else q) := by
  split
  · exact yes
  · exact no

instance fromFront_peek : FromFront peek where
  suffix read := by
    cases read
    exact List.suffix_rfl

instance fromFront_isNext (c : Char) : FromFront (isNext c) where
  suffix read := by
    cases read
    exact List.suffix_rfl

instance fromFront_isNextName (s : String) : FromFront (isNextName s) where
  suffix read := by
    cases read
    exact List.suffix_rfl

instance fromFront_name : FromFront name where
  suffix read := by
    unfold name at read
    split at read
    · cases read
      exact List.suffix_cons _ _
    · cases read

instance fromFront_expect (c : Char) : FromFront (expect c) where
  suffix read := by
    unfold expect at read
    split at read
    · split at read
      · cases read
        exact List.suffix_cons _ _
      · cases read
    · cases read

instance fromFront_keyword (s : String) : FromFront (keyword s) where
  suffix read := by
    unfold keyword at read
    split at read
    · split at read
      · cases read
        exact List.suffix_cons _ _
      · cases read
    · cases read

instance fromFront_skip (c : Char) : FromFront (skip c) where
  suffix read := by
    unfold skip at read
    split at read
    · split at read
      · cases read
        exact List.suffix_cons _ _
      · cases read
        exact List.suffix_rfl
    · cases read
      exact List.suffix_rfl

instance fromFront_description : FromFront description where
  suffix read := by
    unfold description at read
    split at read
    · cases read
      exact List.suffix_cons _ _
    · cases read
      exact List.suffix_rfl

instance fromFront_untilClose {p : Parser α} [FromFront p] (close : Char) (fuel : Nat) :
    FromFront (untilClose close p fuel) := by
  induction fuel with
  | zero => exact fromFront_fail
  | succ fuel ih =>
      constructor
      intro ts as rest read
      simp only [untilClose] at read
      split at read
      · cases read
      split at read
      · cases read
        exact List.suffix_cons _ _
      split at read
      · rename_i here
        split at read
        · rename_i there
          cases read
          exact (ih.suffix there).trans (FromFront.suffix here)
        · cases read
      · cases read

instance fromFront_between {p : Parser α} [FromFront p] (opening close : Char) :
    FromFront (between opening close p) where
  suffix {ts} _ _ read :=
    FromFront.suffix (p := do expect opening; untilClose close p (ts.length + 1)) read

instance fromFront_between1 {p : Parser α} [FromFront p] (opening close : Char) :
    FromFront (between1 opening close p) := by
  refine @fromFront_bind _ _ _ _ inferInstance fun as => ?_
  split <;> infer_instance

instance fromFront_optionalBetween1 {p : Parser α} [FromFront p] (opening close : Char) :
    FromFront (optionalBetween1 opening close p) := by
  unfold optionalBetween1
  infer_instance

instance fromFront_eachAfter {p : Parser α} [FromFront p] (mark : Char) (fuel : Nat) :
    FromFront (eachAfter mark p fuel) := by
  induction fuel with
  | zero => exact fromFront_ok
  | succ fuel ih =>
      unfold eachAfter
      infer_instance

instance fromFront_separated1 {p : Parser α} [FromFront p] (mark : Char) :
    FromFront (separated1 mark p) where
  suffix {ts} _ _ read :=
    FromFront.suffix (p := do
      skip mark
      let a ← p
      let as ← eachAfter mark p ts.length
      return a :: as) read

theorem fromFront_valueWith (constant : Bool) {nested : Parser Value} [FromFront nested] :
    FromFront (valueWith constant nested) where
  suffix read := by
    unfold valueWith at read
    split at read
    · cases read
      exact List.suffix_cons _ _
    · cases read
      exact List.suffix_cons _ _
    · cases read
      exact List.suffix_cons _ _
    · cases read
      exact List.suffix_cons _ _
    · split at read
      · cases read
      · cases read
        exact (List.suffix_cons _ _).trans (List.suffix_cons _ _)
    · obtain ⟨_, inside, same⟩ := Option.map_eq_some_iff.mp read
      cases same
      exact FromFront.suffix inside
    · obtain ⟨_, inside, same⟩ := Option.map_eq_some_iff.mp read
      cases same
      exact FromFront.suffix inside
    · cases read

instance fromFront_value (constant : Bool) (levels : Nat) : FromFront (value constant levels) := by
  induction levels with
  | zero => exact fromFront_valueWith constant
  | succ levels ih => exact fromFront_valueWith constant

instance fromFront_nonNullMark : FromFront nonNullMark := by
  unfold nonNullMark
  infer_instance

theorem fromFront_typeRefWith {nested : Parser TypeRef} [FromFront nested] :
    FromFront (typeRefWith nested) := by
  unfold typeRefWith
  infer_instance

instance fromFront_typeRef (levels : Nat) : FromFront (typeRef levels) := by
  induction levels with
  | zero => exact fromFront_typeRefWith
  | succ levels ih => exact fromFront_typeRefWith

instance fromFront_argument (constant : Bool) (levels : Nat) :
    FromFront (argument constant levels) := by
  unfold argument
  infer_instance

instance fromFront_arguments (constant : Bool) (levels : Nat) :
    FromFront (arguments constant levels) := by
  unfold arguments
  infer_instance

instance fromFront_directives (constant : Bool) (levels : Nat) :
    FromFront (directives constant levels) where
  suffix {ts} _ _ read := (fromFront_eachAfter '@' ts.length).suffix read

instance fromFront_dropFirst : FromFront (fun ts : List Token => some ((), ts.drop 1)) where
  suffix read := by
    cases read
    exact List.drop_suffix 1 _

instance fromFront_spreadOrInline (levels : Nat) {set : Parser (List Selection)} [FromFront set] :
    FromFront (selection.spreadOrInline levels set) := by
  unfold selection.spreadOrInline
  refine @fromFront_bind _ _ _ _ inferInstance fun _ => ?_
  refine @fromFront_bind _ _ _ _ inferInstance fun next => ?_
  split <;> infer_instance

instance fromFront_selection (levels : Nat) {set : Parser (List Selection)} [FromFront set] :
    FromFront (selection levels set) := by
  unfold selection
  refine @fromFront_bind _ _ _ _ inferInstance fun next => ?_
  split
  · infer_instance
  · refine @fromFront_bind _ _ _ _ inferInstance fun first => ?_
    refine @fromFront_bind _ _ _ _ inferInstance fun aliased => ?_
    dsimp only
    split <;> infer_instance

instance fromFront_selectionSet (levels : Nat) : FromFront (selectionSet levels) := by
  induction levels with
  | zero => exact fromFront_fail
  | succ levels ih =>
      unfold selectionSet
      infer_instance

instance fromFront_defaultValue : FromFront defaultValue := by
  unfold defaultValue
  infer_instance

instance fromFront_variableDefinition : FromFront variableDefinition := by
  unfold variableDefinition
  infer_instance

instance fromFront_operation (kind : OperationKind) : FromFront (operation kind) := by
  unfold operation
  refine @fromFront_bind _ _ _ _ inferInstance fun next => ?_
  split <;> infer_instance

instance fromFront_fragment : FromFront fragment := by
  unfold fragment
  infer_instance

instance fromFront_inputValue : FromFront inputValue := by
  unfold inputValue
  infer_instance

instance fromFront_fieldDefinition : FromFront fieldDefinition := by
  unfold fieldDefinition
  infer_instance

instance fromFront_enumValue : FromFront enumValue := by
  unfold enumValue
  infer_instance

instance fromFront_implementsList : FromFront implementsList := by
  unfold implementsList
  infer_instance

instance fromFront_unionMembers : FromFront unionMembers := by
  unfold unionMembers
  infer_instance

instance fromFront_nonEmptyIf (extension isEmpty : Bool) :
    FromFront (nonEmptyIf extension isEmpty) := by
  unfold nonEmptyIf
  infer_instance

section Definitions

variable (extension : Bool) (text : Option String)

instance fromFront_scalarType : FromFront (scalarType extension text) := by
  unfold scalarType
  infer_instance

instance fromFront_compositeType (interface : Bool) :
    FromFront (compositeType extension interface text) := by
  unfold compositeType
  infer_instance

instance fromFront_unionType : FromFront (unionType extension text) := by
  unfold unionType
  infer_instance

instance fromFront_enumType : FromFront (enumType extension text) := by
  unfold enumType
  infer_instance

instance fromFront_inputType : FromFront (inputType extension text) := by
  unfold inputType
  infer_instance

instance fromFront_rootOperation : FromFront rootOperation := by
  have known (kind : String) (type : String) : FromFront (match operationKind? kind with
      | some kind => (pure (kind, type) : Parser (OperationKind × String))
      | none => fail) := by
    split <;> infer_instance
  unfold rootOperation
  infer_instance

instance fromFront_schemaDefinition : FromFront (schemaDefinition extension text) := by
  unfold schemaDefinition
  infer_instance

instance fromFront_location : FromFront location := by
  unfold location
  infer_instance

instance fromFront_directiveDefinition : FromFront (directiveDefinition text) := by
  unfold directiveDefinition
  infer_instance

instance fromFront_typeSystem : FromFront (typeSystem extension text) := by
  unfold typeSystem
  refine @fromFront_bind _ _ _ _ inferInstance fun word => ?_
  split <;> infer_instance

end Definitions

instance fromFront_definition : FromFront definition := by
  unfold definition
  refine @fromFront_bind _ _ _ _ inferInstance fun text => ?_
  split
  · infer_instance
  · refine @fromFront_bind _ _ _ _ inferInstance fun next => ?_
    split
    · infer_instance
    · split <;> infer_instance
    · infer_instance

end Parser

end FederatedMock.Graphql
