import FederatedMock.Shape.Coercion

namespace FederatedMock

def ScalarRule.admits : ScalarRule → Json → Prop
  | .string format, .string s => format.accepts s = true
  | .number, .number _ => True
  | .boolean, .boolean _ => True
  | .typename name, .string s => s = name
  | _, _ => False

theorem ScalarRule.admits_coerce {rule : ScalarRule} {value : Option Json} {y : Json}
    (coerced : rule.coerce value = .ok y) : rule.admits y := by
  cases value with
  | none =>
      cases rule with
      | typename name =>
          cases coerced
          rfl
      | _ => cases coerced
  | some v =>
      cases rule with
      | typename name =>
          cases coerced
          rfl
      | string format =>
          simp only [coerce, coercePresent] at coerced
          split at coerced
          · split at coerced
            · rename_i accepted
              cases coerced
              exact accepted
            · cases coerced
          · cases coerced
      | number =>
          simp only [coerce, coercePresent] at coerced
          cases h : coerceNumber v with
          | error message => simp [h, Except.map] at coerced
          | ok n =>
              simp only [h, Except.map, Except.ok.injEq] at coerced
              subst coerced
              trivial
      | boolean =>
          simp only [coerce, coercePresent] at coerced
          cases h : coerceBoolean v with
          | error message => simp [h, Except.map] at coerced
          | ok b =>
              simp only [h, Except.map, Except.ok.injEq] at coerced
              subst coerced
              trivial

theorem ScalarRule.coerce_of_admits {rule : ScalarRule} {y : Json} (admitted : rule.admits y) :
    rule.coerce (some y) = .ok y := by
  cases rule with
  | typename name =>
      cases y with
      | string s =>
          cases admitted
          rfl
      | _ => cases admitted
  | string format =>
      cases y with
      | string s =>
          have accepted : format.accepts s = true := admitted
          simp [coerce, coercePresent, coerceString, accepted]
      | _ => cases admitted
  | number =>
      cases y with
      | number n => rfl
      | _ => cases admitted
  | boolean =>
      cases y with
      | boolean b => rfl
      | _ => cases admitted

theorem ScalarRule.coerce_coerced {rule : ScalarRule} {value : Option Json} {y : Json}
    (coerced : rule.coerce value = .ok y) : rule.coerce (some y) = .ok y :=
  coerce_of_admits (admits_coerce coerced)

theorem append_ne_required {start rest : String} {c : Char} (begins : start.toList.head? = some c)
    (other : c ≠ 'R') : start ++ rest ≠ requiredMessage := by
  intro same
  have letters := congrArg (fun text : String => text.toList.head?) same
  have spelled : requiredMessage.toList.head? = some 'R' := rfl
  rw [String.toList_append, List.head?_append, begins, spelled] at letters
  exact other (Option.some.inj letters)

theorem mismatch_ne_required (expected : String) (v : Json) :
    mismatch expected v ≠ requiredMessage := by
  have begins : (toString "Expected ").toList.head? = some 'E' := by decide +kernel
  rw [mismatch, String.append_assoc, String.append_assoc]
  exact append_ne_required begins (by decide)

inductive Complaint : String → Prop
  | mismatch {expected : String} (v : Json) (known : expected ∈ ["string", "number", "boolean"]) :
      Complaint (mismatch expected v)
  | form (format : StringFormat) : Complaint format.complaint
  | nan : Complaint "Expected number, received nan"

theorem Complaint.ne_required {message : String} (complaint : Complaint message) :
    message ≠ requiredMessage := by
  cases complaint with
  | mismatch v known => exact mismatch_ne_required _ v
  | form format => cases format <;> decide
  | nan => decide

theorem complaint_of_coerceString {v : Json} {message : String}
    (refused : coerceString v = .error message) : Complaint message := by
  cases v <;> cases refused <;> exact .mismatch _ (by decide)

theorem complaint_of_coerceNumber {v : Json} {message : String}
    (refused : coerceNumber v = .error message) : Complaint message := by
  cases v with
  | string s =>
      simp only [coerceNumber] at refused
      split at refused
      · cases refused
      · cases refused
        exact .nan
  | array items =>
      cases refused
      exact .mismatch _ (by decide)
  | object members =>
      cases refused
      exact .mismatch _ (by decide)
  | _ => cases refused

theorem complaint_of_coerceBoolean {v : Json} {message : String}
    (refused : coerceBoolean v = .error message) : Complaint message := by
  cases v <;> cases refused <;> exact .mismatch _ (by decide)

theorem error_of_map {α β ε : Type} {f : α → β} {result : Except ε α} {e : ε}
    (failed : result.map f = .error e) : result = .error e := by
  cases result with
  | ok a => cases failed
  | error e' =>
      cases failed
      rfl

theorem ScalarRule.complaint_of_coercePresent {rule : ScalarRule} {v : Json} {message : String}
    (refused : rule.coercePresent v = .error message) : Complaint message := by
  cases rule with
  | typename name => cases refused
  | string format =>
      simp only [coercePresent] at refused
      split at refused
      · split at refused
        · cases refused
        · cases refused
          exact .form format
      · rename_i inside
        cases refused
        exact complaint_of_coerceString inside
  | number => exact complaint_of_coerceNumber (error_of_map refused)
  | boolean => exact complaint_of_coerceBoolean (error_of_map refused)

end FederatedMock
