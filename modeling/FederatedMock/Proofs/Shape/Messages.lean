import FederatedMock.Proofs.Operation.ListedNames
import FederatedMock.Proofs.Shape.Issues
import FederatedMock.Proofs.Text.Lines

namespace FederatedMock

open Graphql Report Text

theorem breaks_of_isName {s : String} (named : IsName s) : breaks s = 0 := by
  obtain ⟨c, cs, spelled, start, rest⟩ := named
  refine breaks_eq_zero_iff.mpr fun mem => ?_
  rw [spelled] at mem
  rcases List.mem_cons.mp mem with rfl | mem
  · cases start
  · cases rest _ mem

theorem Path.breaks_dotted {p : Path} (named : ∀ s ∈ p, s.Named) : breaks p.dotted = 0 := by
  rw [dotted, breaks_join (by decide), List.map_map, List.sum_eq_zero_iff_forall_eq_nat]
  intro n mem
  obtain ⟨s, step, rfl⟩ := List.mem_map.mp mem
  cases s with
  | key name => exact breaks_of_isName (named _ step)
  | index n => exact breaks_eq_zero_iff.mpr fun digit => by cases Step.isDigit_of_mem_text digit

theorem breaks_choices {names : List String} (named : ∀ name ∈ names, IsName name) :
    breaks (choices names) = 0 := by
  have quote : breaks "'" = 0 := by decide
  rw [choices, breaks_join (by decide), List.map_map, List.sum_eq_zero_iff_forall_eq_nat]
  intro n mem
  obtain ⟨name, listed, rfl⟩ := List.mem_map.mp mem
  simp [quote, breaks_of_isName (named name listed)]

theorem breaks_mismatch {expected : String} (unbroken : breaks expected = 0) (v : Json) :
    breaks (mismatch expected v) = 0 := by
  have before : breaks "Expected " = 0 := by decide
  have between : breaks ", received " = 0 := by decide
  have type : breaks v.typeName = 0 := by cases v <;> simp only [Json.typeName] <;> decide
  change breaks ("Expected " ++ expected ++ ", received " ++ v.typeName) = 0
  simp [before, between, type, unbroken]

theorem Complaint.unbroken {message : String} (complaint : Complaint message) :
    breaks message = 0 := by
  cases complaint with
  | mismatch v known =>
      simp only [List.mem_cons, List.not_mem_nil, or_false] at known
      rcases known with rfl | rfl | rfl <;> exact breaks_mismatch (by decide) v
  | form format => cases format <;> decide
  | nan => decide

theorem breaks_discriminatorMessage {names : List String} (named : ∀ name ∈ names, IsName name) :
    breaks (discriminatorMessage names) = 0 := by
  have before : breaks "Invalid discriminator value. Expected " = 0 := by decide
  change breaks ("Invalid discriminator value. Expected " ++ choices names) = 0
  simp [before, breaks_choices named]

def refusalMessage (names : List String) (name : String) : String :=
  s!"Invalid enum value. Expected {choices names}, received '{name}'"

theorem breaks_refusalMessage {names : List String} (named : ∀ n ∈ names, IsName n)
    (name : String) : breaks (refusalMessage names name) = breaks name := by
  have before : breaks "Invalid enum value. Expected " = 0 := by decide
  have between : breaks ", received '" = 0 := by decide
  have after : breaks "'" = 0 := by decide
  change breaks ("Invalid enum value. Expected " ++ choices names ++ ", received '" ++ name ++
    "'") = breaks name
  simp [before, between, after, breaks_choices named]

namespace Shape

def RefusesName (s : Shape) (value : Option Json) (path : Path) (name : String) : Prop :=
  ∃ names, Visits s value path (.enumeration names) (some (.string name)) ∧ name ∉ names

def MessageBreaks (s : Shape) (value : Option Json) (i : Issue) : Prop :=
  breaks i.message = 0 ∨
    ∃ name, s.RefusesName value i.path name ∧ breaks i.message = breaks name

theorem messageBreaks_scalar (rule : ScalarRule) (value : Option Json) :
    ∀ i ∈ (outcome ((scalar rule).apply value)).2, (scalar rule).MessageBreaks value i := by
  intro i mem
  cases coerced : rule.coerce value with
  | ok y => simp [outcome, apply, coerced, empty] at mem
  | error message =>
      simp only [outcome, apply, coerced, empty, add, List.nil_append, List.mem_singleton] at mem
      subst mem
      left
      cases value with
      | some v => exact (ScalarRule.complaint_of_coercePresent coerced).unbroken
      | none => cases rule <;> cases coerced <;> decide

theorem messageBreaks_enumeration {names : List String} (named : ∀ n ∈ names, IsName n)
    (value : Option Json) : ∀ i ∈ (outcome ((enumeration names).apply value)).2,
      (enumeration names).MessageBreaks value i := by
  intro i mem
  cases value with
  | none =>
      cases List.mem_singleton.mp mem
      left
      decide
  | some v =>
      cases v
      case string name =>
        by_cases listed : name ∈ names
        · simp [outcome, apply, applyEnumeration, listed, empty] at mem
        · simp only [outcome, apply, applyEnumeration, listed, if_false] at mem
          cases List.mem_singleton.mp mem
          right
          exact ⟨name, ⟨names, .here, listed⟩, breaks_refusalMessage named name⟩
      all_goals
        cases List.mem_singleton.mp mem
        left
        exact breaks_mismatch (breaks_choices named) _

theorem messageBreaks_applyMismatch {s : Shape} {expected : String} {value : Option Json}
    (unbroken : breaks expected = 0) :
    ∀ i ∈ (outcome (applyMismatch expected value)).2, s.MessageBreaks value i := by
  intro i mem
  left
  cases value with
  | none =>
      cases List.mem_singleton.mp mem
      decide
  | some v =>
      cases List.mem_singleton.mp mem
      exact breaks_mismatch unbroken v

theorem MessageBreaks.under {s t : Shape} {value value' : Option Json} {p : Path} {i : Issue}
    (into : ∀ path u z, Visits t value' path u z → Visits s value (p ++ path) u z)
    (inside : t.MessageBreaks value' i) : s.MessageBreaks value (i.under p) := by
  obtain unbroken | ⟨name, ⟨names, visits, other⟩, same⟩ := inside
  · exact .inl unbroken
  · exact .inr ⟨name, ⟨names, into _ _ _ visits, other⟩, same⟩

theorem breaks_of_mem_issues {s : Shape} (listed : s.Everywhere ListsNames)
    (value : Option Json) : ∀ i ∈ (outcome (s.apply value)).2, s.MessageBreaks value i := by
  induction s using Shape.induction generalizing value with
  | scalar rule => exact messageBreaks_scalar rule value
  | enumeration names => exact messageBreaks_enumeration (everywhere_enumeration.mp listed) value
  | nullable inner ih =>
      intro i mem
      cases value with
      | none => cases mem
      | some v =>
          by_cases null : v = .null
          · subst null
            cases mem
          · rw [apply_nullable null] at mem
            rw [← i.under_nil]
            exact (ih (everywhere_nullable.mp listed).2 (some v) i mem).under
              fun _ _ _ visits => .nullable null visits
  | list item ih =>
      rcases value with _ | v
      · exact messageBreaks_applyMismatch (by decide)
      cases v
      case array items =>
        intro i mem
        rw [outcome_list] at mem
        obtain ⟨n, v, given, j, there, rfl⟩ := mem_issues_items.mp mem
        rw [Nat.zero_add]
        exact (ih (everywhere_list.mp listed).2 (some v) j there).under
          fun _ _ _ visits => .item given visits
      all_goals exact messageBreaks_applyMismatch (by decide)
  | object fields ih =>
      rcases value with _ | v
      · exact messageBreaks_applyMismatch (by decide)
      cases v
      case object members =>
        intro i mem
        rw [outcome_object] at mem
        obtain ⟨f, field, j, there, rfl⟩ := mem_issues_fields.mp mem
        exact (ih f field ((everywhere_object.mp listed).2 f field) _ j there).under
          fun _ _ _ visits => .field field visits
      all_goals exact messageBreaks_applyMismatch (by decide)
  | variants choices ih =>
      obtain ⟨named, inside⟩ := everywhere_variants.mp listed
      rcases value with _ | v
      · exact messageBreaks_applyMismatch (by decide)
      cases v
      case object members =>
        intro i mem
        cases selected : selectVariant choices members with
        | none =>
            rw [apply_variants, selected] at mem
            cases List.mem_singleton.mp mem
            refine .inl (breaks_discriminatorMessage fun name mem => ?_)
            obtain ⟨choice, chosen, rfl⟩ := List.mem_map.mp mem
            exact named choice chosen
        | some name =>
            obtain ⟨fields, found⟩ := get?_of_selectVariant selected
            rw [outcome_variant selected, applyVariant_of_get? found] at mem
            obtain ⟨f, field, j, there, rfl⟩ := mem_issues_fields.mp mem
            have choice := Members.mem_of_get? found
            exact (ih _ choice f field (inside _ choice f field) _ j there).under
              fun _ _ _ visits => .choice selected found field visits
      all_goals exact messageBreaks_applyMismatch (by decide)

theorem Visits.mem_issues {s t : Shape} {value z : Option Json} {path : Path} {j : Issue}
    (visits : Visits s value path t z) (own : j ∈ (outcome (t.apply z)).2) :
    j.under path ∈ (outcome (s.apply value)).2 := by
  induction visits with
  | here => exact own
  | nullable notNull inside ih =>
      rw [apply_nullable notNull]
      exact ih own
  | @item _ _ _ n v path _ given inside ih =>
      rw [outcome_list]
      refine mem_issues_items.mpr ⟨n, v, given, _, ih own, ?_⟩
      rw [Nat.zero_add, ← Issue.under_append]
      rfl
  | field listed inside ih =>
      rw [outcome_object]
      refine mem_issues_fields.mpr ⟨_, listed, _, ih own, ?_⟩
      rw [← Issue.under_append]
      rfl
  | choice selected found listed inside ih =>
      rw [outcome_variant selected, applyVariant_of_get? found]
      refine mem_issues_fields.mpr ⟨_, listed, _, ih own, ?_⟩
      rw [← Issue.under_append]
      rfl

theorem Visits.part {s t : Shape} {value z : Option Json} {path : Path}
    (visits : Visits s value path t z) : Part t s := by
  induction visits with
  | here => exact .refl
  | nullable notNull inside ih => exact .nullable ih
  | item given inside ih => exact .list ih
  | field listed inside ih => exact .field listed ih
  | choice selected found listed inside ih => exact .choice (Members.mem_of_get? found) listed ih

theorem RefusesName.exists_issue {s : Shape} {value : Option Json} {path : Path} {name : String}
    (refused : s.RefusesName value path name) (listed : s.Everywhere ListsNames) :
    ∃ i ∈ (outcome (s.apply value)).2, i.path = path ∧ breaks i.message = breaks name := by
  obtain ⟨names, visits, other⟩ := refused
  have named : ∀ n ∈ names, IsName n := listed _ visits.part
  have own : ⟨[], refusalMessage names name⟩ ∈
      (outcome ((enumeration names).apply (some (.string name)))).2 := by
    simp only [outcome, apply, applyEnumeration, other, if_false]
    exact List.mem_singleton_self _
  refine ⟨_, visits.mem_issues own, List.append_nil path, ?_⟩
  exact breaks_refusalMessage named name

theorem breaks_messages_iff {s : Shape} (listed : s.Everywhere ListsNames) (value : Option Json) :
    (∀ i ∈ (outcome (s.apply value)).2, breaks i.message = 0) ↔
      ∀ path name, s.RefusesName value path name → breaks name = 0 := by
  constructor
  · intro each path name refused
    obtain ⟨i, mem, -, same⟩ := refused.exists_issue listed
    exact same.symm.trans (each i mem)
  · intro each i mem
    obtain unbroken | ⟨name, refused, same⟩ := breaks_of_mem_issues listed value i mem
    · exact unbroken
    · exact same.trans (each i.path name refused)

end Shape

end FederatedMock
