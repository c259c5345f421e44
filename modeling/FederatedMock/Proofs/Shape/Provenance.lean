import FederatedMock.Proofs.Shape.Coercion
import FederatedMock.Proofs.Shape.Part
import FederatedMock.Proofs.Shape.Places

namespace FederatedMock.Shape

open Report

inductive FromPart : Shape → Json → Issue → Prop
  | nullable {inner : Shape} {x : Json} {i : Issue} (notNull : x ≠ .null)
      (inside : FromPart inner x i) : FromPart (.nullable inner) x i
  | item {item : Shape} {items : List Json} {n : Nat} {v : Json} {i : Issue}
      (given : items[n]? = some v) (mem : i ∈ (item.apply (some v) .empty).2.issues) :
      FromPart (.list item) (.array items) (i.under [.index n])
  | field {fields : List (String × Shape)} {members : Members Json} {f : String × Shape} {i : Issue}
      (listed : f ∈ fields) (mem : i ∈ (f.2.apply (members.get? f.1) .empty).2.issues) :
      FromPart (.object fields) (.object members) (i.under [.key f.1])
  | choice {choices : Variants} {members : Members Json} {name : String}
      {fields : List (String × Shape)} {f : String × Shape} {i : Issue}
      (selected : selectVariant choices members = some name)
      (found : choices.get? name = some fields) (listed : f ∈ fields)
      (mem : i ∈ (f.2.apply (members.get? f.1) .empty).2.issues) :
      FromPart (.variants choices) (.object members) (i.under [.key f.1])

theorem FromPart.selects {choices : Variants} {members : Members Json} {i : Issue}
    (inside : (variants choices).FromPart (.object members) i) :
    selectVariant choices members ≠ none := by
  cases inside with
  | choice selected => simp [selected]

def Refuses (s : Shape) (x : Json) : Prop :=
  ∃ i, outcome (s.apply (some x)) = (none, [i]) ∧ ¬ s.FromPart x i

def Takes (s : Shape) (x : Json) : Prop :=
  (∃ y, (outcome (s.apply (some x))).1 = some y) ∧
    ∀ i ∈ (outcome (s.apply (some x))).2, s.FromPart x i

theorem takes_of_clean {s : Shape} {x y : Json} (clean : outcome (s.apply (some x)) = (some y, [])) :
    s.Takes x := by
  rw [Takes, clean]
  exact ⟨⟨y, rfl⟩, fun _ mem => (List.not_mem_nil mem).elim⟩

theorem scalar_refuses_or_takes (rule : ScalarRule) (x : Json) :
    (scalar rule).Refuses x ∨ (scalar rule).Takes x := by
  cases coerced : rule.coerce (some x) with
  | ok y =>
      have run : outcome ((scalar rule).apply (some x)) = (some y, []) := by
        simp [outcome, apply, coerced, empty]
      exact .inr (takes_of_clean run)
  | error message =>
      refine .inl ⟨⟨[], message⟩, by simp [outcome, apply, coerced, empty, add], ?_⟩
      rintro ⟨⟩

theorem enumeration_refuses_or_takes (names : List String) (x : Json) :
    (enumeration names).Refuses x ∨ (enumeration names).Takes x := by
  by_cases listed : ∃ name ∈ names, x = .string name
  · obtain ⟨name, mem, rfl⟩ := listed
    have run : outcome ((enumeration names).apply (some (.string name))) =
        (some (.string name), []) := by
      simp [outcome, apply, applyEnumeration, mem, empty]
    exact .inr (takes_of_clean run)
  · left
    cases x
    case string name =>
      have other : name ∉ names := fun mem => listed ⟨name, mem, rfl⟩
      refine ⟨_, by simp [outcome, apply, applyEnumeration, other, empty, add]; rfl, ?_⟩
      rintro ⟨⟩
    all_goals exact ⟨_, rfl, nofun⟩

theorem list_refuses_or_takes (item : Shape) (x : Json) :
    (list item).Refuses x ∨ (list item).Takes x := by
  cases x
  case array items =>
    right
    rw [Takes, outcome_list]
    refine ⟨⟨_, rfl⟩, fun i mem => ?_⟩
    obtain ⟨n, v, given, j, there, rfl⟩ := mem_issues_items.mp mem
    rw [Nat.zero_add]
    exact .item given there
  all_goals exact .inl ⟨_, rfl, nofun⟩

theorem object_refuses_or_takes (fields : List (String × Shape)) (x : Json) :
    (object fields).Refuses x ∨ (object fields).Takes x := by
  cases x
  case object members =>
    right
    rw [Takes, outcome_object]
    refine ⟨⟨_, rfl⟩, fun i mem => ?_⟩
    obtain ⟨f, listed, j, there, rfl⟩ := mem_issues_fields.mp mem
    exact .field listed there
  all_goals exact .inl ⟨_, rfl, nofun⟩

theorem variants_refuses_or_takes (choices : Variants) (x : Json) :
    (variants choices).Refuses x ∨ (variants choices).Takes x := by
  cases x
  case object members =>
    cases selected : selectVariant choices members with
    | none =>
        left
        rw [Refuses, apply_variants, selected]
        exact ⟨_, rfl, fun inside => inside.selects selected⟩
    | some name =>
        right
        obtain ⟨fields, found⟩ := get?_of_selectVariant selected
        rw [Takes, outcome_variant selected, applyVariant_of_get? found]
        refine ⟨⟨_, rfl⟩, fun i mem => ?_⟩
        obtain ⟨f, listed, j, there, rfl⟩ := mem_issues_fields.mp mem
        exact .choice selected found listed there
  all_goals exact .inl ⟨_, rfl, nofun⟩

theorem refuses_or_takes (s : Shape) (x : Json) : s.Refuses x ∨ s.Takes x := by
  induction s using Shape.induction with
  | scalar rule => exact scalar_refuses_or_takes rule x
  | enumeration names => exact enumeration_refuses_or_takes names x
  | list item => exact list_refuses_or_takes item x
  | object fields => exact object_refuses_or_takes fields x
  | variants choices => exact variants_refuses_or_takes choices x
  | nullable inner ih =>
      by_cases null : x = .null
      · subst null
        exact .inr (takes_of_clean rfl)
      · rw [Refuses, Takes, apply_nullable null]
        obtain ⟨i, run, own⟩ | ⟨back, parts⟩ := ih
        · refine .inl ⟨i, run, ?_⟩
          rintro ⟨-, inside⟩
          exact own inside
        · exact .inr ⟨back, fun i mem => .nullable null (parts i mem)⟩

/-- Applying a shape leaves the path of a report as it was, and adds to its issues those of a walk
that starts with nothing, put below the path; the result is that of this walk too. No value comes
back for one that is there exactly if the shape itself reports an issue. -/
theorem apply_compositional (s : Shape) (p : Path) (q : List Issue) :
    (∀ value, (s.apply value ⟨p, q⟩).2.path = p ∧
      (s.apply value ⟨p, q⟩).2.issues =
        q ++ (s.apply value .empty).2.issues.map (Issue.under p) ∧
      (s.apply value ⟨p, q⟩).1 = (s.apply value .empty).1) ∧
    ∀ x, (s.apply (some x) ⟨p, q⟩).1 = none ↔
      ∃ i ∈ (s.apply (some x) .empty).2.issues, ¬ s.FromPart x i := by
  constructor
  · intro value
    rw [apply_addsOnly s value ⟨p, q⟩]
    exact ⟨rfl, rfl, rfl⟩
  · intro x
    rw [apply_addsOnly s (some x) ⟨p, q⟩]
    obtain ⟨i, run, own⟩ | ⟨⟨y, back⟩, parts⟩ := refuses_or_takes s x
    · obtain ⟨result, issues⟩ := Prod.mk.inj run
      refine iff_of_true (by rw [run]) ⟨i, ?_, own⟩
      rw [issues]
      exact List.mem_singleton_self i
    · refine iff_of_false (by rw [back]; nofun) ?_
      rintro ⟨i, mem, own⟩
      exact own (parts i mem)

end FederatedMock.Shape
