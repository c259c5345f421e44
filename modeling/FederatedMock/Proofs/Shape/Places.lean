import FederatedMock.Proofs.Ordered.Members
import FederatedMock.Proofs.Shape.Outcome
import Mathlib.Data.List.Nodup

namespace FederatedMock

open Report

def issuesAt (place : Path) (issues : List Issue) : List Issue :=
  issues.filter fun i => place.isPrefixOf i.path

theorem issuesAt_nil (issues : List Issue) : issuesAt [] issues = issues := by
  simp [issuesAt]

theorem issuesAt_append (place : Path) (issues more : List Issue) :
    issuesAt place (issues ++ more) = issuesAt place issues ++ issuesAt place more :=
  List.filter_append ..

theorem issuesAt_under (step other : Step) (place : Path) (issues : List Issue) :
    issuesAt (step :: place) (issues.map (Issue.under [other])) =
      if step = other then (issuesAt place issues).map (Issue.under [other]) else [] := by
  induction issues with
  | nil => simp [issuesAt]
  | cons i rest ih =>
      by_cases same : step = other
      · subst same
        simp only [if_true] at ih ⊢
        by_cases inside : place.isPrefixOf i.path <;>
          simp_all [issuesAt, Issue.under, List.isPrefixOf]
      · simp_all [issuesAt, Issue.under, List.isPrefixOf]

namespace Shape

variable {item : Shape}

theorem issuesAt_items_before {i k : Nat} (before : i < k) (place : Path) (items : List Json) :
    issuesAt (.index i :: place) (outcome (applyItems item.apply k items)).2 = [] := by
  induction items generalizing k with
  | nil => rfl
  | cons v rest ih =>
      have other : Step.index i ≠ .index k := by
        intro same
        cases same
        omega
      rw [outcome_items_cons, issuesAt_append, issuesAt_under, if_neg other, ih (by omega)]
      rfl

theorem outcome_items_at {items : List Json} {i : Nat} {v : Json} (item : Shape)
    (here : items[i]? = some v) (k : Nat) (place : Path) :
    (outcome (applyItems item.apply k items)).1[i]? =
        some ((outcome (item.apply (some v))).1.getD .null) ∧
      issuesAt (.index (k + i) :: place) (outcome (applyItems item.apply k items)).2 =
        (issuesAt place (outcome (item.apply (some v))).2).map (Issue.under [.index (k + i)]) := by
  induction items generalizing i k with
  | nil => cases here
  | cons v' rest ih =>
      rw [outcome_items_cons, issuesAt_append, issuesAt_under]
      cases i with
      | zero =>
          cases here
          rw [issuesAt_items_before (Nat.lt_succ_self _)]
          simp
      | succ i =>
          have other : Step.index (k + (i + 1)) ≠ .index k := by
            intro same
            cases same
          have shift : k + (i + 1) = k + 1 + i := by omega
          obtain ⟨out, issues⟩ := ih here (k + 1)
          rw [if_neg other, shift, issues]
          exact ⟨out, rfl⟩

theorem issuesAt_fields_other {fields : List (String × Shape)} {key : String}
    (other : key ∉ Members.keys fields) (members : Members Json) (place : Path) :
    Members.get? key (outcome (applyFields fields members)).1 = none ∧
      issuesAt (.key key :: place) (outcome (applyFields fields members)).2 = [] := by
  induction fields with
  | nil => exact ⟨rfl, rfl⟩
  | cons field rest ih =>
      obtain ⟨k, s⟩ := field
      obtain ⟨apart, later⟩ := not_or.mp fun same => other (List.mem_cons.mpr same)
      have apart' : Step.key key ≠ .key k := fun same => apart (Step.key.inj same)
      rw [outcome_fields_cons, issuesAt_append, issuesAt_under, if_neg apart', (ih later).2]
      refine ⟨?_, rfl⟩
      split
      · rw [Members.get?, if_neg (Ne.symm apart)]
        exact (ih later).1
      · exact (ih later).1

theorem outcome_fields_at {fields : List (String × Shape)} {key : String} {s : Shape}
    (distinct : (Members.keys fields).Nodup) (found : Members.get? key fields = some s)
    (members : Members Json) (place : Path) :
    Members.get? key (outcome (applyFields fields members)).1 =
        (outcome (s.apply (members.get? key))).1 ∧
      issuesAt (.key key :: place) (outcome (applyFields fields members)).2 =
        (issuesAt place (outcome (s.apply (members.get? key))).2).map
          (Issue.under [.key key]) := by
  induction fields with
  | nil => cases found
  | cons field rest ih =>
      obtain ⟨k, s'⟩ := field
      obtain ⟨fresh, distinct⟩ := List.nodup_cons.mp distinct
      rw [outcome_fields_cons, issuesAt_append, issuesAt_under]
      by_cases same : k = key
      · subst same
        rw [Members.get?, if_pos rfl] at found
        cases found
        obtain ⟨missing, clean⟩ := issuesAt_fields_other fresh members place
        rw [if_pos rfl, clean, List.append_nil]
        refine ⟨?_, rfl⟩
        cases (outcome (s.apply (members.get? k))).1 with
        | none => exact missing
        | some v => exact if_pos rfl
      · have apart : Step.key key ≠ .key k := fun eq => same (Step.key.inj eq).symm
        rw [Members.get?, if_neg same] at found
        obtain ⟨out, issues⟩ := ih distinct found
        rw [if_neg apart, issues]
        refine ⟨?_, rfl⟩
        split
        · rw [Members.get?, if_neg same]
          exact out
        · exact out

theorem length_outcome_items (items : List Json) (k : Nat) :
    (outcome (applyItems item.apply k items)).1.length = items.length := by
  induction items generalizing k with
  | nil => rfl
  | cons v rest ih => rw [outcome_items_cons, List.length_cons, List.length_cons, ih]

theorem mem_issues_items {items : List Json} {k : Nat} {x : Issue} :
    x ∈ (outcome (applyItems item.apply k items)).2 ↔
      ∃ i v, items[i]? = some v ∧
        ∃ j ∈ (outcome (item.apply (some v))).2, j.under [.index (k + i)] = x := by
  induction items generalizing k with
  | nil =>
      constructor
      · exact fun mem => (List.not_mem_nil mem).elim
      · rintro ⟨i, v, here, -⟩
        cases here
  | cons v rest ih =>
      rw [outcome_items_cons, List.mem_append, List.mem_map, ih]
      constructor
      · rintro (⟨j, mem, rfl⟩ | ⟨i, w, here, j, mem, rfl⟩)
        · exact ⟨0, v, rfl, j, mem, rfl⟩
        · refine ⟨i + 1, w, here, j, mem, ?_⟩
          rw [Nat.add_assoc, Nat.add_comm 1 i]
      · rintro ⟨i, w, here, j, mem, rfl⟩
        cases i with
        | zero =>
            cases here
            exact .inl ⟨j, mem, rfl⟩
        | succ i =>
            refine .inr ⟨i, w, here, j, mem, ?_⟩
            rw [Nat.add_assoc, Nat.add_comm 1 i]

theorem mem_issues_fields {fields : List (String × Shape)} {members : Members Json} {x : Issue} :
    x ∈ (outcome (applyFields fields members)).2 ↔
      ∃ f ∈ fields, ∃ j ∈ (outcome (f.2.apply (members.get? f.1))).2,
        j.under [.key f.1] = x := by
  induction fields with
  | nil => simp [applyFields, outcome, empty]
  | cons field rest ih =>
      rw [outcome_fields_cons, List.mem_append, List.mem_map, ih]
      simp

theorem under_inj {step step' : Step} {i j : Issue}
    (same : i.under [step] = j.under [step']) : step = step' ∧ i = j := by
  cases i
  cases j
  simpa [Issue.under, and_assoc] using same

theorem under_mem_issues_items {items : List Json} {n : Nat} {v : Json} {i : Issue}
    (given : items[n]? = some v) :
    i.under [.index n] ∈ (outcome (applyItems item.apply 0 items)).2 ↔
      i ∈ (outcome (item.apply (some v))).2 := by
  rw [mem_issues_items]
  constructor
  · rintro ⟨m, w, here, j, mem, same⟩
    obtain ⟨step, rfl⟩ := under_inj same
    rw [Nat.zero_add] at step
    cases step
    cases given.symm.trans here
    exact mem
  · exact fun mem => ⟨n, v, given, i, mem, by rw [Nat.zero_add]⟩

theorem under_mem_issues_fields {fields : List (String × Shape)} {members : Members Json}
    {f : String × Shape} {i : Issue} (distinct : (Members.keys fields).Nodup)
    (listed : f ∈ fields) : i.under [.key f.1] ∈ (outcome (applyFields fields members)).2 ↔
      i ∈ (outcome (f.2.apply (members.get? f.1))).2 := by
  rw [mem_issues_fields]
  constructor
  · rintro ⟨f', listed', j, mem, same⟩
    obtain ⟨step, rfl⟩ := under_inj same
    rwa [← List.inj_on_of_nodup_map distinct listed' listed (Step.key.inj step)]
  · exact fun mem => ⟨f, listed, i, mem, rfl⟩

theorem keys_outcome_fields (fields : List (String × Shape)) (members : Members Json) :
    List.Sublist (Members.keys (outcome (applyFields fields members)).1) (Members.keys fields) := by
  induction fields with
  | nil => exact .slnil
  | cons field rest ih =>
      rw [outcome_fields_cons]
      split
      · exact ih.cons_cons _
      · exact ih.cons _

theorem get?_outcome_fields {fields : List (String × Shape)}
    (distinct : (Members.keys fields).Nodup) (members : Members Json) (key : String) :
    Members.get? key (outcome (applyFields fields members)).1 =
      (Members.get? key fields).bind fun s => (outcome (s.apply (members.get? key))).1 := by
  cases found : Members.get? key fields with
  | none =>
      have other := Members.get?_eq_none_iff.mp found
      exact (issuesAt_fields_other other members []).1
  | some s => exact (outcome_fields_at distinct found members []).1

end Shape

end FederatedMock
