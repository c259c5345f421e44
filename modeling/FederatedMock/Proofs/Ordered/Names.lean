import FederatedMock.Ordered.Basic
import Mathlib.Data.List.Perm.Basic

namespace FederatedMock.Names

theorem mem_insert {names : List String} {name x : String} :
    x ∈ insert names name ↔ x ∈ names ∨ x = name := by
  unfold insert
  split
  · rename_i present
    constructor
    · exact .inl
    · rintro (mem | rfl)
      · exact mem
      · exact present
  · rw [List.mem_append, List.mem_singleton]

theorem nodup_insert {names : List String} (distinct : names.Nodup) (name : String) :
    (insert names name).Nodup := by
  unfold insert
  split
  · exact distinct
  · rename_i fresh
    have apart : ∀ a ∈ names, ∀ b ∈ [name], a ≠ b := by
      rintro a mem b here rfl
      cases List.mem_singleton.mp here
      exact fresh mem
    exact List.nodup_append.mpr ⟨distinct, List.pairwise_singleton _ _, apart⟩

theorem mem_addAll {names more : List String} {x : String} :
    x ∈ addAll names more ↔ x ∈ names ∨ x ∈ more := by
  induction more generalizing names with
  | nil => simp [addAll]
  | cons name rest ih =>
      have step : addAll names (name :: rest) = addAll (insert names name) rest := rfl
      rw [step, ih, mem_insert, List.mem_cons, or_assoc]

theorem nodup_addAll {names : List String} (distinct : names.Nodup) (more : List String) :
    (addAll names more).Nodup := by
  induction more generalizing names with
  | nil => exact distinct
  | cons name rest ih => exact ih (nodup_insert distinct name)

theorem mem_ofList {names : List String} {x : String} : x ∈ ofList names ↔ x ∈ names := by
  rw [ofList, mem_addAll]
  simp

theorem nodup_ofList (names : List String) : (ofList names).Nodup :=
  nodup_addAll List.nodup_nil names

theorem addAll_of_subset {names more : List String} (known : more ⊆ names) :
    addAll names more = names := by
  induction more with
  | nil => rfl
  | cons name rest ih =>
      obtain ⟨here, known⟩ := List.cons_subset.mp known
      have unchanged : insert names name = names := if_pos here
      have step : addAll names (name :: rest) = addAll (insert names name) rest := rfl
      rw [step, unchanged, ih known]

theorem filter_insert (keep : String → Bool) (names : List String) (name : String) :
    (insert names name).filter keep =
      if keep name then insert (names.filter keep) name else names.filter keep := by
  unfold insert
  by_cases present : name ∈ names <;> cases kept : keep name <;> simp [present, kept]

theorem filter_addAll (keep : String → Bool) (names more : List String) :
    (addAll names more).filter keep = addAll (names.filter keep) (more.filter keep) := by
  induction more generalizing names with
  | nil => rfl
  | cons name rest ih =>
      have step : addAll names (name :: rest) = addAll (insert names name) rest := rfl
      rw [step, ih, filter_insert]
      cases kept : keep name with
      | true => simp [kept, addAll]
      | false => simp [kept]

theorem addAll_append (names more others : List String) :
    addAll names (more ++ others) = addAll (addAll names more) others :=
  List.foldl_append

theorem sorted_eq_of_perm {names more : List String} (same : names.Perm more) :
    sorted names = sorted more := by
  let before (a b : String) : Bool := !decide (b < a)
  have transitive : ∀ a b c : String, before a b → before b c → before a c := by
    intro a b c ab bc
    simp only [before, Bool.not_eq_true', decide_eq_false_iff_not, String.not_lt] at ab bc ⊢
    exact String.le_trans ab bc
  have total : ∀ a b : String, before a b || before b a := by
    intro a b
    simp only [before, Bool.or_eq_true, Bool.not_eq_true', decide_eq_false_iff_not, String.not_lt]
    exact String.le_total a b
  have antisymmetric : ∀ a b : String, before a b → before b a → a = b := by
    intro a b ab ba
    simp only [before, Bool.not_eq_true', decide_eq_false_iff_not, String.not_lt] at ab ba
    exact String.le_antisymm ab ba
  have perm : (sorted names).Perm (sorted more) :=
    ((List.mergeSort_perm names before).trans same).trans (List.mergeSort_perm more before).symm
  exact perm.eq_of_pairwise (fun a b _ _ => antisymmetric a b)
    (List.pairwise_mergeSort transitive total names)
    (List.pairwise_mergeSort transitive total more)

end FederatedMock.Names
