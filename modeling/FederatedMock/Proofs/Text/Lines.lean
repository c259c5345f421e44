import FederatedMock.Text.Basic
import Mathlib.Algebra.GroupWithZero.Nat
import Mathlib.Data.List.TFAE
import Mathlib.Tactic.TFAE

namespace FederatedMock.Text

def lines (s : String) : List String :=
  (s.toList.splitOn '\n').map String.ofList

def breaks (s : String) : Nat :=
  s.toList.count '\n'

@[simp]
theorem breaks_append (s t : String) : breaks (s ++ t) = breaks s + breaks t := by
  simp [breaks]

theorem breaks_eq_zero_iff {s : String} : breaks s = 0 ↔ '\n' ∉ s.toList :=
  List.count_eq_zero

theorem breaks_join {separator : String} (unbroken : breaks separator = 0) (texts : List String) :
    breaks (join separator texts) = (texts.map breaks).sum := by
  induction texts with
  | nil => rfl
  | cons s rest ih =>
      cases rest with
      | nil => simp [join]
      | cons s' rest => simp [join, unbroken, ih]

theorem length_splitOn (cs : List Char) : (cs.splitOn '\n').length = cs.count '\n' + 1 := by
  induction cs with
  | nil => rfl
  | cons c rest ih =>
      rw [List.splitOn_cons_eq_if_modifyHead]
      by_cases ends : c = '\n' <;> simp [ends, ih]

theorem length_lines (s : String) : (lines s).length = breaks s + 1 := by
  rw [lines, List.length_map, length_splitOn, breaks]

theorem lines_of_unbroken {s : String} (unbroken : breaks s = 0) : lines s = [s] := by
  rw [lines, List.splitOn_eq_singleton (breaks_eq_zero_iff.mp unbroken), List.map_singleton,
    String.ofList_toList]

theorem lines_join {texts : List String} (some : texts ≠ []) :
    lines (join "\n" texts) = texts.flatMap lines := by
  induction texts with
  | nil => exact absurd rfl some
  | cons s rest ih =>
      cases rest with
      | nil => simp [join]
      | cons s' rest =>
          have later := ih (List.cons_ne_nil s' rest)
          have cut : (join "\n" (s :: s' :: rest)).toList =
              s.toList ++ '\n' :: (join "\n" (s' :: rest)).toList := by
            simp [join]
          rw [lines, cut, List.splitOn_append_cons_self, List.map_append, List.flatMap_cons,
            ← later]
          rfl

theorem length_flatMap_lines (texts : List String) :
    (texts.flatMap lines).length = texts.length + (texts.map breaks).sum := by
  induction texts with
  | nil => rfl
  | cons s rest ih =>
      rw [List.flatMap_cons, List.length_append, ih, length_lines, List.length_cons, List.map_cons,
        List.sum_cons]
      omega

theorem flatMap_lines_tfae (texts : List String) :
    [texts.flatMap lines = texts, (texts.flatMap lines).length = texts.length,
      ∀ s ∈ texts, breaks s = 0].TFAE := by
  tfae_have 1 → 2 := congrArg List.length
  tfae_have 2 → 3 := by
    intro same
    rw [length_flatMap_lines, Nat.add_eq_left, List.sum_eq_zero_iff_forall_eq_nat] at same
    exact fun s mem => same _ (List.mem_map_of_mem mem)
  tfae_have 3 → 1 := by
    intro unbroken
    have each : texts.map lines = texts.map fun s => [s] :=
      List.map_congr_left fun s mem => lines_of_unbroken (unbroken s mem)
    rw [List.flatMap_def, each, ← List.flatMap_def, List.flatMap_singleton']
  tfae_finish

end FederatedMock.Text
