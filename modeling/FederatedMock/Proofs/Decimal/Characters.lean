import FederatedMock.Json.Printer
import FederatedMock.Text.Basic
import Mathlib.Data.List.TakeDrop
import Mathlib.Data.List.TakeWhile

namespace FederatedMock

def IsNumeric (c : Char) : Prop := c.isDigit = true ∨ c ∈ ['-', '+', '.', 'e']

instance (c : Char) : Decidable (IsNumeric c) := inferInstanceAs (Decidable (_ ∨ _))

theorem toNat_of_isDigit {c : Char} (digit : c.isDigit = true) : 48 ≤ c.toNat ∧ c.toNat ≤ 57 := by
  simp only [Char.isDigit, ge_iff_le, Bool.and_eq_true, decide_eq_true_eq,
    UInt32.le_iff_toNat_le] at digit
  exact digit

theorem isBlank_of_isNumeric {c : Char} (numeric : IsNumeric c) : Text.isBlank c = false := by
  rcases numeric with digit | sign
  · obtain ⟨low, high⟩ := toNat_of_isDigit digit
    simp only [Text.isBlank, Bool.or_eq_false_iff, Bool.and_eq_false_iff, decide_eq_false_iff_not,
      beq_eq_false_iff_ne]
    omega
  · simp only [List.mem_cons, List.not_mem_nil, or_false] at sign
    rcases sign with rfl | rfl | rfl | rfl <;> rfl

theorem isNumeric_of_mem_toDigits {n : Nat} {c : Char} (mem : c ∈ Nat.toDigits 10 n) :
    IsNumeric c :=
  .inl (Nat.isDigit_of_mem_toDigits (by decide) (by decide) mem)

theorem isNumeric_of_mem_zeros {n : Nat} {c : Char} (mem : c ∈ List.replicate n '0') :
    IsNumeric c := by
  cases (List.mem_replicate.mp mem).2
  exact .inl rfl

theorem foldl_toDigits (n : Nat) :
    (Nat.toDigits 10 n).foldl (fun n c => n * 10 + (c.toNat - '0'.toNat)) 0 = n := by
  have read := Nat.ofDigitChars_toDigits (n := n) (b := 10) (by decide) (by decide)
  simpa only [Nat.ofDigitChars, Nat.mul_comm 10] using read

theorem span_digits {cs rest : List Char} (digits : ∀ c ∈ cs, c.isDigit = true)
    (ends : ∀ c ∈ rest.head?, c.isDigit = false) : (cs ++ rest).span Char.isDigit = (cs, rest) := by
  have stop : rest.takeWhile Char.isDigit = [] ∧ rest.dropWhile Char.isDigit = rest := by
    cases rest with
    | nil => exact ⟨rfl, rfl⟩
    | cons c rest =>
        have other : ¬ c.isDigit = true := by simp [ends c rfl]
        exact ⟨List.takeWhile_cons_of_neg other, List.dropWhile_cons_of_neg other⟩
  rw [List.span_eq_takeWhile_dropWhile, List.takeWhile_append_of_pos digits,
    List.dropWhile_append_of_pos digits, stop.1, stop.2, List.append_nil]

theorem span_digits_append {cs digits rest : List Char}
    (here : cs.span Char.isDigit = (digits, rest)) :
    cs = digits ++ rest ∧ ∀ more, (∀ c ∈ more.head?, c.isDigit = false) →
      (cs ++ more).span Char.isDigit = (digits, rest ++ more) := by
  rw [List.span_eq_takeWhile_dropWhile] at here
  obtain ⟨rfl, rfl⟩ := Prod.mk.inj here
  have whole := @List.takeWhile_append_dropWhile _ Char.isDigit cs
  refine ⟨whole.symm, fun more stops => ?_⟩
  have parts : cs ++ more = cs.takeWhile Char.isDigit ++ (cs.dropWhile Char.isDigit ++ more) := by
    rw [← List.append_assoc, whole]
  rw [parts]
  refine span_digits (fun c mem => List.mem_takeWhile_imp mem) fun c head => ?_
  rcases Option.or_eq_some_iff.mp (List.head?_append.symm.trans head) with inside | ⟨-, after⟩
  · have last := List.head?_dropWhile_not Char.isDigit cs
    rw [inside] at last
    exact last
  · exact stops c after

theorem toList_toString_int (n : Int) :
    (toString n).toList =
      if n < 0 then '-' :: Nat.toDigits 10 n.natAbs else Nat.toDigits 10 n.natAbs := by
  cases n with
  | ofNat n => simp [toString, Int.repr, Nat.repr]
  | negSucc n => simp [toString, Int.repr, Nat.repr]

namespace Double

theorem isDigit_of_mem_shortest {d : Double} {c : Char} (mem : c ∈ d.shortest.digits) :
    c.isDigit = true := by
  unfold shortest at mem
  split at mem
  · cases List.mem_singleton.mp mem
    rfl
  · have within := (List.dropWhile_sublist _).subset (List.mem_reverse.mp mem)
    exact Nat.isDigit_of_mem_toDigits (by decide) (by decide) (List.mem_reverse.mp within)

end Double

namespace DecimalLayout

theorem isNumeric_of_mem_positional {s : Scientific} {c : Char}
    (digits : ∀ c ∈ s.digits, c.isDigit = true) (mem : c ∈ positional s) : IsNumeric c := by
  unfold positional at mem
  split at mem
  · simp only [List.mem_append, List.mem_cons] at mem
    rcases mem with (inside | inside) | rfl | inside
    · exact .inl (digits c (List.mem_of_mem_take inside))
    · exact isNumeric_of_mem_zeros inside
    · exact .inr (by decide)
    · split at inside
      · cases List.mem_singleton.mp inside
        exact .inl rfl
      · exact .inl (digits c (List.mem_of_mem_drop inside))
  · simp only [List.mem_append, List.mem_cons] at mem
    rcases mem with rfl | rfl | inside | inside
    · exact .inl rfl
    · exact .inr (by decide)
    · exact isNumeric_of_mem_zeros inside
    · exact .inl (digits c inside)

theorem isNumeric_of_mem_withExponent {s : Scientific} {c : Char}
    (digits : ∀ c ∈ s.digits, c.isDigit = true) (mem : c ∈ withExponent s) : IsNumeric c := by
  simp only [withExponent, List.mem_append, List.mem_cons] at mem
  rcases mem with inside | rfl | rfl | inside
  · split at inside
    · rename_i spelled
      rw [spelled] at digits
      simp only [List.mem_cons] at inside digits
      rcases inside with rfl | rfl | inside
      · exact .inl (digits c (.inl rfl))
      · exact .inr (by decide)
      · exact .inl (digits c (.inr inside))
    · exact .inl (digits c inside)
  · exact .inr (by decide)
  · split <;> exact .inr (by decide)
  · exact isNumeric_of_mem_toDigits inside

theorem isNumeric_of_mem_render {l : DecimalLayout} {d : Double} {c : Char}
    (mem : c ∈ (l.render d).toList) : IsNumeric c := by
  have digits := fun c => @Double.isDigit_of_mem_shortest d c
  have body : ∀ c ∈ (if l.isPositional d.shortest.exponent then positional d.shortest
      else withExponent d.shortest), IsNumeric c := by
    intro c mem
    split at mem
    · exact isNumeric_of_mem_positional digits mem
    · exact isNumeric_of_mem_withExponent digits mem
  rw [render, String.toList_ofList] at mem
  split at mem
  · rcases List.mem_cons.mp mem with rfl | inside
    · exact .inr (by decide)
    · exact body c inside
  · exact body c mem

end DecimalLayout

theorem Number.isNumeric_of_mem_render {n : Number} {c : Char} (mem : c ∈ n.render.toList) :
    IsNumeric c := by
  cases n with
  | integer n held =>
      rw [render, toList_toString_int] at mem
      split at mem
      · rcases List.mem_cons.mp mem with rfl | inside
        · exact .inr (by decide)
        · exact isNumeric_of_mem_toDigits inside
      · exact isNumeric_of_mem_toDigits mem
  | double d => exact DecimalLayout.isNumeric_of_mem_render mem

end FederatedMock
