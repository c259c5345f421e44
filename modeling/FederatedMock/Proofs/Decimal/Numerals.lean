import FederatedMock.Shape.Coercion
import FederatedMock.Proofs.Decimal.Characters

namespace FederatedMock

namespace Text

theorem dropWhile_blanks {blanks cs : List Char} (blank : ∀ c ∈ blanks, isBlank c = true)
    (solid : ∀ c ∈ cs, isBlank c = false) (some : cs ≠ []) (rest : List Char) :
    (blanks ++ (cs ++ rest)).dropWhile isBlank = cs ++ rest := by
  obtain ⟨c, cs, rfl⟩ := List.exists_cons_of_ne_nil some
  rw [List.dropWhile_append_of_pos blank, List.cons_append,
    List.dropWhile_cons_of_neg (by simp [solid c List.mem_cons_self])]

theorem trim_surrounded {before cs after : List Char} (blank : ∀ c ∈ before, isBlank c = true)
    (blank' : ∀ c ∈ after, isBlank c = true) (solid : ∀ c ∈ cs, isBlank c = false)
    (some : cs ≠ []) :
    trim (before ++ cs ++ after) = cs := by
  have right := dropWhile_blanks (fun c mem => blank' c (List.mem_reverse.mp mem))
    (fun c mem => solid c (List.mem_reverse.mp mem)) (List.reverse_ne_nil_iff.mpr some) []
  rw [List.append_nil] at right
  rw [trim, dropBlanksRight, List.append_assoc, dropWhile_blanks blank solid some,
    List.reverse_append, right, List.reverse_reverse]

end Text

namespace Double

def IsNatural (d : Double) (k : Nat) : Prop :=
  d.isNegative = false ∧
    ∃ e : Nat, d.magnitude.exponent = e ∧ d.magnitude.significand * Nat.pow 2 e = k

theorem fields_of_bits (field fraction : Nat) (fits : field < 2048) (normal : field ≠ 0)
    (small : fraction < unitBit) {d : Double}
    (bits : d.bits = UInt64.ofNat (field * unitBit + fraction)) :
    d.isNegative = false ∧ d.magnitude = ⟨fraction + unitBit, (field : Int) - 1075⟩ := by
  have value : d.bits.toNat = field * unitBit + fraction := by
    rw [bits, UInt64.toNat_ofNat_of_lt']
    simp only [unitBit, UInt64.size] at small ⊢
    omega
  have exponent : d.exponentField = field := by
    simp only [exponentField, value, unitBit] at small ⊢
    omega
  have rest : d.bits.toNat % unitBit = fraction := by
    simp only [value, unitBit] at small ⊢
    omega
  constructor
  · simp only [isNegative, value, signBit, unitBit, beq_eq_false_iff_ne] at small ⊢
    omega
  · rw [magnitude, exponent, if_neg normal, rest]

theorem roundHalfEven_bounds (n den : Nat) :
    n / den ≤ roundHalfEven n den ∧ roundHalfEven n den ≤ n / den + 1 := by
  simp only [roundHalfEven]
  split
  · omega
  · split <;> omega

theorem ofFraction?_wide {n : Nat} (low : 0x8000000000000000 ≤ n)
    (high : n < 0x10000000000000000) :
    ∃ d, ofFraction? false n 1 = some d ∧ d.IsNatural (2048 * roundHalfEven n 2048) := by
  have width : n.log2 = 63 := by
    rw [Nat.log2_eq_iff (by omega)]
    omega
  have estimate : (n.log2 : Int) - Nat.log2 1 - 53 = 10 := by
    rw [width]
    rfl
  have coarse : scaled n 1 10 = (n, 1024) := rfl
  have fine : scaled n 1 11 = (n, 2048) := rfl
  have wide : n / 1024 ≥ 2 * unitBit := by
    simp only [unitBit]
    omega
  have exponent : max (-1074) ((10 : Int) + 1) = 11 := rfl
  obtain ⟨lower, upper⟩ := roundHalfEven_bounds n 2048
  simp only [ofFraction?, estimate, coarse, wide, if_true, exponent, fine]
  by_cases full : roundHalfEven n 2048 = 2 * unitBit
  · obtain ⟨positive, magnitude⟩ := fields_of_bits 1087 0
      (d := ⟨UInt64.ofNat (1087 * unitBit)⟩) (by decide) (by decide) (by decide)
      (by rw [Nat.add_zero])
    refine ⟨_, ?_, positive, 12, congrArg Magnitude.exponent magnitude, ?_⟩
    · simp [full]
    · rw [magnitude, full]
      rfl
  · have normal : ¬ roundHalfEven n 2048 < unitBit := by
      simp only [unitBit]
      omega
    have fraction : roundHalfEven n 2048 % unitBit = roundHalfEven n 2048 - unitBit := by
      simp only [unitBit] at full ⊢
      omega
    obtain ⟨positive, magnitude⟩ := fields_of_bits 1086 (roundHalfEven n 2048 - unitBit)
      (d := ⟨UInt64.ofNat (1086 * unitBit + (roundHalfEven n 2048 - unitBit))⟩)
      (by decide) (by decide) (by simp only [unitBit] at full ⊢; omega) rfl
    refine ⟨_, ?_, positive, 11, congrArg Magnitude.exponent magnitude, ?_⟩
    · simp [full, normal, fraction]
    · have power : Nat.pow 2 11 = 2048 := rfl
      rw [magnitude, power]
      dsimp only
      omega

theorem ofDecimal?_wide {n : Nat} (low : 0x8000000000000000 ≤ n)
    (high : n < 0x10000000000000000) :
    ∃ d, ofDecimal? false n 0 = some d ∧ d.IsNatural (2048 * roundHalfEven n 2048) := by
  have width : decimalWidth n ≤ 20 := by
    rw [decimalWidth, if_neg (by omega), Nat.length_toDigits_le_iff (by decide) (by decide)]
    omega
  have positive : n ≠ 0 := by omega
  have few : ¬ (0 : Int) + decimalWidth n > 310 := by omega
  have many : ¬ (0 : Int) + decimalWidth n < -330 := by omega
  obtain ⟨d, rounded, natural⟩ := ofFraction?_wide low high
  refine ⟨d, ?_, natural⟩
  unfold ofDecimal?
  rw [if_neg positive]
  simp only [few, many, if_false]
  rw [← rounded]
  exact congrArg (ofFraction? false · 1) (Nat.mul_one n)

end Double

namespace Number

theorem digitsToNat?_toDigits (n : Nat) : digitsToNat? (Nat.toDigits 10 n) = some n := by
  have digits : (Nat.toDigits 10 n).all Char.isDigit = true :=
    List.all_eq_true.mpr fun c mem => Nat.isDigit_of_mem_toDigits (by decide) (by decide) mem
  have some : (Nat.toDigits 10 n).isEmpty = false :=
    List.isEmpty_eq_false_iff.mpr Nat.toDigits_ne_nil
  rw [digitsToNat?, foldl_toDigits, some, digits]
  rfl

theorem splitSign_toDigits (n : Nat) :
    splitSign (Nat.toDigits 10 n) = (false, Nat.toDigits 10 n) := by
  unfold splitSign
  split
  · rename_i spelled
    have digit : '-'.isDigit = true :=
      Nat.isDigit_of_mem_toDigits (by decide) (by decide) (spelled ▸ List.mem_cons_self)
    cases digit
  · rename_i spelled
    have digit : '+'.isDigit = true :=
      Nat.isDigit_of_mem_toDigits (by decide) (by decide) (spelled ▸ List.mem_cons_self)
    cases digit
  · rfl

theorem ofSignedText?_of_split {cs digits : List Char} {negative : Bool} {n : Nat} {value : Int}
    (sign : splitSign cs = (negative, digits)) (read : digitsToNat? digits = some n)
    (signed : (if negative then -(n : Int) else n) = value) :
    ofSignedText? cs = if value < 0x8000000000000000 then ofInt? value else none := by
  subst signed
  simp only [ofSignedText?, sign, read, Option.bind_eq_bind, Option.bind_some]

theorem ofSignedText?_toString (n : Int) :
    ofSignedText? (toString n).toList = if n < 0x8000000000000000 then ofInt? n else none := by
  rw [toList_toString_int]
  split
  · have signed : (if true then -(n.natAbs : Int) else n.natAbs) = n := by
      rw [if_pos rfl]
      omega
    exact ofSignedText?_of_split rfl (digitsToNat?_toDigits _) signed
  · have signed : (if false then -(n.natAbs : Int) else n.natAbs) = n := by
      rw [if_neg Bool.false_ne_true]
      omega
    exact ofSignedText?_of_split (splitSign_toDigits _) (digitsToNat?_toDigits _) signed

theorem ofDecimalText?_toDigits (n : Nat) :
    ofDecimalText? (Nat.toDigits 10 n) = (Double.ofDecimal? false n 0).map .double := by
  have digits : ∀ c ∈ Nat.toDigits 10 n, c.isDigit = true := fun c mem =>
    Nat.isDigit_of_mem_toDigits (by decide) (by decide) mem
  have whole : (Nat.toDigits 10 n ++ []).span Char.isDigit = (Nat.toDigits 10 n, []) :=
    span_digits digits (by simp)
  rw [List.append_nil] at whole
  simp only [ofDecimalText?, splitSign_toDigits, whole, List.append_nil, digitsToNat?_toDigits,
    Option.bind_eq_bind, Option.bind_some]
  have unscaled : (0 : Int) - ([] : List Char).length = 0 := rfl
  rw [unscaled]
  cases Double.ofDecimal? false n 0 <;> rfl

theorem ofText?_surrounded {before cs after : List Char}
    (blank : ∀ c ∈ before, Text.isBlank c = true) (blank' : ∀ c ∈ after, Text.isBlank c = true)
    (numeric : ∀ c ∈ cs, IsNumeric c) (some : cs ≠ []) :
    ofText? (String.ofList (before ++ cs ++ after)) =
      (ofSignedText? cs).or (ofDecimalText? cs) := by
  have trimmed := Text.trim_surrounded blank blank'
    (fun c mem => isBlank_of_isNumeric (numeric c mem)) some
  have present : cs.isEmpty = false := List.isEmpty_eq_false_iff.mpr some
  simp only [ofText?, String.toList_ofList, trimmed, present, Bool.false_eq_true, if_false]
  cases ofSignedText? cs <;> rfl

theorem signedOrDecimal_toString {n : Int} (held : IsWordSized n) :
    ∃ m, (ofSignedText? (toString n).toList).or (ofDecimalText? (toString n).toList) = some m ∧
      (m = .integer n held ↔ n < 0x8000000000000000) ∧
      (0x8000000000000000 ≤ n →
        ∃ d, m = .double d ∧ d.IsNatural (2048 * Double.roundHalfEven n.natAbs 2048)) := by
  by_cases narrow : n < 0x8000000000000000
  · refine ⟨.integer n held, ?_, iff_of_true rfl narrow, fun wide => absurd narrow (by omega)⟩
    rw [ofSignedText?_toString, if_pos narrow, ofInt?, dif_pos held, Option.some_or]
  · obtain ⟨d, rounded, natural⟩ := Double.ofDecimal?_wide (n := n.natAbs) (by omega)
      (by have below := held.2; omega)
    refine ⟨.double d, ?_, iff_of_false (fun same => nomatch same) narrow,
      fun _ => ⟨d, rfl, natural⟩⟩
    rw [ofSignedText?_toString, if_neg narrow, Option.none_or, toList_toString_int,
      if_neg (by omega), ofDecimalText?_toDigits, rounded]
    rfl

end Number

/-- The numeral that stands for an integer where a string is wanted is a number again where one is
wanted, blanks around it or not: the integer itself exactly if 64 bits with a sign hold it, and
above them the nearest multiple of 2048. -/
theorem ScalarRule.coerce_numeral {n : Int} (held : IsWordSized n) :
    ∃ s, coerce (.string .any) (some (.number (.integer n held))) = .ok (.string s) ∧
      ∀ before after : String, Text.isAllBlank before → Text.isAllBlank after →
        ∃ m, coerce .number (some (.string (before ++ s ++ after))) = .ok (.number m) ∧
          (m = .integer n held ↔ n < 0x8000000000000000) ∧
          (0x8000000000000000 ≤ n →
            ∃ d, m = .double d ∧ d.IsNatural (2048 * Double.roundHalfEven n.natAbs 2048)) := by
  refine ⟨toString n, rfl, fun before after blank blank' => ?_⟩
  obtain ⟨m, read, exact, wide⟩ := Number.signedOrDecimal_toString held
  refine ⟨m, ?_, exact, wide⟩
  have numeric : ∀ c ∈ (toString n).toList, IsNumeric c := fun c mem =>
    Number.isNumeric_of_mem_render (n := .integer n held) mem
  have some : (toString n).toList ≠ [] := by
    rw [toList_toString_int]
    split
    · exact List.cons_ne_nil _ _
    · exact Nat.toDigits_ne_nil
  have text := Number.ofText?_surrounded (List.all_eq_true.mp blank) (List.all_eq_true.mp blank')
    numeric some
  rw [← String.toList_append, ← String.toList_append, String.ofList_toList] at text
  simp only [coerce, coercePresent, coerceNumber, text, read, Except.map]

theorem lowestInteger_reread :
    IsWordSized (-0x8000000000000000) ∧ Text.isAllBlank "\t " = true ∧
    Text.isAllBlank "\u2003\n" = true ∧
    ScalarRule.coerce .number
      (some (.string ("\t " ++ "-9223372036854775808" ++ "\u2003\n"))) =
        .ok (.number (.integer (-0x8000000000000000) (by decide))) := by
  have held : IsWordSized (-0x8000000000000000) := by decide
  have blank : Text.isAllBlank "\t " = true := by decide
  have blank' : Text.isAllBlank "\u2003\n" = true := by decide
  obtain ⟨s, spelled, read⟩ := ScalarRule.coerce_numeral held
  cases spelled
  obtain ⟨m, coerced, exact, -⟩ := read _ _ blank blank'
  rw [exact.mpr (by decide)] at coerced
  exact ⟨held, blank, blank', coerced⟩

theorem highestInteger_rounded :
    ScalarRule.coerce (.string .any)
      (some (.number (.integer 0xFFFFFFFFFFFFFFFF (by decide)))) =
        .ok (.string "18446744073709551615") ∧
    ScalarRule.coerce .number (some (.string "18446744073709551615")) =
      .ok (.number (.double ⟨0x43F0000000000000⟩)) ∧
    Double.IsNatural ⟨0x43F0000000000000⟩ 0x10000000000000000 :=
  ⟨rfl, rfl, rfl, 12, rfl, rfl⟩

end FederatedMock
