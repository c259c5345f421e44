import FederatedMock.Proofs.Decimal.Characters
import FederatedMock.Shape.Coercion

namespace FederatedMock

namespace Text

def asciiDigit (c : Char) : Char :=
  match digitZeros.find? fun first => first ≤ c.toNat && c.toNat < first + 10 with
  | some first => Nat.digitChar (c.toNat - first)
  | none => c

theorem digitChar_of_isDigit {c : Char} (digit : c.isDigit = true) :
    Nat.digitChar (c.toNat - 48) = c := by
  obtain ⟨low, high⟩ := toNat_of_isDigit digit
  apply Char.toNat_inj.mp
  rw [Nat.toNat_digitChar_of_lt_ten (by omega)]
  omega

theorem asciiDigit_of_isDigit {c : Char} (digit : c.isDigit = true) : asciiDigit c = c := by
  obtain ⟨low, high⟩ := toNat_of_isDigit digit
  have first :
      digitZeros.find? (fun first => first ≤ c.toNat && c.toNat < first + 10) = some 48 := by
    rw [digitZeros, List.find?_cons_of_pos]
    simp
    omega
  rw [asciiDigit, first]
  exact digitChar_of_isDigit digit

theorem asciiDigit_of_not_decimal {c : Char} (other : isDecimalDigit c = false) :
    asciiDigit c = c := by
  have none : digitZeros.find? (fun first => first ≤ c.toNat && c.toNat < first + 10) = none := by
    rw [List.find?_eq_none]
    intro first mem inside
    have found : isDecimalDigit c = true := List.any_eq_true.mpr ⟨first, mem, inside⟩
    rw [other] at found
    cases found
  rw [asciiDigit, none]

theorem isDigit_asciiDigit {c : Char} : (asciiDigit c).isDigit = isDecimalDigit c := by
  cases decimal : isDecimalDigit c with
  | true =>
      obtain ⟨first, found⟩ := Option.isSome_iff_exists.mp
        (List.find?_isSome.mpr (List.any_eq_true.mp decimal))
      have inside := List.find?_some found
      simp only [Bool.and_eq_true, decide_eq_true_eq] at inside
      rw [asciiDigit, found]
      rw [Nat.isDigit_digitChar]
      exact decide_eq_true (by omega)
  | false =>
      rw [asciiDigit_of_not_decimal decimal]
      apply Bool.eq_false_iff.mpr
      intro digit
      rw [isDecimalDigit_of_isDigit digit] at decimal
      cases decimal

theorem asciiDigit_eq_iff {c mark : Char} (other : isDecimalDigit mark = false) :
    asciiDigit c = mark ↔ c = mark := by
  cases decimal : isDecimalDigit c with
  | true =>
      constructor
      · rintro rfl
        rw [← isDigit_asciiDigit] at decimal
        rw [isDecimalDigit_of_isDigit decimal] at other
        cases other
      · rintro rfl
        exact asciiDigit_of_not_decimal other
  | false => rw [asciiDigit_of_not_decimal decimal]

end Text

namespace LocalTime

open Text

def twoDigits (n : Nat) : List Char := [Nat.digitChar (n / 10), Nat.digitChar (n % 10)]

inductive IsPlainFraction : List Char → Prop
  | none : IsPlainFraction []
  | some {ds : List Char} (present : ds ≠ []) (digits : ∀ c ∈ ds, c.isDigit = true) :
      IsPlainFraction ('.' :: ds)

/-- `HH:MM:SS`, perhaps with a fraction, all in ASCII. -/
def IsPlain (cs : List Char) : Prop :=
  ∃ h < 24, ∃ m < 60, ∃ s < 60, ∃ fraction, IsPlainFraction fraction ∧
    cs = twoDigits h ++ ':' :: (twoDigits m ++ ':' :: (twoDigits s ++ fraction))

theorem twoDigits_eq_iff {n : Nat} {a b : Char} (small : n < 100) :
    twoDigits n = [a, b] ↔
      a.isDigit = true ∧ b.isDigit = true ∧ n = 10 * (a.toNat - 48) + (b.toNat - 48) := by
  have tens : n / 10 < 10 := by omega
  have ones : n % 10 < 10 := by omega
  constructor
  · intro same
    obtain ⟨rfl, rfl⟩ : Nat.digitChar (n / 10) = a ∧ Nat.digitChar (n % 10) = b := by
      simpa [twoDigits] using same
    rw [Nat.isDigit_digitChar, Nat.isDigit_digitChar, Nat.toNat_digitChar_of_lt_ten tens,
      Nat.toNat_digitChar_of_lt_ten ones]
    exact ⟨decide_eq_true tens, decide_eq_true ones, by omega⟩
  · rintro ⟨digit, digit', rfl⟩
    obtain ⟨low, high⟩ := toNat_of_isDigit digit
    obtain ⟨low', high'⟩ := toNat_of_isDigit digit'
    have upper : (10 * (a.toNat - 48) + (b.toNat - 48)) / 10 = a.toNat - 48 := by omega
    have lower : (10 * (a.toNat - 48) + (b.toNat - 48)) % 10 = b.toNat - 48 := by omega
    rw [twoDigits, upper, lower, digitChar_of_isDigit digit, digitChar_of_isDigit digit']

theorem isDigit_of_bounds {c : Char} (low : 48 ≤ c.toNat) (high : c.toNat ≤ 57) :
    c.isDigit = true := by
  simp only [Char.isDigit, ge_iff_le, Bool.and_eq_true, decide_eq_true_eq, UInt32.le_iff_toNat_le]
  exact ⟨low, high⟩

theorem isSixtieth_iff {a b : Char} :
    isSixtieth a b = true ↔
      asciiDigit a = a ∧ ∃ n < 60, twoDigits n = [asciiDigit a, asciiDigit b] := by
  simp only [isSixtieth, Bool.and_eq_true, decide_eq_true_eq, and_assoc]
  constructor
  · rintro ⟨low, high, digit⟩
    have low : 48 ≤ a.toNat := low
    have high : a.toNat ≤ 53 := high
    have leading := isDigit_of_bounds low (by omega)
    rw [← isDigit_asciiDigit] at digit
    obtain ⟨-, below⟩ := toNat_of_isDigit digit
    rw [asciiDigit_of_isDigit leading]
    exact ⟨rfl, _, by omega, (twoDigits_eq_iff (by omega)).mpr ⟨leading, digit, rfl⟩⟩
  · rintro ⟨leading, n, small, spelled⟩
    obtain ⟨digit, digit', rfl⟩ := (twoDigits_eq_iff (by omega)).mp spelled
    rw [leading] at digit small
    obtain ⟨low, high⟩ := toNat_of_isDigit digit
    have high : a.toNat ≤ 53 := by omega
    exact ⟨low, high, isDigit_asciiDigit.symm.trans digit'⟩

theorem isHour_iff {a b : Char} :
    isHour a b = true ↔
      asciiDigit a = a ∧ (a = '2' → asciiDigit b = b) ∧
        ∃ n < 24, twoDigits n = [asciiDigit a, asciiDigit b] := by
  simp only [isHour, Bool.or_eq_true, Bool.and_eq_true, beq_iff_eq, decide_eq_true_eq, and_assoc]
  constructor
  · rintro (⟨early, digit⟩ | ⟨rfl, low, high⟩)
    · have leading : a.isDigit = true := by
        rcases early with rfl | rfl <;> rfl
      have value : a.toNat - 48 ≤ 1 := by
        rcases early with rfl | rfl <;> decide
      have other : a ≠ '2' := by
        rcases early with rfl | rfl <;> decide
      rw [← isDigit_asciiDigit] at digit
      obtain ⟨-, below⟩ := toNat_of_isDigit digit
      rw [asciiDigit_of_isDigit leading]
      exact ⟨rfl, fun same => absurd same other, _, by omega,
        (twoDigits_eq_iff (by omega)).mpr ⟨leading, digit, rfl⟩⟩
    · have low : 48 ≤ b.toNat := low
      have high : b.toNat ≤ 51 := high
      have digit := isDigit_of_bounds low (by omega)
      have value : '2'.toNat - 48 = 2 := rfl
      rw [asciiDigit_of_isDigit (c := '2') rfl, asciiDigit_of_isDigit digit]
      exact ⟨rfl, fun _ => rfl, _, by omega,
        (twoDigits_eq_iff (by omega)).mpr ⟨rfl, digit, rfl⟩⟩
  · rintro ⟨leading, strict, n, small, spelled⟩
    obtain ⟨digit, digit', rfl⟩ := (twoDigits_eq_iff (by omega)).mp spelled
    rw [leading] at digit small
    obtain ⟨low, high⟩ := toNat_of_isDigit digit
    obtain zero | one | two : a.toNat = 48 ∨ a.toNat = 49 ∨ a.toNat = 50 := by omega
    · exact .inl ⟨.inl (Char.toNat_inj.mp zero), isDigit_asciiDigit.symm.trans digit'⟩
    · exact .inl ⟨.inr (Char.toNat_inj.mp one), isDigit_asciiDigit.symm.trans digit'⟩
    · have late : a = '2' := Char.toNat_inj.mp two
      rw [strict late] at small digit'
      obtain ⟨low', high'⟩ := toNat_of_isDigit digit'
      have high' : b.toNat ≤ 51 := by omega
      exact .inr ⟨late, low', high'⟩

theorem isFraction_iff {cs : List Char} :
    isFraction cs = true ↔ IsPlainFraction (cs.map asciiDigit) := by
  have point {c : Char} : asciiDigit c = '.' ↔ c = '.' := asciiDigit_eq_iff (by decide)
  constructor
  · intro valid
    unfold isFraction at valid
    split at valid
    · exact .none
    · rename_i d ds
      simp only [Bool.and_eq_true, List.all_eq_true, ← isDigit_asciiDigit] at valid
      rw [List.map_cons, point.mpr rfl]
      refine .some (List.cons_ne_nil _ _) ?_
      simpa using valid
    · cases valid
  · intro plain
    generalize spelled : cs.map asciiDigit = ascii at plain
    cases plain with
    | none =>
        rw [List.map_eq_nil_iff.mp spelled]
        rfl
    | some present digits =>
        obtain ⟨c, ds, rfl, marked, rfl⟩ := List.map_eq_cons_iff.mp spelled
        rw [point.mp marked]
        cases ds with
        | nil => exact absurd rfl present
        | cons d ds => simpa [isFraction, isDigit_asciiDigit] using digits

/-- The places where digits of other scripts do not pass. -/
def strictPlaces : List Char → List Nat
  | '2' :: _ => [0, 1, 3, 6]
  | _ => [0, 3, 6]

theorem forall_strictPlaces_iff {P : Char → Prop} {h₁ h₂ c₁ m₁ m₂ c₂ s₁ s₂ : Char}
    {rest : List Char} :
    (∀ i ∈ strictPlaces (h₁ :: h₂ :: c₁ :: m₁ :: m₂ :: c₂ :: s₁ :: s₂ :: rest),
      ∀ c ∈ (h₁ :: h₂ :: c₁ :: m₁ :: m₂ :: c₂ :: s₁ :: s₂ :: rest)[i]?, P c) ↔
      P h₁ ∧ (h₁ = '2' → P h₂) ∧ P m₁ ∧ P s₁ := by
  by_cases late : h₁ = '2'
  · simp [late, strictPlaces]
  · simp [late, strictPlaces]

theorem isValidChars_iff {cs : List Char} :
    isValidChars cs = true ↔
      IsPlain (cs.map asciiDigit) ∧ ∀ i ∈ strictPlaces cs, ∀ c ∈ cs[i]?, asciiDigit c = c := by
  have colon {c : Char} : asciiDigit c = ':' ↔ c = ':' := asciiDigit_eq_iff (by decide)
  constructor
  · intro valid
    unfold isValidChars at valid
    split at valid
    · rename_i h₁ h₂ m₁ m₂ s₁ s₂ rest
      simp only [Bool.and_eq_true, isHour_iff, isSixtieth_iff, isFraction_iff] at valid
      obtain ⟨⟨⟨⟨hour, late, h, hh, spelled⟩, minute, m, hm, spelled'⟩, second, s, hs, spelled''⟩,
        fraction⟩ := valid
      refine ⟨⟨h, hh, m, hm, s, hs, _, fraction, ?_⟩,
        forall_strictPlaces_iff.mpr ⟨hour, late, minute, second⟩⟩
      simp only [List.map_cons, spelled, spelled', spelled'', colon.mpr rfl, List.cons_append,
        List.nil_append]
    · cases valid
  · rintro ⟨⟨h, hh, m, hm, s, hs, fraction, plain, spelled⟩, strict⟩
    simp only [twoDigits, List.cons_append, List.nil_append, List.map_eq_cons_iff] at spelled
    obtain ⟨h₁, _, rfl, a, h₂, _, rfl, b, c₁, _, rfl, c, m₁, _, rfl, d, m₂, _, rfl, e, c₂, _, rfl,
      f, s₁, _, rfl, g, s₂, rest, rfl, i, rfl⟩ := spelled
    obtain ⟨hour, late, minute, second⟩ := forall_strictPlaces_iff.mp strict
    rw [colon] at c f
    subst c f
    have hours : twoDigits h = [asciiDigit h₁, asciiDigit h₂] := by rw [a, b, twoDigits]
    have minutes : twoDigits m = [asciiDigit m₁, asciiDigit m₂] := by rw [d, e, twoDigits]
    have seconds : twoDigits s = [asciiDigit s₁, asciiDigit s₂] := by rw [g, i, twoDigits]
    simp only [isValidChars, Bool.and_eq_true, isHour_iff, isSixtieth_iff, isFraction_iff]
    exact ⟨⟨⟨⟨hour, late, h, hh, hours⟩, minute, m, hm, minutes⟩, second, s, hs, seconds⟩, plain⟩

theorem map_asciiDigit_twoDigits {n : Nat} (small : n < 100) :
    (twoDigits n).map asciiDigit = twoDigits n := by
  obtain ⟨tens, ones, -⟩ := (twoDigits_eq_iff small).mp rfl
  rw [twoDigits, List.map_cons, List.map_cons, List.map_nil, asciiDigit_of_isDigit tens,
    asciiDigit_of_isDigit ones]

theorem IsPlainFraction.map_asciiDigit {cs : List Char} (plain : IsPlainFraction cs) :
    cs.map asciiDigit = cs := by
  cases plain with
  | none => rfl
  | some present digits =>
      rw [List.map_cons, asciiDigit_of_not_decimal (by decide),
        List.map_congr_left fun c mem => asciiDigit_of_isDigit (digits c mem), List.map_id']

theorem IsPlain.map_asciiDigit {cs : List Char} (plain : IsPlain cs) : cs.map asciiDigit = cs := by
  obtain ⟨h, hh, m, hm, s, hs, fraction, decimals, rfl⟩ := plain
  have colon : asciiDigit ':' = ':' := asciiDigit_of_not_decimal (by decide)
  rw [List.map_append, List.map_cons, List.map_append, List.map_cons, List.map_append, colon,
    map_asciiDigit_twoDigits (by omega), map_asciiDigit_twoDigits (by omega),
    map_asciiDigit_twoDigits (by omega), decimals.map_asciiDigit]

theorem isValidChars_iff_isPlain {cs : List Char} :
    isValidChars cs = true ∧ cs.map asciiDigit = cs ↔ IsPlain cs := by
  rw [isValidChars_iff]
  constructor
  · rintro ⟨⟨plain, -⟩, same⟩
    rwa [same] at plain
  · intro plain
    have same := plain.map_asciiDigit
    refine ⟨⟨same.symm ▸ plain, fun i _ c there => ?_⟩, same⟩
    have kept : (cs.map asciiDigit)[i]? = some c := by rw [same, there]
    rw [List.getElem?_map, there] at kept
    exact Option.some.inj kept

theorem colon_mem_of_isValidChars {cs : List Char} (valid : isValidChars cs = true) : ':' ∈ cs := by
  unfold isValidChars at valid
  split at valid
  · simp
  · cases valid

theorem isValid_render (n : Number) : isValid n.render = false := by
  apply Bool.eq_false_iff.mpr
  intro valid
  have colon := Number.isNumeric_of_mem_render (colon_mem_of_isValidChars valid)
  revert colon
  decide

end LocalTime

open LocalTime Text

theorem coerce_localTime_string (s : String) (w : Json) :
    ScalarRule.coerce (.string .localTime) (some (.string s)) = .ok w ↔
      w = .string s ∧ isValidChars s.toList = true := by
  have rule : ScalarRule.coerce (.string .localTime) (some (.string s)) =
      if isValidChars s.toList then .ok (.string s) else .error "Invalid time" := rfl
  rw [rule]
  split
  · rename_i valid
    simp [valid, eq_comm]
  · rename_i invalid
    simp [invalid]

theorem string_of_coerce_localTime {v w : Json}
    (passes : ScalarRule.coerce (.string .localTime) (some v) = .ok w) : ∃ s, v = .string s := by
  cases v with
  | string s => exact ⟨s, rfl⟩
  | null =>
      have invalid : isValid "null" = false := rfl
      simp [ScalarRule.coerce, ScalarRule.coercePresent, coerceString, StringFormat.accepts,
        invalid] at passes
  | boolean b =>
      have invalid : isValid (if b then "true" else "false") = false := by cases b <;> rfl
      simp [ScalarRule.coerce, ScalarRule.coercePresent, coerceString, StringFormat.accepts,
        invalid] at passes
  | number n =>
      simp [ScalarRule.coerce, ScalarRule.coercePresent, coerceString, StringFormat.accepts,
        isValid_render] at passes
  | array items => simp [ScalarRule.coerce, ScalarRule.coercePresent, coerceString] at passes
  | object members => simp [ScalarRule.coerce, ScalarRule.coercePresent, coerceString] at passes

/-- Only strings pass for local times, and they come out as they are. A string passes if it is a
plain time once its digits are written in ASCII, those at strict places being so already; hence the
plain times are those that pass and have no digit of another script. -/
theorem ScalarRule.coerce_localTime (v w : Json) :
    (coerce (.string .localTime) (some v) = .ok w ↔
      ∃ s, v = .string s ∧ w = .string s ∧ IsPlain (s.toList.map asciiDigit) ∧
        ∀ i ∈ strictPlaces s.toList, ∀ c ∈ s.toList[i]?, asciiDigit c = c) ∧
    ((∃ s, v = .string s ∧ w = .string s ∧ IsPlain s.toList) ↔
      coerce (.string .localTime) (some v) = .ok w ∧
        ∃ s, v = .string s ∧ s.toList.map asciiDigit = s.toList) := by
  constructor
  · simp only [← isValidChars_iff]
    constructor
    · intro passes
      obtain ⟨s, rfl⟩ := string_of_coerce_localTime passes
      obtain ⟨same, valid⟩ := (coerce_localTime_string s w).mp passes
      exact ⟨s, rfl, same, valid⟩
    · rintro ⟨s, rfl, same, valid⟩
      exact (coerce_localTime_string s w).mpr ⟨same, valid⟩
  · simp only [← isValidChars_iff_isPlain]
    constructor
    · rintro ⟨s, rfl, same, valid, ascii⟩
      exact ⟨(coerce_localTime_string s w).mpr ⟨same, valid⟩, s, rfl, ascii⟩
    · rintro ⟨passes, s, rfl, ascii⟩
      obtain ⟨same, valid⟩ := (coerce_localTime_string s w).mp passes
      exact ⟨s, rfl, same, valid, ascii⟩

theorem arabicHour_passes :
    ScalarRule.coerce (.string .localTime) (some (.string "1٣:45:00")) =
      .ok (.string "1٣:45:00") ∧
    ¬ IsPlain "1٣:45:00".toList := by
  refine ⟨rfl, fun plain => ?_⟩
  have same := plain.map_asciiDigit
  revert same
  decide

end FederatedMock
