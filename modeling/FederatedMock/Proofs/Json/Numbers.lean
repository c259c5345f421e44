import FederatedMock.Json.Reader
import FederatedMock.Proofs.Decimal.Characters

namespace FederatedMock.Json

def Stops (cs : List Char) : Prop := ∀ c ∈ cs.head?, c = ',' ∨ c = '\n'

theorem stops_nil : Stops [] := by
  rintro c ⟨⟩

theorem stops_comma (cs : List Char) : Stops (',' :: cs) := by
  rintro c ⟨⟩
  exact .inl rfl

theorem stops_line (cs : List Char) : Stops ('\n' :: cs) := by
  rintro c ⟨⟩
  exact .inr rfl

theorem Stops.not_isDigit {cs : List Char} (stops : Stops cs) :
    ∀ c ∈ cs.head?, c.isDigit = false := by
  intro c head
  rcases stops c head with rfl | rfl <;> rfl

def Reads {α : Type} (read : Cursor → Except Failure (α × Cursor)) (cs : List Char) (a : α)
    (rest : List Char) : Prop :=
  ∀ offset, ∃ offset', read ⟨cs, offset⟩ = .ok (a, ⟨rest, offset'⟩)

/-- What is read of a text is a part of it, and is read of it wherever it stops. -/
def IsLocal {α : Type} (read : Cursor → Except Failure (α × Cursor)) : Prop :=
  ∀ {cs offset a rest offset'}, read ⟨cs, offset⟩ = .ok (a, ⟨rest, offset'⟩) →
    rest <:+ cs ∧ ∀ more, Stops more → Reads read (cs ++ more) a (rest ++ more)

theorem exponentDigits_isLocal (harmless : Bool) (value : Nat) :
    IsLocal fun cur => exponentDigits harmless value cur.rest cur.offset := by
  intro cs offset e rest offset' read
  dsimp only [Reads] at read ⊢
  induction cs generalizing value offset with
  | nil =>
      cases read
      refine ⟨List.suffix_refl _, fun more stops p => ⟨p, ?_⟩⟩
      cases more with
      | nil => rfl
      | cons c more => simp [exponentDigits, stops.not_isDigit c rfl]
  | cons c cs ih =>
      simp only [List.cons_append, exponentDigits] at read ⊢
      by_cases digit : c.isDigit = true
      · by_cases large : value * 10 + (c.toNat - '0'.toNat) > 2147483647
        · by_cases still : harmless = true
          · simp only [if_pos digit, if_pos large, if_pos still] at read ⊢
            obtain ⟨suffix, longer⟩ := ih _ read
            exact ⟨suffix.trans (List.suffix_cons c cs), fun more stops p => longer more stops _⟩
          · simp only [if_pos digit, if_pos large, if_neg still] at read
            cases read
        · simp only [if_pos digit, if_neg large] at read ⊢
          obtain ⟨suffix, longer⟩ := ih _ read
          exact ⟨suffix.trans (List.suffix_cons c cs), fun more stops p => longer more stops _⟩
      · simp only [if_neg digit] at read ⊢
        cases read
        exact ⟨List.suffix_refl _, fun more _ p => ⟨p, rfl⟩⟩

theorem realNumber_isLocal (negative : Bool) (digits : List Char) (e : Int) :
    IsLocal (realNumber negative digits e) := by
  intro cs offset n rest offset' read
  simp only [Reads, realNumber] at read ⊢
  split at read
  · cases read
    exact ⟨List.suffix_refl _, fun _ _ p => ⟨p, rfl⟩⟩
  · cases read

theorem wholeNumber_isLocal (negative : Bool) (digits : List Char) :
    IsLocal (wholeNumber negative digits) := by
  intro cs offset n rest offset' read
  simp only [Reads, wholeNumber] at read ⊢
  split at read
  · cases read
    exact ⟨List.suffix_refl _, fun _ _ p => ⟨p, rfl⟩⟩
  · exact realNumber_isLocal negative digits 0 read

theorem literalEnd_isLocal (negative : Bool) (digits : List Char) (scale : Int) (whole : Bool) :
    IsLocal (literalEnd negative digits scale whole) := by
  cases whole with
  | true => exact wholeNumber_isLocal negative digits
  | false => exact realNumber_isLocal negative digits scale

theorem exponentValue_isLocal (negative : Bool) (digits : List Char) (scale : Int) (down : Bool) :
    IsLocal (exponentValue negative digits scale down) := by
  intro cs offset n rest offset' read
  cases cs with
  | nil => cases read
  | cons d cs =>
      by_cases digit : d.isDigit = true
      · simp only [exponentValue, digit, if_true] at read
        split at read
        · rename_i e after exponent
          obtain ⟨suffix, longer⟩ := exponentDigits_isLocal _ _ exponent
          obtain ⟨suffix', longer'⟩ := realNumber_isLocal _ _ _ read
          refine ⟨suffix'.trans suffix, fun more stops p => ?_⟩
          obtain ⟨q, exponent'⟩ := longer more stops p
          simp only [List.cons_append] at exponent'
          simp only [List.cons_append, exponentValue, digit, if_true, exponent']
          exact longer' more stops q
        · cases read
      · simp only [exponentValue, digit] at read
        cases read

theorem exponentSign_append (c : Char) (cs : List Char) :
    ∃ down rest, rest <:+ c :: cs ∧ ∀ more offset, ∃ offset',
      exponentSign ⟨c :: (cs ++ more), offset⟩ = (down, ⟨rest ++ more, offset'⟩) := by
  by_cases plus : c = '+'
  · subst plus
    exact ⟨false, cs, List.suffix_cons _ _, fun _ _ => ⟨_, rfl⟩⟩
  · by_cases minus : c = '-'
    · subst minus
      exact ⟨true, cs, List.suffix_cons _ _, fun _ _ => ⟨_, rfl⟩⟩
    · refine ⟨false, c :: cs, List.suffix_refl _, fun more offset => ⟨offset, ?_⟩⟩
      simp [exponentSign, plus, minus]

theorem numberExponent_isLocal (negative : Bool) (digits : List Char) (scale : Int)
    (whole : Bool) : IsLocal (numberExponent negative digits scale whole) := by
  intro cs offset n rest offset' read
  cases cs with
  | nil =>
      obtain ⟨suffix, longer⟩ := literalEnd_isLocal negative digits scale whole read
      refine ⟨suffix, fun more stops => ?_⟩
      have same : ∀ p, numberExponent negative digits scale whole ⟨more, p⟩ =
          literalEnd negative digits scale whole ⟨more, p⟩ := by
        intro p
        cases more with
        | nil => rfl
        | cons c more => rcases stops c rfl with rfl | rfl <;> rfl
      intro p
      rw [List.nil_append, same]
      exact longer more stops p
  | cons c cs =>
      by_cases letter : c = 'e' ∨ c = 'E'
      · simp only [List.cons_append, Reads, numberExponent, letter, if_true] at read ⊢
        cases cs with
        | nil => cases read
        | cons d cs =>
            obtain ⟨down, rest', suffix, sign⟩ := exponentSign_append d cs
            obtain ⟨_, here⟩ := sign [] (offset + 1)
            rw [List.append_nil, List.append_nil] at here
            rw [here] at read
            obtain ⟨suffix', longer⟩ := exponentValue_isLocal _ _ _ _ read
            refine ⟨suffix'.trans (suffix.trans (List.suffix_cons _ _)), fun more stops p => ?_⟩
            obtain ⟨q, there⟩ := sign more (p + 1)
            rw [List.cons_append, there]
            exact longer more stops q
      · simp only [List.cons_append, Reads, numberExponent, letter, if_false] at read ⊢
        exact literalEnd_isLocal _ _ _ _ read

theorem numberFraction_isLocal (negative : Bool) (digits : List Char) :
    IsLocal (numberFraction negative digits) := by
  intro cs offset n rest offset' read
  have unbroken {cs : List Char} (other : ∀ c ∈ cs.head?, c ≠ '.') (p : Nat) :
      numberFraction negative digits ⟨cs, p⟩ =
        numberExponent negative digits 0 true ⟨cs, p⟩ := by
    cases cs with
    | nil => rfl
    | cons c cs =>
        have point := other c rfl
        simp [numberFraction, point]
  by_cases point : ∃ cs', cs = '.' :: cs'
  · obtain ⟨cs', rfl⟩ := point
    obtain ⟨fraction, after, here⟩ : ∃ fraction after, cs'.span Char.isDigit = (fraction, after) :=
      ⟨_, _, rfl⟩
    obtain ⟨rfl, longer⟩ := span_digits_append here
    simp only [numberFraction, here] at read
    by_cases none : fraction.isEmpty = true
    · rw [if_pos none] at read
      split at read <;> cases read
    · rw [if_neg none] at read
      obtain ⟨suffix, longer'⟩ := numberExponent_isLocal _ _ _ _ read
      have within : after <:+ '.' :: (fraction ++ after) :=
        (List.suffix_append fraction after).trans (List.suffix_cons _ _)
      refine ⟨suffix.trans within, fun more stops p => ?_⟩
      simp only [List.cons_append, numberFraction, longer more stops.not_isDigit, none]
      exact longer' more stops _
  · have other : ∀ c ∈ cs.head?, c ≠ '.' := by
      rintro c head rfl
      obtain ⟨cs', begins⟩ := List.head?_eq_some_iff.mp head
      exact point ⟨cs', begins⟩
    rw [unbroken other] at read
    obtain ⟨suffix, longer⟩ := numberExponent_isLocal _ _ _ _ read
    refine ⟨suffix, fun more stops p => ?_⟩
    rw [unbroken]
    · exact longer more stops p
    · intro c head
      rcases Option.or_eq_some_iff.mp (List.head?_append.symm.trans head) with inside | ⟨-, after⟩
      · exact other c inside
      · rcases stops c after with rfl | rfl <;> decide

theorem numberAfterSign_of_span {negative : Bool} {c : Char} {cs digits after : List Char}
    (zero : c ≠ '0') (digit : c.isDigit = true)
    (here : (c :: cs).span Char.isDigit = (digits, after)) (offset : Nat) :
    numberAfterSign negative ⟨c :: cs, offset⟩ =
      numberFraction negative digits ⟨after, offset + digits.length⟩ := by
  simp only [numberAfterSign, here, digit, if_true]

theorem numberAfterSign_isLocal (negative : Bool) : IsLocal (numberAfterSign negative) := by
  intro cs offset n rest offset' read
  cases cs with
  | nil => cases read
  | cons c cs =>
      by_cases zero : c = '0'
      · subst zero
        simp only [Reads, List.cons_append, numberAfterSign] at read ⊢
        by_cases digit : cs.head?.any Char.isDigit = true
        · rw [if_pos digit] at read
          cases read
        · rw [if_neg digit] at read
          obtain ⟨suffix, longer⟩ := numberFraction_isLocal _ _ read
          refine ⟨suffix.trans (List.suffix_cons _ _), fun more stops p => ?_⟩
          have digit' : ¬ (cs ++ more).head?.any Char.isDigit = true := by
            cases cs with
            | nil =>
                cases more with
                | nil => exact digit
                | cons d more => simp [stops.not_isDigit d rfl]
            | cons d cs => exact digit
          rw [if_neg digit']
          exact longer more stops _
      · by_cases digit : c.isDigit = true
        · obtain ⟨digits, after, here⟩ :
              ∃ digits after, (c :: cs).span Char.isDigit = (digits, after) := ⟨_, _, rfl⟩
          obtain ⟨whole, longer⟩ := span_digits_append here
          rw [numberAfterSign_of_span zero digit here] at read
          obtain ⟨suffix, longer'⟩ := numberFraction_isLocal _ _ read
          have within : after <:+ c :: cs := whole ▸ List.suffix_append digits after
          refine ⟨suffix.trans within, fun more stops p => ?_⟩
          have here' := longer more stops.not_isDigit
          rw [List.cons_append] at here' ⊢
          rw [numberAfterSign_of_span zero digit here']
          exact longer' more stops _
        · simp only [numberAfterSign, digit] at read
          cases read

theorem toDigits_ne_zero_cons {n : Nat} (positive : 0 < n) (rest : List Char) :
    Nat.toDigits 10 n ≠ '0' :: rest := by
  induction n using Nat.strongRecOn generalizing rest with
  | ind n ih =>
      intro leading
      by_cases small : n < 10
      · rw [Nat.toDigits_of_lt_base small] at leading
        exact absurd (Nat.digitChar_eq_zero.mp (List.cons.inj leading).1) (by omega)
      · rw [Nat.toDigits_of_base_le (by decide) (by omega)] at leading
        obtain ⟨c, cs, begins⟩ := List.exists_cons_of_ne_nil (@Nat.toDigits_ne_nil (n / 10) 10)
        rw [begins, List.cons_append] at leading
        rw [(List.cons.inj leading).1] at begins
        exact ih (n / 10) (by omega) (by omega) cs begins

theorem numberAfterSign_toDigits (negative : Bool) (n offset : Nat) :
    ∃ offset', numberAfterSign negative ⟨Nat.toDigits 10 n, offset⟩ =
      wholeNumber negative (Nat.toDigits 10 n) ⟨[], offset'⟩ := by
  rcases Nat.eq_zero_or_pos n with rfl | positive
  · exact ⟨_, rfl⟩
  · have digits : ∀ c ∈ Nat.toDigits 10 n, c.isDigit = true := fun c mem =>
      Nat.isDigit_of_mem_toDigits (by decide) (by decide) mem
    have whole : (Nat.toDigits 10 n ++ []).span Char.isDigit = (Nat.toDigits 10 n, []) :=
      span_digits digits (by simp)
    rw [List.append_nil] at whole
    have leading := toDigits_ne_zero_cons positive
    obtain ⟨c, cs, begins⟩ := List.exists_cons_of_ne_nil (@Nat.toDigits_ne_nil n 10)
    rw [begins] at digits whole leading ⊢
    have zero : c ≠ '0' := by
      rintro rfl
      exact leading cs rfl
    exact ⟨_, numberAfterSign_of_span zero (digits c List.mem_cons_self) whole offset⟩

theorem numberAfterSign_integer {n : Int} (held : IsWordSized n) (offset : Nat) :
    ∃ offset', numberAfterSign (decide (n < 0)) ⟨Nat.toDigits 10 n.natAbs, offset⟩ =
      .ok (.integer n held, ⟨[], offset'⟩) := by
  obtain ⟨offset', read⟩ := numberAfterSign_toDigits (decide (n < 0)) n.natAbs offset
  refine ⟨offset', read.trans ?_⟩
  have value : digitsValue (Nat.toDigits 10 n.natAbs) = n.natAbs := foldl_toDigits n.natAbs
  by_cases negative : n < 0
  · have signed : -(n.natAbs : Int) = n := by omega
    have positive : n.natAbs ≠ 0 := by omega
    simp only [wholeNumber, value, decide_eq_true negative, positive, signed, Number.ofInt?,
      if_true, if_false, dif_pos held]
  · have signed : (n.natAbs : Int) = n := by omega
    simp only [wholeNumber, value, decide_eq_false negative, signed, Number.ofInt?,
      Bool.false_eq_true, if_false, dif_pos held]

end FederatedMock.Json
