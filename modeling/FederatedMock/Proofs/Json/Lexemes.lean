import FederatedMock.Proofs.Json.Numbers
import FederatedMock.Proofs.Json.Strings

namespace FederatedMock.Json

/-- A text begins with a token, wherever the text stands. -/
def Lexes (cs : List Char) (l : Lexeme) (rest : List Char) : Prop :=
  ∃ c tail, cs = c :: tail ∧ isBlank c = false ∧ rest.length ≤ tail.length ∧
    ∀ offset, ∃ offset', lexeme c ⟨tail, offset⟩ = (l, some ⟨rest, offset'⟩)

theorem hexValue?_hexDigit {n : Nat} (small : n < 16) : hexValue? (hexDigit n) = some n := by
  revert n
  decide

theorem unicodeEscape_control {c : Char} (control : c.toNat < 32) (rest : List Char)
    (offset : Nat) :
    unicodeEscape
      ⟨'0' :: '0' :: hexDigit (c.toNat / 16) :: hexDigit (c.toNat % 16) :: rest, offset⟩ =
        .ok (c, ⟨rest, offset + 4⟩) := by
  have value : ((0 * 16 + 0) * 16 + c.toNat / 16) * 16 + c.toNat % 16 = c.toNat := by omega
  have zero : hexValue? '0' = some 0 := rfl
  have read : hexEscape
      ⟨'0' :: '0' :: hexDigit (c.toNat / 16) :: hexDigit (c.toNat % 16) :: rest, offset⟩ =
      .ok (c.toNat, ⟨rest, offset + 4⟩) := by
    simp only [hexEscape, zero, hexValue?_hexDigit (n := c.toNat / 16) (by omega),
      hexValue?_hexDigit (n := c.toNat % 16) (by omega), value]
  have trailing : ¬ (0xDC00 ≤ c.toNat ∧ c.toNat ≤ 0xDFFF) := by omega
  have plain : c.toNat < 0xD800 ∨ 0xDBFF < c.toNat := by omega
  simp only [unicodeEscape, read, bind, Except.bind, trailing, plain, if_true, if_false,
    Char.ofNat_toNat]

theorem stringBody_plain {fuel : Nat} {acc : List Char} {c : Char} {rest : List Char}
    {offset : Nat} (quote : c ≠ '"') (slash : c ≠ '\\') (printable : ¬ c.toNat < 32) :
    stringBody (fuel + 1) acc ⟨c :: rest, offset⟩ =
      stringBody fuel (c :: acc) ⟨rest, offset + c.utf8Size⟩ := by
  simp only [stringBody, quote, slash, printable, if_false]

theorem stringBody_escapeChar (fuel : Nat) (acc : List Char) (c : Char) (rest : List Char)
    (offset : Nat) :
    ∃ offset', stringBody (fuel + 1) acc ⟨escapeChar c ++ rest, offset⟩ =
      stringBody fuel (c :: acc) ⟨rest, offset'⟩ := by
  unfold escapeChar
  split_ifs with quote slash b f n r t control
  · subst quote
    exact ⟨_, rfl⟩
  · subst slash
    exact ⟨_, rfl⟩
  · subst b
    exact ⟨_, rfl⟩
  · subst f
    exact ⟨_, rfl⟩
  · subst n
    exact ⟨_, rfl⟩
  · subst r
    exact ⟨_, rfl⟩
  · subst t
    exact ⟨_, rfl⟩
  · refine ⟨offset + 2 + 4, ?_⟩
    simp [stringBody, unicodeEscape_control control]
  · exact ⟨_, stringBody_plain quote slash control⟩

theorem stringBody_quotedTail {cs : List Char} {fuel : Nat} (enough : cs.length < fuel)
    (acc rest : List Char) :
    Reads (stringBody fuel acc) (quotedTail cs rest) (String.ofList (acc.reverse ++ cs)) rest := by
  induction cs generalizing fuel acc with
  | nil =>
      intro offset
      obtain ⟨fuel, rfl⟩ := Nat.exists_eq_add_of_lt enough
      rw [List.append_nil]
      exact ⟨_, rfl⟩
  | cons c cs ih =>
      intro offset
      obtain ⟨fuel, rfl⟩ : ∃ n, fuel = n + 1 := ⟨fuel - 1, by omega⟩
      obtain ⟨offset₁, step⟩ := stringBody_escapeChar fuel acc c (quotedTail cs rest) offset
      rw [quotedTail_cons, step]
      have read := ih (Nat.lt_of_succ_lt_succ enough) (c :: acc) offset₁
      rwa [List.reverse_cons, List.append_assoc, List.singleton_append] at read

theorem length_le_quotedTail (cs rest : List Char) :
    cs.length + rest.length < (quotedTail cs rest).length := by
  induction cs with
  | nil => simp [quotedTail]
  | cons c cs ih =>
      have some : 0 < (escapeChar c).length := by
        rw [List.length_pos_iff]
        unfold escapeChar
        split_ifs <;> exact List.cons_ne_nil _ _
      rw [quotedTail_cons, List.length_append, List.length_cons]
      omega

theorem lexes_quote (s : String) (rest : List Char) : Lexes (quote s ++ rest) (.text s) rest := by
  have long := length_le_quotedTail s.toList rest
  refine ⟨'"', quotedTail s.toList rest, quote_append s rest, rfl, by omega, fun offset => ?_⟩
  have enough : s.toList.length < (quotedTail s.toList rest).length + 1 := by omega
  obtain ⟨offset', read⟩ := stringBody_quotedTail enough [] rest offset
  refine ⟨offset', ?_⟩
  rw [List.reverse_nil, List.nil_append, String.ofList_toList] at read
  simp only [lexeme, read]

def numberToken : Except Failure (Number × Cursor) → Lexeme × Option Cursor
  | .ok (n, cur) => (.scalar (.number n), some cur)
  | .error f => (.broken f, none)

theorem lexeme_minus (after : Cursor) :
    lexeme '-' after = numberToken (numberAfterSign true after) := rfl

theorem lexeme_digit {c : Char} (digit : c.isDigit = true) (after : Cursor) :
    lexeme c after =
      numberToken (numberAfterSign false ⟨c :: after.rest, after.offset - 1⟩) := by
  unfold lexeme
  split
  all_goals first
    | exact absurd digit (by decide)
    | exact if_pos digit

theorem isBlank_of_isDigit {c : Char} (digit : c.isDigit = true) : isBlank c = false := by
  simp only [isBlank, Bool.or_eq_false_iff, beq_eq_false_iff_ne]
  refine ⟨⟨⟨?_, ?_⟩, ?_⟩, ?_⟩ <;> rintro rfl <;> exact absurd digit (by decide)

theorem lexes_minus {cs rest : List Char} {n : Number} {offset offset' : Nat}
    (read : numberAfterSign true ⟨cs, offset⟩ = .ok (n, ⟨[], offset'⟩)) (stops : Stops rest) :
    Lexes ('-' :: cs ++ rest) (.scalar (.number n)) rest := by
  obtain ⟨-, longer⟩ := numberAfterSign_isLocal true read
  refine ⟨'-', cs ++ rest, rfl, rfl, (List.suffix_append cs rest).length_le, fun offset => ?_⟩
  obtain ⟨offset', read'⟩ := longer rest stops offset
  rw [lexeme_minus, read']
  exact ⟨offset', rfl⟩

theorem lexes_digit {c : Char} {cs rest : List Char} {n : Number} {offset offset' : Nat}
    (digit : c.isDigit = true)
    (read : numberAfterSign false ⟨c :: cs, offset⟩ = .ok (n, ⟨[], offset'⟩)) (stops : Stops rest) :
    Lexes (c :: cs ++ rest) (.scalar (.number n)) rest := by
  obtain ⟨-, longer⟩ := numberAfterSign_isLocal false read
  refine ⟨c, cs ++ rest, rfl, isBlank_of_isDigit digit, (List.suffix_append cs rest).length_le,
    fun offset => ?_⟩
  obtain ⟨offset', read'⟩ := longer rest stops (offset - 1)
  rw [List.cons_append] at read'
  rw [lexeme_digit digit, read']
  exact ⟨offset', rfl⟩

theorem lexes_integer {n : Int} (held : IsWordSized n) {rest : List Char} (stops : Stops rest) :
    Lexes ((toString n).toList ++ rest) (.scalar (.number (.integer n held))) rest := by
  obtain ⟨offset', read⟩ := numberAfterSign_integer held 0
  rw [toList_toString_int]
  by_cases negative : n < 0
  · rw [decide_eq_true negative] at read
    rw [if_pos negative]
    exact lexes_minus read stops
  · rw [decide_eq_false negative] at read
    rw [if_neg negative]
    obtain ⟨c, cs, begins⟩ := List.exists_cons_of_ne_nil (@Nat.toDigits_ne_nil n.natAbs 10)
    have digit : c.isDigit = true := Nat.isDigit_of_mem_toDigits (b := 10) (n := n.natAbs)
      (by decide) (by decide) (begins ▸ List.mem_cons_self)
    rw [begins] at read ⊢
    exact lexes_digit digit read stops

theorem ends_of_readTokens {size start fuel offset : Nat} {m n : Number} {rest : List Char}
    (solid : ∀ c ∈ rest, isBlank c = false)
    (read : readTokens size ⟨[], [], .value⟩
      (⟨.scalar (.number m), start⟩ :: tokensFrom (fuel + 1) ⟨rest, offset⟩) = .ok (.number n)) :
    rest = [] ∧ m = n := by
  have step : Reader.step ⟨[], [], .value⟩ ⟨.scalar (.number m), start⟩ =
      .ok ⟨[], [], .separator (.number m)⟩ := rfl
  rw [readTokens, step] at read
  cases rest with
  | nil =>
      cases read
      exact ⟨rfl, rfl⟩
  | cons c rest =>
      -- Another token, well formed or not, would be a fault.
      have trailing (t : Token) : Reader.step ⟨[], [], .separator (.number m)⟩ t =
          .error ⟨.trailingCharacters, t.start + 1⟩ := rfl
      simp only [tokensFrom, solid c List.mem_cons_self, Bool.false_eq_true, if_false] at read
      split at read <;> simp only [readTokens, trailing] at read <;> cases read

theorem number_of_readTokens {size fuel offset : Nat} {negative : Bool} {c : Char}
    {cs ds : List Char} {n : Number} (solid : ∀ d ∈ c :: ds, isBlank d = false)
    (literal : ∀ offset, ∃ offset',
      lexeme c ⟨cs, offset⟩ = numberToken (numberAfterSign negative ⟨ds, offset'⟩))
    (read : readTokens size ⟨[], [], .value⟩ (tokensFrom (fuel + 2) ⟨c :: cs, offset⟩) =
      .ok (.number n)) :
    ∃ offset offset', numberAfterSign negative ⟨ds, offset⟩ = .ok (n, ⟨[], offset'⟩) := by
  obtain ⟨offset₁, here⟩ := literal (offset + c.utf8Size)
  rw [tokensFrom] at read
  simp only [solid c List.mem_cons_self, Bool.false_eq_true, if_false, here] at read
  cases number : numberAfterSign negative ⟨ds, offset₁⟩ with
  | error f =>
      rw [number] at read
      cases read
  | ok found =>
      obtain ⟨m, ⟨rest, offset'⟩⟩ := found
      rw [number] at read
      obtain ⟨suffix, -⟩ := numberAfterSign_isLocal negative number
      obtain ⟨rfl, rfl⟩ := ends_of_readTokens
        (fun d mem => solid d (List.mem_cons_of_mem c (suffix.subset mem))) read
      exact ⟨offset₁, offset', number⟩

theorem solid_of_isNumeric {c : Char} (numeric : IsNumeric c) : isBlank c = false := by
  rcases numeric with digit | sign
  · exact isBlank_of_isDigit digit
  · simp only [List.mem_cons, List.not_mem_nil, or_false] at sign
    rcases sign with rfl | rfl | rfl | rfl <;> rfl

theorem lexes_of_parse {s : String} {n : Number} (numeric : ∀ c ∈ s.toList, IsNumeric c)
    (read : Json.parse s = .ok (.number n)) {rest : List Char} (stops : Stops rest) :
    Lexes (s.toList ++ rest) (.scalar (.number n)) rest := by
  rw [parse, parseChars, tokens] at read
  generalize byteLength s.toList = size at read
  generalize s.toList = cs at numeric read ⊢
  cases cs with
  | nil => cases read
  | cons c cs =>
      have solid : ∀ d ∈ c :: cs, isBlank d = false := fun d mem =>
        solid_of_isNumeric (numeric d mem)
      rcases numeric c List.mem_cons_self with digit | sign
      · have twice : ∀ d ∈ c :: c :: cs, isBlank d = false :=
          List.forall_mem_cons.mpr ⟨solid c List.mem_cons_self, solid⟩
        obtain ⟨_, _, number⟩ := number_of_readTokens twice
          (fun offset => ⟨offset - 1, lexeme_digit digit ⟨cs, offset⟩⟩) read
        exact lexes_digit digit number stops
      · simp only [List.mem_cons, List.not_mem_nil, or_false] at sign
        rcases sign with rfl | rfl | rfl | rfl
        · obtain ⟨_, _, number⟩ := number_of_readTokens solid
            (fun offset => ⟨offset, lexeme_minus ⟨cs, offset⟩⟩) read
          exact lexes_minus number stops
        · cases read
        · cases read
        · cases read

end FederatedMock.Json
