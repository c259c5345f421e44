import FederatedMock.Generation.Basic
import FederatedMock.Generation.Correction
import FederatedMock.Proofs.Decimal.Characters
import FederatedMock.Proofs.Json.Roundtrip
import FederatedMock.Proofs.Text.Fence

namespace FederatedMock

open Text

theorem Prompt.toList_fenced (tag body : String) :
    (fenced tag body).toList =
      backticks ++ (tag.toList ++ '\n' :: (body.toList ++ '\n' :: backticks)) := by
  simp [fenced, backticks]

namespace Json

theorem escapeChar_spec (c : Char) :
    escapeChar c = [c] ∧ c ≠ '\n' ∨
      (escapeChar c).head? = some '\\' ∧ (escapeChar c).all isInert = true ∧
        isTagLetter c = false := by
  by_cases control : c.toNat < 32
  · have escaped : ∀ n < 32, (escapeChar (Char.ofNat n)).head? = some '\\' ∧
        (escapeChar (Char.ofNat n)).all isInert = true ∧ isTagLetter (Char.ofNat n) = false := by
      decide
    have all := escaped c.toNat control
    rw [Char.ofNat_toNat] at all
    exact .inr all
  · by_cases quote : c = '"'
    · subst quote
      exact .inr (by decide)
    · by_cases slash : c = '\\'
      · subst slash
        exact .inr (by decide)
      · refine .inl ⟨escapeChar_plain quote slash (by omega), ?_⟩
        rintro rfl
        exact control (by decide)

theorem backtick_of_quotedTail {cs rest more : List Char}
    (starts : quotedTail cs rest = '`' :: more) :
    ∃ cs', cs = '`' :: cs' ∧ quotedTail cs' rest = more := by
  cases cs with
  | nil => cases (List.cons.inj starts).1
  | cons c cs =>
      rw [quotedTail_cons] at starts
      rcases escapeChar_spec c with ⟨plain, -⟩ | ⟨escaped, -, -⟩
      · rw [plain] at starts
        obtain ⟨rfl, same⟩ := List.cons.inj starts
        exact ⟨cs, rfl, same⟩
      · obtain ⟨_, begins⟩ := List.head?_eq_some_iff.mp escaped
        rw [begins] at starts
        cases (List.cons.inj starts).1

theorem isPrefix_of_quotedTail {cs rest : List Char} (start : backticks <+: quotedTail cs rest) :
    backticks <+: cs := by
  obtain ⟨more, first⟩ := isPrefix_backticks_iff.mp start
  obtain ⟨cs, rfl, second⟩ := backtick_of_quotedTail first
  obtain ⟨cs, rfl, third⟩ := backtick_of_quotedTail second
  obtain ⟨cs, rfl, -⟩ := backtick_of_quotedTail third
  exact ⟨cs, rfl⟩

theorem quotedTail_ne_line (cs rest more : List Char) : quotedTail cs rest ≠ '\n' :: more := by
  intro starts
  cases cs with
  | nil => cases (List.cons.inj starts).1
  | cons c cs =>
      rw [quotedTail_cons] at starts
      rcases escapeChar_spec c with ⟨plain, other⟩ | ⟨escaped, -, -⟩
      · rw [plain] at starts
        exact other (List.cons.inj starts).1
      · obtain ⟨_, begins⟩ := List.head?_eq_some_iff.mp escaped
        rw [begins] at starts
        cases (List.cons.inj starts).1

theorem dropWhile_quotedTail (cs rest : List Char) :
    (quotedTail cs rest).dropWhile isTagLetter = quotedTail (cs.dropWhile isTagLetter) rest := by
  induction cs with
  | nil => rfl
  | cons c cs ih =>
      rw [quotedTail_cons, List.dropWhile_cons]
      rcases escapeChar_spec c with ⟨plain, -⟩ | ⟨escaped, -, other⟩
      · rw [plain, List.singleton_append, List.dropWhile_cons]
        split
        · exact ih
        · rw [quotedTail_cons, plain, List.singleton_append]
      · obtain ⟨more, begins⟩ := List.head?_eq_some_iff.mp escaped
        rw [begins, other, List.cons_append, List.dropWhile_cons_of_neg (by decide),
          if_neg Bool.false_ne_true, quotedTail_cons, begins, List.cons_append]

theorem afterFence_quotedTail (cs rest : List Char) :
    afterFence (quotedTail cs rest) = quotedTail (cs.dropWhile isTagLetter) rest := by
  rw [afterFence, dropWhile_quotedTail]
  split
  · rename_i line
    exact absurd line (quotedTail_ne_line _ _ _)
  · rfl

theorem stripFences_quotedTail (cs rest : List Char) :
    stripFences (quotedTail cs rest) = quotedTail (dropFences cs) (stripFences rest) := by
  -- By the steps of `dropFences`: a fence of the string is one of the text, and an escape, which
  -- has no part in any, is kept whole.
  fun_induction dropFences cs with
  | case1 => exact stripFences_cons (not_isPrefix_of_ne (by decide)) (fun line => by cases line.1)
  | case2 cs _ ih =>
      have ticks : quotedTail ('`' :: '`' :: '`' :: cs) rest =
          '`' :: '`' :: '`' :: quotedTail cs rest := rfl
      rw [ticks, stripFences_fence, afterFence_quotedTail, ih]
  | case3 c cs other ih =>
      rw [quotedTail_cons, quotedTail_cons]
      rcases escapeChar_spec c with ⟨plain, line⟩ | ⟨-, inert, -⟩
      · have here : ¬ backticks <+: c :: quotedTail cs rest := fun start => by
          rw [← List.singleton_append, ← plain, ← quotedTail_cons] at start
          obtain ⟨more, begins⟩ := isPrefix_backticks_iff.mp (isPrefix_of_quotedTail start)
          obtain ⟨rfl, next⟩ := List.cons.inj begins
          exact other more rfl next
        rw [plain, List.singleton_append, stripFences_cons here fun next => line next.1, ih,
          List.singleton_append]
      · rw [stripFences_append_of_inert inert, ih]

def unfence (s : String) : String := String.ofList (dropFences s.toList)

theorem stripFences_quote (s : String) (rest : List Char) :
    stripFences (quote s ++ rest) = quote (unfence s) ++ stripFences rest := by
  rw [quote_append, quote_append, unfence, String.toList_ofList, ← stripFences_quotedTail]
  exact stripFences_cons (not_isPrefix_of_ne (by decide)) fun line => by cases line.1

theorem isInert_of_isNumeric {c : Char} (numeric : IsNumeric c) : isInert c = true := by
  simp only [isInert, Bool.and_eq_true, bne_iff_ne]
  constructor <;> rintro rfl <;> revert numeric <;> decide

theorem stripFences_newline {level : Nat} {rest : List Char}
    (here : ¬ backticks <+: List.replicate (2 * level) ' ' ++ rest) :
    stripFences (newline level ++ rest) = newline level ++ stripFences rest := by
  have spaces : (List.replicate (2 * level) ' ').all isInert = true :=
    List.all_replicate.trans (ite_self _)
  have start : ¬ backticks <+: '\n' :: (List.replicate (2 * level) ' ' ++ rest) :=
    not_isPrefix_of_ne (by decide)
  rw [newline, List.cons_append, stripFences_cons start fun line => here line.2,
    stripFences_append_of_inert spaces, List.cons_append]

theorem stripFences_indent (level : Nat) (rest : List Char) :
    stripFences (newline (level + 1) ++ rest) = newline (level + 1) ++ stripFences rest := by
  apply stripFences_newline
  rw [Nat.mul_add, List.replicate_succ, List.cons_append]
  exact not_isPrefix_of_ne (by decide)

theorem stripFences_outdent (level : Nat) {close : Char} (inert : isInert close = true)
    (rest : List Char) :
    stripFences (newline level ++ close :: rest) = newline level ++ close :: stripFences rest := by
  rw [stripFences_newline, stripFences_inert inert]
  cases level with
  | zero =>
      apply not_isPrefix_of_ne
      rintro rfl
      cases inert
  | succ level =>
      rw [Nat.mul_add, List.replicate_succ, List.cons_append]
      exact not_isPrefix_of_ne (by decide)

def withoutFences (v : Json) : Json := v.mapStrings unfence

mutual

theorem stripFences_prettyChars : (v : Json) → (level : Nat) → (rest : List Char) →
    stripFences (prettyChars level v ++ rest) =
      prettyChars level (v.mapStrings unfence) ++ stripFences rest
  | .null, level, rest => @stripFences_append_of_inert "null".toList (by decide) rest
  | .boolean true, level, rest => @stripFences_append_of_inert "true".toList (by decide) rest
  | .boolean false, level, rest => @stripFences_append_of_inert "false".toList (by decide) rest
  | .number n, level, rest => stripFences_append_of_inert (List.all_eq_true.mpr fun _ mem =>
      isInert_of_isNumeric (Number.isNumeric_of_mem_render mem)) rest
  | .string s, level, rest => stripFences_quote s rest
  | .array [], level, rest => @stripFences_append_of_inert ['[', ']'] (by decide) rest
  | .array (v :: items), level, rest => by
    have inside := stripFences_prettyItems (v :: items) level
    simp only [prettyChars, mapStrings, mapItems, List.cons_append, List.append_assoc,
      List.nil_append] at inside ⊢
    rw [stripFences_inert (by decide), inside, stripFences_outdent level (by decide)]
  | .object [], level, rest => @stripFences_append_of_inert ['{', '}'] (by decide) rest
  | .object (member :: members), level, rest => by
    have inside := stripFences_prettyMembers (member :: members) level
    obtain ⟨k, v⟩ := member
    simp only [prettyChars, mapStrings, mapMembers, List.cons_append, List.append_assoc,
      List.nil_append] at inside ⊢
    rw [stripFences_inert (by decide), inside, stripFences_outdent level (by decide)]

theorem stripFences_prettyItems : (items : List Json) → (level : Nat) → (rest : List Char) →
    stripFences (prettyItems (level + 1) items ++ rest) =
      prettyItems (level + 1) (mapItems unfence items) ++ stripFences rest
  | [], level, rest => rfl
  | [v], level, rest => by
    simp only [prettyItems, mapItems, List.append_assoc]
    rw [stripFences_indent, stripFences_prettyChars v]
  | v :: w :: items, level, rest => by
    have others := stripFences_prettyItems (w :: items) level rest
    simp only [prettyItems, mapItems, List.append_assoc, List.cons_append] at others ⊢
    rw [stripFences_indent, stripFences_prettyChars v, stripFences_inert (by decide), others]

theorem stripFences_prettyMembers : (members : List (String × Json)) → (level : Nat) →
    (rest : List Char) →
    stripFences (prettyMembers (level + 1) members ++ rest) =
      prettyMembers (level + 1) (mapMembers unfence members) ++ stripFences rest
  | [], level, rest => rfl
  | [(k, v)], level, rest => by
    simp only [prettyMembers, mapMembers, List.append_assoc, List.cons_append]
    rw [stripFences_indent, stripFences_quote, stripFences_inert (by decide),
      stripFences_inert (by decide), stripFences_prettyChars v]
  | (k, v) :: member :: members, level, rest => by
    have others := stripFences_prettyMembers (member :: members) level rest
    obtain ⟨k', v'⟩ := member
    simp only [prettyMembers, mapMembers, List.append_assoc, List.cons_append] at others ⊢
    rw [stripFences_indent, stripFences_quote, stripFences_inert (by decide),
      stripFences_inert (by decide), stripFences_prettyChars v, stripFences_inert (by decide),
      others]

end

theorem stripFences_pretty (v : Json) :
    stripFences v.pretty.toList = v.withoutFences.pretty.toList := by
  have stripped := stripFences_prettyChars v 0 []
  rw [List.append_nil, stripFences_nil, List.append_nil] at stripped
  rw [pretty, pretty, String.toList_ofList, String.toList_ofList, stripped, withoutFences]

theorem stripFences_fenced_pretty (tag : String) (letters : ∀ c ∈ tag.toList, isTagLetter c = true)
    (v : Json) :
    stripFences (Prompt.fenced tag v.pretty).toList = v.withoutFences.pretty.toList := by
  have stripped := stripFences_prettyChars v 0 ('\n' :: backticks)
  have closing : stripFences ('\n' :: backticks) = [] :=
    (stripFences_line_fence []).trans stripFences_nil
  rw [closing, List.append_nil] at stripped
  rw [Prompt.toList_fenced, stripFences_opening letters, pretty, pretty, String.toList_ofList,
    String.toList_ofList, stripped, withoutFences]

end Json

theorem isTagLetter_of_isAlpha {c : Char} (letter : c.isAlpha = true) : isTagLetter c = true := by
  have lower : (decide ('a' ≤ c) && decide (c ≤ 'z')) = c.isLower := rfl
  have upper : (decide ('A' ≤ c) && decide (c ≤ 'Z')) = c.isUpper :=
    (Bool.decide_and ('A' ≤ c) (c ≤ 'Z')).symm
  have alpha : (c.isUpper || c.isLower) = true := letter
  rw [isTagLetter, lower, upper, Bool.or_comm c.isLower, alpha]
  rfl

theorem parseGenerated_of_strip {text : String} {bare : String}
    (stripped : stripFences text.toList = bare.toList) :
    parseGenerated text = (Json.parse bare).mapError (·.message bare.toList) := by
  rw [parseGenerated, stripped, Json.parse]
  cases Json.parseChars bare.toList <;> rfl

/-- A text in which no three backticks stand in a row is extracted alike with a fence around it and
without one, as the JSON it is or with the fault it has. -/
theorem parseGenerated_fenced {tag body : String} (letters : ∀ c ∈ tag.toList, c.isAlpha = true)
    (unfenced : IsUnfenced body.toList) :
    parseGenerated (Prompt.fenced tag body) = parseGenerated body ∧
      parseGenerated body = (Json.parse body).mapError (·.message body.toList) := by
  have bare := parseGenerated_of_strip (stripFences_of_isUnfenced unfenced)
  refine ⟨Eq.trans (parseGenerated_of_strip ?_) bare.symm, bare⟩
  rw [Prompt.toList_fenced]
  exact stripFences_fenced (fun c mem => isTagLetter_of_isAlpha (letters c mem)) unfenced

theorem unevenText_fenced :
    (∀ c ∈ "jSoN".toList, c.isAlpha = true) ∧ IsUnfenced "\n[1,\n2]``".toList ∧
    parseGenerated (Prompt.fenced "jSoN" "\n[1,\n2]``") =
      .error "trailing characters at line 3 column 3" := by
  have letters : ∀ c ∈ "jSoN".toList, c.isAlpha = true := List.all_eq_true.mp rfl
  have unfenced : IsUnfenced "\n[1,\n2]``".toList := by decide +kernel
  obtain ⟨same, read⟩ := parseGenerated_fenced letters unfenced
  exact ⟨letters, unfenced, same.trans (read.trans rfl)⟩

theorem isUnfenced_unfence (s : String) : IsUnfenced (Json.unfence s).toList := by
  rw [Json.unfence, String.toList_ofList]
  exact isUnfenced_dropFences s.toList

theorem withoutFences_of_isUnfenced {v : Json}
    (unfenced : ∀ s ∈ v.strings, IsUnfenced s.toList) : v.withoutFences = v := by
  refine (Json.mapStrings_eq_self_iff v).mpr fun s mem => ?_
  rw [Json.unfence, dropFences_of_isUnfenced (unfenced s mem), String.ofList_toList]

/-- A printed document is extracted without the fences in its strings, with a fence around it or
without one. So it is extracted as it is exactly if no string of it has three backticks in a row. -/
theorem parseGenerated_pretty {v : Json} (readable : Json.IsReadable Json.maxOpen v)
    (keyed : v.IsKeyed) :
    parseGenerated v.pretty = .ok v.withoutFences.merged ∧
      parseGenerated (Prompt.fenced "json" v.pretty) = .ok v.withoutFences.merged ∧
      (v.withoutFences.merged = v ↔ ∀ s ∈ v.strings, IsUnfenced s.toList) := by
  have read : Json.parse v.withoutFences.pretty = .ok v.withoutFences.merged :=
    Json.parse_pretty (readable.mapStrings Json.unfence)
  have letters : ∀ c ∈ "json".toList, isTagLetter c = true := List.all_eq_true.mp rfl
  refine ⟨?_, ?_, fun same s mem => ?_, fun unfenced => ?_⟩
  · rw [parseGenerated_of_strip v.stripFences_pretty, read]
    rfl
  · rw [parseGenerated_of_strip (Json.stripFences_fenced_pretty "json" letters v), read]
    rfl
  · rw [← same] at mem
    have inside := Json.mem_strings_of_merged _ mem
    rw [Json.withoutFences, Json.strings_mapStrings] at inside
    obtain ⟨t, -, rfl⟩ := List.mem_map.mp inside
    exact isUnfenced_unfence t
  · rw [withoutFences_of_isUnfenced unfenced, Json.merged_eq_self keyed]

def tickedHalf : Json := .object [("``", .array [.number (.double ⟨0x3FE0000000000000⟩)])]

theorem tickedHalf_extracted :
    Json.IsReadable Json.maxOpen tickedHalf ∧ tickedHalf.IsKeyed ∧
    parseGenerated (Prompt.fenced "json" tickedHalf.pretty) = .ok tickedHalf := by
  have readable : Json.IsReadable Json.maxOpen tickedHalf :=
    .object (List.forall_mem_singleton.mpr (.array (List.forall_mem_singleton.mpr (.double rfl))))
  have keyed : tickedHalf.IsKeyed :=
    .object (by decide) (List.forall_mem_singleton.mpr
      (.array (List.forall_mem_singleton.mpr .number)))
  obtain ⟨-, fenced, same⟩ := parseGenerated_pretty readable keyed
  rw [same.mpr (by decide +kernel)] at fenced
  exact ⟨readable, keyed, fenced⟩

theorem fencedString_damaged :
    Json.parse (Json.string "a```b").pretty = .ok (.string "a```b") ∧
    parseGenerated (Json.string "a```b").pretty = .ok (.string "a") ∧
    parseGenerated (Prompt.fenced "json" (Json.string "a```b").pretty) = .ok (.string "a") := by
  have bare : stripFences (Json.string "a```b").pretty.toList = "\"a\"".toList := by decide +kernel
  have fenced : stripFences (Prompt.fenced "json" (Json.string "a```b").pretty).toList =
      "\"a\"".toList := by decide +kernel
  exact ⟨rfl, (parseGenerated_of_strip bare).trans rfl, (parseGenerated_of_strip fenced).trans rfl⟩

end FederatedMock
