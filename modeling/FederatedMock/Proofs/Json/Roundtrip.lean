import FederatedMock.Proofs.Json.Lexemes
import FederatedMock.Proofs.Ordered.Members

/-!
# Reading printed documents

A printed document is read back with the members of one key merged (`parse_pretty`), and so as it
is if keys are distinct (`merged_eq_self`). The reader's stack takes at most 127 levels. That
doubles are read back from their shortest decimals is assumed of the document; of integers it is
proved.
-/

namespace FederatedMock.Json

/-- The document is nested at most so many levels deep, and its doubles are read back one by one. -/
inductive IsReadable : Nat → Json → Prop
  | null {levels : Nat} : IsReadable levels .null
  | boolean {levels : Nat} {b : Bool} : IsReadable levels (.boolean b)
  | integer {levels : Nat} {n : Int} {held : IsWordSized n} :
      IsReadable levels (.number (.integer n held))
  | double {levels : Nat} {d : Double}
      (reread : parse (Number.double d).render = .ok (.number (.double d))) :
      IsReadable levels (.number (.double d))
  | string {levels : Nat} {s : String} : IsReadable levels (.string s)
  | array {levels : Nat} {items : List Json} (each : ∀ v ∈ items, IsReadable levels v) :
      IsReadable (levels + 1) (.array items)
  | object {levels : Nat} {members : List (String × Json)}
      (each : ∀ m ∈ members, IsReadable levels m.2) : IsReadable (levels + 1) (.object members)

theorem IsReadable.mapStrings {levels : Nat} {v : Json} (readable : IsReadable levels v)
    (f : String → String) : IsReadable levels (v.mapStrings f) := by
  induction readable with
  | null => exact .null
  | boolean => exact .boolean
  | integer => exact .integer
  | double reread => exact .double reread
  | string => exact .string
  | array _ ih =>
      rw [Json.mapStrings, mapItems_eq_map]
      refine .array fun v mem => ?_
      obtain ⟨w, inside, rfl⟩ := List.mem_map.mp mem
      exact ih w inside
  | object _ ih =>
      rw [Json.mapStrings, mapMembers_eq_map]
      refine .object fun m mem => ?_
      obtain ⟨n, inside, rfl⟩ := List.mem_map.mp mem
      exact ih n inside

inductive IsKeyed : Json → Prop
  | null : IsKeyed .null
  | boolean {b : Bool} : IsKeyed (.boolean b)
  | number {n : Number} : IsKeyed (.number n)
  | string {s : String} : IsKeyed (.string s)
  | array {items : List Json} (each : ∀ v ∈ items, IsKeyed v) : IsKeyed (.array items)
  | object {members : List (String × Json)} (distinct : (Members.keys members).Nodup)
      (each : ∀ m ∈ members, IsKeyed m.2) : IsKeyed (.object members)

mutual

/-- The document with each key once in every object, in its first place and with its last value. -/
def merged : Json → Json
  | .null => .null
  | .boolean b => .boolean b
  | .number n => .number n
  | .string s => .string s
  | .array items => .array (mergedItems items)
  | .object members => .object (mergedMembers [] members)

def mergedItems : List Json → List Json
  | [] => []
  | v :: rest => v.merged :: mergedItems rest

def mergedMembers (seen : Members Json) : List (String × Json) → Members Json
  | [] => seen
  | (k, v) :: rest => mergedMembers (seen.insert k v.merged) rest

end

theorem mergedItems_eq_map (items : List Json) : mergedItems items = items.map merged := by
  induction items with
  | nil => rfl
  | cons v rest ih => rw [mergedItems, ih, List.map_cons]

theorem mergedMembers_eq_append {seen : Members Json} {members : List (String × Json)}
    (distinct : (Members.keys (seen ++ members)).Nodup) (same : ∀ m ∈ members, m.2.merged = m.2) :
    mergedMembers seen members = seen ++ members := by
  induction members generalizing seen with
  | nil => rw [mergedMembers, List.append_nil]
  | cons m members ih =>
      obtain ⟨k, v⟩ := m
      have fresh : Members.get? k seen = none := by
        rw [Members.get?_eq_none_iff]
        intro mem
        rw [Members.keys, List.map_append, List.map_cons] at distinct
        exact (List.nodup_append.mp distinct).2.2 k mem k List.mem_cons_self rfl
      have merged : v.merged = v := same (k, v) List.mem_cons_self
      rw [mergedMembers, merged, Members.insert_of_get?_eq_none v fresh, ih,
        List.append_assoc, List.singleton_append]
      · rwa [List.append_assoc, List.singleton_append]
      · exact fun n mem => same n (List.mem_cons_of_mem _ mem)

theorem merged_eq_self {v : Json} (keyed : IsKeyed v) : v.merged = v := by
  induction keyed with
  | null => rfl
  | boolean => rfl
  | number => rfl
  | string => rfl
  | array _ ih => rw [merged, mergedItems_eq_map, List.map_congr_left ih, List.map_id']
  | @object members distinct _ ih =>
      rw [merged, @mergedMembers_eq_append [] members distinct ih, List.nil_append]

theorem mem_memberStrings_cons {s k : String} {v : Json} {rest : List (String × Json)} :
    s ∈ memberStrings ((k, v) :: rest) ↔ s = k ∨ s ∈ v.strings ∨ s ∈ memberStrings rest := by
  rw [memberStrings, List.mem_cons, List.mem_append]

theorem mem_memberStrings_insert {s k : String} {v : Json} {members : Members Json}
    (mem : s ∈ memberStrings (members.insert k v)) :
    s ∈ memberStrings members ∨ s = k ∨ s ∈ v.strings := by
  induction members with
  | nil => simpa [Members.insert, memberStrings] using mem
  | cons m members ih =>
      obtain ⟨k', w⟩ := m
      rw [mem_memberStrings_cons]
      by_cases same : k' = k
      · subst same
        rw [Members.insert, if_pos rfl, mem_memberStrings_cons] at mem
        rcases mem with here | value | there
        · exact .inr (.inl here)
        · exact .inr (.inr value)
        · exact .inl (.inr (.inr there))
      · rw [Members.insert, if_neg same, mem_memberStrings_cons] at mem
        rcases mem with here | value | there
        · exact .inl (.inl here)
        · exact .inl (.inr (.inl value))
        · rcases ih there with old | new
          · exact .inl (.inr (.inr old))
          · exact .inr new

mutual

theorem mem_strings_of_merged {s : String} : (v : Json) → s ∈ v.merged.strings → s ∈ v.strings
  | .null, mem => mem
  | .boolean _, mem => mem
  | .number _, mem => mem
  | .string _, mem => mem
  | .array items, mem => mem_itemStrings_of_merged items mem
  | .object members, mem => by
    rcases mem_memberStrings_of_merged members [] mem with inside | inside
    · cases inside
    · exact inside

theorem mem_itemStrings_of_merged {s : String} : (items : List Json) →
    s ∈ itemStrings (mergedItems items) → s ∈ itemStrings items
  | [], mem => mem
  | v :: rest, mem => by
    rw [mergedItems, itemStrings] at mem
    rw [itemStrings]
    rcases List.mem_append.mp mem with here | there
    · exact List.mem_append_left _ (mem_strings_of_merged v here)
    · exact List.mem_append_right _ (mem_itemStrings_of_merged rest there)

theorem mem_memberStrings_of_merged {s : String} : (members : List (String × Json)) →
    (seen : Members Json) → s ∈ memberStrings (mergedMembers seen members) →
    s ∈ memberStrings seen ∨ s ∈ memberStrings members
  | [], _, mem => .inl mem
  | (k, v) :: rest, seen, mem => by
    rw [mergedMembers] at mem
    rw [mem_memberStrings_cons]
    rcases mem_memberStrings_of_merged rest _ mem with inside | there
    · rcases mem_memberStrings_insert inside with old | key | value
      · exact .inl old
      · exact .inr (.inl key)
      · exact .inr (.inr (.inl (mem_strings_of_merged v value)))
    · exact .inr (.inr (.inr there))

end

def Leads (r : Reader) (cs : List Char) (r' : Reader) (rest : List Char) : Prop :=
  ∀ size fuel offset, cs.length < fuel → ∃ fuel' offset', rest.length < fuel' ∧
    readTokens size r (tokensFrom fuel ⟨cs, offset⟩) =
      readTokens size r' (tokensFrom fuel' ⟨rest, offset'⟩)

theorem Leads.trans {r r' r'' : Reader} {cs ds rest : List Char} (first : Leads r cs r' ds)
    (second : Leads r' ds r'' rest) : Leads r cs r'' rest := by
  intro size fuel offset enough
  obtain ⟨fuel', offset', enough', same⟩ := first size fuel offset enough
  obtain ⟨fuel'', offset'', enough'', same'⟩ := second size fuel' offset' enough'
  exact ⟨fuel'', offset'', enough'', same.trans same'⟩

theorem leads_blank {c : Char} (blank : isBlank c = true) (r : Reader) (rest : List Char) :
    Leads r (c :: rest) r rest := by
  intro size fuel offset enough
  obtain ⟨fuel, rfl⟩ : ∃ k, fuel = k + 1 := ⟨fuel - 1, by omega⟩
  refine ⟨fuel, offset + c.utf8Size, Nat.lt_of_succ_lt_succ enough, ?_⟩
  simp only [tokensFrom, blank, if_true]

theorem leads_token {r r' : Reader} {cs rest : List Char} {l : Lexeme} (lexes : Lexes cs l rest)
    (step : ∀ start, r.step ⟨l, start⟩ = .ok r') : Leads r cs r' rest := by
  intro size fuel offset enough
  obtain ⟨c, tail, rfl, solid, shorter, read⟩ := lexes
  obtain ⟨fuel, rfl⟩ : ∃ k, fuel = k + 1 := ⟨fuel - 1, by omega⟩
  obtain ⟨offset', here⟩ := read (offset + c.utf8Size)
  refine ⟨fuel, offset', Nat.lt_of_le_of_lt shorter (Nat.lt_of_succ_lt_succ enough), ?_⟩
  simp only [tokensFrom, solid, Bool.false_eq_true, if_false, here, readTokens, step]

theorem leads_newline (level : Nat) (r : Reader) (rest : List Char) :
    Leads r (newline level ++ rest) r rest := by
  have spaces (n : Nat) : Leads r (List.replicate n ' ' ++ rest) r rest := by
    induction n with
    | zero => exact fun _ fuel offset enough => ⟨fuel, offset, enough, rfl⟩
    | succ n ih => exact (leads_blank rfl r _).trans ih
  exact (leads_blank rfl r _).trans (spaces _)

theorem leads_symbol {c : Char} {l : Lexeme} {r r' : Reader} (solid : isBlank c = false)
    (symbol : ∀ after, lexeme c after = (l, some after))
    (step : ∀ start, r.step ⟨l, start⟩ = .ok r') (rest : List Char) : Leads r (c :: rest) r' rest :=
  leads_token ⟨c, rest, rfl, solid, Nat.le_refl _, fun offset => ⟨offset, symbol _⟩⟩ step

theorem lexes_null (rest : List Char) : Lexes ("null".toList ++ rest) (.scalar .null) rest :=
  ⟨'n', "ull".toList ++ rest, rfl, rfl, (List.suffix_append _ rest).length_le,
    fun offset => ⟨offset + 3, rfl⟩⟩

theorem lexes_boolean (b : Bool) (rest : List Char) :
    Lexes ((if b then "true" else "false").toList ++ rest) (.scalar (.boolean b)) rest := by
  cases b with
  | false => exact ⟨'f', "alse".toList ++ rest, rfl, rfl, (List.suffix_append _ rest).length_le,
      fun offset => ⟨offset + 4, rfl⟩⟩
  | true => exact ⟨'t', "rue".toList ++ rest, rfl, rfl, (List.suffix_append _ rest).length_le,
      fun offset => ⟨offset + 3, rfl⟩⟩

def Expecting.TakesValue (e : Expecting) : Prop := e = .value ∨ e = .firstItem

theorem leads_scalar {cs rest : List Char} {v : Json} {stack : List Frame} {e : Expecting}
    (takes : e.TakesValue) (lexes : Lexes cs (.scalar v) rest) :
    Leads ⟨stack, [], e⟩ cs ⟨stack, [], .separator v⟩ rest := by
  apply leads_token lexes
  rcases takes with rfl | rfl <;> exact fun _ => rfl

theorem leads_string {cs rest : List Char} {s : String} {stack : List Frame} {e : Expecting}
    (takes : e.TakesValue) (lexes : Lexes cs (.text s) rest) :
    Leads ⟨stack, [], e⟩ cs ⟨stack, [], .separator (.string s)⟩ rest := by
  apply leads_token lexes
  rcases takes with rfl | rfl <;> exact fun _ => rfl

theorem step_openList {stack : List Frame} {e : Expecting} (takes : e.TakesValue)
    (room : stack.length < maxOpen) (start : Nat) :
    Reader.step ⟨stack, [], e⟩ ⟨.openList, start⟩ = .ok ⟨.list [] :: stack, [], .firstItem⟩ := by
  have opens : Reader.step ⟨stack, [], e⟩ ⟨.openList, start⟩ =
      if stack.length ≥ maxOpen then .error ⟨.recursionLimit, start + 1⟩
      else .ok ⟨.list [] :: stack, [], .firstItem⟩ := by
    rcases takes with rfl | rfl <;> rfl
  rw [opens, if_neg (by omega)]

theorem step_openObject {stack : List Frame} {e : Expecting} (takes : e.TakesValue)
    (room : stack.length < maxOpen) (start : Nat) :
    Reader.step ⟨stack, [], e⟩ ⟨.openObject, start⟩ =
      .ok ⟨.object [] "" :: stack, [], .firstKey⟩ := by
  have opens : Reader.step ⟨stack, [], e⟩ ⟨.openObject, start⟩ =
      if stack.length ≥ maxOpen then .error ⟨.recursionLimit, start + 1⟩
      else .ok ⟨.object [] "" :: stack, [], .firstKey⟩ := by
    rcases takes with rfl | rfl <;> rfl
  rw [opens, if_neg (by omega)]

def Expecting.TakesKey (e : Expecting) : Prop := e = .firstKey ∨ e = .nextKey

theorem leads_key {members : Members Json} {key k : String} {stack : List Frame} {e : Expecting}
    (takes : e.TakesKey) (rest : List Char) :
    Leads ⟨.object members key :: stack, [], e⟩ (quote k ++ ':' :: ' ' :: rest)
      ⟨.object members k :: stack, [], .value⟩ rest := by
  have named : Leads ⟨.object members key :: stack, [], e⟩ (quote k ++ ':' :: ' ' :: rest)
      ⟨.object members key :: stack, [], .colon k⟩ (':' :: ' ' :: rest) := by
    apply leads_token (lexes_quote k _)
    rcases takes with rfl | rfl <;> exact fun _ => rfl
  exact named.trans ((leads_symbol rfl (fun _ => rfl) (fun _ => rfl) _).trans (leads_blank rfl _ _))

mutual

theorem leads_prettyChars : (v : Json) → ∀ {levels level : Nat} {stack : List Frame}
    {e : Expecting} {rest : List Char}, IsReadable levels v → stack.length + levels ≤ maxOpen →
    e.TakesValue → Stops rest →
    Leads ⟨stack, [], e⟩ (prettyChars level v ++ rest) ⟨stack, [], .separator v.merged⟩ rest
  | .null, _, _, _, _, _, _, _, takes, _ => leads_scalar takes (lexes_null _)
  | .boolean true, _, _, _, _, _, _, _, takes, _ => leads_scalar takes (lexes_boolean true _)
  | .boolean false, _, _, _, _, _, _, _, takes, _ => leads_scalar takes (lexes_boolean false _)
  | .number _, _, _, _, _, _, readable, _, takes, stops => by
    cases readable with
    | integer => exact leads_scalar takes (lexes_integer _ stops)
    | double reread =>
        exact leads_scalar takes
          (lexes_of_parse (fun _ mem => Number.isNumeric_of_mem_render mem) reread stops)
  | .string s, _, _, _, _, _, _, _, takes, _ => leads_string takes (lexes_quote s _)
  | .array [], _, _, _, _, _, readable, room, takes, _ => by
    cases readable
    exact (leads_symbol rfl (fun _ => rfl) (step_openList takes (by omega)) _).trans
      (leads_symbol rfl (fun _ => rfl) (fun _ => rfl) _)
  | .array (v :: items), _, level, stack, _, rest, readable, room, takes, _ => by
    cases readable with
    | array each =>
        have inside := @leads_prettyItems (v :: items) _ level stack [] .firstItem rest each room
          (.inr rfl) (List.cons_ne_nil _ _)
        simp only [prettyChars, List.cons_append, List.append_assoc]
        exact (leads_symbol rfl (fun _ => rfl) (step_openList takes (by omega)) _).trans inside
  | .object [], _, _, _, _, _, readable, room, takes, _ => by
    cases readable
    exact (leads_symbol rfl (fun _ => rfl) (step_openObject takes (by omega)) _).trans
      (leads_symbol rfl (fun _ => rfl) (fun _ => rfl) _)
  | .object (member :: members), _, level, stack, _, rest, readable, room, takes, _ => by
    cases readable with
    | object each =>
        have inside := @leads_prettyMembers (member :: members) _ level stack [] "" .firstKey rest
          each room (.inl rfl) (List.cons_ne_nil _ _)
        simp only [prettyChars, List.cons_append, List.append_assoc]
        exact (leads_symbol rfl (fun _ => rfl) (step_openObject takes (by omega)) _).trans inside

theorem leads_prettyItems : (items : List Json) → ∀ {levels level : Nat} {stack : List Frame}
    {done : List Json} {e : Expecting} {rest : List Char},
    (∀ v ∈ items, IsReadable levels v) → stack.length + (levels + 1) ≤ maxOpen →
    e.TakesValue → items ≠ [] →
    Leads ⟨.list done :: stack, [], e⟩
      (prettyItems (level + 1) items ++ (newline level ++ ']' :: rest))
      ⟨stack, [], .separator (.array (done.reverse ++ mergedItems items))⟩ rest
  | [], _, _, _, _, _, _, _, _, _, present => absurd rfl present
  | [v], levels, level, stack, done, e, rest, each, room, takes, _ => by
    have value := @leads_prettyChars v levels (level + 1) (.list done :: stack) e
      (newline level ++ ']' :: rest) (each v List.mem_cons_self)
      (by rw [List.length_cons]; omega) takes (stops_line _)
    have close : Leads ⟨.list done :: stack, [], .separator v.merged⟩
        (newline level ++ ']' :: rest) _ rest :=
      (leads_newline level _ _).trans (leads_symbol rfl (fun _ => rfl) (fun _ => rfl) _)
    simp only [prettyItems, mergedItems, List.append_assoc]
    rw [List.reverse_cons] at close
    exact (leads_newline _ _ _).trans (value.trans close)
  | v :: w :: items, levels, level, stack, done, e, rest, each, room, takes, _ => by
    -- The value is read before the comma, the other items with the value on top of those done.
    have others := @leads_prettyItems (w :: items) levels level stack (v.merged :: done) .value rest
      (fun u mem => each u (List.mem_cons_of_mem v mem)) room (.inl rfl) (List.cons_ne_nil _ _)
    have value := @leads_prettyChars v levels (level + 1) (.list done :: stack) e
      (',' :: (prettyItems (level + 1) (w :: items) ++ (newline level ++ ']' :: rest)))
      (each v List.mem_cons_self) (by rw [List.length_cons]; omega) takes (stops_comma _)
    have comma := @leads_symbol ',' .comma ⟨.list done :: stack, [], .separator v.merged⟩
      ⟨.list (v.merged :: done) :: stack, [], .value⟩ rfl (fun _ => rfl) (fun _ => rfl)
    rw [List.reverse_cons, List.append_assoc, List.singleton_append] at others
    simp only [prettyItems, mergedItems, List.append_assoc, List.cons_append] at value others ⊢
    exact (leads_newline _ _ _).trans (value.trans ((comma _).trans others))

theorem leads_prettyMembers : (members : List (String × Json)) → ∀ {levels level : Nat}
    {stack : List Frame} {seen : Members Json} {key : String} {e : Expecting} {rest : List Char},
    (∀ m ∈ members, IsReadable levels m.2) → stack.length + (levels + 1) ≤ maxOpen →
    e.TakesKey → members ≠ [] →
    Leads ⟨.object seen key :: stack, [], e⟩
      (prettyMembers (level + 1) members ++ (newline level ++ '}' :: rest))
      ⟨stack, [], .separator (.object (mergedMembers seen members))⟩ rest
  | [], _, _, _, _, _, _, _, _, _, _, present => absurd rfl present
  | [(k, v)], levels, level, stack, seen, key, e, rest, each, room, takes, _ => by
    have value := @leads_prettyChars v levels (level + 1) (.object seen k :: stack) .value
      (newline level ++ '}' :: rest) (each (k, v) List.mem_cons_self)
      (by rw [List.length_cons]; omega) (.inl rfl) (stops_line _)
    have close : Leads ⟨.object seen k :: stack, [], .separator v.merged⟩
        (newline level ++ '}' :: rest) _ rest :=
      (leads_newline level _ _).trans (leads_symbol rfl (fun _ => rfl) (fun _ => rfl) _)
    simp only [prettyMembers, mergedMembers, List.append_assoc, List.cons_append]
    exact (leads_newline _ _ _).trans ((leads_key takes _).trans (value.trans close))
  | (k, v) :: m :: members, levels, level, stack, seen, key, e, rest, each, room, takes, _ => by
    have others := @leads_prettyMembers (m :: members) levels level stack
      (seen.insert k v.merged) "" .nextKey rest
      (fun n mem => each n (List.mem_cons_of_mem _ mem)) room (.inr rfl) (List.cons_ne_nil _ _)
    have value := @leads_prettyChars v levels (level + 1) (.object seen k :: stack) .value
      (',' :: (prettyMembers (level + 1) (m :: members) ++ (newline level ++ '}' :: rest)))
      (each (k, v) List.mem_cons_self) (by rw [List.length_cons]; omega) (.inl rfl) (stops_comma _)
    have comma := @leads_symbol ',' .comma ⟨.object seen k :: stack, [], .separator v.merged⟩
      ⟨.object (seen.insert k v.merged) "" :: stack, [], .nextKey⟩ rfl (fun _ => rfl) (fun _ => rfl)
    obtain ⟨k', v'⟩ := m
    simp only [prettyMembers, mergedMembers, List.append_assoc, List.cons_append] at value others ⊢
    exact (leads_newline _ _ _).trans
      ((leads_key takes _).trans (value.trans ((comma _).trans others)))

end

theorem parse_pretty {v : Json} (readable : IsReadable maxOpen v) :
    parse v.pretty = .ok v.merged := by
  have whole := @leads_prettyChars v maxOpen 0 [] .value [] readable (by simp) (.inl rfl) stops_nil
  rw [List.append_nil] at whole
  obtain ⟨fuel, offset, enough, read⟩ :=
    whole (byteLength (prettyChars 0 v)) ((prettyChars 0 v).length + 1) 0 (Nat.lt_succ_self _)
  obtain ⟨fuel, rfl⟩ : ∃ k, fuel = k + 1 := ⟨fuel - 1, by omega⟩
  rw [pretty, parse, String.toList_ofList, parseChars, tokens, read]
  rfl

end FederatedMock.Json
