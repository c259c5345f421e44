import FederatedMock.Json.Printer

namespace FederatedMock.Json

theorem escapeChar_plain {c : Char} (quote : c ≠ '"') (slash : c ≠ '\\')
    (printable : 32 ≤ c.toNat) : escapeChar c = [c] := by
  have other {d : Char} (low : d.toNat < 32) : c ≠ d := by
    rintro rfl
    omega
  have low : ¬ c.toNat < 32 := by omega
  simp [escapeChar, quote, slash, low, other]

def quotedTail (cs rest : List Char) : List Char := cs.flatMap escapeChar ++ '"' :: rest

theorem quotedTail_cons (c : Char) (cs rest : List Char) :
    quotedTail (c :: cs) rest = escapeChar c ++ quotedTail cs rest := by
  rw [quotedTail, List.flatMap_cons, List.append_assoc, quotedTail]

theorem quote_append (s : String) (rest : List Char) :
    quote s ++ rest = '"' :: quotedTail s.toList rest := by
  rw [quote, quotedTail, List.cons_append, List.append_assoc, List.singleton_append]

mutual

def strings : Json → List String
  | .null => []
  | .boolean _ => []
  | .number _ => []
  | .string s => [s]
  | .array items => itemStrings items
  | .object members => memberStrings members

def itemStrings : List Json → List String
  | [] => []
  | v :: rest => v.strings ++ itemStrings rest

def memberStrings : List (String × Json) → List String
  | [] => []
  | (k, v) :: rest => k :: (v.strings ++ memberStrings rest)

end

mutual

def mapStrings (f : String → String) : Json → Json
  | .null => .null
  | .boolean b => .boolean b
  | .number n => .number n
  | .string s => .string (f s)
  | .array items => .array (mapItems f items)
  | .object members => .object (mapMembers f members)

def mapItems (f : String → String) : List Json → List Json
  | [] => []
  | v :: rest => v.mapStrings f :: mapItems f rest

def mapMembers (f : String → String) : List (String × Json) → List (String × Json)
  | [] => []
  | (k, v) :: rest => (f k, v.mapStrings f) :: mapMembers f rest

end

theorem mapItems_eq_map (f : String → String) (items : List Json) :
    mapItems f items = items.map (mapStrings f) := by
  induction items with
  | nil => rfl
  | cons v rest ih => rw [mapItems, ih, List.map_cons]

theorem mapMembers_eq_map (f : String → String) (members : List (String × Json)) :
    mapMembers f members = members.map fun m => (f m.1, m.2.mapStrings f) := by
  induction members with
  | nil => rfl
  | cons m rest ih => rw [mapMembers, ih, List.map_cons]

mutual

theorem strings_mapStrings (f : String → String) : (v : Json) →
    (v.mapStrings f).strings = v.strings.map f
  | .null => rfl
  | .boolean _ => rfl
  | .number _ => rfl
  | .string _ => rfl
  | .array items => itemStrings_mapItems f items
  | .object members => memberStrings_mapMembers f members

theorem itemStrings_mapItems (f : String → String) : (items : List Json) →
    itemStrings (mapItems f items) = (itemStrings items).map f
  | [] => rfl
  | v :: rest => by
    rw [mapItems, itemStrings, itemStrings, strings_mapStrings f v, itemStrings_mapItems f rest,
      List.map_append]

theorem memberStrings_mapMembers (f : String → String) : (members : List (String × Json)) →
    memberStrings (mapMembers f members) = (memberStrings members).map f
  | [] => rfl
  | (k, v) :: rest => by
    rw [mapMembers, memberStrings, memberStrings, strings_mapStrings f v,
      memberStrings_mapMembers f rest, List.map_cons, List.map_append]

end

mutual

theorem mapStrings_eq_self_iff {f : String → String} : (v : Json) →
    (v.mapStrings f = v ↔ ∀ s ∈ v.strings, f s = s)
  | .null => by simp [mapStrings, strings]
  | .boolean _ => by simp [mapStrings, strings]
  | .number _ => by simp [mapStrings, strings]
  | .string s => by simp [mapStrings, strings]
  | .array items => by simp [mapStrings, strings, mapItems_eq_self_iff items]
  | .object members => by simp [mapStrings, strings, mapMembers_eq_self_iff members]

theorem mapItems_eq_self_iff {f : String → String} : (items : List Json) →
    (mapItems f items = items ↔ ∀ s ∈ itemStrings items, f s = s)
  | [] => by simp [mapItems, itemStrings]
  | v :: rest => by
    simp [mapItems, itemStrings, mapStrings_eq_self_iff v, mapItems_eq_self_iff rest, or_imp,
      forall_and]

theorem mapMembers_eq_self_iff {f : String → String} : (members : List (String × Json)) →
    (mapMembers f members = members ↔ ∀ s ∈ memberStrings members, f s = s)
  | [] => by simp [mapMembers, memberStrings]
  | (k, v) :: rest => by
    simp [mapMembers, memberStrings, mapStrings_eq_self_iff v, mapMembers_eq_self_iff rest,
      or_imp, forall_and, and_assoc]

end

end FederatedMock.Json
