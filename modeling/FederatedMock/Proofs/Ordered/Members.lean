import FederatedMock.Ordered.Basic
import Mathlib.Data.List.Forall2
import Mathlib.Tactic.Tauto

namespace FederatedMock

theorem rel_of_none_iff {α β : Type} {r : α → β → Prop} {x : Option α} {y : Option β}
    (none : x = none ↔ y = none) (some : ∀ a b, x = some a → y = some b → r a b) :
    Option.Rel r x y := by
  cases x with
  | none =>
      cases none.mp rfl
      exact .none
  | some a =>
      cases y with
      | none => cases none.mpr rfl
      | some b => exact .some (some a b rfl rfl)

theorem none_or_some_of_rel {α β : Type} {r : α → β → Prop} {x : Option α} {y : Option β}
    (same : Option.Rel r x y) : x = none ∧ y = none ∨ ∃ a b, x = some a ∧ y = some b ∧ r a b := by
  cases same with
  | none => exact .inl ⟨rfl, rfl⟩
  | some same => exact .inr ⟨_, _, rfl, rfl, same⟩

theorem exists_of_rel_some {α β : Type} {r : α → β → Prop} {a : α} {y : Option β}
    (related : Option.Rel r (some a) y) : ∃ b, y = some b ∧ r a b := by
  cases related with
  | some given => exact ⟨_, rfl, given⟩

namespace Members

variable {α : Type}

section Equations

variable (key k : String) (value v : α) (rest : Members α)

@[simp]
theorem get?_nil : get? key ([] : Members α) = none := rfl

theorem get?_cons :
    get? key ((k, v) :: rest) = if k = key then some v else get? key rest := rfl

@[simp]
theorem insert_nil : insert key value [] = [(key, value)] := rfl

theorem insert_cons : insert key value ((k, v) :: rest) =
    if k = key then (k, value) :: rest else (k, v) :: insert key value rest := rfl

@[simp]
theorem keys_nil : keys ([] : Members α) = [] := rfl

theorem keys_cons : keys ((k, v) :: rest) = k :: keys rest := rfl

end Equations

theorem mem_of_get? {key : String} {value : α} {members : Members α}
    (h : get? key members = some value) : (key, value) ∈ members := by
  induction members with
  | nil => cases h
  | cons head rest ih =>
      obtain ⟨k, v⟩ := head
      by_cases hk : k = key
      · simp only [get?_cons, hk, if_true, Option.some.injEq] at h
        simp [hk, h]
      · simp only [get?_cons, hk, if_false] at h
        exact List.mem_cons_of_mem _ (ih h)

theorem sizeOf_lt_of_get? [SizeOf α] {key : String} {value : α} {members : Members α}
    (found : members.get? key = some value) : sizeOf value < sizeOf members := by
  have smaller := List.sizeOf_lt_of_mem (mem_of_get? found)
  rw [Prod.mk.sizeOf_spec] at smaller
  omega

theorem get?_eq_none_iff {key : String} {members : Members α} :
    get? key members = none ↔ key ∉ keys members := by
  induction members with
  | nil => simp
  | cons head rest ih =>
      obtain ⟨k, v⟩ := head
      by_cases hk : k = key
      · simp [get?_cons, keys_cons, hk]
      · have hk' : key ≠ k := fun h => hk h.symm
        simpa [get?_cons, keys_cons, hk, hk'] using ih

theorem contains_iff {key : String} {members : Members α} :
    contains key members = true ↔ key ∈ keys members := by
  rw [contains, Option.isSome_iff_ne_none, ne_eq, get?_eq_none_iff, not_not]

theorem get?_of_mem {key : String} {value : α} {members : Members α}
    (distinct : (keys members).Nodup) (h : (key, value) ∈ members) :
    get? key members = some value := by
  induction members with
  | nil => cases h
  | cons head rest ih =>
      obtain ⟨k, v⟩ := head
      simp only [keys, List.map_cons, List.nodup_cons] at distinct
      rcases List.mem_cons.1 h with here | there
      · cases here
        simp [get?_cons]
      · have hk : k ≠ key := fun e => distinct.1 (e ▸ List.mem_map_of_mem there)
        simpa [get?_cons, hk] using ih distinct.2 there

theorem get?_append (key : String) (members more : Members α) :
    get? key (members ++ more) = (get? key members).or (get? key more) := by
  induction members with
  | nil => rfl
  | cons head rest ih =>
      obtain ⟨k, v⟩ := head
      by_cases hk : k = key
      · simp [get?_cons, hk]
      · simpa [get?_cons, hk] using ih

theorem get?_filter_key (key : String) (keep : String → Bool) (members : Members α) :
    get? key (members.filter fun m => keep m.1) = if keep key then get? key members else none := by
  induction members with
  | nil => simp
  | cons head rest ih =>
      obtain ⟨k, v⟩ := head
      by_cases hk : k = key
      · subst hk
        cases kept : keep k with
        | true => simp [kept, get?_cons]
        | false => simpa [kept] using ih
      · cases kept : keep k with
        | true => simpa [kept, get?_cons, hk] using ih
        | false => simpa [kept, get?_cons, hk] using ih

theorem get?_insert (key k : String) (value : α) (members : Members α) :
    get? k (insert key value members) = if key = k then some value else get? k members := by
  induction members with
  | nil => simp [get?_cons]
  | cons head rest ih =>
      obtain ⟨k', v⟩ := head
      by_cases hk : k' = key
      · subst hk
        by_cases h : k' = k <;> simp [insert_cons, get?_cons, h]
      · simp only [insert_cons, hk, if_false, get?_cons]
        by_cases h : k' = k
        · have hne : key ≠ k := fun e => hk (h.trans e.symm)
          simp [h, hne]
        · simpa [h] using ih

theorem insert_of_get?_eq_none {key : String} (value : α) {members : Members α}
    (fresh : get? key members = none) : insert key value members = members ++ [(key, value)] := by
  induction members with
  | nil => rfl
  | cons head rest ih =>
      obtain ⟨k, v⟩ := head
      by_cases same : k = key
      · simp [get?_cons, same] at fresh
      · simp only [get?_cons, same, if_false] at fresh
        simp only [insert_cons, same, if_false, ih fresh, List.cons_append]

theorem mem_insert {key : String} {value : α} {members : Members α} {m : String × α}
    (h : m ∈ insert key value members) : m = (key, value) ∨ m ∈ members := by
  induction members with
  | nil => exact Or.inl (List.mem_singleton.1 h)
  | cons head rest ih =>
      obtain ⟨k, v⟩ := head
      by_cases hk : k = key
      · simp only [insert_cons, hk, if_true, List.mem_cons] at h
        exact h.imp id (List.mem_cons_of_mem _)
      · simp only [insert_cons, hk, if_false, List.mem_cons] at h
        rcases h with rfl | h
        · exact Or.inr List.mem_cons_self
        · exact (ih h).imp id (List.mem_cons_of_mem _)

theorem keys_insert (key : String) (value : α) (members : Members α) :
    keys (insert key value members) =
      if key ∈ keys members then keys members else keys members ++ [key] := by
  induction members with
  | nil => simp [keys_cons]
  | cons head rest ih =>
      obtain ⟨k, v⟩ := head
      by_cases hk : k = key
      · simp [insert_cons, keys_cons, hk]
      · have hk' : key ≠ k := fun h => hk h.symm
        simp only [insert_cons, hk, if_false, keys_cons, List.mem_cons, hk', false_or, ih]
        by_cases present : key ∈ keys rest <;> simp [present]

theorem mem_keys_insert {key k : String} {value : α} {members : Members α} :
    k ∈ keys (insert key value members) ↔ k = key ∨ k ∈ keys members := by
  rw [keys_insert]
  split
  · exact ⟨Or.inr, fun h => h.elim (fun e => e ▸ ‹_›) id⟩
  · simp [or_comm]

theorem nodup_keys_insert {key : String} {value : α} {members : Members α}
    (distinct : (keys members).Nodup) : (keys (insert key value members)).Nodup := by
  rw [keys_insert]
  split
  · exact distinct
  · rename_i fresh
    refine List.nodup_append.2 ⟨distinct, List.pairwise_singleton _ _, ?_⟩
    intro a ha b hb e
    rw [e, List.mem_singleton.1 hb] at ha
    exact fresh ha

theorem mem_insertAll {members more : Members α} {m : String × α}
    (h : m ∈ insertAll members more) : m ∈ more ∨ m ∈ members := by
  induction more generalizing members with
  | nil => exact Or.inr h
  | cons head rest ih =>
      rcases ih h with later | earlier
      · exact Or.inl (List.mem_cons_of_mem _ later)
      · rcases mem_insert earlier with rfl | h
        · exact Or.inl List.mem_cons_self
        · exact Or.inr h

theorem mem_keys_insertAll {members more : Members α} {k : String} :
    k ∈ keys (insertAll members more) ↔ k ∈ keys more ∨ k ∈ keys members := by
  induction more generalizing members with
  | nil => simp [insertAll, keys]
  | cons head rest ih =>
      have step : insertAll members (head :: rest) =
          insertAll (insert head.1 head.2 members) rest := rfl
      rw [step, ih, mem_keys_insert]
      simp only [keys, List.map_cons, List.mem_cons]
      tauto

theorem nodup_keys_insertAll {members more : Members α} (distinct : (keys members).Nodup) :
    (keys (insertAll members more)).Nodup := by
  induction more generalizing members with
  | nil => exact distinct
  | cons head rest ih => exact ih (nodup_keys_insert distinct)

theorem get?_insertAll (key : String) (members more : Members α) :
    get? key (insertAll members more) = (get? key more.reverse).or (get? key members) := by
  induction more generalizing members with
  | nil => rfl
  | cons head rest ih =>
      obtain ⟨k, v⟩ := head
      have step : insertAll members ((k, v) :: rest) = insertAll (insert k v members) rest := rfl
      rw [step, ih, get?_insert, List.reverse_cons, get?_append, Option.or_assoc]
      by_cases hk : k = key <;> simp [get?_cons, hk]

theorem get?_ofList (key : String) (pairs : List (String × α)) :
    get? key (ofList pairs) = get? key pairs.reverse := by
  rw [ofList, get?_insertAll, get?_nil, Option.or_none]

theorem get?_reverse {members : Members α} (distinct : (keys members).Nodup) (key : String) :
    get? key members.reverse = get? key members := by
  have distinct' : (keys members.reverse).Nodup := by
    rw [keys, List.map_reverse]
    exact (List.reverse_perm _).nodup_iff.mpr distinct
  cases found : get? key members with
  | some v =>
      exact get?_of_mem distinct' (List.mem_reverse.mpr (mem_of_get? found))
  | none =>
      rw [get?_eq_none_iff] at found ⊢
      simpa only [keys, List.map_reverse, List.mem_reverse] using found

theorem mem_ofList {pairs : List (String × α)} {m : String × α} (h : m ∈ ofList pairs) :
    m ∈ pairs :=
  (mem_insertAll h).resolve_right List.not_mem_nil

theorem mem_keys_ofList {pairs : List (String × α)} {k : String} :
    k ∈ keys (ofList pairs) ↔ k ∈ keys pairs := by
  rw [ofList, mem_keys_insertAll]
  simp [keys]

theorem nodup_keys_ofList (pairs : List (String × α)) : (keys (ofList pairs)).Nodup :=
  nodup_keys_insertAll List.nodup_nil

theorem get?_insertIfNew (key k : String) (value : α) (members : Members α) :
    get? k (insertIfNew key value members) =
      (get? k members).or (if key = k then some value else none) := by
  unfold insertIfNew contains
  cases found : get? key members with
  | none => simp [get?_append, get?_cons]
  | some v =>
      by_cases same : key = k
      · subst same
        simp [found]
      · simp [same]

theorem get?_insertAllIfNew (key : String) (members more : Members α) :
    get? key (insertAllIfNew members more) = (get? key members).or (get? key more) := by
  induction more generalizing members with
  | nil => simp [insertAllIfNew]
  | cons head rest ih =>
      obtain ⟨k, v⟩ := head
      have step : insertAllIfNew members ((k, v) :: rest) =
          insertAllIfNew (insertIfNew k v members) rest := rfl
      rw [step, ih, get?_insertIfNew, Option.or_assoc]
      by_cases same : k = key <;> simp [get?_cons, same]

theorem insertAllIfNew_of_fresh {members more : Members α} (distinct : (keys more).Nodup)
    (fresh : ∀ key ∈ keys more, get? key members = none) :
    insertAllIfNew members more = members ++ more := by
  induction more generalizing members with
  | nil => rw [insertAllIfNew, List.foldl_nil, List.append_nil]
  | cons head rest ih =>
      obtain ⟨k, v⟩ := head
      obtain ⟨other, distinct⟩ := List.nodup_cons.mp distinct
      obtain ⟨first, fresh⟩ := List.forall_mem_cons.mp fresh
      have added : insertIfNew k v members = members ++ [(k, v)] := by
        simp [insertIfNew, contains, first]
      have later : ∀ key ∈ keys rest, get? key (members ++ [(k, v)]) = none := by
        intro key mem
        have apart : k ≠ key := fun same => other (same ▸ mem)
        simp [get?_append, fresh key mem, get?_cons, apart]
      have step : insertAllIfNew members ((k, v) :: rest) =
          insertAllIfNew (insertIfNew k v members) rest := rfl
      rw [step, added, ih distinct later, List.append_assoc]
      rfl

theorem get?_erase_of_ne {key k : String} (other : k ≠ key) (members : Members α) :
    get? k (erase key members) = get? k members := by
  induction members with
  | nil => rfl
  | cons head rest ih =>
      obtain ⟨first, v⟩ := head
      by_cases here : first = key
      · have later : first ≠ k := fun same => other (same.symm.trans here)
        simp only [erase, here, if_true, get?_cons, if_neg (here ▸ later)]
      · simp only [erase, here, if_false, get?_cons, ih]

theorem length_erase_lt {key : String} {value : α} {members : Members α}
    (found : get? key members = some value) : (erase key members).length < members.length := by
  induction members with
  | nil => cases found
  | cons head rest ih =>
      obtain ⟨first, v⟩ := head
      by_cases here : first = key
      · simp [erase, here]
      · simp only [get?_cons, here, if_false] at found
        simpa [erase, here] using ih found

def mapValues {β : Type} (f : α → β) (members : Members α) : Members β :=
  members.map fun m => (m.1, f m.2)

section MapValues

variable {β : Type} (f : α → β)

theorem get?_mapValues (key : String) (members : Members α) :
    get? key (mapValues f members) = (get? key members).map f := by
  induction members with
  | nil => rfl
  | cons head rest ih =>
      obtain ⟨k, v⟩ := head
      by_cases hk : k = key
      · simp [mapValues, get?_cons, hk]
      · simpa [mapValues, get?_cons, hk] using ih

theorem mapValues_insert (key : String) (value : α) (members : Members α) :
    mapValues f (insert key value members) = insert key (f value) (mapValues f members) := by
  induction members with
  | nil => rfl
  | cons head rest ih =>
      obtain ⟨k, v⟩ := head
      by_cases hk : k = key
      · simp [mapValues, insert_cons, hk]
      · simpa [mapValues, insert_cons, hk] using ih

theorem mapValues_insertAll (members more : Members α) :
    mapValues f (insertAll members more) = insertAll (mapValues f members) (mapValues f more) := by
  induction more generalizing members with
  | nil => rfl
  | cons head rest ih =>
      have step : insertAll members (head :: rest) =
          insertAll (insert head.1 head.2 members) rest := rfl
      rw [step, ih, mapValues_insert]
      rfl

theorem mapValues_filter_key (keep : String → Bool) (members : Members α) :
    mapValues f (members.filter fun m => keep m.1) =
      (mapValues f members).filter fun m => keep m.1 := by
  rw [mapValues, mapValues, List.filter_map]
  rfl

end MapValues

theorem rel_get? {β : Type} {r : α → β → Prop} {members : Members α} {members' : Members β}
    (key : String) (related : List.Forall₂ (fun m m' => m.1 = m'.1 ∧ r m.2 m'.2) members members') :
    Option.Rel r (get? key members) (get? key members') := by
  induction related with
  | nil => exact .none
  | @cons m m' _ _ first _ ih =>
      obtain ⟨k, v⟩ := m
      obtain ⟨k', v'⟩ := m'
      obtain ⟨rfl, related⟩ := first
      by_cases found : k = key
      · simpa [get?_cons, found] using Option.Rel.some related
      · simpa [get?_cons, found] using ih

end Members

end FederatedMock
