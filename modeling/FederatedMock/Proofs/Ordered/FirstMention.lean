import FederatedMock.Proofs.Ordered.Members
import FederatedMock.Proofs.Ordered.Names
import Mathlib.Data.List.Induction

namespace FederatedMock

section Fresh

variable {α : Type} (key : α → String)

def addFresh (acc : List α) (a : α) : List α :=
  if key a ∈ acc.map key then acc else acc ++ [a]

def firsts (as : List α) : List α :=
  as.eraseDupsBy fun a b => key a == key b

theorem firsts_cons (a : α) (as : List α) :
    firsts key (a :: as) = a :: firsts key (as.filter fun b => key b ≠ key a) := by
  rw [firsts, List.eraseDupsBy_cons]
  congr 2
  refine List.filter_congr fun b _ => ?_
  simp

theorem foldl_addFresh (acc as : List α) :
    as.foldl (addFresh key) acc = acc ++ firsts key (as.filter fun a => key a ∉ acc.map key) := by
  induction as generalizing acc with
  | nil => simp [firsts]
  | cons a rest ih =>
      rw [List.foldl_cons, ih]
      by_cases known : key a ∈ acc.map key
      · rw [addFresh, if_pos known, List.filter_cons_of_neg (by simpa using known)]
      · -- What is new from here on is what was new before and is not under the key just added.
        rw [addFresh, if_neg known, List.filter_cons_of_pos (by simpa using known), firsts_cons,
          List.filter_filter, List.append_assoc, List.singleton_append]
        congr 3
        refine List.filter_congr fun b _ => ?_
        rw [List.map_append, Bool.eq_iff_iff]
        simp only [List.mem_append, List.map_cons, List.map_nil, List.mem_singleton, not_or,
          Bool.and_eq_true, decide_eq_true_eq, and_comm]

end Fresh

namespace Names

theorem addAll_eq (names more : List String) :
    addAll names more = names ++ (more.filter fun name => name ∉ names).eraseDups := by
  have step : insert = addFresh (id : String → String) := by
    funext acc name
    simp [insert, addFresh]
  rw [addAll, step, foldl_addFresh, List.map_id]
  rfl

theorem ofList_of_nodup {names : List String} (distinct : names.Nodup) : ofList names = names := by
  induction names using List.reverseRecOn with
  | nil => rfl
  | append_singleton names name ih =>
      obtain ⟨before, -, apart⟩ := List.nodup_append.mp distinct
      have fresh : name ∉ names := fun mem => apart name mem name List.mem_cons_self rfl
      have first := ih before
      rw [ofList] at first ⊢
      rw [addAll_append, first]
      exact if_neg fresh

theorem addAll_of_nodup {names : List String} (distinct : names.Nodup) (more : List String) :
    addAll names more = (names ++ more).eraseDups := by
  have known := ofList_of_nodup distinct
  have all := addAll_eq [] (names ++ more)
  rw [ofList] at known
  rw [addAll_append, known] at all
  simpa using all

end Names

namespace Members

variable {α : Type}

theorem insertAllIfNew_append (members more others : Members α) :
    insertAllIfNew members (more ++ others) =
      insertAllIfNew (insertAllIfNew members more) others :=
  List.foldl_append

theorem keys_insertIfNew (key : String) (value : α) (members : Members α) :
    keys (insertIfNew key value members) = Names.insert (keys members) key := by
  unfold insertIfNew contains
  cases found : get? key members with
  | none =>
      have fresh : key ∉ keys members := get?_eq_none_iff.mp found
      rw [Names.insert, if_neg fresh]
      exact List.map_append
  | some v =>
      have known : key ∈ keys members := List.mem_map.mpr ⟨_, mem_of_get? found, rfl⟩
      rw [Names.insert, if_pos known]
      rfl

theorem keys_insertAllIfNew (members more : Members α) :
    keys (insertAllIfNew members more) = Names.addAll (keys members) (keys more) := by
  induction more generalizing members with
  | nil => rfl
  | cons head rest ih =>
      have step : insertAllIfNew members (head :: rest) =
          insertAllIfNew (insertIfNew head.1 head.2 members) rest := rfl
      rw [step, ih, keys_insertIfNew]
      rfl

theorem insertAllIfNew_nil (members : Members α) :
    insertAllIfNew [] members = firsts Prod.fst members := by
  have step : (fun (acc : Members α) kv => insertIfNew kv.1 kv.2 acc) = addFresh Prod.fst := by
    funext acc kv
    cases found : get? kv.1 acc with
    | none =>
        have fresh : kv.1 ∉ acc.map Prod.fst := get?_eq_none_iff.mp found
        simp only [insertIfNew, contains, found, addFresh, if_neg fresh]
        rfl
    | some v =>
        have known : kv.1 ∈ acc.map Prod.fst := List.mem_map.mpr ⟨_, mem_of_get? found, rfl⟩
        simp only [insertIfNew, contains, found, addFresh, if_pos known]
        rfl
  rw [insertAllIfNew, step, foldl_addFresh]
  simp

theorem insertAllIfNew_of_nodup {members : Members α} (distinct : (keys members).Nodup)
    (more : Members α) : insertAllIfNew members more = firsts Prod.fst (members ++ more) := by
  have known : insertAllIfNew [] members = members :=
    insertAllIfNew_of_fresh distinct fun _ _ => rfl
  rw [← insertAllIfNew_nil, insertAllIfNew_append, known]

theorem eq_map_keys {members : Members α} {f : String → α} (distinct : (keys members).Nodup)
    (values : ∀ key ∈ keys members, get? key members = some (f key)) :
    members = (keys members).map fun key => (key, f key) := by
  rw [keys, List.map_map]
  refine (List.map_id members).symm.trans (List.map_congr_left fun m mem => ?_)
  have here := (get?_of_mem distinct mem).symm.trans (values m.1 (List.mem_map_of_mem mem))
  exact Prod.ext rfl (Option.some.inj here)

end Members

end FederatedMock
