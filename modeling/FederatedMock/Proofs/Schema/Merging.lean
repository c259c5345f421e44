import FederatedMock.Proofs.Ordered.Members
import FederatedMock.Proofs.Ordered.Names
import FederatedMock.Schema.Subgraph

namespace FederatedMock

class LawfulExtendable (α : Type) [Extendable α] : Prop where
  name_absorb : ∀ t extension : α,
    Extendable.name (Extendable.absorb t extension) = Extendable.name t

instance : LawfulExtendable CompositeType := ⟨fun _ _ => rfl⟩

instance : LawfulExtendable UnionType := ⟨fun _ _ => rfl⟩

namespace Collected

variable {α : Type} [Extendable α]

def take (found : Option α) (part : α) : Option α :=
  some (found.elim part (Extendable.absorb · part))

def combine (parts : List α) : Option α :=
  parts.foldl take none

theorem foldl_take (t : α) (parts : List α) :
    parts.foldl take (some t) = some (parts.foldl Extendable.absorb t) := by
  induction parts generalizing t with
  | nil => rfl
  | cons part rest ih => exact ih _

theorem combine_cons (t : α) (parts : List α) :
    combine (t :: parts) = some (parts.foldl Extendable.absorb t) :=
  foldl_take t parts

theorem combine_eq_none_iff {parts : List α} : combine parts = none ↔ parts = [] := by
  cases parts with
  | nil => simp [combine]
  | cons t rest => simp [combine_cons]

theorem combine_eq_some_iff {parts : List α} {t : α} : combine parts = some t ↔
    ∃ first rest, parts = first :: rest ∧ rest.foldl Extendable.absorb first = t := by
  cases parts with
  | nil => simp [combine]
  | cons first rest => simp [combine_cons]

theorem get?_extend (table : Members α) (extension : α) (name : String) :
    (extend table extension).get? name =
      if Extendable.name extension = name then take (table.get? name) extension
      else table.get? name := by
  unfold extend
  cases found : table.get? (Extendable.name extension) with
  | some t =>
      by_cases same : Extendable.name extension = name
      · subst same
        simp [Members.get?_insert, take, found]
      · simp [Members.get?_insert, same]
  | none =>
      by_cases same : Extendable.name extension = name
      · subst same
        simp [Members.get?_append, Members.get?, take, found]
      · simp [Members.get?_append, Members.get?, same]

theorem get?_foldl_extend (table : Members α) (extensions : List α) (name : String) :
    (extensions.foldl extend table).get? name =
      (extensions.filter fun e => Extendable.name e = name).foldl take (table.get? name) := by
  induction extensions generalizing table with
  | nil => rfl
  | cons e rest ih =>
      rw [List.foldl_cons, ih, get?_extend]
      by_cases same : Extendable.name e = name <;> simp [same]

theorem get?_foldl_define {table : Members α} {definitions : List α} {name : String}
    (distinct : (definitions.map Extendable.name).Nodup)
    (fresh : ∀ t ∈ definitions, table.get? (Extendable.name t) = none) :
    (definitions.foldl define table).get? name =
      (definitions.filter fun t => Extendable.name t = name).foldl take (table.get? name) := by
  induction definitions generalizing table with
  | nil => rfl
  | cons t rest ih =>
      obtain ⟨other, distinct⟩ := List.nodup_cons.mp distinct
      obtain ⟨first, fresh⟩ := List.forall_mem_cons.mp fresh
      have later : ∀ u ∈ rest, (define table t).get? (Extendable.name u) = none := by
        intro u mem
        have apart : Extendable.name t ≠ Extendable.name u := fun same =>
          other (same ▸ List.mem_map_of_mem mem)
        rw [define, Members.get?_insert, if_neg apart]
        exact fresh u mem
      rw [List.foldl_cons, ih distinct later, define, Members.get?_insert]
      by_cases same : Extendable.name t = name
      · subst same
        simp [first, take]
      · simp [same]

theorem get?_merge {c : Collected α} (distinct : (c.definitions.map Extendable.name).Nodup)
    (name : String) :
    c.merge.get? name =
      combine ((c.definitions ++ c.extensions).filter fun t => Extendable.name t = name) := by
  have empty : ∀ t ∈ c.definitions, Members.get? (Extendable.name t) ([] : Members α) = none :=
    fun _ _ => rfl
  rw [merge, get?_foldl_extend, get?_foldl_define distinct empty, List.filter_append, combine,
    List.foldl_append]
  rfl

structure Named (table : Members α) : Prop where
  name : ∀ m ∈ table, Extendable.name m.2 = m.1
  distinct : (Members.keys table).Nodup

theorem Named.insert {table : Members α} (named : Named table) (t : α) :
    Named (table.insert (Extendable.name t) t) where
  name := by
    intro m mem
    rcases Members.mem_insert mem with rfl | before
    · rfl
    · exact named.name m before
  distinct := Members.nodup_keys_insert named.distinct

theorem keys_extend (table : Members α) (extension : α) :
    (Collected.extend table extension).keys =
      Names.insert table.keys (Extendable.name extension) := by
  unfold Collected.extend
  cases found : table.get? (Extendable.name extension) with
  | some t => exact Members.keys_insert _ _ _
  | none =>
      have fresh : Extendable.name extension ∉ table.keys := Members.get?_eq_none_iff.mp found
      rw [Names.insert, if_neg fresh]
      exact List.map_append

theorem keys_merge (c : Collected α) :
    c.merge.keys = Names.ofList ((c.definitions ++ c.extensions).map Extendable.name) := by
  have run (step : Members α → α → Members α)
      (keys_step : ∀ table t, (step table t).keys = Names.insert table.keys (Extendable.name t))
      (parts : List α) (table : Members α) :
      (parts.foldl step table).keys = Names.addAll table.keys (parts.map Extendable.name) := by
    induction parts generalizing table with
    | nil => rfl
    | cons t rest ih =>
        rw [List.foldl_cons, ih, keys_step]
        rfl
  rw [merge, run Collected.extend keys_extend,
    run define (fun table t => Members.keys_insert _ t table), List.map_append, Names.ofList,
    Names.addAll_append]
  rfl

theorem Named.names_filter {table : Members α} (named : Named table) (sort : α → Bool) :
    (table.filter fun m => sort m.2).map (fun m => Extendable.name m.2) =
      table.keys.filter fun key => (table.get? key).any sort := by
  have known : ∀ m ∈ table, table.get? m.1 = some m.2 := fun m mem =>
    Members.get?_of_mem named.distinct mem
  have same : (table.filter fun m => sort m.2) =
      table.filter fun m => (table.get? m.1).any sort := by
    refine List.filter_congr fun m mem => ?_
    rw [known m mem, Option.any_some]
  rw [same, Members.keys, List.filter_map]
  refine List.map_congr_left fun m mem => ?_
  exact named.name m (List.mem_filter.mp mem).1

variable [LawfulExtendable α]

theorem Named.extend {table : Members α} (named : Named table) (extension : α) :
    Named (Collected.extend table extension) := by
  unfold Collected.extend
  cases found : table.get? (Extendable.name extension) with
  | some t =>
      have known := named.name _ (Members.mem_of_get? found)
      have same : Extendable.name extension =
          Extendable.name (Extendable.absorb t extension) :=
        known.symm.trans (LawfulExtendable.name_absorb t extension).symm
      change Named (table.insert (Extendable.name extension) (Extendable.absorb t extension))
      rw [same]
      exact named.insert _
  | none =>
      have added := named.insert extension
      rwa [Members.insert_of_get?_eq_none extension found] at added

theorem named_merge (c : Collected α) : Named c.merge := by
  have definitions : Named (c.definitions.foldl define []) := by
    have start : Named ([] : Members α) :=
      ⟨fun _ mem => (List.not_mem_nil mem).elim, List.nodup_nil⟩
    generalize ([] : Members α) = table at start ⊢
    induction c.definitions generalizing table with
    | nil => exact start
    | cons t rest ih => exact ih _ (start.insert t)
  unfold merge
  generalize c.definitions.foldl define [] = table at definitions ⊢
  induction c.extensions generalizing table with
  | nil => exact definitions
  | cons e rest ih => exact ih _ (definitions.extend e)

theorem name_of_get?_merge {c : Collected α} {name : String} {t : α}
    (found : c.merge.get? name = some t) : Extendable.name t = name :=
  c.named_merge.name _ (Members.mem_of_get? found)

end Collected

namespace Tables

structure WellNamed (t : Tables) : Prop where
  interfaces : Collected.Named t.interfaces
  objects : Collected.Named t.objects
  unions : Collected.Named t.unions

theorem wellNamed_ofDocument (d : Graphql.Document) : (Tables.ofDocument d).WellNamed :=
  ⟨Collected.named_merge _, Collected.named_merge _, Collected.named_merge _⟩

end Tables

namespace CompositeType

theorem implements_iff {t : CompositeType} {interface : String} :
    t.implements interface = true ↔ interface ∈ t.interfaces := by
  simp [implements]

theorem mem_interfaces_absorbed {t : CompositeType} {parts : List CompositeType} {i : String} :
    i ∈ (parts.foldl Extendable.absorb t).interfaces ↔
      ∃ part ∈ t :: parts, i ∈ part.interfaces := by
  induction parts generalizing t with
  | nil => simp
  | cons part rest ih =>
      have absorbed : (Extendable.absorb t part).interfaces =
          Names.addAll t.interfaces part.interfaces := rfl
      rw [List.foldl_cons, ih]
      simp only [List.mem_cons, exists_eq_or_imp, absorbed, Names.mem_addAll, or_assoc]

theorem get?_fields_absorbed {t : CompositeType} {parts : List CompositeType} {f : String} :
    (parts.foldl Extendable.absorb t).fields.get? f =
      (t :: parts).findSome? fun part => part.fields.get? f := by
  induction parts generalizing t with
  | nil => simp
  | cons part rest ih =>
      have absorbed : (Extendable.absorb t part).fields =
          t.fields.insertAllIfNew part.fields := rfl
      rw [List.foldl_cons, ih, List.findSome?_cons, List.findSome?_cons, List.findSome?_cons,
        absorbed, Members.get?_insertAllIfNew]
      cases t.fields.get? f <;> rfl

end CompositeType

namespace UnionType

theorem mem_members_absorbed {t : UnionType} {parts : List UnionType} {m : String} :
    m ∈ (parts.foldl Extendable.absorb t).members ↔ ∃ part ∈ t :: parts, m ∈ part.members := by
  induction parts generalizing t with
  | nil => simp
  | cons part rest ih =>
      have absorbed : (Extendable.absorb t part).members =
          Names.addAll t.members part.members := rfl
      rw [List.foldl_cons, ih]
      simp only [List.mem_cons, exists_eq_or_imp, absorbed, Names.mem_addAll, or_assoc]

theorem nodup_members_absorbed {t : UnionType} (distinct : t.members.Nodup)
    (parts : List UnionType) : (parts.foldl Extendable.absorb t).members.Nodup := by
  induction parts generalizing t with
  | nil => exact distinct
  | cons part rest ih => exact ih (Names.nodup_addAll distinct part.members)

end UnionType

end FederatedMock
