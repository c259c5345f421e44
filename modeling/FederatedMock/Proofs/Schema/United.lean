import FederatedMock.Proofs.Ordered.FirstMention
import FederatedMock.Proofs.Schema.Merging

namespace FederatedMock

namespace Collected

variable {α : Type} [Extendable α]

def names (c : Collected α) : List String :=
  let defined := c.definitions.map Extendable.name
  defined ++ ((c.extensions.map Extendable.name).filter fun name => name ∉ defined).eraseDups

def parts (c : Collected α) (name : String) : List α :=
  (c.definitions ++ c.extensions).filter fun t => Extendable.name t = name

theorem keys_merge_eq_names {c : Collected α}
    (distinct : (c.definitions.map Extendable.name).Nodup) : c.merge.keys = c.names := by
  rw [keys_merge, List.map_append, Names.ofList, Names.addAll_append, Names.addAll_eq]
  have defined := Names.ofList_of_nodup distinct
  rw [Names.ofList] at defined
  rw [defined]
  rfl

theorem parts_ne_nil {c : Collected α} {name : String} (mentioned : name ∈ c.merge.keys) :
    c.parts name ≠ [] := by
  rw [keys_merge, Names.mem_ofList] at mentioned
  obtain ⟨t, mem, rfl⟩ := List.mem_map.mp mentioned
  exact List.ne_nil_of_mem (List.mem_filter.mpr ⟨mem, by simp⟩)

theorem merge_eq_map [LawfulExtendable α] {c : Collected α} {unite : String → List α → α}
    (distinct : (c.definitions.map Extendable.name).Nodup)
    (unites : ∀ first ∈ c.definitions ++ c.extensions, ∀ rest : List α,
      rest.foldl Extendable.absorb first = unite (Extendable.name first) (first :: rest)) :
    c.merge = c.names.map fun name => (name, unite name (c.parts name)) := by
  rw [← keys_merge_eq_names distinct]
  refine Members.eq_map_keys c.named_merge.distinct fun name mentioned => ?_
  obtain ⟨first, rest, split⟩ := List.exists_cons_of_ne_nil (parts_ne_nil mentioned)
  have among : first ∈ c.parts name := by
    rw [split]
    exact List.mem_cons_self
  obtain ⟨mem, named⟩ := List.mem_filter.mp among
  rw [get?_merge distinct, ← parts, split, combine_cons, unites first mem rest,
    of_decide_eq_true named]

end Collected

namespace CompositeType

structure Distinct (t : CompositeType) : Prop where
  interfaces : t.interfaces.Nodup
  fields : t.fields.keys.Nodup

/-- The type of that name which implements what any of the parts does and has the fields of all, of
each name the first. -/
def united (name : String) (parts : List CompositeType) : CompositeType where
  name := name
  interfaces := (parts.flatMap CompositeType.interfaces).eraseDups
  fields := (parts.flatMap CompositeType.fields).eraseDupsBy fun f g => f.1 == g.1

theorem distinct_ofDefinition (name : String) (interfaces : List String)
    (fields : List Graphql.FieldDefinition) : (ofDefinition name interfaces fields).Distinct where
  interfaces := Names.nodup_ofList interfaces
  fields := by
    rw [ofDefinition, Members.keys_insertAllIfNew]
    exact Names.nodup_addAll List.nodup_nil _

theorem absorbed (t : CompositeType) (rest : List CompositeType) :
    rest.foldl Extendable.absorb t =
      ⟨t.name, Names.addAll t.interfaces (rest.flatMap CompositeType.interfaces),
        t.fields.insertAllIfNew (rest.flatMap CompositeType.fields)⟩ := by
  induction rest generalizing t with
  | nil => rfl
  | cons part rest ih =>
      rw [List.foldl_cons, ih, List.flatMap_cons, List.flatMap_cons, Names.addAll_append,
        Members.insertAllIfNew_append]
      rfl

theorem absorbed_eq_united {t : CompositeType} (distinct : t.Distinct) (rest : List CompositeType) :
    rest.foldl Extendable.absorb t = united t.name (t :: rest) := by
  have interfaces := Names.addAll_of_nodup distinct.interfaces (rest.flatMap CompositeType.interfaces)
  have fields := Members.insertAllIfNew_of_nodup distinct.fields (rest.flatMap CompositeType.fields)
  have absorbed := absorbed t rest
  rwa [interfaces, fields, ← List.flatMap_cons, ← List.flatMap_cons] at absorbed

end CompositeType

namespace UnionType

def united (name : String) (parts : List UnionType) : UnionType where
  name := name
  members := (parts.flatMap UnionType.members).eraseDups

theorem absorbed (t : UnionType) (rest : List UnionType) :
    rest.foldl Extendable.absorb t =
      ⟨t.name, Names.addAll t.members (rest.flatMap UnionType.members)⟩ := by
  induction rest generalizing t with
  | nil => rfl
  | cons part rest ih =>
      rw [List.foldl_cons, ih, List.flatMap_cons, Names.addAll_append]
      rfl

theorem absorbed_eq_united {t : UnionType} (distinct : t.members.Nodup) (rest : List UnionType) :
    rest.foldl Extendable.absorb t = united t.name (t :: rest) := by
  have members := Names.addAll_of_nodup distinct (rest.flatMap UnionType.members)
  have absorbed := absorbed t rest
  rwa [members, ← List.flatMap_cons] at absorbed

end UnionType

/-- Where no name is defined twice, a table has under each name that is mentioned, in the order of
the definitions and then of the extensions without one, all that is said of it, put together in
order. -/
theorem merge_united :
    (∀ c : Collected CompositeType, (c.definitions.map CompositeType.name).Nodup →
      (∀ t ∈ c.definitions ++ c.extensions, t.Distinct) →
        c.merge = c.names.map fun name => (name, .united name (c.parts name))) ∧
    ∀ c : Collected UnionType, (c.definitions.map UnionType.name).Nodup →
      (∀ t ∈ c.definitions ++ c.extensions, t.members.Nodup) →
        c.merge = c.names.map fun name => (name, .united name (c.parts name)) := by
  constructor
  · intro c defined distinct
    exact Collected.merge_eq_map defined fun first mem rest =>
      CompositeType.absorbed_eq_united (distinct first mem) rest
  · intro c defined distinct
    exact Collected.merge_eq_map defined fun first mem rest =>
      UnionType.absorbed_eq_united (distinct first mem) rest

def bookAndFilm : Collected CompositeType where
  definitions := [.ofDefinition "Book" ["Node"] [⟨none, "id", [], .named "ID" true, []⟩,
    ⟨none, "title", [], .named "String" false, []⟩]]
  extensions := [.ofDefinition "Film" [] [⟨none, "id", [], .named "ID" true, []⟩],
    .ofDefinition "Book" ["Node", "Publication"] [⟨none, "title", [], .named "Int" false, []⟩,
      ⟨none, "pages", [], .named "Int" true, []⟩],
    .ofDefinition "Film" ["Node"] [⟨none, "id", [], .named "Int" false, []⟩]]

def orphanMedia : Collected UnionType where
  definitions := []
  extensions := [.ofDefinition "Media" ["Book"], .ofDefinition "Media" ["Book", "Film"]]

theorem bookAndFilm_united :
    (bookAndFilm.definitions.map CompositeType.name).Nodup ∧
    (∀ t ∈ bookAndFilm.definitions ++ bookAndFilm.extensions, t.Distinct) ∧
    bookAndFilm.merge =
      [("Book", ⟨"Book", ["Node", "Publication"], [("id", .named "ID" true),
          ("title", .named "String" false), ("pages", .named "Int" true)]⟩),
        ("Film", ⟨"Film", ["Node"], [("id", .named "ID" true)]⟩)] ∧
    (orphanMedia.definitions.map UnionType.name).Nodup ∧
    (∀ t ∈ orphanMedia.definitions ++ orphanMedia.extensions, t.members.Nodup) ∧
    orphanMedia.merge = [("Media", ⟨"Media", ["Book", "Film"]⟩)] := by
  have defined : (bookAndFilm.definitions.map CompositeType.name).Nodup := by decide
  have distinct : ∀ t ∈ bookAndFilm.definitions ++ bookAndFilm.extensions, t.Distinct := by
    simp [bookAndFilm, CompositeType.distinct_ofDefinition]
  have members : ∀ t ∈ orphanMedia.definitions ++ orphanMedia.extensions, t.members.Nodup := by
    decide
  exact ⟨defined, distinct, (merge_united.1 bookAndFilm defined distinct).trans rfl,
    List.nodup_nil, members, (merge_united.2 orphanMedia List.nodup_nil members).trans rfl⟩

end FederatedMock
