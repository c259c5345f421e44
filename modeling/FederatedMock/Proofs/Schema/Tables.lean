import FederatedMock.Proofs.Operation.Alike
import FederatedMock.Proofs.Schema.Statements

namespace FederatedMock

open Graphql

section Reads

variable {α : Type} {f : TypeDefinition → Option α} {of : TypeDefinition → α} {kind : TypeKind}

def Reads (f : TypeDefinition → Option α) (of : TypeDefinition → α) (kind : TypeKind) : Prop :=
  ∀ p, f p = if p.body.kind = kind then some (of p) else none

theorem Reads.filterMap (reads : Reads f of kind) (parts : List TypeDefinition) :
    parts.filterMap f = (parts.filter fun p => p.body.kind = kind).map of := by
  induction parts with
  | nil => rfl
  | cons p rest ih =>
      by_cases same : p.body.kind = kind <;> simp [reads p, same, ih]

theorem Reads.select (reads : Reads f of kind) (d : Document) (extension : Bool) :
    Definitions.select d extension f = (((typeParts d).filter fun p => p.extension = extension)
      |>.filter fun p => p.body.kind = kind).map of := by
  rw [← reads.filterMap, Definitions.select, typeParts, List.filterMap_filter,
    List.filterMap_filterMap]
  congr 1
  funext definition
  cases definition <;> simp

theorem Reads.mentions (reads : Reads f of kind) (d : Document) :
    Definitions.mentions d f = ((typeParts d).filter fun p => p.body.kind = kind).map of := by
  rw [← reads.filterMap, Definitions.mentions, typeParts, List.filterMap_filterMap]
  congr 1
  funext definition
  cases definition <;> rfl

theorem Reads.get?_merge [Extendable α] (reads : Reads f of kind)
    (named : ∀ p, Extendable.name (of p) = p.name) {d : Document} (once : d.DefinesOnce)
    (name : String) :
    (Definitions.collected d f).merge.get? name =
      Collected.combine ((partsOfKind d kind name).map of) := by
  have definitions : (Definitions.collected d f).definitions =
      (((typeParts d).filter fun p => !p.extension)
        |>.filter fun p => p.body.kind = kind).map of := by
    have read := reads.select d false
    change Definitions.select d false f = _
    simpa using read
  have extensions : (Definitions.collected d f).extensions =
      (((typeParts d).filter TypeDefinition.extension)
        |>.filter fun p => p.body.kind = kind).map of := by
    have read := reads.select d true
    change Definitions.select d true f = _
    simpa using read
  have apart : ((Definitions.collected d f).definitions.map Extendable.name).Nodup := by
    have names : Extendable.name ∘ of = TypeDefinition.name := funext named
    rw [definitions, List.map_map, names]
    exact (List.filter_sublist.map _).nodup once
  have parts : ((((typeParts d).filter fun p => !p.extension) ++
      (typeParts d).filter TypeDefinition.extension).filter fun p => p.body.kind = kind).filter
        (fun p => Extendable.name (of p) = name) = partsOfKind d kind name := by
    rw [List.filter_filter, partsOfKind]
    congr 1
    funext p
    simp [named]
  rw [Collected.get?_merge apart, definitions, extensions, ← List.map_append, ← List.filter_append,
    List.filter_map, ← parts]
  rfl

end Reads

def composite (p : TypeDefinition) : CompositeType :=
  .ofDefinition p.name p.body.interfaceNames p.body.fieldDefinitions

theorem reads_object : Reads Definitions.object? composite .object := by
  rintro ⟨extension, description, name, directives, body⟩
  cases body <;> rfl

theorem reads_interface : Reads Definitions.interface? composite .interface := by
  rintro ⟨extension, description, name, directives, body⟩
  cases body <;> rfl

theorem get?_fields_composite (p : TypeDefinition) (f : String) :
    (composite p).fields.get? f =
      Members.get? f (p.body.fieldDefinitions.map fun g => (g.name, g.type)) := by
  change Members.get? f (Members.insertAllIfNew [] _) = _
  rw [Members.get?_insertAllIfNew]
  rfl

theorem mem_interfaces_composite {p : TypeDefinition} {i : String} :
    i ∈ (composite p).interfaces ↔ .implements i ∈ p.clauses := by
  rw [implements_mem_clauses]
  exact Names.mem_ofList

structure Describes (d : Document) (kind : TypeKind) (name : String) (t : CompositeType) :
    Prop where
  named : t.name = name
  implements : ∀ i, i ∈ t.interfaces ↔ ⟨name, kind, .implements i⟩ ∈ d.statements
  sound : ∀ f type, t.fields.get? f = some type → ⟨name, kind, .field f type⟩ ∈ d.statements
  complete : ∀ f type, ⟨name, kind, .field f type⟩ ∈ d.statements → t.fields.get? f ≠ none

section Composite

variable {d d' : Document} {kind : TypeKind} {name : String}

theorem describes_of_combine {t : CompositeType} (named : t.name = name)
    (found : Collected.combine ((partsOfKind d kind name).map composite) = some t) :
    Describes d kind name t := by
  obtain ⟨first, rest, parts, rfl⟩ := Collected.combine_eq_some_iff.mp found
  have field (f : String) : (rest.foldl Extendable.absorb first).fields.get? f =
      (partsOfKind d kind name).findSome? fun p => (composite p).fields.get? f := by
    rw [CompositeType.get?_fields_absorbed, ← parts, List.findSome?_map]
    rfl
  refine ⟨named, fun i => ?_, fun f type found => ?_, fun f type said missing => ?_⟩
  · rw [CompositeType.mem_interfaces_absorbed, ← parts, exists_clause_iff]
    simp only [List.mem_map, exists_exists_and_eq_and, mem_interfaces_composite]
  · rw [field] at found
    obtain ⟨p, mem, found⟩ := List.exists_of_findSome?_eq_some found
    rw [get?_fields_composite] at found
    obtain ⟨g, stated, same⟩ := List.mem_map.mp (Members.mem_of_get? found)
    obtain ⟨rfl, rfl⟩ := Prod.mk.inj same
    exact exists_clause_iff.mpr ⟨p, mem, field_mem_clauses.mpr ⟨g, stated, rfl, rfl⟩⟩
  · obtain ⟨p, mem, said⟩ := exists_clause_iff.mp said
    obtain ⟨g, stated, rfl, rfl⟩ := field_mem_clauses.mp said
    rw [field, List.findSome?_eq_none_iff] at missing
    have none := missing p mem
    rw [get?_fields_composite, Members.get?_eq_none_iff] at none
    exact none (by simpa [Members.keys] using ⟨g, stated, rfl⟩)

def Graphql.Document.FieldsAgree (d : Document) : Prop :=
  ∀ name kind f type type', ⟨name, kind, .field f type⟩ ∈ d.statements →
    ⟨name, kind, .field f type'⟩ ∈ d.statements → type = type'

theorem Describes.alike {t t' : CompositeType} (describes : Describes d kind name t)
    (describes' : Describes d' kind name t') (same : Restates d d') (agree : d.FieldsAgree) :
    t.Alike t' where
  name := describes.named.trans describes'.named.symm
  implements := by
    intro i
    rw [Bool.eq_iff_iff, CompositeType.implements_iff, CompositeType.implements_iff,
      describes.implements, describes'.implements]
    exact same _
  fields := by
    intro f
    cases found : t.fields.get? f with
    | some type =>
        have said := describes.sound f type found
        cases found' : t'.fields.get? f with
        | none => exact (describes'.complete f type ((same _).mp said) found').elim
        | some type' =>
            have said' := (same _).mpr (describes'.sound f type' found')
            rw [agree name kind f type type' said said']
    | none =>
        cases found' : t'.fields.get? f with
        | none => rfl
        | some type' =>
            have said := (same _).mpr (describes'.sound f type' found')
            exact (describes.complete f type' said found).elim

end Composite

def unionOf (p : TypeDefinition) : UnionType :=
  .ofDefinition p.name p.body.memberNames

theorem reads_union : Reads Definitions.union? unionOf .union := by
  rintro ⟨extension, description, name, directives, body⟩
  cases body <;> rfl

theorem mem_members_unionOf {p : TypeDefinition} {m : String} :
    m ∈ (unionOf p).members ↔ .member m ∈ p.clauses := by
  rw [member_mem_clauses]
  exact Names.mem_ofList

theorem members_of_combine {d : Document} {name : String} {u : UnionType}
    (found : Collected.combine ((partsOfKind d .union name).map unionOf) = some u) :
    u.members.Nodup ∧ ∀ m, m ∈ u.members ↔ ⟨name, .union, .member m⟩ ∈ d.statements := by
  obtain ⟨first, rest, parts, rfl⟩ := Collected.combine_eq_some_iff.mp found
  have distinct : first.members.Nodup := by
    have listed : first ∈ (partsOfKind d .union name).map unionOf := by
      rw [parts]
      exact List.mem_cons_self
    obtain ⟨p, -, rfl⟩ := List.mem_map.mp listed
    exact Names.nodup_ofList _
  refine ⟨UnionType.nodup_members_absorbed distinct rest, fun m => ?_⟩
  rw [UnionType.mem_members_absorbed, ← parts, exists_clause_iff]
  simp only [List.mem_map, exists_exists_and_eq_and, mem_members_unionOf]

def enumOf (p : TypeDefinition) : String × List String :=
  (p.name, p.body.valueNames)

theorem reads_enum : Reads Definitions.enum? enumOf .enumeration := by
  rintro ⟨extension, description, name, directives, body⟩
  cases body <;> rfl

def addValues (found : Option (List String)) (e : String × List String) : Option (List String) :=
  some (Names.addAll (found.getD []) e.2)

theorem get?_foldl_addEnum (table : Members (List String))
    (mentions : List (String × List String)) (name : String) :
    (mentions.foldl Tables.addEnum table).get? name =
      (mentions.filter fun e => e.1 = name).foldl addValues (table.get? name) := by
  induction mentions generalizing table with
  | nil => rfl
  | cons e rest ih =>
      rw [List.foldl_cons, ih, Tables.addEnum, Members.get?_insert]
      by_cases same : e.1 = name
      · subst same
        simp [addValues]
      · simp [same]

theorem foldl_addValues_some (values : List String) (mentions : List (String × List String)) :
    mentions.foldl addValues (some values) =
      some (Names.addAll values (mentions.flatMap Prod.snd)) := by
  induction mentions generalizing values with
  | nil => rfl
  | cons e rest ih =>
      rw [List.foldl_cons, addValues, Option.getD_some, ih, List.flatMap_cons, Names.addAll,
        Names.addAll, Names.addAll, List.foldl_append]

def enumMentions (d : Document) (name : String) : List (String × List String) :=
  (Definitions.mentions d Definitions.enum?).filter fun e => e.1 = name

section Enumerations

variable {d : Document} {name : String}

theorem mem_enumMentions {e : String × List String} : e ∈ enumMentions d name ↔
    ∃ p ∈ typeParts d, (p.name = name ∧ p.body.kind = .enumeration) ∧ enumOf p = e := by
  simp only [enumMentions, reads_enum.mentions, List.mem_filter, List.mem_map, decide_eq_true_eq]
  constructor
  · rintro ⟨⟨p, ⟨mem, kind⟩, rfl⟩, same⟩
    exact ⟨p, mem, ⟨same, kind⟩, rfl⟩
  · rintro ⟨p, mem, ⟨same, kind⟩, rfl⟩
    exact ⟨⟨p, ⟨mem, kind⟩, rfl⟩, same⟩

theorem enumMentions_eq_nil_iff :
    enumMentions d name = [] ↔ ⟨name, .enumeration, .stated⟩ ∉ d.statements := by
  rw [List.eq_nil_iff_forall_not_mem, mem_statements]
  constructor
  · rintro none ⟨p, mem, same, -⟩
    exact none _ (mem_enumMentions.mpr ⟨p, mem, same, rfl⟩)
  · intro unstated e listed
    obtain ⟨p, mem, same, -⟩ := mem_enumMentions.mp listed
    exact unstated ⟨p, mem, same, stated_mem_clauses⟩

theorem mem_values_enumMentions {v : String} :
    v ∈ (enumMentions d name).flatMap Prod.snd ↔
      ⟨name, .enumeration, .value v⟩ ∈ d.statements := by
  simp only [List.mem_flatMap, mem_enumMentions, mem_statements, value_mem_clauses]
  constructor
  · rintro ⟨_, ⟨p, mem, same, rfl⟩, said⟩
    exact ⟨p, mem, same, said⟩
  · rintro ⟨p, mem, same, said⟩
    exact ⟨_, ⟨p, mem, same, rfl⟩, said⟩

structure Enumerates (d : Document) (name : String) (values : List String) : Prop where
  distinct : values.Nodup
  values : ∀ v, v ∈ values ↔ ⟨name, .enumeration, .value v⟩ ∈ d.statements

theorem enum_of_document (d : Document) (name : String) :
    (Tables.ofDocument d).enums.get? name = none ∧
        ⟨name, .enumeration, .stated⟩ ∉ d.statements ∨
      ∃ values, (Tables.ofDocument d).enums.get? name = some values ∧
        ⟨name, .enumeration, .stated⟩ ∈ d.statements ∧ Enumerates d name values := by
  have found : (Tables.ofDocument d).enums.get? name =
      (enumMentions d name).foldl addValues none := get?_foldl_addEnum [] _ name
  cases listed : enumMentions d name with
  | nil =>
      rw [listed] at found
      exact .inl ⟨found, enumMentions_eq_nil_iff.mp listed⟩
  | cons e rest =>
      rw [listed, List.foldl_cons, addValues, Option.getD_none, foldl_addValues_some] at found
      refine .inr ⟨_, found, ?_, Names.nodup_addAll (Names.nodup_ofList e.2) _, fun v => ?_⟩
      · by_contra unstated
        rw [enumMentions_eq_nil_iff.mpr unstated] at listed
        cases listed
      · rw [← mem_values_enumMentions, listed]
        simp [Names.mem_addAll]

end Enumerations

theorem reads_scalar : Reads Definitions.scalar? TypeDefinition.name .scalar := by
  rintro ⟨extension, description, name, directives, body⟩
  cases body <;> rfl

theorem scalar_of_document (d : Document) (name : String) :
    (Tables.ofDocument d).scalars.get? name =
      if name ∈ builtInScalars ∨ ⟨name, .scalar, .stated⟩ ∈ d.statements
      then some (.ofScalar name) else none := by
  have listed : name ∈ Definitions.mentions d Definitions.scalar? ↔
      ⟨name, .scalar, .stated⟩ ∈ d.statements := by
    simp only [reads_scalar.mentions, mem_statements, List.mem_map, List.mem_filter,
      decide_eq_true_eq]
    constructor
    · rintro ⟨p, ⟨mem, kind⟩, same⟩
      exact ⟨p, mem, ⟨same, kind⟩, stated_mem_clauses⟩
    · rintro ⟨p, mem, ⟨same, kind⟩, -⟩
      exact ⟨p, ⟨mem, kind⟩, same⟩
  have rules (names : List String) :
      Members.get? name (names.map fun n => (n, ScalarRule.ofScalar n)) =
        if name ∈ names then some (.ofScalar name) else none := by
    induction names with
    | nil => rfl
    | cons n rest ih =>
        by_cases same : n = name
        · simp [Members.get?, same]
        · simp [Members.get?, same, ih, Ne.symm same]
  have table : (Tables.ofDocument d).scalars = Members.insertAllIfNew []
      ((builtInScalars ++ Definitions.mentions d Definitions.scalar?).map
        fun n => (n, ScalarRule.ofScalar n)) := rfl
  rw [table, Members.get?_insertAllIfNew, rules]
  simp [Members.get?, listed]

section Alike

variable {d d' : Document}

theorem Restates.partsOfKind_eq_nil_iff (same : Restates d d') (kind : TypeKind) (name : String) :
    partsOfKind d kind name = [] ↔ partsOfKind d' kind name = [] := by
  rw [FederatedMock.partsOfKind_eq_nil_iff, FederatedMock.partsOfKind_eq_nil_iff]
  exact not_congr (same _)

theorem merged_alike {α : Type} [Extendable α] [LawfulExtendable α]
    {f : TypeDefinition → Option α} {of : TypeDefinition → α} {kind : TypeKind} {r : α → α → Prop}
    (reads : Reads f of kind) (named : ∀ p, Extendable.name (of p) = p.name)
    (same : Restates d d') (once : d.DefinesOnce) (once' : d'.DefinesOnce) (name : String)
    (alike : ∀ t t', Extendable.name t = name → Extendable.name t' = name →
      Collected.combine ((partsOfKind d kind name).map of) = some t →
      Collected.combine ((partsOfKind d' kind name).map of) = some t' → r t t') :
    Option.Rel r ((Definitions.collected d f).merge.get? name)
      ((Definitions.collected d' f).merge.get? name) := by
  have here := reads.get?_merge named once name
  have there := reads.get?_merge named once' name
  refine rel_of_none_iff ?_ fun t t' found found' => ?_
  · rw [here, there, Collected.combine_eq_none_iff, Collected.combine_eq_none_iff,
      List.map_eq_nil_iff, List.map_eq_nil_iff]
    exact same.partsOfKind_eq_nil_iff kind name
  · have key := Collected.name_of_get?_merge found
    have key' := Collected.name_of_get?_merge found'
    exact alike t t' key key' (here.symm.trans found) (there.symm.trans found')

theorem composites_alike {f : TypeDefinition → Option CompositeType} {kind : TypeKind}
    (reads : Reads f composite kind) (same : Restates d d') (agree : d.FieldsAgree)
    (once : d.DefinesOnce) (once' : d'.DefinesOnce) (name : String) :
    Option.Rel CompositeType.Alike ((Definitions.collected d f).merge.get? name)
      ((Definitions.collected d' f).merge.get? name) := by
  refine merged_alike reads (fun _ => rfl) same once once' name ?_
  intro t t' named named' found found'
  have describes := describes_of_combine named found
  exact describes.alike (describes_of_combine named' found') same agree

theorem tables_alike (same : Restates d d') (agree : d.FieldsAgree)
    (once : d.DefinesOnce) (once' : d'.DefinesOnce) :
    (Tables.ofDocument d).Alike (Tables.ofDocument d') where
  scalars := by
    intro name
    simp only [scalar_of_document, same ⟨name, .scalar, .stated⟩]
  enums := by
    intro name
    rcases enum_of_document d name with ⟨found, said⟩ | ⟨values, found, said, whole⟩ <;>
      rcases enum_of_document d' name with ⟨found', said'⟩ | ⟨values', found', said', whole'⟩ <;>
      rw [found, found']
    · exact .none
    · exact (said ((same _).mpr said')).elim
    · exact (said' ((same _).mp said)).elim
    · refine .some ((List.perm_ext_iff_of_nodup whole.distinct whole'.distinct).mpr fun v => ?_)
      rw [whole.values, whole'.values]
      exact same _
  interfaces := composites_alike reads_interface same agree once once'
  objects := composites_alike reads_object same agree once once'
  unions := by
    intro name
    refine merged_alike reads_union (fun _ => rfl) same once once' name ?_
    intro u u' named named' found found'
    obtain ⟨nodup, members⟩ := members_of_combine found
    obtain ⟨nodup', members'⟩ := members_of_combine found'
    refine ⟨named.trans named'.symm, (List.perm_ext_iff_of_nodup nodup nodup').mpr fun m => ?_⟩
    rw [members, members']
    exact same _

end Alike

end FederatedMock
