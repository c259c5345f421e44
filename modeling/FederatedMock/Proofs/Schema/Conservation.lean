import FederatedMock.Proofs.Schema.Completion

namespace FederatedMock

open Graphql

def Graphql.Document.DefinesSurface (d : Document) : Prop :=
  ∀ p ∈ typeParts d, p.name ∈ [anyScalar, serviceType, entityUnion] → d.definesType p.name = true

instance (d : Document) : Decidable d.DefinesSurface :=
  inferInstanceAs (Decidable (∀ p ∈ typeParts d, _ → _))

namespace Supplement

def surface (d : Document) : Document :=
  (if d.definesType anyScalar then [] else [anyDefinition]) ++
  (if d.definesType serviceType then [] else [serviceDefinition]) ++
  (if d.entities.isEmpty || d.definesType entityUnion then [] else [entityDefinition d.entities]) ++
  directives d

def rootPart (d : Document) : TypeDefinition :=
  ⟨!(d.statedFields d.queryRoot).isEmpty, none, d.queryRoot, [], .object [] (rootFields d)⟩

end Supplement

theorem supplement_eq (d : Document) :
    supplement d = Supplement.surface d ++ Supplement.rootDefinition d := rfl

structure IsMissing (d : Document) (p : TypeDefinition) : Prop where
  definition : p.extension = false
  missing : d.definesType p.name = false
  surface : (p.name, p.body.kind) ∈
    [(anyScalar, TypeKind.scalar), (serviceType, .object), (entityUnion, .union)]
  bare : p.body.interfaceNames = []

section Parts

variable {d : Document} {kind : TypeKind} {name : String} {p : TypeDefinition}

theorem isMissing_of_mem (mem : p ∈ typeParts (Supplement.surface d)) : IsMissing d p := by
  have listed := mem_typeParts.mp mem
  simp only [Supplement.surface, List.mem_append, List.mem_ite_nil_left, List.mem_singleton,
    Bool.not_eq_true, Bool.or_eq_false_iff] at listed
  rcases listed with ((⟨missing, same⟩ | ⟨missing, same⟩) | ⟨⟨-, missing⟩, same⟩) | listed
  · cases same
    exact ⟨rfl, missing, by simp [TypeBody.kind], rfl⟩
  · cases same
    exact ⟨rfl, missing, by simp [TypeBody.kind], rfl⟩
  · cases same
    exact ⟨rfl, missing, by simp [TypeBody.kind], rfl⟩
  · obtain ⟨declared, same⟩ := directive_of_mem listed
    cases same

theorem isMissing_of_surface (mem : p ∈ partsOfKind (Supplement.surface d) kind name) :
    IsMissing d p ∧ p.name = name ∧ p.body.kind = kind := by
  obtain ⟨listed, same⟩ := mem_partsOfKind.mp mem
  exact ⟨isMissing_of_mem listed, same⟩

theorem IsMissing.partsOfKind_eq_nil (added : IsMissing d p) (surface : d.DefinesSurface)
    (kind : TypeKind) : partsOfKind d kind p.name = [] := by
  rw [List.eq_nil_iff_forall_not_mem]
  intro q mem
  obtain ⟨listed, same, -⟩ := mem_partsOfKind.mp mem
  have known : q.name ∈ [anyScalar, serviceType, entityUnion] := by
    have among := added.surface
    simp only [List.mem_cons, Prod.mk.injEq, List.not_mem_nil, or_false] at among ⊢
    rw [same]
    exact among.imp And.left (Or.imp And.left And.left)
  have defined := surface q listed known
  rw [same, added.missing] at defined
  cases defined

theorem partsOfKind_append {more : Document}
    (apart : (∀ p ∈ partsOfKind d kind name, p.extension = false) ∨
      ∀ p ∈ partsOfKind more kind name, p.extension = true) :
    partsOfKind (d ++ more) kind name = partsOfKind d kind name ++ partsOfKind more kind name := by
  have parts : typeParts (d ++ more) = typeParts d ++ typeParts more := List.filterMap_append
  have none {e : Document} (keep : TypeDefinition → Bool)
      (other : ∀ p ∈ partsOfKind e kind name, keep p = false) :
      ((typeParts e).filter keep).filter (fun p => p.name = name ∧ p.body.kind = kind) = [] := by
    rw [List.filter_filter, List.filter_eq_nil_iff]
    intro p listed kept
    simp only [Bool.and_eq_true, decide_eq_true_eq] at kept
    rw [other p (mem_partsOfKind.mpr ⟨listed, kept.1⟩)] at kept
    cases kept.2
  rcases apart with definitions | extensions
  · have early := none TypeDefinition.extension definitions
    simp only [partsOfKind, parts, List.filter_append, early, List.nil_append, List.append_assoc,
      List.append_nil]
  · have late := none (e := more) (fun p => !p.extension) fun p mem => by
      rw [extensions p mem]
      rfl
    simp only [partsOfKind, parts, List.filter_append, late, List.nil_append, List.append_assoc]

theorem statedFields_eq_nil_iff {type : String} :
    d.statedFields type = [] ↔ partsOfKind d .object type = [] := by
  rw [Document.statedFields, List.filterMap_eq_nil_iff, List.eq_nil_iff_forall_not_mem]
  constructor
  · intro unstated p mem
    obtain ⟨listed, rfl, kind⟩ := mem_partsOfKind.mp mem
    obtain ⟨interfaces, fields, object⟩ := kind_eq_object_iff.mp kind
    have none := unstated _ (mem_typeParts.mp listed)
    simp [Definition.objectFields?, object] at none
  · intro unstated definition mem
    cases definition with
    | type p =>
        by_cases here : p.name = type ∧ p.body.kind = .object
        · exact absurd (mem_partsOfKind.mpr ⟨mem_typeParts.mpr mem, here⟩) (unstated p)
        · obtain ⟨extension, description, own, directives, body⟩ := p
          cases body with
          | object interfaces fields =>
              have other : ¬ own = type := fun same => here ⟨same, rfl⟩
              simp [Definition.objectFields?, other]
          | _ => rfl
    | _ => rfl

theorem rootPart_extension (stated : partsOfKind d .object d.queryRoot ≠ []) :
    (Supplement.rootPart d).extension = true := by
  have some := mt statedFields_eq_nil_iff.mp stated
  simp [Supplement.rootPart, some]

theorem rootPart_definition (unstated : partsOfKind d .object d.queryRoot = []) :
    (Supplement.rootPart d).extension = false := by
  simp [Supplement.rootPart, statedFields_eq_nil_iff.mpr unstated]

def LacksRootFields (d : Document) (kind : TypeKind) (name : String) : Prop :=
  (kind = .object ∧ name = d.queryRoot) ∧ Supplement.rootFields d ≠ []

theorem partsOfKind_singleton (p : TypeDefinition) :
    partsOfKind [.type p] p.body.kind p.name = [p] := by
  cases stated : p.extension <;> simp [partsOfKind, typeParts, stated]

theorem partsOfKind_root_of_lacks (lacks : LacksRootFields d kind name) :
    partsOfKind (Supplement.rootDefinition d) kind name = [Supplement.rootPart d] := by
  obtain ⟨⟨rfl, rfl⟩, some⟩ := lacks
  have whole : Supplement.rootDefinition d = [.type (Supplement.rootPart d)] := by
    obtain ⟨f, rest, fields⟩ := List.exists_cons_of_ne_nil some
    simp [Supplement.rootDefinition, Supplement.rootPart, fields]
  rw [whole]
  exact partsOfKind_singleton (Supplement.rootPart d)

theorem partsOfKind_root_of_not_lacks (other : ¬ LacksRootFields d kind name) :
    partsOfKind (Supplement.rootDefinition d) kind name = [] := by
  rw [List.eq_nil_iff_forall_not_mem]
  intro p mem
  obtain ⟨listed, rfl, rfl⟩ := mem_partsOfKind.mp mem
  obtain ⟨some, same⟩ := mem_rootDefinition_iff.mp (mem_typeParts.mp listed)
  cases same
  exact other ⟨⟨rfl, rfl⟩, some⟩

theorem partsOfKind_surface_of_stated (surface : d.DefinesSurface)
    (stated : partsOfKind d kind name ≠ []) :
    partsOfKind (Supplement.surface d) kind name = [] := by
  rw [List.eq_nil_iff_forall_not_mem]
  intro p mem
  obtain ⟨missing, rfl, -⟩ := isMissing_of_surface mem
  exact stated (missing.partsOfKind_eq_nil surface kind)

theorem partsOfKind_supplement (d : Document) (kind : TypeKind) (name : String) :
    partsOfKind (supplement d) kind name = partsOfKind (Supplement.surface d) kind name ++
      partsOfKind (Supplement.rootDefinition d) kind name := by
  rw [supplement_eq]
  exact partsOfKind_append (.inl fun _ mem => (isMissing_of_surface mem).1.definition)

theorem extension_iff_of_supplied (surface : d.DefinesSurface)
    (mem : p ∈ partsOfKind (supplement d) kind name) :
    p.extension = true ↔ partsOfKind d kind name ≠ [] := by
  rw [partsOfKind_supplement, List.mem_append] at mem
  rcases mem with mem | mem
  · obtain ⟨missing, rfl, -⟩ := isMissing_of_surface mem
    rw [missing.definition, missing.partsOfKind_eq_nil surface]
    simp
  · by_cases lacks : LacksRootFields d kind name
    · rw [partsOfKind_root_of_lacks lacks, List.mem_singleton] at mem
      obtain ⟨⟨rfl, rfl⟩, -⟩ := lacks
      rw [mem]
      by_cases stated : partsOfKind d .object d.queryRoot = []
      · simp [rootPart_definition stated, stated]
      · simp [rootPart_extension stated, stated]
    · rw [partsOfKind_root_of_not_lacks lacks] at mem
      cases mem

theorem partsOfKind_augment (surface : d.DefinesSurface) :
    partsOfKind (augment d) kind name =
      partsOfKind d kind name ++ partsOfKind (supplement d) kind name := by
  refine partsOfKind_append ?_
  by_cases stated : partsOfKind d kind name = []
  · simp [stated]
  · exact .inr fun p mem => (extension_iff_of_supplied surface mem).mpr stated

theorem partsOfKind_supplement_of_stated (surface : d.DefinesSurface)
    (stated : partsOfKind d kind name ≠ []) : partsOfKind (supplement d) kind name =
      partsOfKind (Supplement.rootDefinition d) kind name := by
  rw [partsOfKind_supplement, partsOfKind_surface_of_stated surface stated, List.nil_append]

end Parts

namespace Tables

structure Lacks (t : Tables) (name : String) : Prop where
  scalars : t.scalars.get? name = none
  enums : t.enums.get? name = none
  interfaces : t.interfaces.get? name = none
  objects : t.objects.get? name = none
  unions : t.unions.get? name = none

def rootEntries : Members TypeRef :=
  [Supplement.entitiesRootField, Supplement.serviceRootField].map fun f => (f.name, f.type)

/-- All types stay as they are, and in order, but for root fields that come last on the query root;
what is added is that root and the types of the federation surface. -/
structure Conserves (root : String) (t t' : Tables) : Prop where
  scalars : ∀ name rule, t.scalars.get? name = some rule → t'.scalars.get? name = some rule
  enums : t'.enums = t.enums
  interfaces : t'.interfaces = t.interfaces
  objects : ∃ more, List.Sublist more rootEntries ∧
    ∀ name o, t.objects.get? name = some o → t'.objects.get? name =
      some { o with fields := o.fields ++ if name = root then more else [] }
  order : t'.objects.keys.filter (fun name => name ∈ t.objects.keys) = t.objects.keys
  unions : ∀ name u, t.unions.get? name = some u → t'.unions.get? name = some u
  addedScalars : ∀ name, t.scalars.get? name = none → t'.scalars.get? name ≠ none →
    name = anyScalar ∧ t.Lacks name
  addedObjects : ∀ name o, t.objects.get? name = none → t'.objects.get? name = some o →
    o.interfaces = [] ∧ (name = root ∨ name = serviceType ∧ t.Lacks name)
  addedUnions : ∀ name, t.unions.get? name = none → t'.unions.get? name ≠ none →
    name = entityUnion ∧ t.Lacks name

end Tables

theorem Graphql.Document.DefinesOnce.left {d more : Document} (once : (d ++ more).DefinesOnce) :
    d.DefinesOnce := by
  have first : (typeParts d).Sublist (typeParts (d ++ more)) := by
    rw [typeParts, typeParts, List.filterMap_append]
    exact List.sublist_append_left _ _
  exact ((first.filter _).map _).nodup once

section Merged

variable {α : Type} [Extendable α] {f : TypeDefinition → Option α} {of : TypeDefinition → α}
  {d : Document} {kind : TypeKind} {name : String}

theorem Reads.stated_of_get? (reads : Reads f of kind)
    (named : ∀ p, Extendable.name (of p) = p.name) (once : d.DefinesOnce) {t : α}
    (found : (Definitions.collected d f).merge.get? name = some t) :
    partsOfKind d kind name ≠ [] := by
  intro unstated
  rw [reads.get?_merge named once, unstated] at found
  cases found

theorem Reads.get?_merge_eq_none_iff (reads : Reads f of kind)
    (named : ∀ p, Extendable.name (of p) = p.name) (once : d.DefinesOnce) :
    (Definitions.collected d f).merge.get? name = none ↔ partsOfKind d kind name = [] := by
  rw [reads.get?_merge named once, Collected.combine_eq_none_iff, List.map_eq_nil_iff]

theorem Reads.get?_merge_augment (reads : Reads f of kind)
    (named : ∀ p, Extendable.name (of p) = p.name) (once : (augment d).DefinesOnce)
    (surface : d.DefinesSurface) :
    (Definitions.collected (augment d) f).merge.get? name =
      ((partsOfKind (supplement d) kind name).map of).foldl Collected.take
        ((Definitions.collected d f).merge.get? name) := by
  have before : d.DefinesOnce := Graphql.Document.DefinesOnce.left once
  rw [reads.get?_merge named once, reads.get?_merge named before, partsOfKind_augment surface,
    List.map_append, Collected.combine, Collected.combine, List.foldl_append]

end Merged

section Tables

variable {d : Document} {kind : TypeKind} {name : String} {p : TypeDefinition}

theorem lacks_of_unstated (once : d.DefinesOnce) (custom : name ∉ builtInScalars)
    (unstated : ∀ kind, partsOfKind d kind name = []) : (Tables.ofDocument d).Lacks name where
  scalars := by
    have missing := partsOfKind_eq_nil_iff.mp (unstated .scalar)
    rw [scalar_of_document, if_neg (not_or_intro custom missing)]
  enums := by
    have missing := partsOfKind_eq_nil_iff.mp (unstated .enumeration)
    rcases enum_of_document d name with ⟨none, -⟩ | ⟨values, -, stated, -⟩
    · exact none
    · exact absurd stated missing
  interfaces := (reads_interface.get?_merge_eq_none_iff (fun _ => rfl) once).mpr (unstated _)
  objects := (reads_object.get?_merge_eq_none_iff (fun _ => rfl) once).mpr (unstated _)
  unions := (reads_union.get?_merge_eq_none_iff (fun _ => rfl) once).mpr (unstated _)

theorem lacks_of_surface (once : d.DefinesOnce) (surface : d.DefinesSurface)
    (mem : p ∈ partsOfKind (Supplement.surface d) kind name) :
    (name, kind) ∈ [(anyScalar, TypeKind.scalar), (serviceType, .object), (entityUnion, .union)] ∧
      (Tables.ofDocument d).Lacks name := by
  obtain ⟨missing, rfl, rfl⟩ := isMissing_of_surface mem
  have custom : p.name ∉ builtInScalars := by
    have among := missing.surface
    simp only [List.mem_cons, Prod.mk.injEq, List.not_mem_nil, or_false] at among
    rcases among with ⟨same, -⟩ | ⟨same, -⟩ | ⟨same, -⟩ <;> rw [same] <;> decide
  exact ⟨missing.surface, lacks_of_unstated once custom (missing.partsOfKind_eq_nil surface)⟩

theorem kind_of_supplement (mem : p ∈ typeParts (supplement d)) :
    p.body.kind = .scalar ∨ p.body.kind = .object ∨ p.body.kind = .union := by
  cases mem_supplement_iff.mp (mem_typeParts.mp mem) with
  | anyScalar missing => exact .inl rfl
  | service missing => exact .inr (.inl rfl)
  | entity some missing => exact .inr (.inr rfl)
  | root some => exact .inr (.inl rfl)

theorem filter_typeParts_augment (plain : kind ≠ .scalar ∧ kind ≠ .object ∧ kind ≠ .union)
    (keep : TypeDefinition → Bool) :
    ((typeParts (augment d)).filter keep).filter (fun p => p.body.kind = kind) =
      ((typeParts d).filter keep).filter fun p => p.body.kind = kind := by
  have parts : typeParts (augment d) = typeParts d ++ typeParts (supplement d) :=
    List.filterMap_append
  have nothing : ((typeParts (supplement d)).filter keep).filter (fun p => p.body.kind = kind) =
      [] := by
    refine List.filter_eq_nil_iff.mpr fun p mem same => ?_
    obtain rfl := of_decide_eq_true same
    have kinds := kind_of_supplement (List.mem_filter.mp mem).1
    simp [plain] at kinds
  rw [parts, List.filter_append, List.filter_append, nothing, List.append_nil]

theorem interfaces_augment (d : Document) :
    (Tables.ofDocument (augment d)).interfaces = (Tables.ofDocument d).interfaces := by
  have selected (extension : Bool) : Definitions.select (augment d) extension
      Definitions.interface? = Definitions.select d extension Definitions.interface? := by
    rw [reads_interface.select, reads_interface.select, filter_typeParts_augment (by decide)]
  have collected : Definitions.collected (augment d) Definitions.interface? =
      Definitions.collected d Definitions.interface? := by
    rw [Definitions.collected, selected, selected, Definitions.collected]
  exact congrArg Collected.merge collected

theorem enums_augment (d : Document) :
    (Tables.ofDocument (augment d)).enums = (Tables.ofDocument d).enums := by
  have mentioned : Definitions.mentions (augment d) Definitions.enum? =
      Definitions.mentions d Definitions.enum? := by
    have parts : (typeParts (augment d)).filter (fun p => p.body.kind = .enumeration) =
        (typeParts d).filter fun p => p.body.kind = .enumeration := by
      have all := filter_typeParts_augment (d := d)
        (show TypeKind.enumeration ≠ .scalar ∧ _ by decide) fun _ => true
      rwa [List.filter_true, List.filter_true] at all
    rw [reads_enum.mentions, reads_enum.mentions, parts]
  exact congrArg (List.foldl Tables.addEnum []) mentioned

theorem not_lacksRootFields (other : kind ≠ .object) : ¬ LacksRootFields d kind name :=
  fun lacks => other lacks.1.1

theorem exists_surface_of_added (surface : d.DefinesSurface)
    (other : ¬ LacksRootFields d kind name) (unstated : partsOfKind d kind name = [])
    (added : partsOfKind (augment d) kind name ≠ []) :
    ∃ p, p ∈ partsOfKind (Supplement.surface d) kind name := by
  rw [partsOfKind_augment surface, unstated, partsOfKind_supplement,
    partsOfKind_root_of_not_lacks other, List.nil_append, List.append_nil] at added
  exact List.exists_mem_of_ne_nil _ added

theorem scalars_augment {rule : ScalarRule}
    (found : (Tables.ofDocument d).scalars.get? name = some rule) :
    (Tables.ofDocument (augment d)).scalars.get? name = some rule := by
  rw [scalar_of_document, Option.ite_none_right_eq_some] at found ⊢
  obtain ⟨known, same⟩ := found
  rw [augment, statements_append, List.mem_append]
  exact ⟨known.imp_right .inl, same⟩

theorem scalars_added (once : d.DefinesOnce) (surface : d.DefinesSurface)
    (missing : (Tables.ofDocument d).scalars.get? name = none)
    (added : (Tables.ofDocument (augment d)).scalars.get? name ≠ none) :
    name = anyScalar ∧ (Tables.ofDocument d).Lacks name := by
  rw [scalar_of_document, ite_eq_right_iff] at missing
  rw [scalar_of_document, ne_eq, ite_eq_right_iff] at added
  have unknown : ¬ (name ∈ builtInScalars ∨ ⟨name, .scalar, .stated⟩ ∈ d.statements) :=
    fun known => Option.some_ne_none _ (missing known)
  have known : name ∈ builtInScalars ∨ ⟨name, .scalar, .stated⟩ ∈ (augment d).statements := by
    by_contra unknown'
    exact added fun known => absurd known unknown'
  have unstated := partsOfKind_eq_nil_iff.mpr (not_or.mp unknown).2
  have stated := known.resolve_left (not_or.mp unknown).1
  obtain ⟨p, mem⟩ := exists_surface_of_added surface (not_lacksRootFields (by decide)) unstated
    (fun none => partsOfKind_eq_nil_iff.mp none stated)
  obtain ⟨among, lacks⟩ := lacks_of_surface once surface mem
  exact ⟨by simpa using among, lacks⟩

theorem unions_augment (once : (augment d).DefinesOnce) (surface : d.DefinesSurface)
    {u : UnionType} (found : (Tables.ofDocument d).unions.get? name = some u) :
    (Tables.ofDocument (augment d)).unions.get? name = some u := by
  have before : d.DefinesOnce := Graphql.Document.DefinesOnce.left once
  have stated := reads_union.stated_of_get? (fun _ => rfl) before found
  have augmented : (Tables.ofDocument (augment d)).unions.get? name =
      ((partsOfKind (supplement d) .union name).map unionOf).foldl Collected.take
        ((Tables.ofDocument d).unions.get? name) :=
    reads_union.get?_merge_augment (fun _ => rfl) once surface
  rw [partsOfKind_supplement_of_stated surface stated,
    partsOfKind_root_of_not_lacks (not_lacksRootFields (by decide))] at augmented
  exact augmented.trans found

theorem unions_added (once : (augment d).DefinesOnce) (surface : d.DefinesSurface)
    (missing : (Tables.ofDocument d).unions.get? name = none)
    (added : (Tables.ofDocument (augment d)).unions.get? name ≠ none) :
    name = entityUnion ∧ (Tables.ofDocument d).Lacks name := by
  have before : d.DefinesOnce := Graphql.Document.DefinesOnce.left once
  have unstated := (reads_union.get?_merge_eq_none_iff (fun _ => rfl) before).mp missing
  have stated := mt (reads_union.get?_merge_eq_none_iff (fun _ => rfl) once).mpr added
  obtain ⟨p, mem⟩ := exists_surface_of_added surface (not_lacksRootFields (by decide)) unstated
    stated
  obtain ⟨among, lacks⟩ := lacks_of_surface before surface mem
  exact ⟨by simpa using among, lacks⟩

theorem rootFields_sublist (d : Document) : (Supplement.rootFields d).Sublist
    [Supplement.entitiesRootField, Supplement.serviceRootField] := by
  have entities (c : Bool) : (if c = true then [Supplement.entitiesRootField] else []).Sublist
      [Supplement.entitiesRootField] := by
    cases c <;> simp
  have service (c : Bool) : (if c = true then [] else [Supplement.serviceRootField]).Sublist
      [Supplement.serviceRootField] := by
    cases c <;> simp
  exact (entities _).append (service _)

def rootEntriesOf (d : Document) : Members TypeRef :=
  (Supplement.rootFields d).map fun f => (f.name, f.type)

theorem rootEntriesOf_sublist (d : Document) : (rootEntriesOf d).Sublist Tables.rootEntries :=
  (rootFields_sublist d).map _

theorem nodup_keys_rootEntriesOf (d : Document) : (Members.keys (rootEntriesOf d)).Nodup := by
  have distinct : (Members.keys Tables.rootEntries).Nodup := by decide
  exact ((rootEntriesOf_sublist d).map _).nodup distinct

theorem rootFields_unstated {f : FieldDefinition} (mem : f ∈ Supplement.rootFields d) :
    f.name ∉ (d.statedFields d.queryRoot).flatten.map FieldDefinition.name := by
  unfold Supplement.rootFields at mem
  intro stated
  rw [← List.contains_iff_mem] at stated
  rcases List.mem_append.mp mem with mem | mem
  · obtain ⟨missing, same⟩ := List.mem_ite_nil_right.mp mem
    rw [List.mem_singleton.mp same] at stated
    have stated : ((d.statedFields d.queryRoot).flatten.map FieldDefinition.name).contains
      entitiesField = true := stated
    rw [stated, Bool.not_true, Bool.and_false] at missing
    cases missing
  · obtain ⟨missing, same⟩ := List.mem_ite_nil_left.mp mem
    rw [List.mem_singleton.mp same] at stated
    exact missing stated

theorem composite_rootPart (d : Document) :
    composite (Supplement.rootPart d) = ⟨d.queryRoot, [], rootEntriesOf d⟩ := by
  have fields : Members.insertAllIfNew [] (rootEntriesOf d) = rootEntriesOf d := by
    rw [Members.insertAllIfNew_of_fresh (nodup_keys_rootEntriesOf d) fun _ _ => rfl,
      List.nil_append]
  rw [← fields]
  rfl

theorem absorb_rootPart (once : d.DefinesOnce) {o : CompositeType}
    (found : (Tables.ofDocument d).objects.get? d.queryRoot = some o) :
    Extendable.absorb o (composite (Supplement.rootPart d)) =
      { o with fields := o.fields ++ rootEntriesOf d } := by
  have describes : Describes d .object d.queryRoot o := by
    refine describes_of_combine (Collected.name_of_get?_merge found) ?_
    rw [← reads_object.get?_merge (fun _ => rfl) once]
    exact found
  have fresh : ∀ key ∈ Members.keys (rootEntriesOf d), o.fields.get? key = none := by
    intro key mem
    obtain ⟨entry, listed, rfl⟩ := List.mem_map.mp mem
    obtain ⟨f, field, rfl⟩ := List.mem_map.mp listed
    by_contra known
    obtain ⟨type, known⟩ := Option.ne_none_iff_exists'.mp known
    exact rootFields_unstated field (mem_statedFields.mpr ⟨type, describes.sound _ _ known⟩)
  have fields : o.fields.insertAllIfNew (rootEntriesOf d) = o.fields ++ rootEntriesOf d :=
    Members.insertAllIfNew_of_fresh (nodup_keys_rootEntriesOf d) fresh
  rw [composite_rootPart, ← fields]
  rfl

theorem objects_augment (once : (augment d).DefinesOnce) (surface : d.DefinesSurface)
    {o : CompositeType} (found : (Tables.ofDocument d).objects.get? name = some o) :
    (Tables.ofDocument (augment d)).objects.get? name =
      some { o with fields := o.fields ++ if name = d.queryRoot then rootEntriesOf d else [] } := by
  have before : d.DefinesOnce := Graphql.Document.DefinesOnce.left once
  have stated := reads_object.stated_of_get? (fun _ => rfl) before found
  have augmented : (Tables.ofDocument (augment d)).objects.get? name =
      ((partsOfKind (supplement d) .object name).map composite).foldl Collected.take
        ((Tables.ofDocument d).objects.get? name) :=
    reads_object.get?_merge_augment (fun _ => rfl) once surface
  rw [augmented, partsOfKind_supplement_of_stated surface stated, found]
  by_cases lacks : LacksRootFields d .object name
  · rw [partsOfKind_root_of_lacks lacks]
    obtain ⟨⟨-, rfl⟩, -⟩ := lacks
    rw [if_pos rfl, ← absorb_rootPart before found]
    rfl
  · rw [partsOfKind_root_of_not_lacks lacks]
    have unchanged : (if name = d.queryRoot then rootEntriesOf d else []) = [] := by
      rw [ite_eq_right_iff]
      intro root
      have complete : Supplement.rootFields d = [] := by
        by_contra some
        exact lacks ⟨⟨rfl, root⟩, some⟩
      rw [rootEntriesOf, complete, List.map_nil]
    rw [unchanged]
    simp only [List.append_nil]
    rfl

theorem interfaceNames_of_added (surface : d.DefinesSurface)
    (unstated : partsOfKind d .object name = [])
    (mem : p ∈ partsOfKind (augment d) .object name) : p.body.interfaceNames = [] := by
  rw [partsOfKind_augment surface, unstated, List.nil_append, partsOfKind_supplement,
    List.mem_append] at mem
  rcases mem with mem | mem
  · exact (isMissing_of_surface mem).1.bare
  · obtain ⟨-, same⟩ := mem_rootDefinition_iff.mp (mem_typeParts.mp (mem_partsOfKind.mp mem).1)
    cases same
    rfl

theorem objects_added (once : (augment d).DefinesOnce) (surface : d.DefinesSurface)
    {o : CompositeType} (missing : (Tables.ofDocument d).objects.get? name = none)
    (added : (Tables.ofDocument (augment d)).objects.get? name = some o) :
    o.interfaces = [] ∧
      (name = d.queryRoot ∨ name = serviceType ∧ (Tables.ofDocument d).Lacks name) := by
  have before : d.DefinesOnce := Graphql.Document.DefinesOnce.left once
  have unstated := (reads_object.get?_merge_eq_none_iff (fun _ => rfl) before).mp missing
  have stated := reads_object.stated_of_get? (fun _ => rfl) once added
  constructor
  · have describes : Describes (augment d) .object name o := by
      refine describes_of_combine (Collected.name_of_get?_merge added) ?_
      rw [← reads_object.get?_merge (fun _ => rfl) once]
      exact added
    rw [List.eq_nil_iff_forall_not_mem]
    intro i implemented
    obtain ⟨p, mem, said⟩ := exists_clause_iff.mp ((describes.implements i).mp implemented)
    rw [implements_mem_clauses, interfaceNames_of_added surface unstated mem] at said
    cases said
  · by_cases lacks : LacksRootFields d .object name
    · exact .inl lacks.1.2
    · obtain ⟨p, mem⟩ := exists_surface_of_added surface lacks unstated stated
      obtain ⟨among, lacking⟩ := lacks_of_surface before surface mem
      exact .inr ⟨by simpa using among, lacking⟩

def objectNames (d : Document) (extension : Bool) : List String :=
  (Definitions.select d extension Definitions.object?).map CompositeType.name

theorem objectNames_augment (d : Document) (extension : Bool) :
    objectNames (augment d) extension =
      objectNames d extension ++ objectNames (supplement d) extension := by
  have appended : Definitions.select (augment d) extension Definitions.object? =
      Definitions.select d extension Definitions.object? ++
        Definitions.select (supplement d) extension Definitions.object? :=
    List.filterMap_append
  rw [objectNames, appended, List.map_append]
  rfl

theorem mem_objectNames {d : Document} {extension : Bool} :
    name ∈ objectNames d extension ↔
      ∃ p ∈ partsOfKind d .object name, p.extension = extension := by
  rw [objectNames, reads_object.select]
  simp only [List.mem_map, List.mem_filter, decide_eq_true_eq, mem_partsOfKind]
  constructor
  · rintro ⟨_, ⟨p, ⟨⟨listed, stands⟩, kind⟩, rfl⟩, rfl⟩
    exact ⟨p, ⟨listed, rfl, kind⟩, stands⟩
  · rintro ⟨p, ⟨listed, rfl, kind⟩, stands⟩
    exact ⟨_, ⟨p, ⟨⟨listed, stands⟩, kind⟩, rfl⟩, rfl⟩

theorem keys_objects (d : Document) : (Tables.ofDocument d).objects.keys =
    Names.ofList (objectNames d false ++ objectNames d true) := by
  rw [objectNames, objectNames, ← List.map_append]
  exact Collected.keys_merge _

theorem mem_keys_objects (once : d.DefinesOnce) :
    name ∈ (Tables.ofDocument d).objects.keys ↔ partsOfKind d .object name ≠ [] := by
  have none : (Tables.ofDocument d).objects.get? name = none ↔ partsOfKind d .object name = [] :=
    reads_object.get?_merge_eq_none_iff (fun _ => rfl) once
  rw [Members.get?_eq_none_iff] at none
  rw [ne_eq, ← none, not_not]

theorem known_of_mem_objectNames (once : d.DefinesOnce) {extension : Bool}
    (mem : name ∈ objectNames d extension) : name ∈ (Tables.ofDocument d).objects.keys := by
  obtain ⟨p, listed, -⟩ := mem_objectNames.mp mem
  exact (mem_keys_objects once).mpr (List.ne_nil_of_mem listed)

theorem unknown_of_mem_objectNames_supplement (once : d.DefinesOnce) (surface : d.DefinesSurface)
    (mem : name ∈ objectNames (supplement d) false) :
    name ∉ (Tables.ofDocument d).objects.keys := by
  obtain ⟨p, listed, definition⟩ := mem_objectNames.mp mem
  rw [mem_keys_objects once, ← extension_iff_of_supplied surface listed, definition]
  exact Bool.false_ne_true

theorem order_augment (once : (augment d).DefinesOnce) (surface : d.DefinesSurface) :
    (Tables.ofDocument (augment d)).objects.keys.filter
      (fun name => name ∈ (Tables.ofDocument d).objects.keys) =
        (Tables.ofDocument d).objects.keys := by
  have before : d.DefinesOnce := Graphql.Document.DefinesOnce.left once
  have own (extension : Bool) : (objectNames d extension).filter
      (fun name => name ∈ (Tables.ofDocument d).objects.keys) = objectNames d extension :=
    List.filter_eq_self.mpr fun _ mem => decide_eq_true (known_of_mem_objectNames before mem)
  have defined : (objectNames (supplement d) false).filter
      (fun name => name ∈ (Tables.ofDocument d).objects.keys) = [] :=
    List.filter_eq_nil_iff.mpr fun _ mem stated =>
      unknown_of_mem_objectNames_supplement before surface mem (of_decide_eq_true stated)
  have extended : (objectNames (supplement d) true).filter
      (fun name => name ∈ (Tables.ofDocument d).objects.keys) ⊆
        (Tables.ofDocument d).objects.keys :=
    fun _ mem => of_decide_eq_true (List.mem_filter.mp mem).2
  calc (Tables.ofDocument (augment d)).objects.keys.filter
        (fun name => name ∈ (Tables.ofDocument d).objects.keys)
      = Names.ofList ((objectNames d false ++ objectNames (supplement d) false ++
          (objectNames d true ++ objectNames (supplement d) true)).filter
            (fun name => name ∈ (Tables.ofDocument d).objects.keys)) := by
        rw [keys_objects (augment d), objectNames_augment, objectNames_augment]
        exact Names.filter_addAll _ [] _
    _ = Names.ofList (objectNames d false ++ objectNames d true ++
          (objectNames (supplement d) true).filter
            (fun name => name ∈ (Tables.ofDocument d).objects.keys)) := by
        simp only [List.filter_append, own, defined, List.nil_append, List.append_assoc]
    _ = Names.addAll (Tables.ofDocument d).objects.keys
          ((objectNames (supplement d) true).filter
            (fun name => name ∈ (Tables.ofDocument d).objects.keys)) := by
        rw [keys_objects d]
        exact Names.addAll_append [] _ _
    _ = (Tables.ofDocument d).objects.keys := Names.addAll_of_subset extended

theorem conserves_augment (once : (augment d).DefinesOnce) (surface : d.DefinesSurface) :
    (Tables.ofDocument d).Conserves d.queryRoot (Tables.ofDocument (augment d)) where
  scalars _ _ := scalars_augment
  enums := enums_augment d
  interfaces := interfaces_augment d
  objects := ⟨rootEntriesOf d, rootEntriesOf_sublist d, fun _ _ => objects_augment once surface⟩
  order := order_augment once surface
  unions _ _ := unions_augment once surface
  addedScalars _ := scalars_added once.left surface
  addedObjects _ _ := objects_added once surface
  addedUnions _ := unions_added once surface

end Tables

end FederatedMock
