import FederatedMock.Proofs.Schema.Merging
import FederatedMock.Schema.Validation
import Mathlib.Data.List.Nodup
import Mathlib.Data.List.TakeDrop
import Mathlib.Data.List.TakeWhile

namespace FederatedMock

open Graphql

inductive TypeKind where
  | scalar
  | object
  | interface
  | union
  | enumeration
  | input
deriving DecidableEq, Repr

namespace Graphql.TypeBody

def kind : TypeBody → TypeKind
  | .scalar => .scalar
  | .object _ _ => .object
  | .interface _ _ => .interface
  | .union _ => .union
  | .enumeration _ => .enumeration
  | .input _ => .input

def fieldDefinitions : TypeBody → List FieldDefinition
  | .object _ fields => fields
  | .interface _ fields => fields
  | _ => []

end Graphql.TypeBody

theorem sameKind_iff {b b' : TypeBody} : sameKind b b' = true ↔ b.kind = b'.kind := by
  cases b <;> cases b' <;> simp [sameKind, TypeBody.kind]

theorem kind_eq_object_iff {b : TypeBody} :
    b.kind = .object ↔ ∃ interfaces fields, b = .object interfaces fields := by
  cases b <;> simp [TypeBody.kind]

@[simp] theorem emptyBody_kind (b : TypeBody) : (emptyBody b).kind = b.kind := by
  cases b <;> rfl

@[simp] theorem emptyBody_fieldDefinitions (b : TypeBody) :
    (emptyBody b).fieldDefinitions = [] := by
  cases b <;> rfl

theorem gather_clean_cons {σ α ε : Type} {step : σ → α → σ × List ε} {s : σ} {a : α}
    {rest : List α} : (gather step s (a :: rest)).2 = [] ↔
      (step s a).2 = [] ∧ (gather step (step s a).1 rest).2 = [] :=
  List.append_eq_nil_iff

section AddNamed

variable {α : Type} (name : α → String)

theorem addNamed_clean {present more : List α} (clean : (addNamed name present more).2 = []) :
    (addNamed name present more).1 = present ++ more := by
  induction more generalizing present with
  | nil => exact (List.append_nil present).symm
  | cons a rest ih =>
      obtain ⟨here, later⟩ := gather_clean_cons.mp clean
      have added : (addNew name present a).1 = present ++ [a] := by
        unfold addNew at here ⊢
        split
        · rename_i known
          simp [known] at here
        · rfl
      have all : (addNamed name present (a :: rest)).1 =
          (addNamed name (addNew name present a).1 rest).1 := rfl
      rw [all, ih later, added, List.append_assoc]
      rfl

theorem nodup_addNew {present : List α} (distinct : (present.map name).Nodup) (a : α) :
    ((addNew name present a).1.map name).Nodup := by
  unfold addNew
  split
  · exact distinct
  · rename_i fresh
    have apart : ∀ x ∈ present.map name, ∀ y ∈ [name a], x ≠ y := by
      intro x mem y here same
      obtain ⟨b, listed, rfl⟩ := List.mem_map.mp mem
      cases List.mem_singleton.mp here
      exact fresh (List.any_eq_true.mpr ⟨b, listed, by simpa using same⟩)
    rw [List.map_append]
    exact List.nodup_append.mpr ⟨distinct, List.nodup_singleton _, apart⟩

theorem nodup_addNamed {present more : List α} (distinct : (present.map name).Nodup) :
    ((addNamed name present more).1.map name).Nodup := by
  induction more generalizing present with
  | nil => exact distinct
  | cons a rest ih => exact ih (nodup_addNew name distinct a)

end AddNamed

def Graphql.TypeBody.DistinctFields (b : TypeBody) : Prop :=
  (b.fieldDefinitions.map FieldDefinition.name).Nodup

structure Gains (b : TypeBody) (more : List FieldDefinition) (out : TypeBody) : Prop where
  kind : out.kind = b.kind
  fields : out.fieldDefinitions = b.fieldDefinitions ++ more
  distinct : b.DistinctFields → out.DistinctFields

theorem gains_nothing (b : TypeBody) : Gains b [] b :=
  ⟨rfl, (List.append_nil _).symm, id⟩

theorem Gains.trans {b b' out : TypeBody} {first second : List FieldDefinition}
    (one : Gains b first b') (two : Gains b' second out) : Gains b (first ++ second) out where
  kind := two.kind.trans one.kind
  fields := by rw [two.fields, one.fields, List.append_assoc]
  distinct := fun distinct => two.distinct (one.distinct distinct)

theorem gains_addBody {b b' : TypeBody} (same : b'.kind = b.kind)
    (clean : (addBody b b').2 = []) : Gains b b'.fieldDefinitions (addBody b b').1 := by
  cases b <;> cases b' <;> simp only [TypeBody.kind, reduceCtorEq] at same
  case object.object is fs is' fs' =>
    obtain ⟨-, fields⟩ := List.append_eq_nil_iff.mp clean
    exact ⟨rfl, addNamed_clean _ fields, nodup_addNamed _⟩
  case interface.interface is fs is' fs' =>
    obtain ⟨-, fields⟩ := List.append_eq_nil_iff.mp clean
    exact ⟨rfl, addNamed_clean _ fields, nodup_addNamed _⟩
  all_goals exact ⟨rfl, rfl, id⟩

def fieldsOf (parts : List TypeDefinition) : List FieldDefinition :=
  parts.flatMap fun p => p.body.fieldDefinitions

theorem mem_fieldsOf {parts : List TypeDefinition} {p : TypeDefinition} {f : FieldDefinition}
    (mem : p ∈ parts) (field : f ∈ p.body.fieldDefinitions) : f ∈ fieldsOf parts :=
  List.mem_flatMap.mpr ⟨p, mem, field⟩

theorem gains_addParts {t : ResolvedType} {parts : List TypeDefinition}
    (same : ∀ p ∈ parts, p.body.kind = t.body.kind) (clean : (addParts t parts).2 = []) :
    Gains t.body (fieldsOf parts) (addParts t parts).1.body := by
  induction parts generalizing t with
  | nil => exact gains_nothing t.body
  | cons part rest ih =>
      obtain ⟨here, later⟩ := gather_clean_cons.mp clean
      obtain ⟨first, others⟩ := List.forall_mem_cons.mp same
      have one : Gains t.body part.body.fieldDefinitions (addPart t part).1.body :=
        gains_addBody first (List.map_eq_nil_iff.mp here)
      have kinds : ∀ p ∈ rest, p.body.kind = (addPart t part).1.body.kind := by
        intro p mem
        rw [one.kind]
        exact others p mem
      exact one.trans (ih kinds later)

theorem gains_addExtensions {t : ResolvedType} {extensions : List TypeDefinition}
    (clean : (addExtensions t extensions).2 = []) :
    Gains t.body (fieldsOf extensions) (addExtensions t extensions).1.body := by
  unfold addExtensions at clean ⊢
  rw [List.partition_eq_filter_filter] at clean ⊢
  obtain ⟨parts, none⟩ := List.append_eq_nil_iff.mp clean
  have others := List.filter_eq_nil_iff.mp (List.map_eq_nil_iff.mp none)
  have kinds : ∀ e ∈ extensions, sameKind t.body e.body = true := by
    intro e mem
    simpa using others e mem
  have fitting : (extensions.filter fun e => sameKind t.body e.body) = extensions :=
    List.filter_eq_self.mpr kinds
  rw [fitting] at parts ⊢
  exact gains_addParts (fun e mem => (sameKind_iff.mp (kinds e mem)).symm) parts

structure Owns (parts : List TypeDefinition) (t : ResolvedType) : Prop where
  fields : ∀ p ∈ parts, p.body.kind = t.body.kind →
    ∀ f ∈ p.body.fieldDefinitions, f ∈ t.body.fieldDefinitions
  distinct : t.body.DistinctFields

theorem Owns.unique {parts : List TypeDefinition} {t : ResolvedType} (owns : Owns parts t)
    {p p' : TypeDefinition} {f f' : FieldDefinition} (mem : p ∈ parts) (mem' : p' ∈ parts)
    (kind : p.body.kind = t.body.kind) (kind' : p'.body.kind = t.body.kind)
    (field : f ∈ p.body.fieldDefinitions) (field' : f' ∈ p'.body.fieldDefinitions)
    (same : f.name = f'.name) : f = f' :=
  List.inj_on_of_nodup_map owns.distinct (owns.fields p mem kind f field)
    (owns.fields p' mem' kind' f' field') same

theorem Owns.of_gains {parts listed : List TypeDefinition} {t : ResolvedType} {b : TypeBody}
    (blank : b.fieldDefinitions = []) (gains : Gains b (fieldsOf listed) t.body)
    (all : ∀ p ∈ parts, p.body.kind = b.kind → p ∈ listed) : Owns parts t where
  fields := by
    intro p mem kind f field
    rw [gains.fields]
    exact List.mem_append_right _ (mem_fieldsOf (all p mem (kind.trans gains.kind)) field)
  distinct := by
    refine gains.distinct ?_
    rw [TypeBody.DistinctFields, blank]
    exact List.nodup_nil

def Sound (parts : List TypeDefinition) (t : ResolvedType) : Prop :=
  (parts.filter fun p => !p.extension).length ≤ 1 ∧ Owns parts t

theorem extensions_of_filter {parts : List TypeDefinition}
    (none : (parts.filter fun p => !p.extension) = []) : ∀ p ∈ parts, p.extension = true := by
  intro p mem
  simpa using List.filter_eq_nil_iff.mp none p mem

theorem filter_of_extensions {parts : List TypeDefinition}
    (each : ∀ p ∈ parts, p.extension = true) : (parts.filter fun p => !p.extension) = [] := by
  refine List.filter_eq_nil_iff.mpr fun p mem => ?_
  simp [each p mem]

theorem sound_builtIn {b t : ResolvedType} {parts : List TypeDefinition}
    (blank : b.body.fieldDefinitions = []) (resolved : resolve (some b) parts = (some t, [])) :
    Sound parts t := by
  obtain ⟨found, clean⟩ := Prod.mk.inj resolved
  obtain ⟨extended, again⟩ := List.append_eq_nil_iff.mp clean
  have none := List.map_eq_nil_iff.mp again
  have gains := gains_addExtensions extended
  have same : (addExtensions b (parts.filter TypeDefinition.extension)).1 = t :=
    Option.some.inj found
  rw [same] at gains
  refine ⟨by simp [none], .of_gains blank gains fun p mem _ => ?_⟩
  exact List.mem_filter.mpr ⟨mem, extensions_of_filter none p mem⟩

theorem sound_defined {definition : TypeDefinition} {before after : List TypeDefinition}
    {t : ResolvedType} (early : ∀ p ∈ before, p.extension = true)
    (clean : (addParts (emptyType definition)
      (definition :: before.filter fun e => sameKind definition.body e.body)).2 = [])
    (extended : addExtensions (addParts (emptyType definition)
      (definition :: before.filter fun e => sameKind definition.body e.body)).1
        (after.filter TypeDefinition.extension) = (t, []))
    (none : (after.filter fun p => !p.extension) = []) :
    Sound (before ++ definition :: after) t := by
  have kind : definition.body.kind = (emptyBody definition.body).kind :=
    (emptyBody_kind definition.body).symm
  have kinds : ∀ p ∈ definition :: before.filter fun e => sameKind definition.body e.body,
      p.body.kind = (emptyType definition).body.kind := by
    refine List.forall_mem_cons.mpr ⟨kind, fun p mem => ?_⟩
    exact (sameKind_iff.mp (List.mem_filter.mp mem).2).symm.trans kind
  have more := gains_addExtensions (congrArg Prod.snd extended)
  rw [extended] at more
  have gains := (gains_addParts kinds clean).trans more
  rw [fieldsOf, fieldsOf, ← List.flatMap_append] at gains
  refine ⟨?_, .of_gains (emptyBody_fieldDefinitions definition.body) gains fun p mem same => ?_⟩
  · rw [List.filter_append, filter_of_extensions early, List.filter_cons, none]
    split <;> simp
  · rcases List.mem_append.mp mem with mem | mem
    · have fits : sameKind definition.body p.body = true :=
        sameKind_iff.mpr (kind.trans same.symm)
      have listed : p ∈ before.filter fun e => sameKind definition.body e.body :=
        List.mem_filter.mpr ⟨mem, fits⟩
      exact List.mem_append_left _ (List.mem_cons_of_mem _ listed)
    · rcases List.mem_cons.mp mem with rfl | mem
      · exact List.mem_append_left _ List.mem_cons_self
      · have listed := List.mem_filter.mpr ⟨mem, extensions_of_filter none p mem⟩
        exact List.mem_append_right _ listed

theorem sound_extended {first : TypeDefinition} {rest : List TypeDefinition} {t : ResolvedType}
    (early : ∀ p ∈ first :: rest, p.extension = true)
    (extended : addExtensions (emptyType first) (first :: rest) = (t, [])) :
    Sound (first :: rest) t := by
  have gains := gains_addExtensions (congrArg Prod.snd extended)
  rw [extended] at gains
  refine ⟨by simp [filter_of_extensions early], ?_⟩
  exact .of_gains (emptyBody_fieldDefinitions first.body) gains fun p mem _ => mem

theorem sound_of_resolve {builtIn? : Option ResolvedType} {parts : List TypeDefinition}
    {t : ResolvedType} (blank : ∀ b ∈ builtIn?, b.body.fieldDefinitions = [])
    (resolved : resolve builtIn? parts = (some t, [])) : Sound parts t := by
  cases builtIn? with
  | some b => exact sound_builtIn (blank b rfl) resolved
  | none =>
      have early : ∀ p ∈ parts.takeWhile TypeDefinition.extension, p.extension = true :=
        fun p mem => List.mem_takeWhile_imp mem
      have whole := List.takeWhile_append_dropWhile (p := TypeDefinition.extension) (l := parts)
      unfold resolve at resolved
      simp only [List.span_eq_takeWhile_dropWhile] at resolved
      rw [← whole]
      cases after : parts.dropWhile TypeDefinition.extension with
      | cons definition after =>
          simp only [after, Prod.mk.injEq, Option.some.injEq, List.append_eq_nil_iff] at resolved
          obtain ⟨found, ⟨stated, extended⟩, again⟩ := resolved
          exact sound_defined early stated (Prod.ext found extended) (List.map_eq_nil_iff.mp again)
      | nil =>
          rw [List.append_nil]
          cases before : parts.takeWhile TypeDefinition.extension with
          | nil => simp [after, before] at resolved
          | cons p others =>
              simp only [after, before, Prod.mk.injEq, Option.some.injEq] at resolved
              rw [before] at early
              exact sound_extended early (Prod.ext resolved.1 resolved.2)

theorem builtIn_blank (name : String) :
    ∀ b ∈ builtInTypes.find? fun t => t.name == name, b.body.fieldDefinitions = [] := by
  have each : ∀ b ∈ builtInTypes, b.body.fieldDefinitions = [] := by decide
  exact fun b found => each b (List.mem_of_find?_eq_some found)

theorem resolve_eq_none {builtIn? : Option ResolvedType} {parts : List TypeDefinition}
    {problems : List SchemaProblem} (resolved : resolve builtIn? parts = (none, problems)) :
    parts = [] := by
  unfold resolve at resolved
  cases builtIn? with
  | some b => simp at resolved
  | none =>
      have whole := List.takeWhile_append_dropWhile (p := TypeDefinition.extension) (l := parts)
      simp only [List.span_eq_takeWhile_dropWhile] at resolved
      cases before : parts.takeWhile TypeDefinition.extension <;>
        cases after : parts.dropWhile TypeDefinition.extension <;>
          simp only [before, after, Prod.mk.injEq, reduceCtorEq, false_and] at resolved
      rw [← whole, before, after]
      rfl

def resolved (parts : List TypeDefinition) (name : String) :
    Option ResolvedType × List SchemaProblem :=
  resolve (builtInTypes.find? fun t => t.name == name) (parts.filter fun p => p.name == name)

theorem enterType_eq (parts : List TypeDefinition) (table : Members ResolvedType)
    (name : String) : enterType parts table name =
      (table ++ ((resolved parts name).1.map fun t => (name, t)).toList,
        (resolved parts name).2) := by
  unfold enterType resolved
  simp only
  split <;> rename_i found <;> simp [found]

theorem gather_enterType {parts : List TypeDefinition} {table : Members ResolvedType}
    {names : List String} (clean : (gather (enterType parts) table names).2 = []) :
    (∀ name ∈ names, (resolved parts name).2 = []) ∧
      ∀ m ∈ (gather (enterType parts) table names).1, m ∈ table ∨
        (resolved parts m.1).1 = some m.2 ∧ m.1 ∈ names := by
  induction names generalizing table with
  | nil => exact ⟨fun _ mem => (List.not_mem_nil mem).elim, fun m mem => .inl mem⟩
  | cons name rest ih =>
      obtain ⟨here, later⟩ := gather_clean_cons.mp clean
      obtain ⟨others, entered⟩ := ih later
      rw [enterType_eq] at here
      refine ⟨List.forall_mem_cons.mpr ⟨here, others⟩, fun m mem => ?_⟩
      rcases entered m mem with before | ⟨found, listed⟩
      · rw [enterType_eq] at before
        rcases List.mem_append.mp before with before | added
        · exact .inl before
        · obtain ⟨t, found, rfl⟩ := Option.map_eq_some_iff.mp (Option.mem_toList.mp added)
          exact .inr ⟨found, List.mem_cons_self⟩
      · exact .inr ⟨found, List.mem_cons_of_mem _ listed⟩

section Documents

variable {d : Document} {system : TypeSystem}

theorem ofDocument_of_valid (valid : validateSchema d = .ok system) :
    TypeSystem.ofDocument d = (system, []) ∧ system.problems = [] := by
  unfold validateSchema at valid
  cases checked : TypeSystem.ofDocument d with
  | mk found problems =>
      rw [checked] at valid
      cases problems with
      | cons problem rest => cases valid
      | nil =>
          cases more : found.problems with
          | cons problem rest => simp [more] at valid
          | nil =>
              simp only [more, Except.ok.injEq] at valid
              subst valid
              exact ⟨rfl, more⟩

theorem types_of_valid (valid : validateSchema d = .ok system) :
    (resolveTypes d).2 = [] ∧ system.types = (resolveTypes d).1 := by
  obtain ⟨found, -⟩ := ofDocument_of_valid valid
  obtain ⟨rfl, clean⟩ := Prod.mk.inj found
  obtain ⟨first, -⟩ := List.append_eq_nil_iff.mp clean
  obtain ⟨first, -⟩ := List.append_eq_nil_iff.mp first
  exact ⟨(List.append_eq_nil_iff.mp first).2, rfl⟩

def Graphql.Document.DefinesOnce (d : Document) : Prop :=
  (((typeParts d).filter fun p => !p.extension).map TypeDefinition.name).Nodup

theorem definesOnce_of_valid (valid : validateSchema d = .ok system) : d.DefinesOnce := by
  obtain ⟨clean, -⟩ := gather_enterType (types_of_valid valid).1
  refine List.nodup_iff_count_le_one.mpr fun name => ?_
  have count : (((typeParts d).filter fun p => !p.extension).map TypeDefinition.name).count name =
      (((typeParts d).filter fun p => p.name == name).filter fun p => !p.extension).length := by
    rw [List.count_eq_countP, List.countP_map, List.countP_filter, List.countP_eq_length_filter,
      List.filter_filter]
    congr 2
    funext p
    exact Bool.and_comm _ _
  rw [count]
  by_cases stated : ∃ p ∈ typeParts d, p.name = name
  · obtain ⟨p, mem, rfl⟩ := stated
    have listed : p.name ∈ Names.ofList
        (builtInTypes.map ResolvedType.name ++ (typeParts d).map TypeDefinition.name) :=
      Names.mem_ofList.mpr (List.mem_append_right _ (List.mem_map_of_mem mem))
    have problems := clean _ listed
    cases found : resolved (typeParts d) p.name with
    | mk t others =>
        rw [found] at problems
        cases problems
        cases t with
        | none => simp [resolve_eq_none found]
        | some t => exact (sound_of_resolve (builtIn_blank _) found).1
  · have none : ((typeParts d).filter fun p => p.name == name) = [] := by
      refine List.filter_eq_nil_iff.mpr fun p mem => ?_
      simpa using fun same => stated ⟨p, mem, same⟩
    simp [none]

/-- A field of a type is stated once among the parts of the kind that the type is of. -/
theorem field_unique (valid : validateSchema d = .ok system) {p p' : TypeDefinition}
    {t : ResolvedType} {f f' : FieldDefinition} (mem : p ∈ typeParts d) (mem' : p' ∈ typeParts d)
    (name : p'.name = p.name) (found : system.types.get? p.name = some t)
    (kind : p.body.kind = t.body.kind) (kind' : p'.body.kind = t.body.kind)
    (field : f ∈ p.body.fieldDefinitions) (field' : f' ∈ p'.body.fieldDefinitions)
    (same : f.name = f'.name) : f = f' := by
  obtain ⟨problems, types⟩ := types_of_valid valid
  obtain ⟨clean, entered⟩ := gather_enterType problems
  rw [types] at found
  rcases entered _ (Members.mem_of_get? found) with before | ⟨type, listed⟩
  · exact (List.not_mem_nil before).elim
  · have whole : resolved (typeParts d) p.name = (some t, []) :=
      Prod.ext type (clean p.name listed)
    have sound := sound_of_resolve (builtIn_blank p.name) whole
    have here : p ∈ (typeParts d).filter fun q => q.name == p.name :=
      List.mem_filter.mpr ⟨mem, by simp⟩
    have there : p' ∈ (typeParts d).filter fun q => q.name == p.name :=
      List.mem_filter.mpr ⟨mem', by simpa using name⟩
    exact sound.2.unique here there kind kind' field field' same

end Documents

theorem get_addRoot (roots : Roots) (root : OperationKind × String) (kind : OperationKind) :
    (addRoot roots root).1.get kind =
      (roots.get kind).or (if root.1 = kind then some root.2 else none) := by
  obtain ⟨k, name⟩ := root
  unfold addRoot
  cases known : roots.get k with
  | some before =>
      by_cases same : k = kind
      · subst same
        simp [known]
      · simp [same]
  | none => cases k <;> cases kind <;> simp_all [Roots.get]

theorem get_gather_addRoot (roots : Roots) (named : List (OperationKind × String))
    (kind : OperationKind) : (gather addRoot roots named).1.get kind =
      (roots.get kind).or ((named.find? fun root => root.1 = kind).map Prod.snd) := by
  induction named generalizing roots with
  | nil => exact Option.or_none.symm
  | cons root rest ih =>
      have all : (gather addRoot roots (root :: rest)).1 =
          (gather addRoot (addRoot roots root).1 rest).1 := rfl
      rw [all, ih, get_addRoot, List.find?_cons, Option.or_assoc]
      by_cases same : root.1 = kind <;> simp [same]

theorem get_of_mem_roots {roots : Roots} {named : List (OperationKind × String)}
    (clean : (gather addRoot roots named).2 = []) {kind : OperationKind} {name : String}
    (mem : (kind, name) ∈ named) : (gather addRoot roots named).1.get kind = some name := by
  induction named generalizing roots with
  | nil => exact (List.not_mem_nil mem).elim
  | cons root rest ih =>
      obtain ⟨here, later⟩ := gather_clean_cons.mp clean
      rcases List.mem_cons.mp mem with rfl | mem
      · cases known : roots.get kind with
        | some before => simp [addRoot, known] at here
        | none => simp [get_gather_addRoot, known]
      · exact ih later mem

theorem mem_roots_of_get {named : List (OperationKind × String)} {kind : OperationKind}
    {name : String} (found : (gather addRoot ⟨none, none, none⟩ named).1.get kind = some name) :
    (kind, name) ∈ named := by
  have unnamed : Roots.get ⟨none, none, none⟩ kind = none := by cases kind <;> rfl
  rw [get_gather_addRoot, unnamed, Option.none_or] at found
  obtain ⟨⟨k, n⟩, first, rfl⟩ := Option.map_eq_some_iff.mp found
  obtain rfl : k = kind := by simpa using List.find?_some first
  exact List.mem_of_find?_eq_some first

theorem roots_of_valid {d : Document} {system : TypeSystem}
    (valid : validateSchema d = .ok system) :
    (schemaDefinitions d).drop 1 = [] ∧
      resolveRoots d (resolveTypes d).1 = (system.roots, []) := by
  obtain ⟨found, -⟩ := ofDocument_of_valid valid
  obtain ⟨rfl, clean⟩ := Prod.mk.inj found
  obtain ⟨repeated, problems⟩ :=
    List.append_eq_nil_iff.mp (List.append_eq_nil_iff.mp clean).2
  exact ⟨List.map_eq_nil_iff.mp repeated, Prod.ext rfl problems⟩

theorem query_isSome {d : Document} {system : TypeSystem}
    (valid : validateSchema d = .ok system) : system.roots.query.isSome = true := by
  obtain ⟨-, clean⟩ := ofDocument_of_valid valid
  have roots := (List.append_eq_nil_iff.mp (List.append_eq_nil_iff.mp
    (List.append_eq_nil_iff.mp clean).1).1).1
  have first := (List.append_eq_nil_iff.mp (List.append_eq_nil_iff.mp roots).1).1
  cases query : system.roots.query with
  | some name => rfl
  | none => simp [query] at first

theorem mem_queryRoots {d : Document} {name : String} :
    name ∈ d.flatMap Document.queryRoots ↔
      (OperationKind.query, name) ∈ (schemaParts d).flatMap SchemaDefinition.roots := by
  simp only [List.mem_flatMap, schemaParts, List.mem_filterMap]
  constructor
  · rintro ⟨definition, mem, named⟩
    cases definition with
    | schema s =>
        obtain ⟨⟨kind, _⟩, root, rfl⟩ := List.mem_map.mp named
        obtain ⟨root, query⟩ := List.mem_filter.mp root
        cases eq_of_beq query
        exact ⟨s, ⟨_, mem, rfl⟩, root⟩
    | _ => cases named
  · rintro ⟨s, ⟨definition, mem, same⟩, root⟩
    cases definition with
    | schema s' =>
        cases same
        exact ⟨_, mem, List.mem_map.mpr ⟨_, List.mem_filter.mpr ⟨root, rfl⟩, rfl⟩⟩
    | _ => cases same

theorem mem_usedParts {d : Document} {s : SchemaDefinition}
    (single : (schemaDefinitions d).drop 1 = []) : s ∈ usedParts d ↔ s ∈ schemaParts d := by
  have all : (schemaDefinitions d).take 1 = schemaDefinitions d := by
    have whole := List.take_append_drop 1 (schemaDefinitions d)
    rwa [single, List.append_nil] at whole
  rw [usedParts, all, schemaDefinitions, List.mem_append, List.mem_filter, List.mem_filter]
  cases s.extension <;> simp

theorem queryRoot_of_mem {d : Document} {query : Option String}
    (unnamed : ∀ name, query = some name → (∀ other, other ∉ d.flatMap Document.queryRoots) →
      name = "Query")
    (named : ∀ name, name ∈ d.flatMap Document.queryRoots → query = some name)
    (present : query.isSome = true) : query = some d.queryRoot := by
  unfold Document.queryRoot
  cases last : (d.flatMap Document.queryRoots).getLast? with
  | some name => exact named name (List.mem_of_getLast? last)
  | none =>
      obtain ⟨name, found⟩ := Option.isSome_iff_exists.mp present
      have none := List.getLast?_eq_none_iff.mp last
      rw [found, unnamed name found (by simp [none])]
      rfl

theorem query_root {d : Document} {system : TypeSystem}
    (valid : validateSchema d = .ok system) : system.roots.query = some d.queryRoot := by
  obtain ⟨single, roots⟩ := roots_of_valid valid
  have stated (name : String) : name ∈ d.flatMap Document.queryRoots ↔
      (OperationKind.query, name) ∈ statedRoots d := by
    rw [mem_queryRoots, statedRoots, List.mem_flatMap, List.mem_flatMap]
    simp only [mem_usedParts single]
  unfold resolveRoots at roots
  split at roots
  · rename_i silent
    have none : statedRoots d = [] := List.isEmpty_iff.mp (Bool.and_eq_true_iff.mp silent).2
    refine queryRoot_of_mem (fun name found _ => ?_) (fun name named => ?_) (query_isSome valid)
    · have query := congrArg (fun result => result.1.query) roots
      simp only [conventionalRoots, found] at query
      split at query
      · exact (Option.some.inj query).symm
      · cases query
    · rw [stated, none] at named
      cases named
  · refine queryRoot_of_mem (fun name found unnamed => ?_) (fun name named => ?_)
      (query_isSome valid)
    · have listed : (OperationKind.query, name) ∈ statedRoots d :=
        mem_roots_of_get (by rw [roots]; exact found)
      exact (unnamed name ((stated name).mpr listed)).elim
    · have clean := congrArg Prod.snd roots
      have entered := get_of_mem_roots clean ((stated name).mp named)
      rw [roots] at entered
      exact entered

end FederatedMock
