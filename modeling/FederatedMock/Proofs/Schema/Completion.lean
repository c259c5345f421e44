import FederatedMock.Proofs.Schema.Restatement

namespace FederatedMock

open Graphql

namespace Graphql

namespace TypeBody

def location : TypeBody → String
  | .scalar => "SCALAR"
  | .object _ _ => "OBJECT"
  | .interface _ _ => "INTERFACE"
  | .union _ => "UNION"
  | .enumeration _ => "ENUM"
  | .input _ => "INPUT_OBJECT"

def enumValues : TypeBody → List EnumValue
  | .enumeration values => values
  | _ => []

def inputFields : TypeBody → List InputValue
  | .input fields => fields
  | _ => []

end TypeBody

inductive Document.Applies (d : Document) : String → Directive → Prop
  | schema {s : SchemaDefinition} {x : Directive} (part : .schema s ∈ d)
      (stands : x ∈ s.directives) : Applies d "SCHEMA" x
  | directiveArgument {declared : DirectiveDefinition} {a : InputValue} {x : Directive}
      (part : .directive declared ∈ d) (argument : a ∈ declared.arguments)
      (stands : x ∈ a.directives) : Applies d "ARGUMENT_DEFINITION" x
  | type {t : TypeDefinition} {x : Directive} (part : .type t ∈ d) (stands : x ∈ t.directives) :
      Applies d t.body.location x
  | field {t : TypeDefinition} {f : FieldDefinition} {x : Directive} (part : .type t ∈ d)
      (field : f ∈ t.body.fieldDefinitions) (stands : x ∈ f.directives) :
      Applies d "FIELD_DEFINITION" x
  | fieldArgument {t : TypeDefinition} {f : FieldDefinition} {a : InputValue} {x : Directive}
      (part : .type t ∈ d) (field : f ∈ t.body.fieldDefinitions) (argument : a ∈ f.arguments)
      (stands : x ∈ a.directives) : Applies d "ARGUMENT_DEFINITION" x
  | enumValue {t : TypeDefinition} {v : EnumValue} {x : Directive} (part : .type t ∈ d)
      (value : v ∈ t.body.enumValues) (stands : x ∈ v.directives) : Applies d "ENUM_VALUE" x
  | inputField {t : TypeDefinition} {f : InputValue} {x : Directive} (part : .type t ∈ d)
      (field : f ∈ t.body.inputFields) (stands : x ∈ f.directives) :
      Applies d "INPUT_FIELD_DEFINITION" x

end Graphql

theorem mem_applications_directive {declared : DirectiveDefinition} {x : Directive} :
    x ∈ (Definition.directive declared).applications ↔
      ∃ a ∈ declared.arguments, x ∈ a.directives := by
  simp [Definition.applications]

theorem mem_applications_type {t : TypeDefinition} {x : Directive} :
    x ∈ (Definition.type t).applications ↔ x ∈ t.directives ∨
      (∃ f ∈ t.body.fieldDefinitions, x ∈ f.directives ∨ ∃ a ∈ f.arguments, x ∈ a.directives) ∨
        (∃ v ∈ t.body.enumValues, x ∈ v.directives) ∨
          ∃ f ∈ t.body.inputFields, x ∈ f.directives := by
  obtain ⟨extension, description, name, directives, body⟩ := t
  have onField (f : FieldDefinition) : x ∈ f.directives ++ f.arguments.flatMap
      InputValue.directives ↔ x ∈ f.directives ∨ ∃ a ∈ f.arguments, x ∈ a.directives := by
    simp
  cases body with
  | object interfaces fields | interface interfaces fields =>
      simp only [Definition.applications, TypeBody.fieldDefinitions, TypeBody.enumValues,
        TypeBody.inputFields, List.mem_append, List.mem_flatMap, List.not_mem_nil, false_and,
        exists_false, or_false]
      exact or_congr_right (exists_congr fun f => and_congr_right fun _ => onField f)
  | _ => simp [Definition.applications, TypeBody.fieldDefinitions, TypeBody.enumValues,
        TypeBody.inputFields]

theorem mem_applications_iff {d : Document} {x : Directive} :
    x ∈ d.flatMap Definition.applications ↔ ∃ location, d.Applies location x := by
  rw [List.mem_flatMap]
  constructor
  · rintro ⟨definition, part, stands⟩
    cases definition with
    | operation o => cases stands
    | fragment f => cases stands
    | schema s => exact ⟨_, .schema part stands⟩
    | directive declared =>
        obtain ⟨a, argument, stands⟩ := mem_applications_directive.mp stands
        exact ⟨_, .directiveArgument part argument stands⟩
    | type t =>
        rcases mem_applications_type.mp stands with
          stands | ⟨f, field, stands | ⟨a, argument, stands⟩⟩ | ⟨v, value, stands⟩ |
            ⟨f, field, stands⟩
        · exact ⟨_, .type part stands⟩
        · exact ⟨_, .field part field stands⟩
        · exact ⟨_, .fieldArgument part field argument stands⟩
        · exact ⟨_, .enumValue part value stands⟩
        · exact ⟨_, .inputField part field stands⟩
  · rintro ⟨location, applies⟩
    cases applies with
    | schema part stands => exact ⟨_, part, stands⟩
    | directiveArgument part argument stands =>
        exact ⟨_, part, mem_applications_directive.mpr ⟨_, argument, stands⟩⟩
    | type part stands => exact ⟨_, part, mem_applications_type.mpr (.inl stands)⟩
    | field part field stands =>
        exact ⟨_, part, mem_applications_type.mpr (.inr (.inl ⟨_, field, .inl stands⟩))⟩
    | fieldArgument part field argument stands =>
        exact ⟨_, part, mem_applications_type.mpr
          (.inr (.inl ⟨_, field, .inr ⟨_, argument, stands⟩⟩))⟩
    | enumValue part value stands =>
        exact ⟨_, part, mem_applications_type.mpr (.inr (.inr (.inl ⟨_, value, stands⟩)))⟩
    | inputField part field stands =>
        exact ⟨_, part, mem_applications_type.mpr (.inr (.inr (.inr ⟨_, field, stands⟩)))⟩

theorem Graphql.Document.Applies.location_mem {d : Document} {location : String} {x : Directive}
    (applies : d.Applies location x) : location ∈ typeSystemLocations := by
  cases applies with
  | @type t x part stands => cases t.body <;> simp [TypeBody.location, typeSystemLocations]
  | _ => decide

structure Records (table : Members (List String)) (applied : List Directive) : Prop where
  distinct : (Members.keys table).Nodup
  mem_keys : ∀ name, name ∈ Members.keys table ↔ ∃ x ∈ applied, x.name = name
  mem_arguments : ∀ name a, a ∈ (Members.get? name table).getD [] ↔
    ∃ x ∈ applied, x.name = name ∧ a ∈ x.arguments.map Argument.name

def recordApplication (table : Members (List String)) (x : Directive) : Members (List String) :=
  table.insert x.name
    (Names.addAll ((table.get? x.name).getD []) (x.arguments.map Argument.name))

theorem Records.step {table : Members (List String)} {applied : List Directive}
    (records : Records table applied) (x : Directive) :
    Records (recordApplication table x) (applied ++ [x]) where
  distinct := Members.nodup_keys_insert records.distinct
  mem_keys name := by
    rw [recordApplication, Members.mem_keys_insert, records.mem_keys]
    simp only [List.mem_append, List.mem_singleton]
    constructor
    · rintro (rfl | ⟨y, mem, same⟩)
      · exact ⟨x, .inr rfl, rfl⟩
      · exact ⟨y, .inl mem, same⟩
    · rintro ⟨y, mem | rfl, same⟩
      · exact .inr ⟨y, mem, same⟩
      · exact .inl same.symm
  mem_arguments name a := by
    have before := records.mem_arguments name a
    rw [recordApplication, Members.get?_insert]
    by_cases same : x.name = name
    · rw [if_pos same, same, Option.getD_some, Names.mem_addAll, before]
      simp [or_and_right, exists_or, same]
    · rw [if_neg same, before]
      simp [or_and_right, exists_or, same]

theorem Records.run {table : Members (List String)} {applied : List Directive}
    (records : Records table applied) (more : List Directive) :
    Records (more.foldl recordApplication table) (applied ++ more) := by
  induction more generalizing table applied with
  | nil => simpa using records
  | cons x rest ih => simpa using ih (records.step x)

theorem records_appliedDirectives (d : Document) :
    Records d.appliedDirectives (d.flatMap Definition.applications) := by
  have nothing : Records [] [] := ⟨List.nodup_nil, by simp [Members.keys], by simp [Members.get?]⟩
  exact nothing.run (d.flatMap Definition.applications)

theorem mem_directives_iff {d : Document} {declared : DirectiveDefinition} :
    .directive declared ∈ Supplement.directives d ↔ ∃ name arguments,
      Members.get? name d.appliedDirectives = some arguments ∧ name ∉ builtInDirectives ∧
        d.definesDirective name = false ∧
          .directive declared = Supplement.directiveDefinition name arguments := by
  have records := records_appliedDirectives d
  simp only [Supplement.directives, List.mem_filterMap, Option.ite_none_left_eq_some,
    Option.some.injEq, Bool.or_eq_true, not_or, Bool.not_eq_true]
  constructor
  · rintro ⟨⟨name, arguments⟩, mem, ⟨other, missing⟩, same⟩
    have found := Members.get?_of_mem records.distinct mem
    exact ⟨name, arguments, found, by simpa using other, missing, same.symm⟩
  · rintro ⟨name, arguments, found, other, missing, same⟩
    exact ⟨(name, arguments), Members.mem_of_get? found, ⟨by simpa using other, missing⟩, same.symm⟩

theorem definesDirective_iff {d : Document} {name : String} :
    d.definesDirective name = true ↔ ∃ declared, .directive declared ∈ d ∧ declared.name = name := by
  rw [Document.definesDirective, List.contains_iff_mem, List.mem_filterMap]
  constructor
  · rintro ⟨definition, mem, same⟩
    cases definition with
    | directive declared => exact ⟨declared, mem, Option.some.inj same⟩
    | _ => cases same
  · rintro ⟨declared, mem, rfl⟩
    exact ⟨_, mem, rfl⟩

theorem definesType_iff {d : Document} {name : String} :
    d.definesType name = true ↔ ∃ t, .type t ∈ d ∧ t.extension = false ∧ t.name = name := by
  rw [Document.definesType, List.contains_iff_mem, List.mem_filterMap]
  constructor
  · rintro ⟨definition, mem, same⟩
    cases definition with
    | type t =>
        obtain ⟨defines, same⟩ : ¬ t.extension = true ∧ t.name = name := by
          simpa [Definition.definedType?] using same
        exact ⟨t, mem, by simpa using defines, same⟩
    | _ => cases same
  · rintro ⟨t, mem, defines, rfl⟩
    exact ⟨_, mem, by simp [Definition.definedType?, defines]⟩

section Augment

variable {d : Document}

theorem mem_rootFields {f : FieldDefinition} (mem : f ∈ Supplement.rootFields d) :
    f = Supplement.entitiesRootField ∨ f = Supplement.serviceRootField := by
  unfold Supplement.rootFields at mem
  rcases List.mem_append.mp mem with mem | mem
  · split at mem
    · exact .inl (List.mem_singleton.mp mem)
    · cases mem
  · split at mem
    · cases mem
    · exact .inr (List.mem_singleton.mp mem)

inductive Supplies (d : Document) : Definition → Prop
  | anyScalar (missing : d.definesType anyScalar = false) : Supplies d Supplement.anyDefinition
  | service (missing : d.definesType serviceType = false) : Supplies d Supplement.serviceDefinition
  | entity (some : d.entities ≠ []) (missing : d.definesType entityUnion = false) :
      Supplies d (Supplement.entityDefinition d.entities)
  | directive {declared : DirectiveDefinition}
      (listed : .directive declared ∈ Supplement.directives d) : Supplies d (.directive declared)
  | root (some : Supplement.rootFields d ≠ []) :
      Supplies d (.type ⟨!(d.statedFields d.queryRoot).isEmpty, none, d.queryRoot, [],
        .object [] (Supplement.rootFields d)⟩)

theorem mem_rootDefinition_iff {definition : Definition} :
    definition ∈ Supplement.rootDefinition d ↔ Supplement.rootFields d ≠ [] ∧
      definition = .type ⟨!(d.statedFields d.queryRoot).isEmpty, none, d.queryRoot, [],
        .object [] (Supplement.rootFields d)⟩ := by
  unfold Supplement.rootDefinition
  cases Supplement.rootFields d <;> simp

theorem mem_supplement_iff {definition : Definition} :
    definition ∈ supplement d ↔ Supplies d definition := by
  have optional (defined : Bool) (x : Definition) :
      definition ∈ (if defined = true then [] else [x]) ↔ defined = false ∧ definition = x := by
    cases defined <;> simp
  simp only [supplement, List.mem_append, optional, mem_rootDefinition_iff, Bool.or_eq_false_iff,
    List.isEmpty_eq_false_iff]
  constructor
  · rintro ((((⟨missing, rfl⟩ | ⟨missing, rfl⟩) | ⟨⟨some, missing⟩, rfl⟩) | listed) | ⟨some, rfl⟩)
    · exact .anyScalar missing
    · exact .service missing
    · exact .entity some missing
    · obtain ⟨declared, rfl⟩ := directive_of_mem listed
      exact .directive listed
    · exact .root some
  · rintro (missing | missing | ⟨some, missing⟩ | listed | some)
    · exact .inl (.inl (.inl (.inl ⟨missing, rfl⟩)))
    · exact .inl (.inl (.inl (.inr ⟨missing, rfl⟩)))
    · exact .inl (.inl (.inr ⟨⟨some, missing⟩, rfl⟩))
    · exact .inl (.inr listed)
    · exact .inr ⟨some, rfl⟩

theorem applications_of_supplies {definition : Definition} (supplied : Supplies d definition) :
    definition.applications = [] := by
  cases supplied with
  | anyScalar missing => rfl
  | service missing => rfl
  | entity some missing => rfl
  | directive listed =>
      obtain ⟨name, arguments, -, -, -, same⟩ := mem_directives_iff.mp listed
      rw [same]
      refine List.flatMap_eq_nil_iff.mpr fun p mem => ?_
      obtain ⟨a, -, rfl⟩ := List.mem_map.mp mem
      rfl
  | root some =>
      refine List.flatMap_eq_nil_iff.mpr fun f mem => ?_
      rcases mem_rootFields mem with rfl | rfl <;> rfl

theorem applications_augment (d : Document) :
    (augment d).flatMap Definition.applications = d.flatMap Definition.applications := by
  have nothing : (supplement d).flatMap Definition.applications = [] :=
    List.flatMap_eq_nil_iff.mpr fun definition mem =>
      applications_of_supplies (mem_supplement_iff.mp mem)
  rw [augment, List.flatMap_append, nothing, List.append_nil]

theorem appliedDirectives_augment (d : Document) :
    (augment d).appliedDirectives = d.appliedDirectives := by
  rw [Document.appliedDirectives, applications_augment]
  rfl

theorem applies_augment {location : String} {x : Directive}
    (applies : (augment d).Applies location x) : ∃ location, d.Applies location x := by
  have mem := mem_applications_iff.mpr ⟨location, applies⟩
  rw [applications_augment] at mem
  exact mem_applications_iff.mp mem

theorem entities_augment (d : Document) : (augment d).entities = d.entities := by
  rw [Document.entities, augment, List.filterMap_append]
  refine congrArg Names.ofList (List.append_right_eq_self.mpr ?_)
  refine List.filterMap_eq_nil_iff.mpr fun definition mem => ?_
  cases mem_supplement_iff.mp mem <;> rfl

theorem definesDirective_of_applied {name : String} {arguments : List String}
    (applied : Members.get? name d.appliedDirectives = some arguments) :
    name ∈ builtInDirectives ∨ (augment d).definesDirective name = true := by
  by_cases builtIn : name ∈ builtInDirectives
  · exact .inl builtIn
  refine .inr (definesDirective_iff.mpr ?_)
  cases declares : d.definesDirective name with
  | true =>
      obtain ⟨declared, mem, same⟩ := definesDirective_iff.mp declares
      exact ⟨declared, List.mem_append_left _ mem, same⟩
  | false =>
      have listed := mem_directives_iff.mpr ⟨name, arguments, applied, builtIn, declares, rfl⟩
      exact ⟨_, List.mem_append_right _ (mem_supplement_iff.mpr (.directive listed)), rfl⟩

theorem directives_augment (d : Document) : Supplement.directives (augment d) = [] := by
  rw [List.eq_nil_iff_forall_not_mem]
  intro definition mem
  obtain ⟨declared, rfl⟩ := directive_of_mem mem
  obtain ⟨name, arguments, applied, other, missing, -⟩ := mem_directives_iff.mp mem
  rw [appliedDirectives_augment] at applied
  rcases definesDirective_of_applied applied with builtIn | declares
  · exact other builtIn
  · rw [missing] at declares
    cases declares

theorem definesType_augment {t : TypeDefinition} (defines : t.extension = false)
    (supplied : d.definesType t.name = false → Supplies d (.type t)) :
    (augment d).definesType t.name = true := by
  rw [definesType_iff]
  cases defined : d.definesType t.name with
  | true =>
      obtain ⟨t', mem, same⟩ := definesType_iff.mp defined
      exact ⟨t', List.mem_append_left _ mem, same⟩
  | false =>
      exact ⟨t, List.mem_append_right _ (mem_supplement_iff.mpr (supplied defined)), defines, rfl⟩

theorem definesEntity_augment (some : d.entities ≠ []) :
    (augment d).definesType entityUnion = true :=
  definesType_augment (t := ⟨false, none, entityUnion, [], .union d.entities⟩) rfl (.entity some)

theorem stated_augment {f : FieldDefinition}
    (mem : ((d.statedFields d.queryRoot).flatten.map FieldDefinition.name).contains f.name = false →
      f ∈ Supplement.rootFields d) :
    ∃ type, ⟨d.queryRoot, .object, .field f.name type⟩ ∈ (augment d).statements := by
  rw [augment, statements_append]
  cases stated : ((d.statedFields d.queryRoot).flatten.map FieldDefinition.name).contains f.name with
  | true =>
      obtain ⟨type, said⟩ := mem_statedFields.mp (List.contains_iff_mem.mp stated)
      exact ⟨type, List.mem_append_left _ said⟩
  | false =>
      have listed := mem stated
      have supplied : Supplies d _ := .root (List.ne_nil_of_mem listed)
      refine ⟨f.type, List.mem_append_right _ (mem_statements.mpr ?_)⟩
      exact ⟨_, mem_typeParts.mpr (mem_supplement_iff.mpr supplied), ⟨rfl, rfl⟩,
        field_mem_clauses.mpr ⟨f, listed, rfl, rfl⟩⟩

theorem serviceField_augment (d : Document) :
    ∃ type, ⟨d.queryRoot, .object, .field serviceField type⟩ ∈ (augment d).statements :=
  stated_augment (f := Supplement.serviceRootField) fun missing => by
    have missing : ((d.statedFields d.queryRoot).flatten.map FieldDefinition.name).contains
      serviceField = false := missing
    unfold Supplement.rootFields
    simp only [missing]
    simp

theorem entitiesField_augment (some : d.entities ≠ []) :
    ∃ type, ⟨d.queryRoot, .object, .field entitiesField type⟩ ∈ (augment d).statements :=
  stated_augment (f := Supplement.entitiesRootField) fun missing => by
    have missing : ((d.statedFields d.queryRoot).flatten.map FieldDefinition.name).contains
      entitiesField = false := missing
    unfold Supplement.rootFields
    simp only [missing]
    simp [some]

theorem rootFields_augment (d : Document) : Supplement.rootFields (augment d) = [] := by
  have service : (((augment d).statedFields d.queryRoot).flatten.map
      FieldDefinition.name).contains serviceField = true :=
    List.contains_iff_mem.mpr (mem_statedFields.mpr (serviceField_augment d))
  unfold Supplement.rootFields
  rw [queryRoot_augment, entities_augment]
  simp only [service, ↓reduceIte, List.append_nil]
  by_cases some : d.entities = []
  · simp [some]
  · have entities : (((augment d).statedFields d.queryRoot).flatten.map
        FieldDefinition.name).contains entitiesField = true :=
      List.contains_iff_mem.mpr (mem_statedFields.mpr (entitiesField_augment some))
    simp only [entities]
    simp

theorem supplement_augment (d : Document) : supplement (augment d) = [] := by
  rw [List.eq_nil_iff_forall_not_mem]
  intro definition mem
  cases mem_supplement_iff.mp mem with
  | anyScalar missing =>
      have defined : (augment d).definesType FederatedMock.anyScalar = true :=
        definesType_augment (t := ⟨false, none, _, [], .scalar⟩) rfl .anyScalar
      rw [defined] at missing
      cases missing
  | service missing =>
      have defined : (augment d).definesType serviceType = true :=
        definesType_augment (t := ⟨false, none, _, [], .object [] _⟩) rfl .service
      rw [defined] at missing
      cases missing
  | entity some missing =>
      rw [entities_augment] at some
      rw [definesEntity_augment some] at missing
      cases missing
  | directive listed =>
      rw [directives_augment] at listed
      cases listed
  | root some => exact some (rootFields_augment d)

end Augment

theorem declared_of_applies {d : Document} {location : String} {x : Directive}
    (applies : (augment d).Applies location x) :
    x.name ∈ builtInDirectives ∨
      ∃ declared, .directive declared ∈ augment d ∧ declared.name = x.name := by
  obtain ⟨place, applied⟩ := applies_augment applies
  have mem : x.name ∈ Members.keys d.appliedDirectives :=
    ((records_appliedDirectives d).mem_keys x.name).mpr
      ⟨x, mem_applications_iff.mpr ⟨place, applied⟩, rfl⟩
  cases found : Members.get? x.name d.appliedDirectives with
  | none => exact absurd mem (Members.get?_eq_none_iff.mp found)
  | some arguments =>
      exact (definesDirective_of_applied found).imp_right definesDirective_iff.mp

theorem accepts_of_declared {d : Document} {declared : DirectiveDefinition}
    (supplied : .directive declared ∈ supplement d) {location : String} {x : Directive}
    (applies : d.Applies location x) (same : x.name = declared.name) :
    declared.repeatable = true ∧ location ∈ declared.locations ∧
      ∀ a ∈ x.arguments, ∃ p ∈ declared.arguments, p.name = a.name := by
  cases mem_supplement_iff.mp supplied with
  | directive listed =>
      obtain ⟨name, arguments, found, -, -, definition⟩ := mem_directives_iff.mp listed
      cases definition
      refine ⟨rfl, applies.location_mem, fun a given => ?_⟩
      have recorded : a.name ∈ arguments := by
        have stands := mem_applications_iff.mpr ⟨location, applies⟩
        have mem := ((records_appliedDirectives d).mem_arguments name a.name).mpr
          ⟨x, stands, same, List.mem_map_of_mem given⟩
        rwa [found] at mem
      exact ⟨_, List.mem_map_of_mem recorded, rfl⟩

theorem forall_not_or_exists_last {α : Type} (p : α → Prop) (l : List α) :
    (∀ x ∈ l, ¬ p x) ∨
      ∃ before x after, l = before ++ x :: after ∧ p x ∧ ∀ y ∈ after, ¬ p y := by
  induction l with
  | nil => exact .inl (by simp)
  | cons x rest ih =>
      rcases ih with none | ⟨before, y, after, rfl, here, last⟩
      · by_cases here : p x
        · exact .inr ⟨[], x, rest, rfl, here, none⟩
        · exact .inl (List.forall_mem_cons.mpr ⟨here, none⟩)
      · exact .inr ⟨x :: before, y, after, rfl, here, last⟩

namespace Graphql

def SchemaDefinition.NamesQuery (s : SchemaDefinition) : Prop :=
  ∃ root ∈ s.roots, root.1 = .query

/-- The query root of a document is the one that it names last, in a definition or an extension of
its schema, or else the type `Query`. -/
inductive Document.HasQueryRoot (d : Document) : String → Prop
  | named {before after : Document} {s : SchemaDefinition}
      {earlier later : List (OperationKind × String)} {name : String}
      (part : d = before ++ .schema s :: after) (root : s.roots = earlier ++ (.query, name) :: later)
      (last : ∀ root ∈ later, root.1 ≠ .query)
      (final : ∀ s', .schema s' ∈ after → ¬ s'.NamesQuery) : HasQueryRoot d name
  | unnamed (none : ∀ s, .schema s ∈ d → ¬ s.NamesQuery) : HasQueryRoot d "Query"

def Document.StatesField (d : Document) (type field : String) : Prop :=
  ∃ t interfaces fields, .type t ∈ d ∧ t.name = type ∧ t.body = .object interfaces fields ∧
    ∃ f ∈ fields, f.name = field

def Directive.IsKey (x : Directive) : Prop :=
  x.name = "key" ∨ ∃ link, x.name = link ++ "__key"

end Graphql

theorem queryRoots_eq_nil {d : Document} (none : ∀ s, .schema s ∈ d → ¬ s.NamesQuery) :
    d.flatMap Document.queryRoots = [] := by
  refine List.flatMap_eq_nil_iff.mpr fun definition part => ?_
  cases definition with
  | schema s =>
      have unnamed : s.roots.filter (fun root => root.1 == .query) = [] :=
        List.filter_eq_nil_iff.mpr fun root mem query => none s part ⟨root, mem, eq_of_beq query⟩
      rw [Document.queryRoots, unnamed, List.map_nil]
  | _ => rfl

theorem Graphql.Document.HasQueryRoot.eq {d : Document} {name : String}
    (root : d.HasQueryRoot name) : name = d.queryRoot := by
  unfold Document.queryRoot
  cases root with
  | unnamed none => rw [queryRoots_eq_nil none, List.getLast?_nil, Option.getD_none]
  | @named before after s earlier later _ part root last final =>
      have rest : later.filter (fun root => root.1 == .query) = [] :=
        List.filter_eq_nil_iff.mpr fun root mem query => last root mem (eq_of_beq query)
      have here : Document.queryRoots (.schema s) =
          (earlier.filter fun root => root.1 == .query).map Prod.snd ++ [name] := by
        simp [Document.queryRoots, root, rest]
      rw [part, List.flatMap_append, List.flatMap_cons, here, queryRoots_eq_nil final,
        List.append_nil, ← List.append_assoc, List.getLast?_concat, Option.getD_some]

theorem exists_hasQueryRoot (d : Document) : ∃ name, d.HasQueryRoot name := by
  rcases forall_not_or_exists_last (fun x => ∃ s, x = .schema s ∧ s.NamesQuery) d with
    none | ⟨before, _, after, part, ⟨s, rfl, named⟩, final⟩
  · exact ⟨_, .unnamed fun s part named => none _ part ⟨s, rfl, named⟩⟩
  rcases forall_not_or_exists_last (fun root => root.1 = .query) s.roots with
    none | ⟨earlier, ⟨_, name⟩, later, roots, rfl, last⟩
  · obtain ⟨root, mem, query⟩ := named
    exact (none root mem query).elim
  · exact ⟨name, .named part roots last fun s' part named => final _ part ⟨s', rfl, named⟩⟩

theorem hasQueryRoot_iff {d : Document} {name : String} :
    d.HasQueryRoot name ↔ name = d.queryRoot := by
  constructor
  · exact fun root => root.eq
  · rintro rfl
    obtain ⟨name, root⟩ := exists_hasQueryRoot d
    rwa [← root.eq]

theorem hasQueryRoot_augment {d : Document} {name : String} :
    (augment d).HasQueryRoot name ↔ d.HasQueryRoot name := by
  rw [hasQueryRoot_iff, hasQueryRoot_iff, queryRoot_augment]

theorem statesField_of_statement {d : Document} {type field : String} {t : TypeRef}
    (said : ⟨type, .object, .field field t⟩ ∈ d.statements) : d.StatesField type field := by
  obtain ⟨p, part, ⟨name, kind⟩, clause⟩ := mem_statements.mp said
  obtain ⟨interfaces, fields, object⟩ := kind_eq_object_iff.mp kind
  obtain ⟨f, mem, same, -⟩ := field_mem_clauses.mp clause
  rw [object] at mem
  exact ⟨p, interfaces, fields, mem_typeParts.mp part, name, object, f, mem, same⟩

theorem isKeyDirective_of_isKey {x : Directive} (key : x.IsKey) : isKeyDirective x.name = true := by
  rw [isKeyDirective, Bool.or_eq_true]
  rcases key with key | ⟨link, linked⟩
  · exact .inl (beq_of_eq key)
  · refine .inr ?_
    rw [linked, String.endsWith_eq_endsWith_toSlice, String.Slice.endsWith_string_iff]
    simp

theorem entities_ne_nil {d : Document} {t : TypeDefinition} {interfaces : List String}
    {fields : List FieldDefinition} (part : .type t ∈ d) (object : t.body = .object interfaces fields)
    {x : Directive} (stands : x ∈ t.directives) (key : x.IsKey) : d.entities ≠ [] := by
  have said : ⟨t.name, .object, .directive x.name⟩ ∈ d.statements :=
    mem_statements.mpr ⟨t, mem_typeParts.mpr part, ⟨rfl, kind_eq_object_iff.mpr ⟨_, _, object⟩⟩,
      directive_mem_clauses.mpr ⟨x, stands, rfl⟩⟩
  exact List.ne_nil_of_mem (mem_entities.mpr ⟨x.name, isKeyDirective_of_isKey key, said⟩)

structure Completes (d d' : Document) : Prop where
  fixed : supplement d' = []
  declared : ∀ location x, d'.Applies location x →
    x.name ∈ ["skip", "include", "deprecated", "specifiedBy", "oneOf"] ∨
      ∃ declared, .directive declared ∈ d' ∧ declared.name = x.name
  accepted : ∀ declared, .directive declared ∈ supplement d → ∀ location x, d.Applies location x →
    x.name = declared.name → declared.repeatable = true ∧ location ∈ declared.locations ∧
      ∀ a ∈ x.arguments, ∃ p ∈ declared.arguments, p.name = a.name
  root : ∃! root, d'.HasQueryRoot root
  service : ∀ root, d'.HasQueryRoot root → d'.StatesField root "_service"
  entities : ∀ t interfaces fields, .type t ∈ d → t.body = .object interfaces fields →
    (∃ x ∈ t.directives, x.IsKey) →
      (∃ u, .type u ∈ d' ∧ u.extension = false ∧ u.name = "_Entity") ∧
        ∀ root, d'.HasQueryRoot root → d'.StatesField root "_entities"

/-- A document followed by its supplement is complete. -/
theorem augment_completes (d : Document) : Completes d (augment d) where
  fixed := supplement_augment d
  declared _ _ applies := declared_of_applies applies
  accepted _ supplied _ _ applies same := accepts_of_declared supplied applies same
  root := by
    obtain ⟨root, named⟩ := exists_hasQueryRoot (augment d)
    exact ⟨root, named, fun _ named' => named'.eq.trans named.eq.symm⟩
  service root named := by
    obtain ⟨type, said⟩ := serviceField_augment d
    rw [(hasQueryRoot_augment.mp named).eq]
    exact statesField_of_statement said
  entities t interfaces fields part object keyed := by
    obtain ⟨x, stands, key⟩ := keyed
    have some := entities_ne_nil part object stands key
    refine ⟨definesType_iff.mp (definesEntity_augment some), fun root named => ?_⟩
    obtain ⟨type, said⟩ := entitiesField_augment some
    rw [(hasQueryRoot_augment.mp named).eq]
    exact statesField_of_statement said

-- `schema { query: Store }  type Store { shelf: Shelf }
-- type Shelf @fed__key(fields: "id") { id: ID }  type Query { id: ID }`
def storeSchema : Document :=
  let id : FieldDefinition := ⟨none, "id", [], .named "ID" false, []⟩
  [.schema ⟨false, none, [], [(.query, "Store")]⟩,
    .type ⟨false, none, "Store", [], .object [] [⟨none, "shelf", [], .named "Shelf" false, []⟩]⟩,
    .type ⟨false, none, "Shelf", [⟨"fed__key", [⟨"fields", .string "id"⟩]⟩], .object [] [id]⟩,
    .type ⟨false, none, "Query", [], .object [] [id]⟩]

theorem storeSchema_completed :
    supplement (augment storeSchema) = [] ∧ (augment storeSchema).HasQueryRoot "Store" ∧
      (augment storeSchema).StatesField "Store" "_service" ∧
      (augment storeSchema).StatesField "Store" "_entities" ∧
      (∃ u, .type u ∈ augment storeSchema ∧ u.extension = false ∧ u.name = "_Entity") ∧
      ∃ declared, .directive declared ∈ augment storeSchema ∧ declared.name = "fed__key" := by
  have complete := augment_completes storeSchema
  have root : (augment storeSchema).HasQueryRoot "Store" := by
    rw [hasQueryRoot_augment]
    exact @Document.HasQueryRoot.named _ [] _ _ [] [] _ rfl rfl (by simp) (by simp)
  have shelf : .type ⟨false, none, "Shelf", [⟨"fed__key", [⟨"fields", .string "id"⟩]⟩],
      .object [] [⟨none, "id", [], .named "ID" false, []⟩]⟩ ∈ storeSchema := by
    simp [storeSchema]
  obtain ⟨entity, entities⟩ :=
    complete.entities _ _ _ shelf rfl ⟨_, List.mem_cons_self, .inr ⟨"fed", rfl⟩⟩
  have declared := complete.declared _ _
    (.type (List.mem_append_left _ shelf) List.mem_cons_self)
  exact ⟨complete.fixed, root, complete.service _ root, entities _ root, entity,
    declared.resolve_left (by decide)⟩

end FederatedMock
