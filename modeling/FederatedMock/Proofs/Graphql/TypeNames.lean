import FederatedMock.Proofs.Graphql.Names
import FederatedMock.Proofs.Schema.Completion

namespace FederatedMock

open Graphql

structure Graphql.TypeDefinition.Spelled (p : TypeDefinition) : Prop where
  type : IsName p.name
  members : ∀ m ∈ p.body.memberNames, IsName m
  values : ∀ v ∈ p.body.valueNames, IsName v

def Graphql.Definition.Spelled : Definition → Prop
  | .type p => p.Spelled
  | .schema s => ∀ root ∈ s.roots, IsName root.2
  | _ => True

namespace Graphql.Parser

section Lists

variable {α : Type} {Q : α → Prop} {p : Parser α} [FromFront p]

theorem Yields.optionalBetween1 (each : p.Yields Q) (opening close : Char) :
    (optionalBetween1 opening close p).Yields fun as => ∀ a ∈ as, Q a := by
  unfold Parser.optionalBetween1
  refine yields_bind fun next => ?_
  split
  · exact each.between1 opening close
  · exact yields_pure fun _ mem => (List.not_mem_nil mem).elim

theorem Yields.eachAfter (each : p.Yields Q) (mark : Char) (fuel : Nat) :
    (eachAfter mark p fuel).Yields fun as => ∀ a ∈ as, Q a := by
  induction fuel with
  | zero => exact yields_pure fun _ mem => (List.not_mem_nil mem).elim
  | succ fuel ih =>
      unfold Parser.eachAfter
      refine yields_bind fun next => ?_
      split
      · refine yields_bind fun _ => each.bind fun a good => ih.bind fun as others => ?_
        exact yields_pure (List.forall_mem_cons.mpr ⟨good, others⟩)
      · exact yields_pure fun _ mem => (List.not_mem_nil mem).elim

theorem Yields.separated1 (each : p.Yields Q) (mark : Char) :
    (separated1 mark p).Yields fun as => ∀ a ∈ as, Q a := by
  intro ts
  refine yields_bind (fun _ => each.bind fun a good => ?_) ts
  refine (each.eachAfter mark ts.length).bind fun as others => ?_
  exact yields_pure (List.forall_mem_cons.mpr ⟨good, others⟩)

end Lists

theorem yields_enumValue : enumValue.Yields fun v => IsName v.name := by
  unfold enumValue
  refine yields_bind fun text => yields_name.bind fun label named => ?_
  split
  · exact yields_fail
  · exact yields_bind fun directives => yields_pure named

theorem yields_unionMembers : unionMembers.Yields fun members => ∀ m ∈ members, IsName m := by
  unfold unionMembers
  refine yields_bind fun next => ?_
  split
  · exact yields_bind fun _ => yields_name.separated1 '|'
  · exact yields_pure fun _ mem => (List.not_mem_nil mem).elim

theorem yields_rootOperation : rootOperation.Yields fun root => IsName root.2 := by
  unfold rootOperation
  refine yields_bind fun kind => yields_bind fun _ => yields_name.bind fun type named => ?_
  split
  · exact yields_pure named
  · exact yields_fail

section TypeSystem

variable (extension : Bool) (text : Option String)

theorem yields_scalarType :
    (scalarType extension text).Yields TypeDefinition.Spelled := by
  unfold scalarType
  refine yields_name.bind fun label named => yields_bind fun directives => yields_bind fun _ => ?_
  exact yields_pure ⟨named, nofun, nofun⟩

theorem yields_compositeType (interface : Bool) :
    (compositeType extension interface text).Yields TypeDefinition.Spelled := by
  unfold compositeType
  refine yields_name.bind fun label named => yields_bind fun interfaces => ?_
  refine yields_bind fun directives => yields_bind fun fields => yields_bind fun _ => ?_
  cases interface <;> exact yields_pure ⟨named, nofun, nofun⟩

theorem yields_unionType : (unionType extension text).Yields TypeDefinition.Spelled := by
  unfold unionType
  refine yields_name.bind fun label named => yields_bind fun directives => ?_
  refine yields_unionMembers.bind fun members each => yields_bind fun _ => ?_
  exact yields_pure ⟨named, each, nofun⟩

theorem yields_enumType : (enumType extension text).Yields TypeDefinition.Spelled := by
  unfold enumType
  refine yields_name.bind fun label named => yields_bind fun directives => ?_
  refine (yields_enumValue.optionalBetween1 '\x7b' '\x7d').bind fun values each => ?_
  refine yields_bind fun _ => yields_pure ⟨named, nofun, fun v mem => ?_⟩
  obtain ⟨value, listed, rfl⟩ := List.mem_map.mp mem
  exact each value listed

theorem yields_inputType : (inputType extension text).Yields TypeDefinition.Spelled := by
  unfold inputType
  refine yields_name.bind fun label named => yields_bind fun directives => ?_
  exact yields_bind fun fields => yields_bind fun _ => yields_pure ⟨named, nofun, nofun⟩

theorem yields_schemaDefinition :
    (schemaDefinition extension text).Yields fun s => ∀ root ∈ s.roots, IsName root.2 := by
  unfold schemaDefinition
  refine yields_bind fun directives => ?_
  dsimp only
  have finish (roots : List (OperationKind × String)) (named : ∀ root ∈ roots, IsName root.2) :
      Yields (do
        nonEmptyIf extension (directives.isEmpty && roots.isEmpty)
        return (⟨extension, text, directives, roots⟩ : SchemaDefinition))
        fun s => ∀ root ∈ s.roots, IsName root.2 :=
    yields_bind fun _ => yields_pure named
  split
  · exact (yields_rootOperation.optionalBetween1 '\x7b' '\x7d').bind finish
  · exact (yields_rootOperation.between1 '\x7b' '\x7d').bind finish

theorem yields_typeSystem_spelled :
    (typeSystem extension text).Yields Definition.Spelled := by
  unfold typeSystem
  refine yields_bind fun word => ?_
  split
  case h_1 => exact (yields_schemaDefinition extension text).bind fun _ good => yields_pure good
  case h_2 => exact (yields_scalarType extension text).bind fun _ good => yields_pure good
  case h_3 => exact (yields_compositeType extension text false).bind fun _ good => yields_pure good
  case h_4 => exact (yields_compositeType extension text true).bind fun _ good => yields_pure good
  case h_5 => exact (yields_unionType extension text).bind fun _ good => yields_pure good
  case h_6 => exact (yields_enumType extension text).bind fun _ good => yields_pure good
  case h_7 => exact (yields_inputType extension text).bind fun _ good => yields_pure good
  case h_8 =>
    split
    · exact yields_fail
    · exact yields_bind fun _ => yields_pure trivial
  case h_9 => exact yields_fail

end TypeSystem

theorem yields_definition_spelled : definition.Yields Definition.Spelled := by
  unfold definition
  refine yields_bind fun text => ?_
  split
  · exact yields_typeSystem_spelled false _
  · refine yields_bind fun next => ?_
    split
    · exact yields_bind fun _ => yields_pure trivial
    · split
      · exact yields_bind fun _ => yields_bind fun _ => yields_pure trivial
      · split
        · exact yields_bind fun _ => yields_bind fun _ => yields_pure trivial
        · split
          · exact yields_bind fun _ => yields_typeSystem_spelled true none
          · exact yields_typeSystem_spelled false none
    · exact yields_fail

end Graphql.Parser

def Graphql.Document.Spelled (d : Document) : Prop :=
  ∀ x ∈ d, x.Spelled

theorem spelled_of_parse {text : String} {d : Document} (parsed : Document.parse? text = some d) :
    d.Spelled :=
  forall_mem_of_parse Parser.yields_definition_spelled parsed

section Spelled

variable {d : Document}

theorem Graphql.Document.Spelled.isName_of_statement (spelled : d.Spelled) {name : String}
    {kind : TypeKind} {clause : Clause} (said : ⟨name, kind, clause⟩ ∈ d.statements) :
    IsName name := by
  obtain ⟨p, mem, ⟨rfl, -⟩, -⟩ := mem_statements.mp said
  exact (spelled _ (mem_typeParts.mp mem)).type

theorem isName_queryRoot (spelled : d.Spelled) : IsName d.queryRoot := by
  unfold Document.queryRoot
  cases last : (d.flatMap Document.queryRoots).getLast? with
  | none => exact ⟨'Q', ['u', 'e', 'r', 'y'], rfl, rfl, List.all_eq_true.mp rfl⟩
  | some root =>
      obtain ⟨x, mem, listed⟩ := List.mem_flatMap.mp (List.mem_of_getLast? last)
      cases x with
      | schema s =>
          obtain ⟨stated, root, rfl⟩ := List.mem_map.mp listed
          exact spelled _ mem stated (List.mem_filter.mp root).1
      | _ => cases listed

theorem spelled_augment (spelled : d.Spelled) : Document.Spelled (augment d) := by
  intro x mem
  rcases List.mem_append.mp mem with stated | supplied
  · exact spelled x stated
  · cases mem_supplement_iff.mp supplied with
    | anyScalar missing =>
        exact ⟨⟨'_', ['A', 'n', 'y'], rfl, rfl, List.all_eq_true.mp rfl⟩, nofun, nofun⟩
    | service missing =>
        have named : IsName serviceType :=
          ⟨'_', ['S', 'e', 'r', 'v', 'i', 'c', 'e'], rfl, rfl, List.all_eq_true.mp rfl⟩
        exact ⟨named, nofun, nofun⟩
    | entity some missing =>
        have named : IsName entityUnion :=
          ⟨'_', ['E', 'n', 't', 'i', 't', 'y'], rfl, rfl, List.all_eq_true.mp rfl⟩
        refine ⟨named, fun m mem => ?_, nofun⟩
        obtain ⟨_, -, said⟩ := mem_entities.mp mem
        exact spelled.isName_of_statement said
    | directive listed => trivial
    | root some => exact ⟨isName_queryRoot spelled, nofun, nofun⟩

end Spelled

end FederatedMock
