import FederatedMock.Schema.TypeSystem
import FederatedMock.Json.NumberText

/-!
# Validation of type systems

Every offence against the rules of the type system is one problem. `schemaProblems` gives those of
the way a document is put together; only if there are none does it look at what is put together.
-/

namespace FederatedMock

open Graphql

namespace TypeSystem

variable (s : TypeSystem)

def type? (name : String) : Option ResolvedType :=
  s.types.get? name

private def isInputBody : TypeBody → Bool
  | .scalar => true
  | .enumeration _ => true
  | .input _ => true
  | _ => false

private def isOutputBody : TypeBody → Bool
  | .input _ => false
  | _ => true

private def interface? (name : String) : Option (List String × List FieldDefinition) :=
  match s.type? name with
  | some t => match t.body with
    | .interface interfaces fields => some (interfaces, fields)
    | _ => none
  | none => none

private def reserved (name : String) : List SchemaProblem :=
  if name.toList.take 2 == ['_', '_'] then [.reservedName name] else []

/-! ## Values -/

private def fitsInt (text : String) : Bool :=
  match text.toInt? with
  | some n => -2147483648 ≤ n && n ≤ 2147483647
  | none => false

private def fitsFloat (text : String) : Bool :=
  (Number.ofDecimalText? text.toList).isSome

private def scalarTakes (t : ResolvedType) (v : Value) : Bool :=
  if !t.builtIn then true
  else
    match v with
    | .int text =>
      t.name == "ID" || (t.name == "Float" && fitsFloat text) || (t.name == "Int" && fitsInt text)
    | .float text => t.name == "Float" && fitsFloat text
    | .string _ => t.name == "String" || t.name == "ID"
    | .boolean _ => t.name == "Boolean"
    | _ => false

private def isCustomScalar (t : ResolvedType) : Bool :=
  match t.body with
  | .scalar => !t.builtIn
  | _ => false

private def itemType : TypeRef → TypeRef
  | .list item _ => item
  | t => t

private def isList : TypeRef → Bool
  | .list _ _ => true
  | .named _ _ => false

private def isNullValue : Value → Bool
  | .null => true
  | _ => false

private def isRequired (v : InputValue) : Bool :=
  v.type.isNonNull && v.default.isNone

private def missingFields (type : String) (fields : List InputValue)
    (given : List (String × Value)) : List SchemaProblem :=
  (fields.filter fun f =>
    isRequired f && (given.all (fun g => g.1 != f.name) ||
      given.any fun g => g.1 == f.name && isNullValue g.2)).map fun _ => .wrongValue type

private def wrong (type : TypeRef) : List SchemaProblem := [.wrongValue type.text]

private def leafProblems (type : TypeRef) (v : Value) : List SchemaProblem :=
  match s.type? type.base with
  | none => []
  | some t =>
    match v, t.body with
    | .null, _ => if type.isNonNull then wrong type else []
    | .variable _, _ => []
    | .enumerator name, .enumeration values =>
      if values.any fun e => e.name == name then [] else wrong type
    | .enumerator _, .scalar => if t.builtIn then wrong type else []
    | .enumerator _, _ => wrong type
    | v, .scalar => if scalarTakes t v then [] else wrong type
    | _, _ => wrong type

private inductive Inside (α : Type) where
  | anything
  | nothing
  | only (a : α)

private def expectedItem (type : TypeRef) : Inside TypeRef :=
  match s.type? type.base with
  | none => .anything
  | some t =>
    if isCustomScalar t then .only (itemType type)
    else if isList type && isInputBody t.body then .only (itemType type)
    else .nothing

private def expectedFields (type : TypeRef) : Inside (List InputValue) :=
  match s.type? type.base with
  | none => .anything
  | some t =>
    match t.body with
    | .input fields => .only fields
    | .scalar => if t.builtIn then .nothing else .anything
    | _ => .nothing

mutual

def valueProblems (type : TypeRef) : Value → List SchemaProblem
  | .list items =>
    match expectedItem s type with
    | .anything => []
    | .nothing => wrong type
    | .only item => itemProblems item items
  | .object given =>
    match expectedFields s type with
    | .anything => []
    | .nothing => wrong type
    | .only fields =>
      let unknown := given.any fun g => !fields.any fun f => f.name == g.1
      (if unknown then wrong type else []) ++ missingFields type.text fields given ++
        fieldProblems fields [] given
  | v => leafProblems s type v

def itemProblems (type : TypeRef) : List Value → List SchemaProblem
  | [] => []
  | v :: rest => valueProblems type v ++ itemProblems type rest

/-- The problems within the fields of an object. Only the first value of a field counts; `before`
are the fields that already have one. -/
def fieldProblems (fields : List InputValue) (before : List String) :
    List (String × Value) → List SchemaProblem
  | [] => []
  | (key, v) :: rest =>
    let own := match fields.find? fun f => f.name == key with
      | some f => if before.contains key then [] else valueProblems f.type v
      | none => []
    own ++ fieldProblems fields (key :: before) rest

end

/-! ## Applied directives -/

private def repeatedNames (names : List String) : List String :=
  (names.foldl (fun (seen, again) name =>
    if seen.contains name then (seen, again ++ [name]) else (seen ++ [name], again))
    (([] : List String), ([] : List String))).2

private def argumentProblems (definition : DirectiveDefinition) (d : Directive) :
    List SchemaProblem :=
  let given := d.arguments.flatMap fun a =>
    match definition.arguments.find? fun p => p.name == a.name with
    | some p => valueProblems s p.type a.value
    | none => [.undefinedArgument d.name a.name]
  let missing := definition.arguments.filter fun p =>
    isRequired p &&
      match d.arguments.find? fun a => a.name == p.name with
      | some a => isNullValue a.value
      | none => true
  given ++ missing.map fun p => .missingArgument d.name p.name

private def applicationProblems (location : String) (before : List String) (d : Directive) :
    List SchemaProblem :=
  let again := (repeatedNames (d.arguments.map Argument.name)).map .repeatedArgument
  again ++
    match s.directives.get? d.name with
    | none => [.undefinedDirective d.name]
    | some definition =>
      (if before.contains d.name && !definition.repeatable then [.repeatedDirective d.name]
        else []) ++
        (if definition.locations.contains location then [] else [.wrongLocation d.name location]) ++
        argumentProblems s definition d

def directiveProblems (location : String) (directives : List Directive) : List SchemaProblem :=
  (directives.foldl (fun (before, problems) d =>
    (before ++ [d.name], problems ++ applicationProblems s location before d))
    (([] : List String), ([] : List SchemaProblem))).2

/-! ## Fields and arguments -/

private def inputProblems (location : String) (values : List InputValue) : List SchemaProblem :=
  values.flatMap fun v =>
    reserved v.name ++ directiveProblems s location v.directives ++
      match s.type? v.type.base with
      | none => [.undefinedType v.type.base]
      | some t => if isInputBody t.body then [] else [.notInputType v.name]

private def parameterProblems (values : List InputValue) : List SchemaProblem :=
  inputProblems s "ARGUMENT_DEFINITION" values ++
    (repeatedNames (values.map InputValue.name)).map .repeatedArgumentDefinition

private def fieldDefinitionProblems (fields : List FieldDefinition) : List SchemaProblem :=
  fields.flatMap fun f =>
    reserved f.name ++ directiveProblems s "FIELD_DEFINITION" f.directives ++
      parameterProblems s f.arguments ++
      match s.type? f.type.base with
      | none => [.undefinedType f.type.base]
      | some t => if isOutputBody t.body then [] else [.notOutputType f.name]

/-! ## Interfaces -/

private def isSubtype (sub super : String) : Bool :=
  sub == super ||
    (match s.type? super with
      | some t => match t.body with
        | .union members => members.contains sub
        | .interface _ _ =>
          match s.type? sub with
          | some t' => match t'.body with
            | .object interfaces _ => interfaces.contains super
            | .interface interfaces _ => interfaces.contains super
            | _ => false
          | none => false
        | _ => false
      | none => false)

private def refines : TypeRef → TypeRef → Bool
  | .named sub nonNull, .named super nonNull' => (nonNull || !nonNull') && isSubtype s sub super
  | .list item nonNull, .list item' nonNull' => (nonNull || !nonNull') && refines item item'
  | _, _ => false

private def implementedFieldProblems (typeName : String) (own declared : FieldDefinition) :
    List SchemaProblem :=
  (if refines s own.type declared.type then [] else [.unlikeInterfaceField typeName own.name]) ++
    (declared.arguments.flatMap fun p =>
      match own.arguments.find? fun q => q.name == p.name with
      | none => [.missingInterfaceArgument typeName own.name p.name]
      | some q =>
        if q.type = p.type then [] else [.unlikeInterfaceArgument typeName own.name p.name]) ++
    ((own.arguments.filter fun q =>
      isRequired q && !declared.arguments.any fun p => p.name == q.name).map fun q =>
        .requiredExtraArgument typeName own.name q.name)

private def implementsProblems (typeName : String) (interfaces : List String)
    (fields : List FieldDefinition) : List SchemaProblem :=
  interfaces.flatMap fun name =>
    match interface? s name with
    | none => [if (s.type? name).isSome then .notInterface name else .undefinedType name]
    | some (inherited, declared) =>
      ((inherited.filter fun i => !interfaces.contains i).map
        (.missingTransitiveInterface typeName)) ++
      declared.flatMap fun f =>
        match fields.find? fun g => g.name == f.name with
        | some g => implementedFieldProblems s typeName g f
        | none => [.missingInterfaceField typeName f.name]

/-! ## Cycles -/

private def reachable (next : String → List String) : Nat → List String → List String
  | 0, found => found
  | fuel + 1, found =>
    let more := Names.addAll found (found.flatMap next)
    if more.length = found.length then found else reachable next fuel more

private def nonNullInputs (name : String) : List String :=
  match s.type? name with
  | some t => match t.body with
    | .input fields => fields.filterMap fun f =>
      match f.type with
      | .named base true => some base
      | _ => none
    | _ => []
  | none => []

private def isInCycle (next : String → List String) (size : Nat) (name : String) : Bool :=
  (reachable next size (Names.ofList (next name))).contains name

private def directiveMark (name : String) : String := "@" ++ name

private def inputReferences (v : InputValue) : List String :=
  v.type.base :: v.directives.map fun d => directiveMark d.name

private def references (name : String) : List String :=
  match name.toList with
  | '@' :: directive =>
    match s.directives.get? (String.ofList directive) with
    | some definition => definition.arguments.flatMap inputReferences
    | none => []
  | _ =>
    match s.type? name with
    | some t =>
      (t.directives.map fun d => directiveMark d.name) ++ match t.body with
        | .enumeration values =>
          values.flatMap fun v => v.directives.map fun d => directiveMark d.name
        | .input fields => fields.flatMap inputReferences
        | _ => []
    | none => []

private def definitionProblems (d : DirectiveDefinition) : List SchemaProblem :=
  reserved d.name ++ parameterProblems s d.arguments ++
    if isInCycle (references s) (s.types.length + s.directives.length) (directiveMark d.name) then
      [.directiveCycle d.name]
    else []

/-! ## Types -/

private def oneOfProblems (t : ResolvedType) (fields : List InputValue) : List SchemaProblem :=
  if t.directives.any fun d => d.name == "oneOf" then
    fields.flatMap fun f =>
      (if f.type.isNonNull then [.nonNullOneOfField t.name f.name] else []) ++
        (if f.default.isSome then [.defaultInOneOfField t.name f.name] else [])
  else []

private def memberProblems (members : List String) : List SchemaProblem :=
  members.flatMap fun name =>
    match s.type? name with
    | none => [.undefinedType name]
    | some t => match t.body with
      | .object _ _ => []
      | _ => [.memberNotObject name]

private def emptyIf (t : ResolvedType) (isEmpty : Bool) : List SchemaProblem :=
  if isEmpty then [.emptyType t.name] else []

private def bodyProblems (t : ResolvedType) : List SchemaProblem :=
  match t.body with
  | .scalar => directiveProblems s "SCALAR" t.directives
  | .object interfaces fields =>
    directiveProblems s "OBJECT" t.directives ++ emptyIf t fields.isEmpty ++
      fieldDefinitionProblems s fields ++ implementsProblems s t.name interfaces fields
  | .interface interfaces fields =>
    directiveProblems s "INTERFACE" t.directives ++ emptyIf t fields.isEmpty ++
      fieldDefinitionProblems s fields ++
      (if interfaces.contains t.name then [.implementsItself t.name] else []) ++
      implementsProblems s t.name interfaces fields
  | .union members =>
    directiveProblems s "UNION" t.directives ++ emptyIf t members.isEmpty ++
      memberProblems s members
  | .enumeration values =>
    directiveProblems s "ENUM" t.directives ++ emptyIf t values.isEmpty ++
      values.flatMap fun v => reserved v.name ++ directiveProblems s "ENUM_VALUE" v.directives
  | .input fields =>
    directiveProblems s "INPUT_OBJECT" t.directives ++ emptyIf t fields.isEmpty ++
      inputProblems s "INPUT_FIELD_DEFINITION" fields ++ oneOfProblems t fields ++
      (if isInCycle (nonNullInputs s) s.types.length t.name then [.inputCycle t.name] else [])

private def isIntrospection (t : ResolvedType) : Bool :=
  t.builtIn && match t.body with
    | .scalar => false
    | _ => true

private def typeProblems (t : ResolvedType) : List SchemaProblem :=
  if isIntrospection t then []
  else (if t.builtIn then [] else reserved t.name) ++ bodyProblems s t

/-! ## Roots -/

private def namedRoots : List String :=
  [s.roots.query, s.roots.mutation, s.roots.subscription].filterMap id

def rootProblems : List SchemaProblem :=
  (if s.roots.query.isNone then [.missingQueryRoot] else []) ++
    ((namedRoots s).flatMap fun name =>
      match s.type? name with
      | none => [.undefinedType name]
      | some t => match t.body with
        | .object _ _ => []
        | _ => [.rootNotObject name]) ++
    (repeatedNames (namedRoots s)).map .rootUsedTwice

def problems : List SchemaProblem :=
  rootProblems s ++ directiveProblems s "SCHEMA" s.schemaDirectives ++
    (s.directives.flatMap fun (_, d) => definitionProblems s d) ++
    s.types.flatMap fun (_, t) => typeProblems s t

end TypeSystem

def validateSchema (d : Document) : Except SchemaError TypeSystem :=
  match TypeSystem.ofDocument d with
  | (s, []) =>
    match s.problems with
    | [] => .ok s
    | problems => .error (.invalid problems)
  | (_, problems) => .error (.invalid problems)

end FederatedMock
