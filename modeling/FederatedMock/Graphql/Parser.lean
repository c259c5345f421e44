import FederatedMock.Graphql.Syntax
import FederatedMock.Graphql.Token

/-!
# Parsing GraphQL documents

A descent over the tokens by the grammar of the specification. Selection sets, lists within values
and lists within types may nest 500 levels; a selection set and the values within it count
together. Every failure is the same: the text is no document.
-/

namespace FederatedMock.Graphql

abbrev Parser (α : Type) := List Token → Option (α × List Token)

namespace Parser

def maxLevels : Nat := 500

def ok {α : Type} (a : α) : Parser α := fun ts => some (a, ts)

def fail {α : Type} : Parser α := fun _ => none

def bind {α β : Type} (p : Parser α) (f : α → Parser β) : Parser β := fun ts =>
  match p ts with
  | some (a, rest) => f a rest
  | none => none

instance : Monad Parser where
  pure := ok
  bind := bind

def peek : Parser (Option Token) := fun ts => some (ts.head?, ts)

def isNext (c : Char) : Parser Bool := fun ts => some (ts.head? == some (.punctuator c), ts)

def isNextName (s : String) : Parser Bool := fun ts => some (ts.head? == some (.name s), ts)

def expect (c : Char) : Parser Unit
  | .punctuator d :: rest => if c = d then some ((), rest) else none
  | _ => none

def name : Parser String
  | .name s :: rest => some (s, rest)
  | _ => none

def keyword (s : String) : Parser Unit
  | .name t :: rest => if s = t then some ((), rest) else none
  | _ => none

def skip (c : Char) : Parser Unit
  | .punctuator d :: rest => if c = d then some ((), rest) else some ((), .punctuator d :: rest)
  | ts => some ((), ts)

/-- `p` again and again until the closing punctuator, which is taken. Each run takes a token at
least, so the number of tokens is fuel enough. -/
def untilClose {α : Type} (close : Char) (p : Parser α) : Nat → Parser (List α)
  | 0 => fail
  | fuel + 1 => fun ts =>
    match ts with
    | [] => none
    | t :: rest =>
      if t = .punctuator close then some ([], rest)
      else
        match p (t :: rest) with
        | some (a, after) =>
          match untilClose close p fuel after with
          | some (as, after) => some (a :: as, after)
          | none => none
        | none => none

def between {α : Type} (opening close : Char) (p : Parser α) : Parser (List α) := fun ts =>
  (do expect opening; untilClose close p (ts.length + 1)) ts

def between1 {α : Type} (opening close : Char) (p : Parser α) : Parser (List α) := do
  match ← between opening close p with
  | [] => fail
  | as => return as

def optionalBetween1 {α : Type} (opening close : Char) (p : Parser α) : Parser (List α) := do
  if ← isNext opening then between1 opening close p else return []

def eachAfter {α : Type} (mark : Char) (p : Parser α) : Nat → Parser (List α)
  | 0 => ok []
  | fuel + 1 => do
    if ← isNext mark then
      expect mark
      let a ← p
      let as ← eachAfter mark p fuel
      return a :: as
    else return []

def separated1 {α : Type} (mark : Char) (p : Parser α) : Parser (List α) := fun ts =>
  (do
    skip mark
    let a ← p
    let as ← eachAfter mark p ts.length
    return a :: as) ts

/-! ## Values and types -/

private def literalName (s : String) : Value :=
  match s with
  | "true" => .boolean true
  | "false" => .boolean false
  | "null" => .null
  | s => .enumerator s

def valueWith (constant : Bool) (nested : Parser Value) : Parser Value := fun ts =>
  match ts with
  | .name s :: rest => some (literalName s, rest)
  | .int text :: rest => some (.int text, rest)
  | .float text :: rest => some (.float text, rest)
  | .string s :: rest => some (.string s, rest)
  | .punctuator '$' :: .name s :: rest => if constant then none else some (.variable s, rest)
  | .punctuator '[' :: _ =>
    (between '[' ']' nested ts).map fun (items, rest) => (.list items, rest)
  | .punctuator '\x7b' :: _ =>
    let field : Parser (String × Value) := do
      let key ← name
      expect ':'
      return (key, ← nested)
    (between '\x7b' '\x7d' field ts).map fun (fields, rest) => (.object fields, rest)
  | _ => none

def value (constant : Bool) : Nat → Parser Value
  | 0 => valueWith constant fail
  | levels + 1 => valueWith constant (value constant levels)

def nonNullMark : Parser Bool := do
  if ← isNext '!' then
    expect '!'
    return true
  else return false

def typeRefWith (nested : Parser TypeRef) : Parser TypeRef := do
  if ← isNext '[' then
    expect '['
    let item ← nested
    expect ']'
    return .list item (← nonNullMark)
  else
    let base ← name
    return .named base (← nonNullMark)

def typeRef : Nat → Parser TypeRef
  | 0 => typeRefWith fail
  | levels + 1 => typeRefWith (typeRef levels)

/-! ## Arguments and directives -/

def argument (constant : Bool) (levels : Nat) : Parser Argument := do
  let key ← name
  expect ':'
  return ⟨key, ← value constant levels⟩

def arguments (constant : Bool) (levels : Nat) : Parser (List Argument) :=
  optionalBetween1 '(' ')' (argument constant levels)

def directives (constant : Bool) (levels : Nat) : Parser (List Directive) := fun ts =>
  eachAfter '@' (do return ⟨← name, ← arguments constant levels⟩) ts.length ts

/-! ## Selections -/

def selection (levels : Nat) (set : Parser (List Selection)) : Parser Selection := do
  match ← peek with
  | some .ellipsis => spreadOrInline
  | _ =>
    let first ← name
    let (alias?, fieldName) ← if ← isNext ':' then (do
        expect ':'
        return (some first, ← name))
      else pure (none, first)
    let args ← arguments false levels
    let dirs ← directives false levels
    let selections ← if ← isNext '\x7b' then set else pure []
    return .field alias? fieldName args dirs selections
where
  spreadOrInline : Parser Selection := do
    let _ ← fun (ts : List Token) => some ((), ts.drop 1)
    match ← peek with
    | some (.name "on") =>
      keyword "on"
      let condition ← name
      let dirs ← directives false levels
      return .inline (some condition) dirs (← set)
    | some (.name fragment) =>
      keyword fragment
      return .spread fragment (← directives false levels)
    | _ =>
      let dirs ← directives false levels
      return .inline none dirs (← set)

def selectionSet : Nat → Parser (List Selection)
  | 0 => fail
  | levels + 1 => between1 '\x7b' '\x7d' (selection levels (selectionSet levels))

/-! ## Operations and fragments -/

def defaultValue : Parser (Option Value) := do
  if ← isNext '=' then
    expect '='
    return some (← value true maxLevels)
  else return none

def variableDefinition : Parser VariableDefinition := do
  expect '$'
  let key ← name
  expect ':'
  let type ← typeRef maxLevels
  let default ← defaultValue
  return ⟨key, type, default, ← directives true maxLevels⟩

def operation (kind : OperationKind) : Parser Operation := do
  let label ← match ← peek with
    | some (.name s) => do keyword s; pure (some s)
    | _ => pure none
  let defined ← optionalBetween1 '(' ')' variableDefinition
  let dirs ← directives false maxLevels
  return ⟨kind, label, defined, dirs, ← selectionSet maxLevels⟩

def fragment : Parser Fragment := do
  let label ← name
  if label = "on" then fail
  else
    keyword "on"
    let condition ← name
    let dirs ← directives false maxLevels
    return ⟨label, condition, dirs, ← selectionSet maxLevels⟩

/-! ## Type system -/

def description : Parser (Option String)
  | .string s :: rest => some (some s, rest)
  | ts => some (none, ts)

def inputValue : Parser InputValue := do
  let text ← description
  let label ← name
  expect ':'
  let type ← typeRef maxLevels
  let default ← defaultValue
  return ⟨text, label, type, default, ← directives true maxLevels⟩

def fieldDefinition : Parser FieldDefinition := do
  let text ← description
  let label ← name
  let arguments ← optionalBetween1 '(' ')' inputValue
  expect ':'
  let type ← typeRef maxLevels
  return ⟨text, label, arguments, type, ← directives true maxLevels⟩

def enumValue : Parser EnumValue := do
  let text ← description
  let label ← name
  if ["true", "false", "null"].contains label then fail
  else return ⟨text, label, ← directives true maxLevels⟩

def implementsList : Parser (List String) := do
  if ← isNextName "implements" then
    keyword "implements"
    separated1 '&' name
  else return []

def unionMembers : Parser (List String) := do
  if ← isNext '=' then
    expect '='
    separated1 '|' name
  else return []

def nonEmptyIf (extension : Bool) (isEmpty : Bool) : Parser Unit :=
  if extension && isEmpty then fail else ok ()

def scalarType (extension : Bool) (text : Option String) : Parser TypeDefinition := do
  let label ← name
  let dirs ← directives true maxLevels
  nonEmptyIf extension dirs.isEmpty
  return ⟨extension, text, label, dirs, .scalar⟩

def compositeType (extension interface : Bool) (text : Option String) :
    Parser TypeDefinition := do
  let label ← name
  let interfaces ← implementsList
  let dirs ← directives true maxLevels
  let fields ← optionalBetween1 '\x7b' '\x7d' fieldDefinition
  nonEmptyIf extension (interfaces.isEmpty && dirs.isEmpty && fields.isEmpty)
  return ⟨extension, text, label, dirs,
    if interface then .interface interfaces fields else .object interfaces fields⟩

def unionType (extension : Bool) (text : Option String) : Parser TypeDefinition := do
  let label ← name
  let dirs ← directives true maxLevels
  let members ← unionMembers
  nonEmptyIf extension (dirs.isEmpty && members.isEmpty)
  return ⟨extension, text, label, dirs, .union members⟩

def enumType (extension : Bool) (text : Option String) : Parser TypeDefinition := do
  let label ← name
  let dirs ← directives true maxLevels
  let values ← optionalBetween1 '\x7b' '\x7d' enumValue
  nonEmptyIf extension (dirs.isEmpty && values.isEmpty)
  return ⟨extension, text, label, dirs, .enumeration values⟩

def inputType (extension : Bool) (text : Option String) : Parser TypeDefinition := do
  let label ← name
  let dirs ← directives true maxLevels
  let fields ← optionalBetween1 '\x7b' '\x7d' inputValue
  nonEmptyIf extension (dirs.isEmpty && fields.isEmpty)
  return ⟨extension, text, label, dirs, .input fields⟩

def operationKind? (s : String) : Option OperationKind :=
  match s with
  | "query" => some .query
  | "mutation" => some .mutation
  | "subscription" => some .subscription
  | _ => none

def rootOperation : Parser (OperationKind × String) := do
  let kind ← name
  expect ':'
  let type ← name
  match operationKind? kind with
  | some kind => return (kind, type)
  | none => fail

def schemaDefinition (extension : Bool) (text : Option String) :
    Parser SchemaDefinition := do
  let dirs ← directives true maxLevels
  let roots ← if extension then optionalBetween1 '\x7b' '\x7d' rootOperation
    else between1 '\x7b' '\x7d' rootOperation
  nonEmptyIf extension (dirs.isEmpty && roots.isEmpty)
  return ⟨extension, text, dirs, roots⟩

def directiveLocations : List String :=
  ["QUERY", "MUTATION", "SUBSCRIPTION", "FIELD", "FRAGMENT_DEFINITION", "FRAGMENT_SPREAD",
    "INLINE_FRAGMENT", "VARIABLE_DEFINITION", "SCHEMA", "SCALAR", "OBJECT", "FIELD_DEFINITION",
    "ARGUMENT_DEFINITION", "INTERFACE", "UNION", "ENUM", "ENUM_VALUE", "INPUT_OBJECT",
    "INPUT_FIELD_DEFINITION"]

def location : Parser String := do
  let label ← name
  if directiveLocations.contains label then return label else fail

def directiveDefinition (text : Option String) : Parser DirectiveDefinition := do
  expect '@'
  let label ← name
  let arguments ← optionalBetween1 '(' ')' inputValue
  let repeatable ← isNextName "repeatable"
  if repeatable then keyword "repeatable"
  keyword "on"
  return ⟨text, label, arguments, repeatable, ← separated1 '|' location⟩

def typeSystem (extension : Bool) (text : Option String) : Parser Definition := do
  match ← name with
  | "schema" => return .schema (← schemaDefinition extension text)
  | "scalar" => return .type (← scalarType extension text)
  | "type" => return .type (← compositeType extension false text)
  | "interface" => return .type (← compositeType extension true text)
  | "union" => return .type (← unionType extension text)
  | "enum" => return .type (← enumType extension text)
  | "input" => return .type (← inputType extension text)
  | "directive" => if extension then fail else return .directive (← directiveDefinition text)
  | _ => fail

/-! ## Documents -/

def definition : Parser Definition := do
  match ← description with
  | some text => typeSystem false (some text)
  | none =>
    match ← peek with
    | some (.punctuator '\x7b') =>
      return .operation ⟨.query, none, [], [], ← selectionSet maxLevels⟩
    | some (.name word) =>
      match operationKind? word with
      | some kind =>
        keyword word
        return .operation (← operation kind)
      | none =>
        if word = "fragment" then
          keyword word
          return .fragment (← fragment)
        else if word = "extend" then
          keyword word
          typeSystem true none
        else typeSystem false none
    | _ => fail

def definitions : Nat → List Token → Option (List Definition)
  | _, [] => some []
  | 0, _ => none
  | fuel + 1, ts =>
    match definition ts with
    | some (d, rest) => (definitions fuel rest).map (d :: ·)
    | none => none

end Parser

def Document.parse? (text : String) : Option Document :=
  match lex text with
  | some ts =>
    match Parser.definitions ts.length ts with
    | some [] => none
    | result => result
  | none => none

end FederatedMock.Graphql
