import FederatedMock.Graphql.Syntax
import FederatedMock.Graphql.BlockString
import FederatedMock.Text.Basic

namespace FederatedMock.Graphql

namespace Printer

inductive Layout where
  | oneLine
  | lines (indent : Nat)

namespace Layout

def deeper : Layout → Layout
  | .oneLine => .oneLine
  | .lines n => .lines (n + 1)

def lineBreak : Layout → String
  | .oneLine => ""
  | .lines n => "\n" ++ String.ofList (List.replicate (2 * n) ' ')

end Layout

private def upperHex (n : Nat) : Char :=
  if n < 10 then Char.ofNat (n + 48) else Char.ofNat (n + 55)

private def escapeChar (c : Char) : List Char :=
  if c = '"' then ['\\', '"']
  else if c = '\\' then ['\\', '\\']
  else if c = '\x08' then ['\\', 'b']
  else if c = '\n' then ['\\', 'n']
  else if c = '\x0c' then ['\\', 'f']
  else if c = '\r' then ['\\', 'r']
  else if c.toNat < 32 ∧ c ≠ '\t' then
    ['\\', 'u', '0', '0', upperHex (c.toNat / 16), upperHex (c.toNat % 16)]
  else [c]

private def quoted (s : String) : String :=
  "\"" ++ String.ofList (s.toList.flatMap escapeChar) ++ "\""

/-- Whether a block string can have that value: it has no carriage return, its first and its last
line are not blank, and its lines have no indent in common. -/
def fitsBlockString (cs : List Char) : Bool :=
  let lines := splitLines cs
  !cs.contains '\r' && !lines.head?.all isBlankLine && !lines.getLast?.all isBlankLine &&
    commonIndent? lines == some 0

private def escapeQuotes : List Char → List Char
  | '"' :: '"' :: '"' :: rest => '\\' :: '"' :: '"' :: '"' :: escapeQuotes rest
  | c :: rest => c :: escapeQuotes rest
  | [] => []

private def blockString (indent : Nat) (s : String) : String :=
  let cs := s.toList
  let onLines := cs.contains '\n' || s.utf8ByteSize > 70 || cs.getLast? == some '"' ||
    cs.getLast? == some '\\'
  let lines := (splitLines cs).map fun line => String.ofList (escapeQuotes line)
  if onLines then
    let body := lines.map fun line =>
      if line.isEmpty then "\n" else (Layout.lines indent).lineBreak ++ line
    "\"\"\"" ++ Text.join "" body ++ (Layout.lines indent).lineBreak ++ "\"\"\""
  else "\"\"\"" ++ Text.join "\n" lines ++ "\"\"\""

private def stringText (layout : Layout) (isDescription : Bool) (s : String) : String :=
  match layout with
  | .lines indent =>
    if (isDescription || s.toList.contains '\n') && fitsBlockString s.toList then
      blockString indent s
    else quoted s
  | .oneLine => quoted s

private def bracketed (opening closing : String) (layout : Layout) (items : List String) : String :=
  if items.isEmpty then opening ++ closing
  else
    match layout with
    | .oneLine => opening ++ Text.join ", " items ++ closing
    | .lines _ =>
      opening ++ Text.join "" (items.map fun item => layout.deeper.lineBreak ++ item ++ ",") ++
        layout.lineBreak ++ closing

mutual

def valueText (layout : Layout) : Value → String
  | .variable name => "$" ++ name
  | .int text => text
  | .float text => text
  | .string s => stringText layout false s
  | .boolean true => "true"
  | .boolean false => "false"
  | .null => "null"
  | .enumerator name => name
  | .list items => bracketed "[" "]" layout (itemTexts layout.deeper items)
  | .object fields => bracketed "\x7b" "\x7d" layout (fieldTexts layout.deeper fields)

def itemTexts (layout : Layout) : List Value → List String
  | [] => []
  | v :: rest => valueText layout v :: itemTexts layout rest

def fieldTexts (layout : Layout) : List (String × Value) → List String
  | [] => []
  | (key, v) :: rest => (key ++ ": " ++ valueText layout v) :: fieldTexts layout rest

end

def argumentsText (arguments : List Argument) : String :=
  if arguments.isEmpty then ""
  else
    bracketed "(" ")" .oneLine
      (arguments.map fun a => a.name ++ ": " ++ valueText .oneLine a.value)

def directivesText (directives : List Directive) : String :=
  Text.join "" (directives.map fun d => " @" ++ d.name ++ argumentsText d.arguments)

private def block (indent : Nat) (items : List String) : String :=
  if items.isEmpty then ""
  else
    " \x7b" ++ Text.join "" (items.map fun item => (Layout.lines (indent + 1)).lineBreak ++ item) ++
      (Layout.lines indent).lineBreak ++ "\x7d"

mutual

def selectionText (indent : Nat) : Selection → String
  | .field alias? name arguments directives selections =>
    let label := match alias? with
      | some key => key ++ ": " ++ name
      | none => name
    label ++ argumentsText arguments ++ directivesText directives ++
      block indent (selectionTexts (indent + 1) selections)
  | .spread name directives => "..." ++ name ++ directivesText directives
  | .inline condition directives selections =>
    let label := match condition with
      | some name => "... on " ++ name
      | none => "..."
    label ++ directivesText directives ++ block indent (selectionTexts (indent + 1) selections)

def selectionTexts (indent : Nat) : List Selection → List String
  | [] => []
  | s :: rest => selectionText indent s :: selectionTexts indent rest

end

private def descriptionText (indent : Nat) : Option String → String
  | some s => stringText (.lines indent) true s ++ (Layout.lines indent).lineBreak
  | none => ""

private def defaultText (layout : Layout) : Option Value → String
  | some v => " = " ++ valueText layout v
  | none => ""

private def variableText (v : VariableDefinition) : String :=
  "$" ++ v.name ++ ": " ++ v.type.text ++ defaultText .oneLine v.default ++
    directivesText v.directives

private def inputText (layout : Layout) (v : InputValue) : String :=
  let described := match layout with
    | .lines indent => descriptionText indent v.description
    | .oneLine => ""
  described ++ v.name ++ ": " ++ v.type.text ++ defaultText layout v.default ++
    directivesText v.directives

private def parametersText (indent : Nat) (parameters : List InputValue) : String :=
  if parameters.isEmpty then ""
  else
    let layout :=
      if parameters.any fun p => p.description.isSome || !p.directives.isEmpty then
        Layout.lines indent
      else .oneLine
    bracketed "(" ")" layout (parameters.map (inputText layout.deeper))

private def fieldText (indent : Nat) (f : FieldDefinition) : String :=
  descriptionText indent f.description ++ f.name ++ parametersText indent f.arguments ++ ": " ++
    f.type.text ++ directivesText f.directives

private def enumValueText (indent : Nat) (v : EnumValue) : String :=
  descriptionText indent v.description ++ v.name ++ directivesText v.directives

private def interfacesText (interfaces : List String) : String :=
  if interfaces.isEmpty then "" else " implements " ++ Text.join " & " interfaces

private def typeText (t : TypeDefinition) : String :=
  let line (keyword interfaces : String) : String :=
    (if t.extension then "extend " else "") ++ keyword ++ " " ++ t.name ++ interfaces ++
      directivesText t.directives
  descriptionText 0 t.description ++ match t.body with
    | .scalar => line "scalar" ""
    | .object interfaces fields =>
      line "type" (interfacesText interfaces) ++ block 0 (fields.map (fieldText 1))
    | .interface interfaces fields =>
      line "interface" (interfacesText interfaces) ++ block 0 (fields.map (fieldText 1))
    | .union members =>
      line "union" "" ++ (if members.isEmpty then "" else " = " ++ Text.join " | " members)
    | .enumeration values => line "enum" "" ++ block 0 (values.map (enumValueText 1))
    | .input fields => line "input" "" ++ block 0 (fields.map (inputText (.lines 1)))

private def operationText (first : Bool) (o : Operation) : String :=
  let bare := o.kind = .query ∧ o.name.isNone ∧ o.variableDefinitions.isEmpty ∧ o.directives.isEmpty
  let set := block 0 (selectionTexts 1 o.selections)
  if first ∧ bare then String.ofList (set.toList.drop 1)
  else
    let label := match o.name with
      | some name => " " ++ name
      | none => ""
    let defined :=
      if o.variableDefinitions.isEmpty then ""
      else bracketed "(" ")" .oneLine (o.variableDefinitions.map variableText)
    o.kind.text ++ label ++ defined ++ directivesText o.directives ++ set

private def directiveText (d : DirectiveDefinition) : String :=
  descriptionText 0 d.description ++ "directive @" ++ d.name ++ parametersText 0 d.arguments ++
    (if d.repeatable then " repeatable" else "") ++ " on " ++ Text.join " | " d.locations

private def schemaText (s : SchemaDefinition) : String :=
  descriptionText 0 s.description ++ (if s.extension then "extend schema" else "schema") ++
    directivesText s.directives ++
    block 0 (s.roots.map fun (kind, type) => kind.text ++ ": " ++ type)

def definitionText (first : Bool) : Definition → String
  | .operation o => operationText first o
  | .fragment f =>
    "fragment " ++ f.name ++ " on " ++ f.condition ++ directivesText f.directives ++
      block 0 (selectionTexts 1 f.selections)
  | .schema s => schemaText s
  | .directive d => directiveText d
  | .type t => typeText t

end Printer

def Document.text (d : Document) : String :=
  Text.join "\n\n" (d.zipIdx.map fun (definition, i) => Printer.definitionText (i == 0) definition)
    ++ "\n"

end FederatedMock.Graphql
