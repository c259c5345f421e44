import FederatedMock.Ordered.Basic

namespace FederatedMock.Yaml

structure Tag where
  handle : String
  suffix : String
deriving DecidableEq, Repr

inductive Node where
  | scalar (text : String) (plain : Bool) (tag : Option Tag)
  | sequence (items : List Node)
  | mapping (entries : List (Node × Node))
deriving Inhabited

namespace Node

def empty : Node := .scalar "~" true none

def withTag (tag : Option Tag) : Node → Node
  | .scalar text plain own => .scalar text plain (tag <|> own)
  | node => node

def text? : Node → Option String
  | .scalar text _ _ => some text
  | _ => none

private def isNullText (text : String) : Bool := text == "~" || text == "null"

def optionalText? : Node → Option (Option String)
  | .scalar text plain tag =>
    if !plain then some (some text)
    else if tag = some ⟨"!!", "null"⟩ then if isNullText text then some none else none
    else if tag.isNone && isNullText text then some none
    else some (some text)
  | _ => none

private def boolean? : String → Option Bool
  | "true" => some true
  | "false" => some false
  | _ => none

def truth? : Node → Option Bool
  | .scalar text plain tag =>
    match tag with
    | some tag => if tag = ⟨"!!", "bool"⟩ then boolean? text else none
    | none => if plain then boolean? text else none
  | _ => none

def dictionary? : Node → Option (Members Node)
  | .mapping entries => do
    return Members.ofList (← entries.mapM fun (key, value) => do return (← key.text?, value))
  | _ => none

/-- The fields of a record: the entries of a mapping, each a known field and none twice, or the
items of a sequence, which give the first fields in order. -/
def record? (fields : List String) : Node → Option (Members Node)
  | .mapping entries =>
    entries.foldlM (fun record (key, value) => do
      let name ← key.text?
      if fields.contains name && !record.contains name then return record.insert name value
      else none) ([] : Members Node)
  | .sequence items => if items.length ≤ fields.length then some (fields.zip items) else none
  | .scalar _ _ _ => none

end Node

end FederatedMock.Yaml
