import FederatedMock.Shape.Basic
import FederatedMock.Json.Printer
import FederatedMock.Json.NumberText
import FederatedMock.Format.DateTime
import FederatedMock.Url.Parser

namespace FederatedMock

def StringFormat.accepts : StringFormat → String → Bool
  | .any, _ => true
  | .dateTime, s => Timestamp.isValid s
  | .localTime, s => LocalTime.isValid s
  | .url, s => Url.isValid s

def StringFormat.complaint : StringFormat → String
  | .any => "Invalid string"
  | .dateTime => "Invalid datetime"
  | .localTime => "Invalid time"
  | .url => "Invalid url"

def mismatch (expected : String) (v : Json) : String :=
  s!"Expected {expected}, received {v.typeName}"

def requiredMessage : String := "Required"

/-- Every scalar can be written as a string, null too. -/
def coerceString : Json → Except String String
  | .null => .ok "null"
  | .string s => .ok s
  | .number n => .ok n.render
  | .boolean b => .ok (if b then "true" else "false")
  | v => .error (mismatch "string" v)

def coerceNumber : Json → Except String Number
  | .null => .ok .zero
  | .number n => .ok n
  | .boolean b => .ok (if b then .one else .zero)
  | .string s =>
    match Number.ofText? s with
    | some n => .ok n
    | none => .error "Expected number, received nan"
  | v => .error (mismatch "number" v)

private def lowerAscii (cs : List Char) : List Char :=
  cs.map Char.toLower

def isFalsySpelling (s : String) : Bool :=
  let cs := Text.trim s.toList
  cs.isEmpty || cs == ['0'] || lowerAscii cs == "false".toList

def coerceBoolean : Json → Except String Bool
  | .null => .ok false
  | .boolean b => .ok b
  | .number n => .ok (!n.isZero)
  | .string s => .ok (!isFalsySpelling s)
  | v => .error (mismatch "boolean" v)

namespace ScalarRule

def coercePresent : ScalarRule → Json → Except String Json
  | .typename name, _ => .ok (.string name)
  | .string format, v =>
    match coerceString v with
    | .ok s => if format.accepts s then .ok (.string s) else .error format.complaint
    | .error message => .error message
  | .number, v => (coerceNumber v).map .number
  | .boolean, v => (coerceBoolean v).map .boolean

def coerce (rule : ScalarRule) : Option Json → Except String Json
  | some v => rule.coercePresent v
  | none =>
    match rule with
    | .typename name => .ok (.string name)
    | _ => .error requiredMessage

end ScalarRule

end FederatedMock
