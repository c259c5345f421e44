import FederatedMock.Json.Printer
import FederatedMock.Text.Basic
import FederatedMock.Text.Quoted

namespace FederatedMock

inductive PayloadError where
  | missingField (name : String)
  | unexpectedType (found expected : String)
  | unexpectedValue (found expected : String)
  | unexpectedLength (length : Nat) (expected : String)
  | unknownVariant (name : String) (variants : List String)
deriving DecidableEq, Repr

namespace PayloadError

private def tick (s : String) : String := "`" ++ s ++ "`"

def message : PayloadError → String
  | .missingField name => "missing field " ++ tick name
  | .unexpectedType found expected => s!"invalid type: {found}, expected {expected}"
  | .unexpectedValue found expected => s!"invalid value: {found}, expected {expected}"
  | .unexpectedLength length expected => s!"invalid length {length}, expected {expected}"
  | .unknownVariant name variants =>
    "unknown variant " ++ tick name ++ ", expected " ++ Text.join " or " (variants.map tick)

def describe : Json → String
  | .null => "null"
  | .boolean b => "boolean " ++ tick (toString b)
  | .number (.integer n _) => "integer " ++ tick (toString n)
  | .number (.double d) => "floating point " ++ tick (Number.double d).render
  | .string s => "string " ++ Text.quoted s
  | .array _ => "sequence"
  | .object _ => "map"

end PayloadError

abbrev FieldReader (α : Type) := Json → Except PayloadError α

namespace FieldReader

open PayloadError

variable {α : Type}

def mismatch (expected : String) (v : Json) : Except PayloadError α :=
  .error (.unexpectedType (describe v) expected)

def text : FieldReader String
  | .string s => .ok s
  | v => mismatch "a string" v

def word (bits : Nat) : FieldReader Nat
  | .number (.integer n held) =>
    if 0 ≤ n ∧ n < Nat.pow 2 bits then .ok n.toNat
    else .error (.unexpectedValue (describe (.number (.integer n held))) s!"u{bits}")
  | v => mismatch s!"u{bits}" v

def nothing : FieldReader Unit
  | .null => .ok ()
  | v => mismatch "unit" v

def optional (read : FieldReader α) : FieldReader (Option α)
  | .null => .ok none
  | v => (read v).map some

def listOf (read : FieldReader α) : FieldReader (List α)
  | .array items => items.mapM read
  | v => mismatch "a sequence" v

def mapOf (read : FieldReader α) : FieldReader (Members α)
  | .object members => members.mapM fun m => do return (m.1, ← read m.2)
  | v => mismatch "a map" v

def any : FieldReader Json := .ok

end FieldReader

end FederatedMock
