import FederatedMock.Decimal.Double
import FederatedMock.Ordered.Basic

namespace FederatedMock

def IsWordSized (n : Int) : Prop := -0x8000000000000000 ≤ n ∧ n < 0x10000000000000000

instance (n : Int) : Decidable (IsWordSized n) := inferInstanceAs (Decidable (_ ∧ _))

inductive Number where
  | integer (n : Int) (held : IsWordSized n)
  | double (d : Double)
deriving DecidableEq

inductive Json where
  | null
  | boolean (b : Bool)
  | number (n : Number)
  | string (s : String)
  | array (items : List Json)
  | object (members : List (String × Json))

namespace Number

def ofInt? (n : Int) : Option Number :=
  if h : IsWordSized n then some (.integer n h) else none

def zero : Number := .integer 0 (by decide)
def one : Number := .integer 1 (by decide)

def isZero : Number → Bool
  | .integer n _ => n == 0
  | .double d => d.isZero

end Number

namespace Json

instance : Inhabited Json := ⟨.null⟩

def typeName : Json → String
  | .null => "null"
  | .boolean _ => "boolean"
  | .number _ => "number"
  | .string _ => "string"
  | .array _ => "array"
  | .object _ => "object"

def ofNat (n : Nat) (h : IsWordSized n := by decide) : Json := .number (.integer n h)

def get? (key : String) : Json → Option Json
  | .object members => Members.get? key members
  | _ => none

def isNull : Json → Bool
  | .null => true
  | _ => false

end Json

end FederatedMock
