import FederatedMock.Json.Basic
import FederatedMock.Ordered.Basic

namespace FederatedMock

def typenameKey : String := "__typename"

inductive StringFormat where
  | any
  | dateTime
  | localTime
  | url
deriving DecidableEq, Repr

/-- What a scalar position makes of a value. `typename` gives a known type name, whatever was
there. -/
inductive ScalarRule where
  | string (format : StringFormat)
  | number
  | boolean
  | typename (name : String)
deriving DecidableEq, Repr

def ScalarRule.ofScalar (name : String) : ScalarRule :=
  match name with
  | "String" | "ID" => .string .any
  | "Int" | "Float" => .number
  | "Boolean" => .boolean
  | "DateTime" => .string .dateTime
  | "LocalTime" => .string .localTime
  | "Url" => .string .url
  | _ => .string .any

inductive Shape where
  | scalar (rule : ScalarRule)
  | enumeration (members : List String)
  | list (item : Shape)
  | object (fields : List (String × Shape))
  | variants (choices : List (String × List (String × Shape)))
  | nullable (inner : Shape)
deriving Inhabited

namespace Shape

abbrev Fields := Members Shape

abbrev Variants := Members (List (String × Shape))

def ofNames (names : List String) : Shape :=
  .enumeration (Names.ofList names)

def insertField (key : String) (shape : Shape) (fields : Fields) : Fields :=
  fields.insert key shape

def mergeFields (fields more : Fields) : Fields :=
  fields.insertAll more

def insertVariant (name : String) (fields : Fields) (choices : Variants) : Variants :=
  match choices.get? name with
  | some existing => choices.insert name (mergeFields existing fields)
  | none => choices ++ [(name, fields)]

def forcesTypename (fields : Fields) : Bool :=
  match fields.get? typenameKey with
  | some (.scalar (.typename _)) => true
  | _ => false

mutual

def size : Shape → Nat
  | .scalar _ => 1
  | .enumeration _ => 1
  | .list item => item.size + 1
  | .nullable inner => inner.size + 1
  | .object fields => sizeFields fields + 1
  | .variants choices => sizeVariants choices + 1

def sizeFields : List (String × Shape) → Nat
  | [] => 0
  | (_, s) :: rest => s.size + sizeFields rest

def sizeVariants : List (String × List (String × Shape)) → Nat
  | [] => 0
  | (_, fields) :: rest => sizeFields fields + sizeVariants rest

end

mutual

def height : Shape → Nat
  | .scalar _ => 1
  | .enumeration _ => 1
  | .list item => item.height + 1
  | .nullable inner => inner.height + 1
  | .object fields => heightFields fields + 1
  | .variants choices => heightVariants choices + 1

def heightFields : List (String × Shape) → Nat
  | [] => 0
  | (_, s) :: rest => max s.height (heightFields rest)

def heightVariants : List (String × List (String × Shape)) → Nat
  | [] => 0
  | (_, fields) :: rest => max (heightFields fields) (heightVariants rest)

end

end Shape

end FederatedMock
