import FederatedMock.Json.Basic
import FederatedMock.Decimal.Layout

namespace FederatedMock

def Number.layout : DecimalLayout := ⟨some (-5), some 15⟩

def Number.render : Number → String
  | .integer n _ => toString n
  | .double d => Number.layout.render d

namespace Json

def hexDigit (n : Nat) : Char :=
  (Nat.toDigits 16 n).headD '0'

def escapeChar (c : Char) : List Char :=
  if c = '"' then ['\\', '"']
  else if c = '\\' then ['\\', '\\']
  else if c = '\x08' then ['\\', 'b']
  else if c = '\x0c' then ['\\', 'f']
  else if c = '\n' then ['\\', 'n']
  else if c = '\r' then ['\\', 'r']
  else if c = '\t' then ['\\', 't']
  else if c.toNat < 32 then ['\\', 'u', '0', '0', hexDigit (c.toNat / 16), hexDigit (c.toNat % 16)]
  else [c]

def quote (s : String) : List Char :=
  '"' :: (s.toList.flatMap escapeChar ++ ['"'])

def scalarChars : Json → List Char
  | .null => "null".toList
  | .boolean true => "true".toList
  | .boolean false => "false".toList
  | .number n => n.render.toList
  | .string s => quote s
  | .array _ => []
  | .object _ => []

mutual

def compactChars : Json → List Char
  | .array items => '[' :: (compactItems items ++ [']'])
  | .object members => '{' :: (compactMembers members ++ ['}'])
  | v => scalarChars v

def compactItems : List Json → List Char
  | [] => []
  | [v] => compactChars v
  | v :: rest => compactChars v ++ ',' :: compactItems rest

def compactMembers : List (String × Json) → List Char
  | [] => []
  | [(k, v)] => quote k ++ ':' :: compactChars v
  | (k, v) :: rest => quote k ++ ':' :: (compactChars v ++ ',' :: compactMembers rest)

end

def newline (level : Nat) : List Char :=
  '\n' :: List.replicate (2 * level) ' '

mutual

def prettyChars (level : Nat) : Json → List Char
  | .array [] => ['[', ']']
  | .object [] => ['{', '}']
  | .array items => '[' :: (prettyItems (level + 1) items ++ newline level ++ [']'])
  | .object members => '{' :: (prettyMembers (level + 1) members ++ newline level ++ ['}'])
  | v => scalarChars v

def prettyItems (level : Nat) : List Json → List Char
  | [] => []
  | [v] => newline level ++ prettyChars level v
  | v :: rest => newline level ++ prettyChars level v ++ ',' :: prettyItems level rest

def prettyMembers (level : Nat) : List (String × Json) → List Char
  | [] => []
  | [(k, v)] => newline level ++ quote k ++ ':' :: ' ' :: prettyChars level v
  | (k, v) :: rest =>
    newline level ++ quote k ++
      ':' :: ' ' :: (prettyChars level v ++ ',' :: prettyMembers level rest)

end

def compact (v : Json) : String := String.ofList (compactChars v)

def pretty (v : Json) : String := String.ofList (prettyChars 0 v)

end Json

end FederatedMock
