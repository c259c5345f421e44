import FederatedMock.Graphql.BlockString

namespace FederatedMock.Graphql

inductive Token where
  | punctuator (c : Char)
  | ellipsis
  | name (s : String)
  | int (text : String)
  | float (text : String)
  | string (s : String)
deriving DecidableEq, Repr

def isNameStart (c : Char) : Bool :=
  c.isAlpha || c == '_'

def isNameRest (c : Char) : Bool :=
  c.isAlphanum || c == '_'

def isIgnoredChar (c : Char) : Bool :=
  c == ' ' || c == '\t' || c == '\n' || c == '\r' || c == ',' || c == '\uFEFF'

def isPunctuator (c : Char) : Bool :=
  ['!', '$', '&', '(', ')', ':', '=', '@', '[', ']', '\x7b', '|', '\x7d'].contains c

private def integerPart? : List Char → Option (List Char × List Char)
  | '0' :: rest => some (['0'], rest)
  | c :: rest => if c.isDigit then some ((c :: rest).span Char.isDigit) else none
  | [] => none

private def someDigits? (cs : List Char) : Option (List Char × List Char) :=
  match cs.span Char.isDigit with
  | ([], _) => none
  | split => some split

private def exponentPart? (cs : List Char) : Option (List Char × List Char) :=
  match cs with
  | c :: rest =>
    if c = 'e' ∨ c = 'E' then
      match rest with
      | '+' :: more => (someDigits? more).map fun (ds, after) => (c :: '+' :: ds, after)
      | '-' :: more => (someDigits? more).map fun (ds, after) => (c :: '-' :: ds, after)
      | more => (someDigits? more).map fun (ds, after) => (c :: ds, after)
    else some ([], cs)
  | [] => some ([], [])

private def fractionPart? (cs : List Char) : Option (List Char × List Char) :=
  match cs with
  | '.' :: rest => (someDigits? rest).map fun (ds, after) => ('.' :: ds, after)
  | cs => some ([], cs)

def lexNumber? (cs : List Char) : Option (Token × List Char) := do
  let (sign, cs) := match cs with
    | '-' :: rest => (['-'], rest)
    | cs => ([], cs)
  let (whole, cs) ← integerPart? cs
  let (fraction, cs) ← fractionPart? cs
  let (exponent, cs) ← exponentPart? cs
  if cs.head?.any fun c => isNameRest c || c == '.' then none
  else
    let text := String.ofList (sign ++ whole ++ fraction ++ exponent)
    some (if fraction.isEmpty && exponent.isEmpty then .int text else .float text, cs)

private def hexValue? (c : Char) : Option Nat :=
  if c.isDigit then some (c.toNat - 48)
  else if 'a' ≤ c ∧ c ≤ 'f' then some (c.toNat - 87)
  else if 'A' ≤ c ∧ c ≤ 'F' then some (c.toNat - 55)
  else none

private def isScalarValue (n : Nat) : Bool :=
  n < 0xD800 || (0xDFFF < n && n ≤ 0x10FFFF)

private def fourHex? : List Char → Option (Nat × List Char)
  | a :: b :: c :: d :: rest => do
    let a ← hexValue? a
    let b ← hexValue? b
    let c ← hexValue? c
    let d ← hexValue? d
    some (((a * 16 + b) * 16 + c) * 16 + d, rest)
  | _ => none

private def bracedHex? (value : Nat) (some? : Bool) : List Char → Option (Nat × List Char)
  | [] => none
  | c :: rest =>
    if c = '\x7d' then (if some? then some (value, rest) else none)
    else (hexValue? c).bind fun d => bracedHex? (min 0x110000 (value * 16 + d)) true rest

private def unicodeEscape? (cs : List Char) : Option (Char × List Char) :=
  match cs with
  | '\x7b' :: rest => do
    let (n, rest) ← bracedHex? 0 false rest
    if isScalarValue n then some (Char.ofNat n, rest) else none
  | cs => do
    let (high, rest) ← fourHex? cs
    if isScalarValue high then some (Char.ofNat high, rest)
    else if high < 0xDC00 then
      match rest with
      | '\\' :: 'u' :: rest => do
        let (low, rest) ← fourHex? rest
        if 0xDC00 ≤ low ∧ low ≤ 0xDFFF then
          some (Char.ofNat ((high - 0xD800) * 0x400 + (low - 0xDC00) + 0x10000), rest)
        else none
      | _ => none
    else none

private def simpleEscape? (c : Char) : Option Char :=
  if c = '"' ∨ c = '\\' ∨ c = '/' then some c
  else if c = 'b' then some '\x08'
  else if c = 'f' then some '\x0c'
  else if c = 'n' then some '\n'
  else if c = 'r' then some '\r'
  else if c = 't' then some '\t'
  else none

private def quotedBody? : Nat → List Char → List Char → Option (List Char × List Char)
  | 0, _, _ => none
  | _ + 1, _, [] => none
  | fuel + 1, acc, c :: rest =>
    if c = '"' then some (acc.reverse, rest)
    else if c = '\n' ∨ c = '\r' then none
    else if c = '\\' then
      match rest with
      | 'u' :: rest =>
        match unicodeEscape? rest with
        | some (c, rest) => quotedBody? fuel (c :: acc) rest
        | none => none
      | e :: rest =>
        match simpleEscape? e with
        | some c => quotedBody? fuel (c :: acc) rest
        | none => none
      | [] => none
    else quotedBody? fuel (c :: acc) rest

private def blockBody? (acc : List Char) : List Char → Option (List Char × List Char)
  | [] => none
  | '\\' :: '"' :: '"' :: '"' :: rest => blockBody? ('"' :: '"' :: '"' :: acc) rest
  | '"' :: '"' :: '"' :: rest => some (acc.reverse, rest)
  | c :: rest => blockBody? (c :: acc) rest

def lexString? (cs : List Char) : Option (Token × List Char) :=
  match cs with
  | '"' :: '"' :: rest =>
    (blockBody? [] rest).map fun (raw, after) =>
      (.string (String.ofList (blockStringValue raw)), after)
  | cs =>
    (quotedBody? (cs.length + 1) [] cs).map fun (s, after) => (.string (String.ofList s), after)

private def isLineEnd (c : Char) : Bool :=
  c == '\n' || c == '\r'

def lexFrom : Nat → List Token → List Char → Option (List Token)
  | 0, _, _ => none
  | _ + 1, acc, [] => some acc.reverse
  | fuel + 1, acc, c :: rest =>
    if isIgnoredChar c then lexFrom fuel acc rest
    else if c = '#' then lexFrom fuel acc (rest.dropWhile fun c => !isLineEnd c)
    else if isPunctuator c then lexFrom fuel (.punctuator c :: acc) rest
    else if isNameStart c then
      let (name, rest) := (c :: rest).span isNameRest
      lexFrom fuel (.name (String.ofList name) :: acc) rest
    else if c = '.' then
      match rest with
      | '.' :: '.' :: rest => lexFrom fuel (.ellipsis :: acc) rest
      | _ => none
    else
      match if c = '"' then lexString? rest else lexNumber? (c :: rest) with
      | some (token, rest) => lexFrom fuel (token :: acc) rest
      | none => none

def lex (s : String) : Option (List Token) :=
  let cs := s.toList
  lexFrom (cs.length + 1) [] cs

end FederatedMock.Graphql
