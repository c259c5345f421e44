import FederatedMock.Json.Basic

/-!
# JSON tokens

`Json.tokens` cuts a text into tokens, each with the byte offset at which it starts. A token that
is cut short or not well formed becomes a token that carries its fault; the text after it is not
looked at, since no reader goes past a fault. So a fault counts only where that token is wanted.
-/

namespace FederatedMock.Json

inductive Fault where
  | eofInValue
  | eofInList
  | eofInObject
  | eofInString
  | expectedValue
  | expectedIdent
  | expectedColon
  | expectedListCommaOrEnd
  | expectedObjectCommaOrEnd
  | invalidEscape
  | invalidNumber
  | numberOutOfRange
  | controlCharacter
  | keyMustBeString
  | loneLeadingSurrogate
  | unexpectedEndOfHexEscape
  | trailingComma
  | trailingCharacters
  | recursionLimit
deriving DecidableEq, Repr

structure Failure where
  fault : Fault
  offset : Nat
deriving DecidableEq, Repr

inductive Lexeme where
  | openList
  | closeList
  | openObject
  | closeObject
  | comma
  | colon
  | scalar (v : Json)
  | text (s : String)
  | broken (failure : Failure)
  | brokenText (failure : Failure)
  | unknown

structure Token where
  lexeme : Lexeme
  start : Nat

structure Cursor where
  rest : List Char
  offset : Nat

def isBlank (c : Char) : Bool :=
  c == ' ' || c == '\n' || c == '\t' || c == '\r'

/-- Reads the digits of an exponent. One too large for 32 bits is out of range where it grows too
large, unless the number is zero or small anyway; then the exponent as read so far will do. -/
def exponentDigits (harmless : Bool) (value : Nat) : List Char → Nat → Except Failure (Nat × Cursor)
  | [], offset => .ok (value, ⟨[], offset⟩)
  | c :: rest, offset =>
    if c.isDigit then
      let next := value * 10 + (c.toNat - '0'.toNat)
      if next > 2147483647 then
        if harmless then exponentDigits harmless value rest (offset + 1)
        else .error ⟨.numberOutOfRange, offset + 1⟩
      else exponentDigits harmless next rest (offset + 1)
    else .ok (value, ⟨c :: rest, offset⟩)

def digitsValue (digits : List Char) : Nat :=
  digits.foldl (fun n c => n * 10 + (c.toNat - '0'.toNat)) 0

def realNumber (negative : Bool) (digits : List Char) (exponent : Int) (rest : Cursor) :
    Except Failure (Number × Cursor) :=
  match Double.ofDecimal? negative (digitsValue digits) exponent with
  | some d => .ok (.double d, rest)
  | none => .error ⟨.numberOutOfRange, rest.offset⟩

/-- A literal without point and exponent. Minus zero and integers of more than 64 bits are
doubles. -/
def wholeNumber (negative : Bool) (digits : List Char) (rest : Cursor) :
    Except Failure (Number × Cursor) :=
  let n := digitsValue digits
  let held := if negative then (if n = 0 then none else Number.ofInt? (-n)) else Number.ofInt? n
  match held with
  | some n => .ok (n, rest)
  | none => realNumber negative digits 0 rest

def exponentSign (cur : Cursor) : Bool × Cursor :=
  match cur.rest with
  | '+' :: rest => (false, ⟨rest, cur.offset + 1⟩)
  | '-' :: rest => (true, ⟨rest, cur.offset + 1⟩)
  | _ => (false, cur)

def exponentValue (negative : Bool) (digits : List Char) (scale : Int) (down : Bool)
    (cur : Cursor) : Except Failure (Number × Cursor) :=
  match cur.rest with
  | [] => .error ⟨.eofInValue, cur.offset⟩
  | d :: _ =>
    if d.isDigit then
      match exponentDigits (down || digitsValue digits == 0) 0 cur.rest cur.offset with
      | .ok (e, rest) => realNumber negative digits (if down then scale - e else scale + e) rest
      | .error f => .error f
    else .error ⟨.invalidNumber, cur.offset + 1⟩

def literalEnd (negative : Bool) (digits : List Char) (scale : Int) (whole : Bool)
    (cur : Cursor) : Except Failure (Number × Cursor) :=
  if whole then wholeNumber negative digits cur else realNumber negative digits scale cur

def numberExponent (negative : Bool) (digits : List Char) (scale : Int) (whole : Bool)
    (cur : Cursor) : Except Failure (Number × Cursor) :=
  match cur.rest with
  | [] => literalEnd negative digits scale whole cur
  | c :: rest =>
    if c = 'e' ∨ c = 'E' then
      let (down, after) := exponentSign ⟨rest, cur.offset + 1⟩
      exponentValue negative digits scale down after
    else literalEnd negative digits scale whole cur

def numberFraction (negative : Bool) (digits : List Char) (cur : Cursor) :
    Except Failure (Number × Cursor) :=
  match cur.rest with
  | '.' :: rest =>
    let (fraction, rest) := rest.span Char.isDigit
    if fraction.isEmpty then
      if rest.isEmpty then .error ⟨.eofInValue, cur.offset + 1⟩
      else .error ⟨.invalidNumber, cur.offset + 2⟩
    else
      numberExponent negative (digits ++ fraction) (-fraction.length) false
        ⟨rest, cur.offset + 1 + fraction.length⟩
  | _ => numberExponent negative digits 0 true cur

def numberAfterSign (negative : Bool) (cur : Cursor) : Except Failure (Number × Cursor) :=
  match cur.rest with
  | [] => .error ⟨.eofInValue, cur.offset⟩
  | '0' :: rest =>
    if rest.head?.any Char.isDigit then .error ⟨.invalidNumber, cur.offset + 2⟩
    else numberFraction negative ['0'] ⟨rest, cur.offset + 1⟩
  | c :: rest =>
    if c.isDigit then
      let (digits, rest) := (c :: rest).span Char.isDigit
      numberFraction negative digits ⟨rest, cur.offset + digits.length⟩
    else .error ⟨.invalidNumber, cur.offset + 1⟩

def hexValue? (c : Char) : Option Nat :=
  if c.isDigit then some (c.toNat - '0'.toNat)
  else if 'a' ≤ c ∧ c ≤ 'f' then some (c.toNat - 'a'.toNat + 10)
  else if 'A' ≤ c ∧ c ≤ 'F' then some (c.toNat - 'A'.toNat + 10)
  else none

def hexEscape (cur : Cursor) : Except Failure (Nat × Cursor) :=
  match cur.rest with
  | a :: b :: c :: d :: rest =>
    match hexValue? a, hexValue? b, hexValue? c, hexValue? d with
    | some a, some b, some c, some d =>
      .ok (((a * 16 + b) * 16 + c) * 16 + d, ⟨rest, cur.offset + 4⟩)
    | _, _, _, _ => .error ⟨.invalidEscape, cur.offset + 4⟩
  | short =>
    let bytes := short.foldl (fun n c => n + c.utf8Size) 0
    if bytes < 4 then .error ⟨.eofInString, cur.offset + bytes⟩
    else .error ⟨.invalidEscape, cur.offset + 4⟩

def unicodeEscape (cur : Cursor) : Except Failure (Char × Cursor) := do
  let (high, cur) ← hexEscape cur
  if 0xDC00 ≤ high ∧ high ≤ 0xDFFF then .error ⟨.loneLeadingSurrogate, cur.offset⟩
  else if high < 0xD800 ∨ 0xDBFF < high then .ok (Char.ofNat high, cur)
  else
    match cur.rest with
    | [] => .error ⟨.eofInString, cur.offset⟩
    | ['\\'] => .error ⟨.eofInString, cur.offset + 1⟩
    | '\\' :: 'u' :: rest =>
      let (low, cur) ← hexEscape ⟨rest, cur.offset + 2⟩
      if low < 0xDC00 ∨ 0xDFFF < low then .error ⟨.loneLeadingSurrogate, cur.offset⟩
      else .ok (Char.ofNat ((high - 0xD800) * 0x400 + (low - 0xDC00) + 0x10000), cur)
    | '\\' :: _ => .error ⟨.unexpectedEndOfHexEscape, cur.offset + 2⟩
    | _ => .error ⟨.unexpectedEndOfHexEscape, cur.offset + 1⟩

def simpleEscape? (c : Char) : Option Char :=
  if c = '"' ∨ c = '\\' ∨ c = '/' then some c
  else if c = 'b' then some '\x08'
  else if c = 'f' then some '\x0c'
  else if c = 'n' then some '\n'
  else if c = 'r' then some '\r'
  else if c = 't' then some '\t'
  else none

def stringBody (fuel : Nat) (acc : List Char) (cur : Cursor) : Except Failure (String × Cursor) :=
  match fuel, cur.rest with
  | 0, _ => .error ⟨.eofInString, cur.offset⟩
  | _ + 1, [] => .error ⟨.eofInString, cur.offset⟩
  | fuel + 1, c :: rest =>
    if c = '"' then .ok (String.ofList acc.reverse, ⟨rest, cur.offset + 1⟩)
    else if c = '\\' then
      match rest with
      | [] => .error ⟨.eofInString, cur.offset + 1⟩
      | 'u' :: rest =>
        match unicodeEscape ⟨rest, cur.offset + 2⟩ with
        | .ok (c, cur) => stringBody fuel (c :: acc) cur
        | .error f => .error f
      | e :: rest =>
        match simpleEscape? e with
        | some c => stringBody fuel (c :: acc) ⟨rest, cur.offset + 2⟩
        | none => .error ⟨.invalidEscape, cur.offset + 2⟩
    else if c.toNat < 32 then .error ⟨.controlCharacter, cur.offset + 1⟩
    else stringBody fuel (c :: acc) ⟨rest, cur.offset + c.utf8Size⟩

def identTail : List Char → Cursor → Except Failure Cursor
  | [], cur => .ok cur
  | c :: more, cur =>
    match cur.rest with
    | [] => .error ⟨.eofInValue, cur.offset⟩
    | d :: rest =>
      if c = d then identTail more ⟨rest, cur.offset + 1⟩
      else .error ⟨.expectedIdent, cur.offset + 1⟩

def lexeme (c : Char) (after : Cursor) : Lexeme × Option Cursor :=
  let ident (tail : String) (v : Json) : Lexeme × Option Cursor :=
    match identTail tail.toList after with
    | .ok cur => (.scalar v, some cur)
    | .error f => (.broken f, none)
  let numeric (r : Except Failure (Number × Cursor)) : Lexeme × Option Cursor :=
    match r with
    | .ok (n, cur) => (.scalar (.number n), some cur)
    | .error f => (.broken f, none)
  match c with
  | '[' => (.openList, some after)
  | ']' => (.closeList, some after)
  | '{' => (.openObject, some after)
  | '}' => (.closeObject, some after)
  | ',' => (.comma, some after)
  | ':' => (.colon, some after)
  | 'n' => ident "ull" .null
  | 't' => ident "rue" (.boolean true)
  | 'f' => ident "alse" (.boolean false)
  | '"' =>
    match stringBody (after.rest.length + 1) [] after with
    | .ok (s, cur) => (.text s, some cur)
    | .error f => (.brokenText f, none)
  | '-' => numeric (numberAfterSign true after)
  | c =>
    if c.isDigit then numeric (numberAfterSign false ⟨c :: after.rest, after.offset - 1⟩)
    else (.unknown, none)

def tokensFrom : Nat → Cursor → List Token
  | 0, _ => []
  | fuel + 1, cur =>
    match cur.rest with
    | [] => []
    | c :: rest =>
      let after : Cursor := ⟨rest, cur.offset + c.utf8Size⟩
      if isBlank c then tokensFrom fuel after
      else
        match lexeme c after with
        | (l, some next) => ⟨l, cur.offset⟩ :: tokensFrom fuel next
        | (l, none) => [⟨l, cur.offset⟩]

def tokens (cs : List Char) : List Token :=
  tokensFrom (cs.length + 1) ⟨cs, 0⟩

end FederatedMock.Json
