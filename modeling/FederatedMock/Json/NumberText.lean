import FederatedMock.Json.Basic
import FederatedMock.Text.Basic

namespace FederatedMock

namespace Number

def digitsToNat? (cs : List Char) : Option Nat :=
  if cs.isEmpty || !cs.all Char.isDigit then none
  else some (cs.foldl (fun n c => n * 10 + (c.toNat - '0'.toNat)) 0)

def splitSign : List Char → Bool × List Char
  | '-' :: rest => (true, rest)
  | '+' :: rest => (false, rest)
  | rest => (false, rest)

def ofSignedText? (cs : List Char) : Option Number := do
  let (negative, digits) := splitSign cs
  let n ← digitsToNat? digits
  let value : Int := if negative then -n else n
  if value < 0x8000000000000000 then ofInt? value else none

def ofDecimalText? (cs : List Char) : Option Number := do
  let (negative, cs) := splitSign cs
  let (whole, cs) := cs.span Char.isDigit
  let (fraction, cs) := match cs with
    | '.' :: rest => rest.span Char.isDigit
    | rest => ([], rest)
  let digits ← digitsToNat? (whole ++ fraction)
  let exponent : Int ← match cs with
    | [] => some 0
    | e :: rest =>
      if e = 'e' ∨ e = 'E' then
        let (down, rest) := splitSign rest
        (digitsToNat? rest).map fun n => if down then -(n : Int) else n
      else none
  let d ← Double.ofDecimal? negative digits (exponent - fraction.length)
  some (.double d)

def ofText? (s : String) : Option Number :=
  let cs := Text.trim s.toList
  if cs.isEmpty then some zero
  else
    match ofSignedText? cs with
    | some n => some n
    | none => ofDecimalText? cs

end Number

end FederatedMock
