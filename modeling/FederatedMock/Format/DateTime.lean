import FederatedMock.Text.Basic

namespace FederatedMock

namespace LocalTime

open Text

def isHour (tens ones : Char) : Bool :=
  ((tens == '0' || tens == '1') && isDecimalDigit ones) ||
    (tens == '2' && '0' ≤ ones && ones ≤ '3')

def isSixtieth (tens ones : Char) : Bool :=
  '0' ≤ tens && tens ≤ '5' && isDecimalDigit ones

def isFraction : List Char → Bool
  | [] => true
  | '.' :: d :: rest => isDecimalDigit d && rest.all isDecimalDigit
  | _ => false

def isValidChars : List Char → Bool
  | h₁ :: h₂ :: ':' :: m₁ :: m₂ :: ':' :: s₁ :: s₂ :: rest =>
    isHour h₁ h₂ && isSixtieth m₁ m₂ && isSixtieth s₁ s₂ && isFraction rest
  | _ => false

def isValid (s : String) : Bool :=
  isValidChars s.toList

end LocalTime

namespace Timestamp

def isLeapYear (year : Nat) : Bool :=
  year % 4 == 0 && (year % 100 != 0 || year % 400 == 0)

def daysInMonth (year month : Nat) : Nat :=
  if month = 2 then (if isLeapYear year then 29 else 28)
  else if month = 4 ∨ month = 6 ∨ month = 9 ∨ month = 11 then 30
  else 31

structure Fields where
  year : Nat
  month : Nat
  day : Nat
  hour : Nat
  minute : Nat
  second : Nat

def Fields.isValid (f : Fields) : Bool :=
  1 ≤ f.month && f.month ≤ 12 && 1 ≤ f.day && f.day ≤ daysInMonth f.year f.month &&
    f.hour ≤ 23 && f.minute ≤ 59 &&
    (f.second ≤ 59 ||
      (f.second == 60 && f.hour == 23 && f.minute == 59 && f.day == daysInMonth f.year f.month))

def digits? : Nat → List Char → Option (Nat × List Char)
  | 0, cs => some (0, cs)
  | n + 1, c :: cs =>
    if c.isDigit then
      (digits? n cs).map fun (v, rest) => ((c.toNat - '0'.toNat) * Nat.pow 10 n + v, rest)
    else none
  | _ + 1, [] => none

def literal? (c : Char) : List Char → Option (List Char)
  | d :: rest => if c = d then some rest else none
  | [] => none

def fraction? : List Char → Option (List Char)
  | '.' :: rest => if rest.head?.any Char.isDigit then some (rest.dropWhile Char.isDigit) else none
  | rest => some rest

def fields? (cs : List Char) : Option (Fields × List Char) := do
  let (year, cs) ← digits? 4 cs
  let cs ← literal? '-' cs
  let (month, cs) ← digits? 2 cs
  let cs ← literal? '-' cs
  let (day, cs) ← digits? 2 cs
  let cs ← match cs with
    | separator :: rest => if separator.utf8Size = 1 then some rest else none
    | [] => none
  let (hour, cs) ← digits? 2 cs
  let cs ← literal? ':' cs
  let (minute, cs) ← digits? 2 cs
  let cs ← literal? ':' cs
  let (second, cs) ← digits? 2 cs
  let cs ← fraction? cs
  some (⟨year, month, day, hour, minute, second⟩, cs)

def isValid (s : String) : Bool :=
  match fields? s.toList with
  | some (fields, ['Z']) => fields.isValid
  | _ => false

end Timestamp

end FederatedMock
