import FederatedMock.Text.Basic
import FederatedMock.Url.Host

namespace FederatedMock.LogFilter

def levelNames : List String := ["off", "error", "warn", "info", "debug", "trace"]

private def isLevelNumber (cs : List Char) : Bool :=
  let digits := if cs.head? == some '+' then cs.drop 1 else cs
  !digits.isEmpty && digits.all Char.isDigit &&
    digits.foldl (fun n c => n * 10 + (c.toNat - 48)) 0 < levelNames.length

def isLevel (cs : List Char) : Bool :=
  cs.isEmpty || isLevelNumber cs || levelNames.contains (String.ofList (cs.map Char.toLower))

private def isAfterSpan : List Char → Bool
  | [] => true
  | '=' :: level => isLevel level
  | _ => false

private def isFieldList (anyYet : Bool) : List Char → Bool
  | '\x7d' :: ']' :: rest => anyYet && isAfterSpan rest
  | '\x7d' :: _ => false
  | _ :: rest => isFieldList true rest
  | [] => false

private def isSpan : List Char → Bool
  | ']' :: rest => isAfterSpan rest
  | '\x7b' :: rest => isFieldList false rest
  | _ :: rest => isSpan rest
  | [] => false

private def isTarget : List Char → Bool
  | '=' :: level => isLevel level
  | '[' :: rest => isSpan rest
  | _ :: rest => isTarget rest
  | [] => true

private def startsTarget (c : Char) : Bool :=
  c == '-' || c == ':' || c == '_' || c.isAlphanum || 0x80 ≤ c.toNat

def isDirective (cs : List Char) : Bool :=
  let bare := Text.trim cs
  (bare == cs || !(bare.contains '=')) &&
    match bare with
    | '[' :: rest => isSpan rest
    | c :: rest => startsTarget c && isTarget (c :: rest)
    | [] => false

def isValid (filter : String) : Bool :=
  ((Url.splitOn ',' filter.toList).filter fun d => !d.isEmpty).all isDirective

end FederatedMock.LogFilter
