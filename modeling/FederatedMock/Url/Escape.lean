import FederatedMock.Text.Basic

namespace FederatedMock.Url

structure EscapeSet where
  extra : List Char

namespace EscapeSet

def control : EscapeSet := ⟨[]⟩
def fragment : EscapeSet := ⟨[' ', '"', '<', '>', '`']⟩
def query : EscapeSet := ⟨[' ', '"', '#', '<', '>']⟩
def specialQuery : EscapeSet := ⟨query.extra ++ ['\'']⟩
def path : EscapeSet := ⟨fragment.extra ++ ['#', '?', '\x7b', '\x7d']⟩
def userinfo : EscapeSet := ⟨path.extra ++ ['/', ':', ';', '=', '@', '[', '\\', ']', '^', '|']⟩

def escapes (set : EscapeSet) (c : Char) : Bool :=
  c.toNat < 32 || c.toNat ≥ 127 || set.extra.contains c

end EscapeSet

private def upperHex (n : Nat) : Char :=
  if n < 10 then Char.ofNat (n + 48) else Char.ofNat (n + 55)

def escapeByte (b : UInt8) : List Char :=
  ['%', upperHex (b.toNat / 16), upperHex (b.toNat % 16)]

def escapeChar (set : EscapeSet) (c : Char) : List Char :=
  if set.escapes c then (String.singleton c).toUTF8.toList.flatMap escapeByte else [c]

def escape (set : EscapeSet) (cs : List Char) : String :=
  String.ofList (cs.flatMap (escapeChar set))

private def hexDigit? (c : Char) : Option Nat :=
  if c.isDigit then some (c.toNat - 48)
  else if 'a' ≤ c ∧ c ≤ 'f' then some (c.toNat - 87)
  else if 'A' ≤ c ∧ c ≤ 'F' then some (c.toNat - 55)
  else none

def unescapeBytes : List Char → List UInt8
  | [] => []
  | '%' :: a :: b :: rest =>
    match hexDigit? a, hexDigit? b with
    | some x, some y => UInt8.ofNat (x * 16 + y) :: unescapeBytes rest
    | _, _ => '%'.toNat.toUInt8 :: unescapeBytes (a :: b :: rest)
  | c :: rest => (String.singleton c).toUTF8.toList ++ unescapeBytes rest

def unescape? (cs : List Char) : Option (List Char) :=
  (String.fromUTF8? ⟨(unescapeBytes cs).toArray⟩).map String.toList

end FederatedMock.Url
