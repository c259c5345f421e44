import FederatedMock.Decimal.Shortest

namespace FederatedMock

/-- The exponents that are written positionally; `none` leaves that side open. -/
structure DecimalLayout where
  smallest : Option Int
  largest : Option Int

namespace DecimalLayout

def isPositional (l : DecimalLayout) (exponent : Int) : Bool :=
  l.smallest.all (· ≤ exponent) && l.largest.all (exponent ≤ ·)

def positional (s : Scientific) : List Char :=
  match s.exponent with
  | .ofNat k =>
    let whole := s.digits.take (k + 1)
    let fraction := s.digits.drop (k + 1)
    whole ++ List.replicate (k + 1 - whole.length) '0' ++ '.' ::
      (if fraction.isEmpty then ['0'] else fraction)
  | .negSucc k => '0' :: '.' :: (List.replicate k '0' ++ s.digits)

def withExponent (s : Scientific) : List Char :=
  let sign := if s.exponent < 0 then '-' else '+'
  let mantissa := match s.digits with
    | d :: e :: rest => d :: '.' :: e :: rest
    | digits => digits
  mantissa ++ 'e' :: sign :: Nat.toDigits 10 s.exponent.natAbs

def render (l : DecimalLayout) (d : Double) : String :=
  let s := d.shortest
  let body := if l.isPositional s.exponent then positional s else withExponent s
  String.ofList (if d.isNegative then '-' :: body else body)

end DecimalLayout

end FederatedMock
