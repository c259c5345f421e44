namespace FederatedMock

structure Double where
  bits : UInt64
deriving DecidableEq, Repr, Inhabited

namespace Double

/-- The value of a finite double without its sign is `significand * 2 ^ exponent`. -/
structure Magnitude where
  significand : Nat
  exponent : Int

def signBit : Nat := 0x8000000000000000

/-- The fraction fills the bits below this one. A number of the normal range is understood to have
it set in its significand, although it is not written. -/
def unitBit : Nat := 0x10000000000000

def exponentField (d : Double) : Nat :=
  d.bits.toNat / unitBit % 2048

def isNegative (d : Double) : Bool :=
  d.bits.toNat / signBit == 1

def magnitude (d : Double) : Magnitude :=
  let fraction := d.bits.toNat % unitBit
  if d.exponentField = 0 then ⟨fraction, -1074⟩
  else ⟨fraction + unitBit, (d.exponentField : Int) - 1075⟩

def isZero (d : Double) : Bool :=
  d.bits.toNat % signBit == 0

def zero (negative : Bool) : Double :=
  ⟨if negative then 0x8000000000000000 else 0⟩

def roundHalfEven (num den : Nat) : Nat :=
  let q := num / den
  let twice := 2 * (num % den)
  if twice < den then q
  else if twice = den then q + q % 2
  else q + 1

def scaled (num den : Nat) (q : Int) : Nat × Nat :=
  match q with
  | .ofNat k => (num, den * Nat.pow 2 k)
  | .negSucc k => (num * Nat.pow 2 (k + 1), den)

def ofFraction? (negative : Bool) (num den : Nat) : Option Double :=
  let estimate : Int := (num.log2 : Int) - den.log2 - 53
  let (n, d) := scaled num den estimate
  let exponent := max (-1074) (if n / d ≥ 2 * unitBit then estimate + 1 else estimate)
  let (n, d) := scaled num den exponent
  let rounded := roundHalfEven n d
  let (significand, exponent) :=
    if rounded = 2 * unitBit then (unitBit, exponent + 1) else (rounded, exponent)
  if exponent > 971 then none
  else
    let field := if significand < unitBit then 0 else (exponent + 1075).toNat
    let sign := if negative then signBit else 0
    some ⟨UInt64.ofNat (sign + field * unitBit + significand % unitBit)⟩

def decimalWidth (n : Nat) : Nat :=
  if n = 0 then 0 else (Nat.toDigits 10 n).length

/-- The double nearest to `digits * 10 ^ exponent`; none if that is beyond the largest finite one.
Numbers whose leading digit settles the outcome are answered without forming the power. -/
def ofDecimal? (negative : Bool) (digits : Nat) (exponent : Int) : Option Double :=
  if digits = 0 then some (zero negative)
  else
    let leading := exponent + decimalWidth digits
    if leading > 310 then none
    else if leading < -330 then some (zero negative)
    else
      match exponent with
      | .ofNat k => ofFraction? negative (digits * Nat.pow 10 k) 1
      | .negSucc k => ofFraction? negative digits (Nat.pow 10 (k + 1))

end Double

end FederatedMock
