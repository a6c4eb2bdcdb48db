import PullFlow.Decimal.Shortest

/-!
The whole part of a float, in exact arithmetic.
-/

namespace PullFlow.Decimal

/-- The magnitude of a finite float as a quotient. -/
def magnitudeOf (x : Float) : Ratio :=
  let b := Binary.ofBits x.toBits
  .scaled b.m b.e

/-- Whether a float is a whole number. -/
def isWhole (x : Float) : Bool :=
  x.isFinite && (magnitudeOf x).num % (magnitudeOf x).den == 0

/-- A float cut to a whole number and into the words of 64 bits with sign. What is not a number
gives zero. -/
def truncate64 (x : Float) : Int :=
  if x.isNaN then 0
  else
    let r := magnitudeOf x
    let whole := r.num / r.den
    if x.isInf || signedLimit ≤ whole then
      (if x < 0.0 then -(signedLimit : Int) else (signedLimit : Int) - 1)
    else if x < 0.0 then -(Int.ofNat whole) else Int.ofNat whole

end PullFlow.Decimal
