import PullFlow.Decimal.Power

/-!
The shortest decimal that reads back as a given binary float. A finite float is `m · 2 ^ e`; the
reals that round to it form an interval, closed when `m` is even. Grids of one, two, … seventeen
digits are tried in turn, and the first grid with a point in the interval gives the digits: of two
such points the nearer, of two equally near the even one. All arithmetic is exact, on natural
numbers.
-/

namespace PullFlow.Decimal

/-- A positive rational, as the quotient of two natural numbers. -/
structure Ratio where
  num : Nat
  den : Nat

/-- Whether `a < b`. -/
def Ratio.lt (a b : Ratio) : Bool := a.num * b.den < b.num * a.den

/-- `n · 2 ^ e`. -/
def Ratio.scaled (n : Nat) (e : Int) : Ratio :=
  match e with
  | .ofNat k => ⟨n * twoToThe k, 1⟩
  | .negSucc k => ⟨n, twoToThe (k + 1)⟩

/-- `n · 10 ^ e`. -/
def Ratio.tenths (n : Nat) (e : Int) : Ratio :=
  match e with
  | .ofNat k => ⟨n * tenToThe k, 1⟩
  | .negSucc k => ⟨n, tenToThe (k + 1)⟩

/-- `r · 10 ^ e`, rounded down. -/
def Ratio.floorTenths (r : Ratio) (e : Int) : Nat :=
  match e with
  | .ofNat k => r.num * tenToThe k / r.den
  | .negSucc k => r.num / (r.den * tenToThe (k + 1))

/-- A positive finite float `m · 2 ^ e`, with `narrow` when the next float below it is only half as
far away as the next one above. -/
structure Binary where
  m : Nat
  e : Int
  narrow : Bool

/-- The value of a float with its sign and special values left out. -/
def Binary.ofBits (bits : UInt64) : Binary :=
  let fraction := bits.toNat % twoToThe 52
  let field := bits.toNat / twoToThe 52 % twoToThe 11
  if field = 0 then ⟨fraction, -1074, false⟩
  else ⟨twoToThe 52 + fraction, Int.ofNat field - 1075, fraction == 0 && field != 1⟩

def Binary.value (b : Binary) : Ratio := .scaled (4 * b.m) (b.e - 2)

/-- The lower end of the reals that round to `b`. -/
def Binary.low (b : Binary) : Ratio :=
  .scaled (if b.narrow then 4 * b.m - 1 else 4 * b.m - 2) (b.e - 2)

/-- The upper end of the reals that round to `b`. -/
def Binary.high (b : Binary) : Ratio := .scaled (4 * b.m + 2) (b.e - 2)

/-- Whether a real rounds to `b`. -/
def Binary.accepts (b : Binary) (r : Ratio) : Bool :=
  if b.m % 2 == 0 then !r.lt b.low && !b.high.lt r else b.low.lt r && r.lt b.high

/-- The least `d` with `r < 10 ^ d`, looked for upwards from a guess. -/
def Ratio.magnitude (r : Ratio) : Nat → Int → Int
  | 0, guess => guess
  | fuel + 1, guess => if r.lt (.tenths 1 guess) then guess else magnitude r fuel (guess + 1)

/-- Decimal digits and the power of ten of their last place. -/
structure Digits where
  digits : Nat
  exponent : Int
  deriving Repr, DecidableEq

/-- The point of the grid `10 ^ p` to print for `b`, if one rounds to `b`. -/
def Binary.onGrid? (b : Binary) (p : Int) : Option Digits :=
  let below := b.value.floorTenths (-p)
  let lower := Ratio.tenths below p
  let upper := Ratio.tenths (below + 1) p
  match b.accepts lower && below != 0, b.accepts upper with
  | false, false => none
  | true, false => some ⟨below, p⟩
  | false, true => some ⟨below + 1, p⟩
  | true, true =>
      -- twice the value against the sum of its neighbours
      let twice : Ratio := ⟨2 * b.value.num, b.value.den⟩
      let sum := Ratio.tenths (2 * below + 1) p
      if twice.lt sum then some ⟨below, p⟩
      else if sum.lt twice then some ⟨below + 1, p⟩
      else if below % 2 == 0 then some ⟨below, p⟩ else some ⟨below + 1, p⟩

/-- Tries grids from coarse to fine; `top` is the power of ten just above the value. -/
def Binary.firstGrid (b : Binary) (top : Int) : Nat → Nat → Digits
  | 0, _ => ⟨b.value.floorTenths (17 - top), top - 17⟩
  | fuel + 1, count =>
      match b.onGrid? (top - Int.ofNat count) with
      | some found => found
      | none => firstGrid b top fuel (count + 1)

/-- The shortest decimal that rounds to `b`. -/
def Binary.shortest (b : Binary) : Digits :=
  let guess := ((Int.ofNat b.m.log2 + b.e) * 30103) / 100000 - 2
  b.firstGrid (b.value.magnitude 8 guess) 17 1

/-- Digits with the zeros at their end moved into the exponent. -/
def Digits.trimmed : Nat → Digits → Digits
  | 0, d => d
  | fuel + 1, d =>
      if d.digits != 0 && d.digits % 10 == 0 then trimmed fuel ⟨d.digits / 10, d.exponent + 1⟩ else d

/-- Plain notation is used from `10 ^ -5` up to below `10 ^ 16`, always with a fraction; outside it
the first digit stands before the point and the exponent has its sign. -/
def Digits.text (d : Digits) : String :=
  let d := d.trimmed 400
  let ds := Nat.toDigits 10 d.digits
  let point : Int := Int.ofNat ds.length + d.exponent
  if 0 ≤ d.exponent && point ≤ 16 then
    String.ofList (ds ++ List.replicate d.exponent.toNat '0') ++ ".0"
  else if 0 < point && point ≤ 16 then
    String.ofList (ds.take point.toNat) ++ "." ++ String.ofList (ds.drop point.toNat)
  else if -5 < point && point ≤ 0 then
    "0." ++ String.ofList (List.replicate (-point).toNat '0' ++ ds)
  else
    let e := point - 1
    let mark := if 0 ≤ e then "e+" else "e-"
    let tail := if ds.length ≤ 1 then "" else "." ++ String.ofList (ds.drop 1)
    String.ofList (ds.take 1) ++ tail ++ mark ++ toString e.natAbs

/-- The text of a finite float: the shortest decimal that reads back as it. -/
def floatText (x : Float) : String :=
  let bits := x.toBits
  let sign := if bits.toNat < signedLimit then "" else "-"
  let b := Binary.ofBits bits
  if b.m = 0 then sign ++ "0.0" else sign ++ b.shortest.text

end PullFlow.Decimal
