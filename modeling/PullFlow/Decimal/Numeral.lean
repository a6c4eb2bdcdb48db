import PullFlow.Decimal.Power

/-!
Numerals in text: what spells an integer and what spells a float. An integer is digits with an
optional sign. A float is a decimal with an optional sign, fraction and exponent, or one of the
words for infinity and not-a-number. Nothing else may stand in the text, no blank either.
-/

namespace PullFlow.Decimal

/-- The value of decimal digits read after the number `n`; `none` at the first character that is
no digit. -/
def digitsFrom? (n : Nat) : List Char → Option Nat
  | [] => some n
  | c :: rest => if c.isDigit then digitsFrom? (n * 10 + (c.toNat - '0'.toNat)) rest else none

/-- The value of a non-empty run of digits. -/
def digits? (cs : List Char) : Option Nat := if cs.isEmpty then none else digitsFrom? 0 cs

/-- The sign of a numeral and what follows it. -/
def signed : List Char → Bool × List Char
  | '-' :: rest => (true, rest)
  | '+' :: rest => (false, rest)
  | cs => (false, cs)

/-- The integer a text spells. -/
def integer? (s : String) : Option Int :=
  let (negative, cs) := signed s.toList
  (digits? cs).map fun n => if negative then -(n : Int) else n

/-- The integer of 64 bits, with sign, that a text spells. -/
def integer64? (s : String) : Option Int :=
  (integer? s).filter fitsSigned

/-- The natural number of 64 bits that a text spells; a plus sign is allowed. -/
def natural64? (s : String) : Option Nat :=
  let cs := match s.toList with
    | '+' :: rest => rest
    | cs => cs
  (digits? cs).filter (· < wordLimit)

/-- `10 ^ e`, for an exponent that a float can have. -/
def tenPower (e : Nat) : Float := Float.ofScientific 1 false e

/-- The float nearest to `n · 10 ^ e`. Far outside the range of floats the exponent alone decides. -/
def nearest (n : Nat) (e : Int) : Float :=
  if n = 0 then 0.0
  else
    let magnitude := Int.ofNat (Nat.toDigits 10 n).length + e
    if magnitude < -330 then 0.0
    else if 310 < magnitude then 1.0 / 0.0
    else match e with
      | .ofNat k => Float.ofScientific n false k
      | .negSucc k => Float.ofScientific n true (k + 1)

/-- The exponent at the end of a decimal: nothing, or a mark and an integer. -/
def exponent? : List Char → Option Int
  | [] => some 0
  | c :: rest =>
      if c = 'e' ∨ c = 'E' then
        let (negative, cs) := signed rest
        (digits? cs).map fun n => if negative then -(n : Int) else n
      else none

/-- An unsigned decimal: digits before or after a point, then an exponent. -/
def decimal? (cs : List Char) : Option Float := do
  let whole := cs.takeWhile Char.isDigit
  let after := cs.dropWhile Char.isDigit
  let (fraction, ending) := match after with
    | '.' :: rest => (rest.takeWhile Char.isDigit, rest.dropWhile Char.isDigit)
    | rest => ([], rest)
  let n ← digits? (whole ++ fraction)
  let e ← exponent? ending
  return nearest n (e - Int.ofNat fraction.length)

/-- The float a text spells. -/
def float? (s : String) : Option Float := do
  let (negative, cs) := signed s.toList
  let word := String.ofList (cs.map Char.toLower)
  let x ← if word = "inf" ∨ word = "infinity" then some (1.0 / 0.0)
    else if word = "nan" then some (0.0 / 0.0)
    else decimal? cs
  return if negative then -x else x

end PullFlow.Decimal
