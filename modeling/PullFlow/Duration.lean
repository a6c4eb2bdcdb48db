import PullFlow.Error
import PullFlow.Decimal.Shortest
import PullFlow.Text.Delimited

/-!
Durations: whole nanoseconds below `2 ^ 64` seconds. A duration is written as a number of seconds
or as a number with a unit. A float is rounded to the nearest nanosecond, a half to the even one.
-/

namespace PullFlow

/-- A span of time in nanoseconds. -/
structure Duration where
  nanos : Nat
  deriving DecidableEq, Repr, Inhabited

namespace Duration

def second : Nat := 1000000000

def seconds (d : Duration) : Nat := d.nanos / second

/-- The nanoseconds beyond whole seconds. -/
def subsecond (d : Duration) : Nat := d.nanos % second

/-- `num / den` rounded to the nearest natural number, a half to the even one. -/
def roundDiv (num den : Nat) : Nat :=
  let q := num / den
  let r := num % den
  if 2 * r < den then q else if den < 2 * r then q + 1 else if q % 2 = 0 then q else q + 1

/-- The duration of a number of seconds that is not negative; an error beyond the range. -/
def ofSeconds (x : Float) : Except Error Duration :=
  if !x.isFinite then .error .overflow
  else
    let b := Decimal.Binary.ofBits x.toBits
    let r := Decimal.Ratio.scaled b.m b.e
    let nanos := roundDiv (r.num * second) r.den
    if nanos < Decimal.wordLimit * second then .ok ⟨nanos⟩ else .error .overflow

/-- The nearest number of seconds that a float can hold, of whole seconds and the rest each. -/
def toSeconds (d : Duration) : Float :=
  Float.ofScientific d.seconds false 0 + Float.ofScientific d.subsecond false 0 / 1000000000.0

/-- The units of time and their seconds. The milliseconds come before the units whose letters end
their mark. -/
def units : List (String × Float) :=
  [("ms", 0.001), ("s", 1.0), ("m", 60.0), ("h", 3600.0), ("d", 86400.0)]

/-- A text cut before the unit at its end, and that unit; seconds if there is none. -/
def cutUnit (s : String) : String × Float :=
  let cut (unit : String × Float) : Option (String × Float) :=
    (Text.beforeEnd? unit.1.toList s.toList).map fun cs => (String.ofList cs, unit.2)
  (units.findSome? cut).getD (s, 1.0)

/-- The duration a text spells. -/
def parse (s : String) : Except Error Duration :=
  let s := Text.trim s
  let (number, scale) := cutUnit s
  match Decimal.float? (Text.trim number) with
  | some x =>
      if x.isFinite && !(x < 0.0) then ofSeconds (x * scale)
      else .error (.configuration (.durationText s))
  | none => .error (.configuration (.durationText s))

/-- The duration of a parameter: a number of seconds, or a text. -/
def ofValue : Value → Except Error Duration
  | .number n =>
      let x := n.toFloat
      if x.isFinite && 0.0 ≤ x then ofSeconds x
      else .error (.configuration (.durationValue (.number n)))
  | .text s => parse s
  | v => .error (.configuration (.durationValue v))

end Duration
end PullFlow
