import PullFlow.Error
import PullFlow.Decimal.Whole

/-!
Conversions of payloads to integers and floats. A float is cut to its whole part, and to the range
of 64 bits; text is read as a numeral.
-/

namespace PullFlow.Operator

/-- The integer of a number, a numeral or a boolean. -/
def integerOf? : Value → Option Int
  | .number n =>
      match n.toInt64? with
      | some i => some i
      | none => some (Decimal.truncate64 n.toFloat)
  | .text s =>
      let s := Text.trim s
      match Decimal.integer64? s with
      | some i => some i
      | none => (Decimal.float? s).map Decimal.truncate64
  | .bool b => some (if b then 1 else 0)
  | _ => none

/-- The float of a number, a numeral or a boolean. -/
def floatOf? : Value → Option Float
  | .number n => some n.toFloat
  | .text s => Decimal.float? (Text.trim s)
  | .bool b => some (if b then 1.0 else 0.0)
  | _ => none

def toInteger (v : Value) : Outcome :=
  match integerOf? v with
  | some i => .ok (.int i)
  | none => .error (.evaluation "int" ("cannot convert " ++ v.brief ++ " to an integer"))

def toFloat (v : Value) : Outcome :=
  match floatOf? v with
  | some x => .ok (.float x)
  | none => .error (.evaluation "float" ("cannot convert " ++ v.brief ++ " to a number"))

end PullFlow.Operator
