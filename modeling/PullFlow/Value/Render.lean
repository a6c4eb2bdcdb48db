import PullFlow.Value
import PullFlow.Decimal.Shortest

/-!
The two layouts of a value as JSON text: compact, without blanks, and pretty, indented by two
spaces. In text a quote, a backslash and the control characters below the space are escaped, and
nothing else is.
-/

namespace PullFlow

/-- The text of a number: decimal for an integer, the shortest decimal for a float. -/
def Number.text : Number → String
  | .int n => toString n
  | .float x => Decimal.floatText x

namespace Value

/-- A digit of base sixteen in lower case. -/
def hexDigit (n : Nat) : Char :=
  if n < 10 then Char.ofNat ('0'.toNat + n) else Char.ofNat ('a'.toNat + (n - 10))

/-- A character as it stands between quotes. -/
def escaped (c : Char) : List Char :=
  if c = '"' then ['\\', '"']
  else if c = '\\' then ['\\', '\\']
  else if c.toNat < 0x20 then
    match c.toNat with
    | 8 => ['\\', 'b']
    | 9 => ['\\', 't']
    | 10 => ['\\', 'n']
    | 12 => ['\\', 'f']
    | 13 => ['\\', 'r']
    | n => ['\\', 'u', '0', '0', hexDigit (n / 16), hexDigit (n % 16)]
  else [c]

/-- Text between quotes. -/
def quoted (s : String) : List Char := '"' :: s.toList.flatMap escaped ++ ['"']

mutual

/-- The compact text of a value, followed by `tail`. -/
def compactThen : Value → List Char → List Char
  | .null, tail => "null".toList ++ tail
  | .bool true, tail => "true".toList ++ tail
  | .bool false, tail => "false".toList ++ tail
  | .number n, tail => n.text.toList ++ tail
  | .text s, tail => quoted s ++ tail
  | .list items, tail => '[' :: compactItems true items (']' :: tail)
  | .object fields, tail => '\x7b' :: compactFields true fields ('\x7d' :: tail)

/-- Items with commas between them; `first` when nothing stands before. -/
def compactItems : Bool → List Value → List Char → List Char
  | _, [], tail => tail
  | first, v :: rest, tail =>
      let more := compactThen v (compactItems false rest tail)
      if first then more else ',' :: more

def compactFields : Bool → List (String × Value) → List Char → List Char
  | _, [], tail => tail
  | first, (k, v) :: rest, tail =>
      let more := quoted k ++ ':' :: compactThen v (compactFields false rest tail)
      if first then more else ',' :: more

end

/-- A new line indented `depth` times. -/
def newline (depth : Nat) : List Char := '\n' :: List.replicate (2 * depth) ' '

mutual

/-- The pretty text of a value that stands at an indentation, followed by `tail`. -/
def prettyThen (depth : Nat) : Value → List Char → List Char
  | .list [], tail => '[' :: ']' :: tail
  | .list (v :: rest), tail =>
      '[' :: prettyItems (depth + 1) true (v :: rest) (newline depth ++ ']' :: tail)
  | .object [], tail => '\x7b' :: '\x7d' :: tail
  | .object (f :: rest), tail =>
      '\x7b' :: prettyFields (depth + 1) true (f :: rest) (newline depth ++ '\x7d' :: tail)
  | v, tail => compactThen v tail

def prettyItems (depth : Nat) : Bool → List Value → List Char → List Char
  | _, [], tail => tail
  | first, v :: rest, tail =>
      let more := newline depth ++ prettyThen depth v (prettyItems depth false rest tail)
      if first then more else ',' :: more

def prettyFields (depth : Nat) : Bool → List (String × Value) → List Char → List Char
  | _, [], tail => tail
  | first, (k, v) :: rest, tail =>
      let more := newline depth ++
        (quoted k ++ ':' :: ' ' :: prettyThen depth v (prettyFields depth false rest tail))
      if first then more else ',' :: more

end

/-- The value on one line, without blanks. -/
def compact (v : Value) : String := String.ofList (compactThen v [])

/-- The value indented by two spaces. -/
def pretty (v : Value) : String := String.ofList (prettyThen 0 v [])

/-- Text as it is, any other value as compact JSON. -/
def plain : Value → String
  | .text s => s
  | v => v.compact

end Value
end PullFlow
