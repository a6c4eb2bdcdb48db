import PullFlow.Text.Attached
import PullFlow.Text.Formless

/-!
Text as messages and summaries quote it: between double quotes, with quotes, backslashes and
whatever would not be seen, or would hang on its neighbour, written as escapes. A character without
a short escape is written by its number in base sixteen.
-/

namespace PullFlow.Text

/-- A character between double quotes. -/
def visible (c : Char) : List Char :=
  match c with
  | '"' => ['\\', '"']
  | '\\' => ['\\', '\\']
  | '\n' => ['\\', 'n']
  | '\r' => ['\\', 'r']
  | '\t' => ['\\', 't']
  | '\x00' => ['\\', '0']
  | c =>
      if isAttached c || isFormless c then
        ['\\', 'u', '\x7b'] ++ Nat.toDigits 16 c.toNat ++ ['\x7d']
      else [c]

/-- Text between double quotes. -/
def inDoubleQuotes (s : String) : String := String.ofList ('"' :: s.toList.flatMap visible ++ ['"'])

end PullFlow.Text
