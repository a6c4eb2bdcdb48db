import PullFlow.Value.Render
import PullFlow.Text.Blank

/-!
Which payloads count as true, the spellings of a boolean, and the short form of a value in
messages.
-/

namespace PullFlow

/-- The boolean a word spells, in any case and with blanks around it. -/
def Text.toBool? (s : String) : Option Bool :=
  let word := lowerAscii (trim s)
  if word = "true" ∨ word = "yes" ∨ word = "on" then some true
  else if word = "false" ∨ word = "no" ∨ word = "off" then some false
  else none

namespace Value

/-- Whether a payload counts as true: a text that spells a boolean counts as that boolean. -/
def truthy : Value → Bool
  | .null => false
  | .bool b => b
  | .number n => n.toFloat != 0.0
  | .text s => (Text.toBool? s).getD (s != "")
  | .list items => !items.isEmpty
  | .object fields => !fields.isEmpty

/-- The value on one line of at most `limit` characters, the last three being dots if it was cut.
The dots stand even where `limit` is less than three. -/
def short (limit : Nat) (v : Value) : String :=
  let cs := v.plain.toList.map fun c => if c = '\n' then ' ' else c
  if limit < cs.length then String.ofList (cs.take (limit - 3)) ++ "..." else String.ofList cs

/-- The short form used inside error messages. -/
def brief (v : Value) : String := v.short 40

end Value
end PullFlow
