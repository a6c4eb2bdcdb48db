import PullFlow.Json.Cursor
import PullFlow.Value.Render
import PullFlow.Text.Visible

/-!
The wording of what is wrong with a JSON text.
-/

namespace PullFlow.Json

/-- A name between the marks that messages put around names. -/
def ticked (s : String) : String :=
  let mark := Char.ofNat 0x60
  String.ofList (mark :: s.toList ++ [mark])

def Found.wording : Found → String
  | .null => "null"
  | .bool b => "boolean " ++ ticked (if b then "true" else "false")
  | .number (.int n) => "integer " ++ ticked (toString n)
  | .number (.float x) => "floating point " ++ ticked (Number.float x).text
  | .text s => "string " ++ Text.inDoubleQuotes s
  | .list => "sequence"
  | .object => "map"

/-- The known names as a message lists them. -/
def listing : List String → String
  | [] => "there are no fields"
  | [a] => "expected " ++ ticked a
  | [a, b] => "expected " ++ ticked a ++ " or " ++ ticked b
  | names => "expected one of " ++ ", ".intercalate (names.map ticked)

def Fault.wording : Fault → String
  | .endInList => "EOF while parsing a list"
  | .endInObject => "EOF while parsing an object"
  | .endInText => "EOF while parsing a string"
  | .endInValue => "EOF while parsing a value"
  | .expectedColon => "expected " ++ ticked ":"
  | .expectedListSeparator => "expected " ++ ticked "," ++ " or " ++ ticked "]"
  | .expectedObjectSeparator => "expected " ++ ticked "," ++ " or " ++ ticked "\x7d"
  | .expectedWord => "expected ident"
  | .expectedValue => "expected value"
  | .badEscape => "invalid escape"
  | .badNumber => "invalid number"
  | .numberTooLarge => "number out of range"
  | .controlCharacter =>
      "control character (\\u0000-\\u001F) found while parsing a string"
  | .keyNotText => "key must be a string"
  | .loneSurrogate => "lone leading surrogate in hex escape"
  | .trailingComma => "trailing comma"
  | .trailingCharacters => "trailing characters"
  | .endOfEscape => "unexpected end of hex escape"
  | .tooDeep => "recursion limit exceeded"
  | .wrongSort found expected => "invalid type: " ++ found.wording ++ ", expected " ++ expected
  | .missingField name => "missing field " ++ ticked name
  | .unknownField name known => "unknown field " ++ ticked name ++ ", " ++ listing known
  | .repeatedField name => "duplicate field " ++ ticked name
  | .wrongLength n expected => "invalid length " ++ toString n ++ ", expected " ++ expected
  | .noVariant type => "data did not match any variant of untagged enum " ++ type

/-- The fault and its place. -/
def Misread.wording (m : Misread) : String :=
  m.fault.wording ++ " at line " ++ toString m.place.line ++ " column " ++ toString m.place.column

end PullFlow.Json
