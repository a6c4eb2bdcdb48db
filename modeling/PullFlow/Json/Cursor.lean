import PullFlow.Value

/-!
A place in JSON text, what can be wrong there, and the moves over blanks. Lines count from one.
A column is the number of bytes before it in its line. A fault found while looking at the next
byte is placed behind that byte; a fault found in what was read is placed where reading stands.
-/

namespace PullFlow.Json

/-- A line and a column. -/
structure Place where
  line : Nat
  column : Nat
  deriving Repr, DecidableEq

/-- The place behind a character. -/
def Place.past (p : Place) (c : Char) : Place :=
  if c = '\n' then ⟨p.line + 1, 0⟩ else ⟨p.line, p.column + c.utf8Size⟩

/-- What was found where something else was expected. -/
inductive Found where
  | null
  | bool (b : Bool)
  | number (n : Number)
  | text (s : String)
  | list
  | object

/-- What is wrong with a text: first the faults of syntax, then those of shape. -/
inductive Fault where
  | endInList
  | endInObject
  | endInText
  | endInValue
  | expectedColon
  | expectedListSeparator
  | expectedObjectSeparator
  | expectedWord
  | expectedValue
  | badEscape
  | badNumber
  | numberTooLarge
  | controlCharacter
  | keyNotText
  | loneSurrogate
  | trailingComma
  | trailingCharacters
  | endOfEscape
  | tooDeep
  | wrongSort (found : Found) (expected : String)
  | missingField (name : String)
  | unknownField (name : String) (known : List String)
  | repeatedField (name : String)
  | wrongLength (length : Nat) (expected : String)
  | noVariant (type : String)

/-- A cursor in a text: what is still to be read and the place reached. -/
structure Cursor where
  rest : List Char
  place : Place

/-- Why reading stopped. A fault of shape is found before its place is known: it gets the place
where the enclosing structure is left. -/
inductive Stop where
  | placed (fault : Fault) (place : Place)
  | floating (fault : Fault) (cursor : Cursor)

/-- Reading at a cursor. -/
abbrev Read (α : Type) := Except Stop (α × Cursor)

/-- A fault with its place. -/
structure Misread where
  fault : Fault
  place : Place

namespace Cursor

def ofText (s : String) : Cursor := ⟨s.toList, ⟨1, 0⟩⟩

/-- The cursor behind the character `c`, which is followed by `rest`. -/
def past (cur : Cursor) (c : Char) (rest : List Char) : Cursor := ⟨rest, cur.place.past c⟩

/-- The place behind the next byte. -/
def ahead (cur : Cursor) : Place :=
  match cur.rest with
  | [] => cur.place
  | c :: _ => if c = '\n' then ⟨cur.place.line + 1, 0⟩ else ⟨cur.place.line, cur.place.column + 1⟩

/-- A fault seen in the next byte. -/
def refuse {α : Type} (cur : Cursor) (fault : Fault) : Except Stop α :=
  .error (.placed fault cur.ahead)

/-- A fault in what was read last. -/
def reject {α : Type} (cur : Cursor) (fault : Fault) : Except Stop α :=
  .error (.placed fault cur.place)

/-- Blank in JSON: space, tab, line feed and carriage return. -/
def isGap (c : Char) : Bool := c = ' ' || c = '\n' || c = '\t' || c = '\r'

def skipGaps (place : Place) : List Char → Cursor
  | [] => ⟨[], place⟩
  | c :: rest => if isGap c then skipGaps (place.past c) rest else ⟨c :: rest, place⟩

/-- The cursor at the next character that is not blank. -/
def skip (cur : Cursor) : Cursor := skipGaps cur.place cur.rest

end Cursor

/-- A stop with its place: a floating fault is placed where the cursor stood. -/
def Stop.misread : Stop → Misread
  | .placed fault place => ⟨fault, place⟩
  | .floating fault cursor => ⟨fault, cursor.place⟩

end PullFlow.Json
