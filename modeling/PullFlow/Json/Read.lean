import PullFlow.Json.Token

/-!
Reading a value from JSON text. Objects are read with their fields in the order of the text and
with repetitions; `parse` gives the tidy value. Lists and objects nest at most 127 deep.

Every call of a reader spends one unit of fuel, and between two calls a character is consumed, so
twice the length of the text is more than any reading needs.
-/

namespace PullFlow.Json

/-- How deep lists and objects may nest, counted from one above the innermost. -/
def depthLimit : Nat := 128

/-- Enters a list or object: what is left of the nesting depth. -/
def enter (depth : Nat) (cur : Cursor) : Except Stop Nat :=
  if depth ≤ 1 then cur.refuse .tooDeep else .ok (depth - 1)

/-- Looks for another item of a list. At a cursor in front of an item it gives that cursor, and
`none` in front of the closing bracket. -/
def nextItem? (first : Bool) (cur : Cursor) : Except Stop (Option Cursor) :=
  let cur := cur.skip
  match cur.rest with
  | [] => cur.refuse .endInList
  | ']' :: _ => .ok none
  | c :: rest =>
      if first then .ok (some cur)
      else if c = ',' then
        let cur := (cur.past c rest).skip
        match cur.rest with
        | [] => cur.refuse .endInValue
        | ']' :: _ => cur.refuse .trailingComma
        | _ => .ok (some cur)
      else cur.refuse .expectedListSeparator

/-- Looks for another key of an object. In front of a key it gives the cursor behind the quote that
opens it, and `none` in front of the closing brace. -/
def nextKey? (first : Bool) (cur : Cursor) : Except Stop (Option Cursor) :=
  let cur := cur.skip
  match cur.rest with
  | [] => cur.refuse .endInObject
  | '\x7d' :: _ => .ok none
  | c :: rest =>
      if first then
        if c = '"' then .ok (some (cur.past c rest)) else cur.refuse .keyNotText
      else if c = ',' then
        let cur := (cur.past c rest).skip
        match cur.rest with
        | [] => cur.refuse .endInValue
        | '"' :: rest => .ok (some (cur.past '"' rest))
        | '\x7d' :: _ => cur.refuse .trailingComma
        | _ => cur.refuse .keyNotText
      else cur.refuse .expectedObjectSeparator

/-- Reads the colon behind a key. -/
def readColon (cur : Cursor) : Except Stop Cursor :=
  let cur := cur.skip
  match cur.rest with
  | [] => cur.refuse .endInObject
  | ':' :: rest => .ok (cur.past ':' rest)
  | _ => cur.refuse .expectedColon

/-- Leaves a list. A failure keeps the cursor that was reached. -/
def leaveList (cur : Cursor) : Except Stop Unit × Cursor :=
  let cur := cur.skip
  match cur.rest with
  | [] => (cur.refuse .endInList, cur)
  | ']' :: rest => (.ok (), cur.past ']' rest)
  | ',' :: rest =>
      let cur := (cur.past ',' rest).skip
      match cur.rest with
      | ']' :: _ => (cur.refuse .trailingComma, cur)
      | _ => (cur.refuse .trailingCharacters, cur)
  | _ => (cur.refuse .trailingCharacters, cur)

/-- Leaves an object. A failure keeps the cursor that was reached. -/
def leaveObject (cur : Cursor) : Except Stop Unit × Cursor :=
  let cur := cur.skip
  match cur.rest with
  | [] => (cur.refuse .endInObject, cur)
  | '\x7d' :: rest => (.ok (), cur.past '\x7d' rest)
  | ',' :: _ => (cur.refuse .trailingComma, cur)
  | _ => (cur.refuse .trailingCharacters, cur)

/-- Passes over the next character, which is known. -/
def Cursor.step (cur : Cursor) : Cursor :=
  match cur.rest with
  | [] => cur
  | c :: rest => cur.past c rest

mutual

/-- Reads a value as it is written. -/
def readValue : Nat → Nat → Cursor → Except Stop (Value × Cursor)
  | 0, _, cur => cur.refuse .tooDeep
  | fuel + 1, depth, cur =>
      let cur := cur.skip
      match cur.rest with
      | [] => cur.refuse .endInValue
      | c :: rest =>
          let next := cur.past c rest
          if c = 'n' then do return (.null, ← readWord next ['u', 'l', 'l'])
          else if c = 't' then do return (.bool true, ← readWord next ['r', 'u', 'e'])
          else if c = 'f' then do return (.bool false, ← readWord next ['a', 'l', 's', 'e'])
          else if c = '-' then do
            let (n, cur) ← readNumber true next
            return (.number n, cur)
          else if c.isDigit then do
            let (n, cur) ← readNumber false cur
            return (.number n, cur)
          else if c = '"' then do
            let (s, cur) ← readText next
            return (.text s, cur)
          else if c = '[' then do
            let depth ← enter depth cur
            let (items, cur) ← readItems fuel depth true next
            return (.list items, cur)
          else if c = '\x7b' then do
            let depth ← enter depth cur
            let (fields, cur) ← readFields fuel depth true next
            return (.object fields, cur)
          else cur.refuse .expectedValue

/-- Reads the items of a list up to behind its closing bracket. -/
def readItems : Nat → Nat → Bool → Cursor → Except Stop (List Value × Cursor)
  | 0, _, _, cur => cur.refuse .tooDeep
  | fuel + 1, depth, first, cur => do
      match ← nextItem? first cur with
      | none => return ([], cur.skip.step)
      | some cur =>
          let (v, cur) ← readValue fuel depth cur
          let (rest, cur) ← readItems fuel depth false cur
          return (v :: rest, cur)

/-- Reads the fields of an object up to behind its closing brace. -/
def readFields : Nat → Nat → Bool → Cursor → Except Stop (List (String × Value) × Cursor)
  | 0, _, _, cur => cur.refuse .tooDeep
  | fuel + 1, depth, first, cur => do
      match ← nextKey? first cur with
      | none => return ([], cur.skip.step)
      | some cur =>
          let (key, cur) ← readText cur
          let cur ← readColon cur
          let (v, cur) ← readValue fuel depth cur
          let (rest, cur) ← readFields fuel depth false cur
          return ((key, v) :: rest, cur)

end

/-- Enough fuel to read a text. -/
def fuelFor (s : String) : Nat := 2 * s.length + 2

/-- Nothing but blanks may follow a document. -/
def readEnd (cur : Cursor) : Except Stop Unit :=
  let cur := cur.skip
  match cur.rest with
  | [] => .ok ()
  | _ => cur.refuse .trailingCharacters

/-- The value a text holds, as it is written. -/
def parseRaw (s : String) : Except Misread Value :=
  let result : Except Stop Value := do
    let (v, cur) ← readValue (fuelFor s) depthLimit (.ofText s)
    readEnd cur
    return v
  result.mapError Stop.misread

/-- The value a text holds. -/
def parse (s : String) : Except Misread Value := (parseRaw s).map Value.tidy

end PullFlow.Json
