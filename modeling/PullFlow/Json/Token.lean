import PullFlow.Json.Cursor
import PullFlow.Decimal.Numeral

/-!
The tokens of JSON text: words, numbers and texts. A number without fraction and exponent that
fits a word of 64 bits is an integer; every other number, minus zero among them, is a float. A
float is its significand, cut to a word of 64 bits, multiplied or divided once by a power of ten.
-/

namespace PullFlow.Json

/-- Reads the letters of a known word. -/
def readWord (cur : Cursor) : List Char → Except Stop Cursor
  | [] => .ok cur
  | expected :: letters =>
      match cur.rest with
      | [] => cur.reject .endInValue
      | c :: rest =>
          if c = expected then readWord (cur.past c rest) letters else cur.refuse .expectedWord

/-- The digits at the start of a text. -/
def leadingDigits (cur : Cursor) : List Char × Cursor :=
  let ds := cur.rest.takeWhile Char.isDigit
  (ds, ⟨cur.rest.drop ds.length, ⟨cur.place.line, cur.place.column + ds.length⟩⟩)

/-- The digits that still fit a word of 64 bits after the number `n`, their value, and how many
digits do not fit. Once a digit does not fit, none behind it counts. -/
def significand (n : Nat) : List Char → Nat × Nat
  | [] => (n, 0)
  | c :: rest =>
      let next := n * 10 + (c.toNat - '0'.toNat)
      if next < Decimal.wordLimit then significand next rest else (n, rest.length + 1)

/-- `n · 10 ^ e` as a float; `none` if it is beyond the largest. Powers of ten beyond those of
floats are applied in steps. -/
def scaleSteps : Nat → Float → Int → Option Float
  | 0, x, _ => some x
  | fuel + 1, x, e =>
      if e.natAbs ≤ 308 then
        let power := Decimal.tenPower e.natAbs
        if 0 ≤ e then
          let y := x * power
          if y.isInf then none else some y
        else some (x / power)
      else if x == 0.0 then some x
      else if 0 ≤ e then none
      else scaleSteps fuel (x / Decimal.tenPower 308) (e + 308)

/-- The float of a significand and an exponent. -/
def scaled (n : Nat) (e : Int) : Option Float :=
  let x := Float.ofScientific n false 0
  if e < -1000 then some 0.0 else scaleSteps 8 x e

/-- How many digits after the number `n` keep it below the largest exponent that is read. -/
def wordDigits (n : Nat) : List Char → Nat
  | [] => 0
  | c :: rest =>
      let next := n * 10 + (c.toNat - '0'.toNat)
      if next < Decimal.twoToThe 31 then wordDigits next rest + 1 else 0

/-- The float of a number that has been read, if it is not beyond the largest. -/
def finishFloat (negative : Bool) (cur : Cursor) : Option Float → Read Number
  | none => cur.reject .numberTooLarge
  | some x => .ok (.float (if negative then -x else x), cur)

/-- Whether an exponent has a minus sign; a plus sign is passed over, too. -/
def exponentSign (cur : Cursor) : Bool × Cursor :=
  match cur.rest with
  | '+' :: rest => (false, cur.past '+' rest)
  | '-' :: rest => (true, cur.past '-' rest)
  | _ => (false, cur)

/-- Reads the digits of an exponent and gives the float. -/
def readPower (negative down : Bool) (n : Nat) (e : Int) (cur : Cursor) : Read Number :=
  match cur.rest with
  | [] => cur.reject .endInValue
  | c :: _ =>
      if c.isDigit then
        let (ds, after) := leadingDigits cur
        let k := (Decimal.digitsFrom? 0 ds).getD 0
        if Decimal.twoToThe 31 ≤ k then
          -- reading stops at the digit that makes the exponent too large
          let seen := wordDigits 0 ds + 1
          if n != 0 && !down then
            .error (.placed .numberTooLarge ⟨cur.place.line, cur.place.column + seen⟩)
          else finishFloat negative after (some 0.0)
        else finishFloat negative after (scaled n (if down then e - k else e + k))
      else cur.refuse .badNumber

/-- Reads the exponent of a number, if it has one, and gives the float. -/
def readExponent (negative : Bool) (n : Nat) (e : Int) (cur : Cursor) : Read Number :=
  match cur.rest with
  | c :: rest =>
      if c = 'e' ∨ c = 'E' then
        let (down, cur) := exponentSign (cur.past c rest)
        readPower negative down n e cur
      else finishFloat negative cur (scaled n e)
  | [] => finishFloat negative cur (scaled n e)

/-- Reads what follows the digits before a point. -/
def readFraction (negative : Bool) (n : Nat) (dropped : Nat) (cur : Cursor) : Read Number :=
  match cur.rest with
  | '.' :: rest =>
      let cur := cur.past '.' rest
      let (ds, after) := leadingDigits cur
      if ds.isEmpty then
        match cur.rest with
        | [] => cur.refuse .endInValue
        | _ => cur.refuse .badNumber
      else
        let (m, lost) := significand n ds
        readExponent negative m (Int.ofNat dropped - Int.ofNat (ds.length - lost)) after
  | _ => readExponent negative n dropped cur

/-- Whether digits are a whole number, by what follows them: no fraction and no exponent. -/
def isWhole : List Char → Bool
  | [] => true
  | c :: _ => c ≠ '.' && c ≠ 'e' && c ≠ 'E'

/-- Reads a number behind its minus sign, if it has one. -/
def readNumber (negative : Bool) (cur : Cursor) : Read Number :=
  match cur.rest with
  | [] => cur.reject .endInValue
  | c :: rest =>
      if !c.isDigit then cur.refuse .badNumber
      else
        let (ds, after) := leadingDigits cur
        if c = '0' ∧ 1 < ds.length then (cur.past c rest).refuse .badNumber
        else
          let (n, lost) := significand 0 ds
          if lost = 0 ∧ isWhole after.rest = true then
            if !negative then .ok (.int n, after)
            else if n = 0 ∨ Decimal.signedLimit < n then
              .ok (.float (-(Float.ofScientific n false 0)), after)
            else .ok (.int (-(n : Int)), after)
          else readFraction negative n lost after

/-- The value of a digit of base sixteen. -/
def hexValue? (c : Char) : Option Nat :=
  if c.isDigit then some (c.toNat - '0'.toNat)
  else if 'a' ≤ c ∧ c ≤ 'f' then some (c.toNat - 'a'.toNat + 10)
  else if 'A' ≤ c ∧ c ≤ 'F' then some (c.toNat - 'A'.toNat + 10)
  else none

/-- The place behind the next `n` bytes, if there are so many. -/
def pastBytes (place : Place) : Nat → List Char → Option Place
  | 0, _ => some place
  | _, [] => none
  | n + 1, c :: rest =>
      if c.utf8Size ≤ n + 1 then pastBytes (place.past c) (n + 1 - c.utf8Size) rest
      else some ⟨place.line, place.column + n + 1⟩

/-- The place behind a text. -/
def pastAll (place : Place) (cs : List Char) : Place := cs.foldl Place.past place

/-- Reads the four digits of an escape by code. -/
def readCode (cur : Cursor) : Read Nat :=
  match pastBytes cur.place 4 cur.rest with
  | none => .error (.placed .endInText (pastAll cur.place cur.rest))
  | some place =>
      match cur.rest.take 4 |>.mapM hexValue? with
      | some [a, b, c, d] =>
          .ok (((a * 16 + b) * 16 + c) * 16 + d, ⟨cur.rest.drop 4, place⟩)
      | _ => .error (.placed .badEscape place)

/-- Passes a character that the second half of a pair must have. -/
def passPairMark (wanted : Char) (cur : Cursor) : Except Stop Cursor :=
  match cur.rest with
  | [] => cur.reject .endInText
  | c :: rest =>
      if c = wanted then .ok (cur.past c rest) else .error (.placed .endOfEscape cur.ahead)

/-- Reads an escape by code behind its letter: one code, or two that are a pair. -/
def readCodePoint (cur : Cursor) : Except Stop (Char × Cursor) := do
  let (n, cur) ← readCode cur
  if 0xDC00 ≤ n ∧ n ≤ 0xDFFF then cur.reject .loneSurrogate
  else if n < 0xD800 ∨ 0xDBFF < n then return (Char.ofNat n, cur)
  else
    let cur ← passPairMark '\\' cur
    let cur ← passPairMark 'u' cur
    let (m, cur) ← readCode cur
    if m < 0xDC00 ∨ 0xDFFF < m then cur.reject .loneSurrogate
    else return (Char.ofNat (0x10000 + (n - 0xD800) * 0x400 + (m - 0xDC00)), cur)

/-- Reads an escape behind its backslash. -/
def readEscape (cur : Cursor) : Read Char :=
  match cur.rest with
  | [] => cur.reject .endInText
  | c :: rest =>
      let next := cur.past c rest
      match c with
      | '"' => .ok ('"', next)
      | '\\' => .ok ('\\', next)
      | '/' => .ok ('/', next)
      | 'b' => .ok ('\x08', next)
      | 'f' => .ok ('\x0c', next)
      | 'n' => .ok ('\n', next)
      | 'r' => .ok ('\r', next)
      | 't' => .ok ('\t', next)
      | 'u' => readCodePoint next
      | _ => cur.refuse .badEscape

/-- Reads a text behind its opening quote; `done` holds the characters read, backwards. The fuel
is the number of characters left. -/
def readTextFrom : Nat → List Char → Cursor → Read String
  | 0, _, cur => cur.reject .endInText
  | fuel + 1, done, cur =>
      match cur.rest with
      | [] => cur.reject .endInText
      | c :: rest =>
          let next := cur.past c rest
          if c = '"' then .ok (String.ofList done.reverse, next)
          else if c = '\\' then
            match readEscape next with
            | .ok (c, next) => readTextFrom fuel (c :: done) next
            | .error stop => .error stop
          else if c.toNat < 0x20 then next.reject .controlCharacter
          else readTextFrom fuel (c :: done) next

/-- Reads a text behind its opening quote. -/
def readText (cur : Cursor) : Read String := readTextFrom (cur.rest.length + 1) [] cur

end PullFlow.Json
