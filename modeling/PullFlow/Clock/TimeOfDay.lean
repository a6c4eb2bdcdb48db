import PullFlow.Error
import PullFlow.Text.Blank
import PullFlow.Decimal.Numeral

/-!
Times of day and how they are written: hours, minutes and, if given, seconds, with points of two
dots between them. A second of sixty stands for a leap second, the last moment of its minute.
-/

namespace PullFlow.Clock

/-- Whole seconds since midnight and the nanoseconds beyond them. In a leap second the latter go
on from one second. -/
structure TimeOfDay where
  seconds : Nat
  nanos : Nat
  deriving DecidableEq, Repr

namespace TimeOfDay

def midnight : TimeOfDay := ⟨0, 0⟩

def lt (a b : TimeOfDay) : Bool :=
  a.seconds < b.seconds || (a.seconds == b.seconds && a.nanos < b.nanos)

/-- Whether a time is in the window from `start` up to before `stop`; a window that stops before it
starts runs past midnight. -/
def within (start stop now : TimeOfDay) : Bool :=
  if stop.lt start then !now.lt start || now.lt stop else !now.lt start && now.lt stop

/-- Why a text is no time of day. -/
inductive Refusal where
  | outOfRange
  | invalid
  | tooShort
  | tooLong

def Refusal.message : Refusal → String
  | outOfRange => "input is out of range"
  | invalid => "input contains invalid characters"
  | tooShort => "premature end of input"
  | tooLong => "trailing input"

/-- Reads a number of one or two digits up to `limit`; blanks before it are skipped. -/
def readNumber (limit : Nat) (cs : List Char) : Except Refusal (Nat × List Char) :=
  let cs := cs.dropWhile Text.isBlank
  match cs with
  | [] => .error .tooShort
  | c :: rest =>
      if !c.isDigit then .error .invalid
      else
        let (ds, rest) : List Char × List Char := match rest with
          | d :: more => if d.isDigit then ([c, d], more) else ([c], rest)
          | [] => ([c], [])
        let n := (Decimal.digitsFrom? 0 ds).getD 0
        if n ≤ limit then .ok (n, rest) else .error .outOfRange

def readColon : List Char → Except Refusal (List Char)
  | [] => .error .tooShort
  | c :: rest => if c = ':' then .ok rest else .error .invalid

def readEnd : List Char → Except Refusal Unit
  | [] => .ok ()
  | _ => .error .tooLong

/-- Hours, minutes and seconds. -/
def readSeconds (cs : List Char) : Except Refusal TimeOfDay := do
  let (h, cs) ← readNumber 23 cs
  let cs ← readColon cs
  let (m, cs) ← readNumber 59 cs
  let cs ← readColon cs
  let (s, cs) ← readNumber 60 cs
  readEnd cs
  let whole := h * 3600 + m * 60
  return if s = 60 then ⟨whole + 59, 1000000000⟩ else ⟨whole + s, 0⟩

/-- Hours and minutes. -/
def readMinutes (cs : List Char) : Except Refusal TimeOfDay := do
  let (h, cs) ← readNumber 23 cs
  let cs ← readColon cs
  let (m, cs) ← readNumber 59 cs
  readEnd cs
  return ⟨h * 3600 + m * 60, 0⟩

/-- The time of day that a parameter spells. -/
def parse (parameter s : String) : Except Error TimeOfDay :=
  let cs := (Text.trim s).toList
  match readSeconds cs with
  | .ok t => .ok t
  | .error _ =>
      match readMinutes cs with
      | .ok t => .ok t
      | .error why => .error (.configuration (.timeOfDay parameter s why.message))

end TimeOfDay
end PullFlow.Clock
