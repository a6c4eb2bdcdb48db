import PullFlow.Clock.Calendar

/-!
Formats of moments: text in which a percent sign and a letter stand for a part of the moment. A
mark between the two changes the padding of a number; it is refused on anything but one number. A
format with an unknown letter is refused as a whole. Moments are shown in universal time.
-/

namespace PullFlow.Clock

/-- What a number is padded with. -/
inductive Pad where
  | none
  | zero
  | blank
  deriving DecidableEq

/-- An item of a format. -/
inductive Item where
  | literal (s : String)
  | number (width : Nat) (pad : Pad) (part : Moment → Nat)
  | words (text : Moment → String)

def padded (width : Nat) (pad : Pad) (n : Nat) : String :=
  let ds := Nat.toDigits 10 n
  match pad with
  | .none => String.ofList ds
  | .zero => String.ofList (List.replicate (width - ds.length) '0' ++ ds)
  | .blank => String.ofList (List.replicate (width - ds.length) ' ' ++ ds)

def Item.text (t : Moment) : Item → String
  | .literal s => s
  | .number width pad part => padded width pad (part t)
  | .words f => f t

def weekdays : List String :=
  ["Sunday", "Monday", "Tuesday", "Wednesday", "Thursday", "Friday", "Saturday"]

def months : List String :=
  ["January", "February", "March", "April", "May", "June", "July", "August", "September",
    "October", "November", "December"]

def weekdayName (t : Moment) : String := (weekdays[t.date.weekday]?).getD ""

def monthName (t : Moment) : String := (months[t.date.month - 1]?).getD ""

def firstThree (s : String) : String := String.ofList (s.toList.take 3)

def hour (t : Moment) : Nat := t.timeOfDay.seconds / 3600

def hour12 (t : Moment) : Nat := (hour t + 11) % 12 + 1

def minute (t : Moment) : Nat := t.timeOfDay.seconds / 60 % 60

def secondOf (t : Moment) : Nat := t.timeOfDay.seconds % 60

/-- The fraction of the second with so many digits. -/
def fraction (digits : Nat) (t : Moment) : String :=
  padded digits .zero (t.subsecond / Decimal.tenToThe (9 - digits))

/-- The fraction of the second behind a point, with as few groups of three digits as it needs. -/
def shortFraction (t : Moment) : String :=
  if t.subsecond = 0 then ""
  else if t.subsecond % 1000000 = 0 then "." ++ fraction 3 t
  else if t.subsecond % 1000 = 0 then "." ++ fraction 6 t
  else "." ++ fraction 9 t

/-- A number of two digits. -/
def two (part : Moment → Nat) : Item := .number 2 .zero part

def twoText (part : Moment → Nat) (t : Moment) : String := padded 2 .zero (part t)

def clockText (t : Moment) : String :=
  twoText hour t ++ ":" ++ twoText minute t ++ ":" ++ twoText secondOf t

def slashDate (t : Moment) : String :=
  twoText (·.date.month) t ++ "/" ++ twoText (·.date.day) t ++ "/" ++
    twoText (fun t => t.date.year % 100) t

def dashDate (t : Moment) : String :=
  padded 4 .zero t.date.year ++ "-" ++ twoText (·.date.month) t ++ "-" ++ twoText (·.date.day) t

def halfDay (t : Moment) : String := if hour t < 12 then "AM" else "PM"

/-- The item of a letter. -/
def letterItem? : Char → Option Item
  | 'A' => some (.words weekdayName)
  | 'a' => some (.words fun t => firstThree (weekdayName t))
  | 'B' => some (.words monthName)
  | 'b' | 'h' => some (.words fun t => firstThree (monthName t))
  | 'C' => some (two fun t => t.date.year / 100)
  | 'c' => some (.words fun t =>
      firstThree (weekdayName t) ++ " " ++ firstThree (monthName t) ++ " " ++
        padded 2 .blank t.date.day ++ " " ++ clockText t ++ " " ++ padded 4 .zero t.date.year)
  | 'D' | 'x' => some (.words slashDate)
  | 'd' => some (two (·.date.day))
  | 'e' => some (.number 2 .blank (·.date.day))
  | 'F' => some (.words dashDate)
  | 'f' => some (.number 9 .zero Moment.subsecond)
  | 'G' => some (.number 4 .zero fun t => t.date.isoWeek.1)
  | 'g' => some (two fun t => t.date.isoWeek.1 % 100)
  | 'H' => some (two hour)
  | 'I' => some (two hour12)
  | 'j' => some (.number 3 .zero (·.date.dayOfYear))
  | 'k' => some (.number 2 .blank hour)
  | 'l' => some (.number 2 .blank hour12)
  | 'M' => some (two minute)
  | 'm' => some (two (·.date.month))
  | 'n' => some (.words fun _ => "\n")
  | 'P' => some (.words fun t => (if hour t < 12 then "am" else "pm"))
  | 'p' => some (.words halfDay)
  | 'q' => some (.number 1 .zero fun t => (t.date.month + 2) / 3)
  | 'R' => some (.words fun t => twoText hour t ++ ":" ++ twoText minute t)
  | 'r' => some (.words fun t =>
      twoText hour12 t ++ ":" ++ twoText minute t ++ ":" ++ twoText secondOf t ++ " " ++ halfDay t)
  | 'S' => some (two secondOf)
  | 's' => some (.number 1 .none Moment.seconds)
  | 'T' | 'X' => some (.words clockText)
  | 't' => some (.words fun _ => "\t")
  | 'U' => some (two (·.date.weekFromSunday))
  | 'u' => some (.number 1 .none fun t => t.date.fromMonday + 1)
  | 'V' => some (two fun t => t.date.isoWeek.2)
  | 'v' => some (.words fun t =>
      padded 2 .blank t.date.day ++ "-" ++ firstThree (monthName t) ++ "-" ++
        padded 4 .zero t.date.year)
  | 'W' => some (two (·.date.weekFromMonday))
  | 'w' => some (.number 1 .none (·.date.weekday))
  | 'Y' => some (.number 4 .zero (·.date.year))
  | 'y' => some (two fun t => t.date.year % 100)
  | 'Z' => some (.words fun _ => "+00:00")
  | 'z' => some (.words fun _ => "+0000")
  | '+' => some (.words fun t =>
      dashDate t ++ "T" ++ clockText t ++ shortFraction t ++ "+00:00")
  | '%' => some (.literal "%")
  | _ => none

/-- The item behind a percent sign and a padding mark, and what follows it. -/
def itemBehind? : List Char → Option (Item × List Char)
  | ':' :: ':' :: ':' :: 'z' :: rest => some (.words fun _ => "+00", rest)
  | ':' :: ':' :: 'z' :: rest => some (.words fun _ => "+00:00:00", rest)
  | ':' :: 'z' :: rest => some (.words fun _ => "+00:00", rest)
  | '.' :: 'f' :: rest => some (.words shortFraction, rest)
  | '.' :: '3' :: 'f' :: rest => some (.words fun t => "." ++ fraction 3 t, rest)
  | '.' :: '6' :: 'f' :: rest => some (.words fun t => "." ++ fraction 6 t, rest)
  | '.' :: '9' :: 'f' :: rest => some (.words fun t => "." ++ fraction 9 t, rest)
  | '3' :: 'f' :: rest => some (.words (fraction 3), rest)
  | '6' :: 'f' :: rest => some (.words (fraction 6), rest)
  | '9' :: 'f' :: rest => some (.words (fraction 9), rest)
  | c :: rest => (letterItem? c).map (·, rest)
  | [] => none

/-- An item with another padding, where it is a single number. -/
def repad? (pad : Pad) : Item × List Char → Option (Item × List Char)
  | (.number width _ part, rest) => some (.number width pad part, rest)
  | _ => none

/-- The next item behind a percent sign. -/
def marked? : List Char → Option (Item × List Char)
  | '-' :: rest => (itemBehind? rest).bind (repad? .none)
  | '_' :: rest => (itemBehind? rest).bind (repad? .blank)
  | '0' :: rest => (itemBehind? rest).bind (repad? .zero)
  | '#' :: 'z' :: rest => some (.words fun _ => "", rest)
  | '#' :: _ => none
  | rest => itemBehind? rest

/-- The items of a format; the fuel is its length. -/
def itemsFrom? : Nat → List Char → Option (List Item)
  | _, [] => some []
  | 0, _ :: _ => none
  | fuel + 1, c :: rest =>
      if c = '%' then do
        let (item, rest) ← marked? rest
        let items ← itemsFrom? fuel rest
        return item :: items
      else (itemsFrom? fuel rest).map (.literal (String.singleton c) :: ·)

/-- The items of a format, if it is valid. -/
def items? (format : String) : Option (List Item) := itemsFrom? format.length format.toList

/-- A moment in a format. -/
def formatted (format : String) (t : Moment) : String :=
  String.join (((items? format).getD []).map (Item.text t))

end PullFlow.Clock
