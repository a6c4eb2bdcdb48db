import PullFlow.Text.Delimited
import PullFlow.Operator.Convert

/-!
The functions on lists. Sums and products stay integers when every item is one. The largest and the
smallest item are looked for from the left, so of equal items the first wins; items are compared
as floats or as text, and one that cannot be compared with the best so far is an error.
-/

namespace PullFlow.Operator

/-- The functions of a whole list. -/
inductive ListFunction where
  | head
  | tail
  | last
  | init
  | reverse
  | sum
  | avg
  | prod
  | max
  | min
  | ints
  | floats
  deriving DecidableEq, Repr

namespace ListFunction

def name : ListFunction → String
  | head => "head"
  | tail => "tail"
  | last => "last"
  | init => "init"
  | reverse => "reverse"
  | sum => "sum"
  | avg => "avg"
  | prod => "prod"
  | max => "max"
  | min => "min"
  | ints => "ints"
  | floats => "floats"

/-- The name under which a list operator reports errors. -/
def component (name : String) : String := "lst." ++ name

def empty (name : String) : Error := .evaluation (component name) "empty list"

/-- The numbers of a list: integers if all are, else floats. -/
inductive Numbers where
  | ints (items : List Int)
  | floats (items : List Float)

def floatItem (name : String) (v : Value) : Except Error Float :=
  match v.toFloat? with
  | some x => .ok x
  | none => .error (.evaluation (component name) (v.brief ++ " is not a number"))

def numbers (name : String) (items : List Value) : Except Error Numbers :=
  match items.mapM Value.toInt64? with
  | some ns => .ok (.ints ns)
  | none => (items.mapM (floatItem name)).map .floats

/-- A sum of floats starts from minus zero, which changes no float. -/
def floatSum (xs : List Float) : Float := xs.foldl (· + ·) (-0.0)

def floatProduct (xs : List Float) : Float := xs.foldl (· * ·) 1.0

def intFloat (n : Int) : Float := (Number.int n).toFloat

/-- How two items compare, if they can be compared. -/
def compare? : Value → Value → Option Ordering
  | .number a, .number b =>
      let x := a.toFloat
      let y := b.toFloat
      if x < y then some .lt else if y < x then some .gt else if x == y then some .eq else none
  | .text a, .text b => some (if a < b then .lt else if a = b then .eq else .gt)
  | _, _ => none

/-- The best of an item and the items after it, where `keep` says how a better one compares. -/
def extreme (name : String) (keep : Ordering) (best : Value) : List Value → Outcome
  | [] => .ok best
  | v :: rest =>
      match compare? v best with
      | some o => extreme name keep (if o = keep then v else best) rest
      | none =>
          .error (.evaluation (component name)
            ("cannot compare " ++ v.brief ++ " with " ++ best.brief))

def extremeOf (name : String) (keep : Ordering) : List Value → Outcome
  | [] => .error (empty name)
  | v :: rest => extreme name keep v rest

/-- Applies a function to a list. -/
def apply (f : ListFunction) (items : List Value) : Outcome :=
  match f with
  | head => match items with
      | [] => .error (empty "head")
      | v :: _ => .ok v
  | tail => .ok (.list (items.drop 1))
  | last => match items.getLast? with
      | some v => .ok v
      | none => .error (empty "last")
  | init => .ok (.list items.dropLast)
  | reverse => .ok (.list items.reverse)
  | sum => (numbers "sum" items).map fun
      | .ints ns => .int (ns.foldl (· + ·) 0)
      | .floats xs => .float (floatSum xs)
  | prod => (numbers "prod" items).map fun
      | .ints ns => .int (ns.foldl (· * ·) 1)
      | .floats xs => .float (floatProduct xs)
  | avg =>
      if items.isEmpty then .error (empty "avg")
      else (numbers "avg" items).map fun ns =>
        let total := match ns with
          | .ints ns => floatSum (ns.map intFloat)
          | .floats xs => floatSum xs
        .float (total / Float.ofScientific items.length false 0)
  | max => extremeOf "max" .gt items
  | min => extremeOf "min" .lt items
  | ints => (items.mapM toInteger).map .list
  | floats => (items.mapM toFloat).map .list

/-- Applies a function to a payload, which must be a list. -/
def applyTo (f : ListFunction) : Value → Outcome
  | .list items => f.apply items
  | v => .error (.notAList (component f.name) v)

end ListFunction

/-- The number of items of a list, characters of a text or fields of an object. -/
def lengthOf : Value → Outcome
  | .list items => .ok (.int items.length)
  | .text s => .ok (.int s.length)
  | .object fields => .ok (.int fields.length)
  | v => .error (.notAList (ListFunction.component "len") v)

/-- The items as text with a delimiter between neighbours. -/
def joined (delimiter : String) : Value → Outcome
  | .list items => .ok (.text (Text.join delimiter (items.map Value.plain)))
  | v => .error (.notAList (ListFunction.component "join") v)

end PullFlow.Operator
