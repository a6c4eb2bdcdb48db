import PullFlow.Decimal.Numeral

/-!
The values that travel through flows: null, booleans, numbers, text, lists and objects. An integer
and a float are different numbers even when they are equal as reals. The fields of an object are
kept in the order of their keys, each key once; `Fields.put` keeps them so.
-/

namespace PullFlow

/-- A number as it was written: with a fraction or an exponent it is a float. -/
inductive Number where
  | int (n : Int)
  | float (x : Float)

namespace Number

/-- The float nearest to a number. -/
def toFloat : Number → Float
  | .int n => if n < 0 then -(Float.ofScientific n.natAbs false 0) else .ofScientific n.natAbs false 0
  | .float x => x

/-- The integer itself where it fits a signed word of 64 bits; a float is none. -/
def toInt64? : Number → Option Int
  | .int n => if Decimal.fitsSigned n then some n else none
  | .float _ => none

/-- Equality of numbers of one sort; floats compare as floats. -/
def same : Number → Number → Bool
  | .int a, .int b => a == b
  | .float a, .float b => a == b
  | _, _ => false

end Number

/-- A payload. -/
inductive Value where
  | null
  | bool (b : Bool)
  | number (n : Number)
  | text (s : String)
  | list (items : List Value)
  | object (fields : List (String × Value))

instance : Inhabited Value := ⟨.null⟩

namespace Fields

variable {α : Type}

/-- Writes a field, in the order of keys; a field of the same key is replaced. -/
def put (key : String) (a : α) : List (String × α) → List (String × α)
  | [] => [(key, a)]
  | (k, b) :: rest =>
      if key < k then (key, a) :: (k, b) :: rest
      else if key = k then (key, a) :: rest
      else (k, b) :: put key a rest

/-- The field of a key. -/
def get? (key : String) (fields : List (String × α)) : Option α := fields.lookup key

/-- The fields without that of a key. -/
def erase (key : String) (fields : List (String × α)) : List (String × α) :=
  fields.filter (·.1 != key)

/-- Fields written one after the other, so that of one key the last stays. -/
def ofList (fields : List (String × α)) : List (String × α) :=
  fields.foldl (fun done field => put field.1 field.2 done) []

def keys (fields : List (String × α)) : List String := fields.map (·.1)

end Fields

namespace Value

def int (n : Int) : Value := .number (.int n)

/-- A float as a value; infinities and not-a-number are null. -/
def float (x : Float) : Value := if x.isFinite then .number (.float x) else .null

def isNull : Value → Bool
  | .null => true
  | _ => false

/-- The integer of 64 bits a value is. -/
def toInt64? : Value → Option Int
  | .number n => n.toInt64?
  | _ => none

/-- The number a value is, as a float. -/
def toFloat? : Value → Option Float
  | .number n => some n.toFloat
  | _ => none

def toText? : Value → Option String
  | .text s => some s
  | _ => none

def toBool? : Value → Option Bool
  | .bool b => some b
  | _ => none

mutual

/-- Equality of values: numbers by `Number.same`, all else by structure. -/
def same : Value → Value → Bool
  | .null, .null => true
  | .bool a, .bool b => a == b
  | .number a, .number b => a.same b
  | .text a, .text b => a == b
  | .list as, .list bs => sameItems as bs
  | .object as, .object bs => sameFields as bs
  | _, _ => false

def sameItems : List Value → List Value → Bool
  | [], [] => true
  | a :: as, b :: bs => same a b && sameItems as bs
  | _, _ => false

def sameFields : List (String × Value) → List (String × Value) → Bool
  | [], [] => true
  | (k, a) :: as, (l, b) :: bs => k == l && same a b && sameFields as bs
  | _, _ => false

end

instance : BEq Value := ⟨same⟩

mutual

/-- A value whose objects hold their fields in the order of keys, of a repeated key the last. -/
def tidy : Value → Value
  | .list items => .list (tidyItems items)
  | .object fields => .object (Fields.ofList (tidyFields fields))
  | v => v

def tidyItems : List Value → List Value
  | [] => []
  | v :: rest => tidy v :: tidyItems rest

def tidyFields : List (String × Value) → List (String × Value)
  | [] => []
  | (k, v) :: rest => (k, tidy v) :: tidyFields rest

end

end Value
end PullFlow
