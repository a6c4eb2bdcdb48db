import PullFlow.Operator.ListFunction
import PullFlow.Hash.Sha256
import PullFlow.Json.Read

/-!
The operators that turn one payload into another and keep nothing between two payloads.
-/

namespace PullFlow.Operator

/-- A function from payloads to payloads. -/
inductive Pure where
  | noop
  /-- Equality with a value, or membership if that is a list. -/
  | equals (target : Value)
  | negate
  | text
  | int
  | float
  | hash
  /-- Follows a path into objects and lists. -/
  | get (path : List String)
  /-- Whether a key, an item or a part of a text is among the names. -/
  | has (names : List Value)
  | all
  | any
  /-- Cuts text at a delimiter, or at blanks. -/
  | split (delimiter : Option String)
  | list (f : ListFunction)
  | length
  | join (delimiter : String)
  | toJson (pretty : Bool)
  | fromJson

namespace Pure

/-- The items of a list or the values of an object. -/
def itemsOf (component : String) : Value → Except Error (List Value)
  | .list items => .ok items
  | .object fields => .ok (fields.map (·.2))
  | v => .error (.notAList component v)

/-- The value under one name of a path. -/
def member? (name : String) : Value → Option Value
  | .object fields => Fields.get? name fields
  | .list items => (Decimal.natural64? name).bind (items[·]?)
  | _ => none

/-- The value at the end of a path, null if it leads nowhere. -/
def follow (v : Value) : List String → Value
  | [] => v
  | name :: rest =>
      match member? name v with
      | some next => follow next rest
      | none => .null

/-- Whether a value contains a name. -/
def holds (v name : Value) : Bool :=
  match v, name with
  | .object fields, .text key => (Fields.get? key fields).isSome
  | .list items, name => items.any (name == ·)
  | .text s, .text part => Text.contains s part
  | _, _ => false

def parts (delimiter : Option String) (s : String) : List Value :=
  match delimiter with
  | some d => (Text.split d s).map .text
  | none => (Text.words s).map .text

def readJson (s : String) : Outcome :=
  match Json.parse s with
  | .ok v => .ok v
  | .error m => .error (.evaluation "fmt.fromjson" ("invalid JSON: " ++ m.wording))

/-- Applies an operator to a payload. -/
def apply (p : Pure) (v : Value) : Outcome :=
  match p with
  | noop => .ok v
  | equals (.list items) => .ok (.bool (items.any (v == ·)))
  | equals target => .ok (.bool (target == v))
  | negate => .ok (.bool (!v.truthy))
  | text => .ok (.text v.plain)
  | int => toInteger v
  | float => toFloat v
  | hash =>
      if v.isNull then .ok .null
      else .ok (.text (Hash.Sha256.digest v.plain.toUTF8.toList))
  | get path => .ok (follow v path)
  | has names => .ok (.bool (names.any (holds v)))
  | all => (itemsOf "all" v).map fun items => .bool (items.all Value.truthy)
  | any => (itemsOf "any" v).map fun items => .bool (items.any Value.truthy)
  | split delimiter => if v.isNull then .ok .null else .ok (.list (parts delimiter v.plain))
  | list f => f.applyTo v
  | length => lengthOf v
  | join delimiter => joined delimiter v
  | toJson pretty =>
      if v.isNull then .ok .null else .ok (.text (if pretty then v.pretty else v.compact))
  | fromJson =>
      match v with
      | .null => .ok .null
      | .text s => readJson s
      | v => .error (.evaluation "fmt.fromjson" ("expected a string, got " ++ v.brief))

end Pure
end PullFlow.Operator
