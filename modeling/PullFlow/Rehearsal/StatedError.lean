import PullFlow.Error
import PullFlow.Json.Read

/-!
Errors stated as data: a kind by its name, and the fields of that kind. Scripts use them to make a
flow fail in a given way.
-/

namespace PullFlow.Error

/-- The name of an error's kind. -/
def kind : Error → String
  | document .. => "ParseError"
  | configuration _ => "ConfigurationError"
  | notCallable _ => "NotCallable"
  | invalidState .. => "InvalidState"
  | undefinedKey _ => "UndefinedKey"
  | claimConflict _ => "ClaimConflict"
  | interrupted _ => "Interrupted"
  | unimplemented _ => "UnimplementedOperator"
  | evaluation .. => "Evaluation"
  | host _ => "Io"
  | json _ => "Json"
  | other _ => "Other"
  | overflow => "Panic"

/-- A text field, empty if it is missing. -/
def statedText (fields : List (String × Value)) (key : String) : String :=
  ((Fields.get? key fields).bind Value.toText?).getD ""

/-- A number field, zero if it is missing. -/
def statedNat (fields : List (String × Value)) (key : String) : Nat :=
  (((Fields.get? key fields).bind Value.toInt64?).getD 0).toNat

/-- What is wrong with a text as JSON. -/
def jsonFault (text : String) : String :=
  match Json.parse text with
  | .ok _ => ""
  | .error m => m.wording

/-- The error of a kind and its fields; a kind that is not known gives none. -/
def stated? (name : String) (fields : List (String × Value)) : Option Error :=
  let text := statedText fields
  match name with
  | "ParseError" => some (document (statedNat fields "line") (statedNat fields "col") (text "message"))
  | "ConfigurationError" => some (configuration (.stated (text "message")))
  | "NotCallable" => some (notCallable (text "flow"))
  | "InvalidState" => some (invalidState (text "component") (text "expected") (text "actual"))
  | "UndefinedKey" => some (undefinedKey (text "key"))
  | "ClaimConflict" => some (claimConflict (text "key"))
  | "Interrupted" => some (interrupted (text "key"))
  | "UnimplementedOperator" => some (unimplemented "UnimplementedOperator")
  | "Evaluation" => some (evaluation (text "component") (text "message"))
  | "Io" => some (host (text "message"))
  | "Json" => some (json (jsonFault (text "text")))
  | "Other" => some (other (text "message"))
  | _ => none

end PullFlow.Error
