import PullFlow.Blueprint

/-!
Which values describe components. A component is its kind as a text, an object of its fields, or a
list of its fields in order. Where several readings are allowed they are tried in turn: a parameter
is a variable, else a flow, else a literal; a link is a tee, else an operator. Objects are read as
they were written, so a repeated field spoils a reading.
-/

namespace PullFlow

namespace Blueprint

/-- The only field of an object, or the only item of a list. -/
def only? (field : String) : Value → Option Value
  | .object [(key, v)] => if key = field then some v else none
  | .list [v] => some v
  | _ => none

/-- The text under the only field. -/
def onlyText? (field : String) (v : Value) : Option String := (only? field v).bind Value.toText?

end Blueprint

/-- The parameter a value describes; every value describes one. -/
def Param.ofValue (v : Value) : Param :=
  match Blueprint.onlyText? "var" v with
  | some key => .var key
  | none =>
      match Blueprint.onlyText? "flow" v with
      | some name => .flow name
      | none => .literal v.tidy

namespace Blueprint

def nameOf? : Value → Option (Option String)
  | .null => some none
  | .text s => some (some s)
  | _ => none

def argsOf? : Value → Option (List Param)
  | .list items => some (items.map Param.ofValue)
  | _ => none

def paramsOf? : Value → Option (List (String × Param))
  | .object fields => some (Fields.ofList (fields.map fun f => (f.1, Param.ofValue f.2)))
  | _ => none

/-- The fields of a component read so far. -/
structure Partial where
  kind : Option String := none
  name : Option (Option String) := none
  args : Option (List Param) := none
  params : Option (List (String × Param)) := none

/-- Takes one more field; an unknown or repeated field, or one of the wrong sort, fails. -/
def Partial.take? (p : Partial) (key : String) (v : Value) : Option Partial :=
  if key = "kind" ∧ p.kind.isNone then v.toText?.map fun s => { p with kind := some s }
  else if key = "name" ∧ p.name.isNone then (nameOf? v).map fun s => { p with name := some s }
  else if key = "args" ∧ p.args.isNone then (argsOf? v).map fun s => { p with args := some s }
  else if key = "params" ∧ p.params.isNone then
    (paramsOf? v).map fun s => { p with params := some s }
  else none

/-- The component of the fields read; the kind must be there. -/
def Partial.part? (p : Partial) : Option Part :=
  p.kind.map fun kind => ⟨kind, p.name.getD none, p.args.getD [], p.params.getD []⟩

/-- The fields of a component in the order of a list. -/
def fieldOrder : List String := ["kind", "name", "args", "params"]

/-- The component a value describes. -/
def Part.ofValue? : Value → Option Part
  | .text kind => some (.bare kind)
  | .object fields => (fields.foldlM (fun (p : Partial) field => p.take? field.1 field.2) {}).bind Partial.part?
  | .list items =>
      if items.length ≤ fieldOrder.length then
        ((fieldOrder.zip items).foldlM (fun (p : Partial) field => p.take? field.1 field.2) {}).bind
          Partial.part?
      else none
  | _ => none

/-- The link a value describes. -/
def Link.ofValue? (v : Value) : Option Link :=
  match (only? "to" v).bind Part.ofValue? with
  | some sink => some (.tee sink)
  | none => (Part.ofValue? v).map .operator

end Blueprint
end PullFlow
