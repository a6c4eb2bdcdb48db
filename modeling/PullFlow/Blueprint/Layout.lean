import PullFlow.Blueprint
import PullFlow.Value.Render

/-!
Writing a document as a value and as text. Parts that are not given are left out, and a component
known by its kind alone is written as an object too. A value has its fields in the order of their
keys; in a text they stand in their own order.
-/

namespace PullFlow

/-- A parameter as a value. -/
def Param.toValue : Param → Value
  | .var key => .object [("var", .text key)]
  | .flow name => .object [("flow", .text name)]
  | .literal v => v

namespace Blueprint

/-- The fields of which something is given. -/
def stated (fields : List (String × Option Value)) : List (String × Value) :=
  fields.filterMap fun (key, v) => v.map (key, ·)

/-- The object of the fields of which something is given. -/
def given (fields : List (String × Option Value)) : Value := .object (Fields.ofList (stated fields))

/-- A list, if it is not empty. -/
def listed? (items : List Value) : Option Value :=
  if items.isEmpty then none else some (.list items)

/-- An object, if it is not empty. -/
def fielded? (fields : List (String × Value)) : Option Value :=
  if fields.isEmpty then none else some (.object fields)

def Part.fields (p : Part) : List (String × Option Value) :=
  [("kind", some (.text p.kind)), ("name", p.name.map .text),
    ("args", listed? (p.args.map Param.toValue)),
    ("params", fielded? (p.params.map fun f => (f.1, f.2.toValue)))]

def Flow.fields (part : Part → Value) (link : Link → Value) (f : Flow) :
    List (String × Option Value) :=
  [("name", f.name.map .text), ("source", f.source.map part),
    ("operators", listed? (f.operators.map link)), ("sink", f.sink.map part),
    ("monitor", f.monitor.map part)]

def Document.fields (flow : Flow → Value) (d : Document) : List (String × Option Value) :=
  [("flows", some (.list (d.flows.map flow))), ("globals", fielded? d.globals)]

/-! As a value. -/

def Part.toValue (p : Part) : Value := given p.fields

def Link.toValue : Link → Value
  | .tee sink => .object [("to", sink.toValue)]
  | .operator part => part.toValue

def Flow.toValue (f : Flow) : Value := given (f.fields Part.toValue Link.toValue)

def Document.toValue (d : Document) : Value := given (d.fields Flow.toValue)

/-! As it stands in a text. -/

def Part.written (p : Part) : Value := .object (stated p.fields)

def Link.written : Link → Value
  | .tee sink => .object [("to", sink.written)]
  | .operator part => part.written

def Flow.written (f : Flow) : Value := .object (stated (f.fields Part.written Link.written))

def Document.written (d : Document) : Value := .object (stated (d.fields Flow.written))

/-- The document as compact JSON. -/
def Document.text (d : Document) : String := d.written.compact

end Blueprint
end PullFlow
