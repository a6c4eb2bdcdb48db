import PullFlow.Value

/-!
Blueprints: the description of a set of flows before anything is built. A flow has an optional
name, source, sink and monitor and a chain of links. A link is an operator or a tee, which hands
the value to a sink and passes it on. A parameter is a value, a variable or a flow; the last two
are resolved when the component is set up.
-/

namespace PullFlow

/-- An argument of a component. -/
inductive Param where
  | var (key : String)
  | flow (name : String)
  | literal (v : Value)

/-- The flow a parameter names: by reference, or by a text where a flow is wanted. -/
def Param.flowName? : Param → Option String
  | .flow name => some name
  | .literal (.text s) => some s
  | _ => none

namespace Blueprint

/-- The kind of the components that feed or call another flow. -/
def flowKind : String := "_flowref"

/-- The operator kinds whose first argument names the flow they call. -/
def callingKinds : List String := [flowKind, "map", "filter"]

/-- A component. -/
structure Part where
  kind : String
  name : Option String
  args : List Param
  params : List (String × Param)

/-- A component known by its kind alone. -/
def Part.bare (kind : String) : Part := ⟨kind, none, [], []⟩

/-- The flow that a component of a calling kind calls or feeds. -/
def Part.target? (p : Part) : Option String :=
  if callingKinds.contains p.kind then p.args.head?.bind Param.flowName? else none

/-- One element of a chain. -/
inductive Link where
  | tee (sink : Part)
  | operator (part : Part)

/-- A flow. -/
structure Flow where
  name : Option String
  source : Option Part
  operators : List Link
  sink : Option Part
  monitor : Option Part

/-- A flow of which nothing is given. -/
def Flow.empty : Flow := ⟨none, none, [], none, none⟩

/-- A document: flows, and the variables that all of them share. -/
structure Document where
  flows : List Flow
  globals : List (String × Value)

def Link.tee? : Link → Option Part
  | .tee sink => some sink
  | .operator _ => none

def Link.operator? : Link → Option Part
  | .tee _ => none
  | .operator part => some part

namespace Flow

/-- All sinks: the tees in order, then the sink at the end. -/
def sinks (f : Flow) : List Part := f.operators.filterMap Link.tee? ++ f.sink.toList

/-- The flows that the sinks feed. -/
def outflowTargets (f : Flow) : List String :=
  (f.sinks.filter (·.kind == flowKind)).filterMap Part.target?

/-- The flows that the operators call. -/
def calledFlows (f : Flow) : List String := (f.operators.filterMap Link.operator?).filterMap Part.target?

/-- All components in the order of the chain, the monitor last. -/
def components (f : Flow) : List Part :=
  let linked := f.operators.map fun
    | .tee sink => sink
    | .operator part => part
  f.source.toList ++ linked ++ f.sink.toList ++ f.monitor.toList

end Flow
end Blueprint
end PullFlow
