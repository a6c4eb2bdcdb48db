import PullFlow.Component.Lifecycle

/-!
What a component may ask of its surroundings while it computes: variables, files and other
resources of the host, the payloads of feeding flows, calls of other flows. The component is
suspended until the answer comes.
-/

namespace PullFlow

/-- A sink of a flow: the tee at a position of the chain, or the sink at its end. -/
inductive Seat where
  | tee (position : Nat)
  | terminal
  deriving DecidableEq, Repr

/-- One producer's side of a connection between flows: the sink that feeds, the flow it belongs to
and the flow it feeds. On demand, the consumer pulls through the producer's chain; otherwise it
reads what the sink was given last. -/
structure Outflow where
  producer : String
  target : String
  flow : FlowId
  seat : Seat
  onDemand : Bool
  deriving DecidableEq, Repr

/-- What the host is asked for. -/
inductive HostRequest where
  /-- The next line of the input, null at its end. -/
  | readLine
  /-- The content of a file, as text or as a list of bytes. -/
  | readFile (path : String) (binary : Bool)
  /-- Text for a file, behind its content or in its place. -/
  | writeFile (path text : String) (append : Bool)
  /-- Text for the output. -/
  | print (text : String)
  /-- The present moment, in nanoseconds since the start of 1970. -/
  | moment

/-- What a component asks for. -/
inductive Request where
  /-- The value of a variable. A missing one is waited for, or read as null. -/
  | look (scope : ScopeId) (key : String) (wait : Bool)
  /-- A variable to be written; with `first`, the write must be the first one. -/
  | write (scope : ScopeId) (key : String) (v : Value) (first : Bool)
  | host (r : HostRequest)
  /-- The payload of a feeding flow. -/
  | payload (o : Outflow)
  /-- A call of a flow, which is known by its name and its position. -/
  | call (name : String) (flow : FlowId) (payload : Value)
  /-- A stop of all flows of the set. -/
  | stopAll
  /-- Lines for the journal. -/
  | note (notes : List Note)

end PullFlow
