import PullFlow.Chain
import PullFlow.Monitor

/-!
A flow's chain together with the sink at its end: what a flow's lock protects. Its components are
moved through their lives in the order of the chain, the sink last. Attaching, setting up and
starting stop at the first failure; stopping goes through all components.
-/

namespace PullFlow

namespace HookEnd

variable {β : Type}

/-- Goes on unless the first move failed. -/
def andThen (h : HookEnd β) (f : β → HookEnd β) : HookEnd β :=
  match h.result with
  | .ok () =>
      let next := f h.body
      { next with notes := h.notes ++ next.notes }
  | .error _ => h

/-- Goes on whether or not the first move failed, and forgets failures. -/
def anyway (h : HookEnd β) (f : β → HookEnd β) : HookEnd β :=
  let next := f h.body
  ⟨next.body, .ok (), h.notes ++ next.notes⟩

/-- Moves the items of a list in order, until one fails. -/
def each (f : β → HookEnd β) : List β → HookEnd (List β)
  | [] => .pass []
  | b :: bs =>
      let h := f b
      match h.result with
      | .error e => ⟨h.body :: bs, .error e, h.notes⟩
      | .ok () =>
          let rest := each f bs
          ⟨h.body :: rest.body, rest.result, h.notes ++ rest.notes⟩

/-- Moves all items of a list in order and forgets failures. -/
def all (f : β → HookEnd β) : List β → HookEnd (List β)
  | [] => .pass []
  | b :: bs =>
      let h := f b
      let rest := all f bs
      ⟨h.body :: rest.body, .ok (), h.notes ++ rest.notes⟩

end HookEnd

/-- A chain and the sink at its end. -/
structure Pipeline where
  chain : Chain
  sink : Sink

namespace Pipeline

def onSource (f : Source → HookEnd Source) (p : Pipeline) : HookEnd Pipeline :=
  (f p.chain.source).map fun source => { p with chain := { p.chain with source := source } }

def onOperators (f : List Operator → HookEnd (List Operator)) (p : Pipeline) : HookEnd Pipeline :=
  (f p.chain.operators).map fun ops => { p with chain := p.chain.withOperators ops }

def onSink (f : Sink → HookEnd Sink) (p : Pipeline) : HookEnd Pipeline :=
  (f p.sink).map fun sink => { p with sink := sink }

/-- Attaches source, operators and sink. -/
def setContext (ctx : Context) (p : Pipeline) : HookEnd Pipeline :=
  ((p.onSource (Component.setContext ctx)).andThen
    (onOperators (HookEnd.each (Component.setContext ctx)))).andThen
    (onSink (Component.setContext ctx))

/-- Sets up source, operators and sink. -/
def setUp (st : Scope.Store) (p : Pipeline) : HookEnd Pipeline :=
  ((p.onSource (Component.setUp st)).andThen
    (onOperators (HookEnd.each (Component.setUp st)))).andThen
    (onSink (Component.setUp st))

/-- Starts source, operators and sink. -/
def start (p : Pipeline) : HookEnd Pipeline :=
  ((p.onSource Component.start).andThen (onOperators (HookEnd.each Component.start))).andThen
    (onSink Component.start)

/-- Stops source, operators and sink. -/
def stop (p : Pipeline) : HookEnd Pipeline :=
  ((p.onSource Component.stop).anyway (onOperators (HookEnd.all Component.stop))).anyway
    (onSink Component.stop)

/-- Hands the source its inflows and allows reads. -/
def wire (inflows : List Outflow) (p : Pipeline) : HookEnd Pipeline :=
  let h := p.onSource fun source =>
    (source.body.wire inflows).map fun body => { source with body := body }
  match h.result with
  | .ok () => { h with body := { h.body with chain := h.body.chain.link } }
  | .error _ => h

/-- All sinks, the tees first. -/
def sinks (p : Pipeline) : List Sink := p.chain.tees ++ [p.sink]

/-- Whether a sink keeps the flow going. -/
def active (state : FlowId → FlowState) (p : Pipeline) : Bool :=
  p.sinks.any (·.body.active state)

/-- The tees with their positions among the operators. -/
def seatedTees (c : Chain) : List (Seat × Sink) :=
  c.operators.zipIdx.filterMap fun (op, i) => op.body.tee?.map fun sink => (.tee i, sink)

/-- The connections to the flows that the sinks feed, in the order of the sinks. -/
def outflows (flow : FlowId) (p : Pipeline) : List Outflow :=
  (seatedTees p.chain ++ [(Seat.terminal, p.sink)]).filterMap fun (seat, sink) =>
    sink.body.outflow? flow seat

/-- The sink at a seat. -/
def sinkAt? (seat : Seat) (p : Pipeline) : Option Sink :=
  match seat with
  | .terminal => some p.sink
  | .tee i => p.chain.operators[i]?.bind (·.body.tee?)

/-- The payload that the sink at a seat was given last. -/
def lastPayload (seat : Seat) (p : Pipeline) : Value :=
  match p.sinkAt? seat with
  | some sink => sink.body.lastPayload
  | none => .null

end Pipeline
end PullFlow
