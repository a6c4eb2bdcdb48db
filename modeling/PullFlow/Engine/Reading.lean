import PullFlow.Engine.Access

/-!
Reading chains and feeding sinks, step by step. A chain is evaluated by the thread that holds its
flow's lock, whichever flow that thread belongs to: the flow's own, one that reads it on demand, or
one that calls it. A call puts its payload into the flow's source for as long as the lock is held,
and the thread keeps the names of the flows it is inside calls of.
-/

namespace PullFlow.Engine

/-- Puts a payload into the source of a callable flow, or takes it out. -/
def setInjected (v : Option Value) (p : Pipeline) : Pipeline :=
  match p.chain.source.body with
  | .injected _ =>
      { p with chain := { p.chain with source := { p.chain.source with body := .injected v } } }
  | _ => p

namespace World

/-- The payload that a sink was given last. -/
def lastPayload (w : World) (o : Outflow) : Value :=
  match w.flow? o.flow with
  | some cell => cell.pipeline.lastPayload o.seat
  | none => .null

/-- Serves a request of a component; `back` is where the component's activity goes on. -/
def serve (w : World) (r : Request) (back : Activity) : World × Turn :=
  match r with
  | .look scope key wait => (w, .invoke (lookFor scope key wait) back)
  | .write scope key v first => (w, .invoke (writeTo scope key (.value v) first) back)
  | .host r => (w, .invoke (.host r) back)
  | .payload o =>
      if o.onDemand then (w, .invoke (.demand o.flow) back)
      else (w, .goto back (.ok (w.lastPayload o)))
  | .call name flow payload => (w, .invoke (.call name flow payload .latch) back)
  | .stopAll => if w.stoppable then (w, .invoke (.stopAll w.set) back) else (w, .next back)
  | .note notes => (w.jot notes, .next back)

/-- A step of the evaluation of a chain. -/
def pull (w : World) (flow : FlowId) (p : PullPoint) (answer : Outcome) : Stepped :=
  (w.flow? flow).map fun cell =>
    let (chain, move) := cell.pipeline.chain.step w.clock p answer
    let w := w.setPipeline flow { cell.pipeline with chain := chain }
    match move with
    | .go p => (w, .next (.pull flow p))
    | .ask r p => w.serve r (.pull flow p)
    | .done out => (w, .exit out)

/-- The first step into a chain, by a thread that has the lock. -/
def startPull (w : World) (flow : FlowId) (back : Activity) : Stepped :=
  (w.flow? flow).map fun cell =>
    match cell.pipeline.chain.start with
    | .done out => (w, .goto back out)
    | _ => (w, .invoke (.pull flow .enter) back)

/-- A step of a read. -/
def read (w : World) (t : ThreadId) (flow : FlowId) (answer : Outcome) : ReadPoint → Stepped
  | .lock => (w.lock t flow).map fun w => (w, .next (.read flow .start))
  | .start => w.startPull flow (.read flow .pulled)
  | .pulled => some (w, .next (.read flow (.unlock answer)))
  | .unlock out => some (w.unlock flow, .exit out)

/-- Takes a move of the sink at the end of a flow. -/
def afterSink (w : World) (flow : FlowId) (v : Value) (cell : FlowCell) :
    SinkBody × SinkMove → World × Turn
  | (body, move) =>
      let sink := cell.pipeline.sink
      let w := w.setPipeline flow { cell.pipeline with sink := { sink with body := body } }
      match move with
      | .done d => (w, .next (.push flow v (.performed (sink.passOn d))))
      | .ask r wait => w.serve r (.push flow v (.serving wait))

/-- A step of a push. -/
def push (w : World) (t : ThreadId) (flow : FlowId) (v : Value) (answer : Outcome) :
    PushPoint → Stepped
  | .lock => (w.lock t flow).map fun w => (w, .next (.push flow v .begin))
  | .begin =>
      (w.flow? flow).map fun cell => w.afterSink flow v cell (cell.pipeline.sink.body.perform v)
  | .serving wait =>
      (w.flow? flow).map fun cell =>
        w.afterSink flow v cell (cell.pipeline.sink.body.resume wait answer)
  | .performed (.ok ()) => some (w.unlock flow, .next (.push flow v .emit))
  | .performed (.error e) => some (w.unlock flow, .exit (.error e))
  | .emit => (w.flow? flow).map fun cell => (w.emit (.sinkPerformed cell.name v), .done)

/-- A step of a read on demand: the flow must have started. -/
def demand (w : World) (flow : FlowId) : Stepped :=
  (w.flow? flow).bind fun cell =>
    if cell.released then some (w, .next (.read flow .lock)) else none

/-- A step of a call. -/
def call (w : World) (t : ThreadId) (name : String) (flow : FlowId) (payload : Value)
    (answer : Outcome) (p : CallPoint) : Stepped :=
  let go (w : World) (p : CallPoint) : World × Turn := (w, .next (.call name flow payload p))
  match p with
  | .latch =>
      (w.flow? flow).bind fun cell => if cell.released then some (go w .enter) else none
  | .enter =>
      (w.threads[t]?).map fun th =>
        if th.calls.contains name then
          (w, .exit (.error (.configuration (.callRing (th.calls ++ [name])))))
        else go (w.modifyThread t fun th => { th with calls := th.calls ++ [name] }) .lock
  | .lock => (w.lock t flow).map fun w => go w .inject
  | .inject =>
      let w := w.modifyFlow flow fun cell =>
        { cell with pipeline := setInjected (some payload) cell.pipeline }
      w.startPull flow (.call name flow payload .pulled)
  | .pulled => some (go w (.clear answer))
  | .clear out =>
      let w := w.modifyFlow flow fun cell =>
        { cell with pipeline := setInjected none cell.pipeline }
      some (go w (.unlock out))
  | .unlock out => some (go (w.unlock flow) (.leave out))
  | .leave out =>
      some (w.modifyThread t fun th => { th with calls := th.calls.dropLast }, .exit out)

/-- A step that asks the sinks of a flow whether they are active, when its lock is free. -/
def sinksActive (w : World) (flow : FlowId) : Stepped :=
  (w.flow? flow).bind fun cell =>
    match cell.holder with
    | none => some (w, .exit (.ok (.bool (cell.pipeline.active w.stateOf))))
    | some _ => none

/-- A step of a sleep: it ends with the deadline or with a stop. -/
def sleep (w : World) (flow : FlowId) (deadline : Nat) : Stepped :=
  (w.flow? flow).bind fun cell =>
    if cell.stopped then some (w, .exit (.ok (.bool false)))
    else if deadline ≤ w.clock then some (w, .exit (.ok (.bool true)))
    else none

end World
end PullFlow.Engine
