import PullFlow.Engine.Activity

/-!
The state of a running set of flows: scopes, flows, threads, and what can be seen from outside, the
events and the journal. Every flow has one lock, around its pipeline; every tree of scopes has one
gate, under which readers go to sleep. An operation below changes one flow, one thread or one scope.
-/

namespace PullFlow.Engine

/-- The position of a thread. -/
abbrev ThreadId := Nat

/-- What observers of the flows are told. -/
inductive Event where
  | stateChanged (flow : String) (before after : FlowState)
  | sinkPerformed (flow : String) (payload : Value)
  | pullFailed (flow : String) (error : String)
  | exitConditionMet (flow : String) (condition : ExitCondition)
  | flowFailed (flow : String) (error : String)

/-- The flow an event belongs to. -/
def Event.flow : Event → String
  | stateChanged flow .. | sinkPerformed flow _ | pullFailed flow _ | exitConditionMet flow _
  | flowFailed flow _ => flow

/-- A flow. `holder` is the thread that has the lock. `parked` is the monitor while no thread runs
it. `stopped` cuts its sleeps short, and `released` lets those go on who wait for its start. A
flow whose monitor was suggested by its sink is `sinkDriven`. -/
structure FlowCell where
  name : String
  state : FlowState
  pipeline : Pipeline
  holder : Option ThreadId
  scope : Option ScopeId
  parked : Option Monitor
  monitorKind : String
  threaded : Bool
  callable : Bool
  sinkDriven : Bool
  stopped : Bool
  released : Bool
  thread : Option ThreadId
  inbox : List Order
  outbox : List Outcome

/-- A thread: its activities, the current one first, the outcome that the current one goes on with,
the flows it is inside calls of, and its result once no activity is left. -/
structure Thread where
  stack : List Activity
  answer : Outcome
  calls : List String
  result : Option Outcome

/-- Everything. `set` are the flows of the set in order; flows beside it can be read but are not
started or stopped with it. Scripts may stop the set only if it is `stoppable`. The clock counts
nanoseconds. -/
structure World where
  scopes : Scope.Store
  root : ScopeId
  flows : List FlowCell
  set : List FlowId
  directory : Directory
  threads : List Thread
  clock : Nat
  stoppable : Bool
  events : List Event
  journal : List Note

namespace World

def flow? (w : World) (f : FlowId) : Option FlowCell := w.flows[f]?

def modifyFlow (w : World) (f : FlowId) (g : FlowCell → FlowCell) : World :=
  { w with flows := w.flows.modify f g }

def modifyThread (w : World) (t : ThreadId) (g : Thread → Thread) : World :=
  { w with threads := w.threads.modify t g }

/-- Starts a thread. -/
def spawn (w : World) (a : Activity) : World × ThreadId :=
  ({ w with threads := w.threads ++ [⟨[a], .ok .null, [], none⟩] }, w.threads.length)

def emit (w : World) (e : Event) : World := { w with events := w.events ++ [e] }

def jot (w : World) (notes : List Note) : World := { w with journal := w.journal ++ notes }

/-- The state of a flow; one that does not exist has ended. -/
def stateOf (w : World) (f : FlowId) : FlowState :=
  match w.flow? f with
  | some cell => cell.state
  | none => .ended

/-- Whether a flow has begun to end. -/
def stopping (w : World) (f : FlowId) : Bool := FlowState.ending.rank ≤ (w.stateOf f).rank

/-- Takes the lock of a flow; a thread waits for it while another, or it itself, has it. -/
def lock (w : World) (t : ThreadId) (f : FlowId) : Option World :=
  match w.flow? f with
  | some cell =>
      match cell.holder with
      | none => some (w.modifyFlow f fun cell => { cell with holder := some t })
      | some _ => none
  | none => none

def unlock (w : World) (f : FlowId) : World := w.modifyFlow f fun cell => { cell with holder := none }

def setPipeline (w : World) (f : FlowId) (p : Pipeline) : World :=
  w.modifyFlow f fun cell => { cell with pipeline := p }

/-- Takes the gate of the tree of a scope. -/
def enterGate (w : World) (t : ThreadId) (s : ScopeId) : Option World :=
  let root := w.scopes.rootOf s
  match w.scopes.nodes[root]? with
  | some node =>
      match node.gate with
      | none => some { w with scopes := w.scopes.update root fun node => { node with gate := some t } }
      | some _ => none
  | none => none

def leaveGate (w : World) (s : ScopeId) : World :=
  { w with scopes := w.scopes.update (w.scopes.rootOf s) fun node => { node with gate := none } }

/-- Whether nobody is at the gate of the tree of a scope. -/
def gateFree (w : World) (s : ScopeId) : Bool :=
  match w.scopes.nodes[w.scopes.rootOf s]? with
  | some node => node.gate.isNone
  | none => true

/-- A sleeping reader of a tree goes back to its gate. -/
def rouse (st : Scope.Store) (root : ScopeId) : Activity → Activity
  | .look scope key wait .asleep =>
      .look scope key wait (if st.rootOf scope = root then .gate else .asleep)
  | a => a

/-- Wakes all readers that sleep in the tree of a scope. -/
def wake (w : World) (s : ScopeId) : World :=
  let root := w.scopes.rootOf s
  { w with threads := w.threads.map fun th => { th with stack := th.stack.map (rouse w.scopes root) } }

end World

/-- How a thread goes on after a step. -/
inductive Turn where
  /-- At another point, with an outcome at hand. -/
  | goto (a : Activity) (answer : Outcome)
  /-- With an activity of its own first, whose outcome `back` goes on with. -/
  | invoke (callee back : Activity)
  /-- The activity is over. -/
  | exit (out : Outcome)

/-- At another point, with no outcome at hand. -/
def Turn.next (a : Activity) : Turn := .goto a (.ok .null)

/-- The activity succeeded and has nothing to say. -/
def Turn.done : Turn := .exit (.ok .null)

/-- The end of an action as the end of an activity. -/
def Turn.ofDone (d : Done) : Turn := .exit d.outcome

/-- What a step comes to; none if the thread has to wait. -/
abbrev Stepped := Option (World × Turn)

end PullFlow.Engine
