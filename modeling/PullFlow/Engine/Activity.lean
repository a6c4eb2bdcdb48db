import PullFlow.Pipeline
import PullFlow.Scope.Search

/-!
What the threads of a running set of flows are busy with. An activity stands at one of its points;
going from one point to the next is one atomic step, in which a thread takes at most one lock or
changes one shared thing. An activity that waits for another one lies below it on the stack of its
thread.
-/

namespace PullFlow.Engine

/-- Where a read of a variable stands. -/
inductive LookPoint where
  /-- Searching, before the reader knows whether it must wait. -/
  | search (s : Scope.Search)
  /-- About to take the gate of the tree. -/
  | gate
  /-- Searching again, at the gate. -/
  | check (s : Scope.Search)
  /-- Nothing was found; the scope may be closed. -/
  | decide
  /-- Waiting to be woken, away from the gate. -/
  | asleep

/-- Where a write of an entry stands. -/
inductive WritePoint where
  | seek (s : Scope.OwnerSearch)
  | store (owner : ScopeId) (name : String)
  | wake

/-- Where the closing of a scope stands. -/
inductive ClosePoint where
  | mark
  | wake

/-- Where a read of a whole chain stands. -/
inductive ReadPoint where
  | lock
  | start
  /-- The chain has answered. -/
  | unlock (out : Outcome)
  | pulled

/-- Where a payload for the sink stands. -/
inductive PushPoint where
  | lock
  | begin
  | serving (w : SinkWait)
  | performed (d : Done)
  | emit

/-- Where a call of a flow stands. -/
inductive CallPoint where
  /-- Waiting for the called flow to start. -/
  | latch
  | enter
  | lock
  | inject
  | pulled
  | clear (out : Outcome)
  | unlock (out : Outcome)
  | leave (out : Outcome)

/-- Where a change of state stands. -/
inductive AdvancePoint where
  | swap
  /-- The change is made and not yet announced. -/
  | emit (before : FlowState)

/-- Where the release of all waits of a flow stands. -/
inductive InterruptPoint where
  | sleeper
  | close
  | latch

/-- Where the end of a flow stands. -/
inductive FinishPoint where
  | monitor
  | lock
  | components
  | ended
  | announced

/-- Where a stop of a flow stands. -/
inductive StopPoint where
  | begin
  | advanced
  | interrupted
  | finished

/-- Where a run of a flow's monitor stands. -/
inductive RunPoint where
  | lock
  | advance
  | advanced
  | release
  | start
  /-- The flow was stopped before it started. -/
  | abandon
  | abandoned
  | monitor
  | drive (move : MonitorMove)
  /-- An action of the monitor is under way. -/
  | acting (w : MonitorWait)
  | judge (d : Done)
  | fail (d : Done)
  | decide (d : Done)
  | ending (d : Done)
  | interrupt (d : Done)
  | finish (d : Done)
  | park (d : Done)
  | parked (d : Done)
  | retake (d : Done)
  | finished (d : Done)

/-- Where the context pass of a flow stands. -/
inductive ContextPoint where
  | check
  | child
  | global (scope : ScopeId)
  | named (scope : ScopeId)
  | attach (scope : ScopeId)
  | monitor (scope : ScopeId)
  | record (scope : ScopeId)
  | advance
  | advanced

/-- Where the set-up pass of a flow stands. -/
inductive PreparePoint where
  | check
  | components
  | monitor
  | advance
  | advanced

/-- Where the wiring pass of a flow stands. -/
inductive WirePoint where
  | check
  | source
  | advance
  | advanced

/-- Where the set-up of a set of flows stands. -/
inductive SetUpPoint where
  | context (left : List FlowId)
  | prepare (left : List FlowId)
  | gather (left : List FlowId) (done : List Outflow)
  | wire (left : List FlowId) (all : List Outflow)

/-- Where the run of a set of flows that is set up stands. -/
inductive StartPoint where
  | launch (left : List FlowId)
  | launched (left : List FlowId)
  /-- A flow failed to start; all are stopped, then joined. -/
  | abort (e : Error)
  | aborted (e : Error)
  | await (left : List FlowId)
  | join
  | joined
  | stopped (out : Outcome)

/-- Where the set-up and run of a set of flows stands. -/
inductive RunAllPoint where
  | begin
  | ready
  /-- The set-up failed and all flows are stopped. -/
  | stopped (e : Error)

/-- What a thread is busy with. -/
inductive Activity where
  /-- Looking up a variable. -/
  | look (scope : ScopeId) (key : String) (wait : Bool) (p : LookPoint)
  /-- Writing an entry; with `first`, nothing may be there yet. -/
  | write (scope : ScopeId) (key : String) (e : Entry) (first : Bool) (p : WritePoint)
  /-- Closing a scope, in which no reader waits from then on. -/
  | close (scope : ScopeId) (p : ClosePoint)
  /-- Waiting for the host. -/
  | host (r : HostRequest)
  /-- Evaluating a chain under its lock. -/
  | pull (flow : FlowId) (p : PullPoint)
  /-- Taking the lock and reading the chain. -/
  | read (flow : FlowId) (p : ReadPoint)
  /-- Handing a payload to the sink at the end. -/
  | push (flow : FlowId) (v : Value) (p : PushPoint)
  /-- Reading another flow's chain once that flow has started. -/
  | demand (flow : FlowId)
  | call (name : String) (flow : FlowId) (payload : Value) (p : CallPoint)
  /-- Asking the sinks whether they are active. -/
  | sinksActive (flow : FlowId)
  /-- Sleeping until a moment of the clock or a stop. -/
  | sleep (flow : FlowId) (deadline : Nat)
  /-- Moving a flow's state forward. -/
  | advance (flow : FlowId) (target : FlowState) (p : AdvancePoint)
  | interrupt (flow : FlowId) (p : InterruptPoint)
  | finish (flow : FlowId) (m : Monitor) (p : FinishPoint)
  | stop (flow : FlowId) (p : StopPoint)
  | stopAll (left : List FlowId)
  | run (flow : FlowId) (m : Monitor) (p : RunPoint)
  | contextualize (flow : FlowId) (p : ContextPoint)
  | prepare (flow : FlowId) (p : PreparePoint)
  | wire (flow : FlowId) (inflows : List Outflow) (p : WirePoint)
  /-- Starting a flow, on a thread of its own if its monitor wants one. -/
  | launch (flow : FlowId) (checked : Bool)
  | awaitStart (flow : FlowId)
  | join (flow : FlowId)
  /-- Joining flows; `failed` is the first failure so far. -/
  | joinAll (left : List FlowId) (failed : Done) (joining : Bool)
  | setUpAll (p : SetUpPoint)
  | startAll (p : StartPoint)
  /-- Setting up and starting a set of flows. -/
  | runAll (p : RunAllPoint)

end PullFlow.Engine
