import PullFlow.Rehearsal.Show
import PullFlow.Text.Visible

/-!
A bench for one chain or one component: it is attached to the flow `main` of a running set and
moved through its life by hand. The bench is a flow beside the set, so that nothing starts or stops
it.
-/

namespace PullFlow.Rehearsal

open Engine

/-- What lies on a bench: a chain, or a single component in a role. -/
inductive Subject where
  | chain
  | component (role : Role)
  deriving DecidableEq, Repr

/-- A running set with a bench, which is the flow `flow`, attached to a context. -/
structure Bench where
  play : Play
  flow : FlowId
  context : Context
  subject : Subject

/-- What is done with a bench. -/
inductive BenchStep where
  | pull
  | push (v : Value)
  | attach
  | setUp
  | start
  | stop
  | link
  | linked
  | kinds
  | tees
  | stages
  | printed
  | journal
  | files
  | sleep (nanos : Nat)
  | scope (name : String) (act : ScopeAct)
  | component
  | home
  | active
  | target
  | suggestedMonitor
  | outflow
  | traits
  | teeStage

/-- What a monitor makes of its flow. -/
structure Traits where
  threaded : Bool
  endsFlow : Bool
  callable : Bool
  source : Option String
  sink : Option String

/-- What a component is from outside. -/
structure Identity where
  kind : String
  name : Option String
  label : String
  stage : Stage
  home : Option String

/-- What a bench shows. -/
inductive BenchAnswer where
  | nothing
  | outcome (out : Outcome)
  | flag (b : Bool)
  | text (s : Option String)
  | texts (ss : List String)
  | stages (ss : List Stage)
  | identity (c : Identity)
  | connection (c : Option Connection)
  | traits (t : Option Traits)
  | teeStage (s : Option Stage)
  | scope (a : ScopeAnswer)
  | journal (notes : List (String × List String))
  | files (files : List (String × ShownFile))

/-- The identity of a component. -/
def Identity.ofComponent {β : Type} (c : Component β) : Identity :=
  ⟨c.kind, c.name, c.label, c.stage, c.context.map (·.flow)⟩

/-- A stage as a summary names it. -/
def stageWord : Stage → String
  | .created => "Created"
  | .contextualized => "Contextualized"
  | .initialised => "Initialised"
  | .running => "Running"
  | .stopped => "Stopped"

/-- A component on one line. -/
def Identity.summary (c : Identity) : String :=
  let name := match c.name with
    | some name => "Some(" ++ Text.inDoubleQuotes name ++ ")"
    | none => "None"
  "Lifecycle \x7b kind: " ++ Text.inDoubleQuotes c.kind ++ ", name: " ++ name ++ ", state: " ++
    stageWord c.stage ++ " \x7d"

namespace Bench

/-- The flow to which everything on a bench is attached. -/
def main : Blueprint.Flow :=
  ⟨some "main", some (.bare "bool.true"), [], some (.bare "none"), some (.bare "t.probe")⟩

/-- A flow beside the set with a chain, a sink and a monitor. -/
def cell (chain : Chain) (sink : Sink) (monitor : Monitor) : FlowCell :=
  { name := "main", state := .init, pipeline := ⟨chain, sink⟩
    holder := none, scope := none, parked := some monitor, monitorKind := monitor.kind
    threaded := false, callable := false, sinkDriven := false, stopped := false, released := true
    thread := none, inbox := [], outbox := [] }

def anySource : Source := FlowDraft.implied "bool.true" (.constant (.bool true))

def anySink : Sink := FlowDraft.implied "none" .none

def anyMonitor : Monitor := FlowDraft.implied "once" .once

/-- The flow of a chain. -/
def cellOfChain (source : Source) (operators : List Operator) : FlowCell :=
  cell (.make source operators) anySink anyMonitor

/-- The flow of a single component. Its chain can be read at once. -/
def cellOfPart (role : Role) (part : Blueprint.Part) : Except Error FlowCell :=
  let chain (source : Source) (operators : List Operator) : Chain := (Chain.make source operators).link
  match role with
  | .source => do return cell (chain (← registry.buildSource part) []) anySink anyMonitor
  | .operator => do return cell (chain anySource [← registry.buildOperator part]) anySink anyMonitor
  | .sink => do return cell (chain anySource []) (← registry.buildSink part) anyMonitor
  | .monitor => do return cell (chain anySource []) anySink (← registry.buildMonitor part)

/-- The set of `main` and its peers before anything is set up. -/
def surroundings (peers : List Blueprint.Flow) (vars : List (String × Value)) : Except Error World :=
  assemble false ⟨main :: peers, []⟩ vars

/-- Sets up and starts the set and puts a flow beside it. If the set-up fails, so does the bench. -/
def make (w : World) (host : Host) (bench : FlowCell) (subject : Subject) : Except Error Bench := do
  let flow := w.flows.length
  let (play, ready) := Play.perform ⟨{ w with flows := w.flows ++ [bench] }, host⟩
    (.setUpAll (.context w.set))
  let _ ← ready
  let (play, _) := play.launch (.startAll (.launch w.set))
  let play := play.calm 1000
  let scope := ((play.world.flow? 0).bind (·.scope)).getD play.world.root
  return ⟨play, flow, ⟨main.name.getD "", scope, play.world.directory⟩, subject⟩

/-- The flow on the bench. -/
def cell? (b : Bench) : Option FlowCell := b.play.world.flow? b.flow

/-- Takes the end of a hook. -/
def taken (b : Bench) (h : HookEnd FlowCell) : Bench × Done :=
  let w := (b.play.world.modifyFlow b.flow fun _ => h.body).jot h.notes
  ({ b with play := { b.play with world := w } }, h.result)

/-- Moves what lies on the bench: source, then operators, or the one component. -/
def move (b : Bench) (source : Source → HookEnd Source) (operator : Operator → HookEnd Operator)
    (sink : Sink → HookEnd Sink) (monitor : Monitor → HookEnd Monitor) : Bench × Done :=
  match b.cell? with
  | none => (b, .ok ())
  | some cell =>
      let inPipeline (h : HookEnd Pipeline) : Bench × Done :=
        b.taken (h.map fun p => { cell with pipeline := p })
      match b.subject with
      | .chain =>
          inPipeline ((cell.pipeline.onSource source).andThen (Pipeline.onOperators (.each operator)))
      | .component .source => inPipeline (cell.pipeline.onSource source)
      | .component .operator => inPipeline (cell.pipeline.onOperators (.each operator))
      | .component .sink => inPipeline (cell.pipeline.onSink sink)
      | .component .monitor =>
          match cell.parked with
          | some m => b.taken ((monitor m).map fun m => { cell with parked := some m })
          | none => (b, .ok ())

def attach (b : Bench) : Bench × Done :=
  b.move (·.setContext b.context) (·.setContext b.context) (·.setContext b.context)
    (·.setContext b.context)

def setUp (b : Bench) : Bench × Done :=
  let st := b.play.world.scopes
  b.move (·.setUp st) (·.setUp st) (·.setUp st) (·.setUp st)

def start (b : Bench) : Bench × Done := b.move (·.start) (·.start) (·.start) (·.start)

def stop (b : Bench) : Bench × Done := b.move (·.stop) (·.stop) (·.stop) (·.stop)

/-- Allows reads of the chain. -/
def link (b : Bench) : Bench :=
  let link (cell : FlowCell) : FlowCell :=
    { cell with pipeline := { cell.pipeline with chain := cell.pipeline.chain.link } }
  { b with play := { b.play with world := b.play.world.modifyFlow b.flow link } }

/-- Goes on after a move that succeeded. -/
def andThen (r : Bench × Done) (f : Bench → Bench × Done) : Bench × Done :=
  match r.2 with
  | .ok () => f r.1
  | .error _ => r

/-- Brings a chain to life: attached, set up, started and linked. -/
def ready (b : Bench) : Except Error Bench :=
  let (b, done) := andThen (andThen b.attach setUp) start
  done.map fun _ => b.link

/-- Runs an activity on the bench. -/
def act (b : Bench) (a : Activity) : Bench × BenchAnswer :=
  let (play, out) := b.play.perform a
  ({ b with play := play }, .outcome out)

/-- Whether a monitor or its sink suggests the other parts of a flow. -/
def traitsOf (m : Monitor) : Traits :=
  let suggested (kind : String) : Option String := if m.body.callable then some kind else none
  ⟨m.body.threaded, m.body.endsFlow, m.body.callable, suggested FlowDraft.injectedKind,
    suggested "none"⟩

/-- The identities of what lies on the bench. -/
def identities (b : Bench) (cell : FlowCell) : List Identity :=
  let p := cell.pipeline
  let operators := p.chain.operators.map Identity.ofComponent
  match b.subject with
  | .chain => Identity.ofComponent p.chain.source :: operators
  | .component .source => [Identity.ofComponent p.chain.source]
  | .component .operator => operators
  | .component .sink => [Identity.ofComponent p.sink]
  | .component .monitor => cell.parked.toList.map Identity.ofComponent

/-- What can be seen of the bench without touching it. -/
def look (b : Bench) (cell : FlowCell) : BenchStep → BenchAnswer
  | .linked => .flag cell.pipeline.chain.linked
  | .kinds => .texts cell.pipeline.chain.kinds
  | .tees => .texts (cell.pipeline.chain.tees.map (·.kind))
  | .stages => .stages ((b.identities cell).map (·.stage))
  | .component =>
      match b.identities cell with
      | c :: _ => .identity c
      | [] => .nothing
  | .home => .text ((b.identities cell).head?.bind (·.home))
  | .active => .flag (cell.pipeline.sink.body.active b.play.world.stateOf)
  | .target => .text cell.pipeline.sink.body.target?
  | .suggestedMonitor =>
      .text (if cell.pipeline.sink.body.wantsDemand then some "demand" else none)
  | .outflow =>
      .connection ((cell.pipeline.sink.body.outflow? b.flow .terminal).map
        (Connection.ofOutflow b.play.world))
  | .traits => .traits (cell.parked.map traitsOf)
  | .teeStage => .teeStage (cell.pipeline.chain.tees.head?.map (·.stage))
  | .journal => .journal (notesByFlow b.play.world)
  | .files => .files (filesOf b.play.host)
  | _ => .nothing

/-- Does a step. -/
def perform (b : Bench) (step : BenchStep) : Bench × BenchAnswer :=
  let moved (r : Bench × Done) : Bench × BenchAnswer := (r.1, .outcome r.2.outcome)
  match step with
  | .pull => b.act (.read b.flow .lock)
  | .push v => b.act (.push b.flow v .lock)
  | .attach => moved b.attach
  | .setUp => moved b.setUp
  | .start => moved b.start
  | .stop => moved b.stop
  | .link => (b.link, .nothing)
  | .printed =>
      let host := b.play.host
      ({ b with play := { b.play with host := { host with printed := "" } } }, .text (some host.printed))
  | .sleep nanos => ({ b with play := b.play.sleep nanos }, .nothing)
  | .scope name act =>
      let (play, answer) := scopeStep b.play name act
      ({ b with play := play }, .scope answer)
  | step =>
      match b.cell? with
      | some cell => (b, b.look cell step)
      | none => (b, .nothing)

/-- Does steps in order. -/
def performAll (b : Bench) : List BenchStep → List BenchAnswer
  | [] => []
  | step :: rest =>
      let (b, answer) := b.perform step
      answer :: performAll b rest

end Bench
end PullFlow.Rehearsal
