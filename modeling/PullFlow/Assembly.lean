import PullFlow.Engine.World
import PullFlow.Catalog
import PullFlow.Lint

/-!
Assembling a set of flows: the parts of a document are made through a registry, what a flow leaves
open is filled in, and the global variables are claimed in the root scope.

A flow without a source gets the one its monitor suggests, else the inflow of peers that feed it,
else the lines of the input. Without a sink it gets the one its monitor suggests, else it prints.
Without a monitor it gets the one its sink suggests, else it runs once.
-/

namespace PullFlow

/-- A flow of which some parts are given. -/
structure FlowDraft where
  name : Option String
  source : Option Source
  operators : List Operator
  sink : Option Sink
  monitor : Option Monitor

namespace FlowDraft

/-- Makes the parts of a flow, in the order of the chain. -/
def ofFlow (r : Registry) (f : Blueprint.Flow) : Except Error FlowDraft := do
  let source ← f.source.mapM r.buildSource
  let operators ← f.operators.mapM r.buildLink
  let sink ← f.sink.mapM r.buildSink
  let monitor ← f.monitor.mapM r.buildMonitor
  return ⟨f.name, source, operators, sink, monitor⟩

/-- The flows that the sinks of a flow feed. -/
def targets (p : FlowDraft) : List String :=
  (p.operators.filterMap (·.body.tee?) ++ p.sink.toList).filterMap (·.body.target?)

/-- A component that no document names. -/
def implied {β : Type} (kind : String) (body : β) : Component β := .make kind body .none

/-- The kind of the source of a callable flow. -/
def injectedKind : String := "_push"

/-- Whether the flow's own monitor makes it callable. -/
def callable (p : FlowDraft) : Bool := p.monitor.any (·.body.callable)

/-- The source of the flow; `fed` says whether peers feed it. -/
def chooseSource (p : FlowDraft) (fed : Bool) : Source :=
  match p.source with
  | some source => source
  | none =>
      if p.callable then implied injectedKind (.injected none)
      else if fed then implied "inflow" (.inflow false [])
      else implied "stdin" .lines

def chooseSink (p : FlowDraft) : Sink :=
  match p.sink with
  | some sink => sink
  | none => if p.callable then implied "none" .none else implied "print" .print

/-- The monitor of the flow, and whether its sink suggested it. -/
def chooseMonitor (p : FlowDraft) (sink : Sink) : Monitor × Bool :=
  match p.monitor with
  | some monitor => (monitor, false)
  | none =>
      if sink.body.wantsDemand then (implied "demand" (.onDemand ⟨0⟩), true)
      else (implied "once" .once, false)

/-- The flow that the parts make, under a name. -/
def assemble (p : FlowDraft) (name : String) (fed : Bool) : Except Error Engine.FlowCell :=
  let source := p.chooseSource fed
  let sink := p.chooseSink
  let (monitor, sinkDriven) := p.chooseMonitor sink
  if monitor.body.callable && (source.kind != injectedKind || sink.kind != "none") then
    .error (.configuration (.callShape name monitor.kind source.kind sink.kind))
  else
    .ok { name := name, state := .init, pipeline := ⟨.make source p.operators, sink⟩
          holder := none, scope := none, parked := some monitor, monitorKind := monitor.kind
          threaded := monitor.body.threaded, callable := monitor.body.callable
          sinkDriven := sinkDriven, stopped := false, released := false, thread := none
          inbox := [], outbox := [] }

end FlowDraft

namespace Engine

/-- Assembles flows one after the other; the positions count from `position`. -/
def assembleFlows (fresh : Nat → String) (targets : List String) (position : Nat)
    (directory : Directory) : List FlowDraft → Except Error (List FlowCell × Directory)
  | [] => .ok ([], directory)
  | p :: rest => do
      let name := p.name.getD (fresh position)
      let cell ← p.assemble name (p.name.any targets.contains)
      if (Fields.get? name directory).isSome then
        throw (.configuration (.duplicateFlow name))
      let directory := Fields.put name ⟨position, cell.callable⟩ directory
      let (cells, directory) ← assembleFlows fresh targets (position + 1) directory rest
      return (cell :: cells, directory)

/-- The variables of a document, of which those given beside it take precedence. -/
def globalsOf (d : Blueprint.Document) (vars : List (String × Value)) : List (String × Value) :=
  vars.foldl (fun all (key, v) => Fields.put key v all) d.globals

/-- Claims the global variables in the order of their names. -/
def claimGlobals (root : ScopeId) (globals : List (String × Value)) (st : Scope.Store) :
    Except Error Scope.Store :=
  globals.foldlM (fun st (key, v) => st.set root key (.value v) true) st

/-- The set of flows that drafts make, in a tree of scopes with the given root. Flows without a name
get a fresh one for their position. -/
def World.ofDrafts (fresh : Nat → String) (drafts : List FlowDraft) (scopes : Scope.Store)
    (root : ScopeId) : Except Error World := do
  let targets := drafts.flatMap FlowDraft.targets
  let (cells, directory) ← assembleFlows fresh targets 0 [] drafts
  return {
    scopes := scopes, root := root, flows := cells, set := List.range cells.length
    directory := directory, threads := [], clock := 0, stoppable := false
    events := [], journal := [] }

/-- The set of flows that a document describes, without a check of the document. -/
def World.assemble (r : Registry) (fresh : Nat → String) (d : Blueprint.Document)
    (vars : List (String × Value)) : Except Error World := do
  let (scopes, root) := Scope.Store.empty.addRoot
  let scopes ← claimGlobals root (globalsOf d vars) scopes
  let drafts ← d.flows.mapM (FlowDraft.ofFlow r)
  World.ofDrafts fresh drafts scopes root

/-- The set of flows that a document describes, if the document has no error. -/
def World.ofDocument (r : Registry) (fresh : Nat → String) (d : Blueprint.Document)
    (vars : List (String × Value)) : Except Error World := do
  let _ ← Lint.accept r d
  World.assemble r fresh d vars

/-- A summary of a flow. -/
def FlowCell.describe (cell : FlowCell) : Value :=
  .object (Fields.ofList [
    ("name", .text cell.name), ("state", .text cell.state.name),
    ("upstreams", .list (cell.pipeline.chain.kinds.map .text)),
    ("sink", .text cell.pipeline.sink.kind), ("monitor", .text cell.monitorKind),
    ("threaded", .bool cell.threaded)])

/-- The flows of the set in order. -/
def World.members (w : World) : List FlowCell := w.set.filterMap w.flow?

/-- A summary of every flow of the set. -/
def World.describe (w : World) : Value := .list (w.members.map FlowCell.describe)

end Engine
end PullFlow
