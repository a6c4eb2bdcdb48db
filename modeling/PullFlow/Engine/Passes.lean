import PullFlow.Engine.Running

/-!
The passes over a set of flows, step by step. Setting up takes three of them, so that no flow is
wired before all its peers exist: each flow gets its scope and its components their surroundings;
the components take their arguments; each flow is handed the outflows of the peers that feed it, in
the order of their names. Then the flows are started in order and joined, and those that are left
running are stopped.
-/

namespace PullFlow.Engine.World

/-- The surroundings of the components of a flow. -/
def contextOf (w : World) (cell : FlowCell) (scope : ScopeId) : Context :=
  ⟨cell.name, scope, w.directory⟩

/-- Attaches the monitor of a flow, if it is parked. A sink that suggested it is read on demand from
now on. -/
def attachMonitor (ctx : Context) (cell : FlowCell) : HookEnd FlowCell :=
  match cell.parked with
  | none => .pass cell
  | some m =>
      let h := m.setContext ctx
      let sink := cell.pipeline.sink
      let driven := match h.result with
        | .ok () => cell.sinkDriven
        | .error _ => false
      let sink := if driven then { sink with body := sink.body.onDemand } else sink
      h.map fun m => { cell with parked := some m, pipeline := { cell.pipeline with sink := sink } }

/-- Puts a flow back after a hook and goes on unless it failed. -/
def afterHook (w : World) (flow : FlowId) (h : HookEnd FlowCell) (next : Activity) : World × Turn :=
  let w := (w.modifyFlow flow fun _ => h.body).jot h.notes
  match h.result with
  | .ok () => (w, .next next)
  | .error e => (w, .exit (.error e))

/-- Moves the pipeline of a flow whose lock is free. -/
def onPipeline (w : World) (flow : FlowId) (f : Pipeline → HookEnd Pipeline) (next : Activity) :
    Stepped :=
  (w.flow? flow).bind fun cell =>
    match cell.holder with
    | some _ => none
    | none => some (w.afterHook flow ((f cell.pipeline).map fun p => { cell with pipeline := p }) next)

/-- Goes on if a flow is in a state. -/
def checkState (w : World) (flow : FlowId) (state : FlowState) (next : Activity) : Stepped :=
  (w.flow? flow).map fun cell =>
    match expect cell state with
    | .ok () => (w, .next next)
    | .error e => (w, .exit (.error e))

/-- Goes on unless the activity before failed. -/
def unlessFailed (w : World) (answer : Outcome) (next : World × Turn) : World × Turn :=
  match answer with
  | .ok _ => next
  | .error e => (w, .exit (.error e))

/-- A step of the context pass of a flow. -/
def contextualize (w : World) (flow : FlowId) (answer : Outcome) : ContextPoint → Stepped
  | .check => w.checkState flow .init (.contextualize flow .child)
  | .child =>
      let (scopes, scope) := w.scopes.addChild w.root
      some ({ w with scopes := scopes },
        .invoke (writeTo scope "global" (.scope w.root) true) (.contextualize flow (.global scope)))
  | .global scope =>
      (w.flow? flow).map fun cell => w.unlessFailed answer
        (w, .invoke (writeTo w.root cell.name (.scope scope) true)
          (.contextualize flow (.named scope)))
  | .named scope => some (w.unlessFailed answer (w, .next (.contextualize flow (.attach scope))))
  | .attach scope =>
      (w.flow? flow).bind fun cell =>
        w.onPipeline flow (Pipeline.setContext (w.contextOf cell scope))
          (.contextualize flow (.monitor scope))
  | .monitor scope =>
      (w.flow? flow).map fun cell =>
        w.afterHook flow (attachMonitor (w.contextOf cell scope) cell)
          (.contextualize flow (.record scope))
  | .record scope =>
      some (w.modifyFlow flow fun cell => { cell with scope := some scope },
        .next (.contextualize flow .advance))
  | .advance => some (w, .invoke (.advance flow .context .swap) (.contextualize flow .advanced))
  | .advanced => some (w, .done)

/-- Sets up the monitor of a flow, if it is parked. -/
def prepareMonitor (st : Scope.Store) (cell : FlowCell) : HookEnd FlowCell :=
  match cell.parked with
  | none => .pass cell
  | some m => (m.setUp st).map fun m => { cell with parked := some m }

/-- A step of the set-up pass of a flow. -/
def prepare (w : World) (flow : FlowId) : PreparePoint → Stepped
  | .check => w.checkState flow .context (.prepare flow .components)
  | .components => w.onPipeline flow (Pipeline.setUp w.scopes) (.prepare flow .monitor)
  | .monitor =>
      (w.flow? flow).map fun cell =>
        w.afterHook flow (prepareMonitor w.scopes cell) (.prepare flow .advance)
  | .advance => some (w, .invoke (.advance flow .setup .swap) (.prepare flow .advanced))
  | .advanced => some (w, .done)

/-- A step of the wiring pass of a flow. -/
def wire (w : World) (flow : FlowId) (inflows : List Outflow) : WirePoint → Stepped
  | .check => w.checkState flow .setup (.wire flow inflows .source)
  | .source => w.onPipeline flow (Pipeline.wire inflows) (.wire flow inflows .advance)
  | .advance => some (w, .invoke (.advance flow .wired .swap) (.wire flow inflows .advanced))
  | .advanced => some (w, .done)

/-- The outflows of a flow whose lock is free. -/
def outflowsOf (w : World) (flow : FlowId) : Option (List Outflow) :=
  (w.flow? flow).bind fun cell =>
    match cell.holder with
    | some _ => none
    | none => some (cell.pipeline.outflows flow)

/-- The outflows that feed a flow, in the order of their producers' names. -/
def inflowsOf (name : String) (all : List Outflow) : List Outflow :=
  (all.filter (·.target == name)).mergeSort fun a b => decide (a.producer ≤ b.producer)

/-- A step of the set-up of the set. -/
def setUpAll (w : World) (answer : Outcome) (p : SetUpPoint) : Stepped :=
  let invoke (callee : Activity) (p : SetUpPoint) : Stepped :=
    some (w.unlessFailed answer (w, .invoke callee (.setUpAll p)))
  let go (p : SetUpPoint) : Stepped := some (w.unlessFailed answer (w, .next (.setUpAll p)))
  match p with
  | .context [] => go (.prepare w.set)
  | .context (flow :: left) => invoke (.contextualize flow .check) (.context left)
  | .prepare [] => go (.gather w.set [])
  | .prepare (flow :: left) => invoke (.prepare flow .check) (.prepare left)
  | .gather [] done => go (.wire w.set done)
  | .gather (flow :: left) done => (w.outflowsOf flow).bind fun more => go (.gather left (done ++ more))
  | .wire [] _ => some (w.unlessFailed answer (w, .done))
  | .wire (flow :: left) all =>
      (w.flow? flow).bind fun cell =>
        invoke (.wire flow (inflowsOf cell.name all) .check) (.wire left all)

/-- A step of the run of a set that is set up. -/
def startAll (w : World) (answer : Outcome) (p : StartPoint) : Stepped :=
  let invoke (callee : Activity) (p : StartPoint) : Stepped := some (w, .invoke callee (.startAll p))
  let go (p : StartPoint) : Stepped := some (w, .next (.startAll p))
  match p with
  | .launch [] => go (.await w.set)
  | .launch (flow :: left) => invoke (.launch flow false) (.launched left)
  | .launched left =>
      match answer with
      | .ok _ => go (.launch left)
      | .error e => invoke (.stopAll w.set) (.abort e)
  | .abort e => invoke (.joinAll w.set (.ok ()) false) (.aborted e)
  | .aborted e => some (w, .exit (.error e))
  | .await [] => go .join
  | .await (flow :: left) => invoke (.awaitStart flow) (.await left)
  | .join => invoke (.joinAll w.set (.ok ()) false) .joined
  | .joined => invoke (.stopAll w.set) (.stopped answer)
  | .stopped out => some (w, .exit out)

/-- A step of the set-up and run of the set. -/
def runAll (w : World) (answer : Outcome) : RunAllPoint → Stepped
  | .begin => some (w, .invoke (.setUpAll (.context w.set)) (.runAll .ready))
  | .ready =>
      match answer with
      | .ok _ => some (w, .next (.startAll (.launch w.set)))
      | .error e => some (w, .invoke (.stopAll w.set) (.runAll (.stopped e)))
  | .stopped e => some (w, .exit (.error e))

end PullFlow.Engine.World
