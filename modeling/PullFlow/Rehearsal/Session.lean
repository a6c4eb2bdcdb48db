import PullFlow.Rehearsal.Show

/-!
A session with a running set of flows: steps are taken one at a time while the flows run, most of
them orders to the probes among the monitors. Between two steps the flows run until they wait. In
the end all probes finish and the set is joined.
-/

namespace PullFlow.Rehearsal

open Engine

/-- A set that is started on a thread of its own, and the orders whose outcomes are not yet told. -/
structure Session where
  play : Play
  thread : ThreadId
  pending : List (String × Order)

/-- A step of a session. -/
inductive SessionStep where
  /-- An order to a probe; `later` leaves the outcome to another step. -/
  | order (flow : String) (o : Order) (later : Bool)
  /-- The outcome of an order given before. -/
  | wait (flow : String)
  | stop
  | names
  | state (flow : String)
  | call (flow : String) (payload : Value)
  | demand (flow : String)
  | peer (flow name : String)
  | resolve (flow : String) (p : Param)
  /-- Waits until a flow is in a state, for two seconds at most. -/
  | await (flow : String) (state : FlowState)
  | scope (name : String) (act : ScopeAct)

/-- What a step of a session shows. -/
inductive SessionAnswer where
  | nothing
  | pending
  | outcome (out : Outcome)
  | flag (b : Bool)
  | names (ss : List String)
  | state (s : FlowState) (callable : Bool)
  | peer (r : Except Error Bool)
  | scope (a : ScopeAnswer)

namespace Session

/-- Sets up a set and starts it. If the set-up fails all flows are stopped. -/
def make (w : World) : Except Error Session := do
  let (play, ready) := Play.perform ⟨{ w with stoppable := true }, .make ⟨[]⟩ ""⟩
    (.setUpAll (.context w.set))
  let _ ← ready
  let (play, thread) := play.launch (.startAll (.launch w.set))
  return ⟨play, thread, []⟩

/-- How many rounds flows that never wait may run between two steps. -/
def breath : Nat := 20000

def flow? (s : Session) (name : String) : Option FlowId := flowNamed? s.play.world name

def cell? (s : Session) (name : String) : Option FlowCell := (s.flow? name).bind s.play.world.flow?

/-- The surroundings of the components of a flow. -/
def context? (s : Session) (name : String) : Option Context :=
  (s.cell? name).bind fun cell => cell.scope.map fun scope => s.play.world.contextOf cell scope

/-- Hands an order to a probe. -/
def hand (s : Session) (flow : FlowId) (o : Order) : Session :=
  let w := s.play.world.modifyFlow flow fun cell => { cell with inbox := cell.inbox ++ [o] }
  { s with play := { s.play with world := w } }

/-- Lets the flows run until a flow has ended. -/
def ended (s : Session) (flow : FlowId) : Session :=
  { s with play := s.play.playUntil fun w => w.stateOf flow == .ended }

/-- The outcome of an order as it is told. -/
def told (o : Order) (out : Outcome) : SessionAnswer :=
  match o with
  | .pull | .push _ | .cycle => .outcome out
  | .sinksActive | .stopped | .sleep _ => .flag (MonitorBody.yes out)
  | _ => .nothing

/-- Waits for the outcome of an order. -/
def collect (s : Session) (flow : FlowId) (o : Order) : Session × SessionAnswer :=
  match o with
  | .finish | .fail _ => (s.ended flow, .nothing)
  | o =>
      let answered (w : World) : Bool := (w.flow? flow).any fun cell => !cell.outbox.isEmpty
      let play := s.play.playUntil answered
      match (play.world.flow? flow).bind (·.outbox.head?) with
      | some out =>
          let w := play.world.modifyFlow flow fun cell => { cell with outbox := cell.outbox.drop 1 }
          ({ s with play := { play with world := w } }, told o out)
      | none => ({ s with play := play }, .nothing)

/-- Runs an activity on a thread of its own. -/
def act (s : Session) (a : Activity) : Session × Outcome :=
  let (play, out) := s.play.perform a
  ({ s with play := play }, out)

/-- Does a step. -/
def perform (s : Session) (step : SessionStep) : Session × SessionAnswer :=
  let s := { s with play := s.play.calm breath }
  match step with
  | .order name o later =>
      match s.flow? name with
      | none => (s, .nothing)
      | some flow =>
          let s := s.hand flow o
          if later then ({ s with pending := Fields.put name o s.pending }, .pending)
          else s.collect flow o
  | .wait name =>
      match s.flow? name, Fields.get? name s.pending with
      | some flow, some o => s.collect flow o
      | _, _ => (s, .nothing)
  | .stop => ((s.act (.stopAll s.play.world.set)).1, .nothing)
  | .names => (s, .names (Fields.keys s.play.world.directory))
  | .state name =>
      (s, match s.cell? name with
        | some cell => .state cell.state cell.callable
        | none => .nothing)
  | .call name payload =>
      match s.flow? name, s.cell? name with
      | some flow, some cell =>
          if cell.callable then
            let (s, out) := s.act (.call name flow payload .latch)
            (s, .outcome out)
          else (s, .nothing)
      | _, _ => (s, .nothing)
  | .demand name =>
      match s.flow? name with
      | some flow =>
          let (s, out) := s.act (.demand flow)
          (s, .outcome out)
      | none => (s, .nothing)
  | .peer name other =>
      (s, match s.context? name with
        | some ctx => .peer ((ctx.peer other).map (·.callable))
        | none => .nothing)
  | .resolve name p =>
      (s, match s.context? name with
        | some ctx => .outcome (ctx.resolve s.play.world.scopes p)
        | none => .nothing)
  | .await name state =>
      match s.flow? name with
      | none => (s, .nothing)
      | some flow =>
          let limit := s.play.world.clock + 2 * Duration.second
          let play := Play.run (some limit) (fun w => w.stateOf flow == state) Play.patience s.play
          ({ s with play := play }, .nothing)
  | .scope name act =>
      let (play, answer) := scopeStep s.play name act
      ({ s with play := play }, .scope answer)

/-- Does steps in order. -/
def performAll (s : Session) : List SessionStep → Session × List SessionAnswer
  | [] => (s, [])
  | step :: rest =>
      let (s, answer) := s.perform step
      let (s, answers) := performAll s rest
      (s, answer :: answers)

/-- Whether a flow has a monitor that obeys orders. -/
def probed (cell : FlowCell) : Bool := cell.monitorKind == "t.probe"

/-- Finishes all probes and joins the set. -/
def finish (s : Session) : Play × Outcome :=
  let probes := s.play.world.set.filter fun f => (s.play.world.flow? f).any probed
  let s := probes.foldl (fun s f => s.hand f .finish) s
  let play := s.play.playUntil fun w => (w.result? s.thread).isSome
  (play, (play.world.result? s.thread).getD (.ok .null))

end Session
end PullFlow.Rehearsal
