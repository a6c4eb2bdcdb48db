import PullFlow.Request
import PullFlow.Component.Recorder

/-!
Sinks, the consumers of payloads. A payload is taken at once or after one or two answers from the
surroundings. A sink that feeds another flow keeps the payload it was given last.
-/

namespace PullFlow

/-- The sinks and their state. -/
inductive SinkBody where
  /-- Drops every payload. -/
  | none
  /-- Prints text as it is and other values as pretty JSON, a line each. -/
  | print
  /-- Feeds the flow `target`; `producer` is the flow it belongs to, once attached. -/
  | flow (target producer : String) (peer : Option FlowId) (payload : Value) (onDemand : Bool)
  /-- Writes a variable; the first successful write claims it. -/
  | var (name : String) (claimed : Bool) (scope : Option ScopeId)
  /-- Writes a file, in place of its content or behind it. -/
  | file (path : String) (append : Bool)
  | recorder (r : Recorder)
  /-- Refuses one payload. -/
  | picky (rejected : Value)
  /-- Takes nothing at all. -/
  | abstract

abbrev Sink := Component SinkBody

/-- What a sink waits for. -/
inductive SinkWait where
  /-- The end of the request is the end of the payload. -/
  | answer
  /-- A successful write claims the variable. -/
  | written
  /-- The note is made; then the payload is noted too or the sink fails. -/
  | noted (v : Value)
  /-- The payload is noted. -/
  | finished

/-- What a sink does next. -/
inductive SinkMove where
  | done (d : Done)
  | ask (r : Request) (w : SinkWait)

namespace SinkBody

def schema : SinkBody → Schema
  | none | print | abstract => .empty
  | flow .. => Schema.empty.required "flow" .text
  | var .. => Schema.empty.required "name" .text
  | file .. => (Schema.empty.required "path" .text).optional "mode" .text (.text "w")
  | recorder _ => Recorder.schema
  | picky _ => Schema.empty.required "reject" .any

def attach (ctx : Context) : SinkBody → HookEnd SinkBody
  | flow target producer peer payload onDemand =>
      let body := flow target producer peer payload onDemand
      if target = ctx.flow then .fail body (.configuration (.feedsItself target))
      else
        .ofExcept body <| (ctx.peer target).map fun found =>
          flow target ctx.flow (some found.flow) payload onDemand
  | recorder r => (r.attach ctx).map recorder
  | body => .pass body

/-- How a file is opened. -/
def fileMode (mode : String) : Except Error Bool :=
  if mode = "w" then .ok false
  else if mode = "a" then .ok true
  else .error (.configuration (.fileMode mode))

def initialise (ctx : Context) (p : Params) : SinkBody → HookEnd SinkBody
  | var name claimed scope =>
      .ofExcept (var name claimed scope) <| (p.text "name").map fun name =>
        var name claimed (some ctx.scope)
  | file path append => .taking (file path append) (p.text "path") fun path =>
      .ofExcept (file path append) <|
        ((p.text "mode").bind fileMode).map fun append => file path append
  | recorder r =>
      let set (r : Recorder) : Recorder :=
        { r with tag := (p.value "tag").plain, failing := (p.value "fail").plain }
      ((set r).hook .initialise).map recorder
  | picky _ => .pass (picky (p.value "reject"))
  | body => .pass body

instance : Hooks SinkBody where
  schema := schema
  attach := attach
  initialise _ := initialise
  start
    | recorder r => (r.hook .start).map recorder
    | body => .pass body
  stop
    | recorder r => (r.hook .stop).map recorder
    | body => .pass body

/-- The text that the print sink writes for a payload. -/
def printed : Value → String
  | .text s => s ++ "\n"
  | v => v.pretty ++ "\n"

/-- Takes a payload. -/
def perform (v : Value) : SinkBody → SinkBody × SinkMove
  | none => (none, .done (.ok ()))
  | print => (print, .ask (.host (.print (printed v))) .answer)
  | flow target producer peer _ onDemand =>
      (flow target producer peer v onDemand, .done (.ok ()))
  | var name claimed (some scope) =>
      (var name claimed (some scope), .ask (.write scope name v (!claimed)) .written)
  | var name claimed Option.none => (var name claimed Option.none, .done (.ok ()))
  | file path append => (file path append, .ask (.host (.writeFile path v.plain append)) .answer)
  | recorder r => (recorder r, .ask (.note [r.note .perform]) (.noted v))
  | picky rejected =>
      (picky rejected, .done <|
        if v == rejected then .error (.evaluation "picky" ("rejected " ++ v.compact)) else .ok ())
  | abstract => (abstract, .done (.error (.unimplemented "")))

/-- Goes on with the answer to a request. -/
def resume (w : SinkWait) (answer : Outcome) (body : SinkBody) : SinkBody × SinkMove :=
  match w, body with
  | .written, var name claimed scope =>
      match answer with
      | .ok _ => (var name true scope, .done (.ok ()))
      | .error e => (var name claimed scope, .done (.error e))
  | .noted v, recorder r =>
      match r.result .perform with
      | .ok () => (body, .ask (.note [⟨r.home, "payload=" ++ v.compact⟩]) .finished)
      | .error e => (body, .done (.error e))
  | .finished, body => (body, .done (.ok ()))
  | _, body => (body, .done answer.done)

/-- The flow a sink feeds, known before it is attached. -/
def target? : SinkBody → Option String
  | flow target .. => some target
  | _ => Option.none

/-- Whether the sink keeps its flow going: as long as the flow it feeds has not begun to end. -/
def active (state : FlowId → FlowState) : SinkBody → Bool
  | flow _ _ (some peer) _ _ => (state peer).rank < FlowState.ending.rank
  | recorder r => r.failing == "never"
  | _ => false

/-- Whether the sink would rather be driven by the flow it feeds. -/
def wantsDemand : SinkBody → Bool
  | flow .. => true
  | _ => false

/-- Marks a feeding sink as read on demand. -/
def onDemand : SinkBody → SinkBody
  | flow target producer peer payload _ => flow target producer peer payload true
  | body => body

/-- The payload a feeding sink was given last. -/
def lastPayload : SinkBody → Value
  | flow _ _ _ payload _ => payload
  | _ => .null

/-- The connection to the flow a sink feeds. -/
def outflow? (owner : FlowId) (seat : Seat) : SinkBody → Option Outflow
  | flow target producer _ _ onDemand => some ⟨producer, target, owner, seat, onDemand⟩
  | _ => Option.none

end SinkBody
end PullFlow
