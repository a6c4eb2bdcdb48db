import PullFlow.Operator.Pure
import PullFlow.Sink

/-!
Operators, the nodes of a chain below its source. Asked for its value, an operator answers at once
or asks the node above, a sink or another flow first, and may ask again before it answers. Between
two reads it keeps its state.
-/

namespace PullFlow

/-- What an operator that calls another flow does with the payload. -/
inductive CallMode where
  /-- Calls it with the payload. -/
  | whole
  /-- Calls it with each item. -/
  | each
  /-- Calls it with each item and keeps those for which the answer counts as true. -/
  | keep
  deriving DecidableEq, Repr

def CallMode.name : CallMode → String
  | whole => "Call"
  | each => "Map"
  | keep => "Filter"

/-- What is watched to make a boolean change only after a while: the reading that counts, since when
it holds, and the state shown. -/
structure Steady where
  delayTrue : Duration
  delayFalse : Duration
  raw : Bool
  since : Nat
  state : Bool

/-- A reading of a smoothed boolean at a moment. -/
def Steady.read (now : Nat) (reading : Bool) (s : Steady) : Steady :=
  let s := if reading != s.raw then { s with raw := reading, since := now } else s
  let lag := if s.raw then s.delayTrue else s.delayFalse
  if s.raw != s.state && lag.nanos ≤ now - s.since then { s with state := s.raw } else s

/-- The operators and their state. Moments are nanoseconds of the flow set's clock. -/
inductive OperatorBody where
  | apply (p : Operator.Pure)
  /-- The items of lists one by one. -/
  | feed (left : List Value)
  /-- A value is read again only after a delay. -/
  | cached (delay : Duration) (last : Option (Nat × Value))
  /-- The first value for ever. -/
  | forever (v : Option Value)
  /-- The first outcome, then null. -/
  | once (done : Bool)
  /-- Whether the value differs from the one before. -/
  | change (previous : Option Value)
  | smooth (s : Steady)
  /-- A value in place of an error. -/
  | attempt (default : Value)
  /-- Hands the value to a sink and passes it on. -/
  | tee (sink : Sink)
  /-- Calls another flow; `callee` once attached. -/
  | call (mode : CallMode) (target : String) (callee : Option FlowId)
  | recorder (r : Recorder)
  | abstract

abbrev Operator := Component OperatorBody

/-- What an operator waits for. -/
inductive OperatorWait where
  /-- The value of the node above. -/
  | above
  /-- The answer of the called flow. -/
  | called
  /-- The answer for an item; `done` holds those before it, backwards. -/
  | mapping (done rest : List Value)
  /-- The answer for an item; `kept` holds the items kept before it, backwards. -/
  | keeping (kept : List Value) (item : Value) (rest : List Value)
  /-- The sink of a tee. -/
  | sink (v : Value) (w : SinkWait)
  /-- The note of a recorder, below a node of a kind. -/
  | noted (kind : String)
  /-- The value above a recorder. -/
  | recorded (kind : String)

/-- What an operator does next. -/
inductive OperatorMove where
  | reply (out : Outcome)
  /-- Asks the node above. -/
  | up (w : OperatorWait)
  | ask (r : Request) (w : OperatorWait)

namespace OperatorBody

open Operator

def durationSpec : Value := .int 10

def schema : OperatorBody → Schema
  | apply (.equals _) => Schema.empty.required "to" .any
  | apply .hash => Schema.empty.optional "algo" .text (.text "sha256")
  | apply (.get _) => Schema.empty.required "path" .text
  | apply (.has _) => .anyNumber
  | apply (.split _) => Schema.empty.optional "delim" .text .null
  | apply (.join _) => Schema.empty.optional "delim" .text (.text "")
  | apply (.toJson _) => Schema.empty.optional "pretty" .bool (.bool true)
  | apply _ => .empty
  | feed _ | forever _ | once _ | change _ | abstract => .empty
  | cached .. => Schema.empty.optional "delay" .duration durationSpec
  | smooth _ =>
      ((Schema.empty.optional "delay" .duration durationSpec).optional
        "delay_true" .duration .null).optional "delay_false" .duration .null
  | attempt _ => Schema.empty.optional "default" .any (.bool false)
  | tee _ => .anyNumber
  | call .. => Schema.empty.required "flow" .text
  | recorder _ => Recorder.schema

def attach (ctx : Context) (body : OperatorBody) : HookEnd OperatorBody :=
  match body with
  | tee sink => (sink.setContext ctx).map tee
  | call mode target _ =>
      if target = ctx.flow then .fail body (.configuration (.callsItself target))
      else
        .ofExcept body <| do
          let peer ← ctx.peer target
          if peer.callable then return call mode target (some peer.flow)
          else throw (.notCallable target)
  | recorder r => (r.attach ctx).map recorder
  | body => .pass body

/-- Only one way to hash is known. -/
def checkHash (algorithm : String) : Except Error Unit :=
  if algorithm = "sha256" then .ok () else .error (.configuration (.hashAlgorithm algorithm))

/-- The names on a path with points between them; empty names do not count. -/
def pathNames (path : String) : List String := (Text.split "." path).filter (· != "")

def initialisePure (p : Params) (f : Pure) : Except Error Pure :=
  match f with
  | .equals _ => .ok (.equals (p.value "to"))
  | .hash => do
      checkHash (← p.text "algo")
      return .hash
  | .get _ => (p.text "path").map fun path => .get (pathNames path)
  | .has _ => .ok (.has p.rest)
  | .split _ => .ok (.split ((p.get? "delim").map Value.plain))
  | .join _ => .ok (.join (((p.value "delim").toText?).getD ""))
  | .toJson _ => (p.bool "pretty").map .toJson
  | f => .ok f

def initialise (st : Scope.Store) (p : Params) (body : OperatorBody) : HookEnd OperatorBody :=
  match body with
  | apply f => .ofExcept body ((initialisePure p f).map apply)
  | cached .. => .ofExcept body ((p.duration "delay").map fun d => cached d none)
  | smooth s =>
      .taking body (p.duration "delay") fun delay =>
        .taking body (p.duration? "delay_true") fun delayTrue =>
          let delayTrue := delayTrue.getD delay
          .ofExcept (smooth { s with delayTrue := delayTrue }) <|
            (p.duration? "delay_false").map fun delayFalse =>
              smooth ⟨delayTrue, delayFalse.getD delay, false, 0, false⟩
  | attempt _ => .pass (attempt (p.value "default"))
  | tee sink => (sink.setUp st).map tee
  | recorder r =>
      let set (r : Recorder) : Recorder :=
        { r with tag := (p.value "tag").plain, failing := (p.value "fail").plain }
      ((set r).hook .initialise).map recorder
  | body => .pass body

instance : Hooks OperatorBody where
  schema := schema
  attach := attach
  initialise st _ := initialise st
  start
    | tee sink => sink.start.map tee
    | recorder r => (r.hook .start).map recorder
    | body => .pass body
  stop
    | tee sink => sink.stop.map tee
    | recorder r => (r.hook .stop).map recorder
    | body => .pass body

/-- The sink a tee forwards to. -/
def tee? : OperatorBody → Option Sink
  | tee sink => some sink
  | _ => none

/-- Changes the sink of a tee. -/
def mapTee (f : Sink → Sink) : OperatorBody → OperatorBody
  | tee sink => tee (f sink)
  | body => body

/-- Starts the computation of the next value at a moment, below a node of a kind. -/
def begin (now : Nat) (above : String) (body : OperatorBody) : OperatorBody × OperatorMove :=
  match body with
  | feed (v :: left) => (feed left, .reply (.ok v))
  | cached delay (some (taken, v)) =>
      if now - taken ≤ delay.nanos then (body, .reply (.ok v)) else (body, .up .above)
  | forever (some v) => (body, .reply (.ok v))
  | once true => (body, .reply (.ok .null))
  | once false => (once true, .up .above)
  | recorder r => (body, .ask (.note [r.note .value]) (.noted above))
  | abstract => (body, .reply (.error (.unimplemented "")))
  | body => (body, .up .above)

/-- The items a flow is called with, one by one. -/
def callItems (mode : CallMode) (target : String) : Value → Except Error (List Value)
  | .list items => .ok items
  | v => .error (.notAList (mode.name ++ " @" ++ target) v)

/-- Calls a flow with the next item, or answers when none is left. -/
def nextCall (mode : CallMode) (target : String) (callee : FlowId) (done : List Value) :
    List Value → OperatorMove
  | [] => .reply (.ok (.list done.reverse))
  | item :: rest =>
      .ask (.call target callee item)
        (match mode with
          | .keep => .keeping done item rest
          | _ => .mapping done rest)

/-- Calls the flow with the value of the node above. -/
def startCalls (mode : CallMode) (target : String) (callee : Option FlowId) (v : Value) :
    OperatorMove :=
  match callee with
  | none => .reply (.error (.configuration (.calledBeforeAttached target)))
  | some callee =>
      match mode with
      | .whole => .ask (.call target callee v) .called
      | mode =>
          match callItems mode target v with
          | .error e => .reply (.error e)
          | .ok items => nextCall mode target callee [] items

/-- What a tee does after its sink moved. -/
def afterSink (sink : Sink) (v : Value) : SinkBody × SinkMove → OperatorBody × OperatorMove
  | (body, .ask r w) => (tee { sink with body := body }, .ask r (.sink v w))
  | (body, .done d) =>
      (tee { sink with body := body }, .reply ((sink.passOn d).map fun _ => v))

/-- Takes the value of the node above. -/
def receive (now : Nat) (v : Value) (body : OperatorBody) : OperatorBody × OperatorMove :=
  match body with
  | apply f => (body, .reply (f.apply v))
  | feed _ =>
      match v with
      | .null => (feed [], .reply (.ok .null))
      | .list [] => (feed [], .up .above)
      | .list (first :: left) => (feed left, .reply (.ok first))
      | v => (feed [], .reply (.ok v))
  | cached delay _ => (cached delay (some (now, v)), .reply (.ok v))
  | forever _ => (forever (some v), .reply (.ok v))
  | change previous =>
      let changed := match previous with
        | some before => !(before == v)
        | none => true
      (change (some v), .reply (.ok (.bool changed)))
  | smooth s =>
      let s := s.read now v.truthy
      (smooth s, .reply (.ok (.bool s.state)))
  | tee sink => afterSink sink v (sink.body.perform v)
  | call mode target callee => (body, startCalls mode target callee v)
  | body => (body, .reply (.ok v))

/-- Goes on with the value above or with the answer to a request. -/
def resume (now : Nat) (w : OperatorWait) (answer : Outcome) (body : OperatorBody) :
    OperatorBody × OperatorMove :=
  match w, answer with
  | .above, .ok v => receive now v body
  | .above, .error e =>
      match body with
      | attempt default => (body, .reply (.ok default))
      | body => (body, .reply (.error e))
  | .called, out => (body, .reply out)
  | .mapping done rest, .ok v =>
      match body with
      | call mode target (some callee) =>
          (body, nextCall mode target callee (v :: done) rest)
      | body => (body, .reply (.ok v))
  | .keeping kept item rest, .ok v =>
      match body with
      | call mode target (some callee) =>
          (body, nextCall mode target callee (if v.truthy then item :: kept else kept) rest)
      | body => (body, .reply (.ok v))
  | .mapping .., .error e | .keeping .., .error e => (body, .reply (.error e))
  | .sink v w, out =>
      match body with
      | tee sink => afterSink sink v (sink.body.resume w out)
      | body => (body, .reply out)
  | .noted kind, _ =>
      match body with
      | recorder r =>
          match r.result .value with
          | .ok () => (body, .up (.recorded kind))
          | .error e => (body, .reply (.error e))
      | body => (body, .up .above)
  | .recorded kind, .ok v =>
      match body with
      | recorder r => (body, .reply (.ok (.list [.text r.tag, .text kind, v])))
      | body => (body, .reply (.ok v))
  | .recorded _, .error e => (body, .reply (.error e))

end OperatorBody
end PullFlow
