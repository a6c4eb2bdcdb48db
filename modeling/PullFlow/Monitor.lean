import PullFlow.Source

/-!
Monitors, which decide when a flow's chain is read and when its sink is given a payload. A monitor
asks its flow for one action at a time and goes on with the outcome. The scheduled monitors report
a failed read or a failed push and carry on; the others end with it.
-/

namespace PullFlow

/-- Payloads that end a scheduled loop. -/
inductive ExitCondition where
  | anyNull
  | isFalse
  | isEmptyText
  deriving DecidableEq, Repr

namespace ExitCondition

def name : ExitCondition → String
  | anyNull => "AnyNull"
  | isFalse => "IsFalse"
  | isEmptyText => "IsEmptyString"

def ofName? (name : String) : Option ExitCondition :=
  [anyNull, isFalse, isEmptyText].find? (·.name == name)

/-- Whether a payload meets a condition. -/
def holds (v : Value) : ExitCondition → Bool
  | anyNull => v.isNull
  | isFalse => v.toBool? == some false
  | isEmptyText => v.toText? == some ""

/-- The first of the conditions that a payload meets. -/
def check? (conditions : List ExitCondition) (v : Value) : Option ExitCondition :=
  conditions.find? (holds v)

/-- The parameters that turn conditions on, after others. -/
def schema (s : Schema) : Schema :=
  ((s.optional "exit_on_none" .bool (.bool true)).optional
    "exit_on_false" .bool (.bool false)).optional "exit_on_empty" .bool (.bool false)

/-- The conditions that are turned on, in the order in which they are looked at. -/
def ofParams (p : Params) : Except Error (List ExitCondition) := do
  let onNull ← p.bool "exit_on_none"
  let onFalse ← p.bool "exit_on_false"
  let onEmpty ← p.bool "exit_on_empty"
  return (if onNull then [anyNull] else []) ++ (if onFalse then [isFalse] else []) ++
    (if onEmpty then [isEmptyText] else [])

end ExitCondition

/-- What a monitor of a rehearsal is told to do. -/
inductive Order where
  | pull
  | push (v : Value)
  | cycle
  | sinksActive
  | stopped
  | sleep (d : Duration)
  | report (e : Error)
  | reportExit (c : ExitCondition)
  | finish
  | fail (e : Error)

/-- The monitors and their state. -/
inductive MonitorBody where
  /-- Reads and pushes once. -/
  | once
  /-- Reads and pushes a number of times, unless stopped. -/
  | count (n : Nat)
  /-- Reads, pushes and sleeps, until stopped or a payload meets a condition. -/
  | interval (sleep : Duration) (exits : List ExitCondition)
  /-- Pushes what differs from the payload before it. -/
  | change (sleep : Duration) (last : Option Value)
  /-- Pushes what equals a value; unless `always`, only when the payload before it did not. -/
  | onValue (target : Value) (always : Bool) (sleep : Duration) (matching : Bool)
  /-- Reads and pushes once, then idles while a sink is active. -/
  | onDemand (sleep : Duration)
  /-- Makes the flow callable and runs nothing. -/
  | onCall
  /-- Obeys orders from outside. -/
  | probe
  | recorder (r : Recorder)

abbrev Monitor := Component MonitorBody

/-- An action that a monitor asks its flow for. -/
inductive MonitorAct where
  /-- A read of the chain. -/
  | pull
  /-- A payload for the sink at the end. -/
  | push (v : Value)
  /-- A sleep; false once the flow is asked to stop. -/
  | sleep (d : Duration)
  /-- Whether the flow is asked to stop. -/
  | stopped
  /-- Whether a sink keeps the flow going. -/
  | sinksActive
  /-- An error that does not end the monitor. -/
  | report (e : Error)
  | reportExit (c : ExitCondition)
  | note (notes : List Note)
  /-- The next order. -/
  | listen
  /-- The outcome of an order. -/
  | answer (out : Outcome)

/-- What a monitor waits for. -/
inductive MonitorWait where
  /-- The only read. -/
  | onlyRead
  /-- The only push. -/
  | onlyPush
  /-- Whether to stop before the read that leaves `left` after it. -/
  | counting (left : Nat)
  | counted (left : Nat)
  | delivered (left : Nat)
  /-- A read of a loop. -/
  | cycle
  /-- Whether a broken wait comes from a stop. -/
  | judging (e : Error)
  /-- A push of a loop. -/
  | forwarded
  | reported
  | exited
  | slept
  /-- Whether to idle on. -/
  | idle
  | noted
  | order
  /-- The outcome of an order. -/
  | replying
  /-- The read of a cycle ordered. -/
  | cycling
  | answered

/-- What a monitor does next. -/
inductive MonitorMove where
  | act (a : MonitorAct) (w : MonitorWait)
  | finish (d : Done)

namespace MonitorBody

def sleepSchema (seconds : Float) : Schema := Schema.empty.optional "sleep" .duration (.float seconds)

def schema : MonitorBody → Schema
  | count _ => Schema.empty.required "n" .int
  | interval .. => ExitCondition.schema (sleepSchema 1.0)
  | change .. => sleepSchema 1.0
  | onValue .. =>
      ((Schema.empty.required "value" .any).optional "always" .bool (.bool false)).optional
        "sleep" .duration (.float 1.0)
  | onDemand _ => sleepSchema 0.25
  | recorder _ => Recorder.schema
  | once | onCall | probe => .empty

def attach (ctx : Context) : MonitorBody → HookEnd MonitorBody
  | recorder r => (r.attach ctx).map recorder
  | body => .pass body

def initialise (p : Params) (body : MonitorBody) : HookEnd MonitorBody :=
  match body with
  | count _ => .ofExcept body ((p.int "n").map fun n => count n.toNat)
  | interval .. => .ofExcept body <| do
      return interval (← p.duration "sleep") (← ExitCondition.ofParams p)
  | change .. => .ofExcept body ((p.duration "sleep").map fun d => change d none)
  | onValue .. => .ofExcept body <| do
      let always ← p.bool "always"
      return onValue (p.value "value") always (← p.duration "sleep") false
  | onDemand _ => .ofExcept body ((p.duration "sleep").map onDemand)
  | recorder r =>
      let set (r : Recorder) : Recorder :=
        { r with tag := (p.value "tag").plain, failing := (p.value "fail").plain }
      ((set r).hook .initialise).map recorder
  | body => .pass body

instance : Hooks MonitorBody where
  schema := schema
  attach := attach
  initialise _ _ := initialise
  start
    | recorder r => (r.hook .start).map recorder
    | body => .pass body
  stop
    | recorder r => (r.hook .stop).map recorder
    | body => .pass body

/-- Whether the monitor has a thread of its own. -/
def threaded : MonitorBody → Bool
  | onCall => false
  | _ => true

/-- Whether the flow ends with its monitor. -/
def endsFlow : MonitorBody → Bool
  | onCall => false
  | _ => true

/-- Whether other flows may call the flow. -/
def callable : MonitorBody → Bool
  | onCall => true
  | _ => false

/-- The next round of a monitor that counts. -/
def countRound : Nat → MonitorMove
  | 0 => .finish (.ok ())
  | left + 1 => .act .stopped (.counting left)

/-- What a loop does when a round is over. -/
def rest : MonitorBody → MonitorMove
  | interval sleep _ | change sleep _ | onValue _ _ sleep _ => .act (.sleep sleep) .slept
  | onDemand _ => .act .sinksActive .idle
  | _ => .finish (.ok ())

/-- What a loop does with a payload. -/
def receive (v : Value) (body : MonitorBody) : MonitorBody × MonitorMove :=
  match body with
  | interval _ exits =>
      match ExitCondition.check? exits v with
      | some c => (body, .act (.reportExit c) .exited)
      | none => (body, .act (.push v) .forwarded)
  | change sleep last =>
      if last.any (· == v) then (body, body.rest)
      else (change sleep (some v), .act (.push v) .forwarded)
  | onValue target always sleep matching =>
      let equal := v == target
      let body := onValue target always sleep equal
      if equal && (always || !matching) then (body, .act (.push v) .forwarded) else (body, body.rest)
  | body => (body, .act (.push v) .forwarded)

/-- Starts a monitor's run. -/
def begin : MonitorBody → MonitorMove
  | once => .act .pull .onlyRead
  | count n => countRound n
  | interval .. | change .. | onValue .. | onDemand _ => .act .pull .cycle
  | onCall => .finish (.ok ())
  | probe => .act .listen .order
  | recorder r => .act (.note [r.note .run]) .noted

/-- Follows an order. -/
def obey : Order → MonitorMove
  | .pull => .act .pull .replying
  | .push v => .act (.push v) .replying
  | .cycle => .act .pull .cycling
  | .sinksActive => .act .sinksActive .replying
  | .stopped => .act .stopped .replying
  | .sleep d => .act (.sleep d) .replying
  | .report e => .act (.report e) .replying
  | .reportExit c => .act (.reportExit c) .replying
  | .finish => .finish (.ok ())
  | .fail e => .finish (.error e)

/-- Whether an outcome is the boolean true. -/
def yes : Outcome → Bool
  | .ok (.bool b) => b
  | _ => false

/-- Goes on with the outcome of an action. -/
def resume (w : MonitorWait) (out : Outcome) (body : MonitorBody) : MonitorBody × MonitorMove :=
  match w, out with
  | .onlyRead, .ok v => (body, .act (.push v) .onlyPush)
  | .onlyRead, .error e => (body, .finish (.error e))
  | .onlyPush, out => (body, .finish out.done)
  | .counting left, out =>
      (body, if yes out then .finish (.ok ()) else .act .pull (.counted left))
  | .counted left, .ok v => (body, .act (.push v) (.delivered left))
  | .counted _, .error e => (body, .finish (.error e))
  | .delivered left, .ok _ => (body, countRound left)
  | .delivered _, .error e => (body, .finish (.error e))
  | .cycle, .ok v => body.receive v
  | .cycle, .error (.interrupted key) => (body, .act .stopped (.judging (.interrupted key)))
  | .cycle, .error e => (body, .act (.report e) .reported)
  | .judging e, out => (body, if yes out then body.rest else .act (.report e) .reported)
  | .forwarded, .ok _ => (body, body.rest)
  | .forwarded, .error e => (body, .act (.report e) .reported)
  | .reported, _ => (body, body.rest)
  | .exited, _ => (body, .finish (.ok ()))
  | .slept, out =>
      match body with
      | onDemand _ => (body, if yes out then body.rest else .finish (.ok ()))
      | body => (body, if yes out then .act .pull .cycle else .finish (.ok ()))
  | .idle, out =>
      match body with
      | onDemand sleep =>
          (body, if yes out then .act (.sleep sleep) .slept else .finish (.ok ()))
      | body => (body, .finish (.ok ()))
  | .noted, _ =>
      match body with
      | recorder r =>
          match r.result .run with
          | .ok () => (body, .act .pull .onlyRead)
          | .error e => (body, .finish (.error e))
      | body => (body, .act .pull .onlyRead)
  | .order, _ => (body, .act .listen .order)
  | .replying, out => (body, .act (.answer out) .answered)
  | .cycling, .ok v => (body, .act (.push v) .replying)
  | .cycling, .error e => (body, .act (.answer (.error e)) .answered)
  | .answered, _ => (body, .act .listen .order)

end MonitorBody
end PullFlow
