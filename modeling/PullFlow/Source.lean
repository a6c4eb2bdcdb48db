import PullFlow.Request
import PullFlow.Component.Recorder
import PullFlow.Clock.Format
import PullFlow.Rehearsal.StatedError

/-!
Sources, the roots of chains. A source gives its next value at once or after answers from the
surroundings. A feeding source asks each of its inflows once, in their order, and stops at the
first that fails.
-/

namespace PullFlow

/-- The sources and their state. -/
inductive SourceBody where
  /-- Always one value; takes no arguments. -/
  | constant (v : Value)
  | text (s : String)
  | int (n : Int)
  | float (x : Float)
  | bool (b : Bool)
  /-- Counts by `step`, from the first value on after `current`. -/
  | counter (current step : Int)
  /-- The values left, then null for ever. -/
  | sequence (left : List Value)
  /-- The lines of the input, then null for ever. -/
  | lines
  /-- What other flows feed; with `named`, several payloads are keyed by their producers. -/
  | inflow (named : Bool) (inflows : List Outflow)
  /-- The payload of the call in progress. -/
  | injected (slot : Option Value)
  /-- A variable; a missing one is waited for or read as null. -/
  | var (name : String) (wait : Bool) (scope : Option ScopeId)
  | file (path : String) (binary : Bool)
  /-- The time of day in a format. -/
  | now (format : String)
  /-- Seconds since the start of 1970. -/
  | epoch
  /-- Whether the time of day is in a window. -/
  | during (start stop : Clock.TimeOfDay)
  /-- Steps to be replayed, some of which fail or stop the flows; `parameters` when they are given
  as arguments. -/
  | script (left : List Value) (stopAtEnd parameters : Bool)
  | recorder (r : Recorder)
  | abstract

abbrev Source := Component SourceBody

/-- What a source waits for. -/
inductive SourceWait where
  /-- The answer is the value. -/
  | answer
  /-- The value is known and the answer does not matter. -/
  | known (out : Outcome)
  /-- A payload of an inflow; `done` holds those before it, backwards. -/
  | inflow (done : List (String × Value)) (asked : Outflow) (rest : List Outflow)
  /-- The present moment. -/
  | moment

/-- What a source does next. -/
inductive SourceMove where
  | reply (out : Outcome)
  | ask (r : Request) (w : SourceWait)

namespace SourceBody

def schema : SourceBody → Schema
  | constant _ | lines | injected _ | epoch | abstract => .empty
  | text _ => Schema.empty.required "value" .text
  | int _ => Schema.empty.optional "value" .int (.int 1)
  | float _ => Schema.empty.optional "value" .float (.float 0.0)
  | bool _ => Schema.empty.optional "value" .bool (.bool true)
  | counter .. =>
      (Schema.empty.optional "start" .int (.int 0)).optional "step" .int (.int 1)
  | sequence _ => .anyNumber
  | inflow .. => Schema.empty.optional "named" .bool (.bool false)
  | var .. => (Schema.empty.required "name" .text).optional "wait" .bool (.bool true)
  | file .. => (Schema.empty.required "path" .text).optional "binary" .bool (.bool false)
  | now _ => Schema.empty.optional "format" .text (.text "%H:%M:%S")
  | during .. => (Schema.empty.required "start" .text).required "end" .text
  | script _ _ parameters =>
      if parameters then
        (Schema.empty.required "steps" .any).optional "end" .text (.text "null")
      else .empty
  | recorder _ => Recorder.schema

def attach (ctx : Context) : SourceBody → HookEnd SourceBody
  | recorder r => (r.attach ctx).map recorder
  | body => .pass body

def initialise (ctx : Context) (p : Params) (body : SourceBody) : HookEnd SourceBody :=
  match body with
  | text _ => .ofExcept body ((p.text "value").map text)
  | int _ => .ofExcept body ((p.int "value").map int)
  | float _ => .ofExcept body ((p.float "value").map float)
  | bool _ => .ofExcept body ((p.bool "value").map bool)
  | counter _ step => .taking body (p.int "start") fun start =>
      .ofExcept (counter start step) ((p.int "step").map fun step => counter start step)
  | sequence _ => .pass (sequence p.rest)
  | inflow _ inflows => .ofExcept body ((p.bool "named").map fun named => inflow named inflows)
  | var .. => .ofExcept body <| do
      return var (← p.text "name") (← p.bool "wait") (some ctx.scope)
  | file _ binary => .taking body (p.text "path") fun path =>
      .ofExcept (file path binary) ((p.bool "binary").map fun binary => file path binary)
  | now _ => .ofExcept body <| do
      let format ← p.text "format"
      if (Clock.items? format).isSome then return now format
      else throw (.configuration (.timeFormat format))
  | during _ stop =>
      .taking body ((p.text "start").bind (Clock.TimeOfDay.parse "start")) fun start =>
        .ofExcept (during start stop) <|
          ((p.text "end").bind (Clock.TimeOfDay.parse "end")).map fun stop => during start stop
  | script left stopAtEnd parameters =>
      if parameters then
        let steps := match p.value "steps" with
          | .list items => items
          | _ => []
        .pass (script steps ((p.value "end").plain == "stop") true)
      else .pass (script left stopAtEnd parameters)
  | recorder r =>
      let set (r : Recorder) : Recorder :=
        { r with tag := (p.value "tag").plain, failing := (p.value "fail").plain }
      ((set r).hook .initialise).map recorder
  | body => .pass body

instance : Hooks SourceBody where
  schema := schema
  attach := attach
  initialise _ := initialise
  start
    | recorder r => (r.hook .start).map recorder
    | body => .pass body
  stop
    | recorder r => (r.hook .stop).map recorder
    | body => .pass body

/-- Takes the inflows of the flow. -/
def wire (inflows : List Outflow) : SourceBody → HookEnd SourceBody
  | inflow named _ => .pass (inflow named inflows)
  | recorder r =>
      let h := r.hook .wire
      match h.result with
      | .ok () =>
          let producers := ",".intercalate (inflows.map (·.producer))
          ⟨recorder r, .ok (), h.notes ++ [⟨r.home, "inflows=" ++ producers⟩]⟩
      | .error e => ⟨recorder r, .error e, h.notes⟩
  | body => .pass body

/-- The value of payloads by producer: an object, or a list of the payloads alone. -/
def gathered (named : Bool) (payloads : List (String × Value)) : Value :=
  if named then .object (Fields.ofList payloads) else .list (payloads.map (·.2))

/-- The step of a script. -/
def scriptMove : Value → SourceMove
  | .object fields =>
      match Fields.get? "$err" fields, Fields.get? "$raise" fields, Fields.get? "$stop" fields with
      | some m, _, _ => .reply (.error (.evaluation "script" m.plain))
      | none, some kind, _ =>
          match Error.stated? kind.plain fields with
          | some e => .reply (.error e)
          | none => .reply (.ok (.object fields))
      | none, none, some v => .ask .stopAll (.known (.ok v))
      | none, none, none => .reply (.ok (.object fields))
  | v => .reply (.ok v)

/-- Starts the computation of the next value. -/
def begin : SourceBody → SourceBody × SourceMove
  | constant v => (constant v, .reply (.ok v))
  | text s => (text s, .reply (.ok (.text s)))
  | int n => (int n, .reply (.ok (.int n)))
  | float x => (float x, .reply (.ok (.float x)))
  | bool b => (bool b, .reply (.ok (.bool b)))
  | counter current step => (counter (current + step) step, .reply (.ok (.int (current + step))))
  | sequence [] => (sequence [], .reply (.ok .null))
  | sequence (v :: left) => (sequence left, .reply (.ok v))
  | lines => (lines, .ask (.host .readLine) .answer)
  | inflow named [] => (inflow named [], .reply (.ok .null))
  | inflow named [only] => (inflow named [only], .ask (.payload only) .answer)
  | inflow named (first :: rest) =>
      (inflow named (first :: rest), .ask (.payload first) (.inflow [] first rest))
  | injected slot => (injected slot, .reply (.ok (slot.getD .null)))
  | var name wait none => (var name wait none, .reply (.ok .null))
  | var name wait (some scope) => (var name wait (some scope), .ask (.look scope name wait) .answer)
  | file path binary => (file path binary, .ask (.host (.readFile path binary)) .answer)
  | now format => (now format, .ask (.host .moment) .moment)
  | epoch => (epoch, .ask (.host .moment) .moment)
  | during start stop => (during start stop, .ask (.host .moment) .moment)
  | script [] stopAtEnd parameters =>
      (script [] stopAtEnd parameters,
        if stopAtEnd then .ask .stopAll (.known (.ok .null)) else .reply (.ok .null))
  | script (step :: left) stopAtEnd parameters =>
      (script left stopAtEnd parameters, scriptMove step)
  | recorder r =>
      (recorder r, .ask (.note [r.note .value]) (.known ((r.result .value).map fun _ => .text r.tag)))
  | abstract => (abstract, .reply (.error (.unimplemented "")))

/-- The value of a source of times at a moment. -/
def atMoment (t : Clock.Moment) : SourceBody → Value
  | now format => .text (Clock.formatted format t)
  | epoch =>
      .float (Float.ofScientific t.seconds false 0 +
        Float.ofScientific (t.subsecond / 1000) false 0 / 1000000.0)
  | during start stop => .bool (Clock.TimeOfDay.within start stop t.timeOfDay)
  | _ => .null

/-- Goes on with the answer to a request. -/
def resume (w : SourceWait) (answer : Outcome) (body : SourceBody) : SourceBody × SourceMove :=
  match w with
  | .answer => (body, .reply answer)
  | .known out => (body, .reply out)
  | .inflow done asked rest =>
      match answer with
      | .error e => (body, .reply (.error e))
      | .ok v =>
          let done := (asked.producer, v) :: done
          match rest with
          | next :: rest => (body, .ask (.payload next) (.inflow done next rest))
          | [] =>
              let named := match body with
                | inflow named _ => named
                | _ => false
              (body, .reply (.ok (gathered named done.reverse)))
  | .moment =>
      (body, .reply (answer.map fun v => body.atMoment ⟨(v.toInt64?.getD 0).toNat⟩))

end SourceBody
end PullFlow
