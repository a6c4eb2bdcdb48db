import PullFlow.Registry

/-!
Checks of a document before anything is built from it. Every rule looks at the document alone and
at the names that a registry knows. A document with a finding of severity `error` is refused.
-/

namespace PullFlow

namespace Lint

inductive Severity where
  | error
  | warning
  | info
  deriving DecidableEq, Repr

def Severity.name : Severity → String
  | error => "error"
  | warning => "warning"
  | info => "info"

/-- What a rule found: in which flow, and how to mend it if the rule knows. -/
structure Finding where
  rule : String
  severity : Severity
  flow : String
  message : String
  fix : Option String

open Blueprint

/-- The name of a flow, or its position in the document. -/
def label (index : Nat) (f : Flow) : String := f.name.getD ("#" ++ toString index)

/-- The flows with their labels. -/
def labelled (d : Document) : List (String × Flow) :=
  d.flows.zipIdx.map fun (f, i) => (label i f, f)

/-- The names that flows have. -/
def flowNames (d : Document) : List String := d.flows.filterMap (·.name)

/-- The flows by name; of several flows of one name the last. -/
def byName (d : Document) : List (String × Flow) :=
  Fields.ofList (d.flows.filterMap fun f => f.name.map (·, f))

/-- The components of a flow with the roles under which they are looked up. -/
def roles (f : Flow) : List (Role × Part) :=
  let links := f.operators.map fun
    | .tee sink => (Role.sink, sink)
    | .operator part => (Role.operator, part)
  f.source.toList.map (Role.source, ·) ++ links ++ f.sink.toList.map (Role.sink, ·) ++
    f.monitor.toList.map (Role.monitor, ·)

/-- A list without items equal to the one before them. -/
def withoutRepeats : List String → List String
  | a :: b :: rest => if a = b then withoutRepeats (b :: rest) else a :: withoutRepeats (b :: rest)
  | short => short

/-- The flow that a parameter refers to. -/
def referenceOf? : Param → Option String
  | .flow name => some name
  | _ => none

/-- The flows that a component refers to: the one it calls or feeds, then those of its parameters. -/
def references (p : Part) : List String :=
  withoutRepeats (p.target?.toList ++ (p.args ++ p.params.map (·.2)).filterMap referenceOf?)

/-- Whether a flow can be called. -/
def hasCallMonitor (f : Flow) : Bool := f.monitor.any (·.kind == "call")

/-- Components that no one knows. -/
def unknownKind (r : Registry) (d : Document) : List Finding :=
  (labelled d).flatMap fun (flow, f) => (roles f).filterMap fun (role, part) =>
    if r.has role part.kind then none
    else some ⟨"unknown_kind", .error, flow, "unknown " ++ role.name ++ " " ++ inQuotes part.kind,
      some ("Run `actuator list` to see the known " ++ role.name ++ "s")⟩

/-- Names that several flows have. -/
def duplicateName (d : Document) : List Finding :=
  (Fields.keys (byName d)).filterMap fun name =>
    let times := (flowNames d).count name
    if times ≤ 1 then none
    else some ⟨"duplicate_name", .error, name,
      "flow name " ++ inQuotes name ++ " is used " ++ toString times ++ " times", none⟩

/-- References to flows that do not exist. -/
def danglingReference (d : Document) : List Finding :=
  (labelled d).flatMap fun (flow, f) => (roles f).flatMap fun (_, part) =>
    ((references part).filter (!(flowNames d).contains ·)).map fun target =>
      ⟨"dangling_reference", .error, flow,
        inQuotes part.kind ++ " refers to unknown flow " ++ inQuotes target, none⟩

/-- Flows that call or feed themselves. -/
def selfReference (d : Document) : List Finding :=
  d.flows.filterMap fun f => f.name.bind fun name =>
    if (f.calledFlows ++ f.outflowTargets).contains name then
      some ⟨"self_reference", .error, name, "flow " ++ inQuotes name ++ " calls or feeds itself", none⟩
    else none

/-- Which flows the flow of a name calls. -/
def callsOf (flows : List (String × Flow)) (name : String) : List String :=
  match Fields.get? name flows with
  | some f => f.calledFlows
  | none => []

/-- A way of calls that closes `way`, whose last flow is `current`, to a ring at its first flow
`start`. The flows on the way are taken from `free`, each at most once. -/
def ringFrom? (calls : String → List String) (start : String) (free way : List String)
    (current : String) : Option (List String) :=
  (calls current).findSome? fun next =>
    if next = start ∧ 1 < way.length then some (way ++ [start])
    else if _h : next ∈ free then ringFrom? calls start (free.erase next) (way ++ [next]) next
    else none
  termination_by free.length
  decreasing_by
    rw [List.length_erase_of_mem ‹next ∈ free›]
    have := List.length_pos_of_mem ‹next ∈ free›
    omega

/-- The ring of calls whose least flow is `start`. -/
def ringOf? (flows : List (String × Flow)) (start : String) : Option (List String) :=
  ringFrom? (callsOf flows) start ((Fields.keys flows).filter fun name => decide (start < name)) [start]
    start

/-- Flows that call each other in a ring. Such calls could never finish. -/
def callCycle (d : Document) : List Finding :=
  let flows := byName d
  (Fields.keys flows).filterMap fun start =>
    (ringOf? flows start).map fun ring =>
      ⟨"call_cycle", .error, start, (Misuse.callRing ring).message,
        some "Break the cycle; a called flow must not call back into its caller"⟩

/-- Called flows that cannot be called. -/
def callableTarget (d : Document) : List Finding :=
  (labelled d).flatMap fun (flow, f) => f.calledFlows.filterMap fun target =>
    (Fields.get? target (byName d)).bind fun peer =>
      if hasCallMonitor peer then none
      else some ⟨"callable_target", .error, flow,
        "flow " ++ inQuotes target ++ " is called but has no 'call' monitor",
        some ("Give flow " ++ inQuotes target ++ " \"monitor\": \"call\"")⟩

/-- Flows that are fed but have a source of their own. -/
def sourceWithInflows (d : Document) : List Finding :=
  let targets := d.flows.flatMap Flow.outflowTargets
  (d.flows.filter (·.source.isSome)).filterMap fun f => f.name.bind fun name =>
    if targets.contains name then
      some ⟨"source_with_inflows", .warning, name,
        "flow " ++ inQuotes name ++ " is fed by peers but its source ignores them",
        some "Drop the source to read peers through 'inflow'"⟩
    else none

/-- Callable flows with a source or a sink of their own. -/
def callMonitor (d : Document) : List Finding :=
  (labelled d).flatMap fun (flow, f) =>
    if hasCallMonitor f then
      ([("source", f.source), ("sink", f.sink)].filter (·.2.isSome)).map fun (part, _) =>
        ⟨"call_monitor", .error, flow, "a 'call' flow supplies its own " ++ part, none⟩
    else []

/-- Flows without a name. -/
def unnamedFlow (d : Document) : List Finding :=
  ((labelled d).filter (·.2.name.isNone)).map fun (flow, _) =>
    ⟨"unnamed_flow", .info, flow, "flow has no name; a generated one will be used", none⟩

/-- All findings, rule by rule. -/
def findings (r : Registry) (d : Document) : List Finding :=
  unknownKind r d ++ duplicateName d ++ danglingReference d ++ selfReference d ++ callCycle d ++
    callableTarget d ++ sourceWithInflows d ++ callMonitor d ++ unnamedFlow d

/-- The findings of a document that has no error. -/
def accept (r : Registry) (d : Document) : Except Error (List Finding) :=
  let found := findings r d
  match found.filter (·.severity = .error) with
  | [] => .ok found
  | errors => .error (.configuration (.lint (errors.map (·.message))))

end Lint
end PullFlow
