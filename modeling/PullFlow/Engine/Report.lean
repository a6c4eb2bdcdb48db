import PullFlow.Engine.World

/-!
Events as values, for observers that read JSON.
-/

namespace PullFlow

/-- A state as events name it. -/
def FlowState.word : FlowState → String
  | init => "Init"
  | context => "Context"
  | setup => "Setup"
  | wired => "Wired"
  | started => "Started"
  | ending => "Ending"
  | ended => "Ended"

namespace Engine

/-- An event as an object with one field, its sort. -/
def Event.toValue (e : Event) : Value :=
  let shape (sort : String) (fields : List (String × Value)) : Value :=
    .object [(sort, .object (Fields.ofList (("flow", .text e.flow) :: fields)))]
  match e with
  | stateChanged _ before after =>
      shape "StateChanged" [("from", .text before.word), ("to", .text after.word)]
  | sinkPerformed _ payload => shape "SinkPerformed" [("payload", payload)]
  | pullFailed _ error => shape "PullFailed" [("error", .text error)]
  | exitConditionMet _ condition => shape "ExitConditionMet" [("condition", .text condition.name)]
  | flowFailed _ error => shape "FlowFailed" [("error", .text error)]

end Engine
end PullFlow
