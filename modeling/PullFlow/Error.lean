import PullFlow.Json.Fault
import PullFlow.Value.Truth

/-!
What can go wrong, by cause, and the wording of each. An error is transient when a scheduled flow
carries on after it, and fatal when it must abort the setup of a flow set.
-/

namespace PullFlow

/-- The parts a flow is built from. -/
inductive Role where
  | source
  | operator
  | sink
  | monitor
  deriving DecidableEq, Repr

def Role.name : Role → String
  | .source => "source"
  | .operator => "operator"
  | .sink => "sink"
  | .monitor => "monitor"

/-- The stages a component passes through, in this order. -/
inductive Stage where
  | created
  | contextualized
  | initialised
  | running
  | stopped
  deriving DecidableEq, Repr

def Stage.name : Stage → String
  | .created => "CREATED"
  | .contextualized => "CONTEXTUALIZED"
  | .initialised => "INITIALISED"
  | .running => "RUNNING"
  | .stopped => "STOPPED"

/-- The states a flow passes through, in this order. -/
inductive FlowState where
  | init
  | context
  | setup
  | wired
  | started
  | ending
  | ended
  deriving DecidableEq, Repr

namespace FlowState

/-- The place of a state in the order. -/
def rank : FlowState → Nat
  | init => 0
  | context => 1
  | setup => 2
  | wired => 3
  | started => 4
  | ending => 5
  | ended => 6

def name : FlowState → String
  | init => "INIT"
  | context => "CONTEXT"
  | setup => "SETUP"
  | wired => "WIRED"
  | started => "STARTED"
  | ending => "ENDING"
  | ended => "ENDED"

end FlowState

/-- A text in single quotes. -/
def inQuotes (s : String) : String := "'" ++ s ++ "'"

/-- Ways to configure flows and components wrongly. -/
inductive Misuse where
  | durationText (text : String)
  | durationValue (v : Value)
  | scopeAsValue (key : String)
  | unknownPeer (flow peer : String)
  | feedsItself (flow : String)
  | callsItself (flow : String)
  | calledBeforeAttached (flow : String)
  | needsFlowName (kind : String)
  | callRing (flows : List String)
  | givenTwice (component parameter : String)
  | missingParameter (component parameter : String)
  | tooManyArguments (component : String) (limit given : Nat)
  | unknownParameter (component parameter : String)
  | wrongParameter (component parameter kind : String) (v : Value)
  | parameterFailed (component parameter text : String)
  | parameterNotSet (parameter : String)
  | parameterNotInteger (parameter : String)
  | parameterNotNumber (parameter : String)
  | parameterNotBoolean (parameter : String)
  | unknownElement (role : Role) (name : String)
  | duplicateFlow (name : String)
  | callShape (flow monitor source sink : String)
  | notLinked (source : String)
  | fileMode (mode : String)
  | hashAlgorithm (name : String)
  | timeFormat (format : String)
  | timeOfDay (parameter text reason : String)
  | lint (messages : List String)
  | stated (text : String)

namespace Misuse

def message : Misuse → String
  | durationText s => "invalid duration: " ++ inQuotes s
  | durationValue v => "invalid duration: " ++ v.compact
  | scopeAsValue key => inQuotes key ++ " names a scope, not a value"
  | unknownPeer flow peer => "flow " ++ inQuotes flow ++ " references unknown flow " ++ inQuotes peer
  | feedsItself flow => "flow " ++ inQuotes flow ++ " cannot feed itself"
  | callsItself flow => "flow " ++ inQuotes flow ++ " cannot call itself"
  | calledBeforeAttached flow => "call to flow " ++ inQuotes flow ++ " before it was attached"
  | needsFlowName kind => kind ++ " needs the name of a flow as its first argument"
  | callRing flows => "flows call each other in a cycle: " ++ " -> ".intercalate flows
  | givenTwice c p => c ++ ": parameter " ++ inQuotes p ++ " given both by position and by name"
  | missingParameter c p => c ++ ": missing required parameter " ++ inQuotes p
  | tooManyArguments c limit given =>
      c ++ ": takes at most " ++ toString limit ++ " positional argument(s), got " ++ toString given
  | unknownParameter c p => c ++ ": unknown parameter " ++ inQuotes p
  | wrongParameter c p kind v =>
      c ++ ": parameter " ++ inQuotes p ++ " expects " ++ kind ++ ", got " ++ v.compact
  | parameterFailed c p text => c ++ ": parameter " ++ inQuotes p ++ ": " ++ text
  | parameterNotSet p => "parameter " ++ inQuotes p ++ " is not set"
  | parameterNotInteger p => "parameter " ++ inQuotes p ++ " is not an integer"
  | parameterNotNumber p => "parameter " ++ inQuotes p ++ " is not a number"
  | parameterNotBoolean p => "parameter " ++ inQuotes p ++ " is not a boolean"
  | unknownElement role name => "unknown " ++ role.name ++ " " ++ inQuotes name
  | duplicateFlow name => "duplicate flow name " ++ inQuotes name
  | callShape flow monitor source sink =>
      "flow " ++ inQuotes flow ++ ": a " ++ inQuotes monitor ++
        " monitor needs its own push source and the 'none' sink, got " ++ inQuotes source ++
        " and " ++ inQuotes sink
  | notLinked source => "chain starting at " ++ inQuotes source ++ " read before it was wired"
  | fileMode mode => "file: mode must be \"w\" or \"a\", got " ++ inQuotes mode
  | hashAlgorithm name => "hash: unsupported algorithm " ++ inQuotes name ++ ", only 'sha256'"
  | timeFormat format => "time: invalid format " ++ inQuotes format
  | timeOfDay p text reason =>
      "time.during: " ++ p ++ " " ++ inQuotes text ++ ": " ++ reason
  | lint messages => "; ".intercalate messages
  | stated text => text

end Misuse

/-- An error of the engine. `overflow` is the one that no handler may catch: a duration beyond
the range of durations. -/
inductive Error where
  | document (line column : Nat) (message : String)
  | configuration (misuse : Misuse)
  | notCallable (flow : String)
  | invalidState (component expected actual : String)
  | undefinedKey (key : String)
  | claimConflict (key : String)
  | interrupted (key : String)
  | unimplemented (kind : String)
  | evaluation (component message : String)
  | host (message : String)
  | json (message : String)
  | other (message : String)
  | overflow

namespace Error

def message : Error → String
  | document line column m =>
      "Blueprint parse error at line " ++ toString line ++ ", col " ++ toString column ++ ": " ++ m
  | configuration misuse => "Configuration error: " ++ misuse.message
  | notCallable flow => "Flow " ++ inQuotes flow ++ " is not callable: its monitor must be 'call'"
  | invalidState c expected actual =>
      "Component " ++ inQuotes c ++ " is " ++ actual ++ ", expected " ++ expected
  | undefinedKey key => "Undefined: " ++ inQuotes key
  | claimConflict key => "Claim failed for key " ++ inQuotes key
  | interrupted key => "Wait for " ++ inQuotes key ++ " interrupted: the flow is stopping"
  | unimplemented kind => "Value is unimplemented for " ++ kind
  | evaluation c m => c ++ " failed to evaluate: " ++ m
  | host m => "IO error: " ++ m
  | json m => "JSON error: " ++ m
  | other m => m
  | overflow => "overflow in Duration"

/-- Whether a scheduled flow carries on after the error. -/
def transient : Error → Bool
  | evaluation .. | unimplemented _ | host _ | json _ => true
  | _ => false

/-- Whether the error must abort setup. -/
def fatal : Error → Bool
  | document .. | configuration _ | notCallable _ | invalidState .. | claimConflict _ => true
  | _ => false

/-- An abstract component's error, renamed to the component of a given kind. -/
def relabel (kind : String) : Error → Error
  | unimplemented _ => unimplemented kind
  | e => e

/-- A list was needed. -/
def notAList (component : String) (v : Value) : Error :=
  evaluation component ("expected a list, got " ++ v.brief)

end Error

/-- What a computation of a payload comes to. -/
abbrev Outcome := Except Error Value

/-- What an action comes to. -/
abbrev Done := Except Error Unit

/-- An action's end as an outcome without a payload. -/
def Done.outcome (d : Done) : Outcome := d.map fun _ => .null

/-- An outcome with its payload left out. -/
def Outcome.done (o : Outcome) : Done := o.map fun _ => ()

end PullFlow
