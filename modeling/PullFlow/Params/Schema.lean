import PullFlow.Duration
import PullFlow.Decimal.Whole

/-!
What arguments a component takes, and the binding of arguments to its parameters. Arguments without
a name fill the parameters in order, arguments with a name fill them by name. A value is brought to
the sort of its parameter; null stays null and leaves the parameter unset.
-/

namespace PullFlow

/-- The sorts of parameters. -/
inductive ParamKind where
  | text
  | int
  | float
  | bool
  | duration
  | any
  deriving DecidableEq, Repr

def ParamKind.name : ParamKind → String
  | text => "Str"
  | int => "Int"
  | float => "Float"
  | bool => "Bool"
  | duration => "Duration"
  | any => "Any"

/-- A declared parameter. Without a default it must be given; a null default leaves it unset. -/
structure ParamSpec where
  name : String
  kind : ParamKind
  default : Option Value

/-- The parameters of a component, in order. A variadic component takes further arguments after
them and ignores names it does not know. -/
structure Schema where
  specs : List ParamSpec
  variadic : Bool

namespace Schema

def empty : Schema := ⟨[], false⟩

/-- Further arguments are taken. -/
def anyNumber : Schema := ⟨[], true⟩

def required (s : Schema) (name : String) (kind : ParamKind) : Schema :=
  { s with specs := s.specs ++ [⟨name, kind, none⟩] }

def optional (s : Schema) (name : String) (kind : ParamKind) (default : Value) : Schema :=
  { s with specs := s.specs ++ [⟨name, kind, some default⟩] }

def names (s : Schema) : List String := s.specs.map (·.name)

end Schema

/-- Bound parameters: a value for each declared name, and the arguments beyond them. -/
structure Params where
  values : List (String × Value)
  rest : List Value

namespace ParamKind

/-- The integer that a value gives to an integer parameter. -/
def integerOf? : Value → Option Int
  | .number (.int n) =>
      match Number.toInt64? (.int n) with
      | some n => some n
      | none =>
          let x := (Number.int n).toFloat
          if Decimal.isWhole x then some (Decimal.truncate64 x) else none
  | .number (.float x) => if Decimal.isWhole x then some (Decimal.truncate64 x) else none
  | .text s => Decimal.integer64? (Text.trim s)
  | _ => none

def floatOf? : Value → Option Float
  | .number n => some n.toFloat
  | .text s => Decimal.float? (Text.trim s)
  | _ => none

def boolOf? : Value → Option Bool
  | .bool b => some b
  | .text s => Text.toBool? s
  | .number n => some (n.toFloat != 0.0)
  | _ => none

/-- Brings a value to the sort of a parameter. -/
def coerce (component : String) (spec : ParamSpec) (v : Value) : Except Error Value :=
  let wrong : Except Error Value :=
    .error (.configuration (.wrongParameter component spec.name spec.kind.name v))
  if v.isNull then .ok .null
  else match spec.kind with
    | .any => .ok v
    | .text =>
        match v with
        | .text s => .ok (.text s)
        | .number n => .ok (.text n.text)
        | .bool b => .ok (.text (Value.bool b).compact)
        | _ => wrong
    | .int => match integerOf? v with
        | some n => .ok (.int n)
        | none => wrong
    | .float => match floatOf? v with
        | some x => .ok (.float x)
        | none => wrong
    | .bool => match boolOf? v with
        | some b => .ok (.bool b)
        | none => wrong
    | .duration =>
        match Duration.ofValue v with
        | .ok d => .ok (.float d.toSeconds)
        | .error .overflow => .error .overflow
        | .error e =>
            .error (.configuration (.parameterFailed component spec.name e.message))

end ParamKind

namespace Schema

/-- The value of one parameter, with the arguments still to be bound after it. -/
def bindOne (component : String) (spec : ParamSpec) (args : List Value)
    (named : List (String × Value)) :
    Except Error (Value × List Value × List (String × Value)) :=
  match args with
  | v :: args =>
      match Fields.get? spec.name named with
      | some _ => .error (.configuration (.givenTwice component spec.name))
      | none => (ParamKind.coerce component spec v).map fun v => (v, args, named)
  | [] =>
      match Fields.get? spec.name named, spec.default with
      | some v, _ =>
          (ParamKind.coerce component spec v).map fun v => (v, [], Fields.erase spec.name named)
      | none, some default => .ok (default, [], named)
      | none, none => .error (.configuration (.missingParameter component spec.name))

/-- Binds the declared parameters in order; what is left are the arguments beyond them. -/
def bindSpecs (component : String) : List ParamSpec → List Value → List (String × Value) →
    Except Error (List (String × Value) × List Value × List (String × Value))
  | [], args, named => .ok ([], args, named)
  | spec :: specs, args, named => do
      let (v, args, named) ← bindOne component spec args named
      let (values, args, named) ← bindSpecs component specs args named
      return ((spec.name, v) :: values, args, named)

/-- Binds the arguments of a component. -/
def bind (s : Schema) (component : String) (args : List Value) (named : List (String × Value)) :
    Except Error Params := do
  let (values, rest, left) ← bindSpecs component s.specs args named
  if !s.variadic then
    if !rest.isEmpty then
      throw (.configuration
        (.tooManyArguments component s.specs.length (s.specs.length + rest.length)))
    match left with
    | (name, _) :: _ => throw (.configuration (.unknownParameter component name))
    | [] => pure ()
  return ⟨Fields.ofList values, rest⟩

end Schema

namespace Params

/-- The value of a parameter that is set. -/
def get? (p : Params) (name : String) : Option Value :=
  (Fields.get? name p.values).filter fun v => !v.isNull

/-- The value of a parameter, null if it is not set. -/
def value (p : Params) (name : String) : Value := (p.get? name).getD .null

/-- The value of a parameter that must be set. -/
def require (p : Params) (name : String) : Outcome :=
  match p.get? name with
  | some v => .ok v
  | none => .error (.configuration (.parameterNotSet name))

def text (p : Params) (name : String) : Except Error String := (p.require name).map Value.plain

def int (p : Params) (name : String) : Except Error Int := do
  match (← p.require name).toInt64? with
  | some n => return n
  | none => throw (.configuration (.parameterNotInteger name))

def float (p : Params) (name : String) : Except Error Float := do
  match (← p.require name).toFloat? with
  | some x => return x
  | none => throw (.configuration (.parameterNotNumber name))

def bool (p : Params) (name : String) : Except Error Bool := do
  match (← p.require name).toBool? with
  | some b => return b
  | none => throw (.configuration (.parameterNotBoolean name))

def duration (p : Params) (name : String) : Except Error Duration := do
  Duration.ofValue (← p.require name)

/-- The duration of a parameter, if it is set. -/
def duration? (p : Params) (name : String) : Except Error (Option Duration) :=
  match p.get? name with
  | some v => (Duration.ofValue v).map some
  | none => .ok none

end Params
end PullFlow
