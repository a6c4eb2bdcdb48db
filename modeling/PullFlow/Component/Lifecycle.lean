import PullFlow.Component.Context
import PullFlow.Params.Schema

/-!
The life of a component, the same for sources, operators, sinks and monitors: created, given its
context, initialised with its bound arguments, running, stopped. Each move but the last is allowed
from one stage only. A move calls the component's hook for it; a hook that fails leaves the stage
as it was, except that a stopped component stays stopped. Only a running component has its stop
hook called, so it is called at most once.
-/

namespace PullFlow

/-- A line written to the journal of a flow. -/
structure Note where
  flow : String
  line : String

/-- What a hook leaves behind: the component, whether it succeeded, and what it noted. -/
structure HookEnd (β : Type) where
  body : β
  result : Done
  notes : List Note

namespace HookEnd

variable {β γ : Type}

/-- A hook that succeeds and leaves a component. -/
def pass (body : β) : HookEnd β := ⟨body, .ok (), []⟩

/-- A hook that fails. -/
def fail (body : β) (e : Error) : HookEnd β := ⟨body, .error e, []⟩

/-- A hook that changes the component unless it fails. -/
def ofExcept (body : β) : Except Error β → HookEnd β
  | .ok body => ⟨body, .ok (), []⟩
  | .error e => ⟨body, .error e, []⟩

/-- A hook that takes one value after another; what it took before a failure stays. -/
def taking {α : Type} (body : β) (r : Except Error α) (next : α → HookEnd β) : HookEnd β :=
  match r with
  | .ok a => next a
  | .error e => .fail body e

def map (f : β → γ) (h : HookEnd β) : HookEnd γ := ⟨f h.body, h.result, h.notes⟩

end HookEnd

/-- The hooks of one sort of component. -/
class Hooks (β : Type) where
  /-- The arguments it takes. -/
  schema : β → Schema
  /-- Called with the surroundings, before any component is set up. -/
  attach : Context → β → HookEnd β
  /-- Called with the bound arguments. -/
  initialise : Scope.Store → Context → Params → β → HookEnd β
  start : β → HookEnd β
  stop : β → HookEnd β

/-- A component with its kind, its name if it has one, its arguments and its stage. -/
structure Component (β : Type) where
  kind : String
  name : Option String
  arguments : Arguments
  stage : Stage
  context : Option Context
  body : β

namespace Component

variable {β : Type}

/-- A fresh component. -/
def make (kind : String) (body : β) (arguments : Arguments) (name : Option String := none) :
    Component β :=
  ⟨kind, name, arguments, .created, none, body⟩

/-- The name of a component, or its kind. -/
def label (c : Component β) : String := c.name.getD c.kind

/-- A component must be at a stage. -/
def expect (c : Component β) (stage : Stage) : Done :=
  if c.stage = stage then .ok ()
  else .error (.invalidState c.kind stage.name c.stage.name)

/-- An error that a component passes on: that of an abstract component gets this one's kind. -/
def passOn {α : Type} (c : Component β) (r : Except Error α) : Except Error α :=
  r.mapError (Error.relabel c.kind)

section Moves

variable [Hooks β]

/-- Takes the end of a hook; a success brings the component to a new stage. -/
def after (c : Component β) (h : HookEnd β) (stage : Stage) (ctx : Option Context) :
    HookEnd (Component β) :=
  match h.result with
  | .ok () => ⟨{ c with body := h.body, stage := stage, context := ctx }, .ok (), h.notes⟩
  | .error e => ⟨{ c with body := h.body }, .error e, h.notes⟩

/-- Attaches the component to its flow. -/
def setContext (ctx : Context) (c : Component β) : HookEnd (Component β) :=
  match c.expect .created with
  | .error e => .fail c e
  | .ok () => c.after (Hooks.attach ctx c.body) .contextualized (some ctx)

/-- The arguments of a component, resolved and bound. -/
def bound (st : Scope.Store) (ctx : Context) (c : Component β) : Except Error Params := do
  let args ← c.arguments.args.mapM (ctx.resolve st)
  let named ← ctx.resolveNamed st c.arguments.named
  (Hooks.schema c.body).bind c.kind args named

/-- Resolves and binds the arguments and initialises the component. -/
def setUp (st : Scope.Store) (c : Component β) : HookEnd (Component β) :=
  match c.expect .contextualized with
  | .error e => .fail c e
  | .ok () =>
      match c.context with
      | none => .fail c (.invalidState c.kind Stage.contextualized.name "no context")
      | some ctx =>
          match c.bound st ctx with
          | .error e => .fail c e
          | .ok params =>
              c.after (Hooks.initialise st ctx params c.body) .initialised c.context

/-- Starts the component. -/
def start (c : Component β) : HookEnd (Component β) :=
  match c.expect .initialised with
  | .error e => .fail c e
  | .ok () => c.after (Hooks.start c.body) .running c.context

/-- Stops the component, at any stage. -/
def stop (c : Component β) : HookEnd (Component β) :=
  let stopped (body : β) : Component β := { c with body := body, stage := .stopped }
  match c.stage with
  | .stopped => .pass c
  | .running => (Hooks.stop c.body).map stopped
  | _ => .pass (stopped c.body)

end Moves

end Component
end PullFlow
