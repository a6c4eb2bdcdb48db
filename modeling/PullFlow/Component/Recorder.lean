import PullFlow.Component.Lifecycle

/-!
The recorder, which stands in for a source, an operator, a sink or a monitor when a flow is
rehearsed: it notes every call of its hooks under a tag, and one hook can be made to fail.
-/

namespace PullFlow

/-- The hooks of components. -/
inductive HookName where
  | attach
  | initialise
  | start
  | stop
  | value
  | perform
  | wire
  | run
  deriving DecidableEq, Repr

def HookName.text : HookName → String
  | attach => "attach"
  | initialise => "initialise"
  | start => "start"
  | stop => "stop"
  | value => "value"
  | perform => "perform"
  | wire => "wire"
  | run => "run"

/-- A recorder: its tag, the word that says which hook fails, and the flow it is attached to. -/
structure Recorder where
  tag : String
  failing : String
  home : String

namespace Recorder

/-- The arguments of a recorder. -/
def schema : Schema :=
  (Schema.empty.optional "tag" .text (.text "")).optional "fail" .text (.text "")

/-- Whether a hook fails. -/
def fails (r : Recorder) (h : HookName) : Bool := r.failing == h.text

def error (r : Recorder) (h : HookName) : Error := .evaluation r.tag (h.text ++ " failed")

/-- How a hook ends. -/
def result (r : Recorder) (h : HookName) : Done := if r.fails h then .error (r.error h) else .ok ()

/-- The note of a hook. -/
def note (r : Recorder) (h : HookName) : Note := ⟨r.home, r.tag ++ "." ++ h.text⟩

/-- A hook that is noted and succeeds or fails. -/
def hook (r : Recorder) (h : HookName) : HookEnd Recorder := ⟨r, r.result h, [r.note h]⟩

def attach (ctx : Context) (r : Recorder) : HookEnd Recorder :=
  { r with home := ctx.flow }.hook .attach

end Recorder
end PullFlow
