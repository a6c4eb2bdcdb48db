import PullFlow.Scope.Store
import PullFlow.Blueprint

/-!
What a component may reach once it is attached to a flow: the flow's name and scope, and the names
of all flows of the set.
-/

namespace PullFlow

/-- The position of a flow in its set. -/
abbrev FlowId := Nat

/-- What is known of a flow by its name: where it is and whether it can be called. -/
structure Peer where
  flow : FlowId
  callable : Bool

/-- The flows of a set by name. -/
abbrev Directory := List (String × Peer)

/-- The surroundings of a component. -/
structure Context where
  flow : String
  scope : ScopeId
  directory : Directory

namespace Context

/-- A flow of the set by name. -/
def peer (ctx : Context) (name : String) : Except Error Peer :=
  match Fields.get? name ctx.directory with
  | some peer => .ok peer
  | none => .error (.configuration (.unknownPeer ctx.flow name))

/-- The value of a parameter. A variable must be there already. -/
def resolve (ctx : Context) (st : Scope.Store) : Param → Outcome
  | .var key => st.getValue ctx.scope key
  | .flow name => (ctx.peer name).map fun _ => .text name
  | .literal v => .ok v

/-- The values of named parameters. -/
def resolveNamed (ctx : Context) (st : Scope.Store) :
    List (String × Param) → Except Error (List (String × Value))
  | [] => .ok []
  | (name, p) :: rest => do
      let v ← ctx.resolve st p
      let rest ← resolveNamed ctx st rest
      return (name, v) :: rest

end Context

/-- The arguments of a component, unresolved until it is set up. -/
structure Arguments where
  args : List Param
  named : List (String × Param)

namespace Arguments

def none : Arguments := ⟨[], []⟩

/-- The arguments of a part of a blueprint. -/
def ofPart (p : Blueprint.Part) : Arguments := ⟨p.args, p.params⟩

/-- The first argument read as the name of a flow. -/
def flowName? (d : Arguments) : Option String := d.args.head?.bind Param.flowName?

/-- The first argument as a target; a component of the given kind must have one. -/
def target (d : Arguments) (kind : String) : Except Error String :=
  match d.flowName? with
  | some name => .ok name
  | Option.none => .error (.configuration (.needsFlowName kind))

end Arguments
end PullFlow
