import PullFlow.Assembly
import PullFlow.Rehearsal.Cast
import PullFlow.Rehearsal.ScopeScript
import PullFlow.Rehearsal.Play

/-!
What a rehearsal shows of a running set of flows: events and notes by flow, the states of the flows,
their connections, the scopes and the disk.
-/

namespace PullFlow.Rehearsal

open Engine

/-- Items in groups by a key, groups and items in the order of their first and their own coming. -/
def grouped {α β : Type} (key : α → String) (item : α → β) (all : List α) :
    List (String × List β) :=
  all.foldl
    (fun groups a =>
      if groups.any (·.1 == key a) then
        groups.map fun (k, items) => (k, if k == key a then items ++ [item a] else items)
      else groups ++ [(key a, [item a])])
    []

/-- The events of each flow. -/
def eventsByFlow (w : World) : List (String × List Event) := grouped Event.flow id w.events

/-- The notes of each flow. -/
def notesByFlow (w : World) : List (String × List String) := grouped Note.flow Note.line w.journal

/-- The states of the flows of the set. -/
def statesOf (w : World) : List FlowState := w.members.map (·.state)

/-- A connection between two flows; what it last carried is shown unless it is read on demand. -/
structure Connection where
  producer : String
  target : String
  onDemand : Bool
  payload : Option Outcome

def Connection.ofOutflow (w : World) (o : Outflow) : Connection :=
  ⟨o.producer, o.target, o.onDemand, if o.onDemand then none else some (.ok (w.lastPayload o))⟩

/-- The connections between the flows of the set. -/
def connections (w : World) : List Connection :=
  w.set.flatMap fun f =>
    match w.flow? f with
    | some cell => (cell.pipeline.outflows f).map (Connection.ofOutflow w)
    | none => []

/-- What the disk holds under a name. -/
inductive ShownFile where
  | text (s : String)
  | bytes (bs : List UInt8)
  | directory

/-- The entries of the directory itself. -/
def filesOf (h : Host) : List (String × ShownFile) :=
  (h.disk.entries.filter fun (way, _) => !way.toList.contains '/').map fun (name, e) =>
    (name, match e with
      | .directory => .directory
      | .void => .text ""
      | .file bytes =>
          match String.fromUTF8? bytes with
          | some s => .text s
          | none => .bytes bytes.toList)

/-- The scopes of a set under the names `root` and those of the flows. -/
def namedScopes (w : World) : List (String × ScopeId) :=
  w.members.foldl
    (fun names cell => match cell.scope with
      | some scope => Fields.put cell.name scope names
      | none => names)
    [("root", w.root)]

/-- Does a step in a scope of a running set. -/
def scopeStep (s : Play) (scope : String) (act : ScopeAct) : Play × ScopeAnswer :=
  let before : ScopeStage := ⟨s.world.scopes, namedScopes s.world, [], false⟩
  let (after, answer) := before.perform (before.scopeOf scope) act
  let w := { s.world with scopes := after.store }
  ({ s with world := if after.woken then w.wake w.root else w }, answer)

/-- The flow of the set that has a name. -/
def flowNamed? (w : World) (name : String) : Option FlowId :=
  (w.directory.lookup name).map (·.flow)

/-- The names made up for flows that have none, by position. -/
def madeUp (position : Nat) : String :=
  let digit (n : Nat) : Char := "0123456789abcdef".toList.getD n '0'
  "flow-5e7f" ++ String.ofList
    [digit (position / 4096 % 16), digit (position / 256 % 16), digit (position / 16 % 16),
      digit (position % 16)]

/-- How a document is made into a set: with a check of the document or without. -/
def assemble (checked : Bool) (d : Blueprint.Document) (vars : List (String × Value)) :
    Except Error World :=
  if checked then World.ofDocument registry madeUp d vars else World.assemble registry madeUp d vars

end PullFlow.Rehearsal
