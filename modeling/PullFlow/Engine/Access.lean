import PullFlow.Engine.World

/-!
Reading and writing variables and closing scopes, step by step. A reader that finds nothing takes
the gate of the tree, searches again, and goes to sleep and leaves the gate in one step. A writer
that creates an entry passes the gate afterwards to wake the sleepers, and so does whoever closes a
scope. So an entry that is stored after the second search is announced after the reader sleeps.
-/

namespace PullFlow.Engine.World

/-- A step of a read of a variable. -/
def look (w : World) (t : ThreadId) (scope : ScopeId) (key : String) (wait : Bool) :
    LookPoint → Stepped
  | .search (.finished (some e)) => some (w, .exit (e.valueOf key))
  | .search (.finished none) =>
      if wait then some (w, .next (.look scope key wait .gate)) else some (w, .done)
  | .search s => some (w, .next (.look scope key wait (.search (s.step w.scopes))))
  | .gate =>
      (w.enterGate t scope).map fun w =>
        (w, .next (.look scope key wait (.check (.start scope (Scope.path key)))))
  | .check (.finished (some e)) => some (w.leaveGate scope, .exit (e.valueOf key))
  | .check (.finished none) => some (w, .next (.look scope key wait .decide))
  | .check s => some (w, .next (.look scope key wait (.check (s.step w.scopes))))
  | .decide =>
      if w.scopes.isClosed scope then some (w.leaveGate scope, .exit (.error (.interrupted key)))
      else some (w.leaveGate scope, .next (.look scope key wait .asleep))
  | .asleep => none

/-- A read of a variable from its start. -/
def lookFor (scope : ScopeId) (key : String) (wait : Bool) : Activity :=
  .look scope key wait (.search (.start scope (Scope.path key)))

/-- A step of a write. -/
def write (w : World) (scope : ScopeId) (key : String) (e : Entry) (first : Bool) :
    WritePoint → Stepped
  | .seek (.finished (.error e)) => some (w, .exit (.error e))
  | .seek (.finished (.ok (owner, name))) =>
      some (w, .next (.write scope key e first (.store owner name)))
  | .seek s => some (w, .next (.write scope key e first (.seek (s.step w.scopes))))
  | .store owner name =>
      let stored : World := { w with scopes := w.scopes.put owner name e }
      if first then
        match w.scopes.entry? owner name with
        | some _ => some (w, .exit (.error (.claimConflict key)))
        | none => some (stored, .next (.write scope key e first .wake))
      else some (stored, .done)
  | .wake => if w.gateFree scope then some (w.wake scope, .done) else none

/-- A write from its start. -/
def writeTo (scope : ScopeId) (key : String) (e : Entry) (first : Bool) : Activity :=
  .write scope key e first (.seek (.seek scope (Scope.path key)))

/-- A step of the closing of a scope. -/
def close (w : World) (scope : ScopeId) : ClosePoint → Stepped
  | .mark => some ({ w with scopes := w.scopes.close scope }, .next (.close scope .wake))
  | .wake => if w.gateFree scope then some (w.wake scope, .done) else none

end PullFlow.Engine.World
