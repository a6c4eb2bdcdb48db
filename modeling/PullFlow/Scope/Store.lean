import PullFlow.Error
import PullFlow.Text.Delimited

/-!
The tree of scopes in which flows keep their variables. A scope holds entries by name, each a value
or another scope, and names its parent. A key is a path of names with points between: its first
name is looked for from a scope upwards, so that a local entry hides one further up; each later
name is looked for only in the scope found so far.

A scope is known by its position in the store and its parent stands before it, so lookups upwards
end. Entries may still point back to ancestors.
-/

namespace PullFlow

/-- The position of a scope in its store. -/
abbrev ScopeId := Nat

/-- What a name in a scope stands for. -/
inductive Entry where
  | value (v : Value)
  | scope (s : ScopeId)

namespace Scope

/-- One scope. `gate` is the thread that holds the lock under which readers of the tree go to
sleep and are woken; only the one of the tree's root is used. -/
structure Node where
  parent : Option ScopeId
  root : ScopeId
  entries : List (String × Entry)
  closed : Bool
  gate : Option Nat

/-- All scopes, of any number of trees. -/
structure Store where
  nodes : List Node

/-- The names of a key. -/
def path (key : String) : List String := Text.split "." key

/-- The key with given names. -/
def keyOf (names : List String) : String := Text.join "." names

namespace Store

def empty : Store := ⟨[]⟩

/-- A new tree. -/
def addRoot (st : Store) : Store × ScopeId :=
  let s := st.nodes.length
  (⟨st.nodes ++ [⟨none, s, [], false, none⟩]⟩, s)

/-- The root of the tree a scope belongs to. -/
def rootOf (st : Store) (s : ScopeId) : ScopeId :=
  match st.nodes[s]? with
  | some node => node.root
  | none => s

/-- A new scope below another. -/
def addChild (st : Store) (parent : ScopeId) : Store × ScopeId :=
  let s := st.nodes.length
  (⟨st.nodes ++ [⟨some parent, st.rootOf parent, [], false, none⟩]⟩, s)

def parent? (st : Store) (s : ScopeId) : Option ScopeId := st.nodes[s]?.bind (·.parent)

def entries (st : Store) (s : ScopeId) : List (String × Entry) :=
  match st.nodes[s]? with
  | some node => node.entries
  | none => []

/-- The entry a scope itself has for a name. -/
def entry? (st : Store) (s : ScopeId) (name : String) : Option Entry :=
  Fields.get? name (st.entries s)

def isClosed (st : Store) (s : ScopeId) : Bool :=
  match st.nodes[s]? with
  | some node => node.closed
  | none => false

def update (st : Store) (s : ScopeId) (f : Node → Node) : Store := ⟨st.nodes.modify s f⟩

/-- Writes an entry of a scope itself. -/
def put (st : Store) (s : ScopeId) (name : String) (e : Entry) : Store :=
  st.update s fun node => { node with entries := Fields.put name e node.entries }

/-- Marks a scope as closed: no reader waits in it from now on. -/
def close (st : Store) (s : ScopeId) : Store := st.update s fun node => { node with closed := true }

/-- A scope and those above it, the nearest first; at most as many as the fuel. -/
def lineageWithin (st : Store) : Nat → ScopeId → List ScopeId
  | 0, _ => []
  | fuel + 1, s =>
      s :: match st.parent? s with
        | some p => lineageWithin st fuel p
        | none => []

/-- A scope and those above it, the nearest first. -/
def lineage (st : Store) (s : ScopeId) : List ScopeId := st.lineageWithin (s + 1) s

/-- The entry of a name in a scope or, failing that, in the nearest scope above that has one. -/
def findHead? (st : Store) (s : ScopeId) (name : String) : Option Entry :=
  (st.lineage s).findSome? (st.entry? · name)

/-- The entry of a path that starts in the scope itself. -/
def findLocal? (st : Store) (s : ScopeId) : List String → Option Entry
  | [] => none
  | [name] => st.entry? s name
  | name :: rest =>
      match st.entry? s name with
      | some (.scope t) => findLocal? st t rest
      | _ => none

/-- The entry of a path that starts in the scope or above it. -/
def find? (st : Store) (s : ScopeId) : List String → Option Entry
  | [] => none
  | [name] => st.findHead? s name
  | name :: rest =>
      match st.findHead? s name with
      | some (.scope t) => st.findLocal? t rest
      | _ => none

/-- The scope that holds the last name of a path, and that name. Every name but the last is looked
for from the scope reached upwards. -/
def owner (st : Store) (s : ScopeId) : List String → Except Error (ScopeId × String)
  | [] => .error (.undefinedKey "")
  | [name] => .ok (s, name)
  | name :: rest =>
      match st.findHead? s name with
      | some (.scope t) => owner st t rest
      | _ => .error (.undefinedKey (keyOf (name :: rest)))

def has (st : Store) (s : ScopeId) (key : String) : Bool := (st.find? s (path key)).isSome

def hasLocal (st : Store) (s : ScopeId) (key : String) : Bool :=
  (st.findLocal? s (path key)).isSome

/-- The entry of a key, without waiting for one. -/
def get (st : Store) (s : ScopeId) (key : String) : Except Error Entry :=
  match st.find? s (path key) with
  | some e => .ok e
  | none => .error (.undefinedKey key)

end Store

end Scope

/-- The value of an entry found under a key. -/
def Entry.valueOf (key : String) : Entry → Outcome
  | .value v => .ok v
  | .scope _ => .error (.configuration (.scopeAsValue key))

namespace Scope.Store

/-- The value of a key, without waiting for one. -/
def getValue (st : Store) (s : ScopeId) (key : String) : Outcome :=
  match st.get s key with
  | .ok e => e.valueOf key
  | .error e => .error e

/-- Writes a key whose owner does not have it yet. The answer says whether this call wrote it. -/
def claim (st : Store) (s : ScopeId) (key : String) (e : Entry) : Except Error (Store × Bool) := do
  let (owner, name) ← st.owner s (path key)
  match st.entry? owner name with
  | some _ => return (st, false)
  | none => return (st.put owner name e, true)

/-- Writes a key. With `first` the write must be the first one. -/
def set (st : Store) (s : ScopeId) (key : String) (e : Entry) (first : Bool) :
    Except Error Store := do
  if first then
    let (st, won) ← st.claim s key e
    if won then return st else throw (.claimConflict key)
  else
    let (owner, name) ← st.owner s (path key)
    return st.put owner name e

end Scope.Store
end PullFlow
