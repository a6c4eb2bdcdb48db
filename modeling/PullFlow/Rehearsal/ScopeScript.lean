import PullFlow.Scope.Store

/-!
Scripts of steps on scopes that are known by names, and what each step shows. A reader that waits
while further steps run looks again whenever a step wakes the readers of its tree, and keeps what
it found first.
-/

namespace PullFlow.Rehearsal

/-- An entry that a script writes: a value, or the scope of a name. -/
inductive ScriptEntry where
  | value (v : Value)
  | scope (name : String)

/-- What a step does in a scope. -/
inductive ScopeAct where
  | root (id : String)
  | child (id : String)
  | set (key : String) (e : ScriptEntry) (first : Bool)
  | claim (key : String) (e : ScriptEntry)
  /-- Reads an entry; a reader that would have to wait in a closed scope is interrupted. -/
  | get (key : String) (wait : Bool)
  | getValue (key : String) (wait : Bool)
  | has (key : String)
  | hasLocal (key : String)
  | keys
  | parent
  | close
  | isClosed
  | dump
  /-- A reader waits while steps run, each in the scope of a name. -/
  | blocked (key : String) (meanwhile : List (String × ScopeAct))

/-- An entry as a script shows it: a value, or the first name of the scope if it has one. -/
inductive ShownEntry where
  | value (v : Value)
  | scope (name : Option String)

/-- The contents of a scope with those of the scopes below it, which are shown once on each way
down. -/
inductive Dump where
  | value (v : Value)
  | scope (closed : Bool) (entries : List (String × Dump))
  | above

/-- What a step shows. -/
inductive ScopeAnswer where
  | nothing
  | wrote (d : Done)
  | claimed (r : Except Error Bool)
  | found (r : Except Error ShownEntry)
  | read (out : Outcome)
  | flag (b : Bool)
  | names (keys : List String)
  /-- The name of the parent, if there is a parent and it has one. -/
  | parent (p : Option (Option String))
  | dump (d : Dump)
  | blocked (meanwhile : List ScopeAnswer) (got : Except Error ShownEntry)

/-- A reader that waits, and what it found. -/
structure Reader where
  scope : ScopeId
  key : String
  got : Option (Except Error Entry)

/-- Scopes, their names in order, the readers that wait, and whether any step woke readers. -/
structure ScopeStage where
  store : Scope.Store
  names : List (String × ScopeId)
  readers : List Reader
  woken : Bool

namespace ScopeStage

/-- The scope of a name; the first scope of all if there is none. -/
def scopeOf (s : ScopeStage) (name : String) : ScopeId := (Fields.get? name s.names).getD 0

/-- The first name of a scope. -/
def nameOf? (s : ScopeStage) (scope : ScopeId) : Option String :=
  (s.names.find? (·.2 == scope)).map (·.1)

def shown (s : ScopeStage) : Entry → ShownEntry
  | .value v => .value v
  | .scope scope => .scope (s.nameOf? scope)

def entryOf (s : ScopeStage) : ScriptEntry → Entry
  | .value v => .value v
  | .scope name => .scope (s.scopeOf name)

/-- What a reader finds when it looks: nothing yet, an entry, or that it need not wait. -/
def lookFor (st : Scope.Store) (scope : ScopeId) (key : String) : Option (Except Error Entry) :=
  match st.get scope key with
  | .ok e => some (.ok e)
  | .error _ => if st.isClosed scope then some (.error (.interrupted key)) else none

/-- Wakes the readers of the tree of a scope. -/
def wake (s : ScopeStage) (scope : ScopeId) : ScopeStage :=
  let look (r : Reader) : Reader :=
    if r.got.isNone && s.store.rootOf r.scope == s.store.rootOf scope then
      { r with got := lookFor s.store r.scope r.key }
    else r
  { s with readers := s.readers.map look, woken := true }

/-- Reads an entry, with or without waiting. A reader that nobody will ever answer finds nothing. -/
def read (s : ScopeStage) (scope : ScopeId) (key : String) (wait : Bool) : Except Error Entry :=
  match s.store.get scope key with
  | .ok e => .ok e
  | .error e => if wait && s.store.isClosed scope then .error (.interrupted key) else .error e

/-- The contents of a scope that is reached by a way down through `above`; `fuel` bounds the depth,
which is at most the number of scopes. -/
def dumpWithin (st : Scope.Store) : Nat → List ScopeId → ScopeId → Dump
  | 0, _, _ => .above
  | fuel + 1, above, scope =>
      if above.contains scope then .above
      else .scope (st.isClosed scope) ((st.entries scope).map fun (key, e) => (key, match e with
        | .value v => .value v
        | .scope inner => dumpWithin st fuel (scope :: above) inner))

/-- The contents of a scope. -/
def dump (st : Scope.Store) (scope : ScopeId) : Dump := dumpWithin st (st.nodes.length + 1) [] scope

mutual

/-- Does a step in a scope. -/
def perform (s : ScopeStage) (scope : ScopeId) : ScopeAct → ScopeStage × ScopeAnswer
  | .root id =>
      let (store, new) := s.store.addRoot
      ({ s with store := store, names := Fields.put id new s.names }, .nothing)
  | .child id =>
      let (store, new) := s.store.addChild scope
      ({ s with store := store, names := Fields.put id new s.names }, .nothing)
  | .set key e first =>
      match s.store.set scope key (s.entryOf e) first with
      | .ok store =>
          let s := { s with store := store }
          (if first then s.wake scope else s, .wrote (.ok ()))
      | .error e => (s, .wrote (.error e))
  | .claim key e =>
      match s.store.claim scope key (s.entryOf e) with
      | .ok (store, won) =>
          let s := { s with store := store }
          (if won then s.wake scope else s, .claimed (.ok won))
      | .error e => (s, .claimed (.error e))
  | .get key wait => (s, .found ((s.read scope key wait).map s.shown))
  | .getValue key wait =>
      (s, .read (match s.read scope key wait with
        | .ok e => e.valueOf key
        | .error e => .error e))
  | .has key => (s, .flag (s.store.has scope key))
  | .hasLocal key => (s, .flag (s.store.hasLocal scope key))
  | .keys => (s, .names (Fields.keys (s.store.entries scope)))
  | .parent => (s, .parent ((s.store.parent? scope).map s.nameOf?))
  | .close => (({ s with store := s.store.close scope }).wake scope, .nothing)
  | .isClosed => (s, .flag (s.store.isClosed scope))
  | .dump => (s, .dump (dump s.store scope))
  | .blocked key meanwhile =>
      let reader : Reader := ⟨scope, key, lookFor s.store scope key⟩
      let (s, answers) := performAll { s with readers := reader :: s.readers } meanwhile
      let got := match s.readers with
        | r :: _ => (r.got.getD (.error (.undefinedKey key))).map s.shown
        | [] => .error (.undefinedKey key)
      ({ s with readers := s.readers.drop 1 }, .blocked answers got)

/-- Does steps in order. -/
def performAll (s : ScopeStage) : List (String × ScopeAct) → ScopeStage × List ScopeAnswer
  | [] => (s, [])
  | (name, act) :: rest =>
      let (s, answer) := s.perform (s.scopeOf name) act
      let (s, answers) := performAll s rest
      (s, answer :: answers)

end

/-- One tree, whose first scope is named `root`. -/
def fresh : ScopeStage :=
  let (store, root) := Scope.Store.empty.addRoot
  ⟨store, [("root", root)], [], false⟩

end ScopeStage
end PullFlow.Rehearsal
