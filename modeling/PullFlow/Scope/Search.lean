import PullFlow.Scope.Store

/-!
Looking up a key scope by scope. Each scope has its own lock, so a search reads one scope in each
step, and other threads may write between two steps. On a store that does not change meanwhile a
search comes to what the lookup in one go finds.
-/

namespace PullFlow.Scope

/-- A search for the entry of a path, between two reads. -/
inductive Search where
  /-- The first name is still looked for, here and further up. -/
  | climb (here : Option ScopeId) (name : String) (rest : List String)
  /-- A later name is looked for, here only. -/
  | descend (here : ScopeId) (names : List String)
  | finished (entry : Option Entry)

namespace Search

/-- The search for a path from a scope. -/
def start (s : ScopeId) : List String → Search
  | [] => .finished none
  | name :: rest => .climb (some s) name rest

/-- Goes on from an entry with the names left. -/
def follow (entry : Entry) : List String → Search
  | [] => .finished (some entry)
  | name :: rest =>
      match entry with
      | .scope t => .descend t (name :: rest)
      | .value _ => .finished none

/-- Reads one scope. -/
def step (st : Store) : Search → Search
  | .climb none _ _ => .finished none
  | .climb (some s) name rest =>
      match st.entry? s name with
      | some entry => follow entry rest
      | none => .climb (st.parent? s) name rest
  | .descend _ [] => .finished none
  | .descend s (name :: rest) =>
      match st.entry? s name with
      | some entry => follow entry rest
      | none => .finished none
  | .finished entry => .finished entry

end Search

/-- A search for the owner of a path, between two reads. -/
inductive OwnerSearch where
  | seek (here : ScopeId) (names : List String)
  | climb (here : Option ScopeId) (name : String) (rest : List String)
  | finished (owner : Except Error (ScopeId × String))

namespace OwnerSearch

/-- Reads one scope. -/
def step (st : Store) : OwnerSearch → OwnerSearch
  | .seek _ [] => .finished (.error (.undefinedKey ""))
  | .seek s [name] => .finished (.ok (s, name))
  | .seek s (name :: rest) => .climb (some s) name rest
  | .climb none name rest => .finished (.error (.undefinedKey (keyOf (name :: rest))))
  | .climb (some s) name rest =>
      match st.entry? s name with
      | some (.scope t) => .seek t rest
      | some (.value _) => .finished (.error (.undefinedKey (keyOf (name :: rest))))
      | none => .climb (st.parent? s) name rest
  | .finished owner => .finished owner

end OwnerSearch
end PullFlow.Scope
