import PullFlow.Chain
import PullFlow.Monitor

/-!
Registries, which know the components by name. A registry has elements of its own and packages of
elements. A name with a point is a package and an element of it, cut at the first point. A name
without one is an element of the registry itself or, failing that, a package, and stands for the
element that the package names as its default.
-/

namespace PullFlow

/-- Makes a component from its arguments, which may still be unresolved. -/
abbrev Factory (β : Type) := Arguments → Except Error β

/-- The elements of one role, by name, and the name of the default one. -/
structure Shelf (F : Type) where
  elements : List (String × F)
  default : Option String

namespace Shelf

variable {F : Type}

def empty : Shelf F := ⟨[], none⟩

/-- Adds an element; one of the same name is replaced. -/
def register (a : Shelf F) (name : String) (f : F) : Shelf F :=
  { a with elements := Fields.put name f a.elements }

/-- Adds an element and makes it the default. -/
def registerDefault (a : Shelf F) (name : String) (f : F) : Shelf F :=
  { a.register name f with default := some name }

def get? (a : Shelf F) (name : String) : Option F := Fields.get? name a.elements

/-- The default element. -/
def default? (a : Shelf F) : Option F := a.default.bind a.get?

def names (a : Shelf F) : List String := Fields.keys a.elements

end Shelf

/-- Elements of all four roles. -/
structure Package where
  sources : Shelf (Factory SourceBody)
  operators : Shelf (Factory OperatorBody)
  sinks : Shelf (Factory SinkBody)
  monitors : Shelf (Factory MonitorBody)

namespace Package

def empty : Package := ⟨.empty, .empty, .empty, .empty⟩

def names (p : Package) : Role → List String
  | .source => p.sources.names
  | .operator => p.operators.names
  | .sink => p.sinks.names
  | .monitor => p.monitors.names

def hasDefault (p : Package) : Role → Bool
  | .source => p.sources.default?.isSome
  | .operator => p.operators.default?.isSome
  | .sink => p.sinks.default?.isSome
  | .monitor => p.monitors.default?.isSome

end Package

/-- Elements and named packages. -/
structure Registry where
  builtin : Package
  packages : List (String × Package)

namespace Registry

def empty : Registry := ⟨.empty, []⟩

/-- Adds a package; one of the same name is replaced. -/
def registerPackage (r : Registry) (name : String) (p : Package) : Registry :=
  { r with packages := Fields.put name p r.packages }

def packageNames (r : Registry) : List String := Fields.keys r.packages

/-- A name cut at its first point. -/
def cut (name : String) : Option (String × String) :=
  match Scope.path name with
  | package :: first :: rest => some (package, Scope.keyOf (first :: rest))
  | _ => none

/-- The element that a name stands for in one role. -/
def find? {F : Type} (r : Registry) (shelf : Package → Shelf F) (name : String) : Option F :=
  match cut name with
  | some (package, element) => (Fields.get? package r.packages).bind fun p => (shelf p).get? element
  | none =>
      match (shelf r.builtin).get? name with
      | some f => some f
      | none => (Fields.get? name r.packages).bind fun p => (shelf p).default?

/-- Whether a name stands for an element of a role. -/
def has (r : Registry) (role : Role) (name : String) : Bool :=
  match role with
  | .source => (r.find? Package.sources name).isSome
  | .operator => (r.find? Package.operators name).isSome
  | .sink => (r.find? Package.sinks name).isSome
  | .monitor => (r.find? Package.monitors name).isSome

/-- The names that one package adds to those listed before it. -/
def listPackage (role : Role) (listed : List String) (package : String × Package) : List String :=
  let (name, p) := package
  let bare := if p.hasDefault role && !listed.contains name then [name] else []
  listed ++ bare ++ (p.names role).map (name ++ "." ++ ·)

/-- All names of a role, sorted. -/
def names (r : Registry) (role : Role) : List String :=
  (r.packages.foldl (listPackage role) (r.builtin.names role)).mergeSort fun a b => decide (a ≤ b)

/-- Makes the component of a part of a blueprint. -/
def build {β : Type} (r : Registry) (role : Role) (shelf : Package → Shelf (Factory β))
    (part : Blueprint.Part) : Except Error (Component β) :=
  match r.find? shelf part.kind with
  | none => .error (.configuration (.unknownElement role part.kind))
  | some f =>
      let arguments := Arguments.ofPart part
      (f arguments).map fun body => .make part.kind body arguments part.name

def buildSource (r : Registry) : Blueprint.Part → Except Error Source :=
  r.build .source Package.sources

def buildOperator (r : Registry) : Blueprint.Part → Except Error Operator :=
  r.build .operator Package.operators

def buildSink (r : Registry) : Blueprint.Part → Except Error Sink := r.build .sink Package.sinks

def buildMonitor (r : Registry) : Blueprint.Part → Except Error Monitor :=
  r.build .monitor Package.monitors

/-- An operator around the sink of a tee. -/
def buildTee (r : Registry) (sink : Blueprint.Part) : Except Error Operator :=
  (r.buildSink sink).map fun sink => .make "to" (.tee sink) .none

/-- Makes the operator of a link. -/
def buildLink (r : Registry) : Blueprint.Link → Except Error Operator
  | .tee sink => r.buildTee sink
  | .operator part => r.buildOperator part

end Registry
end PullFlow
