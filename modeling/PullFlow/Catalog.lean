import PullFlow.Registry

/-!
The catalog: every component of the engine under its name, those of the registry itself and those
of the packages `var`, `time`, `lst`, `bool`, `fmt` and `file`. Components that take arguments get
them when they are set up; until then they have the plainest ones.
-/

namespace PullFlow.Catalog

/-- A shelf of elements that need no arguments to be made, and the name of the default one. -/
def shelf {β : Type} (elements : List (String × β)) (default : Option String := none) :
    Shelf (Factory β) :=
  let all := elements.foldl
    (fun (a : Shelf (Factory β)) (element : String × β) => a.register element.1 fun _ => .ok element.2)
    Shelf.empty
  { all with default := default }

/-- The factory of an operator of a calling kind, which names a flow. -/
def calling (mode : CallMode) (kind : String) : Factory OperatorBody := fun arguments =>
  (arguments.target kind).map fun target => .call mode target none

/-- The factory of the sink that feeds a flow. -/
def feeding : Factory SinkBody := fun arguments =>
  (arguments.target Blueprint.flowKind).map fun target => .flow target "" none .null false

def sources : Shelf (Factory SourceBody) :=
  shelf [("str", .text ""), ("int", .int 0), ("float", .float 0.0), ("bool", .bool false),
    ("counter", .counter 0 0), ("seq", .sequence []), ("stdin", .lines),
    ("inflow", .inflow false [])]

/-- Changes between booleans that are noticed after ten seconds. -/
def tenSeconds : Steady :=
  ⟨⟨10 * Duration.second⟩, ⟨10 * Duration.second⟩, false, 0, false⟩

def operators : Shelf (Factory OperatorBody) :=
  let plain : Shelf (Factory OperatorBody) :=
    shelf [("noop", .apply .noop), ("eq", .apply (.equals .null)), ("not", .apply .negate),
      ("str", .apply .text), ("int", .apply .int), ("float", .apply .float),
      ("hash", .apply .hash), ("get", .apply (.get [])), ("has", .apply (.has [])),
      ("all", .apply .all), ("any", .apply .any), ("split", .apply (.split none)),
      ("feed", .feed []), ("cached", .cached ⟨0⟩ none), ("forever", .forever none),
      ("once", .once false), ("change", .change none), ("smooth", .smooth tenSeconds),
      ("try", .attempt .null)]
  ((plain.register Blueprint.flowKind (calling .whole Blueprint.flowKind)).register
    "map" (calling .each "map")).register "filter" (calling .keep "filter")

def sinks : Shelf (Factory SinkBody) :=
  (shelf [("none", .none), ("print", .print)]).register Blueprint.flowKind feeding

def monitors : Shelf (Factory MonitorBody) :=
  shelf [("once", .once), ("count", .count 0), ("interval", .interval ⟨0⟩ []),
    ("change", .change ⟨0⟩ none), ("onvalue", .onValue .null false ⟨0⟩ false),
    ("demand", .onDemand ⟨0⟩), ("call", .onCall)]

/-- Reading and writing variables. The operator is a tee around the sink of the same arguments. -/
def varPackage : Package :=
  let sink : SinkBody := .var "" false none
  { Package.empty with
    sources := shelf [("get", .var "" false none)] (some "get")
    sinks := shelf [("set", sink)] (some "set")
    operators := Shelf.empty.register "set" fun arguments =>
      .ok (.tee (.make "var.set" sink arguments)) }

def timePackage : Package :=
  { Package.empty with
    sources := shelf [("now", .now ""), ("epoch", .epoch), ("during", .during ⟨0, 0⟩ ⟨0, 0⟩)]
      (some "now") }

/-- Functions on lists. -/
def lstPackage : Package :=
  let functions : List Operator.ListFunction :=
    [.head, .tail, .last, .init, .reverse, .sum, .avg, .prod, .max, .min, .ints, .floats]
  { Package.empty with
    operators := shelf (functions.map (fun f => (f.name, OperatorBody.apply (.list f))) ++
      [("len", .apply .length), ("join", .apply (.join ""))]) }

def boolPackage : Package :=
  { Package.empty with
    sources := shelf [("true", .constant (.bool true)), ("false", .constant (.bool false))]
    operators := shelf [("not", .apply .negate), ("all", .apply .all), ("any", .apply .any),
      ("smooth", .smooth tenSeconds)] }

/-- Reading and writing JSON text. -/
def fmtPackage : Package :=
  { Package.empty with
    operators := shelf [("tojson", .apply (.toJson false)), ("fromjson", .apply .fromJson)] }

def filePackage : Package :=
  { Package.empty with
    sources := shelf [("read", .file "" false)] (some "read")
    sinks := shelf [("write", .file "" false)] (some "write") }

/-- The registry of all components. -/
def registry : Registry :=
  let builtin : Package := ⟨sources, operators, sinks, monitors⟩
  (((((Registry.registerPackage ⟨builtin, []⟩ "var" varPackage).registerPackage
    "time" timePackage).registerPackage "lst" lstPackage).registerPackage
    "bool" boolPackage).registerPackage "fmt" fmtPackage).registerPackage "file" filePackage

end PullFlow.Catalog
