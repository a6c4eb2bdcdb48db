import PullFlow.Assembly
import PullFlow.Blueprint.Text

/-!
The command line: which command a list of arguments asks for, what the commands that only look at a
document print, and how failures are told. Arguments are read from left to right, and the first one
that asks for help, or makes no sense, decides.
-/

namespace PullFlow.CommandLine

open Engine

/-- What is asked for. -/
inductive Command where
  | run (path : String) (vars : List (String × Value)) (events : Bool)
  | validate (path : String)
  | info (path : String)
  | list
  | help (text : String)
  | version
  /-- The arguments make no sense; the usage is shown instead. -/
  | misuse (usage : String)

/-- What a command prints and the code it ends with. -/
structure Reply where
  code : Nat
  out : String
  err : String

/-- Lines, each one ended. -/
def lines (ls : List String) : String := String.join (ls.map (· ++ "\n"))

def usage : String := "Usage: actuator [OPTIONS] <COMMAND>"

def helpText : String := lines [
  "Dataflow engine for small automation flows",
  "",
  usage,
  "",
  "Commands:",
  "  run       Run a flow set from a blueprint file",
  "  validate  Validate a blueprint file",
  "  info      Show the assembled flows of a blueprint, defaults filled in",
  "  list      List every registered component by role",
  "  help      Print this message or the help of the given subcommand(s)",
  "",
  "Options:",
  "  -v, --verbose  Enable verbose logging",
  "  -h, --help     Print help",
  "  -V, --version  Print version"]

/-- The commands. -/
inductive Verb where
  | run
  | validate
  | info
  | list
  deriving DecidableEq, Repr

namespace Verb

def ofName? : String → Option Verb
  | "run" => some run
  | "validate" => some validate
  | "info" => some info
  | "list" => some list
  | _ => none

def usage : Verb → String
  | run => "Usage: actuator run [OPTIONS] <BLUEPRINT>"
  | validate => "Usage: actuator validate [OPTIONS] <BLUEPRINT>"
  | info => "Usage: actuator info [OPTIONS] <BLUEPRINT>"
  | list => "Usage: actuator list [OPTIONS]"

def about : Verb → String
  | run => "Run a flow set from a blueprint file"
  | validate => "Validate a blueprint file"
  | info => "Show the assembled flows of a blueprint, defaults filled in"
  | list => "List every registered component by role"

def takesPath : Verb → Bool
  | list => false
  | _ => true

def options : Verb → List String
  | run => [
      "      --var <KEY=VALUE>  Global variable, as key=value (value parsed as JSON when possible)",
      "      --events           Print flow events to stderr as JSON lines",
      "  -v, --verbose          Enable verbose logging",
      "  -h, --help             Print help"]
  | _ => [
      "  -v, --verbose  Enable verbose logging",
      "  -h, --help     Print help"]

def help (v : Verb) : String :=
  let arguments :=
    if v.takesPath then ["Arguments:", "  <BLUEPRINT>  Path to the blueprint .json file", ""] else []
  lines ([v.about, "", v.usage, ""] ++ arguments ++ ["Options:"] ++ v.options)

end Verb

/-- A variable given as key and value. The value is JSON if it can be read so, else text. -/
def assignment? (s : String) : Option (String × Value) :=
  match Text.split "=" s with
  | key :: first :: rest =>
      let raw := Text.join "=" (first :: rest)
      if key = "" then none
      else
        some (key, match Json.parse raw with
          | .ok v => v
          | .error _ => .text raw)
  | _ => none

/-- The arguments of a command read so far. -/
structure Taken where
  path : Option String := none
  vars : List (String × Value) := []
  events : Bool := false
  verbose : Bool := false
  /-- Only names follow. -/
  plain : Bool := false

/-- The command of complete arguments. -/
def Taken.command (a : Taken) (v : Verb) : Command :=
  match v, a.path with
  | .run, some path => .run path a.vars a.events
  | .validate, some path => .validate path
  | .info, some path => .info path
  | .list, _ => .list
  | v, none => .misuse v.usage

/-- Takes an argument that is no option. A path is never empty. -/
def Taken.name (a : Taken) (v : Verb) (s : String) : Option Taken :=
  if v.takesPath && a.path.isNone && s != "" then some { a with path := some s } else none

/-- Takes a variable. -/
def Taken.assign (a : Taken) (s : String) : Option Taken :=
  (assignment? s).map fun var => { a with vars := a.vars ++ [var] }

/-- Takes letters behind one dash: none when they make no sense, and whether they ask for help. -/
def Taken.letters (a : Taken) : List Char → Option (Taken × Bool)
  | [] => some (a, false)
  | 'h' :: _ => some (a, true)
  | 'v' :: rest => if a.verbose then none else letters { a with verbose := true } rest
  | _ => none

/-- The text behind a mark at the start of another. -/
def behind? (mark s : String) : Option String :=
  if mark.toList.isPrefixOf s.toList then some (String.ofList (s.toList.drop mark.length)) else none

/-- Reads the arguments of a command. -/
def readArguments (v : Verb) (a : Taken) : List String → Command
  | [] => a.command v
  | s :: rest =>
      let go (a : Option Taken) : Command :=
        match a with
        | some a => readArguments v a rest
        | none => .misuse v.usage
      if a.plain || s = "-" || (behind? "-" s).isNone then go (a.name v s)
      else if s = "--" then go (some { a with plain := true })
      else if s = "--help" then .help v.help
      else if s = "--verbose" then
        go (if a.verbose then none else some { a with verbose := true })
      else if s = "--events" && v = .run then
        go (if a.events then none else some { a with events := true })
      else if s = "--var" && v = .run then
        match rest with
        | value :: rest =>
            if (behind? "-" value).isSome && value != "-" then .misuse v.usage
            else
              match a.assign value with
              | some a => readArguments v a rest
              | none => .misuse v.usage
        | [] => .misuse v.usage
      else
        match behind? "--var=" s with
        | some value => if v = .run then go (a.assign value) else .misuse v.usage
        | none =>
            match a.letters (s.toList.drop 1) with
            | some (_, true) => .help v.help
            | some (a, false) => go (some a)
            | none => .misuse v.usage

/-- The help of the command `help`, which has no options. -/
def helpOnHelp : String := lines [
  "Print this message or the help of the given subcommand(s)",
  "",
  "Usage: actuator help [COMMAND]...",
  "",
  "Arguments:",
  "  [COMMAND]...  Print help for the subcommand(s)"]

/-- What help is asked for by name. -/
def helpOn : List String → Command
  | [] => .help helpText
  | [name] =>
      match Verb.ofName? name with
      | some v => .help v.help
      | none => if name = "help" then .help helpOnHelp else .misuse usage
  | _ => .misuse usage

/-- Reads the letters behind one dash before the command: whether to be verbose from now on, or the
command that they are. -/
def readLetters (verbose : Bool) : List Char → Except Command Bool
  | [] => .ok verbose
  | 'h' :: _ => .error (.help helpText)
  | 'V' :: _ => .error .version
  | 'v' :: rest => if verbose then .error (.misuse usage) else readLetters true rest
  | _ => .error (.misuse usage)

/-- Reads the arguments before the command and the command. An option may be given once on each side
of the command. -/
def readCommand (verbose : Bool) : List String → Command
  | [] => .misuse usage
  | s :: rest =>
      match Verb.ofName? s with
      | some v => readArguments v {} rest
      | none =>
          if s = "help" then helpOn rest
          else if s = "--help" then .help helpText
          else if s = "--version" then .version
          else if s = "--verbose" then
            if verbose then .misuse usage else readCommand true rest
          else
            match s.toList with
            | '-' :: c :: letters =>
                match readLetters verbose (c :: letters) with
                | .ok verbose => readCommand verbose rest
                | .error command => command
            | _ => .misuse usage

/-- The command that arguments ask for. -/
def ofArguments (args : List String) : Command := readCommand false args

/-- A text whose further lines are moved to the right. -/
def indented (space s : String) : String := Text.join ("\n" ++ space) (Text.split "\n" s)

/-- A failure and its causes, the nearest first. -/
def failureText (top : String) (causes : List String) : String :=
  let below := match causes with
    | [] => ""
    | [cause] => "\n\nCaused by:\n    " ++ indented "    " cause
    | causes =>
        "\n\nCaused by:" ++ String.join (causes.zipIdx.map fun (cause, i) =>
          "\n    " ++ toString i ++ ": " ++ indented "       " cause)
  "Error: " ++ top ++ below ++ "\n"

/-- What caused an error. -/
def causesOf : Error → List String
  | .host m => [m]
  | .json m => [m]
  | _ => []

/-- The reply of a command that failed after it printed something. -/
def failed (out : String) (e : Error) : Reply := ⟨1, out, failureText e.message (causesOf e)⟩

/-- The reply of a command whose document could not be loaded. -/
def notLoaded (path : String) (e : Error) : Reply :=
  ⟨1, "", failureText ("loading " ++ path) (e.message :: causesOf e)⟩

def severityWord : Lint.Severity → String
  | .error => "ERROR"
  | .warning => "WARN"
  | .info => "INFO"

def findingLines (f : Lint.Finding) : List String :=
  ("[" ++ severityWord f.severity ++ "] " ++ f.rule ++ " (" ++ f.flow ++ "): " ++ f.message) ::
    f.fix.toList.map ("        fix: " ++ ·)

/-- What is wrong with a document. -/
def verdict (d : Blueprint.Document) : Reply :=
  match Lint.findings Catalog.registry d with
  | [] => ⟨0, "Blueprint is valid\n", ""⟩
  | found =>
      ⟨if found.any (·.severity = .error) then 1 else 0, lines (found.flatMap findingLines), ""⟩

def flowLine (cell : FlowCell) : String :=
  "  " ++ cell.name ++ ": " ++ " | ".intercalate cell.pipeline.chain.kinds ++ " -> " ++
    cell.pipeline.sink.kind ++ " [monitor=" ++ cell.monitorKind ++
    (if cell.threaded then "" else ", inline") ++ "]"

/-- The flows that a document makes, what it leaves open filled in. -/
def summary (fresh : Nat → String) (d : Blueprint.Document) : Reply :=
  match World.ofDocument Catalog.registry fresh d [] with
  | .error e => failed "" e
  | .ok w =>
      let globals :=
        if d.globals.isEmpty then [] else ["Globals: " ++ ", ".intercalate (Fields.keys d.globals)]
      ⟨0, lines (["Flows: " ++ toString w.members.length] ++ globals ++ ["", "Flows:"] ++
        w.members.map flowLine), ""⟩

/-- All components by role. -/
def components : Reply :=
  let ofRole (role : Role) : List String :=
    (role.name ++ "s:") :: (Catalog.registry.names role).map ("  " ++ ·)
  ⟨0, lines ([Role.source, Role.operator, Role.sink, Role.monitor].flatMap ofRole), ""⟩

/-- The document of a text read by the host, or why there is none. -/
def document (content : Except Error String) : Except Error Blueprint.Document := do
  Blueprint.parse (← content)

/-- What a command comes to: a reply at once, or a set of flows to be run first. -/
inductive Task where
  | reply (r : Reply)
  | play (w : World)

/-- The path of the document that a command needs. -/
def Command.path? : Command → Option String
  | .run path .. | .validate path | .info path => some path
  | _ => none

/-- A command, given the content of the file it needs. -/
def Command.task (fresh : Nat → String) (content : Except Error String) : Command → Task
  | .run path vars _ =>
      match document content with
      | .error e => .reply (notLoaded path e)
      | .ok d =>
          match World.ofDocument Catalog.registry fresh d (Fields.ofList vars) with
          | .error e => .reply (failed "" e)
          | .ok w => .play w
  | .validate path =>
      .reply (match document content with
        | .error e => notLoaded path e
        | .ok d => verdict d)
  | .info path =>
      .reply (match document content with
        | .error e => notLoaded path e
        | .ok d => summary fresh d)
  | .list => .reply components
  | .help text => .reply ⟨0, text, ""⟩
  | .version => .reply ⟨0, "actuator 0.1.0\n", ""⟩
  | .misuse usage => .reply ⟨2, "", usage ++ "\n"⟩

/-- The reply of a run that printed `out` and came to a result. -/
def played (out : String) : Outcome → Reply
  | .ok _ => ⟨0, out, ""⟩
  | .error e => failed out e

end PullFlow.CommandLine
