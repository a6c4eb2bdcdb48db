import PullFlow.CommandLine
import PullFlow.Engine.Report
import PullFlow.Engine.Step
import Std.Time.DateTime.Timestamp

/-!
The program. It does what its arguments ask for: it reads a document, plays the flows with the real
input, output, files and clock, and prints what the command line replies. All threads of the flows
take their steps in turn here; only what they ask of the host is done beside them, so that a flow
that waits for input does not hold up the others.
-/

namespace PullFlow.Program

open Engine

/-- The usual wording of an error code of the host. -/
def codeWording (code : Nat) (otherwise : String) : String :=
  match code with
  | 2 => "No such file or directory"
  | 13 => "Permission denied"
  | 17 => "File exists"
  | 20 => "Not a directory"
  | 21 => "Is a directory"
  | 28 => "No space left on device"
  | 36 => "File name too long"
  | _ => otherwise

/-- An error code without its sign, which some services of the host turn around. -/
def plainCode (code : UInt32) : Nat := min code.toNat (Decimal.twoToThe 32 - code.toNat)

def codeMessage (code : UInt32) (details : String) : String :=
  codeWording (plainCode code) details ++ " (os error " ++ toString (plainCode code) ++ ")"

/-- What the host says of a failure. -/
def hostMessage : IO.Error → String
  | .alreadyExists _ code details | .interrupted _ code details | .invalidArgument _ code details
  | .noFileOrDirectory _ code details | .permissionDenied _ code details
  | .resourceExhausted _ code details | .inappropriateType _ code details
  | .noSuchThing _ code details | .otherError code details | .resourceBusy code details
  | .resourceVanished code details | .unsupportedOperation code details
  | .hardwareFault code details | .unsatisfiedConstraints code details
  | .illegalOperation code details | .protocolError code details | .timeExpired code details =>
      codeMessage code details
  | .unexpectedEof => "unexpected end of file"
  | .userError message => message

/-- The result of an action of the host, its failure as an error of the engine. -/
def guarded {α : Type} (action : IO α) : IO (Except Error α) := do
  try
    return .ok (← action)
  catch e =>
    return .error (.host (hostMessage e))

/-- The content of a file as text. -/
def readText (path : String) : IO (Except Error String) := do
  let content ← guarded (IO.FS.readBinFile path)
  return content.bind fun bytes =>
    match String.fromUTF8? bytes with
    | some s => .ok s
    | none => .error (.host "stream did not contain valid UTF-8")

def writeText (path text : String) (append : Bool) : IO Unit := do
  let handle ← IO.FS.Handle.mk path (if append then .append else .write)
  handle.putStr text

/-- Does what a component asks of the host. -/
def serve : HostRequest → IO Outcome
  | .readLine =>
      guarded do
        let line ← (← IO.getStdin).getLine
        return if line.isEmpty then .null else .text (Text.bareLine line)
  | .readFile path true =>
      guarded do
        let bytes ← IO.FS.readBinFile path
        return .list (bytes.toList.map fun b => .int b.toNat)
  | .readFile path false => return (← readText path).map .text
  | .writeFile path text append =>
      guarded do
        writeText path text append
        return .null
  | .print text =>
      guarded do
        let out ← IO.getStdout
        out.putStr text
        out.flush
        return .null
  | .moment =>
      return .ok (.int (← Std.Time.Timestamp.now).toNanosecondsSinceUnixEpoch.val)

/-- Flows that are played, and the services of the host that threads wait for. -/
structure Live where
  world : World
  services : List (ThreadId × Task (Except IO.Error Outcome))

namespace Live

/-- Starts the services that threads ask for, and hands over the outcomes that are there. -/
def exchange (s : Live) : IO Live := do
  let mut w := s.world
  let mut waiting := []
  for (t, service) in s.services do
    if ← IO.hasFinished service then
      w := w.hostReply t (match service.get with
        | .ok out => out
        | .error e => .error (.host (hostMessage e)))
    else
      waiting := (t, service) :: waiting
  for t in List.range w.threads.length do
    match w.hostRequest? t with
    | some request =>
        if !waiting.any (·.1 == t) then
          waiting := (t, ← IO.asTask (serve request) .dedicated) :: waiting
    | none => pure ()
  return ⟨w, waiting⟩

/-- A step of every thread that can take one, and whether there was one. -/
def round (w : World) : World × Bool :=
  (List.range w.threads.length).foldl
    (fun (w, moved) t =>
      match w.step t with
      | some w => (w, true)
      | none => (w, moved))
    (w, false)

/-- Plays until a thread is over. Events are handed on as they come and then forgotten. -/
partial def play (t : ThreadId) (begun : Nat) (observe : Event → IO Unit) (s : Live) :
    IO Outcome := do
  let now ← IO.monoNanosNow
  let (w, moved) := round (s.world.tick (now - begun - s.world.clock))
  w.events.forM observe
  let s ← exchange ⟨{ w with events := [], journal := [] }, s.services⟩
  match s.world.result? t with
  | some out => return out
  | none =>
      if !moved then IO.sleep 1
      play t begun observe s

end Live

/-- Names for flows that have none, by position, different from run to run. -/
def freshName (seed : Nat) (position : Nat) : String :=
  let word := (seed + 2654435761 * position) % Decimal.twoToThe 32
  let digits := Nat.toDigits 16 word
  "flow-" ++ String.ofList (List.replicate (8 - digits.length) '0' ++ digits)

/-- Sets up the flows and runs them to their end. -/
def run (w : World) (events : Bool) : IO Outcome := do
  let (w, t) := w.spawn (.runAll .begin)
  let observe (e : Event) : IO Unit := if events then IO.eprintln e.toValue.compact else pure ()
  Live.play t (← IO.monoNanosNow) observe ⟨w, []⟩

/-- Whether a command wants to see events. -/
def wantsEvents : CommandLine.Command → Bool
  | .run _ _ events => events
  | _ => false

end PullFlow.Program

open PullFlow in
def main (args : List String) : IO UInt32 := do
  let command := CommandLine.ofArguments args
  let content ← match command.path? with
    | some path => Program.readText path
    | none => pure (.ok "")
  let seed ← IO.rand 0 (Decimal.twoToThe 32 - 1)
  let reply ← match command.task (Program.freshName seed) content with
    | .reply reply => pure reply
    | .play w => pure (CommandLine.played "" (← Program.run w (Program.wantsEvents command)))
  IO.print reply.out
  IO.eprint reply.err
  return UInt32.ofNat reply.code
