import PullFlow.Engine.Step
import PullFlow.Rehearsal.Disk

/-!
Running threads in memory. All threads take steps in turn, one each; the clock goes on a little
with every round and, when every thread waits, to the next deadline. The order of steps is one of
those that threads may take.
-/

namespace PullFlow.Rehearsal

open Engine

/-- A running set of flows and its host. -/
structure Play where
  world : World
  host : Host

namespace Play

/-- A step of a thread or an answer of the host to it. -/
def advance? (s : Play) (t : ThreadId) : Option Play :=
  match s.world.hostRequest? t with
  | some r =>
      let (host, out) := s.host.serve s.world.clock r
      some ⟨s.world.hostReply t out, host⟩
  | none => (s.world.step t).map fun w => { s with world := w }

/-- A step of every thread that can take one, and whether there was one. -/
def round (s : Play) : Play × Bool :=
  let all := List.range s.world.threads.length
  all.foldl
    (fun (s, moved) t =>
      match advance? s t with
      | some s => (s, true)
      | none => (s, moved))
    (s, false)

/-- What a round costs in nanoseconds. -/
def roundTime : Nat := 1000

def pass (s : Play) (nanos : Nat) : Play := { s with world := s.world.tick nanos }

/-- The earliest moment after now at which a sleeping thread goes on. -/
def nextDeadline? (w : World) : Option Nat :=
  let all := (List.range w.threads.length).filterMap w.deadline?
  (all.filter (w.clock < ·)).min?

/-- Lets the threads run for a number of rounds at most, until a condition holds or nothing will
ever move. No step is taken once the clock has passed `limit`. -/
def run (limit : Option Nat) (done : World → Bool) : Nat → Play → Play
  | 0, s => s
  | fuel + 1, s =>
      if done s.world || limit.any (· ≤ s.world.clock) then s
      else
        let (s, moved) := s.round
        if moved then run limit done fuel (s.pass roundTime)
        else
          match nextDeadline? s.world with
          | some deadline =>
              let target := match limit with
                | some limit => min deadline limit
                | none => deadline
              run limit done fuel (s.pass (target - s.world.clock))
          | none => s

/-- How many rounds are played at most. -/
def patience : Nat := 4000000

/-- Lets the threads run until a condition holds. -/
def playUntil (s : Play) (done : World → Bool) : Play := run none done patience s

/-- Lets the threads run for a while. -/
def sleep (s : Play) (nanos : Nat) : Play :=
  let limit := s.world.clock + nanos
  let s := run (some limit) (fun _ => false) patience s
  if s.world.clock < limit then s.pass (limit - s.world.clock) else s

/-- Lets the threads run for some rounds, until all wait; deadlines ahead are not waited for. -/
def calm : Nat → Play → Play
  | 0, s => s
  | rounds + 1, s =>
      let (s, moved) := s.round
      if moved then calm rounds (s.pass roundTime) else s

/-- Runs an activity on a thread of its own beside all others, to its end. -/
def perform (s : Play) (a : Activity) : Play × Outcome :=
  let (w, t) := s.world.spawn a
  let s := playUntil { s with world := w } fun w => (w.result? t).isSome
  (s, (s.world.result? t).getD (.ok .null))

/-- Starts an activity on a thread of its own. -/
def launch (s : Play) (a : Activity) : Play × ThreadId :=
  let (w, t) := s.world.spawn a
  ({ s with world := w }, t)

end Play
end PullFlow.Rehearsal
