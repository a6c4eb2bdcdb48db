/-!
The two signals that threads wait for, on their own: a latch, which once set stays set, and a
sleeper, whose sleeps end at once when it is stopped.
-/

namespace PullFlow.Rehearsal

/-- A latch and a sleeper. -/
structure Signals where
  set : Bool
  stopped : Bool

/-- What is done with them. -/
inductive SignalStep where
  | latchSet
  | latchIsSet
  | latchWait
  /-- Waits for the latch, but not for ever. -/
  | latchWaitFor
  | latchShow
  | sleep
  | stop
  | isStopped
  | sleeperShow

/-- What they show. -/
inductive SignalAnswer where
  | nothing
  | flag (b : Bool)
  | latch (set : Bool)
  | sleeper (stopped : Bool)

/-- A latch or a sleeper on one line. -/
def SignalAnswer.summary : SignalAnswer → String
  | latch set => "Latch(" ++ toString set ++ ")"
  | sleeper stopped => "Sleeper \x7b stopped: " ++ toString stopped ++ " \x7d"
  | nothing | flag _ => ""

namespace Signals

def fresh : Signals := ⟨false, false⟩

/-- Does a step. A sleep says whether it came to its end. -/
def perform (s : Signals) : SignalStep → Signals × SignalAnswer
  | .latchSet => ({ s with set := true }, .nothing)
  | .latchIsSet | .latchWaitFor => (s, .flag s.set)
  | .latchWait => (s, .nothing)
  | .latchShow => (s, .latch s.set)
  | .sleep => (s, .flag (!s.stopped))
  | .stop => ({ s with stopped := true }, .nothing)
  | .isStopped => (s, .flag s.stopped)
  | .sleeperShow => (s, .sleeper s.stopped)

/-- Does steps in order. -/
def performAll (s : Signals) : List SignalStep → List SignalAnswer
  | [] => []
  | step :: rest =>
      let (s, answer) := s.perform step
      answer :: performAll s rest

end Signals
end PullFlow.Rehearsal
