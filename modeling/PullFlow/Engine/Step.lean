import PullFlow.Engine.Ending
import PullFlow.Engine.Passes

/-!
A step of a thread, and the states that threads reach in any order of their steps. A thread that
waits for a lock, a latch, a wake-up, a deadline or the host cannot step; the host answers a thread
from outside.
-/

namespace PullFlow.Engine

/-- A step of an activity on a thread, with the outcome it goes on with. -/
def Activity.step (w : World) (t : ThreadId) (answer : Outcome) : Activity → Stepped
  | .look scope key wait p => w.look t scope key wait p
  | .write scope key e first p => w.write scope key e first p
  | .close scope p => w.close scope p
  | .host _ => none
  | .pull flow p => w.pull flow p answer
  | .read flow p => w.read t flow answer p
  | .push flow v p => w.push t flow v answer p
  | .demand flow => w.demand flow
  | .call name flow payload p => w.call t name flow payload answer p
  | .sinksActive flow => w.sinksActive flow
  | .sleep flow deadline => w.sleep flow deadline
  | .advance flow target p => w.advance flow target p
  | .interrupt flow p => w.interrupt flow p
  | .finish flow m p => w.finish t flow m p
  | .stop flow p => w.stop flow answer p
  | .stopAll left => w.stopAll left
  | .run flow m p => w.run t flow m answer p
  | .contextualize flow p => w.contextualize flow answer p
  | .prepare flow p => w.prepare flow p
  | .wire flow inflows p => w.wire flow inflows p
  | .launch flow checked => w.launch flow checked
  | .awaitStart flow => w.awaitStart flow
  | .join flow => w.join flow
  | .joinAll left failed joining => w.joinAll left failed joining answer
  | .setUpAll p => w.setUpAll answer p
  | .startAll p => w.startAll answer p
  | .runAll p => w.runAll answer p

/-- A thread whose current activity took a turn; `rest` are the activities below it. -/
def Thread.after (th : Thread) (rest : List Activity) : Turn → Thread
  | .goto a answer => { th with stack := a :: rest, answer := answer }
  | .invoke callee back => { th with stack := callee :: back :: rest, answer := .ok .null }
  | .exit out =>
      match rest with
      | [] => { th with stack := [], answer := out, result := some out }
      | rest => { th with stack := rest, answer := out }

namespace World

/-- The activities below the current one of a thread. -/
def below (w : World) (t : ThreadId) : List Activity :=
  match w.threads[t]? with
  | some th => th.stack.drop 1
  | none => []

/-- A thread takes a turn. -/
def turn (w : World) (t : ThreadId) (turn : Turn) : World :=
  let rest := w.below t
  w.modifyThread t fun th => th.after rest turn

/-- A step of a thread; none if it waits or is over. -/
def step (w : World) (t : ThreadId) : Option World :=
  match w.threads[t]? with
  | some th =>
      match th.stack with
      | a :: _ => (a.step w t th.answer).map fun (w, turn) => w.turn t turn
      | [] => none
  | none => none

/-- What a thread asks the host for. -/
def hostRequest? (w : World) (t : ThreadId) : Option HostRequest :=
  match w.threads[t]? with
  | some th =>
      match th.stack with
      | .host r :: _ => some r
      | _ => none
  | none => none

/-- The host answers a thread that asks for something. -/
def hostReply (w : World) (t : ThreadId) (out : Outcome) : World :=
  match w.hostRequest? t with
  | some _ => w.turn t (.exit out)
  | none => w

/-- The result of a thread that is over. -/
def result? (w : World) (t : ThreadId) : Option Outcome := (w.threads[t]?).bind (·.result)

/-- Lets time pass. -/
def tick (w : World) (nanos : Nat) : World := { w with clock := w.clock + nanos }

/-- The moment at which a thread that sleeps goes on. -/
def deadline? (w : World) (t : ThreadId) : Option Nat :=
  match w.threads[t]? with
  | some th =>
      match th.stack with
      | .sleep _ deadline :: _ => some deadline
      | _ => none
  | none => none

/-- The states that can be reached: by a step of any thread, by an answer of the host, by time. -/
inductive Reach (start : World) : World → Prop where
  | refl : Reach start start
  | step {w w' : World} {t : ThreadId} : Reach start w → w.step t = some w' → Reach start w'
  | host {w : World} {t : ThreadId} {out : Outcome} : Reach start w → Reach start (w.hostReply t out)
  | tick {w : World} {nanos : Nat} : Reach start w → Reach start (w.tick nanos)

end World
end PullFlow.Engine
