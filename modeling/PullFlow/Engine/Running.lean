import PullFlow.Engine.Reading

/-!
How a flow runs, step by step: it starts its components under its lock, so that nobody reads a chain
that is not started, then its monitor, which drives it. A wait that a stop breaks off is how a
stopped flow ends and no failure. Afterwards the flow ends, unless its monitor leaves it running;
then the monitor is parked, and a stop that came before the parking is made up for.
-/

namespace PullFlow.Engine.World

/-- The activity for an action that is not done at once. -/
def actionOf? (w : World) (flow : FlowId) : MonitorAct → Option Activity
  | .pull => some (.read flow .lock)
  | .push v => some (.push flow v .lock)
  | .sleep d => some (.sleep flow (w.clock + d.nanos))
  | .sinksActive => some (.sinksActive flow)
  | _ => none

/-- A move of a monitor. -/
def drive (w : World) (flow : FlowId) (m : Monitor) (move : MonitorMove) : Stepped :=
  (w.flow? flow).bind fun cell =>
    let acted (w : World) (wait : MonitorWait) (out : Outcome) : World × Turn :=
      (w, .goto (.run flow m (.acting wait)) out)
    match move with
    | .finish d => some (w, .next (.run flow m (.judge d)))
    | .act .stopped wait => some (acted w wait (.ok (.bool cell.stopped)))
    | .act (.report e) wait =>
        some (acted (w.emit (.pullFailed cell.name e.message)) wait (.ok .null))
    | .act (.reportExit c) wait =>
        some (acted (w.emit (.exitConditionMet cell.name c)) wait (.ok .null))
    | .act (.note notes) wait => some (acted (w.jot notes) wait (.ok .null))
    | .act (.answer out) wait =>
        some (acted (w.modifyFlow flow fun cell => { cell with outbox := cell.outbox ++ [out] })
          wait (.ok .null))
    | .act .listen _ =>
        match cell.inbox with
        | [] => none
        | order :: inbox =>
            some (w.modifyFlow flow fun cell => { cell with inbox := inbox },
              .next (.run flow m (.drive (MonitorBody.obey order))))
    | .act action wait =>
        (w.actionOf? flow action).map fun a => (w, .invoke a (.run flow m (.acting wait)))

/-- How a monitor's end is judged: a wait broken off by a stop is no failure. -/
def judged (w : World) (flow : FlowId) : Done → Done
  | .error (.interrupted key) => if w.stopping flow then .ok () else .error (.interrupted key)
  | d => d

/-- A step of a run. -/
def run (w : World) (t : ThreadId) (flow : FlowId) (m : Monitor) (answer : Outcome)
    (p : RunPoint) : Stepped :=
  let go (w : World) (p : RunPoint) : World × Turn := (w, .next (.run flow m p))
  match p with
  | .lock => (w.lock t flow).map fun w => go w .advance
  | .advance => some (w, .invoke (.advance flow .started .swap) (.run flow m .advanced))
  | .advanced => some (go w (if MonitorBody.yes answer then .release else .abandon))
  | .release => some (go (w.modifyFlow flow fun cell => { cell with released := true }) .start)
  | .start =>
      (w.flow? flow).map fun cell =>
        let h := cell.pipeline.start
        let w := ((w.setPipeline flow h.body).jot h.notes).unlock flow
        go w (match h.result with
          | .ok () => .monitor
          | .error e => .judge (.error e))
  | .abandon => some (go (w.unlock flow) .abandoned)
  | .abandoned => some (w, .invoke (.finish flow m .monitor) (.run flow m (.finished (.ok ()))))
  | .monitor =>
      let h := m.start
      some (w.jot h.notes, .next (.run flow h.body (match h.result with
        | .ok () => .drive h.body.body.begin
        | .error e => .judge (.error e))))
  | .drive move => w.drive flow m move
  | .acting wait =>
      let (body, move) := m.body.resume wait answer
      some (w, .next (.run flow { m with body := body } (.drive move)))
  | .judge d => some (go w (.fail (w.judged flow d)))
  | .fail (.ok ()) => some (go w (.decide (.ok ())))
  | .fail (.error e) =>
      (w.flow? flow).map fun cell =>
        go (w.emit (.flowFailed cell.name e.message)) (.decide (.error e))
  | .decide d =>
      let failed := match d with
        | .error _ => true
        | .ok () => false
      some (if failed || m.body.endsFlow || w.stopping flow then go w (.ending d) else go w (.park d))
  | .ending d => some (w, .invoke (.advance flow .ending .swap) (.run flow m (.interrupt d)))
  | .interrupt d =>
      some (if MonitorBody.yes answer then
          (w, .invoke (.interrupt flow .sleeper) (.run flow m (.finish d)))
        else go w (.finish d))
  | .finish d => some (w, .invoke (.finish flow m .monitor) (.run flow m (.finished d)))
  | .park d =>
      some (go (w.modifyFlow flow fun cell => { cell with parked := some m }) (.parked d))
  | .parked d => some (if w.stopping flow then go w (.retake d) else (w, .ofDone d))
  | .retake d =>
      (w.flow? flow).map fun cell =>
        match cell.parked with
        | some m =>
            (w.modifyFlow flow fun cell => { cell with parked := none },
              .invoke (.finish flow m .monitor) (.run flow m (.finished d)))
        | none => (w, .ofDone d)
  | .finished d => some (w, .ofDone d)

/-- A flow must be in a state. -/
def expect (cell : FlowCell) (state : FlowState) : Done :=
  if cell.state = state then .ok ()
  else .error (.invalidState ("flow " ++ inQuotes cell.name) state.name cell.state.name)

/-- A step of the start of a flow. -/
def launch (w : World) (flow : FlowId) (checked : Bool) : Stepped :=
  (w.flow? flow).map fun cell =>
    if checked then
      match cell.parked with
      | none =>
          (w, .exit (.error
            (.invalidState ("flow " ++ inQuotes cell.name) "a parked monitor" "none")))
      | some m =>
          let w := w.modifyFlow flow fun cell => { cell with parked := none }
          if cell.threaded then
            let (w, t) := w.spawn (.run flow m .lock)
            (w.modifyFlow flow fun cell => { cell with thread := some t }, .done)
          else (w, .next (.run flow m .lock))
    else
      match expect cell .wired with
      | .ok () => (w, .next (.launch flow true))
      | .error e => (w, .exit (.error e))

/-- A step that waits until a flow has started, or was stopped. -/
def awaitStart (w : World) (flow : FlowId) : Stepped :=
  (w.flow? flow).bind fun cell => if cell.released then some (w, .done) else none

/-- A step that waits for the thread of a flow and takes its result. -/
def join (w : World) (flow : FlowId) : Stepped :=
  (w.flow? flow).bind fun cell =>
    match cell.thread with
    | none => some (w, .done)
    | some t =>
        (w.threads[t]?).bind fun th =>
          th.result.map fun out =>
            (w.modifyFlow flow fun cell => { cell with thread := none }, .exit out)

/-- The first of two failures. -/
def firstFailure (failed : Done) (out : Outcome) : Done :=
  match failed with
  | .error e => .error e
  | .ok () => out.done

/-- A step of the joining of several flows. -/
def joinAll (w : World) (left : List FlowId) (failed : Done) (joining : Bool) (answer : Outcome) :
    Stepped :=
  let failed := if joining then firstFailure failed answer else failed
  match left with
  | [] => some (w, .ofDone failed)
  | flow :: left => some (w, .invoke (.join flow) (.joinAll left failed true))

end PullFlow.Engine.World
