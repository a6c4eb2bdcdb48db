import PullFlow.Engine.Access

/-!
How flows end, step by step. The state of a flow only moves forward, and whoever moves it announces
it in a step of its own. Whoever moves a flow to its ending releases all its waits, and finishes the
flow if its monitor is parked; a monitor that runs finishes the flow itself.
-/

namespace PullFlow.Engine.World

/-- A step of a change of state. -/
def advance (w : World) (flow : FlowId) (target : FlowState) : AdvancePoint → Stepped
  | .swap =>
      (w.flow? flow).map fun cell =>
        if cell.state.rank < target.rank then
          (w.modifyFlow flow fun cell => { cell with state := target },
            .next (.advance flow target (.emit cell.state)))
        else (w, .exit (.ok (.bool false)))
  | .emit before =>
      (w.flow? flow).map fun cell =>
        (w.emit (.stateChanged cell.name before target), .exit (.ok (.bool true)))

/-- A step of the release of all waits of a flow. -/
def interrupt (w : World) (flow : FlowId) : InterruptPoint → Stepped
  | .sleeper =>
      some (w.modifyFlow flow fun cell => { cell with stopped := true },
        .next (.interrupt flow .close))
  | .close =>
      (w.flow? flow).map fun cell =>
        match cell.scope with
        | some s => (w, .invoke (.close s .mark) (.interrupt flow .latch))
        | none => (w, .next (.interrupt flow .latch))
  | .latch => some (w.modifyFlow flow fun cell => { cell with released := true }, .done)

/-- A step of the end of a flow. -/
def finish (w : World) (t : ThreadId) (flow : FlowId) (m : Monitor) : FinishPoint → Stepped
  | .monitor =>
      let h := m.stop
      some (w.jot h.notes, .next (.finish flow h.body .lock))
  | .lock => (w.lock t flow).map fun w => (w, .next (.finish flow m .components))
  | .components =>
      (w.flow? flow).map fun cell =>
        let h := cell.pipeline.stop
        (((w.setPipeline flow h.body).jot h.notes).unlock flow, .next (.finish flow m .ended))
  | .ended => some (w, .invoke (.advance flow .ended .swap) (.finish flow m .announced))
  | .announced => some (w, .done)

/-- A step of a stop. -/
def stop (w : World) (flow : FlowId) (answer : Outcome) : StopPoint → Stepped
  | .begin => some (w, .invoke (.advance flow .ending .swap) (.stop flow .advanced))
  | .advanced =>
      some (w, if MonitorBody.yes answer then .invoke (.interrupt flow .sleeper) (.stop flow .interrupted)
        else .done)
  | .interrupted =>
      (w.flow? flow).map fun cell =>
        match cell.parked with
        | some m =>
            (w.modifyFlow flow fun cell => { cell with parked := none },
              .invoke (.finish flow m .monitor) (.stop flow .finished))
        | none => (w, .done)
  | .finished => some (w, .done)

/-- A step of the stop of several flows, one after the other. -/
def stopAll (w : World) : List FlowId → Stepped
  | [] => some (w, .done)
  | flow :: left => some (w, .invoke (.stop flow .begin) (.stopAll left))

end PullFlow.Engine.World
