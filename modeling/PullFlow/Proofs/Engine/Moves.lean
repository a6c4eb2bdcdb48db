import PullFlow.Proofs.Engine.Calm

/-!
What the activities that start and end flows do in a step, one case for each way to go on. All
that reading, feeding, setting up and sleeping can do is one case among them.
-/

namespace PullFlow.Engine

/-- The end that a run has come to; none while it has not come to one. -/
def RunPoint.end? : RunPoint → Option Done
  | .decide d | .ending d | .interrupt d | .finish d | .park d | .parked d | .retake d
  | .finished d => some d
  | _ => none

/-- Whether a run has handed its monitor on. -/
def RunPoint.gone : RunPoint → Bool
  | .parked _ | .retake _ | .finished _ => true
  | _ => false

/-- What a run may wait for before it has come to its end. -/
def Activity.served (f : FlowId) (a : Activity) : Prop :=
  a.plain = true ∨ a = .advance f .started .swap

namespace World

/-- The steps of the activities. `Moves w answer a w' turn` says that `a`, going on with an answer,
can lead from one state to another and take a turn. -/
inductive Moves (w : World) (answer : Outcome) : Activity → World → Turn → Prop
  | plain {a : Activity} {w' : World} {turn : Turn} : a.plain = true → Calm w w' →
      turn.Plain w → Moves w answer a w' turn
  -- a change of state
  | swap {f : FlowId} {target : FlowState} {cell : FlowCell} : w.flow? f = some cell →
      cell.state.rank < target.rank →
      Moves w answer (.advance f target .swap)
        (w.modifyFlow f fun cell => { cell with state := target })
        (.next (.advance f target (.emit cell.state)))
  | behind {f : FlowId} {target : FlowState} {cell : FlowCell} : w.flow? f = some cell →
      ¬ cell.state.rank < target.rank →
      Moves w answer (.advance f target .swap) w (.exit (.ok (.bool false)))
  | announce {f : FlowId} {target before : FlowState} {w' : World} : Calm w w' →
      Moves w answer (.advance f target (.emit before)) w' (.exit (.ok (.bool true)))
  -- the end of a flow
  | finishOn {f : FlowId} {m m' : Monitor} {p p' : FinishPoint} {w' : World} : p ≠ .announced →
      p' ≠ .monitor → p' ≠ .announced → Calm w w' →
      Moves w answer (.finish f m p) w' (.next (.finish f m' p'))
  | finishEnd {f : FlowId} {m : Monitor} : Moves w answer (.finish f m .ended) w
      (.invoke (.advance f .ended .swap) (.finish f m .announced))
  | finished {f : FlowId} {m : Monitor} : Moves w answer (.finish f m .announced) w .done
  -- a stop
  | stopBegin {f : FlowId} : Moves w answer (.stop f .begin) w
      (.invoke (.advance f .ending .swap) (.stop f .advanced))
  | stopFirst {f : FlowId} : MonitorBody.yes answer = true → Moves w answer (.stop f .advanced) w
      (.invoke (.interrupt f .sleeper) (.stop f .interrupted))
  | stopLate {f : FlowId} : MonitorBody.yes answer = false →
      Moves w answer (.stop f .advanced) w .done
  | stopTake {f : FlowId} {cell : FlowCell} {m : Monitor} : w.flow? f = some cell →
      cell.parked = some m → Moves w answer (.stop f .interrupted)
        (w.modifyFlow f fun cell => { cell with parked := none })
        (.invoke (.finish f m .monitor) (.stop f .finished))
  | stopLeft {f : FlowId} {cell : FlowCell} : w.flow? f = some cell → cell.parked = none →
      Moves w answer (.stop f .interrupted) w .done
  | stopped {f : FlowId} : Moves w answer (.stop f .finished) w .done
  | stopNone : Moves w answer (.stopAll []) w .done
  | stopNext {f : FlowId} {left : List FlowId} : Moves w answer (.stopAll (f :: left)) w
      (.invoke (.stop f .begin) (.stopAll left))
  -- a run
  | runOn {f : FlowId} {m m' : Monitor} {p p' : RunPoint} {w' : World} {out : Outcome} :
      p.end? = none → p'.end? = none → Calm w w' →
      Moves w answer (.run f m p) w' (.goto (.run f m' p') out)
  | runAsk {f : FlowId} {m : Monitor} {p p' : RunPoint} {a : Activity} {w' : World} :
      p.end? = none → p'.end? = none → a.served f → Calm w w' →
      Moves w answer (.run f m p) w' (.invoke a (.run f m p'))
  | runAbandon {f : FlowId} {m : Monitor} {p : RunPoint} : p.end? = none →
      Moves w answer (.run f m p) w (.invoke (.finish f m .monitor) (.run f m (.finished (.ok ()))))
  | runPass {f : FlowId} {m : Monitor} {p : RunPoint} : p.end? = none →
      Moves w answer (.run f m p) w (.next (.run f m (.decide (.ok ()))))
  | runReport {f : FlowId} {m : Monitor} {cell : FlowCell} {e : Error} {wait : MonitorWait} :
      w.flow? f = some cell → Moves w answer (.run f m (.drive (.act (.report e) wait)))
        (w.emit (.pullFailed cell.name e.message)) (.next (.run f m (.acting wait)))
  | runFail {f : FlowId} {m : Monitor} {cell : FlowCell} {e : Error} : w.flow? f = some cell →
      Moves w answer (.run f m (.fail (.error e))) (w.emit (.flowFailed cell.name e.message))
        (.next (.run f m (.decide (.error e))))
  | runDecide {f : FlowId} {m : Monitor} {p p' : RunPoint} : p.end? = p'.end? →
      p.gone = false → p'.gone = false →
      Moves w answer (.run f m p) w (.next (.run f m p'))
  | runEnding {f : FlowId} {m : Monitor} {d : Done} : Moves w answer (.run f m (.ending d)) w
      (.invoke (.advance f .ending .swap) (.run f m (.interrupt d)))
  | runRelease {f : FlowId} {m : Monitor} {d : Done} : Moves w answer (.run f m (.interrupt d)) w
      (.invoke (.interrupt f .sleeper) (.run f m (.finish d)))
  | runFinish {f : FlowId} {m : Monitor} {d : Done} : Moves w answer (.run f m (.finish d)) w
      (.invoke (.finish f m .monitor) (.run f m (.finished d)))
  | runPark {f : FlowId} {m : Monitor} {d : Done} : Moves w answer (.run f m (.park d))
      (w.modifyFlow f fun cell => { cell with parked := some m }) (.next (.run f m (.parked d)))
  | runKeep {f : FlowId} {m : Monitor} {d : Done} : w.stopping f = false →
      Moves w answer (.run f m (.parked d)) w (.ofDone d)
  | runRetake {f : FlowId} {m : Monitor} {d : Done} :
      Moves w answer (.run f m (.parked d)) w (.next (.run f m (.retake d)))
  | runTake {f : FlowId} {m m' : Monitor} {d : Done} {cell : FlowCell} : w.flow? f = some cell →
      cell.parked = some m' → Moves w answer (.run f m (.retake d))
        (w.modifyFlow f fun cell => { cell with parked := none })
        (.invoke (.finish f m' .monitor) (.run f m' (.finished d)))
  | runLeft {f : FlowId} {m : Monitor} {d : Done} {cell : FlowCell} : w.flow? f = some cell →
      cell.parked = none → Moves w answer (.run f m (.retake d)) w (.ofDone d)
  | runOver {f : FlowId} {m : Monitor} {d : Done} :
      Moves w answer (.run f m (.finished d)) w (.ofDone d)
  -- the start of flows, by the thread that starts the set
  | launchOn {f : FlowId} {cell : FlowCell} : w.flow? f = some cell → cell.state = .wired →
      Moves w answer (.launch f false) w (.next (.launch f true))
  | launchLate {f : FlowId} {cell : FlowCell} {e : Error} : w.flow? f = some cell →
      cell.state ≠ .wired → Moves w answer (.launch f false) w (.exit (.error e))
  | launchLeft {f : FlowId} {cell : FlowCell} {e : Error} : w.flow? f = some cell →
      cell.parked = none → Moves w answer (.launch f true) w (.exit (.error e))
  | launchThread {f : FlowId} {cell : FlowCell} {m : Monitor} : w.flow? f = some cell →
      cell.parked = some m → Moves w answer (.launch f true)
        (((w.modifyFlow f fun cell => { cell with parked := none }).spawn
          (.run f m .lock)).1.modifyFlow f
            fun cell => { cell with thread := some w.threads.length }) .done
  | launchHere {f : FlowId} {cell : FlowCell} {m : Monitor} : w.flow? f = some cell →
      cell.parked = some m → Moves w answer (.launch f true)
        (w.modifyFlow f fun cell => { cell with parked := none }) (.next (.run f m .lock))
  | awaited {f : FlowId} : Moves w answer (.awaitStart f) w .done
  | joinNone {f : FlowId} {cell : FlowCell} : w.flow? f = some cell → cell.thread = none →
      Moves w answer (.join f) w .done
  | joined {f : FlowId} {cell : FlowCell} {u : ThreadId} {out : Outcome} : w.flow? f = some cell →
      cell.thread = some u → w.result? u = some out →
      Moves w answer (.join f) (w.modifyFlow f fun cell => { cell with thread := none }) (.exit out)
  | joinOver {failed : Done} {joining : Bool} : Moves w answer (.joinAll [] failed joining) w
      (.ofDone (if joining then firstFailure failed answer else failed))
  | joinNext {f : FlowId} {left : List FlowId} {failed : Done} {joining : Bool} :
      Moves w answer (.joinAll (f :: left) failed joining) w
        (.invoke (.join f) (.joinAll left (if joining then firstFailure failed answer else failed)
          true))
  | launchEnd : Moves w answer (.startAll (.launch [])) w (.next (.startAll (.await w.set)))
  | launchNext {f : FlowId} {left : List FlowId} :
      Moves w answer (.startAll (.launch (f :: left))) w
        (.invoke (.launch f false) (.startAll (.launched left)))
  | launched {left : List FlowId} {v : Value} : answer = .ok v →
      Moves w answer (.startAll (.launched left)) w (.next (.startAll (.launch left)))
  | launchAbort {left : List FlowId} {e : Error} : answer = .error e →
      Moves w answer (.startAll (.launched left)) w
        (.invoke (.stopAll w.set) (.startAll (.abort e)))
  | abortJoin {e : Error} : Moves w answer (.startAll (.abort e)) w
      (.invoke (.joinAll w.set (.ok ()) false) (.startAll (.aborted e)))
  | aborted {e : Error} : Moves w answer (.startAll (.aborted e)) w (.exit (.error e))
  | awaitEnd : Moves w answer (.startAll (.await [])) w (.next (.startAll .join))
  | awaitNext {f : FlowId} {left : List FlowId} : Moves w answer (.startAll (.await (f :: left))) w
      (.invoke (.awaitStart f) (.startAll (.await left)))
  | joinStart : Moves w answer (.startAll .join) w
      (.invoke (.joinAll w.set (.ok ()) false) (.startAll .joined))
  | joinStop : Moves w answer (.startAll .joined) w
      (.invoke (.stopAll w.set) (.startAll (.stopped answer)))
  | allStopped {out : Outcome} : Moves w answer (.startAll (.stopped out)) w (.exit out)
  | setUp : Moves w answer (.runAll .begin) w
      (.invoke (.setUpAll (.context w.set)) (.runAll .ready))
  | ready {v : Value} : answer = .ok v → Moves w answer (.runAll .ready) w
      (.next (.startAll (.launch w.set)))
  | notReady {e : Error} : answer = .error e → Moves w answer (.runAll .ready) w
      (.invoke (.stopAll w.set) (.runAll (.stopped e)))
  | setUpStopped {e : Error} : Moves w answer (.runAll (.stopped e)) w (.exit (.error e))

variable {w w' : World} {t : ThreadId} {answer : Outcome} {turn : Turn}

theorem advance_moves {f : FlowId} {target : FlowState} {p : AdvancePoint}
    (h : w.advance f target p = some (w', turn)) :
    Moves w answer (.advance f target p) w' turn := by
  cases p with
  | swap =>
      obtain ⟨cell, hcell, heq⟩ := Option.map_eq_some_iff.mp h
      split at heq
      · next hrank =>
        cases heq
        exact .swap hcell hrank
      · next hrank =>
        cases heq
        exact .behind hcell hrank
  | emit before =>
      obtain ⟨cell, hcell, heq⟩ := Option.map_eq_some_iff.mp h
      cases heq
      exact .announce (calm_emit rfl)

theorem finish_moves {f : FlowId} {m : Monitor} {p : FinishPoint}
    (h : w.finish t f m p = some (w', turn)) : Moves w answer (.finish f m p) w' turn := by
  cases p with
  | monitor =>
      cases h
      exact .finishOn nofun nofun nofun (calm_jot _)
  | lock =>
      obtain ⟨w₁, hlock, heq⟩ := Option.map_eq_some_iff.mp h
      cases heq
      exact .finishOn nofun nofun nofun (calm_lock hlock)
  | components =>
      obtain ⟨cell, hcell, heq⟩ := Option.map_eq_some_iff.mp h
      cases heq
      exact .finishOn nofun nofun nofun
        (((calm_setPipeline f _).trans (calm_jot _)).trans (calm_unlock f))
  | ended =>
      cases h
      exact .finishEnd
  | announced =>
      cases h
      exact .finished

theorem stop_moves {f : FlowId} {p : StopPoint} (h : w.stop f answer p = some (w', turn)) :
    Moves w answer (.stop f p) w' turn := by
  cases p with
  | begin =>
      cases h
      exact .stopBegin
  | advanced =>
      simp only [stop, Option.some.injEq, Prod.mk.injEq] at h
      obtain ⟨rfl, rfl⟩ := h
      cases hyes : MonitorBody.yes answer with
      | true => exact .stopFirst hyes
      | false => exact .stopLate hyes
  | interrupted =>
      obtain ⟨cell, hcell, heq⟩ := Option.map_eq_some_iff.mp h
      cases hparked : cell.parked with
      | some m =>
          simp only [hparked] at heq
          cases heq
          exact .stopTake hcell hparked
      | none =>
          simp only [hparked] at heq
          cases heq
          exact .stopLeft hcell hparked
  | finished =>
      cases h
      exact .stopped

theorem stopAll_moves {left : List FlowId} (h : w.stopAll left = some (w', turn)) :
    Moves w answer (.stopAll left) w' turn := by
  cases left with
  | nil =>
      cases h
      exact .stopNone
  | cons f left =>
      cases h
      exact .stopNext

theorem served_of_actionOf? {f : FlowId} {action : MonitorAct} {a : Activity}
    (h : w.actionOf? f action = some a) : a.served f := by
  cases action <;> cases h <;> exact .inl rfl

theorem drive_moves {f : FlowId} {m : Monitor} {move : MonitorMove}
    (h : w.drive f m move = some (w', turn)) : Moves w answer (.run f m (.drive move)) w' turn := by
  obtain ⟨cell, hcell, h⟩ := Option.bind_eq_some_iff.mp h
  dsimp only at h
  split at h
  · cases h
    exact .runOn rfl rfl (.refl w)
  · cases h
    exact .runOn rfl rfl (.refl w)
  · cases h
    exact .runReport hcell
  · cases h
    exact .runOn rfl rfl (calm_emit rfl)
  · cases h
    exact .runOn rfl rfl (calm_jot _)
  · cases h
    exact .runOn rfl rfl (calm_modifyFlow fun _ _ => rfl)
  · split at h <;> cases h
    exact .runOn rfl rfl (calm_modifyFlow fun _ _ => rfl)
  · obtain ⟨a, ha, heq⟩ := Option.map_eq_some_iff.mp h
    cases heq
    exact .runAsk rfl rfl (served_of_actionOf? ha) (.refl w)

theorem run_moves {f : FlowId} {m : Monitor} {p : RunPoint}
    (h : w.run t f m answer p = some (w', turn)) : Moves w answer (.run f m p) w' turn := by
  cases p with
  | lock =>
      obtain ⟨w₁, hlock, heq⟩ := Option.map_eq_some_iff.mp h
      cases heq
      exact .runOn rfl rfl (calm_lock hlock)
  | advance =>
      cases h
      exact .runAsk rfl rfl (.inr rfl) (.refl w)
  | advanced =>
      cases h
      cases MonitorBody.yes answer with
      | true => exact .runOn rfl rfl (.refl w)
      | false => exact .runOn rfl rfl (.refl w)
  | release =>
      cases h
      exact .runOn rfl rfl (calm_modifyFlow fun _ _ => rfl)
  | start =>
      obtain ⟨cell, hcell, heq⟩ := Option.map_eq_some_iff.mp h
      dsimp only at heq
      have hcalm : Calm w (((w.setPipeline f cell.pipeline.start.body).jot
          cell.pipeline.start.notes).unlock f) :=
        ((calm_setPipeline f _).trans (calm_jot _)).trans (calm_unlock f)
      split at heq
      · cases heq
        exact .runOn rfl rfl hcalm
      · cases heq
        exact .runOn rfl rfl hcalm
  | abandon =>
      cases h
      exact .runOn rfl rfl (calm_unlock f)
  | abandoned =>
      cases h
      exact .runAbandon rfl
  | monitor =>
      cases h
      split
      · exact .runOn rfl rfl (calm_jot _)
      · exact .runOn rfl rfl (calm_jot _)
  | drive move => exact drive_moves h
  | acting wait =>
      cases h
      exact .runOn rfl rfl (.refl w)
  | judge d =>
      cases h
      exact .runOn rfl rfl (.refl w)
  | fail d =>
      cases d with
      | ok v =>
          cases h
          exact .runPass rfl
      | error e =>
          obtain ⟨cell, hcell, heq⟩ := Option.map_eq_some_iff.mp h
          cases heq
          exact .runFail hcell
  | decide d =>
      simp only [run, Option.some.injEq] at h
      split at h <;> split at h <;> cases h <;> exact .runDecide rfl rfl rfl
  | ending d =>
      cases h
      exact .runEnding
  | interrupt d =>
      simp only [run, Option.some.injEq] at h
      split at h <;> cases h
      · exact .runRelease
      · exact .runDecide rfl rfl rfl
  | finish d =>
      cases h
      exact .runFinish
  | park d =>
      cases h
      exact .runPark
  | parked d =>
      simp only [run, Option.some.injEq] at h
      split at h
      · cases h
        exact .runRetake
      · next hstopping =>
        cases h
        exact .runKeep (Bool.not_eq_true _ ▸ hstopping)
  | retake d =>
      obtain ⟨cell, hcell, heq⟩ := Option.map_eq_some_iff.mp h
      cases hparked : cell.parked with
      | some m' =>
          simp only [hparked] at heq
          cases heq
          exact .runTake hcell hparked
      | none =>
          simp only [hparked] at heq
          cases heq
          exact .runLeft hcell hparked
  | finished d =>
      cases h
      exact .runOver

theorem launch_moves {f : FlowId} {checked : Bool} (h : w.launch f checked = some (w', turn)) :
    Moves w answer (.launch f checked) w' turn := by
  obtain ⟨cell, hcell, heq⟩ := Option.map_eq_some_iff.mp h
  cases checked with
  | true =>
      cases hparked : cell.parked with
      | none =>
          simp only [hparked, if_true] at heq
          cases heq
          exact .launchLeft hcell hparked
      | some m =>
          simp only [hparked, if_true] at heq
          split at heq
          · cases heq
            exact .launchThread hcell hparked
          · cases heq
            exact .launchHere hcell hparked
  | false =>
      simp only [Bool.false_eq_true, if_false, expect] at heq
      by_cases hstate : cell.state = .wired
      · simp only [hstate, if_true] at heq
        cases heq
        exact .launchOn hcell hstate
      · simp only [hstate, if_false] at heq
        cases heq
        exact .launchLate hcell hstate

theorem awaitStart_moves {f : FlowId} (h : w.awaitStart f = some (w', turn)) :
    Moves w answer (.awaitStart f) w' turn := by
  obtain ⟨cell, _, h⟩ := Option.bind_eq_some_iff.mp h
  split at h <;> cases h
  exact .awaited

theorem join_moves {f : FlowId} (h : w.join f = some (w', turn)) :
    Moves w answer (.join f) w' turn := by
  obtain ⟨cell, hcell, h⟩ := Option.bind_eq_some_iff.mp h
  cases hthread : cell.thread with
  | none =>
      simp only [hthread] at h
      cases h
      exact .joinNone hcell hthread
  | some u =>
      simp only [hthread] at h
      obtain ⟨th, hth, h⟩ := Option.bind_eq_some_iff.mp h
      obtain ⟨out, hout, heq⟩ := Option.map_eq_some_iff.mp h
      cases heq
      exact .joined hcell hthread (by rw [result?, hth]; exact hout)

theorem joinAll_moves {left : List FlowId} {failed : Done} {joining : Bool}
    (h : w.joinAll left failed joining answer = some (w', turn)) :
    Moves w answer (.joinAll left failed joining) w' turn := by
  cases left with
  | nil =>
      cases h
      exact .joinOver
  | cons f left =>
      cases h
      exact .joinNext

theorem startAll_moves {p : StartPoint} (h : w.startAll answer p = some (w', turn)) :
    Moves w answer (.startAll p) w' turn := by
  cases p with
  | launch left =>
      cases left with
      | nil =>
          cases h
          exact .launchEnd
      | cons f left =>
          cases h
          exact .launchNext
  | launched left =>
      cases answer with
      | ok v =>
          cases h
          exact .launched rfl
      | error e =>
          cases h
          exact .launchAbort rfl
  | abort e =>
      cases h
      exact .abortJoin
  | aborted e =>
      cases h
      exact .aborted
  | await left =>
      cases left with
      | nil =>
          cases h
          exact .awaitEnd
      | cons f left =>
          cases h
          exact .awaitNext
  | join =>
      cases h
      exact .joinStart
  | joined =>
      cases h
      exact .joinStop
  | stopped out =>
      cases h
      exact .allStopped

theorem runAll_moves {p : RunAllPoint} (h : w.runAll answer p = some (w', turn)) :
    Moves w answer (.runAll p) w' turn := by
  cases p with
  | begin =>
      cases h
      exact .setUp
  | ready =>
      cases answer with
      | ok v =>
          cases h
          exact .ready rfl
      | error e =>
          cases h
          exact .notReady rfl
  | stopped e =>
      cases h
      exact .setUpStopped

/-- Every step of an activity is one of its moves. -/
theorem step_moves {a : Activity} (h : a.step w t answer = some (w', turn)) :
    Moves w answer a w' turn := by
  cases hplain : a.plain with
  | true =>
      obtain ⟨hcalm, hturn⟩ := step_plain hplain h
      exact .plain hplain hcalm hturn
  | false =>
      cases a with
      | advance f target p => exact advance_moves h
      | finish f m p => exact finish_moves h
      | stop f p => exact stop_moves h
      | stopAll left => exact stopAll_moves h
      | run f m p => exact run_moves h
      | launch f checked => exact launch_moves h
      | awaitStart f => exact awaitStart_moves h
      | join f => exact join_moves h
      | joinAll left failed joining => exact joinAll_moves h
      | startAll p => exact startAll_moves h
      | runAll p => exact runAll_moves h
      | _ => cases hplain

end World
end PullFlow.Engine
