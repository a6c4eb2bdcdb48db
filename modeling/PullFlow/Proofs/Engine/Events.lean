import PullFlow.Proofs.Engine.Dealings
import PullFlow.Proofs.Engine.Wiring

/-!
What observers are told. Four points of activities tell something: a state that was changed, a
payload that a sink took, what a monitor reports, and the failure of a flow; no other step does. So
the events of a run are what its turns told, and those of a flow's deliveries are read off the deeds
of its monitor.
-/

namespace PullFlow.Engine

/-- What observers are told in a turn of an activity. -/
def Activity.tells (w : World) : Activity → List Event
  | .advance f target (.emit before) =>
      (w.nameOf? f).toList.map fun name => .stateChanged name before target
  | .push f v .emit => (w.nameOf? f).toList.map fun name => .sinkPerformed name v
  | .run f _ (.drive (.act (.report e) _)) =>
      (w.nameOf? f).toList.map fun name => .pullFailed name e.message
  | .run f _ (.drive (.act (.reportExit c) _)) =>
      (w.nameOf? f).toList.map fun name => .exitConditionMet name c
  | .run f _ (.fail (.error e)) =>
      (w.nameOf? f).toList.map fun name => .flowFailed name e.message
  | _ => []

namespace World

variable {w w₁ start : World} {t : ThreadId} {f : FlowId} {a back next : Activity}
  {answer : Outcome} {r : World × Turn} {s : ScopeId} {key name : String} {trace : List Taken}

/-! What a state is made of can be changed without a word. -/

section Changes

@[grind =] theorem events_modifyFlow (w : World) (f : FlowId) (change : FlowCell → FlowCell) :
    (w.modifyFlow f change).events = w.events := rfl

@[grind =] theorem events_modifyThread (w : World) (t : ThreadId) (change : Thread → Thread) :
    (w.modifyThread t change).events = w.events := rfl

@[grind =] theorem events_setPipeline (w : World) (f : FlowId) (p : Pipeline) :
    (w.setPipeline f p).events = w.events := rfl

@[grind =] theorem events_jot (w : World) (notes : List Note) : (w.jot notes).events = w.events := rfl

@[grind =] theorem events_unlock (w : World) (f : FlowId) : (w.unlock f).events = w.events := rfl

@[grind =] theorem events_leaveGate (w : World) (s : ScopeId) :
    (w.leaveGate s).events = w.events := rfl

@[grind =] theorem events_wake (w : World) (s : ScopeId) : (w.wake s).events = w.events := rfl

@[grind =] theorem events_spawn (w : World) (a : Activity) : (w.spawn a).1.events = w.events := rfl

attribute [local grind =] Option.map_eq_some_iff Option.bind_eq_some_iff

@[grind →] theorem events_lock (h : w.lock t f = some w₁) : w₁.events = w.events := by
  unfold World.lock at h
  grind

@[grind →] theorem events_enterGate (h : w.enterGate t s = some w₁) : w₁.events = w.events := by
  unfold World.enterGate at h
  grind

@[grind =] theorem events_serve (w : World) (q : Request) (back : Activity) :
    (w.serve q back).1.events = w.events := by
  unfold serve
  grind

@[grind =] theorem events_afterSink (w : World) (v : Value) (cell : FlowCell)
    (m : SinkBody × SinkMove) : (w.afterSink f v cell m).1.events = w.events := by
  unfold afterSink
  grind

@[grind =] theorem events_afterHook (w : World) (h : HookEnd FlowCell) (next : Activity) :
    (w.afterHook f h next).1.events = w.events := by
  unfold afterHook
  grind

@[grind →] theorem events_onPipeline {change : Pipeline → HookEnd Pipeline}
    (h : w.onPipeline f change next = some r) : r.1.events = w.events := by
  unfold onPipeline at h
  grind

@[grind →] theorem events_checkState {state : FlowState} (h : w.checkState f state next = some r) :
    r.1.events = w.events := by
  unfold checkState at h
  grind

@[grind →] theorem events_startPull (h : w.startPull f back = some r) : r.1.events = w.events := by
  unfold startPull at h
  grind

end Changes

/-! The steps. -/

theorem events_silent (hnone : a.tells w = []) (hsame : w₁.events = w.events) :
    w₁.events = w.events ++ a.tells w := by
  rw [hnone, List.append_nil, hsame]

section Steps

attribute [local grind =] Option.map_eq_some_iff Option.bind_eq_some_iff

theorem look_events {wait : Bool} {p : LookPoint} (h : w.look t s key wait p = some r) :
    r.1.events = w.events := by
  unfold look at h
  grind

theorem write_events {e : Entry} {first : Bool} {p : WritePoint}
    (h : w.write s key e first p = some r) : r.1.events = w.events := by
  unfold write at h
  grind

theorem close_events {p : ClosePoint} (h : w.close s p = some r) : r.1.events = w.events := by
  unfold close at h
  grind

theorem pull_events {p : PullPoint} (h : w.pull f p answer = some r) : r.1.events = w.events := by
  obtain ⟨cell, _, rfl⟩ := Option.map_eq_some_iff.mp h
  grind

theorem read_events {p : ReadPoint} (h : w.read t f answer p = some r) : r.1.events = w.events := by
  unfold read at h
  grind

theorem push_events {v : Value} {p : PushPoint} (h : w.push t f v answer p = some r) :
    r.1.events = w.events ++ (Activity.push f v p).tells w := by
  cases p with
  | emit =>
      obtain ⟨cell, hcell, rfl⟩ := Option.map_eq_some_iff.mp h
      rw [Activity.tells, nameOf?, hcell]
      rfl
  | _ =>
      refine events_silent rfl ?_
      unfold push at h
      grind

theorem demand_events (h : w.demand f = some r) : r.1.events = w.events := by
  unfold demand at h
  grind

theorem call_events {payload : Value} {p : CallPoint}
    (h : w.call t name f payload answer p = some r) : r.1.events = w.events := by
  unfold call at h
  grind

theorem sinksActive_events (h : w.sinksActive f = some r) : r.1.events = w.events := by
  unfold sinksActive at h
  grind

theorem sleep_events {deadline : Nat} (h : w.sleep f deadline = some r) :
    r.1.events = w.events := by
  unfold sleep at h
  grind

theorem advance_events {target : FlowState} {p : AdvancePoint} (h : w.advance f target p = some r) :
    r.1.events = w.events ++ (Activity.advance f target p).tells w := by
  cases p with
  | swap =>
      obtain ⟨cell, _, rfl⟩ := Option.map_eq_some_iff.mp h
      exact events_silent rfl (by split <;> rfl)
  | emit before =>
      obtain ⟨cell, hcell, rfl⟩ := Option.map_eq_some_iff.mp h
      rw [Activity.tells, nameOf?, hcell]
      rfl

theorem interrupt_events {p : InterruptPoint} (h : w.interrupt f p = some r) :
    r.1.events = w.events := by
  unfold interrupt at h
  grind

theorem finish_events {m : Monitor} {p : FinishPoint} (h : w.finish t f m p = some r) :
    r.1.events = w.events := by
  unfold finish at h
  grind

theorem stop_events {p : StopPoint} (h : w.stop f answer p = some r) : r.1.events = w.events := by
  unfold stop at h
  grind

theorem stopAll_events {left : List FlowId} (h : w.stopAll left = some r) :
    r.1.events = w.events := by
  unfold stopAll at h
  grind

theorem drive_events {m : Monitor} {move : MonitorMove} (h : w.drive f m move = some r) :
    r.1.events = w.events ++ (Activity.run f m (.drive move)).tells w := by
  obtain ⟨cell, hcell, h⟩ := Option.bind_eq_some_iff.mp h
  have hname : w.nameOf? f = some cell.name := by rw [nameOf?, hcell]; rfl
  dsimp only at h
  split at h
  case h_3 | h_4 =>
    cases h
    rw [Activity.tells, hname]
    rfl
  case h_8 action wait _ hreport hexit _ _ _ _ =>
    refine events_silent ?_ ?_
    · cases action <;> first | rfl | exact absurd rfl (hreport _) | exact absurd rfl (hexit _)
    · grind
  all_goals
    refine events_silent rfl ?_
    grind

theorem run_events {m : Monitor} {p : RunPoint} (h : w.run t f m answer p = some r) :
    r.1.events = w.events ++ (Activity.run f m p).tells w := by
  cases p with
  | drive move => exact drive_events h
  | fail d =>
      cases d with
      | ok u =>
          cases h
          exact events_silent rfl rfl
      | error e =>
          obtain ⟨cell, hcell, rfl⟩ := Option.map_eq_some_iff.mp h
          rw [Activity.tells, nameOf?, hcell]
          rfl
  | _ =>
      refine events_silent rfl ?_
      unfold run at h
      grind

theorem contextualize_events {p : ContextPoint} (h : w.contextualize f answer p = some r) :
    r.1.events = w.events := by
  unfold contextualize at h
  cases answer <;> grind [unlessFailed]

theorem prepare_events {p : PreparePoint} (h : w.prepare f p = some r) : r.1.events = w.events := by
  unfold prepare at h
  grind

theorem wire_events {inflows : List Outflow} {p : WirePoint} (h : w.wire f inflows p = some r) :
    r.1.events = w.events := by
  unfold wire at h
  grind

theorem launch_events {checked : Bool} (h : w.launch f checked = some r) :
    r.1.events = w.events := by
  unfold launch at h
  grind

theorem awaitStart_events (h : w.awaitStart f = some r) : r.1.events = w.events := by
  unfold awaitStart at h
  grind

theorem join_events (h : w.join f = some r) : r.1.events = w.events := by
  unfold join at h
  grind

theorem joinAll_events {left : List FlowId} {failed : Done} {joining : Bool}
    (h : w.joinAll left failed joining answer = some r) : r.1.events = w.events := by
  unfold joinAll at h
  grind

theorem setUpAll_events {p : SetUpPoint} (h : w.setUpAll answer p = some r) :
    r.1.events = w.events := by
  unfold setUpAll at h
  cases answer <;> grind [unlessFailed]

theorem startAll_events {p : StartPoint} (h : w.startAll answer p = some r) :
    r.1.events = w.events := by
  unfold startAll at h
  grind

theorem runAll_events {p : RunAllPoint} (h : w.runAll answer p = some r) :
    r.1.events = w.events := by
  unfold runAll at h
  grind

end Steps

/-- A step tells what its activity tells at its point. -/
theorem step_events (h : a.step w t answer = some r) : r.1.events = w.events ++ a.tells w := by
  cases a with
  | look s key wait p => exact events_silent rfl (look_events h)
  | write s key e first p => exact events_silent rfl (write_events h)
  | close s p => exact events_silent rfl (close_events h)
  | host request => cases h
  | pull f p => exact events_silent rfl (pull_events h)
  | read f p => exact events_silent rfl (read_events h)
  | push f v p => exact push_events h
  | demand f => exact events_silent rfl (demand_events h)
  | call name f payload p => exact events_silent rfl (call_events h)
  | sinksActive f => exact events_silent rfl (sinksActive_events h)
  | sleep f deadline => exact events_silent rfl (sleep_events h)
  | advance f target p => exact advance_events h
  | interrupt f p => exact events_silent rfl (interrupt_events h)
  | finish f m p => exact events_silent rfl (finish_events h)
  | stop f p => exact events_silent rfl (stop_events h)
  | stopAll left => exact events_silent rfl (stopAll_events h)
  | run f m p => exact run_events h
  | contextualize f p => exact events_silent rfl (contextualize_events h)
  | prepare f p => exact events_silent rfl (prepare_events h)
  | wire f inflows p => exact events_silent rfl (wire_events h)
  | launch f checked => exact events_silent rfl (launch_events h)
  | awaitStart f => exact events_silent rfl (awaitStart_events h)
  | join f => exact events_silent rfl (join_events h)
  | joinAll left failed joining => exact events_silent rfl (joinAll_events h)
  | setUpAll p => exact events_silent rfl (setUpAll_events h)
  | startAll p => exact events_silent rfl (startAll_events h)
  | runAll p => exact events_silent rfl (runAll_events h)

/-- What the turns of a run tell, in their order. -/
def tellings (trace : List Taken) : List Event :=
  trace.reverse.flatMap fun taken => taken.activity.tells taken.before

theorem tellings_cons (taken : Taken) (trace : List Taken) :
    tellings (taken :: trace) = tellings trace ++ taken.activity.tells taken.before := by
  simp [tellings]

/-- Observers are told what the turns of a run tell, and nothing else. -/
theorem Run.events (h : Run start trace w) : w.events = start.events ++ tellings trace := by
  refine h.every (P := fun trace w => w.events = start.events ++ tellings trace)
    (List.append_nil _).symm (fun _ _ _ hw => hw) fun trace w t a rest w₁ turn htakes hw => ?_
  rw [tellings_cons, ← List.append_assoc, ← hw]
  obtain hstep | ⟨r, out, rfl, rfl, rfl⟩ := htakes.does
  · exact step_events hstep
  · exact (List.append_nil _).symm

end World

/-! Deliveries. -/

/-- Whether an event tells of a delivery: what a sink took, or what a monitor reports. -/
def Event.delivers : Event → Bool
  | .sinkPerformed .. | .pullFailed .. | .exitConditionMet .. => true
  | _ => false

/-- What is told of the deliveries of the flow of a name. -/
def deliveries (name : String) (events : List Event) : List Event :=
  events.filter fun e => e.delivers && e.flow == name

/-- What observers of the flow of a name are told of a deed of its monitor. -/
def eventOf? (name : String) : Deed → Option Event
  | .announces v => some (.sinkPerformed name v)
  | .asks (.report e) => some (.pullFailed name e.message)
  | .asks (.reportExit c) => some (.exitConditionMet name c)
  | _ => none

namespace World

variable {w start : World} {t : ThreadId} {f : FlowId} {a : Activity} {answer : Outcome}
  {name : String} {stopped : Bool} {trace : List Taken}

theorem deliveries_named (hname : ∀ g, w.nameOf? g = some name ↔ g = f) {event : String → Event}
    (hdelivers : (event name).delivers = true) (hflow : ∀ n, (event n).flow = n) (g : FlowId) :
    deliveries name ((w.nameOf? g).toList.map event) = if g = f then [event name] else [] := by
  cases hg : w.nameOf? g with
  | none =>
      have hne : g ≠ f := fun hgf => by
        rw [(hname g).mpr hgf] at hg
        cases hg
      rw [if_neg hne]
      rfl
  | some n =>
      by_cases hn : n = name
      · subst hn
        rw [if_pos ((hname g).mp hg)]
        simp [deliveries, hdelivers, hflow]
      · have hne : g ≠ f := fun hgf => by
          rw [(hname g).mpr hgf] at hg
          exact hn (Option.some.inj hg).symm
        rw [if_neg hne]
        simp [deliveries, hflow, hn]

/-- What a turn tells of the deliveries of a flow is what it does for the monitor of the flow. -/
theorem deliveries_tells (hname : ∀ g, w.nameOf? g = some name ↔ g = f) (a : Activity) :
    deliveries name (a.tells w) = ((a.deed? f stopped answer).bind (eventOf? name)).toList := by
  have hother {event : String → Event} (g : FlowId) (hevent : ∀ n, (event n).delivers = false) :
      deliveries name ((w.nameOf? g).toList.map event) = [] := by
    cases w.nameOf? g <;> simp [deliveries, hevent]
  cases a with
  | advance g target p =>
      cases p with
      | swap => rfl
      | emit before => exact hother g fun _ => rfl
  | sleep g deadline =>
      rw [Activity.deed?]
      split <;> rfl
  | push g v p =>
      cases p with
      | emit =>
          rw [Activity.tells, deliveries_named hname rfl fun _ => rfl, Activity.deed?]
          split <;> rfl
      | performed d =>
          rw [Activity.deed?]
          split <;> rfl
      | _ => rfl
  | run g m q =>
      rw [Activity.deed?]
      cases q with
      | drive move =>
          cases move with
          | finish d => split <;> rfl
          | act a wait =>
              cases a with
              | report e | reportExit e =>
                  rw [Activity.tells, deliveries_named hname rfl fun _ => rfl]
                  split <;> rfl
              | _ => split <;> rfl
      | fail d =>
          cases d with
          | ok u => split <;> rfl
          | error e =>
              rw [Activity.tells, hother g fun _ => rfl]
              split <;> rfl
      | _ => split <;> rfl
  | _ => rfl

/-- What is told of the deliveries of a flow tells of the deeds of its monitor, in their order. -/
theorem Run.deliveries (h : Run start trace w) (hname : ∀ g, start.nameOf? g = some name ↔ g = f) :
    deliveries name w.events = deliveries name start.events ++
      (deeds f trace).collected (eventOf? name) := by
  have hall : (∀ g, w.nameOf? g = start.nameOf? g) ∧ Engine.deliveries name (tellings trace) =
      (deeds f trace).collected (eventOf? name) := by
    refine h.every (P := fun trace w => (∀ g, w.nameOf? g = start.nameOf? g) ∧
        Engine.deliveries name (tellings trace) = (deeds f trace).collected (eventOf? name))
      ⟨fun _ => rfl, rfl⟩ (fun _ _ _ hw => hw) fun trace w t a rest w₁ turn htakes hw => ?_
    obtain ⟨hnames, htold⟩ := hw
    have hname (g : FlowId) : w.nameOf? g = some name ↔ g = f := by
      rw [hnames]
      exact hname g
    refine ⟨fun g => (htakes.acts.name g).trans (hnames g), ?_⟩
    have htells : Engine.deliveries name (a.tells w) =
        ((a.deed? f (w.stoppedOf f) (w.answerOf t)).bind (eventOf? name)).toList :=
      deliveries_tells hname a
    rw [tellings_cons, Engine.deliveries, List.filter_append, ← Engine.deliveries,
      ← Engine.deliveries, htold, htells, deeds_cons]
    cases a.deed? f (w.stoppedOf f) (w.answerOf t) with
    | none => exact List.append_nil _
    | some d => exact (Dealings.collected_cons d _ _).symm
  rw [h.events, Engine.deliveries, List.filter_append]
  exact congrArg _ hall.2

end World
end PullFlow.Engine
