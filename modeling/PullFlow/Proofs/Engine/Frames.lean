import PullFlow.Proofs.Engine.Completion
import PullFlow.Proofs.Engine.Effects
import Mathlib.Logic.Relation

/-!
What stands on the stack of a thread. Every activity asks only for few others, each at its first
point, and goes on at a point of its own. So of any two neighbours on a stack the lower one is at a
point at which it waits for the upper one.
-/

namespace PullFlow.Engine

open Relation

/-- Calls that threads come with from outside, at their first point. -/
def Activity.begins : Activity → Bool
  | .look _ _ _ (.search _) | .write _ _ _ _ (.seek _) | .close _ .mark => true
  | .demand _ | .call _ _ _ .latch | .stop _ .begin | .stopAll _ => true
  | .contextualize _ .check | .prepare _ .check | .wire _ _ .check | .launch _ false => true
  | .awaitStart _ | .join _ | .joinAll _ _ false => true
  | .setUpAll (.context _) | .startAll (.launch _) | .runAll .begin => true
  | _ => false

/-- What a component may ask for. -/
def Activity.requested : Activity → Bool
  | .look .. | .write .. | .host _ | .demand _ | .call _ _ _ .latch | .stopAll _ => true
  | _ => false

/-- What waits for a flow to be moved to a state. -/
inductive Mover (f : FlowId) : FlowState → Activity → Prop
  | context : Mover f .context (.contextualize f .advanced)
  | setUp : Mover f .setup (.prepare f .advanced)
  | wire {inflows : List Outflow} : Mover f .wired (.wire f inflows .advanced)
  | start {m : Monitor} : Mover f .started (.run f m .advanced)
  | stop : Mover f .ending (.stop f .advanced)
  | run {m : Monitor} {d : Done} : Mover f .ending (.run f m (.interrupt d))
  | finish {m : Monitor} : Mover f .ended (.finish f m .announced)

namespace Activity

/-- `Asks back callee` says that `back` waits for `callee`, which is to begin. -/
inductive Asks : Activity → Activity → Prop
  | chain {f : FlowId} {p : PullPoint} {a : Activity} : a.requested = true → Asks (.pull f p) a
  | sink {f : FlowId} {v : Value} {wait : SinkWait} {a : Activity} : a.requested = true →
      Asks (.push f v (.serving wait)) a
  | read {f : FlowId} : Asks (.read f .pulled) (.pull f .enter)
  | call {name : String} {f : FlowId} {payload : Value} :
      Asks (.call name f payload .pulled) (.pull f .enter)
  | move {f : FlowId} {target : FlowState} {a : Activity} : Mover f target a →
      Asks a (.advance f target .swap)
  | close {f : FlowId} {s : ScopeId} : Asks (.interrupt f .latch) (.close s .mark)
  | stopRelease {f : FlowId} : Asks (.stop f .interrupted) (.interrupt f .sleeper)
  | runRelease {f : FlowId} {m : Monitor} {d : Done} :
      Asks (.run f m (.finish d)) (.interrupt f .sleeper)
  | stopFinish {f : FlowId} {m : Monitor} : Asks (.stop f .finished) (.finish f m .monitor)
  | runFinish {f : FlowId} {m : Monitor} {d : Done} :
      Asks (.run f m (.finished d)) (.finish f m .monitor)
  | stopNext {f : FlowId} {left : List FlowId} : Asks (.stopAll left) (.stop f .begin)
  | runRead {f : FlowId} {m : Monitor} {wait : MonitorWait} :
      Asks (.run f m (.acting wait)) (.read f .lock)
  | runPush {f : FlowId} {m : Monitor} {wait : MonitorWait} {v : Value} :
      Asks (.run f m (.acting wait)) (.push f v .lock)
  | runSleep {f : FlowId} {m : Monitor} {wait : MonitorWait} {deadline : Nat} :
      Asks (.run f m (.acting wait)) (.sleep f deadline)
  | runSinks {f : FlowId} {m : Monitor} {wait : MonitorWait} :
      Asks (.run f m (.acting wait)) (.sinksActive f)
  | place {f : FlowId} {p : ContextPoint} {s : ScopeId} {key : String} {e : Entry} {first : Bool}
      {q : WritePoint} : Asks (.contextualize f p) (.write s key e first q)
  | joinNext {f : FlowId} {left : List FlowId} {failed : Done} {joining : Bool} :
      Asks (.joinAll left failed joining) (.join f)
  | context {f : FlowId} {p : SetUpPoint} : Asks (.setUpAll p) (.contextualize f .check)
  | prepare {f : FlowId} {p : SetUpPoint} : Asks (.setUpAll p) (.prepare f .check)
  | wire {f : FlowId} {inflows : List Outflow} {p : SetUpPoint} :
      Asks (.setUpAll p) (.wire f inflows .check)
  | launch {f : FlowId} {p : StartPoint} : Asks (.startAll p) (.launch f false)
  | await {f : FlowId} {p : StartPoint} : Asks (.startAll p) (.awaitStart f)
  | joinAll {left : List FlowId} {failed : Done} {p : StartPoint} :
      Asks (.startAll p) (.joinAll left failed false)
  | startStop {left : List FlowId} {p : StartPoint} : Asks (.startAll p) (.stopAll left)
  | setUp {left : List FlowId} {p : RunAllPoint} : Asks (.runAll p) (.setUpAll (.context left))
  | runStop {left : List FlowId} {p : RunAllPoint} : Asks (.runAll p) (.stopAll left)

/-- `Continues a b` says that `a` may go on as `b`. -/
inductive Continues : Activity → Activity → Prop
  | look {s : ScopeId} {key : String} {wait : Bool} {p q : LookPoint} :
      Continues (.look s key wait p) (.look s key wait q)
  | write {s : ScopeId} {key : String} {e : Entry} {first : Bool} {p q : WritePoint} :
      Continues (.write s key e first p) (.write s key e first q)
  | close {s : ScopeId} {p q : ClosePoint} : Continues (.close s p) (.close s q)
  | host {r : HostRequest} : Continues (.host r) (.host r)
  | pull {f : FlowId} {p q : PullPoint} : Continues (.pull f p) (.pull f q)
  | read {f : FlowId} {p q : ReadPoint} : Continues (.read f p) (.read f q)
  | push {f : FlowId} {v : Value} {p q : PushPoint} : Continues (.push f v p) (.push f v q)
  | wait {f : FlowId} : Continues (.demand f) (.demand f)
  | demand {f : FlowId} : Continues (.demand f) (.read f .lock)
  | call {name : String} {f : FlowId} {payload : Value} {p q : CallPoint} :
      Continues (.call name f payload p) (.call name f payload q)
  | sinks {f : FlowId} : Continues (.sinksActive f) (.sinksActive f)
  | sleep {f : FlowId} {deadline : Nat} : Continues (.sleep f deadline) (.sleep f deadline)
  | advance {f : FlowId} {target : FlowState} {p q : AdvancePoint} :
      Continues (.advance f target p) (.advance f target q)
  | interrupt {f : FlowId} {p q : InterruptPoint} : Continues (.interrupt f p) (.interrupt f q)
  | finish {f : FlowId} {m m' : Monitor} {p q : FinishPoint} :
      Continues (.finish f m p) (.finish f m' q)
  | stop {f : FlowId} {p q : StopPoint} : Continues (.stop f p) (.stop f q)
  | stopAll {left left' : List FlowId} : Continues (.stopAll left) (.stopAll left')
  | run {f : FlowId} {m m' : Monitor} {p q : RunPoint} : Continues (.run f m p) (.run f m' q)
  | contextualize {f : FlowId} {p q : ContextPoint} :
      Continues (.contextualize f p) (.contextualize f q)
  | prepare {f : FlowId} {p q : PreparePoint} : Continues (.prepare f p) (.prepare f q)
  | wire {f : FlowId} {inflows : List Outflow} {p q : WirePoint} :
      Continues (.wire f inflows p) (.wire f inflows q)
  | check {f : FlowId} {checked : Bool} : Continues (.launch f checked) (.launch f true)
  | launch {f : FlowId} {m : Monitor} : Continues (.launch f true) (.run f m .lock)
  | await {f : FlowId} : Continues (.awaitStart f) (.awaitStart f)
  | join {f : FlowId} : Continues (.join f) (.join f)
  | joinAll {left left' : List FlowId} {failed failed' : Done} {joining joining' : Bool} :
      Continues (.joinAll left failed joining) (.joinAll left' failed' joining')
  | setUpAll {p q : SetUpPoint} : Continues (.setUpAll p) (.setUpAll q)
  | startAll {p q : StartPoint} : Continues (.startAll p) (.startAll q)
  | runAll {p q : RunAllPoint} : Continues (.runAll p) (.runAll q)
  | ready {p : RunAllPoint} {q : StartPoint} : Continues (.runAll p) (.startAll q)

end Activity

open Activity

/-- A turn leaves on top an activity that goes on, with one that it asks for first. -/
def Turn.Stacks (a : Activity) : Turn → Prop
  | .goto b _ => a.Continues b
  | .invoke callee back => back.Asks callee ∧ a.Continues back
  | .exit _ => True

namespace World

variable {w : World} {t : ThreadId} {f : FlowId} {a back : Activity} {answer : Outcome}
  {r : World × Turn} {turn : Turn} {rest : List Activity}

theorem look_stacks {s : ScopeId} {key : String} {wait : Bool} {p : LookPoint}
    (h : w.look t s key wait p = some r) : r.2.Stacks (.look s key wait p) := by
  unfold look at h
  split at h
  · cases h
    exact trivial
  · split at h <;> cases h
    · exact .look
    · exact trivial
  · cases h
    exact .look
  · obtain ⟨w₁, _, rfl⟩ := Option.map_eq_some_iff.mp h
    exact .look
  · cases h
    exact trivial
  · cases h
    exact .look
  · cases h
    exact .look
  · split at h <;> cases h
    · exact trivial
    · exact .look
  · cases h

theorem write_stacks {s : ScopeId} {key : String} {e : Entry} {first : Bool} {p : WritePoint}
    (h : w.write s key e first p = some r) : r.2.Stacks (.write s key e first p) := by
  unfold write at h
  split at h
  · cases h
    exact trivial
  · cases h
    exact .write
  · cases h
    exact .write
  · dsimp only at h
    split at h
    · split at h <;> cases h
      · exact trivial
      · exact .write
    · cases h
      exact trivial
  · split at h <;> cases h
    exact trivial

theorem close_stacks {s : ScopeId} {p : ClosePoint} (h : w.close s p = some r) :
    r.2.Stacks (.close s p) := by
  cases p with
  | mark =>
      cases h
      exact .close
  | wake =>
      simp only [World.close] at h
      split at h <;> cases h
      exact trivial

/-- What serves a request of a component. -/
theorem serve_stacks (request : Request)
    (hasks : ∀ callee : Activity, callee.requested = true → back.Asks callee)
    (hback : a.Continues back) : (w.serve request back).2.Stacks a := by
  unfold serve
  split
  · refine ⟨hasks _ ?_, hback⟩
    unfold lookFor
    rfl
  · refine ⟨hasks _ ?_, hback⟩
    unfold writeTo
    rfl
  · exact ⟨hasks _ rfl, hback⟩
  · split
    · exact ⟨hasks _ rfl, hback⟩
    · exact hback
  · exact ⟨hasks _ rfl, hback⟩
  · split
    · exact ⟨hasks _ rfl, hback⟩
    · exact hback
  · exact hback

theorem pull_stacks {p : PullPoint} (h : w.pull f p answer = some r) :
    r.2.Stacks (.pull f p) := by
  obtain ⟨cell, _, rfl⟩ := Option.map_eq_some_iff.mp h
  dsimp only
  split
  · exact .pull
  · exact serve_stacks _ (fun _ => .chain) .pull
  · exact trivial

theorem startPull_stacks (hasks : back.Asks (.pull f .enter)) (hback : a.Continues back)
    (h : w.startPull f back = some r) : r.2.Stacks a := by
  obtain ⟨cell, _, rfl⟩ := Option.map_eq_some_iff.mp h
  split
  · exact hback
  · exact ⟨hasks, hback⟩

theorem read_stacks {p : ReadPoint} (h : w.read t f answer p = some r) :
    r.2.Stacks (.read f p) := by
  cases p with
  | lock =>
      obtain ⟨w₁, _, rfl⟩ := Option.map_eq_some_iff.mp h
      exact .read
  | start => exact startPull_stacks .read .read h
  | unlock out =>
      cases h
      exact trivial
  | pulled =>
      cases h
      exact .read

theorem afterSink_stacks {v : Value} {cell : FlowCell} {p : PushPoint} (m : SinkBody × SinkMove) :
    (w.afterSink f v cell m).2.Stacks (.push f v p) := by
  unfold afterSink
  dsimp only
  split
  · exact .push
  · exact serve_stacks _ (fun _ => .sink) .push

theorem push_stacks {v : Value} {p : PushPoint} (h : w.push t f v answer p = some r) :
    r.2.Stacks (.push f v p) := by
  cases p with
  | lock =>
      obtain ⟨w₁, _, rfl⟩ := Option.map_eq_some_iff.mp h
      exact .push
  | begin | serving =>
      obtain ⟨cell, _, rfl⟩ := Option.map_eq_some_iff.mp h
      exact afterSink_stacks _
  | performed d =>
      cases d <;> cases h
      · exact trivial
      · exact .push
  | emit =>
      obtain ⟨cell, _, rfl⟩ := Option.map_eq_some_iff.mp h
      exact trivial

theorem demand_stacks (h : w.demand f = some r) : r.2.Stacks (.demand f) := by
  obtain ⟨cell, _, h⟩ := Option.bind_eq_some_iff.mp h
  split at h <;> cases h
  exact .demand

theorem call_stacks {name : String} {payload : Value} {p : CallPoint}
    (h : w.call t name f payload answer p = some r) : r.2.Stacks (.call name f payload p) := by
  cases p with
  | latch =>
      obtain ⟨cell, _, h⟩ := Option.bind_eq_some_iff.mp h
      split at h <;> cases h
      exact .call
  | enter =>
      obtain ⟨th, _, rfl⟩ := Option.map_eq_some_iff.mp h
      split
      · exact trivial
      · exact .call
  | lock =>
      obtain ⟨w₁, _, rfl⟩ := Option.map_eq_some_iff.mp h
      exact .call
  | inject => exact startPull_stacks .call .call h
  | pulled | clear | unlock =>
      cases h
      exact .call
  | leave =>
      cases h
      exact trivial

theorem sinksActive_stacks (h : w.sinksActive f = some r) : r.2.Stacks (.sinksActive f) := by
  obtain ⟨cell, _, h⟩ := Option.bind_eq_some_iff.mp h
  split at h <;> cases h
  exact trivial

theorem sleep_stacks {deadline : Nat} (h : w.sleep f deadline = some r) :
    r.2.Stacks (.sleep f deadline) := by
  obtain ⟨cell, _, h⟩ := Option.bind_eq_some_iff.mp h
  split at h
  · cases h
    exact trivial
  · split at h <;> cases h
    exact trivial

theorem advance_stacks {target : FlowState} {p : AdvancePoint} (h : w.advance f target p = some r) :
    r.2.Stacks (.advance f target p) := by
  cases p with
  | swap =>
      obtain ⟨cell, _, rfl⟩ := Option.map_eq_some_iff.mp h
      split
      · exact .advance
      · exact trivial
  | emit before =>
      obtain ⟨cell, _, rfl⟩ := Option.map_eq_some_iff.mp h
      exact trivial

theorem interrupt_stacks {p : InterruptPoint} (h : w.interrupt f p = some r) :
    r.2.Stacks (.interrupt f p) := by
  cases p with
  | sleeper =>
      cases h
      exact .interrupt
  | close =>
      obtain ⟨cell, _, rfl⟩ := Option.map_eq_some_iff.mp h
      split
      · exact ⟨.close, .interrupt⟩
      · exact .interrupt
  | latch =>
      cases h
      exact trivial

theorem finish_stacks {m : Monitor} {p : FinishPoint} (h : w.finish t f m p = some r) :
    r.2.Stacks (.finish f m p) := by
  cases p with
  | monitor =>
      cases h
      exact .finish
  | lock =>
      obtain ⟨w₁, _, rfl⟩ := Option.map_eq_some_iff.mp h
      exact .finish
  | components =>
      obtain ⟨cell, _, rfl⟩ := Option.map_eq_some_iff.mp h
      exact .finish
  | ended =>
      cases h
      exact ⟨.move .finish, .finish⟩
  | announced =>
      cases h
      exact trivial

theorem stop_stacks {p : StopPoint} (h : w.stop f answer p = some r) : r.2.Stacks (.stop f p) := by
  cases p with
  | begin =>
      cases h
      exact ⟨.move .stop, .stop⟩
  | advanced =>
      cases h
      cases MonitorBody.yes answer with
      | true => exact ⟨.stopRelease, .stop⟩
      | false => exact trivial
  | interrupted =>
      obtain ⟨cell, _, rfl⟩ := Option.map_eq_some_iff.mp h
      split
      · exact ⟨.stopFinish, .stop⟩
      · exact trivial
  | finished =>
      cases h
      exact trivial

theorem stopAll_stacks {left : List FlowId} (h : w.stopAll left = some r) :
    r.2.Stacks (.stopAll left) := by
  cases left <;> cases h
  · exact trivial
  · exact ⟨.stopNext, .stopAll⟩

theorem drive_stacks {m : Monitor} {move : MonitorMove} (h : w.drive f m move = some r) :
    r.2.Stacks (.run f m (.drive move)) := by
  obtain ⟨cell, _, h⟩ := Option.bind_eq_some_iff.mp h
  dsimp only at h
  split at h
  · cases h
    exact .run
  · cases h
    exact .run
  · cases h
    exact .run
  · cases h
    exact .run
  · cases h
    exact .run
  · cases h
    exact .run
  · split at h <;> cases h
    exact .run
  · obtain ⟨b, hb, rfl⟩ := Option.map_eq_some_iff.mp h
    refine ⟨?_, .run⟩
    unfold actionOf? at hb
    split at hb <;> cases hb
    · exact .runRead
    · exact .runPush
    · exact .runSleep
    · exact .runSinks

theorem run_stacks {m : Monitor} {p : RunPoint} (h : w.run t f m answer p = some r) :
    r.2.Stacks (.run f m p) := by
  cases p with
  | lock =>
      obtain ⟨w₁, _, rfl⟩ := Option.map_eq_some_iff.mp h
      exact .run
  | advance =>
      cases h
      exact ⟨.move .start, .run⟩
  | start =>
      obtain ⟨cell, _, rfl⟩ := Option.map_eq_some_iff.mp h
      exact .run
  | abandoned | finish _ =>
      cases h
      exact ⟨.runFinish, .run⟩
  | drive move => exact drive_stacks h
  | fail d =>
      cases d with
      | ok u =>
          cases h
          exact .run
      | error e =>
          obtain ⟨cell, _, rfl⟩ := Option.map_eq_some_iff.mp h
          exact .run
  | decide d =>
      simp only [World.run, Option.some.injEq] at h
      subst h
      split <;> split <;> exact .run
  | ending d =>
      cases h
      exact ⟨.move .run, .run⟩
  | interrupt d =>
      cases h
      cases MonitorBody.yes answer with
      | true => exact ⟨.runRelease, .run⟩
      | false => exact .run
  | parked d =>
      simp only [World.run, Option.some.injEq] at h
      subst h
      split
      · exact .run
      · exact trivial
  | retake d =>
      obtain ⟨cell, _, rfl⟩ := Option.map_eq_some_iff.mp h
      split
      · exact ⟨.runFinish, .run⟩
      · exact trivial
  | advanced | release | abandon | monitor | acting _ | judge _ | park _ =>
      cases h
      exact .run
  | finished d =>
      cases h
      exact trivial

theorem checkState_stacks {state : FlowState} {next : Activity} (hnext : a.Continues next)
    (h : w.checkState f state next = some r) : r.2.Stacks a := by
  obtain ⟨cell, _, rfl⟩ := Option.map_eq_some_iff.mp h
  split
  · exact hnext
  · exact trivial

theorem unlessFailed_stacks {next : World × Turn} (h : next.2.Stacks a) :
    (w.unlessFailed answer next).2.Stacks a := by
  cases answer with
  | ok v => exact h
  | error e => exact trivial

theorem afterHook_stacks {next : Activity} (hnext : a.Continues next) (k : HookEnd FlowCell) :
    (w.afterHook f k next).2.Stacks a := by
  unfold afterHook
  dsimp only
  split
  · exact hnext
  · exact trivial

theorem onPipeline_stacks {hook : Pipeline → HookEnd Pipeline} {next : Activity}
    (hnext : a.Continues next) (h : w.onPipeline f hook next = some r) : r.2.Stacks a := by
  obtain ⟨cell, _, h⟩ := Option.bind_eq_some_iff.mp h
  split at h <;> cases h
  exact afterHook_stacks hnext _

theorem contextualize_stacks {p : ContextPoint} (h : w.contextualize f answer p = some r) :
    r.2.Stacks (.contextualize f p) := by
  cases p with
  | check => exact checkState_stacks .contextualize h
  | child =>
      cases h
      exact ⟨.place, .contextualize⟩
  | «global» scope =>
      obtain ⟨cell, _, rfl⟩ := Option.map_eq_some_iff.mp h
      exact unlessFailed_stacks ⟨.place, .contextualize⟩
  | named scope =>
      cases h
      exact unlessFailed_stacks .contextualize
  | attach scope =>
      obtain ⟨cell, _, h⟩ := Option.bind_eq_some_iff.mp h
      exact onPipeline_stacks .contextualize h
  | monitor scope =>
      obtain ⟨cell, _, rfl⟩ := Option.map_eq_some_iff.mp h
      exact afterHook_stacks .contextualize _
  | record scope =>
      cases h
      exact .contextualize
  | advance =>
      cases h
      exact ⟨.move .context, .contextualize⟩
  | advanced =>
      cases h
      exact trivial

theorem prepare_stacks {p : PreparePoint} (h : w.prepare f p = some r) :
    r.2.Stacks (.prepare f p) := by
  cases p with
  | check => exact checkState_stacks .prepare h
  | components => exact onPipeline_stacks .prepare h
  | monitor =>
      obtain ⟨cell, _, rfl⟩ := Option.map_eq_some_iff.mp h
      exact afterHook_stacks .prepare _
  | advance =>
      cases h
      exact ⟨.move .setUp, .prepare⟩
  | advanced =>
      cases h
      exact trivial

theorem wire_stacks {inflows : List Outflow} {p : WirePoint} (h : w.wire f inflows p = some r) :
    r.2.Stacks (.wire f inflows p) := by
  cases p with
  | check => exact checkState_stacks .wire h
  | source => exact onPipeline_stacks .wire h
  | advance =>
      cases h
      exact ⟨.move .wire, .wire⟩
  | advanced =>
      cases h
      exact trivial

theorem setUpAll_stacks {p : SetUpPoint} (h : w.setUpAll answer p = some r) :
    r.2.Stacks (.setUpAll p) := by
  unfold setUpAll at h
  cases p with
  | context left =>
      cases left <;> cases h
      · exact unlessFailed_stacks .setUpAll
      · exact unlessFailed_stacks ⟨.context, .setUpAll⟩
  | prepare left =>
      cases left <;> cases h
      · exact unlessFailed_stacks .setUpAll
      · exact unlessFailed_stacks ⟨.prepare, .setUpAll⟩
  | gather left done =>
      cases left with
      | nil =>
          cases h
          exact unlessFailed_stacks .setUpAll
      | cons flow left =>
          obtain ⟨more, _, h⟩ := Option.bind_eq_some_iff.mp h
          cases h
          exact unlessFailed_stacks .setUpAll
  | wire left all =>
      cases left with
      | nil =>
          cases h
          exact unlessFailed_stacks trivial
      | cons flow left =>
          obtain ⟨cell, _, h⟩ := Option.bind_eq_some_iff.mp h
          cases h
          exact unlessFailed_stacks ⟨.wire, .setUpAll⟩

theorem launch_stacks {checked : Bool} (h : w.launch f checked = some r) :
    r.2.Stacks (.launch f checked) := by
  obtain ⟨cell, _, rfl⟩ := Option.map_eq_some_iff.mp h
  cases checked with
  | false =>
      simp only [Bool.false_eq_true, if_false]
      split
      · exact .check
      · exact trivial
  | true =>
      simp only [if_true]
      split
      · exact trivial
      · split
        · exact trivial
        · exact .launch

theorem awaitStart_stacks (h : w.awaitStart f = some r) : r.2.Stacks (.awaitStart f) := by
  obtain ⟨cell, _, h⟩ := Option.bind_eq_some_iff.mp h
  split at h <;> cases h
  exact trivial

theorem join_stacks (h : w.join f = some r) : r.2.Stacks (.join f) := by
  obtain ⟨cell, _, h⟩ := Option.bind_eq_some_iff.mp h
  split at h
  · cases h
    exact trivial
  · obtain ⟨th, _, h⟩ := Option.bind_eq_some_iff.mp h
    obtain ⟨out, _, rfl⟩ := Option.map_eq_some_iff.mp h
    exact trivial

theorem joinAll_stacks {left : List FlowId} {failed : Done} {joining : Bool}
    (h : w.joinAll left failed joining answer = some r) :
    r.2.Stacks (.joinAll left failed joining) := by
  cases left <;> cases h
  · exact trivial
  · exact ⟨.joinNext, .joinAll⟩

theorem startAll_stacks {p : StartPoint} (h : w.startAll answer p = some r) :
    r.2.Stacks (.startAll p) := by
  unfold startAll at h
  cases p with
  | launch left =>
      cases left <;> cases h
      · exact .startAll
      · exact ⟨.launch, .startAll⟩
  | await left =>
      cases left <;> cases h
      · exact .startAll
      · exact ⟨.await, .startAll⟩
  | launched left =>
      cases answer <;> cases h
      · exact ⟨.startStop, .startAll⟩
      · exact .startAll
  | abort | join =>
      cases h
      exact ⟨.joinAll, .startAll⟩
  | joined =>
      cases h
      exact ⟨.startStop, .startAll⟩
  | aborted | stopped =>
      cases h
      exact trivial

theorem runAll_stacks {p : RunAllPoint} (h : w.runAll answer p = some r) :
    r.2.Stacks (.runAll p) := by
  cases p with
  | begin =>
      cases h
      exact ⟨.setUp, .runAll⟩
  | ready =>
      cases answer <;> cases h
      · exact ⟨.runStop, .runAll⟩
      · exact .ready
  | stopped =>
      cases h
      exact trivial

/-- Every step leaves an activity that goes on, with one that it asks for first. -/
theorem step_stacks (h : a.step w t answer = some r) : r.2.Stacks a := by
  cases a with
  | look s key wait p => exact look_stacks h
  | write s key e first p => exact write_stacks h
  | close s p => exact close_stacks h
  | host request => cases h
  | pull f p => exact pull_stacks h
  | read f p => exact read_stacks h
  | push f v p => exact push_stacks h
  | demand f => exact demand_stacks h
  | call name f payload p => exact call_stacks h
  | sinksActive f => exact sinksActive_stacks h
  | sleep f deadline => exact sleep_stacks h
  | advance f target p => exact advance_stacks h
  | interrupt f p => exact interrupt_stacks h
  | finish f m p => exact finish_stacks h
  | stop f p => exact stop_stacks h
  | stopAll left => exact stopAll_stacks h
  | run f m p => exact run_stacks h
  | contextualize f p => exact contextualize_stacks h
  | prepare f p => exact prepare_stacks h
  | wire f inflows p => exact wire_stacks h
  | launch f checked => exact launch_stacks h
  | awaitStart f => exact awaitStart_stacks h
  | join f => exact join_stacks h
  | joinAll left failed joining => exact joinAll_stacks h
  | setUpAll p => exact setUpAll_stacks h
  | startAll p => exact startAll_stacks h
  | runAll p => exact runAll_stacks h

end World

/-! Neighbours on a stack. -/

/-- What waits for an activity, which may have gone on since it was asked for. -/
def Awaits (back a : Activity) : Prop :=
  ∃ callee : Activity, back.Asks callee ∧ ReflTransGen Continues callee a

/-- An activity that a thread came with, or was started for. -/
def Brought (a : Activity) : Prop :=
  ∃ first : Activity, (first.begins = true ∨ ∃ f m, first = .run f m .lock) ∧
    ReflTransGen Continues first a

/-- Each activity of a stack waits for the one above it, and the thread has brought the last one. -/
inductive Stacked : List Activity → Prop
  | nil : Stacked []
  | last {a : Activity} : Brought a → Stacked [a]
  | cons {a back : Activity} {rest : List Activity} : Awaits back a → Stacked (back :: rest) →
      Stacked (a :: back :: rest)

section Neighbours

variable {a b back : Activity} {f : FlowId} {rest : List Activity} {turn : Turn}

/-- A frame that is not the activity going on is asked for. -/
theorem Turn.Stacks.of_mem (h : turn.Stacks a) (hb : b ∈ turn.frames) :
    a.Continues b ∨ ∃ back ∈ turn.frames, back.Asks b ∧ a.Continues back := by
  cases turn with
  | goto c out => exact .inl (List.mem_singleton.mp hb ▸ h)
  | invoke callee back =>
      obtain rfl | hb := List.mem_cons.mp hb
      · exact .inr ⟨back, List.mem_cons_of_mem _ List.mem_cons_self, h⟩
      · exact .inl (List.mem_singleton.mp hb ▸ h.2)
  | exit out => cases hb

/-- Only reads of variables look different without their point. -/
theorem eq_of_quiet_eq (h : b = quiet a) (hb : ∀ s key wait p, b ≠ .look s key wait p) : b = a := by
  cases a with
  | look s key wait p => exact absurd h (hb s key wait _)
  | _ => exact h

/-- What a thread has come with, other than a read of a variable, is where it begins. -/
theorem begins_of_quiet (h : ∃ a : Activity, a.begins = true ∧ b = quiet a)
    (hb : ∀ s key wait p, b ≠ .look s key wait p) : b.begins = true := by
  obtain ⟨a, ha, hsame⟩ := h
  rw [eq_of_quiet_eq hsame hb]
  exact ha

theorem Activity.Continues.quiet (h : a.Continues b) : (quiet a).Continues (quiet b) := by
  cases h <;> constructor

theorem Activity.Asks.quiet (h : back.Asks a) : (quiet back).Asks (quiet a) := by
  cases h with
  | chain hr | sink hr =>
      refine by constructor; cases a <;> exact hr
  | move hmover => cases hmover <;> exact .move (by constructor)
  | _ => constructor

theorem Awaits.continues (h : Awaits back a) (hb : a.Continues b) : Awaits back b := by
  obtain ⟨callee, hasks, hleads⟩ := h
  exact ⟨callee, hasks, hleads.tail hb⟩

theorem Activity.Asks.awaits (h : back.Asks a) : Awaits back a := ⟨a, h, .refl⟩

theorem Brought.continues (h : Brought a) (hb : a.Continues b) : Brought b := by
  obtain ⟨first, hfirst, hleads⟩ := h
  exact ⟨first, hfirst, hleads.tail hb⟩

theorem brought_of_begins (h : a.begins = true) : Brought (quiet a) := by
  refine ⟨a, .inl h, ?_⟩
  cases a <;> first | exact .refl | exact .single .look

namespace Stacked

theorem tail (h : Stacked (a :: rest)) : Stacked rest := by
  cases h with
  | last _ => exact .nil
  | cons _ hrest => exact hrest

theorem of_append {front : List Activity} (h : Stacked (front ++ rest)) : Stacked rest := by
  induction front with
  | nil => exact h
  | cons a front ih => exact ih h.tail

theorem continues (h : Stacked (a :: rest)) (hb : a.Continues b) : Stacked (b :: rest) := by
  cases h with
  | last hbrought => exact .last (hbrought.continues hb)
  | cons hawaits hrest => exact .cons (hawaits.continues hb) hrest

theorem after (h : Stacked (quiet a :: rest)) (hturn : turn.Stacks a) :
    Stacked (turn.frames.map quiet ++ rest) := by
  cases turn with
  | goto b out => exact h.continues (Continues.quiet hturn)
  | invoke callee back =>
      exact .cons (Asks.quiet hturn.1).awaits (h.continues (Continues.quiet hturn.2))
  | exit out => exact h.tail

end Stacked

/-! What waits for an activity of a sort. -/

/-- A sort of activity that others do not go over to. -/
theorem sort_of_leads {P : Activity → Prop} (hsort : ∀ a b, Continues a b → P b → P a)
    (h : ReflTransGen Continues a b) (hb : P b) : P a := by
  induction h using ReflTransGen.head_induction_on with
  | refl => exact hb
  | head hfirst _ ih => exact hsort _ _ hfirst ih

/-- An activity of a sort that no thread comes with has one below it that asked for it. -/
theorem Stacked.asked {P : Activity → Prop} (h : Stacked (a :: rest))
    (hsort : ∀ a b, Continues a b → P b → P a) (ha : P a)
    (hbegins : ∀ b, P b → b.begins = false) (hrun : ∀ f m, ¬ P (.run f m .lock)) :
    ∃ back below callee, rest = back :: below ∧ back.Asks callee ∧ P callee := by
  cases h with
  | last hbrought =>
      obtain ⟨first, hfirst, hleads⟩ := hbrought
      have hP := sort_of_leads hsort hleads ha
      obtain hb | ⟨f, m, rfl⟩ := hfirst
      · rw [hbegins first hP] at hb
        cases hb
      · exact absurd hP (hrun f m)
  | cons hawaits _ =>
      obtain ⟨callee, hasks, hleads⟩ := hawaits
      exact ⟨_, _, callee, rfl, hasks, sort_of_leads hsort hleads ha⟩

theorem Stacked.advance {target : FlowState} {p : AdvancePoint}
    (h : Stacked (.advance f target p :: rest)) :
    ∃ back below, rest = back :: below ∧ Mover f target back := by
  obtain ⟨back, below, callee, rfl, hasks, q, rfl⟩ :=
    h.asked (P := fun a => ∃ q, a = .advance f target q) (by
      rintro a b hab ⟨q, rfl⟩
      cases hab
      exact ⟨_, rfl⟩) ⟨p, rfl⟩ (by rintro _ ⟨q, rfl⟩; rfl) (by rintro g m ⟨q, hsame⟩; cases hsame)
  refine ⟨back, below, rfl, ?_⟩
  cases hasks with
  | chain hr | sink hr => cases hr
  | move hmover => exact hmover

/-- Above a run that asks for its start there is nothing but the change of state. -/
theorem Stacked.summons {m : Monitor} (h : Stacked (a :: rest))
    (hmem : .run f m .advanced ∈ rest) :
    (∃ p, a = .advance f .started p) ∧ ∃ below, rest = .run f m .advanced :: below := by
  induction rest generalizing a with
  | nil => cases hmem
  | cons back below ih =>
      cases h with
      | cons hawaits hrest =>
      obtain ⟨callee, hasks, hleads⟩ := hawaits
      obtain rfl | hmem := List.mem_cons.mp hmem
      · refine ⟨?_, below, rfl⟩
        cases hasks with
        | move hmover =>
            cases hmover
            induction hleads with
            | refl => exact ⟨_, rfl⟩
            | tail _ hlast ih =>
                obtain ⟨q, rfl⟩ := ih
                cases hlast
                exact ⟨_, rfl⟩
      · obtain ⟨⟨p, rfl⟩, _⟩ := ih hrest hmem
        cases hasks with
        | move hmover => cases hmover

/-- A chain is evaluated by a read or by a call. -/
theorem Stacked.pull {p : PullPoint} (h : Stacked (.pull f p :: rest)) : ∃ below,
    rest = .read f .pulled :: below ∨ ∃ name payload, rest = .call name f payload .pulled :: below := by
  obtain ⟨back, below, callee, rfl, hasks, q, rfl⟩ :=
    h.asked (P := fun a => ∃ q, a = .pull f q) (by
      rintro a b hab ⟨q, rfl⟩
      cases hab
      exact ⟨_, rfl⟩) ⟨p, rfl⟩ (by rintro _ ⟨q, rfl⟩; rfl) (by rintro g m ⟨q, hsame⟩; cases hsame)
  refine ⟨below, ?_⟩
  cases hasks with
  | chain hr | sink hr => cases hr
  | read => exact .inl rfl
  | call => exact .inr ⟨_, _, rfl⟩

end Neighbours

namespace World

variable {start w w₁ : World} {trace : List Taken} {t u : ThreadId} {a : Activity}
  {rest : List Activity} {turn : Turn}

theorem Takes.stacks (h : Takes w t a rest w₁ turn) : turn.Stacks a := by
  obtain hstep | ⟨_, _, _, _, rfl⟩ := h.does
  · exact step_stacks hstep
  · exact trivial

theorem Takes.stacked (h : Takes w t a rest w₁ turn) (hstacked : ∀ u, Stacked (w.tasks u))
    (u : ThreadId) : Stacked ((w₁.turn t turn).tasks u) := by
  by_cases hu : u = t
  · subst hu
    rw [h.goes.tasks_self]
    exact (h.goes.tasks ▸ hstacked u).after h.stacks
  · obtain hsame | ⟨_, f, m, _, _, hnew⟩ := h.goes.tasks_of_ne hu
    · rw [hsame]
      exact hstacked u
    · rw [hnew]
      exact .last ⟨_, .inr ⟨f, m, rfl⟩, .refl⟩

/-- How an activity comes to be on top of a thread that takes a turn: it goes on there, or it was asked
for, or the one above it is over. -/
theorem Takes.top_of (h : Takes w t a rest w₁ turn) {b : Activity} {below : List Activity}
    (hb : (w₁.turn t turn).tasks t = b :: below) (hlook : ∀ s key wait p, b ≠ .look s key wait p) :
    (∃ out, turn = .goto b out ∧ rest = below ∧ a.Continues b ∧
      a.step w t (w.answerOf t) = some (w₁, .goto b out)) ∨
    (∃ back, turn = .invoke b back ∧ below = quiet back :: rest ∧ back.Asks b ∧ a.Continues back ∧
      a.step w t (w.answerOf t) = some (w₁, .invoke b back)) ∨
    ∃ out, turn = .exit out ∧ rest = b :: below := by
  rw [h.goes.tasks_self] at hb
  have hstep : turn.frames ≠ [] → a.step w t (w.answerOf t) = some (w₁, turn) := by
    intro hframes
    obtain hstep | ⟨_, _, _, _, rfl⟩ := h.does
    · exact hstep
    · exact absurd rfl hframes
  have hstacks := h.stacks
  cases turn with
  | goto c out =>
      injection hb with hc hrest
      obtain rfl := eq_of_quiet_eq hc.symm hlook
      exact .inl ⟨out, rfl, hrest, hstacks, hstep (List.cons_ne_nil _ _)⟩
  | invoke callee back =>
      injection hb with hcallee hbelow
      obtain rfl := eq_of_quiet_eq hcallee.symm hlook
      exact .inr (.inl ⟨back, rfl, hbelow.symm, hstacks.1, hstacks.2, hstep (List.cons_ne_nil _ _)⟩)
  | exit out => exact .inr (.inr ⟨out, rfl, hb⟩)

/-- The tops of other threads stay as they are. -/
theorem Takes.top_other (h : Takes w t a rest w₁ turn) (hu : u ≠ t) {b : Activity}
    {below : List Activity} (hb : (w₁.turn t turn).tasks u = b :: below)
    (hrun : ∀ g m, b ≠ .run g m .lock) : w.tasks u = b :: below := by
  obtain hsame | ⟨_, g, m, _, _, hnew⟩ := h.goes.tasks_of_ne hu
  · exact hsame.symm.trans hb
  · rw [hnew] at hb
    cases hb
    exact absurd rfl (hrun g m)

/-- In every state of a run the activities of each thread wait for one another. -/
theorem Run.stacked (h : Run start trace w) (hstart : ∀ u, Stacked (start.tasks u)) :
    ∀ u, Stacked (w.tasks u) :=
  h.every (P := fun _ w => ∀ u, Stacked (w.tasks u)) hstart (fun _ _ _ hw => hw)
    fun _ _ _ _ _ _ _ htakes hw => htakes.stacked hw

theorem stacked_opened (w : World) {first : Activity} {calls : List Activity}
    (hcalls : ∀ a ∈ first :: calls, a.begins = true) (u : ThreadId) :
    Stacked ((w.opened first calls).tasks u) := by
  obtain hnone | ⟨a, ha, hone⟩ := tasks_opened w first calls u
  · rw [hnone]
    exact .nil
  · rw [hone]
    exact .last (brought_of_begins (hcalls a ha))

/-- Threads are busy with nothing but what they came with. -/
theorem begins_opened (w : World) {first : Activity} {calls : List Activity}
    (hcalls : ∀ a ∈ first :: calls, a.begins = true) (u : ThreadId) :
    ∀ b ∈ (w.opened first calls).tasks u, ∃ a : Activity, a.begins = true ∧ b = quiet a := by
  intro b hb
  obtain ⟨a, ha, hsame⟩ := mem_tasks_opened hb
  exact ⟨a, hcalls a ha, hsame⟩

end World
end PullFlow.Engine
