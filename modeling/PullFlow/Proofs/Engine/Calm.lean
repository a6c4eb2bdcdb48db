import PullFlow.Proofs.Engine.Threads

/-!
Steps that leave the course of the flows alone. Of a flow only its state, whether its monitor is
parked and its thread decide how it starts and ends; of a thread everything but the point at which
it reads a variable, and the calls it is inside of. Reading chains, feeding sinks, setting up and
waking readers touch nothing of that.
-/

namespace PullFlow.Engine

/-- An activity without the point at which it reads. -/
def quiet : Activity → Activity
  | .look scope key wait _ => .look scope key wait .gate
  | a => a

/-- A turn seen without the points of reads. -/
def Turn.quiet : Turn → Turn
  | .goto a answer => .goto (Engine.quiet a) answer
  | .invoke callee back => .invoke (Engine.quiet callee) (Engine.quiet back)
  | .exit out => .exit out

/-- A thread without the point at which it reads and without its calls. -/
def Thread.job (th : Thread) : Thread := ⟨th.stack.map quiet, th.answer, [], th.result⟩

theorem quiet_rouse (st : Scope.Store) (root : ScopeId) (a : Activity) :
    quiet (World.rouse st root a) = quiet a := by
  cases a with
  | look scope key wait p => cases p <;> rfl
  | _ => rfl

theorem Thread.job_after (th : Thread) (rest : List Activity) (turn : Turn) :
    (th.after rest turn).job = th.job.after (rest.map quiet) turn.quiet := by
  cases turn with
  | goto a answer => rfl
  | invoke callee back => rfl
  | exit out => cases rest <;> rfl

/-- Whether an event announces a failure. -/
def Event.failure : Event → Bool
  | .pullFailed .. | .flowFailed .. => true
  | _ => false

/-- What decides how a flow starts and ends. -/
def FlowCell.control (cell : FlowCell) : FlowState × Bool × Option ThreadId :=
  (cell.state, cell.parked.isSome, cell.thread)

namespace World

/-- The threads without the points at which they read. -/
def jobs (w : World) : List Thread := w.threads.map Thread.job

def control (w : World) (f : FlowId) : Option (FlowState × Bool × Option ThreadId) :=
  (w.flow? f).map FlowCell.control

/-- Nothing that decides how flows start and end is different, and no failure is announced. -/
structure Calm (w w' : World) : Prop where
  set : w'.set = w.set
  jobs : w'.jobs = w.jobs
  control : ∀ f, w'.control f = w.control f
  failures : ∀ e, e.failure = true → (e ∈ w'.events ↔ e ∈ w.events)

namespace Calm

variable {w w' w'' : World}

theorem refl (w : World) : Calm w w :=
  ⟨rfl, rfl, fun _ => rfl, fun _ _ => Iff.rfl⟩

theorem trans (h : Calm w w') (h' : Calm w' w'') : Calm w w'' :=
  ⟨h'.set.trans h.set, h'.jobs.trans h.jobs, fun f => (h'.control f).trans (h.control f),
    fun e he => (h'.failures e he).trans (h.failures e he)⟩

theorem symm (h : Calm w w') : Calm w' w :=
  ⟨h.set.symm, h.jobs.symm, fun f => (h.control f).symm, fun e he => (h.failures e he).symm⟩

end Calm

variable {w : World}

theorem flow?_modifyFlow (w : World) (f g : FlowId) (change : FlowCell → FlowCell) :
    (w.modifyFlow f change).flow? g = if f = g then (w.flow? g).map change else w.flow? g := by
  simp only [flow?, modifyFlow, List.getElem?_modify]
  split <;> simp

theorem control_modifyFlow (w : World) (f g : FlowId) (change : FlowCell → FlowCell) :
    (w.modifyFlow f change).control g =
      if f = g then (w.flow? g).map fun cell => (change cell).control else w.control g := by
  simp only [control, flow?_modifyFlow]
  split
  · rw [Option.map_map]
    rfl
  · rfl

/-- A change of a flow that does not decide how it ends. -/
theorem calm_modifyFlow {f : FlowId} {change : FlowCell → FlowCell}
    (h : ∀ cell, w.flow? f = some cell → (change cell).control = cell.control) :
    Calm w (w.modifyFlow f change) := by
  refine ⟨rfl, rfl, fun g => ?_, fun _ _ => Iff.rfl⟩
  rw [control_modifyFlow]
  split
  · next hfg =>
    subst hfg
    cases hcell : w.flow? f with
    | none => simp [control, hcell]
    | some cell => simp [control, hcell, h cell hcell]
  · rfl

theorem calm_scopes (st : Scope.Store) : Calm w { w with scopes := st } :=
  ⟨rfl, rfl, fun _ => rfl, fun _ _ => Iff.rfl⟩

theorem calm_jot (notes : List Note) : Calm w (w.jot notes) :=
  ⟨rfl, rfl, fun _ => rfl, fun _ _ => Iff.rfl⟩

theorem calm_emit {e : Event} (h : e.failure = false) : Calm w (w.emit e) := by
  refine ⟨rfl, rfl, fun _ => rfl, fun other hother => ?_⟩
  simp only [emit, List.mem_append, List.mem_singleton]
  refine or_iff_left ?_
  intro hsame
  subst hsame
  rw [h] at hother
  cases hother

theorem calm_unlock (f : FlowId) : Calm w (w.unlock f) := calm_modifyFlow fun _ _ => rfl

theorem calm_setPipeline (f : FlowId) (p : Pipeline) : Calm w (w.setPipeline f p) :=
  calm_modifyFlow fun _ _ => rfl

theorem calm_lock {w₁ : World} {t : ThreadId} {f : FlowId} (h : w.lock t f = some w₁) :
    Calm w w₁ := by
  unfold lock at h
  cases hcell : w.flow? f with
  | none => simp [hcell] at h
  | some cell =>
      cases hholder : cell.holder with
      | some u => simp [hcell, hholder] at h
      | none =>
          simp only [hcell, hholder, Option.some.injEq] at h
          subst h
          exact calm_modifyFlow fun _ _ => rfl

theorem calm_enterGate {w₁ : World} {t : ThreadId} {s : ScopeId} (h : w.enterGate t s = some w₁) :
    Calm w w₁ := by
  unfold enterGate at h
  cases hnode : w.scopes.nodes[w.scopes.rootOf s]? with
  | none => simp [hnode] at h
  | some node =>
      cases hgate : node.gate with
      | some u => simp [hnode, hgate] at h
      | none =>
          simp only [hnode, hgate, Option.some.injEq] at h
          subst h
          exact calm_scopes _

theorem calm_leaveGate (s : ScopeId) : Calm w (w.leaveGate s) := calm_scopes _

/-- Waking readers moves none of them further than to the gate. -/
theorem calm_wake (s : ScopeId) : Calm w (w.wake s) := by
  refine ⟨rfl, ?_, fun _ => rfl, fun _ _ => Iff.rfl⟩
  simp only [jobs, wake, List.map_map]
  refine List.map_congr_left fun th _ => ?_
  have hquiet : quiet ∘ rouse w.scopes (w.scopes.rootOf s) = quiet :=
    funext fun a => quiet_rouse w.scopes (w.scopes.rootOf s) a
  simp only [Function.comp_apply, Thread.job, List.map_map, hquiet]

theorem calm_modifyThread {t : ThreadId} {change : Thread → Thread}
    (h : ∀ th, (change th).job = th.job) : Calm w (w.modifyThread t change) := by
  refine ⟨rfl, ?_, fun _ => rfl, fun _ _ => Iff.rfl⟩
  refine List.ext_getElem? fun u => ?_
  simp only [jobs, modifyThread, List.getElem?_map, List.getElem?_modify]
  split
  · cases w.threads[u]? <;> simp [h]
  · simp

end World

/-- An activity that leaves the course of the flows to those that it waits for. -/
def Activity.plain : Activity → Bool
  | .look .. | .write .. | .close .. | .host .. | .pull .. | .read .. | .push .. => true
  | .demand .. | .call .. | .sinksActive .. | .sleep .. | .interrupt .. | .contextualize .. => true
  | .prepare .. | .wire .. | .setUpAll .. => true
  | _ => false

/-- What a plain activity may wait for. -/
inductive Asked (w : World) : Activity → Prop
  | plain {a : Activity} : a.plain = true → Asked w a
  | stopAll : Asked w (.stopAll w.set)
  | advance (f : FlowId) {target : FlowState} :
      target.rank < FlowState.ending.rank → Asked w (.advance f target .swap)

theorem Asked.of_calm {w w₁ : World} {a : Activity} (h : Asked w₁ a) (hcalm : World.Calm w w₁) :
    Asked w a := by
  cases h with
  | plain ha => exact .plain ha
  | stopAll =>
      rw [hcalm.set]
      exact .stopAll
  | advance f hrank => exact .advance f hrank

/-- A turn of a plain activity. -/
def Turn.Plain (w : World) : Turn → Prop
  | .goto a _ => a.plain = true
  | .invoke callee back => Asked w callee ∧ back.plain = true
  | .exit _ => True

namespace World

/-- A step that leaves the course of the flows alone, and a turn of a plain activity. -/
def Plainly (w : World) (r : World × Turn) : Prop := Calm w r.1 ∧ r.2.Plain w

variable {w w₁ : World} {r : World × Turn}

theorem Plainly.of_calm (h : Plainly w₁ r) (hcalm : Calm w w₁) : Plainly w r := by
  refine ⟨hcalm.trans h.1, ?_⟩
  cases hr : r.2 with
  | goto a answer => simpa only [hr, Turn.Plain] using h.2
  | invoke callee back =>
      have hturn := h.2
      rw [hr] at hturn
      exact ⟨hturn.1.of_calm hcalm, hturn.2⟩
  | exit out => trivial

theorem look_plain {t : ThreadId} {s : ScopeId} {key : String} {wait : Bool} {p : LookPoint}
    (h : w.look t s key wait p = some r) : Plainly w r := by
  unfold look at h
  split at h
  · cases h
    exact ⟨.refl w, trivial⟩
  · split at h <;> cases h <;> exact ⟨.refl w, by trivial⟩
  · cases h
    exact ⟨.refl w, rfl⟩
  · obtain ⟨w₁, henter, rfl⟩ := Option.map_eq_some_iff.mp h
    exact ⟨calm_enterGate henter, rfl⟩
  · cases h
    exact ⟨calm_leaveGate s, trivial⟩
  · cases h
    exact ⟨.refl w, rfl⟩
  · cases h
    exact ⟨.refl w, rfl⟩
  · split at h <;> cases h <;> exact ⟨calm_leaveGate s, by trivial⟩
  · cases h

theorem write_plain {s : ScopeId} {key : String} {e : Entry} {first : Bool} {p : WritePoint}
    (h : w.write s key e first p = some r) : Plainly w r := by
  unfold write at h
  split at h
  · cases h
    exact ⟨.refl w, trivial⟩
  · cases h
    exact ⟨.refl w, rfl⟩
  · cases h
    exact ⟨.refl w, rfl⟩
  · split at h
    · split at h
      · cases h
        exact ⟨.refl w, trivial⟩
      · cases h
        exact ⟨calm_scopes _, rfl⟩
    · cases h
      exact ⟨calm_scopes _, trivial⟩
  · split at h <;> cases h
    exact ⟨calm_wake s, trivial⟩

theorem close_plain {s : ScopeId} {p : ClosePoint} (h : w.close s p = some r) : Plainly w r := by
  cases p with
  | mark =>
      cases h
      exact ⟨calm_scopes _, rfl⟩
  | wake =>
      simp only [World.close] at h
      split at h <;> cases h
      exact ⟨calm_wake s, trivial⟩

theorem serve_plain (request : Request) {back : Activity} (hback : back.plain = true) :
    Plainly w (w.serve request back) := by
  cases request with
  | look scope key wait => exact ⟨.refl w, .plain rfl, hback⟩
  | write scope key v first => exact ⟨.refl w, .plain rfl, hback⟩
  | host r => exact ⟨.refl w, .plain rfl, hback⟩
  | payload o =>
      simp only [serve]
      split
      · exact ⟨.refl w, .plain rfl, hback⟩
      · exact ⟨.refl w, hback⟩
  | call name flow payload => exact ⟨.refl w, .plain rfl, hback⟩
  | stopAll =>
      simp only [serve]
      split
      · exact ⟨.refl w, .stopAll, hback⟩
      · exact ⟨.refl w, hback⟩
  | note notes => exact ⟨calm_jot notes, hback⟩

theorem pull_plain {f : FlowId} {p : PullPoint} {answer : Outcome}
    (h : w.pull f p answer = some r) : Plainly w r := by
  simp only [pull] at h
  obtain ⟨cell, _, rfl⟩ := Option.map_eq_some_iff.mp h
  split
  · exact ⟨calm_setPipeline f _, rfl⟩
  · exact (serve_plain _ rfl).of_calm (calm_setPipeline f _)
  · exact ⟨calm_setPipeline f _, trivial⟩

theorem startPull_plain {f : FlowId} {back : Activity} (hback : back.plain = true)
    (h : w.startPull f back = some r) : Plainly w r := by
  simp only [startPull] at h
  obtain ⟨cell, _, rfl⟩ := Option.map_eq_some_iff.mp h
  split
  · exact ⟨.refl w, hback⟩
  · exact ⟨.refl w, .plain rfl, hback⟩

theorem read_plain {t : ThreadId} {f : FlowId} {answer : Outcome} {p : ReadPoint}
    (h : w.read t f answer p = some r) : Plainly w r := by
  cases p with
  | lock =>
      obtain ⟨w₁, hlock, rfl⟩ := Option.map_eq_some_iff.mp h
      exact ⟨calm_lock hlock, rfl⟩
  | start => exact startPull_plain rfl h
  | unlock out =>
      cases h
      exact ⟨calm_unlock f, trivial⟩
  | pulled =>
      cases h
      exact ⟨.refl w, rfl⟩

theorem afterSink_plain (f : FlowId) (v : Value) (cell : FlowCell) (m : SinkBody × SinkMove) :
    Plainly w (w.afterSink f v cell m) := by
  obtain ⟨body, move⟩ := m
  cases move with
  | done d => exact ⟨calm_setPipeline f _, rfl⟩
  | ask request wait => exact (serve_plain request rfl).of_calm (calm_setPipeline f _)

theorem push_plain {t : ThreadId} {f : FlowId} {v : Value} {answer : Outcome} {p : PushPoint}
    (h : w.push t f v answer p = some r) : Plainly w r := by
  unfold push at h
  split at h
  · obtain ⟨w₁, hlock, rfl⟩ := Option.map_eq_some_iff.mp h
    exact ⟨calm_lock hlock, rfl⟩
  · obtain ⟨cell, _, rfl⟩ := Option.map_eq_some_iff.mp h
    exact afterSink_plain f v cell _
  · obtain ⟨cell, _, rfl⟩ := Option.map_eq_some_iff.mp h
    exact afterSink_plain f v cell _
  · cases h
    exact ⟨calm_unlock f, rfl⟩
  · cases h
    exact ⟨calm_unlock f, trivial⟩
  · obtain ⟨cell, _, rfl⟩ := Option.map_eq_some_iff.mp h
    exact ⟨calm_emit rfl, trivial⟩

theorem demand_plain {f : FlowId} (h : w.demand f = some r) : Plainly w r := by
  obtain ⟨cell, _, h⟩ := Option.bind_eq_some_iff.mp h
  split at h <;> cases h
  exact ⟨.refl w, rfl⟩

theorem call_plain {t : ThreadId} {name : String} {f : FlowId} {payload : Value} {answer : Outcome}
    {p : CallPoint} (h : w.call t name f payload answer p = some r) : Plainly w r := by
  cases p with
  | latch =>
      obtain ⟨cell, _, h⟩ := Option.bind_eq_some_iff.mp h
      split at h <;> cases h
      exact ⟨.refl w, rfl⟩
  | enter =>
      obtain ⟨th, _, rfl⟩ := Option.map_eq_some_iff.mp h
      split
      · exact ⟨.refl w, trivial⟩
      · exact ⟨calm_modifyThread fun _ => rfl, rfl⟩
  | lock =>
      obtain ⟨w₁, hlock, rfl⟩ := Option.map_eq_some_iff.mp h
      exact ⟨calm_lock hlock, rfl⟩
  | inject => exact (startPull_plain rfl h).of_calm (calm_modifyFlow fun _ _ => rfl)
  | pulled =>
      cases h
      exact ⟨.refl w, rfl⟩
  | clear out =>
      cases h
      exact ⟨calm_modifyFlow fun _ _ => rfl, rfl⟩
  | unlock out =>
      cases h
      exact ⟨calm_unlock f, rfl⟩
  | leave out =>
      cases h
      exact ⟨calm_modifyThread fun _ => rfl, trivial⟩

theorem sinksActive_plain {f : FlowId} (h : w.sinksActive f = some r) : Plainly w r := by
  obtain ⟨cell, _, h⟩ := Option.bind_eq_some_iff.mp h
  split at h <;> cases h
  exact ⟨.refl w, trivial⟩

theorem sleep_plain {f : FlowId} {deadline : Nat} (h : w.sleep f deadline = some r) :
    Plainly w r := by
  obtain ⟨cell, _, h⟩ := Option.bind_eq_some_iff.mp h
  split at h
  · cases h
    exact ⟨.refl w, trivial⟩
  · split at h <;> cases h
    exact ⟨.refl w, trivial⟩

theorem interrupt_plain {f : FlowId} {p : InterruptPoint} (h : w.interrupt f p = some r) :
    Plainly w r := by
  cases p with
  | sleeper =>
      cases h
      exact ⟨calm_modifyFlow fun _ _ => rfl, rfl⟩
  | close =>
      obtain ⟨cell, _, rfl⟩ := Option.map_eq_some_iff.mp h
      split
      · exact ⟨.refl w, .plain rfl, rfl⟩
      · exact ⟨.refl w, rfl⟩
  | latch =>
      cases h
      exact ⟨calm_modifyFlow fun _ _ => rfl, trivial⟩

theorem checkState_plain {f : FlowId} {state : FlowState} {next : Activity}
    (hnext : next.plain = true) (h : w.checkState f state next = some r) : Plainly w r := by
  obtain ⟨cell, _, rfl⟩ := Option.map_eq_some_iff.mp h
  split
  · exact ⟨.refl w, hnext⟩
  · exact ⟨.refl w, trivial⟩

theorem afterHook_plain {f : FlowId} {cell : FlowCell} {h : HookEnd FlowCell} {next : Activity}
    (hcell : w.flow? f = some cell) (hbody : h.body.control = cell.control)
    (hnext : next.plain = true) : Plainly w (w.afterHook f h next) := by
  have hcalm : Calm w ((w.modifyFlow f fun _ => h.body).jot h.notes) := by
    refine (calm_modifyFlow fun cell' hcell' => ?_).trans (calm_jot h.notes)
    rw [hbody, Option.some_inj.mp (hcell.symm.trans hcell')]
  simp only [afterHook]
  split
  · exact ⟨hcalm, hnext⟩
  · exact ⟨hcalm, trivial⟩

theorem onPipeline_plain {f : FlowId} {hook : Pipeline → HookEnd Pipeline} {next : Activity}
    (hnext : next.plain = true) (h : w.onPipeline f hook next = some r) : Plainly w r := by
  obtain ⟨cell, hcell, h⟩ := Option.bind_eq_some_iff.mp h
  split at h <;> cases h
  exact afterHook_plain hcell rfl hnext

theorem control_attachMonitor (ctx : Context) (cell : FlowCell) :
    (attachMonitor ctx cell).body.control = cell.control := by
  simp only [attachMonitor]
  cases hparked : cell.parked with
  | none => rfl
  | some m => simp [HookEnd.map, FlowCell.control, hparked]

theorem control_prepareMonitor (st : Scope.Store) (cell : FlowCell) :
    (prepareMonitor st cell).body.control = cell.control := by
  simp only [prepareMonitor]
  cases hparked : cell.parked with
  | none => rfl
  | some m => simp [HookEnd.map, FlowCell.control, hparked]

theorem unlessFailed_plain {answer : Outcome} {next : World × Turn} (h : Plainly w next) :
    Plainly w (w.unlessFailed answer next) := by
  cases answer with
  | ok v => exact h
  | error e => exact ⟨.refl w, trivial⟩

theorem contextualize_plain {f : FlowId} {answer : Outcome} {p : ContextPoint}
    (h : w.contextualize f answer p = some r) : Plainly w r := by
  cases p with
  | check => exact checkState_plain rfl h
  | child =>
      cases h
      exact ⟨calm_scopes _, .plain rfl, rfl⟩
  | global scope =>
      obtain ⟨cell, _, rfl⟩ := Option.map_eq_some_iff.mp h
      exact unlessFailed_plain ⟨.refl w, .plain rfl, rfl⟩
  | named scope =>
      cases h
      exact unlessFailed_plain ⟨.refl w, rfl⟩
  | attach scope =>
      obtain ⟨cell, _, h⟩ := Option.bind_eq_some_iff.mp h
      exact onPipeline_plain rfl h
  | monitor scope =>
      obtain ⟨cell, hcell, rfl⟩ := Option.map_eq_some_iff.mp h
      exact afterHook_plain hcell (control_attachMonitor _ cell) rfl
  | record scope =>
      cases h
      exact ⟨calm_modifyFlow fun _ _ => rfl, rfl⟩
  | advance =>
      cases h
      exact ⟨.refl w, .advance f (by decide), rfl⟩
  | advanced =>
      cases h
      exact ⟨.refl w, trivial⟩

theorem prepare_plain {f : FlowId} {p : PreparePoint} (h : w.prepare f p = some r) :
    Plainly w r := by
  cases p with
  | check => exact checkState_plain rfl h
  | components => exact onPipeline_plain rfl h
  | monitor =>
      obtain ⟨cell, hcell, rfl⟩ := Option.map_eq_some_iff.mp h
      exact afterHook_plain hcell (control_prepareMonitor _ cell) rfl
  | advance =>
      cases h
      exact ⟨.refl w, .advance f (by decide), rfl⟩
  | advanced =>
      cases h
      exact ⟨.refl w, trivial⟩

theorem wire_plain {f : FlowId} {inflows : List Outflow} {p : WirePoint}
    (h : w.wire f inflows p = some r) : Plainly w r := by
  cases p with
  | check => exact checkState_plain rfl h
  | source => exact onPipeline_plain rfl h
  | advance =>
      cases h
      exact ⟨.refl w, .advance f (by decide), rfl⟩
  | advanced =>
      cases h
      exact ⟨.refl w, trivial⟩

theorem setUpAll_plain {answer : Outcome} {p : SetUpPoint} (h : w.setUpAll answer p = some r) :
    Plainly w r := by
  unfold setUpAll at h
  cases p with
  | context left =>
      cases left <;> cases h
      · exact unlessFailed_plain ⟨.refl w, rfl⟩
      · exact unlessFailed_plain ⟨.refl w, .plain rfl, rfl⟩
  | prepare left =>
      cases left <;> cases h
      · exact unlessFailed_plain ⟨.refl w, rfl⟩
      · exact unlessFailed_plain ⟨.refl w, .plain rfl, rfl⟩
  | gather left done =>
      cases left with
      | nil =>
          cases h
          exact unlessFailed_plain ⟨.refl w, rfl⟩
      | cons flow left =>
          obtain ⟨more, _, h⟩ := Option.bind_eq_some_iff.mp h
          cases h
          exact unlessFailed_plain ⟨.refl w, rfl⟩
  | wire left all =>
      cases left with
      | nil =>
          cases h
          exact unlessFailed_plain ⟨.refl w, trivial⟩
      | cons flow left =>
          obtain ⟨cell, _, h⟩ := Option.bind_eq_some_iff.mp h
          cases h
          exact unlessFailed_plain ⟨.refl w, .plain rfl, rfl⟩

/-- Whatever a plain activity does leaves the course of the flows alone. -/
theorem step_plain {t : ThreadId} {answer : Outcome} {a : Activity} (ha : a.plain = true)
    (h : a.step w t answer = some r) : Plainly w r := by
  cases a with
  | look scope key wait p => exact look_plain h
  | write scope key e first p => exact write_plain h
  | close scope p => exact close_plain h
  | host request => cases h
  | pull f p => exact pull_plain h
  | read f p => exact read_plain h
  | push f v p => exact push_plain h
  | demand f => exact demand_plain h
  | call name f payload p => exact call_plain h
  | sinksActive f => exact sinksActive_plain h
  | sleep f deadline => exact sleep_plain h
  | interrupt f p => exact interrupt_plain h
  | contextualize f p => exact contextualize_plain h
  | prepare f p => exact prepare_plain h
  | wire f inflows p => exact wire_plain h
  | setUpAll p => exact setUpAll_plain h
  | _ => cases ha

end World
end PullFlow.Engine
