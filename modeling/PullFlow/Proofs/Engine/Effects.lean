import PullFlow.Proofs.Engine.Upkeep

/-!
What a step does beside moving threads. Few activities, at few of their points, move the components
or the monitor of a flow, announce a change of state, set the latch of a flow, cut its sleeps short,
give it its scope, or go into a call or out of it. Each does one such thing in a step, and all other
steps leave these alone.
-/

namespace PullFlow.Engine

/-- A change of state: from where to where. -/
abbrev Change := FlowState × FlowState

/-- The change of state that an event announces of the flow of a name. -/
def Event.changeOf? (name : String) : Event → Option Change
  | .stateChanged flow before after => if flow = name then some (before, after) else none
  | _ => none

/-- Whether an event announces a change of state. -/
def Event.changes : Event → Bool
  | .stateChanged .. => true
  | _ => false

/-- The points of activities at which they do more than move threads. -/
def Activity.works : Activity → Bool
  | .pull .. | .push _ _ .begin | .push _ _ (.serving _) => true
  | .call _ _ _ .enter | .call _ _ _ .inject | .call _ _ _ (.clear _) | .call _ _ _ (.leave _) => true
  | .run _ _ .release | .run _ _ .start | .finish _ _ .components => true
  | .interrupt _ .sleeper | .interrupt _ .latch => true
  | .run _ _ (.park _) | .run _ _ (.retake _) | .stop _ .interrupted | .launch _ true => true
  | .contextualize _ (.attach _) | .contextualize _ (.monitor _) => true
  | .contextualize _ (.record _) => true
  | .prepare _ .components | .prepare _ .monitor | .wire _ _ .source => true
  | .advance _ _ (.emit _) => true
  | _ => false

/-- What of a flow few steps change: its name, its latch, whether its sleeps are cut short, its
scope, its components and its parked monitor. -/
structure FlowCell.Parts where
  name : String
  released : Bool
  stopped : Bool
  scope : Option ScopeId
  pipeline : Pipeline
  parked : Option Monitor

def FlowCell.parts (cell : FlowCell) : FlowCell.Parts :=
  ⟨cell.name, cell.released, cell.stopped, cell.scope, cell.pipeline, cell.parked⟩

namespace World

/-- The changes of state that were announced of the flow of a name, in order. -/
def announced (w : World) (name : String) : List Change := w.events.filterMap (Event.changeOf? name)

/-- The names of the flows that a thread is inside calls of. -/
def callsOf (w : World) (t : ThreadId) : List String := ((w.threads[t]?).map (·.calls)).getD []

def nameOf? (w : World) (f : FlowId) : Option String := (w.flow? f).map (·.name)

/-- Whether the latch of a flow is set. -/
def releasedOf (w : World) (f : FlowId) : Bool := ((w.flow? f).map (·.released)).getD false

/-- Whether the sleeps of a flow are cut short. -/
def stoppedOf (w : World) (f : FlowId) : Bool := ((w.flow? f).map (·.stopped)).getD false

/-- The scope that a flow was given. -/
def scope? (w : World) (f : FlowId) : Option ScopeId := (w.flow? f).bind (·.scope)

/-- The monitor of a flow while no thread runs it. -/
def parked? (w : World) (f : FlowId) : Option Monitor := (w.flow? f).bind (·.parked)

/-- Gives a flow other components and another parked monitor. -/
def setParts (w : World) (f : FlowId) (p : Pipeline) (m : Option Monitor) : World :=
  w.modifyFlow f fun cell => { cell with pipeline := p, parked := m }

/-- The parts of flows, calls and announcements are as they were, no scope was opened again, and no
reader has gone to sleep. -/
structure Leaves (w w₁ : World) : Prop where
  parts : ∀ f, (w₁.flow? f).map FlowCell.parts = (w.flow? f).map FlowCell.parts
  calls : ∀ t, w₁.callsOf t = w.callsOf t
  announced : ∀ name, w₁.announced name = w.announced name
  lasts : w.scopes.Lasts w₁.scopes
  asleep : ∀ t s key wait, .look s key wait .asleep ∈ w₁.stackOf t →
    .look s key wait .asleep ∈ w.stackOf t

/-- What an activity makes of the components of a flow and of its parked monitor. -/
inductive Works (w : World) (answer : Outcome) (f : FlowId) (cell : FlowCell) :
    Activity → Pipeline → Option Monitor → Prop
  | pull {p : PullPoint} : Works w answer f cell (.pull f p)
      { cell.pipeline with chain := (cell.pipeline.chain.step w.clock p answer).1 } cell.parked
  | perform {v : Value} : Works w answer f cell (.push f v .begin)
      { cell.pipeline with
        sink := { cell.pipeline.sink with body := (cell.pipeline.sink.body.perform v).1 } }
      cell.parked
  | resume {v : Value} {wait : SinkWait} : Works w answer f cell (.push f v (.serving wait))
      { cell.pipeline with
        sink := { cell.pipeline.sink with body := (cell.pipeline.sink.body.resume wait answer).1 } }
      cell.parked
  | inject {name : String} {payload : Value} : Works w answer f cell (.call name f payload .inject)
      (setInjected (some payload) cell.pipeline) cell.parked
  | clear {name : String} {payload : Value} {out : Outcome} :
      Works w answer f cell (.call name f payload (.clear out)) (setInjected none cell.pipeline)
        cell.parked
  | start {m : Monitor} : Works w answer f cell (.run f m .start) cell.pipeline.start.body cell.parked
  | stop {m : Monitor} : Works w answer f cell (.finish f m .components) cell.pipeline.stop.body
      cell.parked
  | attach {scope : ScopeId} : Works w answer f cell (.contextualize f (.attach scope))
      (cell.pipeline.setContext (w.contextOf cell scope)).body cell.parked
  | monitor {scope : ScopeId} : Works w answer f cell (.contextualize f (.monitor scope))
      (attachMonitor (w.contextOf cell scope) cell).body.pipeline
      (attachMonitor (w.contextOf cell scope) cell).body.parked
  | setUp : Works w answer f cell (.prepare f .components) (cell.pipeline.setUp w.scopes).body
      cell.parked
  | setUpMonitor : Works w answer f cell (.prepare f .monitor) cell.pipeline
      (prepareMonitor w.scopes cell).body.parked
  | wire {inflows : List Outflow} : Works w answer f cell (.wire f inflows .source)
      (cell.pipeline.wire inflows).body cell.parked
  | park {m : Monitor} {d : Done} : Works w answer f cell (.run f m (.park d)) cell.pipeline (some m)
  | retake {m : Monitor} {d : Done} : Works w answer f cell (.run f m (.retake d)) cell.pipeline none
  | stopTake : Works w answer f cell (.stop f .interrupted) cell.pipeline none
  | launch : Works w answer f cell (.launch f true) cell.pipeline none

/-- What a step of an activity does beside moving threads. -/
inductive Acts (w : World) (t : ThreadId) (answer : Outcome) : Activity → World → Prop
  | leaves {a : Activity} {w₁ : World} : a.works = false → Leaves w w₁ → Acts w t answer a w₁
  | works {f : FlowId} {cell : FlowCell} {a : Activity} {p : Pipeline} {m : Option Monitor}
      {w₁ : World} : w.flow? f = some cell → Works w answer f cell a p m →
      Leaves (w.setParts f p m) w₁ → Acts w t answer a w₁
  | announce {f : FlowId} {target before : FlowState} {cell : FlowCell} : w.flow? f = some cell →
      Acts w t answer (.advance f target (.emit before))
        (w.emit (.stateChanged cell.name before target))
  | release {f : FlowId} {m : Monitor} : Acts w t answer (.run f m .release)
      (w.modifyFlow f fun cell => { cell with released := true })
  | unlatch {f : FlowId} : Acts w t answer (.interrupt f .latch)
      (w.modifyFlow f fun cell => { cell with released := true })
  | cut {f : FlowId} : Acts w t answer (.interrupt f .sleeper)
      (w.modifyFlow f fun cell => { cell with stopped := true })
  | record {f : FlowId} {s : ScopeId} : Acts w t answer (.contextualize f (.record s))
      (w.modifyFlow f fun cell => { cell with scope := some s })
  | enter {name : String} {f : FlowId} {payload : Value} : name ∉ w.callsOf t →
      Acts w t answer (.call name f payload .enter)
        (w.modifyThread t fun th => { th with calls := th.calls ++ [name] })
  | refuse {name : String} {f : FlowId} {payload : Value} : name ∈ w.callsOf t →
      Acts w t answer (.call name f payload .enter) w
  | leave {name : String} {f : FlowId} {payload : Value} {out : Outcome} :
      Acts w t answer (.call name f payload (.leave out))
        (w.modifyThread t fun th => { th with calls := th.calls.dropLast })
  | absent {f : FlowId} {a : Activity} : w.flow? f = none →
      (∃ name payload out, a = .call name f payload (.clear out)) ∨ (∃ m d, a = .run f m (.park d)) →
      Acts w t answer a w

variable {w w₁ w₂ : World} {t u : ThreadId} {f g : FlowId} {a back : Activity} {answer : Outcome}
  {r : World × Turn} {cell : FlowCell}

theorem map_modifyFlow {α : Type} (part : FlowCell → α) (w : World) (f g : FlowId)
    (change : FlowCell → FlowCell) : ((w.modifyFlow f change).flow? g).map part =
      if f = g then (w.flow? g).map fun cell => part (change cell) else (w.flow? g).map part := by
  rw [flow?_modifyFlow]
  split
  · rw [Option.map_map]
    rfl
  · rfl

theorem modifyFlow_none (h : w.flow? f = none) (change : FlowCell → FlowCell) :
    w.modifyFlow f change = w := by
  simp only [modifyFlow]
  rw [List.modify_eq_self (List.getElem?_eq_none_iff.mp h)]

theorem callsOf_modifyThread (w : World) (t u : ThreadId) (change : Thread → Thread) :
    (w.modifyThread t change).callsOf u =
      if t = u then ((w.threads[u]?).map fun th => (change th).calls).getD [] else w.callsOf u := by
  simp only [callsOf, modifyThread, List.getElem?_modify]
  split <;> cases w.threads[u]? <;> rfl

theorem callsOf_turn (w : World) (t u : ThreadId) (turn : Turn) :
    (w.turn t turn).callsOf u = w.callsOf u := by
  have hafter (th : Thread) (rest : List Activity) : (th.after rest turn).calls = th.calls := by
    cases turn with
    | exit out => cases rest <;> rfl
    | _ => rfl
  rw [World.turn, callsOf_modifyThread]
  split
  · simp only [hafter, callsOf]
  · rfl

/-- A reader that sleeps on while a tree is woken sleeps in another tree. -/
theorem mem_of_roused {st : Scope.Store} {root s : ScopeId} {key : String} {wait : Bool}
    {stack : List Activity} (h : .look s key wait .asleep ∈ stack.map (World.rouse st root)) :
    .look s key wait .asleep ∈ stack ∧ st.rootOf s ≠ root := by
  obtain ⟨a, ha, hroused⟩ := List.mem_map.mp h
  unfold World.rouse at hroused
  split at hroused
  · split at hroused <;> cases hroused
    next hroot => exact ⟨ha, hroot⟩
  · next hother =>
    subst hroused
    exact absurd rfl (hother s key wait)

namespace Leaves

theorem refl (w : World) : Leaves w w :=
  ⟨fun _ => rfl, fun _ => rfl, fun _ => rfl, .refl _, fun _ _ _ _ h => h⟩

theorem trans (h : Leaves w w₁) (h' : Leaves w₁ w₂) : Leaves w w₂ :=
  ⟨fun f => (h'.parts f).trans (h.parts f), fun t => (h'.calls t).trans (h.calls t),
    fun name => (h'.announced name).trans (h.announced name),
    h.lasts.trans h'.lasts,
    fun t s key wait hmem => h.asleep t s key wait (h'.asleep t s key wait hmem)⟩

/-- Flows may change beside their parts, and everything else stays. -/
theorem ofParts (h : ∀ f, (w₁.flow? f).map FlowCell.parts = (w.flow? f).map FlowCell.parts)
    (hscopes : w₁.scopes = w.scopes) (hthreads : w₁.threads = w.threads)
    (hevents : w₁.events = w.events) : Leaves w w₁ := by
  refine ⟨h, fun t => ?_, fun name => ?_, hscopes ▸ .refl _, fun t s key wait hmem => ?_⟩
  · rw [callsOf, hthreads, callsOf]
  · rw [World.announced, hevents, World.announced]
  · rw [stackOf, hthreads] at hmem
    exact hmem

/-- What is a function of the parts of a flow is as it was. -/
theorem part {α : Type} (h : Leaves w w₁) (read : FlowCell.Parts → α) (f : FlowId) :
    (w₁.flow? f).map (read ∘ FlowCell.parts) = (w.flow? f).map (read ∘ FlowCell.parts) := by
  rw [← Option.map_map, ← Option.map_map, h.parts]

/-- What a flow may have among its parts is as it was. -/
theorem part? {α : Type} (h : Leaves w w₁) (read : FlowCell.Parts → Option α) (f : FlowId) :
    (w₁.flow? f).bind (read ∘ FlowCell.parts) = (w.flow? f).bind (read ∘ FlowCell.parts) := by
  rw [← Option.bind_map, ← Option.bind_map, h.parts]

theorem pipeline (h : Leaves w w₁) (f : FlowId) : w₁.pipeline? f = w.pipeline? f :=
  h.part (·.pipeline) f

theorem name (h : Leaves w w₁) (f : FlowId) : w₁.nameOf? f = w.nameOf? f :=
  h.part (·.name) f

theorem released (h : Leaves w w₁) (f : FlowId) : w₁.releasedOf f = w.releasedOf f :=
  congrArg (Option.getD · false) (h.part (·.released) f)

theorem stopped (h : Leaves w w₁) (f : FlowId) : w₁.stoppedOf f = w.stoppedOf f :=
  congrArg (Option.getD · false) (h.part (·.stopped) f)

theorem scope (h : Leaves w w₁) (f : FlowId) : w₁.scope? f = w.scope? f := h.part? (·.scope) f

theorem parked (h : Leaves w w₁) (f : FlowId) : w₁.parked? f = w.parked? f := h.part? (·.parked) f

/-- A change of a flow that leaves its parts. -/
theorem modifyRest {change : FlowCell → FlowCell} (h : ∀ cell, (change cell).parts = cell.parts) :
    Leaves w (w.modifyFlow f change) := by
  refine .ofParts (fun g => ?_) rfl rfl rfl
  rw [map_modifyFlow]
  split
  · simp only [h]
  · rfl

/-- A flow that is given the parts that another change gives it. -/
theorem modifyAlike {change change' : FlowCell → FlowCell} (hcell : w.flow? f = some cell)
    (h : (change' cell).parts = (change cell).parts) :
    Leaves (w.modifyFlow f change) (w.modifyFlow f change') := by
  refine .ofParts (fun g => ?_) rfl rfl rfl
  rw [map_modifyFlow, map_modifyFlow]
  split
  · next hfg =>
    rw [← hfg, hcell]
    exact congrArg some h
  · rfl

theorem scopes {st : Scope.Store} (h : w.scopes.Lasts st) : Leaves w { w with scopes := st } :=
  ⟨fun _ => rfl, fun _ => rfl, fun _ => rfl, h, fun _ _ _ _ h => h⟩

theorem jot (notes : List Note) : Leaves w (w.jot notes) := .ofParts (fun _ => rfl) rfl rfl rfl

theorem emit {e : Event} (h : e.changes = false) : Leaves w (w.emit e) := by
  refine ⟨fun _ => rfl, fun _ => rfl, fun name => ?_, .refl _, fun _ _ _ _ h => h⟩
  have hnone : Event.changeOf? name e = none := by
    cases e <;> first | rfl | cases h
  simp [World.announced, World.emit, List.filterMap_append, hnone]

/-- Readers that are woken do not go to sleep. -/
theorem wake (s : ScopeId) : Leaves w (w.wake s) := by
  refine ⟨fun _ => rfl, fun t => ?_, fun _ => rfl, .refl _, fun t s' key wait hmem => ?_⟩
  · simp only [callsOf, World.wake, List.getElem?_map, Option.map_map]
    rfl
  · rw [stackOf_wake] at hmem
    exact (mem_of_roused hmem).1

/-- A new thread is inside no call. -/
theorem spawn {a : Activity} (ha : ∀ s key wait, a ≠ .look s key wait .asleep) :
    Leaves w (w.spawn a).1 := by
  have hthread (t : ThreadId) : (w.spawn a).1.threads[t]? = w.threads[t]? ∨
      w.threads[t]? = none ∧ (w.spawn a).1.threads[t]? = some ⟨[a], .ok .null, [], none⟩ := by
    simp only [World.spawn]
    rcases Nat.lt_trichotomy t w.threads.length with ht | rfl | ht
    · exact .inl (List.getElem?_append_left ht)
    · exact .inr ⟨List.getElem?_eq_none (Nat.le_refl _), List.getElem?_concat_length⟩
    · refine .inl ?_
      rw [List.getElem?_eq_none (by simp; omega), List.getElem?_eq_none (Nat.le_of_lt ht)]
  refine ⟨fun _ => rfl, fun t => ?_, fun _ => rfl, .refl _, fun t s key wait hmem => ?_⟩
  · obtain hsame | ⟨hnone, hnew⟩ := hthread t
    · rw [callsOf, hsame, callsOf]
    · rw [callsOf, hnew, callsOf, hnone]
      rfl
  · obtain hsame | ⟨_, hnew⟩ := hthread t
    · rw [stackOf, hsame] at hmem
      exact hmem
    · rw [stackOf, hnew] at hmem
      exact absurd (List.mem_singleton.mp hmem).symm (ha s key wait)

theorem unlock (w : World) (f : FlowId) : Leaves w (w.unlock f) :=
  .modifyRest fun _ => rfl

theorem lock (h : w.lock t f = some w₁) : Leaves w w₁ := by
  unfold World.lock at h
  split at h
  · split at h <;> cases h
    exact .modifyRest fun _ => rfl
  · cases h

theorem enterGate {s : ScopeId} (h : w.enterGate t s = some w₁) : Leaves w w₁ := by
  unfold World.enterGate at h
  dsimp only at h
  split at h
  · split at h <;> cases h
    exact .scopes (.update _ _ fun _ h => h)
  · cases h

theorem serve (r : Request) (back : Activity) : Leaves w (w.serve r back).1 := by
  unfold World.serve
  split
  · exact .refl w
  · exact .refl w
  · exact .refl w
  · split <;> exact .refl w
  · exact .refl w
  · split <;> exact .refl w
  · exact .jot _

end Leaves

/-- Components of a flow that are moved while its monitor stays where it is. -/
theorem Acts.moved {p : Pipeline} (hcell : w.flow? f = some cell)
    (hworks : Works w answer f cell a p cell.parked) (h : Leaves (w.setPipeline f p) w₁) :
    Acts w t answer a w₁ := by
  have hsame : Leaves (w.setParts f p cell.parked) (w.setPipeline f p) := .modifyAlike hcell rfl
  exact .works hcell hworks (hsame.trans h)

theorem look_acts {s : ScopeId} {key : String} {wait : Bool} {p : LookPoint}
    (h : w.look t s key wait p = some r) : Acts w t answer (.look s key wait p) r.1 := by
  refine .leaves rfl ?_
  unfold look at h
  split at h
  · cases h
    exact .refl w
  · split at h <;> cases h <;> exact .refl w
  · cases h
    exact .refl w
  · obtain ⟨w₁, henter, rfl⟩ := Option.map_eq_some_iff.mp h
    exact .enterGate henter
  · cases h
    exact .scopes (.update _ _ fun _ h => h)
  · cases h
    exact .refl w
  · cases h
    exact .refl w
  · split at h <;> cases h <;> exact .scopes (.update _ _ fun _ h => h)
  · cases h

theorem write_acts {s : ScopeId} {key : String} {e : Entry} {first : Bool} {p : WritePoint}
    (h : w.write s key e first p = some r) : Acts w t answer (.write s key e first p) r.1 := by
  refine .leaves rfl ?_
  unfold write at h
  split at h
  · cases h
    exact .refl w
  · cases h
    exact .refl w
  · cases h
    exact .refl w
  · dsimp only at h
    split at h
    · split at h <;> cases h
      · exact .refl w
      · exact .scopes (.update _ _ fun _ h => h)
    · cases h
      exact .scopes (.update _ _ fun _ h => h)
  · split at h <;> cases h
    exact .wake s

theorem close_acts {s : ScopeId} {p : ClosePoint} (h : w.close s p = some r) :
    Acts w t answer (.close s p) r.1 := by
  refine .leaves rfl ?_
  cases p with
  | mark =>
      cases h
      exact .scopes (.update _ _ fun _ _ => rfl)
  | wake =>
      simp only [World.close] at h
      split at h <;> cases h
      exact .wake s

theorem pull_acts {p : PullPoint} (h : w.pull f p answer = some r) :
    Acts w t answer (.pull f p) r.1 := by
  obtain ⟨cell, hcell, rfl⟩ := Option.map_eq_some_iff.mp h
  refine .moved hcell .pull ?_
  dsimp only
  split
  · exact .refl _
  · exact .serve _ _
  · exact .refl _

theorem startPull_leaves (h : w.startPull f back = some r) : Leaves w r.1 := by
  obtain ⟨cell, _, rfl⟩ := Option.map_eq_some_iff.mp h
  split <;> exact .refl w

theorem read_acts {p : ReadPoint} (h : w.read t f answer p = some r) :
    Acts w t answer (.read f p) r.1 := by
  refine .leaves rfl ?_
  cases p with
  | lock =>
      obtain ⟨w₁, hlock, rfl⟩ := Option.map_eq_some_iff.mp h
      exact .lock hlock
  | start => exact startPull_leaves h
  | unlock out =>
      cases h
      exact .unlock w f
  | pulled =>
      cases h
      exact .refl w

theorem leaves_afterSink {v : Value} {cell : FlowCell} {m : SinkBody × SinkMove} :
    Leaves (w.setPipeline f { cell.pipeline with sink := { cell.pipeline.sink with body := m.1 } })
      (w.afterSink f v cell m).1 := by
  unfold afterSink
  dsimp only
  split
  · exact .refl _
  · exact .serve _ _

theorem push_acts {v : Value} {p : PushPoint} (h : w.push t f v answer p = some r) :
    Acts w t answer (.push f v p) r.1 := by
  cases p with
  | lock =>
      obtain ⟨w₁, hlock, rfl⟩ := Option.map_eq_some_iff.mp h
      exact .leaves rfl (.lock hlock)
  | begin =>
      obtain ⟨cell, hcell, rfl⟩ := Option.map_eq_some_iff.mp h
      exact .moved hcell .perform leaves_afterSink
  | serving wait =>
      obtain ⟨cell, hcell, rfl⟩ := Option.map_eq_some_iff.mp h
      exact .moved hcell .resume leaves_afterSink
  | performed d =>
      cases d <;> cases h <;> exact .leaves rfl (.unlock w f)
  | emit =>
      obtain ⟨cell, hcell, rfl⟩ := Option.map_eq_some_iff.mp h
      exact .leaves rfl (.emit rfl)

theorem demand_acts (h : w.demand f = some r) : Acts w t answer (.demand f) r.1 := by
  obtain ⟨cell, _, h⟩ := Option.bind_eq_some_iff.mp h
  split at h <;> cases h
  exact .leaves rfl (.refl w)

theorem call_acts {name : String} {payload : Value} {p : CallPoint}
    (h : w.call t name f payload answer p = some r) :
    Acts w t answer (.call name f payload p) r.1 := by
  cases p with
  | latch =>
      obtain ⟨cell, _, h⟩ := Option.bind_eq_some_iff.mp h
      split at h <;> cases h
      exact .leaves rfl (.refl w)
  | enter =>
      obtain ⟨th, hth, rfl⟩ := Option.map_eq_some_iff.mp h
      have hcalls : w.callsOf t = th.calls := by
        rw [callsOf, hth]
        rfl
      split
      · next hmem => exact .refuse (hcalls ▸ List.contains_iff_mem.mp hmem)
      · next hmem => exact .enter (hcalls ▸ mt List.contains_iff_mem.mpr hmem)
  | lock =>
      obtain ⟨w₁, hlock, rfl⟩ := Option.map_eq_some_iff.mp h
      exact .leaves rfl (.lock hlock)
  | inject =>
      obtain ⟨cell, hcell, _⟩ := Option.map_eq_some_iff.mp h
      rw [flow?_modifyFlow, if_pos rfl] at hcell
      obtain ⟨old, hold, rfl⟩ := Option.map_eq_some_iff.mp hcell
      refine .works hold .inject (.trans (.modifyAlike hold ?_) (startPull_leaves h))
      rfl
  | pulled =>
      cases h
      exact .leaves rfl (.refl w)
  | clear out =>
      cases h
      cases hcell : w.flow? f with
      | none =>
          rw [modifyFlow_none hcell]
          exact .absent hcell (.inl ⟨_, _, _, rfl⟩)
      | some cell => exact .works hcell .clear (.modifyAlike hcell rfl)
  | unlock out =>
      cases h
      exact .leaves rfl (.unlock w f)
  | leave out =>
      cases h
      exact .leave

theorem sinksActive_acts (h : w.sinksActive f = some r) : Acts w t answer (.sinksActive f) r.1 := by
  obtain ⟨cell, _, h⟩ := Option.bind_eq_some_iff.mp h
  split at h <;> cases h
  exact .leaves rfl (.refl w)

theorem sleep_acts {deadline : Nat} (h : w.sleep f deadline = some r) :
    Acts w t answer (.sleep f deadline) r.1 := by
  obtain ⟨cell, _, h⟩ := Option.bind_eq_some_iff.mp h
  split at h
  · cases h
    exact .leaves rfl (.refl w)
  · split at h <;> cases h
    exact .leaves rfl (.refl w)

theorem advance_acts {target : FlowState} {p : AdvancePoint} (h : w.advance f target p = some r) :
    Acts w t answer (.advance f target p) r.1 := by
  cases p with
  | swap =>
      obtain ⟨cell, _, rfl⟩ := Option.map_eq_some_iff.mp h
      refine .leaves rfl ?_
      split
      · exact .modifyRest fun _ => rfl
      · exact .refl w
  | emit before =>
      obtain ⟨cell, hcell, rfl⟩ := Option.map_eq_some_iff.mp h
      exact .announce hcell

theorem interrupt_acts {p : InterruptPoint} (h : w.interrupt f p = some r) :
    Acts w t answer (.interrupt f p) r.1 := by
  cases p with
  | sleeper =>
      cases h
      exact .cut
  | close =>
      obtain ⟨cell, _, rfl⟩ := Option.map_eq_some_iff.mp h
      refine .leaves rfl ?_
      split <;> exact .refl w
  | latch =>
      cases h
      exact .unlatch

theorem finish_acts {m : Monitor} {p : FinishPoint} (h : w.finish t f m p = some r) :
    Acts w t answer (.finish f m p) r.1 := by
  cases p with
  | monitor =>
      cases h
      exact .leaves rfl (.jot _)
  | lock =>
      obtain ⟨w₁, hlock, rfl⟩ := Option.map_eq_some_iff.mp h
      exact .leaves rfl (.lock hlock)
  | components =>
      obtain ⟨cell, hcell, rfl⟩ := Option.map_eq_some_iff.mp h
      exact .moved hcell .stop ((Leaves.jot _).trans (.unlock _ f))
  | ended | announced =>
      cases h
      exact .leaves rfl (.refl w)

/-- A monitor that is not parked stays so. -/
theorem setParts_unparked (hcell : w.flow? f = some cell) (hparked : cell.parked = none) :
    Leaves (w.setParts f cell.pipeline none) w := by
  refine .ofParts (fun g => ?_) rfl rfl rfl
  rw [setParts, map_modifyFlow]
  split
  · next hfg =>
    rw [← hfg, hcell]
    simp [FlowCell.parts, hparked]
  · rfl

theorem setParts_take (hcell : w.flow? f = some cell) :
    Leaves (w.setParts f cell.pipeline none) (w.modifyFlow f fun cell => { cell with parked := none }) :=
  .modifyAlike hcell rfl

theorem stop_acts {p : StopPoint} (h : w.stop f answer p = some r) :
    Acts w t answer (.stop f p) r.1 := by
  cases p with
  | interrupted =>
      obtain ⟨cell, hcell, rfl⟩ := Option.map_eq_some_iff.mp h
      refine .works hcell .stopTake ?_
      split
      · exact setParts_take hcell
      · next hparked => exact setParts_unparked hcell hparked
  | begin | advanced | finished =>
      cases h
      exact .leaves rfl (.refl w)

theorem stopAll_acts {left : List FlowId} (h : w.stopAll left = some r) :
    Acts w t answer (.stopAll left) r.1 := by
  refine .leaves rfl ?_
  cases left <;> cases h <;> exact .refl w

theorem drive_acts {m : Monitor} {move : MonitorMove} (h : w.drive f m move = some r) :
    Acts w t answer (.run f m (.drive move)) r.1 := by
  refine .leaves rfl ?_
  obtain ⟨cell, _, h⟩ := Option.bind_eq_some_iff.mp h
  dsimp only at h
  split at h
  · cases h
    exact .refl w
  · cases h
    exact .refl w
  · cases h
    exact .emit rfl
  · cases h
    exact .emit rfl
  · cases h
    exact .jot _
  · cases h
    exact .modifyRest fun _ => rfl
  · split at h <;> cases h
    exact .modifyRest fun _ => rfl
  · obtain ⟨b, _, rfl⟩ := Option.map_eq_some_iff.mp h
    exact .refl w

theorem run_acts {m : Monitor} {p : RunPoint} (h : w.run t f m answer p = some r) :
    Acts w t answer (.run f m p) r.1 := by
  cases p with
  | lock =>
      obtain ⟨w₁, hlock, rfl⟩ := Option.map_eq_some_iff.mp h
      exact .leaves rfl (.lock hlock)
  | release =>
      cases h
      exact .release
  | start =>
      obtain ⟨cell, hcell, rfl⟩ := Option.map_eq_some_iff.mp h
      exact .moved hcell .start ((Leaves.jot _).trans (.unlock _ f))
  | abandon =>
      cases h
      exact .leaves rfl (.unlock w f)
  | monitor =>
      cases h
      exact .leaves rfl (.jot _)
  | drive move => exact drive_acts h
  | fail d =>
      cases d with
      | ok u =>
          cases h
          exact .leaves rfl (.refl w)
      | error e =>
          obtain ⟨cell, _, rfl⟩ := Option.map_eq_some_iff.mp h
          exact .leaves rfl (.emit rfl)
  | decide d =>
      cases d <;> cases h
      · exact .leaves rfl (.refl w)
      · change Acts w t answer _ (if m.body.endsFlow || w.stopping f then _ else _ : World × Turn).1
        split <;> exact .leaves rfl (.refl w)
  | interrupt d =>
      cases h
      cases MonitorBody.yes answer <;> exact .leaves rfl (.refl w)
  | park d =>
      cases h
      cases hcell : w.flow? f with
      | none =>
          rw [modifyFlow_none hcell]
          exact .absent hcell (.inr ⟨_, _, rfl⟩)
      | some cell => exact .works hcell .park (.modifyAlike hcell rfl)
  | parked d =>
      simp only [World.run, Option.some.injEq] at h
      subst h
      split <;> exact .leaves rfl (.refl w)
  | retake d =>
      obtain ⟨cell, hcell, rfl⟩ := Option.map_eq_some_iff.mp h
      refine .works hcell .retake ?_
      split
      · exact setParts_take hcell
      · next hparked => exact setParts_unparked hcell hparked
  | advance | advanced | abandoned | acting _ | judge _ | ending _ | finish _ | finished _ =>
      cases h
      exact .leaves rfl (.refl w)

theorem checkState_leaves {state : FlowState} {next : Activity}
    (h : w.checkState f state next = some r) : Leaves w r.1 := by
  obtain ⟨cell, _, rfl⟩ := Option.map_eq_some_iff.mp h
  split <;> exact .refl w

theorem unlessFailed_leaves {next : World × Turn} (h : Leaves w next.1) :
    Leaves w (w.unlessFailed answer next).1 := by
  cases answer with
  | ok v => exact h
  | error e => exact .refl w

/-- A hook that leaves the parts of a flow but its components and its monitor works on these. -/
theorem leaves_afterHook (hcell : w.flow? f = some cell) {k : HookEnd FlowCell}
    (hbody : k.body.parts =
      { cell.parts with pipeline := k.body.pipeline, parked := k.body.parked }) (next : Activity) :
    Leaves (w.setParts f k.body.pipeline k.body.parked) (w.afterHook f k next).1 := by
  have hfirst : Leaves (w.setParts f k.body.pipeline k.body.parked)
      (w.modifyFlow f fun _ => k.body) :=
    .modifyAlike hcell hbody
  unfold afterHook
  dsimp only
  split <;> exact hfirst.trans (.jot _)

theorem onPipeline_acts {hook : Pipeline → HookEnd Pipeline} {next : Activity}
    (h : w.onPipeline f hook next = some r) (hworks : ∀ cell, w.flow? f = some cell →
      Works w answer f cell a (hook cell.pipeline).body cell.parked) : Acts w t answer a r.1 := by
  obtain ⟨cell, hcell, h⟩ := Option.bind_eq_some_iff.mp h
  split at h <;> cases h
  exact .works hcell (hworks cell hcell) (leaves_afterHook hcell
    (k := (hook cell.pipeline).map fun p => { cell with pipeline := p }) rfl next)

theorem contextualize_acts {p : ContextPoint} (h : w.contextualize f answer p = some r) :
    Acts w t answer (.contextualize f p) r.1 := by
  cases p with
  | check => exact .leaves rfl (checkState_leaves h)
  | child =>
      cases h
      exact .leaves rfl (.scopes (.addChild _ _))
  | «global» scope =>
      obtain ⟨cell, _, rfl⟩ := Option.map_eq_some_iff.mp h
      exact .leaves rfl (unlessFailed_leaves (.refl w))
  | named scope =>
      cases h
      exact .leaves rfl (unlessFailed_leaves (.refl w))
  | attach scope =>
      obtain ⟨cell, hcell, h⟩ := Option.bind_eq_some_iff.mp h
      refine onPipeline_acts h fun other hother => ?_
      rw [hcell] at hother
      cases hother
      exact .attach
  | monitor scope =>
      obtain ⟨cell, hcell, rfl⟩ := Option.map_eq_some_iff.mp h
      refine .works hcell .monitor (leaves_afterHook hcell ?_ _)
      unfold attachMonitor
      split <;> rfl
  | record scope =>
      cases h
      exact .record
  | advance | advanced =>
      cases h
      exact .leaves rfl (.refl w)

theorem prepare_acts {p : PreparePoint} (h : w.prepare f p = some r) :
    Acts w t answer (.prepare f p) r.1 := by
  cases p with
  | check => exact .leaves rfl (checkState_leaves h)
  | components => exact onPipeline_acts h fun _ _ => .setUp
  | monitor =>
      obtain ⟨cell, hcell, rfl⟩ := Option.map_eq_some_iff.mp h
      have hbody : ∃ parked, (prepareMonitor w.scopes cell).body = { cell with parked := parked } := by
        unfold prepareMonitor
        split
        · exact ⟨cell.parked, rfl⟩
        · exact ⟨_, rfl⟩
      obtain ⟨parked, hbody⟩ := hbody
      have hleaves := leaves_afterHook hcell (k := prepareMonitor w.scopes cell)
        (by rw [hbody]; rfl) (.prepare f .advance)
      have hpipeline : (prepareMonitor w.scopes cell).body.pipeline = cell.pipeline := by rw [hbody]
      rw [hpipeline] at hleaves
      exact .works hcell .setUpMonitor hleaves
  | advance | advanced =>
      cases h
      exact .leaves rfl (.refl w)

theorem wire_acts {inflows : List Outflow} {p : WirePoint} (h : w.wire f inflows p = some r) :
    Acts w t answer (.wire f inflows p) r.1 := by
  cases p with
  | check => exact .leaves rfl (checkState_leaves h)
  | source => exact onPipeline_acts h fun _ _ => .wire
  | advance | advanced =>
      cases h
      exact .leaves rfl (.refl w)

theorem setUpAll_acts {p : SetUpPoint} (h : w.setUpAll answer p = some r) :
    Acts w t answer (.setUpAll p) r.1 := by
  refine .leaves rfl ?_
  unfold setUpAll at h
  cases p with
  | context left | prepare left =>
      cases left <;> cases h <;> exact unlessFailed_leaves (.refl w)
  | gather left done =>
      cases left with
      | nil =>
          cases h
          exact unlessFailed_leaves (.refl w)
      | cons flow left =>
          obtain ⟨more, _, h⟩ := Option.bind_eq_some_iff.mp h
          cases h
          exact unlessFailed_leaves (.refl w)
  | wire left all =>
      cases left with
      | nil =>
          cases h
          exact unlessFailed_leaves (.refl w)
      | cons flow left =>
          obtain ⟨cell, _, h⟩ := Option.bind_eq_some_iff.mp h
          cases h
          exact unlessFailed_leaves (.refl w)

theorem launch_acts {checked : Bool} (h : w.launch f checked = some r) :
    Acts w t answer (.launch f checked) r.1 := by
  obtain ⟨cell, hcell, rfl⟩ := Option.map_eq_some_iff.mp h
  cases checked with
  | false =>
      refine .leaves rfl ?_
      simp only [Bool.false_eq_true, if_false]
      split <;> exact .refl w
  | true =>
      refine .works hcell .launch ?_
      simp only [if_true]
      split
      · next hparked => exact setParts_unparked hcell hparked
      · next m _ =>
        split
        · have hrun : ∀ s key wait, Activity.run f m .lock ≠ .look s key wait .asleep :=
            fun _ _ _ h => Activity.noConfusion h
          exact ((setParts_take hcell).trans (.spawn hrun)).trans (.modifyRest fun _ => rfl)
        · exact setParts_take hcell

theorem awaitStart_acts (h : w.awaitStart f = some r) : Acts w t answer (.awaitStart f) r.1 := by
  obtain ⟨cell, _, h⟩ := Option.bind_eq_some_iff.mp h
  split at h <;> cases h
  exact .leaves rfl (.refl w)

theorem join_acts (h : w.join f = some r) : Acts w t answer (.join f) r.1 := by
  refine .leaves rfl ?_
  obtain ⟨cell, _, h⟩ := Option.bind_eq_some_iff.mp h
  split at h
  · cases h
    exact .refl w
  · obtain ⟨th, _, h⟩ := Option.bind_eq_some_iff.mp h
    obtain ⟨out, _, rfl⟩ := Option.map_eq_some_iff.mp h
    exact .modifyRest fun _ => rfl

theorem joinAll_acts {left : List FlowId} {failed : Done} {joining : Bool}
    (h : w.joinAll left failed joining answer = some r) :
    Acts w t answer (.joinAll left failed joining) r.1 := by
  refine .leaves rfl ?_
  cases left <;> cases h <;> exact .refl w

theorem startAll_acts {p : StartPoint} (h : w.startAll answer p = some r) :
    Acts w t answer (.startAll p) r.1 := by
  refine .leaves rfl ?_
  unfold startAll at h
  cases p with
  | launch left | await left => cases left <;> cases h <;> exact .refl w
  | launched left => cases answer <;> cases h <;> exact .refl w
  | abort | aborted | join | joined | stopped =>
      cases h
      exact .refl w

theorem runAll_acts {p : RunAllPoint} (h : w.runAll answer p = some r) :
    Acts w t answer (.runAll p) r.1 := by
  refine .leaves rfl ?_
  cases p with
  | ready => cases answer <;> cases h <;> exact .refl w
  | begin | stopped =>
      cases h
      exact .refl w

/-- What a step of any activity does beside moving threads. -/
theorem step_acts (h : a.step w t answer = some r) : Acts w t answer a r.1 := by
  cases a with
  | look s key wait p => exact look_acts h
  | write s key e first p => exact write_acts h
  | close s p => exact close_acts h
  | host request => cases h
  | pull f p => exact pull_acts h
  | read f p => exact read_acts h
  | push f v p => exact push_acts h
  | demand f => exact demand_acts h
  | call name f payload p => exact call_acts h
  | sinksActive f => exact sinksActive_acts h
  | sleep f deadline => exact sleep_acts h
  | advance f target p => exact advance_acts h
  | interrupt f p => exact interrupt_acts h
  | finish f m p => exact finish_acts h
  | stop f p => exact stop_acts h
  | stopAll left => exact stopAll_acts h
  | run f m p => exact run_acts h
  | contextualize f p => exact contextualize_acts h
  | prepare f p => exact prepare_acts h
  | wire f inflows p => exact wire_acts h
  | launch f checked => exact launch_acts h
  | awaitStart f => exact awaitStart_acts h
  | join f => exact join_acts h
  | joinAll left failed joining => exact joinAll_acts h
  | setUpAll p => exact setUpAll_acts h
  | startAll p => exact startAll_acts h
  | runAll p => exact runAll_acts h

/-- A turn of a thread with what it does: a step, or the end of a wait for the host. -/
structure Takes (w : World) (t : ThreadId) (a : Activity) (rest : List Activity) (w₁ : World)
    (turn : Turn) : Prop where
  goes : Goes w t a rest w₁ turn
  acts : Acts w t (w.answerOf t) a w₁
  does : a.step w t (w.answerOf t) = some (w₁, turn) ∨
    ∃ r out, a = .host r ∧ w₁ = w ∧ turn = .exit out

theorem takes_of_step (h : w.step t = some w₁) :
    ∃ a rest w' turn, Takes w t a rest w' turn ∧ w.doing? t = some a ∧ w₁ = w'.turn t turn := by
  obtain ⟨a, ha⟩ := doing?_of_step h
  obtain ⟨rest, w', turn, hgoes, rfl⟩ := goes_of_step ha h
  obtain hturn | ⟨r, rfl⟩ := hgoes.step
  · exact ⟨a, rest, w', turn, ⟨hgoes, step_acts hturn, .inl hturn⟩, ha, rfl⟩
  · rw [step_of_host ha] at h
    cases h

/-- What every turn keeps, seen with what it does, holds in every state of a run. -/
theorem Run.every {start : World} {P : List Taken → World → Prop} (hstart : P [] start)
    (htick : ∀ trace w nanos, P trace w → P trace (w.tick nanos))
    (htakes : ∀ trace w t a rest w₁ turn, Takes w t a rest w₁ turn → P trace w →
      P (⟨w, t, a⟩ :: trace) (w₁.turn t turn))
    {trace : List Taken} {w : World} (h : Run start trace w) : P trace w := by
  induction h with
  | refl => exact hstart
  | step _ ha hstep ih =>
      obtain ⟨b, rest, w₁, turn, hturn, hb, rfl⟩ := takes_of_step hstep
      obtain rfl : b = _ := Option.some.inj (hb.symm.trans ha)
      exact htakes _ _ _ _ _ _ _ hturn ih
  | @host trace w t r out _ ha ih =>
      have hanswered : w.hostReply t out = w.turn t (.exit out) := by
        cases hstack : w.stackOf t with
        | nil => simp [doing?, hstack] at ha
        | cons a rest =>
            have hhost : a = .host r := by simpa [doing?, hstack] using ha
            subst hhost
            cases hth : w.threads[t]? with
            | none => simp [stackOf, hth] at hstack
            | some th =>
                rw [stackOf_of_get hth] at hstack
                simp [hostReply, hostRequest?, hth, hstack]
      obtain ⟨rest, htasks⟩ := tasks_of_doing ha
      rw [hanswered]
      exact htakes _ _ _ _ _ _ _ ⟨⟨htasks, .plain rfl (.refl w) trivial, .inr ⟨r, rfl⟩⟩,
        .leaves rfl (.refl w), .inr ⟨r, out, rfl, rfl, rfl⟩⟩ ih
  | tick _ ih => exact htick _ _ _ ih

end World
end PullFlow.Engine
