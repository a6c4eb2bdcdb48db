import PullFlow.Proofs.Engine.Nested
import PullFlow.Proofs.Scope.Filled
import PullFlow.Proofs.Variables

/-!
Steps that leave variables alone. Once flows are set up, only the evaluation of a chain, a payload
at the sink of a flow and a write do anything to what sinks know of their variables or to the
entries of scopes. All other activities at most start or stop the components of a flow, under its
lock.
-/

namespace PullFlow.Engine

/-- Whether an activity belongs neither to the set-up of flows nor to the evaluation of a chain nor
to a write, and waits for no sink. -/
def Activity.aloof : Activity → Bool
  | .contextualize .. | .prepare .. | .wire .. | .setUpAll _ | .runAll .begin => false
  | .write .. | .pull .. | .push _ _ (.serving _) => false
  | _ => true

/-- Whether a payload comes to the sink of a flow. -/
def Activity.feeds : Activity → Bool
  | .push _ _ .begin => true
  | _ => false

/-- What a turn leaves on top waits for no sink and no write, but it may enter the chain of a flow
whose lock it has. -/
def Turn.Tended (a : Activity) (turn : Turn) : Prop :=
  (∀ b ∈ turn.frames, b.aloof = true) ∨
    ∃ f back, turn = .invoke (.pull f .enter) back ∧ a.holds? = some f ∧ back.layer = .entry f ∧
      back.aloof = true

namespace World

def pipeline? (w : World) (f : FlowId) : Option Pipeline := (w.flow? f).map (·.pipeline)

/-- An activity does no more than move the components of a flow whose lock it has. -/
structure Tends (a : Activity) (w w₁ : World) : Prop where
  pipeline : ∀ f, w₁.pipeline? f = w.pipeline? f ∨ a.holds? = some f ∧
    ∃ p p', w.pipeline? f = some p ∧ w₁.pipeline? f = some p' ∧ p.Upkept p'
  scopes : w.scopes.Alike w₁.scopes

variable {w w₁ w₂ : World} {t : ThreadId} {f : FlowId} {a b back callee : Activity}
  {answer out : Outcome} {turn : Turn} {r : World × Turn}

theorem pipeline?_modifyFlow (w : World) (f g : FlowId) (change : FlowCell → FlowCell) :
    (w.modifyFlow f change).pipeline? g =
      if f = g then (w.flow? g).map fun cell => (change cell).pipeline else w.pipeline? g := by
  rw [pipeline?, flow?_modifyFlow]
  split
  · rw [Option.map_map]
    rfl
  · rfl

namespace Tends

theorem refl (a : Activity) (w : World) : Tends a w w := ⟨fun _ => .inl rfl, .refl _⟩

theorem trans (h : Tends a w w₁) (h' : Tends a w₁ w₂) : Tends a w w₂ := by
  refine ⟨fun f => ?_, ?_⟩
  · obtain hsame | ⟨hholds, p, p', hp, hp', hkept⟩ := h.pipeline f
    · rw [← hsame]
      exact h'.pipeline f
    · obtain hsame' | ⟨_, q, q', hq, hq', hkept'⟩ := h'.pipeline f
      · exact .inr ⟨hholds, p, p', hp, hsame'.trans hp', hkept⟩
      · rw [hp'] at hq
        cases hq
        exact .inr ⟨hholds, p, q', hp, hq', hkept.trans hkept'⟩
  · exact h.scopes.trans h'.scopes

/-- A change of a flow beside its components. -/
theorem modifyRest {change : FlowCell → FlowCell}
    (h : ∀ cell, (change cell).pipeline = cell.pipeline) : Tends a w (w.modifyFlow f change) := by
  refine ⟨fun g => .inl ?_, .refl _⟩
  rw [pipeline?_modifyFlow]
  split
  · rw [pipeline?]
    congr 1
    funext cell
    exact h cell
  · rfl

theorem setPipeline {cell : FlowCell} (hcell : w.flow? f = some cell) (hholds : a.holds? = some f)
    {p : Pipeline} (hp : cell.pipeline.Upkept p) : Tends a w (w.setPipeline f p) := by
  refine ⟨fun g => ?_, .refl _⟩
  rw [World.setPipeline, pipeline?_modifyFlow]
  split
  · next hfg =>
    subst hfg
    exact .inr ⟨hholds, cell.pipeline, p, by rw [pipeline?, hcell]; rfl, by rw [hcell]; rfl, hp⟩
  · exact .inl rfl

theorem scopesOnly {st : Scope.Store} (h : w.scopes.Alike st) : Tends a w { w with scopes := st } :=
  ⟨fun _ => .inl rfl, h⟩

theorem jot (notes : List Note) : Tends a w (w.jot notes) := ⟨fun _ => .inl rfl, .refl _⟩

theorem emit (e : Event) : Tends a w (w.emit e) := ⟨fun _ => .inl rfl, .refl _⟩

theorem wake (s : ScopeId) : Tends a w (w.wake s) := ⟨fun _ => .inl rfl, .refl _⟩

theorem modifyThread (change : Thread → Thread) : Tends a w (w.modifyThread t change) :=
  ⟨fun _ => .inl rfl, .refl _⟩

theorem spawn (b : Activity) : Tends a w (w.spawn b).1 := ⟨fun _ => .inl rfl, .refl _⟩

theorem unlock (w : World) (f : FlowId) : Tends a w (w.unlock f) := .modifyRest fun _ => rfl

theorem lock (h : w.lock t f = some w₁) : Tends a w w₁ := by
  unfold World.lock at h
  split at h
  · split at h <;> cases h
    exact .modifyRest fun _ => rfl
  · cases h

theorem enterGate {s : ScopeId} (h : w.enterGate t s = some w₁) : Tends a w w₁ := by
  unfold World.enterGate at h
  dsimp only at h
  split at h
  · split at h <;> cases h
    exact .scopesOnly (Scope.Store.alike_update _ _ (fun _ => rfl) (fun _ => rfl) fun _ => rfl)
  · cases h

theorem leaveGate (w : World) (s : ScopeId) : Tends a w (w.leaveGate s) :=
  .scopesOnly (Scope.Store.alike_update _ _ (fun _ => rfl) (fun _ => rfl) fun _ => rfl)

end Tends

/-- What a step of an activity beside chains, sinks and writes does. -/
structure Light (w : World) (a : Activity) (r : World × Turn) : Prop where
  tends : Tends a w r.1
  turn : r.2.Tended a

namespace Light

theorem goto (h : Tends a w w₁) (hb : b.aloof = true) : Light w a (w₁, .goto b out) :=
  ⟨h, .inl (List.forall_mem_singleton.mpr hb)⟩

theorem invoke (h : Tends a w w₁) (hcallee : callee.aloof = true) (hback : back.aloof = true) :
    Light w a (w₁, .invoke callee back) :=
  ⟨h, .inl (List.forall_mem_cons.mpr ⟨hcallee, List.forall_mem_singleton.mpr hback⟩)⟩

theorem exit (h : Tends a w w₁) : Light w a (w₁, .exit out) :=
  ⟨h, .inl fun _ hb => nomatch hb⟩

theorem enter (h : Tends a w w₁) (hholds : a.holds? = some f) (hlayer : back.layer = .entry f)
    (hback : back.aloof = true) : Light w a (w₁, .invoke (.pull f .enter) back) :=
  ⟨h, .inr ⟨f, back, rfl, hholds, hlayer, hback⟩⟩

end Light

theorem look_light {s : ScopeId} {key : String} {wait : Bool} {p : LookPoint}
    (h : w.look t s key wait p = some r) : Light w (.look s key wait p) r := by
  unfold look at h
  split at h
  · cases h
    exact .exit (.refl _ w)
  · split at h <;> cases h
    · exact .goto (.refl _ w) rfl
    · exact .exit (.refl _ w)
  · cases h
    exact .goto (.refl _ w) rfl
  · obtain ⟨w₁, henter, rfl⟩ := Option.map_eq_some_iff.mp h
    exact .goto (.enterGate henter) rfl
  · cases h
    exact .exit (.leaveGate w s)
  · cases h
    exact .goto (.refl _ w) rfl
  · cases h
    exact .goto (.refl _ w) rfl
  · split at h <;> cases h
    · exact .exit (.leaveGate w s)
    · exact .goto (.leaveGate w s) rfl
  · cases h

theorem close_light {s : ScopeId} {p : ClosePoint} (h : w.close s p = some r) :
    Light w (.close s p) r := by
  cases p with
  | mark =>
      cases h
      exact .goto (.scopesOnly (Scope.Store.alike_close _ s)) rfl
  | wake =>
      simp only [World.close] at h
      split at h <;> cases h
      exact .exit (.wake s)

theorem startPull_light (h : w₁.startPull f back = some r) (htends : Tends a w w₁)
    (hholds : a.holds? = some f) (hlayer : back.layer = .entry f) (hback : back.aloof = true) :
    Light w a r := by
  obtain ⟨cell, _, rfl⟩ := Option.map_eq_some_iff.mp h
  split
  · exact .goto htends hback
  · exact .enter htends hholds hlayer hback

theorem read_light {p : ReadPoint} (h : w.read t f answer p = some r) : Light w (.read f p) r := by
  cases p with
  | lock =>
      obtain ⟨w₁, hlock, rfl⟩ := Option.map_eq_some_iff.mp h
      exact .goto (.lock hlock) rfl
  | start => exact startPull_light h (.refl _ w) rfl rfl rfl
  | unlock out =>
      cases h
      exact .exit (.unlock w f)
  | pulled =>
      cases h
      exact .goto (.refl _ w) rfl

/-- A payload is only looked at while the sink takes it. -/
theorem push_light {v : Value} {p : PushPoint} (hfeeds : (Activity.push f v p).feeds = false)
    (haloof : (Activity.push f v p).aloof = true) (h : w.push t f v answer p = some r) :
    Light w (.push f v p) r := by
  unfold push at h
  split at h
  · obtain ⟨w₁, hlock, rfl⟩ := Option.map_eq_some_iff.mp h
    exact .goto (.lock hlock) rfl
  · cases hfeeds
  · cases haloof
  · cases h
    exact .goto (.unlock w f) rfl
  · cases h
    exact .exit (.unlock w f)
  · obtain ⟨cell, _, rfl⟩ := Option.map_eq_some_iff.mp h
    exact .exit (.emit _)

theorem demand_light (h : w.demand f = some r) : Light w (.demand f) r := by
  obtain ⟨cell, _, h⟩ := Option.bind_eq_some_iff.mp h
  split at h <;> cases h
  exact .goto (.refl _ w) rfl

theorem setInjected_upkept (v : Option Value) (p : Pipeline) : p.Upkept (setInjected v p) := by
  unfold setInjected
  split
  · refine ⟨fun seat => ?_, .inl rfl⟩
    cases seat <;> rfl
  · exact .refl p

theorem tends_setInjected (v : Option Value) (hholds : a.holds? = some f) :
    Tends a w (w.modifyFlow f fun cell => { cell with pipeline := setInjected v cell.pipeline }) := by
  refine ⟨fun g => ?_, .refl _⟩
  rw [pipeline?_modifyFlow]
  split
  · next hfg =>
    subst hfg
    cases hcell : w.flow? f with
    | none => exact .inl (by rw [pipeline?, hcell]; rfl)
    | some cell =>
        exact .inr ⟨hholds, cell.pipeline, _, by rw [pipeline?, hcell]; rfl, rfl,
          setInjected_upkept v cell.pipeline⟩
  · exact .inl rfl

theorem call_light {name : String} {payload : Value} {p : CallPoint}
    (h : w.call t name f payload answer p = some r) : Light w (.call name f payload p) r := by
  cases p with
  | latch =>
      obtain ⟨cell, _, h⟩ := Option.bind_eq_some_iff.mp h
      split at h <;> cases h
      exact .goto (.refl _ w) rfl
  | enter =>
      obtain ⟨th, _, rfl⟩ := Option.map_eq_some_iff.mp h
      split
      · exact .exit (.refl _ w)
      · exact .goto (.modifyThread _) rfl
  | lock =>
      obtain ⟨w₁, hlock, rfl⟩ := Option.map_eq_some_iff.mp h
      exact .goto (.lock hlock) rfl
  | inject => exact startPull_light h (tends_setInjected _ rfl) rfl rfl rfl
  | pulled =>
      cases h
      exact .goto (.refl _ w) rfl
  | clear out =>
      cases h
      exact .goto (tends_setInjected _ rfl) rfl
  | unlock out =>
      cases h
      exact .goto (.unlock w f) rfl
  | leave out =>
      cases h
      exact .exit (.modifyThread _)

theorem sinksActive_light (h : w.sinksActive f = some r) : Light w (.sinksActive f) r := by
  obtain ⟨cell, _, h⟩ := Option.bind_eq_some_iff.mp h
  split at h <;> cases h
  exact .exit (.refl _ w)

theorem sleep_light {deadline : Nat} (h : w.sleep f deadline = some r) :
    Light w (.sleep f deadline) r := by
  obtain ⟨cell, _, h⟩ := Option.bind_eq_some_iff.mp h
  split at h
  · cases h
    exact .exit (.refl _ w)
  · split at h <;> cases h
    exact .exit (.refl _ w)

theorem advance_light {target : FlowState} {p : AdvancePoint} (h : w.advance f target p = some r) :
    Light w (.advance f target p) r := by
  cases p with
  | swap =>
      obtain ⟨cell, _, rfl⟩ := Option.map_eq_some_iff.mp h
      split
      · exact .goto (.modifyRest fun _ => rfl) rfl
      · exact .exit (.refl _ w)
  | emit before =>
      obtain ⟨cell, _, rfl⟩ := Option.map_eq_some_iff.mp h
      exact .exit (.emit _)

theorem interrupt_light {p : InterruptPoint} (h : w.interrupt f p = some r) :
    Light w (.interrupt f p) r := by
  cases p with
  | sleeper =>
      cases h
      exact .goto (.modifyRest fun _ => rfl) rfl
  | close =>
      obtain ⟨cell, _, rfl⟩ := Option.map_eq_some_iff.mp h
      split
      · exact .invoke (.refl _ w) rfl rfl
      · exact .goto (.refl _ w) rfl
  | latch =>
      cases h
      exact .exit (.modifyRest fun _ => rfl)

theorem finish_light {m : Monitor} {p : FinishPoint} (h : w.finish t f m p = some r) :
    Light w (.finish f m p) r := by
  cases p with
  | monitor =>
      cases h
      exact .goto (.jot _) rfl
  | lock =>
      obtain ⟨w₁, hlock, rfl⟩ := Option.map_eq_some_iff.mp h
      exact .goto (.lock hlock) rfl
  | components =>
      obtain ⟨cell, hcell, rfl⟩ := Option.map_eq_some_iff.mp h
      exact .goto (((Tends.setPipeline hcell rfl (.stop _)).trans (.jot _)).trans (.unlock _ f)) rfl
  | ended =>
      cases h
      exact .invoke (.refl _ w) rfl rfl
  | announced =>
      cases h
      exact .exit (.refl _ w)

theorem stop_light {p : StopPoint} (h : w.stop f answer p = some r) : Light w (.stop f p) r := by
  cases p with
  | begin =>
      cases h
      exact .invoke (.refl _ w) rfl rfl
  | advanced =>
      cases h
      cases MonitorBody.yes answer with
      | true => exact .invoke (.refl _ w) rfl rfl
      | false => exact .exit (.refl _ w)
  | interrupted =>
      obtain ⟨cell, _, rfl⟩ := Option.map_eq_some_iff.mp h
      split
      · exact .invoke (.modifyRest fun _ => rfl) rfl rfl
      · exact .exit (.refl _ w)
  | finished =>
      cases h
      exact .exit (.refl _ w)

theorem stopAll_light {left : List FlowId} (h : w.stopAll left = some r) :
    Light w (.stopAll left) r := by
  cases left with
  | nil =>
      cases h
      exact .exit (.refl _ w)
  | cons f left =>
      cases h
      exact .invoke (.refl _ w) rfl rfl

theorem drive_light {m : Monitor} {move : MonitorMove} (h : w.drive f m move = some r) :
    Light w (.run f m (.drive move)) r := by
  obtain ⟨cell, _, h⟩ := Option.bind_eq_some_iff.mp h
  dsimp only at h
  split at h
  · cases h
    exact .goto (.refl _ w) rfl
  · cases h
    exact .goto (.refl _ w) rfl
  · cases h
    exact .goto (.emit _) rfl
  · cases h
    exact .goto (.emit _) rfl
  · cases h
    exact .goto (.jot _) rfl
  · cases h
    exact .goto (.modifyRest fun _ => rfl) rfl
  · split at h <;> cases h
    exact .goto (.modifyRest fun _ => rfl) rfl
  · obtain ⟨b, hb, rfl⟩ := Option.map_eq_some_iff.mp h
    refine .invoke (.refl _ w) ?_ rfl
    unfold actionOf? at hb
    split at hb <;> cases hb <;> rfl

theorem run_light {m : Monitor} {p : RunPoint} (h : w.run t f m answer p = some r) :
    Light w (.run f m p) r := by
  cases p with
  | lock =>
      obtain ⟨w₁, hlock, rfl⟩ := Option.map_eq_some_iff.mp h
      exact .goto (.lock hlock) rfl
  | advance =>
      cases h
      exact .invoke (.refl _ w) rfl rfl
  | advanced =>
      cases h
      exact .goto (.refl _ w) rfl
  | release =>
      cases h
      exact .goto (.modifyRest fun _ => rfl) rfl
  | start =>
      obtain ⟨cell, hcell, rfl⟩ := Option.map_eq_some_iff.mp h
      exact .goto (((Tends.setPipeline hcell rfl (.start _)).trans (.jot _)).trans (.unlock _ f)) rfl
  | abandon =>
      cases h
      exact .goto (.unlock w f) rfl
  | abandoned =>
      cases h
      exact .invoke (.refl _ w) rfl rfl
  | monitor =>
      cases h
      exact .goto (.jot _) rfl
  | drive move => exact drive_light h
  | acting wait =>
      cases h
      exact .goto (.refl _ w) rfl
  | judge d =>
      cases h
      exact .goto (.refl _ w) rfl
  | fail d =>
      cases d with
      | ok u =>
          cases h
          exact .goto (.refl _ w) rfl
      | error e =>
          obtain ⟨cell, _, rfl⟩ := Option.map_eq_some_iff.mp h
          exact .goto (.emit _) rfl
  | decide d =>
      cases d with
      | ok u =>
          cases h
          change Light w _ (if m.body.endsFlow || w.stopping f then _ else _)
          split
          · exact .goto (.refl _ w) rfl
          · exact .goto (.refl _ w) rfl
      | error e =>
          cases h
          exact .goto (.refl _ w) rfl
  | ending d =>
      cases h
      exact .invoke (.refl _ w) rfl rfl
  | interrupt d =>
      cases h
      cases MonitorBody.yes answer with
      | true => exact .invoke (.refl _ w) rfl rfl
      | false => exact .goto (.refl _ w) rfl
  | finish d =>
      cases h
      exact .invoke (.refl _ w) rfl rfl
  | park d =>
      cases h
      exact .goto (.modifyRest fun _ => rfl) rfl
  | parked d =>
      simp only [World.run, Option.some.injEq] at h
      subst h
      split
      · exact .goto (.refl _ w) rfl
      · exact .exit (.refl _ w)
  | retake d =>
      obtain ⟨cell, _, rfl⟩ := Option.map_eq_some_iff.mp h
      split
      · exact .invoke (.modifyRest fun _ => rfl) rfl rfl
      · exact .exit (.refl _ w)
  | finished d =>
      cases h
      exact .exit (.refl _ w)

theorem launch_light {checked : Bool} (h : w.launch f checked = some r) :
    Light w (.launch f checked) r := by
  obtain ⟨cell, _, rfl⟩ := Option.map_eq_some_iff.mp h
  split
  · split
    · exact .exit (.refl _ w)
    · next m _ =>
      have htake : Tends (.launch f checked) w
          (w.modifyFlow f fun cell => { cell with parked := none }) := .modifyRest fun _ => rfl
      dsimp only
      split
      · refine .exit ((htake.trans (.spawn (.run f m .lock))).trans ?_)
        exact .modifyRest fun _ => rfl
      · exact .goto htake rfl
  · split
    · exact .goto (.refl _ w) rfl
    · exact .exit (.refl _ w)

theorem awaitStart_light (h : w.awaitStart f = some r) : Light w (.awaitStart f) r := by
  obtain ⟨cell, _, h⟩ := Option.bind_eq_some_iff.mp h
  split at h <;> cases h
  exact .exit (.refl _ w)

theorem join_light (h : w.join f = some r) : Light w (.join f) r := by
  obtain ⟨cell, _, h⟩ := Option.bind_eq_some_iff.mp h
  split at h
  · cases h
    exact .exit (.refl _ w)
  · obtain ⟨th, _, h⟩ := Option.bind_eq_some_iff.mp h
    obtain ⟨out, _, rfl⟩ := Option.map_eq_some_iff.mp h
    exact .exit (.modifyRest fun _ => rfl)

theorem joinAll_light {left : List FlowId} {failed : Done} {joining : Bool}
    (h : w.joinAll left failed joining answer = some r) :
    Light w (.joinAll left failed joining) r := by
  cases left with
  | nil =>
      cases h
      exact .exit (.refl _ w)
  | cons f left =>
      cases h
      exact .invoke (.refl _ w) rfl rfl

theorem startAll_light {p : StartPoint} (h : w.startAll answer p = some r) :
    Light w (.startAll p) r := by
  have hinvoke {callee : Activity} {p' : StartPoint} (hcallee : callee.aloof = true) :
      Light w (.startAll p) (w, .invoke callee (.startAll p')) := .invoke (.refl _ w) hcallee rfl
  unfold startAll at h
  cases p with
  | launch left =>
      cases left <;> cases h
      · exact .goto (.refl _ w) rfl
      · exact hinvoke rfl
  | launched left =>
      cases answer <;> cases h
      · exact hinvoke rfl
      · exact .goto (.refl _ w) rfl
  | abort e =>
      cases h
      exact hinvoke rfl
  | aborted e =>
      cases h
      exact .exit (.refl _ w)
  | await left =>
      cases left <;> cases h
      · exact .goto (.refl _ w) rfl
      · exact hinvoke rfl
  | join =>
      cases h
      exact hinvoke rfl
  | joined =>
      cases h
      exact hinvoke rfl
  | stopped out =>
      cases h
      exact .exit (.refl _ w)

theorem runAll_light {p : RunAllPoint} (haloof : (Activity.runAll p).aloof = true)
    (h : w.runAll answer p = some r) : Light w (.runAll p) r := by
  cases p with
  | begin => cases haloof
  | ready =>
      cases answer <;> cases h
      · exact .invoke (.refl _ w) rfl rfl
      · exact .goto (.refl _ w) rfl
  | stopped e =>
      cases h
      exact .exit (.refl _ w)

/-- An activity that is aloof stays so, and at most moves the components of a flow whose lock it has
or enters its chain. -/
theorem step_light (haloof : a.aloof = true) (hfeeds : a.feeds = false)
    (h : a.step w t answer = some r) : Light w a r := by
  cases a with
  | look s key wait p => exact look_light h
  | write s key e first p => cases haloof
  | close s p => exact close_light h
  | host request => cases h
  | pull f p => cases haloof
  | read f p => exact read_light h
  | push f v p => exact push_light hfeeds haloof h
  | demand f => exact demand_light h
  | call name f payload p => exact call_light h
  | sinksActive f => exact sinksActive_light h
  | sleep f deadline => exact sleep_light h
  | advance f target p => exact advance_light h
  | interrupt f p => exact interrupt_light h
  | finish f m p => exact finish_light h
  | stop f p => exact stop_light h
  | stopAll left => exact stopAll_light h
  | run f m p => exact run_light h
  | contextualize f p => cases haloof
  | prepare f p => cases haloof
  | wire f inflows p => cases haloof
  | launch f checked => exact launch_light h
  | awaitStart f => exact awaitStart_light h
  | join f => exact join_light h
  | joinAll left failed joining => exact joinAll_light h
  | setUpAll p => cases haloof
  | startAll p => exact startAll_light h
  | runAll p => exact runAll_light haloof h

end World
end PullFlow.Engine
