import PullFlow.Proofs.Engine.Locks

/-!
Every step keeps to the plan: what it changes in a flow, what it waits for and which lock it takes
or gives back, one lemma for each sort of activity.
-/

namespace PullFlow.Engine.World

variable {P : Plan} {w w₁ : World} {t : ThreadId} {f : FlowId} {answer : Outcome} {r : World × Turn}

theorem look_bounded (hw : w.Tied P) {s : ScopeId} {key : String} {wait : Bool} {p : LookPoint}
    (h : w.look t s key wait p = some r) : Bounded P w t (.look s key wait p) r := by
  unfold look at h
  split at h
  · cases h
    exact .exit hw (.refl w) rfl
  · split at h <;> cases h
    · exact .goto hw (.refl w) rfl rfl trivial
    · exact .exit hw (.refl w) rfl
  · cases h
    exact .goto hw (.refl w) rfl rfl trivial
  · obtain ⟨w₁, henter, rfl⟩ := Option.map_eq_some_iff.mp h
    exact .goto hw (.enterGate henter) rfl rfl trivial
  · cases h
    exact .exit hw (.scopes _) rfl
  · cases h
    exact .goto hw (.refl w) rfl rfl trivial
  · cases h
    exact .goto hw (.refl w) rfl rfl trivial
  · split at h <;> cases h
    · exact .exit hw (.scopes _) rfl
    · exact .goto hw (.scopes _) rfl rfl trivial
  · cases h

theorem write_bounded (hw : w.Tied P) {s : ScopeId} {key : String} {e : Entry} {first : Bool}
    {p : WritePoint} (h : w.write s key e first p = some r) :
    Bounded P w t (.write s key e first p) r := by
  unfold write at h
  split at h
  · cases h
    exact .exit hw (.refl w) rfl
  · cases h
    exact .goto hw (.refl w) rfl rfl trivial
  · cases h
    exact .goto hw (.refl w) rfl rfl trivial
  · split at h
    · split at h <;> cases h
      · exact .exit hw (.refl w) rfl
      · exact .goto hw (.scopes _) rfl rfl trivial
    · cases h
      exact .exit hw (.scopes _) rfl
  · split at h <;> cases h
    exact .exit hw (.wake s) rfl

theorem close_bounded (hw : w.Tied P) {s : ScopeId} {p : ClosePoint} (h : w.close s p = some r) :
    Bounded P w t (.close s p) r := by
  cases p with
  | mark =>
      cases h
      exact .goto hw (.scopes _) rfl rfl trivial
  | wake =>
      simp only [World.close] at h
      split at h <;> cases h
      exact .exit hw (.wake s) rfl

/-- What a component asks for on behalf of a chain leads along the ties of its flow. -/
theorem serve_bounded (hw : w.Tied P) (hunmoved : Unmoved P w w₁) {a back : Activity} {request : Request}
    (hrequest : request.Tied (P.ties f)) (hlayer : back.layer = a.layer)
    (hinside : back.layer = .inside f ∨ request.leaf)
    (hholds : back.holds? = a.holds?) (hback : back.Tied P) :
    Bounded P w t a (w₁.serve request back) := by
  have htied := hunmoved.tied hw
  have hopens {callee : Activity} {g : FlowId} (hleaf : ¬ request.leaf)
      (hentry : callee.layer = .entry g) (hleads : P.Leads f g) : Opens P.Leads back callee := by
    unfold Opens
    rw [hentry]
    exact .inl ⟨f, hinside.resolve_right hleaf, hleads⟩
  cases request with
  | look s key wait => exact .invoke hw hunmoved hlayer hholds rfl trivial trivial hback
  | write s key v first => exact .invoke hw hunmoved hlayer hholds rfl trivial trivial hback
  | host r => exact .invoke hw hunmoved hlayer hholds rfl trivial trivial hback
  | payload o =>
      simp only [serve]
      split
      · next hdemand =>
        exact .invoke hw hunmoved hlayer hholds rfl (hopens id rfl (.inr (hrequest hdemand))) trivial
          hback
      · exact .goto hw hunmoved hlayer hholds hback
  | call name g payload =>
      obtain ⟨hname, peer, hpeer⟩ := hrequest
      exact .invoke hw hunmoved hlayer hholds rfl (hopens id rfl (.inl ⟨name, peer, hname, hpeer⟩))
        trivial hback
  | stopAll =>
      simp only [serve, htied.strict]
      exact .goto hw hunmoved hlayer hholds hback
  | note notes => exact .goto hw (hunmoved.trans (.jot notes)) hlayer hholds hback

theorem pull_bounded (hw : w.Tied P) {p : PullPoint} (ha : (Activity.pull f p).Tied P)
    (h : w.pull f p answer = some r) : Bounded P w t (.pull f p) r := by
  simp only [pull] at h
  obtain ⟨cell, hcell, rfl⟩ := Option.map_eq_some_iff.mp h
  have hpipeline := (hw.cell f cell hcell).pipeline
  obtain ⟨hchain, hmove⟩ := hpipeline.chain.step tied_nodes ha w.clock answer
  have hunmoved : Unmoved P w (w.setPipeline f
      { cell.pipeline with chain := (cell.pipeline.chain.step w.clock p answer).1 }) := by
    refine .setPipeline fun other hother _ => ⟨hchain, ?_⟩
    cases hcell.symm.trans hother
    exact hpipeline.sink
  generalize cell.pipeline.chain.step w.clock p answer = result at hchain hmove hunmoved
  obtain ⟨chain, move⟩ := result
  cases move with
  | go p => exact .goto hw hunmoved rfl rfl hmove
  | ask request p => exact serve_bounded hw hunmoved hmove.1 rfl (.inl rfl) rfl hmove.2
  | done out => exact .exit hw hunmoved rfl

theorem startPull_bounded {a back : Activity} (h : w₁.startPull f back = some r) (hw : w.Tied P)
    (hunmoved : Unmoved P w w₁) (hlayer : back.layer = a.layer) (hholds : back.holds? = a.holds?)
    (hback : back.holds? = some f) (htied : back.Tied P) : Bounded P w t a r := by
  simp only [startPull] at h
  obtain ⟨cell, _, rfl⟩ := Option.map_eq_some_iff.mp h
  split
  · exact .goto hw hunmoved hlayer hholds htied
  · exact .invoke hw hunmoved hlayer hholds rfl hback trivial htied

theorem read_bounded (hw : w.Tied P) {p : ReadPoint} (h : w.read t f answer p = some r) :
    Bounded P w t (.read f p) r := by
  cases p with
  | lock =>
      obtain ⟨w₁, hlock, rfl⟩ := Option.map_eq_some_iff.mp h
      exact .lock hw hlock rfl rfl rfl trivial
  | start => exact startPull_bounded h hw (.refl w) rfl rfl rfl trivial
  | unlock out =>
      cases h
      exact .unlockExit hw rfl
  | pulled =>
      cases h
      exact .goto hw (.refl w) rfl rfl trivial

theorem afterSink_bounded (hw : w.Tied P) {cell : FlowCell} (hcell : w.flow? f = some cell)
    {v : Value} {a : Activity} (hlayer : a.layer = .outer) (hholds : a.holds? = some f)
    {m : SinkBody × SinkMove} (hbody : m.1.Tied (P.feeds f) cell.sinkDriven)
    (hask : ∀ r wait, m.2 = .ask r wait → r.leaf) :
    Bounded P w t a (w.afterSink f v cell m) := by
  obtain ⟨body, move⟩ := m
  have hunmoved : Unmoved P w (w.setPipeline f
      { cell.pipeline with sink := { cell.pipeline.sink with body := body } }) := by
    refine .setPipeline fun other hother htied => ?_
    cases hcell.symm.trans hother
    exact ⟨htied.pipeline.chain, hbody⟩
  cases move with
  | done d => exact .goto hw hunmoved hlayer.symm hholds.symm trivial
  | ask request wait =>
      have hleaf := hask request wait rfl
      exact serve_bounded (f := f) hw hunmoved (.of_leaf hleaf) hlayer.symm (.inr hleaf) hholds.symm
        trivial

theorem push_bounded (hw : w.Tied P) {v : Value} {p : PushPoint}
    (h : w.push t f v answer p = some r) : Bounded P w t (.push f v p) r := by
  unfold push at h
  split at h
  · obtain ⟨w₁, hlock, rfl⟩ := Option.map_eq_some_iff.mp h
    exact .lock hw hlock rfl rfl rfl trivial
  · obtain ⟨cell, hcell, rfl⟩ := Option.map_eq_some_iff.mp h
    have hperform := SinkBody.tied_perform cell.pipeline.sink.body v (hw.cell f cell hcell).pipeline.sink
    exact afterSink_bounded hw hcell rfl rfl hperform.1 hperform.2
  · next wait =>
    obtain ⟨cell, hcell, rfl⟩ := Option.map_eq_some_iff.mp h
    have hresume := SinkBody.tied_resume cell.pipeline.sink.body wait answer
      (hw.cell f cell hcell).pipeline.sink
    exact afterSink_bounded hw hcell rfl rfl hresume.1 hresume.2
  · cases h
    exact .unlock hw (.refl w) rfl rfl rfl trivial
  · cases h
    exact .unlockExit hw rfl
  · obtain ⟨cell, _, rfl⟩ := Option.map_eq_some_iff.mp h
    exact .exit hw (.emit _) rfl

theorem demand_bounded (hw : w.Tied P) (h : w.demand f = some r) : Bounded P w t (.demand f) r := by
  obtain ⟨cell, _, h⟩ := Option.bind_eq_some_iff.mp h
  split at h <;> cases h
  exact .goto hw (.refl w) rfl rfl trivial

theorem tied_setInjected (v : Option Value) {K : SinkBody → Prop} {T : Ties} {p : Pipeline}
    (h : p.Holds (SourceBody.Tied T) (OperatorBody.Tied T) K) :
    (setInjected v p).Holds (SourceBody.Tied T) (OperatorBody.Tied T) K := by
  unfold setInjected
  split
  · exact ⟨⟨trivial, h.chain.operators⟩, h.sink⟩
  · exact h

theorem unmoved_setInjected (v : Option Value) : Unmoved P w
    (w.modifyFlow f fun cell => { cell with pipeline := setInjected v cell.pipeline }) :=
  .modifyFlow (fun _ _ h => ⟨h.name, tied_setInjected v h.pipeline⟩) fun _ _ => rfl

theorem call_bounded (hw : w.Tied P) {name : String} {payload : Value} {p : CallPoint}
    (h : w.call t name f payload answer p = some r) : Bounded P w t (.call name f payload p) r := by
  cases p with
  | latch =>
      obtain ⟨cell, _, h⟩ := Option.bind_eq_some_iff.mp h
      split at h <;> cases h
      exact .goto hw (.refl w) rfl rfl trivial
  | enter =>
      obtain ⟨th, _, rfl⟩ := Option.map_eq_some_iff.mp h
      split
      · exact .exit hw (.refl w) rfl
      · exact .goto hw (.modifyThread _) rfl rfl trivial
  | lock =>
      obtain ⟨w₁, hlock, rfl⟩ := Option.map_eq_some_iff.mp h
      exact .lock hw hlock rfl rfl rfl trivial
  | inject => exact startPull_bounded h hw (unmoved_setInjected _) rfl rfl rfl trivial
  | pulled =>
      cases h
      exact .goto hw (.refl w) rfl rfl trivial
  | clear out =>
      cases h
      exact .goto hw (unmoved_setInjected _) rfl rfl trivial
  | unlock out =>
      cases h
      exact .unlock hw (.refl w) rfl rfl rfl trivial
  | leave out =>
      cases h
      exact .exit hw (.modifyThread _) rfl

theorem sinksActive_bounded (hw : w.Tied P) (h : w.sinksActive f = some r) :
    Bounded P w t (.sinksActive f) r := by
  obtain ⟨cell, _, h⟩ := Option.bind_eq_some_iff.mp h
  split at h <;> cases h
  exact .exit hw (.refl w) rfl

theorem sleep_bounded (hw : w.Tied P) {deadline : Nat} (h : w.sleep f deadline = some r) :
    Bounded P w t (.sleep f deadline) r := by
  obtain ⟨cell, _, h⟩ := Option.bind_eq_some_iff.mp h
  split at h
  · cases h
    exact .exit hw (.refl w) rfl
  · split at h <;> cases h
    exact .exit hw (.refl w) rfl

theorem advance_bounded (hw : w.Tied P) {target : FlowState} {p : AdvancePoint}
    (h : w.advance f target p = some r) : Bounded P w t (.advance f target p) r := by
  cases p with
  | swap =>
      obtain ⟨cell, _, rfl⟩ := Option.map_eq_some_iff.mp h
      split
      · exact .goto hw (.modifyRest (fun _ => rfl) (fun _ => rfl) (fun _ => rfl) fun _ => rfl) rfl rfl
          trivial
      · exact .exit hw (.refl w) rfl
  | emit before =>
      obtain ⟨cell, _, rfl⟩ := Option.map_eq_some_iff.mp h
      exact .exit hw (.emit _) rfl

theorem interrupt_bounded (hw : w.Tied P) {p : InterruptPoint} (h : w.interrupt f p = some r) :
    Bounded P w t (.interrupt f p) r := by
  cases p with
  | sleeper =>
      cases h
      exact .goto hw (.modifyRest (fun _ => rfl) (fun _ => rfl) (fun _ => rfl) fun _ => rfl) rfl rfl
        trivial
  | close =>
      obtain ⟨cell, _, rfl⟩ := Option.map_eq_some_iff.mp h
      split
      · exact .invoke hw (.refl w) rfl rfl rfl trivial trivial trivial
      · exact .goto hw (.refl w) rfl rfl trivial
  | latch =>
      cases h
      exact .exit hw (.modifyRest (fun _ => rfl) (fun _ => rfl) (fun _ => rfl) fun _ => rfl) rfl

theorem stopped_holds {cell : FlowCell} (h : cell.Tied P f) :
    cell.pipeline.stop.body.Holds (SourceBody.Tied (P.ties f)) (OperatorBody.Tied (P.ties f))
      (SinkBody.Tied (P.feeds f) cell.sinkDriven) :=
  h.pipeline.stop SourceBody.tied_stop OperatorBody.tied_stop SinkBody.tied_stop

theorem finish_bounded (hw : w.Tied P) {m : Monitor} {p : FinishPoint}
    (h : w.finish t f m p = some r) : Bounded P w t (.finish f m p) r := by
  cases p with
  | monitor =>
      cases h
      exact .goto hw (.jot _) rfl rfl trivial
  | lock =>
      obtain ⟨w₁, hlock, rfl⟩ := Option.map_eq_some_iff.mp h
      exact .lock hw hlock rfl rfl rfl trivial
  | components =>
      obtain ⟨cell, hcell, rfl⟩ := Option.map_eq_some_iff.mp h
      have hunmoved : Unmoved P w (w.setPipeline f cell.pipeline.stop.body) := by
        refine .setPipeline fun other hother htied => ?_
        cases hcell.symm.trans hother
        exact stopped_holds htied
      exact .unlock hw (hunmoved.trans (.jot _)) rfl rfl rfl trivial
  | ended =>
      cases h
      exact .invoke hw (.refl w) rfl rfl rfl trivial trivial trivial
  | announced =>
      cases h
      exact .exit hw (.refl w) rfl

theorem stop_bounded (hw : w.Tied P) {p : StopPoint} (h : w.stop f answer p = some r) :
    Bounded P w t (.stop f p) r := by
  cases p with
  | begin =>
      cases h
      exact .invoke hw (.refl w) rfl rfl rfl trivial trivial trivial
  | advanced =>
      cases h
      cases MonitorBody.yes answer with
      | true => exact .invoke hw (.refl w) rfl rfl rfl ⟨rfl, rfl⟩ trivial trivial
      | false => exact .exit hw (.refl w) rfl
  | interrupted =>
      obtain ⟨cell, _, rfl⟩ := Option.map_eq_some_iff.mp h
      split
      · exact .invoke hw (.modifyRest (fun _ => rfl) (fun _ => rfl) (fun _ => rfl) fun _ => rfl) rfl rfl
          rfl ⟨rfl, rfl⟩ trivial trivial
      · exact .exit hw (.refl w) rfl
  | finished =>
      cases h
      exact .exit hw (.refl w) rfl

theorem stopAll_bounded (hw : w.Tied P) {left : List FlowId} (h : w.stopAll left = some r) :
    Bounded P w t (.stopAll left) r := by
  cases left with
  | nil =>
      cases h
      exact .exit hw (.refl w) rfl
  | cons f left =>
      cases h
      exact .invoke hw (.refl w) rfl rfl rfl ⟨rfl, rfl⟩ trivial trivial

/-- A monitor reads and feeds its own flow from outside. -/
theorem opens_of_actionOf? {action : MonitorAct} {a : Activity}
    (h : w.actionOf? f action = some a) {back : Activity} (hlayer : back.layer = .outer)
    (hholds : back.holds? = none) : a.holds? = none ∧ Opens P.Leads back a ∧ a.Tied P := by
  cases action <;> cases h
  · exact ⟨rfl, .inr ⟨hlayer, hholds⟩, trivial⟩
  · exact ⟨rfl, ⟨hlayer, hholds⟩, trivial⟩
  · exact ⟨rfl, trivial, trivial⟩
  · exact ⟨rfl, ⟨hlayer, hholds⟩, trivial⟩

theorem drive_bounded (hw : w.Tied P) {m : Monitor} {move : MonitorMove}
    (h : w.drive f m move = some r) : Bounded P w t (.run f m (.drive move)) r := by
  obtain ⟨cell, _, h⟩ := Option.bind_eq_some_iff.mp h
  dsimp only at h
  split at h
  · cases h
    exact .goto hw (.refl w) rfl rfl trivial
  · cases h
    exact .goto hw (.refl w) rfl rfl trivial
  · cases h
    exact .goto hw (.emit _) rfl rfl trivial
  · cases h
    exact .goto hw (.emit _) rfl rfl trivial
  · cases h
    exact .goto hw (.jot _) rfl rfl trivial
  · cases h
    exact .goto hw (.modifyRest (fun _ => rfl) (fun _ => rfl) (fun _ => rfl) fun _ => rfl) rfl rfl trivial
  · split at h <;> cases h
    exact .goto hw (.modifyRest (fun _ => rfl) (fun _ => rfl) (fun _ => rfl) fun _ => rfl) rfl rfl trivial
  · obtain ⟨a, ha, rfl⟩ := Option.map_eq_some_iff.mp h
    obtain ⟨hholds, hopens, htied⟩ :=
      opens_of_actionOf? (P := P) ha (rfl : (Activity.run f m (.acting _)).layer = .outer) rfl
    exact .invoke hw (.refl w) rfl rfl hholds hopens htied trivial

theorem started_holds {cell : FlowCell} (h : cell.Tied P f) :
    cell.pipeline.start.body.Holds (SourceBody.Tied (P.ties f)) (OperatorBody.Tied (P.ties f))
      (SinkBody.Tied (P.feeds f) cell.sinkDriven) :=
  h.pipeline.start SourceBody.tied_start OperatorBody.tied_start SinkBody.tied_start

theorem run_bounded (hw : w.Tied P) {m : Monitor} {p : RunPoint}
    (h : w.run t f m answer p = some r) : Bounded P w t (.run f m p) r := by
  cases p with
  | lock =>
      obtain ⟨w₁, hlock, rfl⟩ := Option.map_eq_some_iff.mp h
      exact .lock hw hlock rfl rfl rfl trivial
  | advance =>
      cases h
      exact .invoke hw (.refl w) rfl rfl rfl trivial trivial trivial
  | advanced =>
      cases h
      cases MonitorBody.yes answer with
      | true => exact .goto hw (.refl w) rfl rfl trivial
      | false => exact .goto hw (.refl w) rfl rfl trivial
  | release =>
      cases h
      exact .goto hw (.modifyRest (fun _ => rfl) (fun _ => rfl) (fun _ => rfl) fun _ => rfl) rfl rfl
        trivial
  | start =>
      obtain ⟨cell, hcell, rfl⟩ := Option.map_eq_some_iff.mp h
      have hunmoved : Unmoved P w (w.setPipeline f cell.pipeline.start.body) := by
        refine .setPipeline fun other hother htied => ?_
        cases hcell.symm.trans hother
        exact started_holds htied
      dsimp only
      split
      · exact .unlock hw (hunmoved.trans (.jot _)) rfl rfl rfl trivial
      · exact .unlock hw (hunmoved.trans (.jot _)) rfl rfl rfl trivial
  | abandon =>
      cases h
      exact .unlock hw (.refl w) rfl rfl rfl trivial
  | abandoned =>
      cases h
      exact .invoke hw (.refl w) rfl rfl rfl ⟨rfl, rfl⟩ trivial trivial
  | monitor =>
      cases h
      split
      · exact .goto hw (.jot _) rfl rfl trivial
      · exact .goto hw (.jot _) rfl rfl trivial
  | drive move => exact drive_bounded hw h
  | acting wait =>
      cases h
      exact .goto hw (.refl w) rfl rfl trivial
  | judge d =>
      cases h
      exact .goto hw (.refl w) rfl rfl trivial
  | fail d =>
      cases d with
      | ok u =>
          cases h
          exact .goto hw (.refl w) rfl rfl trivial
      | error e =>
          obtain ⟨cell, _, rfl⟩ := Option.map_eq_some_iff.mp h
          exact .goto hw (.emit _) rfl rfl trivial
  | decide d =>
      cases d with
      | ok u =>
          cases h
          change Bounded P w t _ (if m.body.endsFlow || w.stopping f then _ else _)
          split
          · exact .goto hw (.refl w) rfl rfl trivial
          · exact .goto hw (.refl w) rfl rfl trivial
      | error e =>
          cases h
          exact .goto hw (.refl w) rfl rfl trivial
  | ending d =>
      cases h
      exact .invoke hw (.refl w) rfl rfl rfl trivial trivial trivial
  | interrupt d =>
      cases h
      cases MonitorBody.yes answer with
      | true => exact .invoke hw (.refl w) rfl rfl rfl ⟨rfl, rfl⟩ trivial trivial
      | false => exact .goto hw (.refl w) rfl rfl trivial
  | finish d =>
      cases h
      exact .invoke hw (.refl w) rfl rfl rfl ⟨rfl, rfl⟩ trivial trivial
  | park d =>
      cases h
      exact .goto hw (.modifyRest (fun _ => rfl) (fun _ => rfl) (fun _ => rfl) fun _ => rfl) rfl rfl
        trivial
  | parked d =>
      simp only [World.run, Option.some.injEq] at h
      subst h
      split
      · exact .goto hw (.refl w) rfl rfl trivial
      · exact .exit hw (.refl w) rfl
  | retake d =>
      obtain ⟨cell, _, rfl⟩ := Option.map_eq_some_iff.mp h
      split
      · exact .invoke hw (.modifyRest (fun _ => rfl) (fun _ => rfl) (fun _ => rfl) fun _ => rfl) rfl rfl
          rfl ⟨rfl, rfl⟩ trivial trivial
      · exact .exit hw (.refl w) rfl
  | finished d =>
      cases h
      exact .exit hw (.refl w) rfl

theorem checkState_bounded {state : FlowState} {a next : Activity}
    (h : w.checkState f state next = some r) (hw : w.Tied P) (hlayer : next.layer = a.layer)
    (hholds : a.holds? = none) (hfree : next.holds? = none) (hnext : next.Tied P) :
    Bounded P w t a r := by
  obtain ⟨cell, _, rfl⟩ := Option.map_eq_some_iff.mp h
  split
  · exact .goto hw (.refl w) hlayer (hfree.trans hholds.symm) hnext
  · exact .exit hw (.refl w) hholds

theorem afterHook_bounded (hw : w.Tied P) {cell : FlowCell} (hcell : w.flow? f = some cell)
    {h : HookEnd FlowCell} (htied : h.body.Tied P f) (hholder : h.body.holder = cell.holder)
    {a next : Activity} (hlayer : next.layer = a.layer) (hholds : a.holds? = none)
    (hfree : next.holds? = none) (hnext : next.Tied P) :
    Bounded P w t a (w.afterHook f h next) := by
  have hunmoved : Unmoved P w ((w.modifyFlow f fun _ => h.body).jot h.notes) := by
    refine (Unmoved.modifyFlow (fun _ _ _ => htied) fun other hother => ?_).trans (.jot _)
    cases hcell.symm.trans hother
    exact hholder
  simp only [afterHook]
  split
  · exact .goto hw hunmoved hlayer (hfree.trans hholds.symm) hnext
  · exact .exit hw hunmoved hholds

theorem onPipeline_bounded {hook : Pipeline → HookEnd Pipeline} {a next : Activity}
    (h : w.onPipeline f hook next = some r) (hw : w.Tied P)
    (hhook : ∀ cell, w.flow? f = some cell → cell.Tied P f →
      (hook cell.pipeline).body.Holds (SourceBody.Tied (P.ties f)) (OperatorBody.Tied (P.ties f))
        (SinkBody.Tied (P.feeds f) cell.sinkDriven))
    (hlayer : next.layer = a.layer) (hholds : a.holds? = none)
    (hfree : next.holds? = none) (hnext : next.Tied P) : Bounded P w t a r := by
  obtain ⟨cell, hcell, h⟩ := Option.bind_eq_some_iff.mp h
  have htied := hw.cell f cell hcell
  split at h <;> cases h
  exact afterHook_bounded hw hcell ⟨htied.name, hhook cell hcell htied⟩ rfl hlayer hholds hfree hnext

theorem unlessFailed_bounded (hw : w.Tied P) {a : Activity} (hholds : a.holds? = none)
    {next : World × Turn} (h : Bounded P w t a next) :
    Bounded P w t a (w.unlessFailed answer next) := by
  cases answer with
  | ok v => exact h
  | error e => exact .exit hw (.refl w) hholds

theorem attachMonitor_tied (ctx : Context) {cell : FlowCell} (h : cell.Tied P f) :
    (attachMonitor ctx cell).body.Tied P f ∧ (attachMonitor ctx cell).body.holder = cell.holder := by
  unfold attachMonitor
  split
  · exact ⟨h, rfl⟩
  · dsimp only [HookEnd.map]
    refine ⟨⟨h.name, h.pipeline.chain, ?_⟩, rfl⟩
    have hsink := h.pipeline.sink
    cases hdriven : cell.sinkDriven with
    | false =>
        rw [hdriven] at hsink
        split <;> exact hsink
    | true =>
        rw [hdriven] at hsink
        split
        · exact SinkBody.tied_onDemand hsink
        · exact hsink

theorem contextualize_bounded (hw : w.Tied P) {p : ContextPoint}
    (h : w.contextualize f answer p = some r) : Bounded P w t (.contextualize f p) r := by
  cases p with
  | check => exact checkState_bounded h hw rfl rfl rfl trivial
  | child =>
      cases h
      exact .invoke hw (.scopes _) rfl rfl rfl trivial trivial trivial
  | global scope =>
      obtain ⟨cell, _, rfl⟩ := Option.map_eq_some_iff.mp h
      exact unlessFailed_bounded hw rfl (.invoke hw (.refl w) rfl rfl rfl trivial trivial trivial)
  | named scope =>
      cases h
      exact unlessFailed_bounded hw rfl (.goto hw (.refl w) rfl rfl trivial)
  | attach scope =>
      obtain ⟨cell, hcell, h⟩ := Option.bind_eq_some_iff.mp h
      refine onPipeline_bounded h hw (fun other _ htied => ?_) rfl rfl rfl trivial
      refine htied.pipeline.setContext (SourceBody.tied_attach _) (OperatorBody.tied_attach ?_)
        (SinkBody.tied_attach _)
      intro target peer hname hpeer hcallable
      rw [contextOf, hw.directory] at hpeer
      exact ⟨hname, peer, hpeer, hcallable, rfl⟩
  | monitor scope =>
      obtain ⟨cell, hcell, rfl⟩ := Option.map_eq_some_iff.mp h
      obtain ⟨htied, hholder⟩ := attachMonitor_tied (w.contextOf cell scope) (hw.cell f cell hcell)
      exact afterHook_bounded hw hcell htied hholder rfl rfl rfl trivial
  | record scope =>
      cases h
      exact .goto hw (.modifyRest (fun _ => rfl) (fun _ => rfl) (fun _ => rfl) fun _ => rfl) rfl rfl
        trivial
  | advance =>
      cases h
      exact .invoke hw (.refl w) rfl rfl rfl trivial trivial trivial
  | advanced =>
      cases h
      exact .exit hw (.refl w) rfl

theorem prepareMonitor_tied (st : Scope.Store) {cell : FlowCell} (h : cell.Tied P f) :
    (prepareMonitor st cell).body.Tied P f ∧ (prepareMonitor st cell).body.holder = cell.holder := by
  unfold prepareMonitor
  split
  · exact ⟨h, rfl⟩
  · exact ⟨⟨h.name, h.pipeline⟩, rfl⟩

theorem prepare_bounded (hw : w.Tied P) {p : PreparePoint} (h : w.prepare f p = some r) :
    Bounded P w t (.prepare f p) r := by
  cases p with
  | check => exact checkState_bounded h hw rfl rfl rfl trivial
  | components =>
      refine onPipeline_bounded h hw (fun other _ htied => ?_) rfl rfl rfl trivial
      exact htied.pipeline.setUp (SourceBody.tied_initialise _) (OperatorBody.tied_initialise _)
        (SinkBody.tied_initialise _)
  | monitor =>
      obtain ⟨cell, hcell, rfl⟩ := Option.map_eq_some_iff.mp h
      obtain ⟨htied, hholder⟩ := prepareMonitor_tied w.scopes (hw.cell f cell hcell)
      exact afterHook_bounded hw hcell htied hholder rfl rfl rfl trivial
  | advance =>
      cases h
      exact .invoke hw (.refl w) rfl rfl rfl trivial trivial trivial
  | advanced =>
      cases h
      exact .exit hw (.refl w) rfl

theorem wire_bounded (hw : w.Tied P) {inflows : List Outflow} {p : WirePoint}
    (ha : ∀ o ∈ inflows, o.target = P.name f ∧ (o.onDemand = true → P.feeds o.flow o.target))
    (h : w.wire f inflows p = some r) : Bounded P w t (.wire f inflows p) r := by
  cases p with
  | check => exact checkState_bounded h hw rfl rfl rfl ha
  | source =>
      refine onPipeline_bounded h hw (fun other _ htied => ?_) rfl rfl rfl ha
      refine htied.pipeline.wire (SourceBody.tied_wire fun hreads o ho hdemand => ⟨hreads, ?_⟩)
      obtain ⟨htarget, hfeeds⟩ := ha o ho
      exact htarget ▸ hfeeds hdemand
  | advance =>
      cases h
      exact .invoke hw (.refl w) rfl rfl rfl trivial trivial ha
  | advanced =>
      cases h
      exact .exit hw (.refl w) rfl

/-- A connection read on demand comes from a flow that may be read so. -/
theorem feeds_of_mem_outflows {cell : FlowCell} (h : cell.Tied P f) {o : Outflow}
    (ho : o ∈ cell.pipeline.outflows f) (hdemand : o.onDemand = true) : P.feeds o.flow o.target := by
  simp only [Pipeline.outflows, List.mem_filterMap] at ho
  obtain ⟨⟨seat, sink⟩, hseat, hout⟩ := ho
  have hfeeds {feeds : String → Prop} {driven : Bool} (hsink : sink.body.Tied feeds driven) :
      feeds o.target ∧ o.flow = f := by
    simp only [SinkBody.outflow?] at hout
    split at hout
    · next hbody =>
      cases hout
      rw [hbody] at hsink
      exact ⟨hsink (.inl hdemand), rfl⟩
    · cases hout
  obtain htee | hterminal := List.mem_append.mp hseat
  · simp only [Pipeline.seatedTees, List.mem_filterMap] at htee
    obtain ⟨⟨op, i⟩, hop, hsink⟩ := htee
    obtain ⟨other, hbody, heq⟩ := Option.map_eq_some_iff.mp hsink
    cases heq
    have htied := h.pipeline.chain.operators op (List.fst_mem_of_mem_zipIdx hop)
    unfold OperatorBody.tee? at hbody
    split at hbody
    · next hop =>
      cases hbody
      rw [hop] at htied
      exact (hfeeds htied).1.elim
    · cases hbody
  · cases List.mem_singleton.mp hterminal
    obtain ⟨hname, hflow⟩ := hfeeds h.pipeline.sink
    rw [hflow]
    exact hname

theorem mem_inflowsOf {name : String} {all : List Outflow} {o : Outflow}
    (h : o ∈ inflowsOf name all) : o ∈ all ∧ o.target = name := by
  simpa [inflowsOf] using h

theorem setUpAll_bounded (hw : w.Tied P) {p : SetUpPoint} (ha : (Activity.setUpAll p).Tied P)
    (h : w.setUpAll answer p = some r) : Bounded P w t (.setUpAll p) r := by
  unfold setUpAll at h
  cases p with
  | context left =>
      cases left <;> cases h
      · exact unlessFailed_bounded hw rfl (.goto hw (.refl w) rfl rfl trivial)
      · exact unlessFailed_bounded hw rfl (.invoke hw (.refl w) rfl rfl rfl ⟨rfl, rfl⟩ trivial trivial)
  | prepare left =>
      cases left <;> cases h
      · exact unlessFailed_bounded hw rfl (.goto hw (.refl w) rfl rfl fun o ho => nomatch ho)
      · exact unlessFailed_bounded hw rfl (.invoke hw (.refl w) rfl rfl rfl ⟨rfl, rfl⟩ trivial trivial)
  | gather left done =>
      cases left with
      | nil =>
          cases h
          exact unlessFailed_bounded hw rfl (.goto hw (.refl w) rfl rfl ha)
      | cons flow left =>
          obtain ⟨more, hmore, h⟩ := Option.bind_eq_some_iff.mp h
          cases h
          refine unlessFailed_bounded hw rfl (.goto hw (.refl w) rfl rfl fun o ho hdemand => ?_)
          obtain ho | ho := List.mem_append.mp ho
          · exact ha o ho hdemand
          · obtain ⟨cell, hcell, hout⟩ := Option.bind_eq_some_iff.mp hmore
            split at hout <;> cases hout
            exact feeds_of_mem_outflows (hw.cell flow cell hcell) ho hdemand
  | wire left all =>
      cases left with
      | nil =>
          cases h
          exact unlessFailed_bounded hw rfl (.exit hw (.refl w) rfl)
      | cons flow left =>
          obtain ⟨cell, hcell, h⟩ := Option.bind_eq_some_iff.mp h
          cases h
          refine unlessFailed_bounded hw rfl
            (.invoke hw (.refl w) rfl rfl rfl ⟨rfl, rfl⟩ (fun o ho => ?_) ha)
          obtain ⟨hmem, htarget⟩ := mem_inflowsOf ho
          exact ⟨htarget.trans (hw.cell flow cell hcell).name, ha o hmem⟩

theorem launch_bounded (hw : w.Tied P) {checked : Bool} (h : w.launch f checked = some r) :
    Bounded P w t (.launch f checked) r := by
  obtain ⟨cell, _, rfl⟩ := Option.map_eq_some_iff.mp h
  split
  · split
    · exact .exit hw (.refl w) rfl
    · next m _ =>
      have htake : Unmoved P w (w.modifyFlow f fun cell => { cell with parked := none }) :=
        .modifyRest (fun _ => rfl) (fun _ => rfl) (fun _ => rfl) fun _ => rfl
      dsimp only
      split
      · refine .exit hw ((htake.trans (.spawn (.run f m .lock))).trans ?_) rfl
        exact .modifyRest (fun _ => rfl) (fun _ => rfl) (fun _ => rfl) fun _ => rfl
      · exact .goto hw htake rfl rfl trivial
  · split
    · exact .goto hw (.refl w) rfl rfl trivial
    · exact .exit hw (.refl w) rfl

theorem awaitStart_bounded (hw : w.Tied P) (h : w.awaitStart f = some r) :
    Bounded P w t (.awaitStart f) r := by
  obtain ⟨cell, _, h⟩ := Option.bind_eq_some_iff.mp h
  split at h <;> cases h
  exact .exit hw (.refl w) rfl

theorem join_bounded (hw : w.Tied P) (h : w.join f = some r) : Bounded P w t (.join f) r := by
  obtain ⟨cell, _, h⟩ := Option.bind_eq_some_iff.mp h
  split at h
  · cases h
    exact .exit hw (.refl w) rfl
  · obtain ⟨th, _, h⟩ := Option.bind_eq_some_iff.mp h
    obtain ⟨out, _, rfl⟩ := Option.map_eq_some_iff.mp h
    exact .exit hw (.modifyRest (fun _ => rfl) (fun _ => rfl) (fun _ => rfl) fun _ => rfl) rfl

theorem joinAll_bounded (hw : w.Tied P) {left : List FlowId} {failed : Done} {joining : Bool}
    (h : w.joinAll left failed joining answer = some r) :
    Bounded P w t (.joinAll left failed joining) r := by
  cases left with
  | nil =>
      cases h
      exact .exit hw (.refl w) rfl
  | cons f left =>
      cases h
      exact .invoke hw (.refl w) rfl rfl rfl ⟨rfl, rfl⟩ trivial trivial

theorem startAll_bounded (hw : w.Tied P) {p : StartPoint} (h : w.startAll answer p = some r) :
    Bounded P w t (.startAll p) r := by
  have hinvoke {callee : Activity} {p' : StartPoint} (hcallee : callee.holds? = none)
      (hlayer : callee.layer = .outer) (hc : callee.Tied P) :
      Bounded P w t (.startAll p) (w, .invoke callee (.startAll p')) := by
    refine .invoke hw (.refl w) rfl rfl hcallee ?_ hc trivial
    rw [Opens, hlayer]
    exact ⟨rfl, rfl⟩
  unfold startAll at h
  cases p with
  | launch left =>
      cases left <;> cases h
      · exact .goto hw (.refl w) rfl rfl trivial
      · exact hinvoke rfl rfl trivial
  | launched left =>
      cases answer <;> cases h
      · exact hinvoke rfl rfl trivial
      · exact .goto hw (.refl w) rfl rfl trivial
  | abort e =>
      cases h
      exact hinvoke rfl rfl trivial
  | aborted e =>
      cases h
      exact .exit hw (.refl w) rfl
  | await left =>
      cases left <;> cases h
      · exact .goto hw (.refl w) rfl rfl trivial
      · exact hinvoke rfl rfl trivial
  | join =>
      cases h
      exact hinvoke rfl rfl trivial
  | joined =>
      cases h
      exact hinvoke rfl rfl trivial
  | stopped out =>
      cases h
      exact .exit hw (.refl w) rfl

theorem runAll_bounded (hw : w.Tied P) {p : RunAllPoint} (h : w.runAll answer p = some r) :
    Bounded P w t (.runAll p) r := by
  cases p with
  | begin =>
      cases h
      exact .invoke hw (.refl w) rfl rfl rfl ⟨rfl, rfl⟩ trivial trivial
  | ready =>
      cases answer <;> cases h
      · exact .invoke hw (.refl w) rfl rfl rfl ⟨rfl, rfl⟩ trivial trivial
      · exact .goto hw (.refl w) rfl rfl trivial
  | stopped e =>
      cases h
      exact .exit hw (.refl w) rfl

/-- Every step keeps to the plan. -/
theorem step_bounded (hw : w.Tied P) {a : Activity} (ha : a.Tied P)
    (h : a.step w t answer = some r) : Bounded P w t a r := by
  cases a with
  | look s key wait p => exact look_bounded hw h
  | write s key e first p => exact write_bounded hw h
  | close s p => exact close_bounded hw h
  | host request => cases h
  | pull f p => exact pull_bounded hw ha h
  | read f p => exact read_bounded hw h
  | push f v p => exact push_bounded hw h
  | demand f => exact demand_bounded hw h
  | call name f payload p => exact call_bounded hw h
  | sinksActive f => exact sinksActive_bounded hw h
  | sleep f deadline => exact sleep_bounded hw h
  | advance f target p => exact advance_bounded hw h
  | interrupt f p => exact interrupt_bounded hw h
  | finish f m p => exact finish_bounded hw h
  | stop f p => exact stop_bounded hw h
  | stopAll left => exact stopAll_bounded hw h
  | run f m p => exact run_bounded hw h
  | contextualize f p => exact contextualize_bounded hw h
  | prepare f p => exact prepare_bounded hw h
  | wire f inflows p => exact wire_bounded hw ha h
  | launch f checked => exact launch_bounded hw h
  | awaitStart f => exact awaitStart_bounded hw h
  | join f => exact join_bounded hw h
  | joinAll left failed joining => exact joinAll_bounded hw h
  | setUpAll p => exact setUpAll_bounded hw ha h
  | startAll p => exact startAll_bounded hw h
  | runAll p => exact runAll_bounded hw h

end PullFlow.Engine.World
