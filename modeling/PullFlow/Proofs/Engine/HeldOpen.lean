import PullFlow.Proofs.Engine.Monitors
import PullFlow.Proofs.Engine.OwnLock
import PullFlow.Proofs.Engine.Payload
import PullFlow.Proofs.Outlets

/-!
Flows that keep each other going. A flow that is read on demand idles while a flow that it feeds has
not begun to end, and flows that can be called are stopped only after all others have been joined.
The checks do not look at this. Two flows that feed each other idle for ever, and so does one that
feeds a flow that can be called. Where idling flows do neither, some flow is never held by others.
-/

namespace PullFlow

namespace Blueprint.Flow

/-- Whether the monitor of a flow idles while a sink is active. -/
def idles (f : Flow) : Bool :=
  match f.monitor with
  | some part => part.kind == "demand"
  | none => f.sink.any (·.kind == flowKind)

end Blueprint.Flow

namespace Lint

/-- The flow of name `a` idles while that of name `b` has not begun to end. -/
def Attends (d : Blueprint.Document) (a b : String) : Prop :=
  ∃ f ∈ d.flows, f.name = some a ∧ f.idles = true ∧ b ∈ f.outflowTargets

end Lint

namespace Engine

open Relation

/-- Whether a run is where its monitor idles: it asks the sinks, or sleeps. -/
def RunPoint.idles : RunPoint → Bool
  | .drive (.act .sinksActive .idle) | .acting .idle => true
  | .drive (.act (.sleep _) .slept) | .acting .slept => true
  | _ => false

/-- Whether an activity is a run of a flow that idles. -/
def Activity.idles (f : FlowId) : Activity → Bool
  | .run g m p => decide (g = f) && m.body.idler && p.idles
  | _ => false

/-- Whether an activity joins the flows of a set. -/
def Activity.joins : Activity → Bool
  | .joinAll .. => true
  | _ => false

/-- Where a finite number of nodes do not lead to each other in a ring, nothing leads on for ever. -/
theorem no_endless_way {n : Nat} {R : Nat → Nat → Prop} (hbound : ∀ i j, R i j → i < n)
    (hring : ∀ i, ¬ TransGen R i i) {P : Nat → Prop} (hnext : ∀ i, P i → ∃ j, R i j ∧ P j)
    (i : Nat) : ¬ P i := by
  have hwf : WellFounded fun a b : Fin n => TransGen R b a := by
    have : IsTrans (Fin n) fun a b => TransGen R b a := ⟨fun _ _ _ hab hbc => hbc.trans hab⟩
    have : Std.Irrefl fun a b : Fin n => TransGen R b a := ⟨fun a => hring a⟩
    exact Finite.wellFounded_of_trans_of_irrefl _
  have hlast (a : Fin n) : ¬ P a := by
    induction a using hwf.induction with
    | _ a ih =>
        intro ha
        obtain ⟨j, haj, hj⟩ := hnext a ha
        obtain ⟨k, hjk, _⟩ := hnext j hj
        exact ih ⟨j, hbound j k hjk⟩ (.single haj) hj
  intro hi
  obtain ⟨j, hij, _⟩ := hnext i hi
  exact hlast ⟨i, hbound i j hij⟩ hi

namespace World

/-- Whether the thread of a flow is not over. -/
def unfinished (w : World) (f : FlowId) : Bool := (w.threadOf f).any fun t => (w.result? t).isNone

/-- Whether the thread of a flow idles. -/
def idles (w : World) (f : FlowId) : Bool :=
  (w.threadOf f).any fun t => (w.stackOf t).any (Activity.idles f)

/-- Whether a sink feeds a flow whose thread is not over, or one that can be called. -/
def awaitsPeer (w : World) : SinkBody → Bool
  | .flow target _ (some g) _ _ =>
      w.unfinished g || (Fields.get? target w.directory).any (·.callable)
  | _ => false

/-- Whether sinks keep a flow going, and none but those that feed unfinished or callable flows. -/
def heldOpen (w : World) (f : FlowId) : Bool :=
  (w.pipeline? f).any fun p => p.active w.stateOf &&
    p.sinks.all fun sink => !sink.body.active w.stateOf || w.awaitsPeer sink.body

/-- The set is being joined and flows are not over, all of which idle and are kept going only by each
other or by flows that can be called. -/
structure Stalled (w : World) : Prop where
  joining : (w.stackOf 0).any Activity.joins = true
  waits : ∃ f, w.unfinished f = true
  held : ∀ f, w.unfinished f = true → w.idles f = true ∧ w.heldOpen f = true

variable {w w₁ w' start : World} {t : ThreadId} {f : FlowId} {a : Activity} {answer : Outcome}
  {cell : FlowCell} {p : Pipeline} {turn : Turn} {rest : List Activity} {P : Plan}
  {feeds : String → Prop} {known : Directory}

theorem aims_setInjected (v : Option Value) (h : p.Aims feeds known) :
    (setInjected v p).Aims feeds known := by
  unfold setInjected
  split <;> exact ⟨⟨trivial, h.chain.operators⟩, h.sink⟩

/-- Whatever works on a flow leaves its sinks where they lead. -/
theorem Works.aims {parked : Option Monitor} (h : Works w answer f cell a p parked)
    (hknown : w.directory = known) (haims : cell.pipeline.Aims feeds known) :
    p.Aims feeds known := by
  cases h with
  | pull =>
      exact ⟨(haims.chain.step aims_nodes (PullPoint.within_true _) w.clock answer).1, haims.sink⟩
  | perform => exact ⟨haims.chain, SinkBody.aims_perform _ _ haims.sink⟩
  | resume => exact ⟨haims.chain, SinkBody.aims_resume _ _ _ haims.sink⟩
  | inject | clear => exact aims_setInjected _ haims
  | start =>
      exact haims.start (fun _ _ => trivial) OperatorBody.aims_start SinkBody.aims_start
  | stop =>
      exact haims.stop (fun _ _ => trivial) OperatorBody.aims_stop SinkBody.aims_stop
  | attach =>
      exact haims.setContext (fun _ _ => trivial) (OperatorBody.aims_attach hknown)
        (SinkBody.aims_attach hknown)
  | monitor =>
      unfold attachMonitor
      split
      · exact haims
      · refine ⟨haims.chain, ?_⟩
        dsimp only [HookEnd.map]
        split <;> split <;> first | exact haims.sink | exact SinkBody.aims_onDemand haims.sink
  | setUp =>
      exact haims.setUp (fun _ _ _ _ => trivial) (OperatorBody.aims_initialise _)
        (SinkBody.aims_initialise _)
  | wire => exact haims.wire fun _ _ => trivial
  | _ => exact haims

/-- The sinks of a flow lead where they may. -/
def Aimed (feeds : String → Prop) (known : Directory) (f : FlowId) (w : World) : Prop :=
  ∀ p, w.pipeline? f = some p → p.Aims feeds known

theorem Aimed.acts (h : Aimed feeds known f w) (hknown : w.directory = known)
    (hacts : Acts w t answer a w₁) (turn : Turn) : Aimed feeds known f (w₁.turn t turn) := by
  intro p₁ hp₁
  change w₁.pipeline? f = some p₁ at hp₁
  obtain ⟨hsame, _⟩ | ⟨cell, p, parked, hcell, hworks, hp, _⟩ := hacts.parts f
  · exact h p₁ (hsame ▸ hp₁)
  · cases hp.symm.trans hp₁
    exact hworks.aims hknown (h _ (by rw [pipeline?, hcell]; rfl))

/-- Sinks lead where they were put together to lead. -/
theorem Run.aimed {trace : List Taken} (h : Run start trace w) (hlocked : WellLocked P start)
    (haimed : Aimed feeds P.directory f start) : Aimed feeds P.directory f w :=
  (h.every (P := fun _ w => WellLocked P w ∧ Aimed feeds P.directory f w) ⟨hlocked, haimed⟩
    (fun _ _ nanos hw => ⟨hw.1.tick nanos, hw.2⟩)
    fun _ _ _ _ _ _ _ htakes hw =>
      ⟨htakes.wellLocked hw.1, hw.2.acts hw.1.tied.directory htakes.acts _⟩).2

section Document

variable {fresh : Nat → String} {d : Blueprint.Document} {vars : List (String × Value)}
  {i j : FlowId} {flow : Blueprint.Flow} {draft : FlowDraft} {calls : List Activity}
  {trace : List Taken}

theorem mem_outflowTargets {part : Blueprint.Part} {target : String} (hpart : part ∈ flow.sinks)
    (hkind : part.kind = Blueprint.flowKind) (htarget : part.target? = some target) :
    target ∈ flow.outflowTargets :=
  List.mem_filterMap.mpr ⟨part, List.mem_filter.mpr ⟨hpart, beq_iff_eq.mpr hkind⟩, htarget⟩

theorem aims_of_solitary {b : SinkBody} (h : b.solitary = true) : b.Aims feeds known := by
  cases b with
  | flow target producer peer payload onDemand => cases h
  | _ => trivial

/-- A sink feeds the flow that the document names in its place. -/
theorem aims_of_build {part : Blueprint.Part} {sink : Sink}
    (h : Catalog.registry.buildSink part = .ok sink) (hpart : part ∈ flow.sinks)
    (hfeeds : ∀ target ∈ flow.outflowTargets, feeds target) : sink.body.Aims feeds known := by
  obtain ⟨_, ⟨_, hsolitary⟩ | ⟨hkind, target, htarget, hbody⟩⟩ := Catalog.sink_of_build h
  · exact aims_of_solitary hsolitary
  · rw [hbody]
    refine ⟨hfeeds target (mem_outflowTargets hpart hkind htarget), fun f hf => ?_⟩
    cases hf

/-- Only monitors of kind `demand` idle. -/
theorem demand_of_idler {part : Blueprint.Part} {m : Monitor}
    (h : Catalog.registry.buildMonitor part = .ok m) (hidler : m.body.idler = true) :
    part.kind = "demand" := by
  obtain ⟨f, body, hf, hbody, rfl⟩ := Registry.build_eq_ok h
  obtain ⟨_, hf⟩ | ⟨_, hf⟩ := Registry.find?_cases hf
  · obtain ⟨made, hmem, rfl⟩ := Catalog.get?_shelf hf
    cases hbody
    simp only [List.mem_cons, Prod.mk.injEq, List.not_mem_nil, or_false] at hmem
    rcases hmem with ⟨_, rfl⟩ | ⟨_, rfl⟩ | ⟨_, rfl⟩ | ⟨_, rfl⟩ | ⟨_, rfl⟩ | ⟨hkind, rfl⟩ | ⟨_, rfl⟩
    all_goals first | exact hkind | cases hidler
  · exact (Catalog.no_monitor_of_package hf).elim

/-- The sinks of a flow feed the flows that the document says, and none is attached yet. -/
theorem aims_of_described (h : Described fresh d i flow draft cell)
    (hfeeds : ∀ target ∈ flow.outflowTargets, feeds target) : cell.pipeline.Aims feeds known := by
  obtain ⟨fed, rfl, _⟩ := h.cell
  have hdraft := FlowDraft.ofFlow_eq_ok.mp h.draft
  refine ⟨⟨trivial, fun op hop => ?_⟩, ?_⟩
  · rw [FlowDraft.operators_cell] at hop
    have hoperators := mapM_eq_ok.mp hdraft.2.2.1
    obtain ⟨n, hn, rfl⟩ := List.getElem_of_mem hop
    have hlink : n < flow.operators.length := hoperators.length_eq ▸ hn
    obtain ⟨part, sink, hpart, hmade, htee⟩ | ⟨part, _, hmade⟩ :=
      Catalog.link_of_build (hoperators.get hlink hn)
    · rw [List.get_eq_getElem] at hpart htee
      have hmem : part ∈ flow.sinks := List.mem_append_left _
        (List.mem_filterMap.mpr ⟨_, List.getElem_mem hlink, by rw [hpart]; rfl⟩)
      rw [htee]
      exact aims_of_build hmade hmem hfeeds
    · rw [List.get_eq_getElem] at hmade
      obtain hsolitary | ⟨mode, target, _, hcall⟩ := Catalog.operator_of_build hmade
      · cases hbody : draft.operators[n].body with
        | tee sink =>
            rw [hbody] at hsolitary
            exact aims_of_solitary hsolitary
        | _ => trivial
      · rw [hcall]
        trivial
  · change draft.chooseSink.body.Aims feeds known
    obtain ⟨_, hsink⟩ | ⟨part, sink, hpart, hsink, hmade⟩ := mapM_option_eq_ok.mp hdraft.2.2.2.1
    · simp only [FlowDraft.chooseSink, hsink]
      split <;> trivial
    · simp only [FlowDraft.chooseSink, hsink]
      have hmem : part ∈ flow.sinks :=
        List.mem_append_right _ (hpart ▸ List.mem_singleton_self part)
      exact aims_of_build hmade hmem hfeeds

/-- A flow whose monitor idles is one that does so in the document. -/
theorem idles_of_described (h : Described fresh d i flow draft cell) {m : Monitor}
    (hm : cell.parked = some m) (hidler : m.body.idler = true) : flow.idles = true := by
  obtain ⟨fed, rfl, _⟩ := h.cell
  have hdraft := FlowDraft.ofFlow_eq_ok.mp h.draft
  obtain rfl : (draft.chooseMonitor draft.chooseSink).1 = m := Option.some.inj hm
  obtain ⟨hnone, hmonitor⟩ | ⟨part, m, hpart, hmonitor, hmade⟩ :=
    mapM_option_eq_ok.mp hdraft.2.2.2.2
  · simp only [FlowDraft.chooseMonitor, hmonitor] at hidler
    split at hidler
    · next hwants =>
      obtain ⟨_, hsink⟩ | ⟨part, sink, hpart, hsink, hmade⟩ := mapM_option_eq_ok.mp hdraft.2.2.2.1
      · simp only [FlowDraft.chooseSink, hsink] at hwants
        split at hwants <;> cases hwants
      · simp only [FlowDraft.chooseSink, hsink] at hwants
        obtain ⟨_, ⟨_, hsolitary⟩ | ⟨hkind, _⟩⟩ := Catalog.sink_of_build hmade
        · cases hbody : sink.body with
          | flow target producer peer payload onDemand =>
              rw [hbody] at hsolitary
              cases hsolitary
          | _ =>
              rw [hbody] at hwants
              cases hwants
        · simp [Blueprint.Flow.idles, hnone, hpart, hkind]
    · cases hidler
  · simp only [FlowDraft.chooseMonitor, hmonitor] at hidler
    simp [Blueprint.Flow.idles, hpart, demand_of_idler hmade hidler]

/-- The flow at one position idles while that at another one has not begun to end. -/
def Attends (d : Blueprint.Document) (i j : FlowId) : Prop :=
  ∃ flow peer target, d.flows[i]? = some flow ∧ d.flows[j]? = some peer ∧
    peer.name = some target ∧ flow.idles = true ∧ target ∈ flow.outflowTargets

/-- Flows attend each other in a ring only where their names do in the document. -/
theorem no_ring_of_attends (hring : ∀ name, ¬ TransGen (Lint.Attends d) name name) (i : FlowId) :
    ¬ TransGen (Attends d) i i := by
  refine no_ring_of_inner (nameAt d) ?_ hring i
  rintro i j ⟨hij, ⟨k, hki⟩, _⟩
  obtain ⟨flow, peer, target, hflow, hpeer, htarget, hidles, hfed⟩ := hij
  obtain ⟨_, flow', name, _, hflow', hname, _⟩ := hki
  cases hflow.symm.trans hflow'
  rw [nameAt_eq hflow hname, nameAt_eq hpeer htarget]
  exact ⟨flow, List.mem_of_getElem? hflow, hname, hidles, hfed⟩

theorem begins_of_stops (h : a.stops = true) : a.begins = true := by
  unfold Activity.stops at h
  split at h
  · rfl
  · rfl
  · cases h

/-- A flow idles only if its monitor does so. -/
theorem idler_of_idles {k : Nat} (hdriven : Driven f k w) (h : w.idles f = true) :
    ∃ m : Monitor, m.body.idler = true ∧ m.body.sort = k := by
  obtain ⟨t, _, hmem⟩ := (Option.any_eq_true ..).mp h
  obtain ⟨a, ha, hidles⟩ := List.any_eq_true.mp hmem
  cases a with
  | run g m q =>
      simp only [Activity.idles, Bool.and_eq_true, decide_eq_true_eq] at hidles
      obtain ⟨⟨rfl, hidler⟩, hq⟩ := hidles
      have hrun : .run g m q ∈ w.tasks t := by
        rw [tasks_eq]
        exact List.mem_map.mpr ⟨_, ha, rfl⟩
      refine ⟨m, hidler, hdriven.runs t m q hrun ?_⟩
      unfold RunPoint.idles at hq
      split at hq <;> first | rfl | cases hq
  | _ => cases hidles

/-- A flow that idles does so in the document. -/
theorem idles_of_run (hmade : ofDocument Catalog.registry fresh d vars = .ok w)
    (hcalls : ∀ a ∈ calls, a.stops = true) (hrun : Run (w.opened (.runAll .begin) calls) trace w')
    (hflow : d.flows[i]? = some flow) (hidles : w'.idles i = true) : flow.idles = true := by
  obtain ⟨draft, cell, hcell, hdescribed⟩ := cell_of_flow hmade hflow
  obtain ⟨m₀, hm₀⟩ : ∃ m, cell.parked = some m := by
    obtain ⟨fed, rfl, _⟩ := hdescribed.cell
    exact ⟨_, rfl⟩
  have hbegins : ∀ a ∈ .runAll .begin :: calls, a.begins = true :=
    List.forall_mem_cons.mpr ⟨rfl, fun a ha => begins_of_stops (hcalls a ha)⟩
  have hdriven : Driven i m₀.body.sort (w.opened (.runAll .begin) calls) := by
    refine .init (fun m hm => ?_) (begins_opened w hbegins)
    obtain ⟨cell', hcell', hm⟩ := Option.bind_eq_some_iff.mp hm
    cases hcell.symm.trans hcell'
    cases hm₀.symm.trans hm
    rfl
  obtain ⟨m, hidler, hsort⟩ := idler_of_idles (hrun.driven hdriven) hidles
  exact idles_of_described hdescribed hm₀ ((MonitorBody.idler_of_sort hsort).symm.trans hidler)

/-- A flow that sinks keep going has one that feeds a flow of the document which is not over, or
which can be called. -/
theorem fed_of_heldOpen (hmade : ofDocument Catalog.registry fresh d vars = .ok w)
    (hcalls : ∀ a ∈ calls, a.stops = true) (hrun : Run (w.opened (.runAll .begin) calls) trace w')
    (hheld : w'.heldOpen i = true) :
    ∃ flow, d.flows[i]? = some flow ∧ ∃ target ∈ flow.outflowTargets, ∃ found,
      Fields.get? target w.directory = some found ∧
        (w'.unfinished found.flow = true ∨ found.callable = true) := by
  let feeds (target : String) : Prop :=
    ∃ flow, d.flows[i]? = some flow ∧ target ∈ flow.outflowTargets
  have hlocked := wellLocked_of_document hmade hcalls
  have haimed : Aimed feeds w.directory i w' := by
    refine hrun.aimed hlocked fun p hp => ?_
    obtain ⟨cell, hcell, rfl⟩ := Option.map_eq_some_iff.mp hp
    obtain ⟨flow, draft, hdescribed⟩ := described_of_ofDocument hmade hcell
    exact aims_of_described hdescribed fun target htarget => ⟨flow, hdescribed.flow, htarget⟩
  obtain ⟨p, hp, hheld⟩ := (Option.any_eq_true ..).mp hheld
  obtain ⟨hactive, hall⟩ := Bool.and_eq_true_iff.mp hheld
  obtain ⟨sink, hsink, hon⟩ := List.any_eq_true.mp hactive
  have hpeer := List.all_eq_true.mp hall sink hsink
  rw [hon] at hpeer
  have haims := (haimed p hp).sinks sink hsink
  cases hbody : sink.body with
  | flow target producer peer payload onDemand =>
      rw [hbody] at haims hpeer
      cases peer with
      | none => cases hpeer
      | some g =>
          obtain ⟨⟨flow, hflow, htarget⟩, hattached⟩ := haims
          obtain ⟨found, hfound, rfl⟩ := hattached g rfl
          have hdirectory : w'.directory = w.directory := (hrun.reach.wellLocked hlocked).tied.directory
          simp only [awaitsPeer, hdirectory, hfound, Option.any_some, Bool.not_true,
            Bool.false_or, Bool.or_eq_true] at hpeer
          exact ⟨flow, hflow, target, htarget, found, hfound, hpeer⟩
  | _ =>
      rw [hbody] at hpeer
      cases hpeer

/-- In a run of a document that is accepted, in which idling flows do not feed each other in a ring
and feed no flow that can be called, flows never keep each other going while the set is joined. -/
theorem never_stalled (hmade : ofDocument Catalog.registry fresh d vars = .ok w)
    (hring : ∀ name, ¬ TransGen (Lint.Attends d) name name)
    (hserved : ∀ flow ∈ d.flows, flow.idles = true → ∀ peer ∈ d.flows,
      Lint.hasCallMonitor peer = true → ∀ target ∈ flow.outflowTargets, peer.name ≠ some target)
    (hcalls : ∀ a ∈ calls, a.stops = true) (hrun : Reach (w.opened (.runAll .begin) calls) w') :
    ¬ w'.Stalled := by
  intro hstalled
  obtain ⟨trace, hrun⟩ := hrun.run
  have hnext (i : FlowId) (hi : w'.unfinished i = true) :
      ∃ j, Attends d i j ∧ w'.unfinished j = true := by
    obtain ⟨hidles, hheld⟩ := hstalled.held i hi
    obtain ⟨flow, hflow, target, htarget, found, hfound, hpeer⟩ :=
      fed_of_heldOpen hmade hcalls hrun hheld
    have hidle := idles_of_run hmade hcalls hrun hflow hidles
    obtain ⟨cell, hcell, rfl, hcallable⟩ := peer_of_directory hmade hfound
    obtain ⟨peer, draft, hdescribed⟩ := described_of_ofDocument hmade hcell
    have hname := named_of_mem hmade hcell hdescribed
      ((accepted_of_ofDocument hmade).fed_present (List.mem_of_getElem? hflow) htarget)
    obtain hunfinished | hcalled := hpeer
    · exact ⟨found.flow, ⟨flow, peer, _, hflow, hdescribed.flow, hname, hidle, htarget⟩, hunfinished⟩
    · rw [← hcallable, hdescribed.callable] at hcalled
      exact absurd hname (hserved flow (List.mem_of_getElem? hflow) hidle peer
        (List.mem_of_getElem? hdescribed.flow) hcalled _ htarget)
  obtain ⟨i, hi⟩ := hstalled.waits
  refine no_endless_way (n := d.flows.length) (fun i j hij => ?_) (no_ring_of_attends hring) hnext i hi
  obtain ⟨_, _, _, hflow, _⟩ := hij
  exact (List.getElem?_eq_some_iff.mp hflow).1

/-- The flow `a` idles for `b`, which has only just started and will end by itself. -/
def feedIdles : World :=
  ((feedStart.opened (.runAll .begin) []).replay []
    (List.replicate 88 0 ++ List.replicate 26 1 ++ List.replicate 8 2 ++ List.replicate 6 0)).2

theorem idles_of_feed : ∀ flow ∈ feedDocument.flows, flow.idles = true → flow.name = some "a" ∧
    flow.outflowTargets = ["b"] := by
  decide +kernel

theorem feed_not_stalled : (feedIdles.stackOf 0).any Activity.joins = true ∧
    feedIdles.idles 0 = true ∧ feedIdles.heldOpen 0 = true ∧ feedIdles.unfinished 1 = true ∧
    ¬ feedIdles.Stalled := by
  have hring (name : String) : ¬ TransGen (Lint.Attends feedDocument) name name := by
    have hfeeds {x y : String} (h : Lint.Attends feedDocument x y) : x = "a" ∧ y = "b" := by
      obtain ⟨flow, hflow, hname, hidles, hfed⟩ := h
      obtain ⟨ha, hb⟩ := idles_of_feed flow hflow hidles
      rw [hb, List.mem_singleton] at hfed
      exact ⟨Option.some.inj (hname.symm.trans ha), hfed⟩
    intro hring
    obtain ⟨y, hfirst, _⟩ := TransGen.head'_iff.mp hring
    obtain ⟨x, _, hlast⟩ := TransGen.tail'_iff.mp hring
    have := (hfeeds hfirst).1.symm.trans (hfeeds hlast).2
    contradiction
  have hplain : ∀ peer ∈ feedDocument.flows, Lint.hasCallMonitor peer = false := by decide +kernel
  exact ⟨by decide +kernel, by decide +kernel, by decide +kernel, by decide +kernel,
    never_stalled feed_made hring
      (fun _ _ _ peer hpeer hcalled => nomatch (hplain peer hpeer).symm.trans hcalled)
      (List.forall_mem_nil _) (run_replay .refl _).reach⟩

/-- A flow that feeds another one and idles meanwhile. -/
def feeder (name target : String) : Blueprint.Flow :=
  ⟨some name, some (.bare "bool.true"), [],
    some ⟨Blueprint.flowKind, none, [.flow target], []⟩, none⟩

/-- Two flows with sources of their own that feed each other. -/
def pairDocument : Blueprint.Document := ⟨[feeder "a" "b", feeder "b" "a"], []⟩

def pairStart : World :=
  (ofDocument Catalog.registry (fun _ => "") pairDocument []).toOption.getD empty

/-- The run of the two flows to where both idle and the set is being joined. -/
def pairIdles : World :=
  ((pairStart.opened (.runAll .begin) []).replay []
    (List.replicate 88 0 ++ List.replicate 26 1 ++ List.replicate 26 2 ++ List.replicate 6 0)).2

/-- A flow that feeds one that can be called. -/
def servedDocument : Blueprint.Document :=
  ⟨[feeder "a" "c", ⟨some "c", none, [], none, some (.bare "call")⟩], []⟩

def servedStart : World :=
  (ofDocument Catalog.registry (fun _ => "") servedDocument []).toOption.getD empty

def servedIdles : World :=
  ((servedStart.opened (.runAll .begin) []).replay []
    (List.replicate 102 0 ++ List.replicate 26 1 ++ List.replicate 6 0)).2

theorem lt_of_unfinished (h : w.unfinished f = true) : f < w.flows.length := by
  obtain ⟨t, ht, _⟩ := (Option.any_eq_true ..).mp h
  by_contra hf
  have hnone : w.flow? f = none := List.getElem?_eq_none (Nat.le_of_not_lt hf)
  simp [threadOf, hnone] at ht

/-- The checks accept two flows that feed each other, and one that feeds a flow that can be called,
and both sets come to where all that is left of them keeps itself going while the set is joined. -/
theorem accepted_stalled :
    (ofDocument Catalog.registry (fun _ => "") pairDocument [] = .ok pairStart ∧
      Reach (pairStart.opened (.runAll .begin) []) pairIdles ∧ pairIdles.Stalled) ∧
    (ofDocument Catalog.registry (fun _ => "") servedDocument [] = .ok servedStart ∧
      Reach (servedStart.opened (.runAll .begin) []) servedIdles ∧ servedIdles.Stalled) := by
  have hpair : ∀ f < pairIdles.flows.length, pairIdles.unfinished f = true →
      pairIdles.idles f = true ∧ pairIdles.heldOpen f = true := by decide +kernel
  have hserved : ∀ f < servedIdles.flows.length, servedIdles.unfinished f = true →
      servedIdles.idles f = true ∧ servedIdles.heldOpen f = true := by decide +kernel
  refine ⟨⟨made_of_isOk (by decide +kernel), (run_replay .refl _).reach, ?_⟩,
    ⟨made_of_isOk (by decide +kernel), (run_replay .refl _).reach, ?_⟩⟩
  · exact ⟨by decide +kernel, ⟨0, by decide +kernel⟩, fun f hf => hpair f (lt_of_unfinished hf) hf⟩
  · exact ⟨by decide +kernel, ⟨0, by decide +kernel⟩, fun f hf => hserved f (lt_of_unfinished hf) hf⟩

end Document

end World
end Engine
end PullFlow
