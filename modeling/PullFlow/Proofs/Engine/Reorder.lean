import PullFlow.Proofs.Engine.Inflows
import PullFlow.Proofs.Engine.Rings
import PullFlow.Proofs.Engine.Wiring
import PullFlow.Proofs.Scope.Mirrors
import Mathlib.Data.List.Nodup

/-!
Flows that are declared in another order. Each flow gets its scope and its surroundings when it is its
turn, and finds its peers by their names. As long as no name leads through the scope of another flow,
the trees that come of two orders are the same but for the places of their scopes, so each hook of a
flow does the same in both, and the flow is fed by the same connections in the same order.
-/

namespace PullFlow

namespace Pipeline

/-- The parts of alike pipelines are of the same kinds. -/
theorem Related.kinds {ctx ctx' : Context} {p p' : Pipeline} (h : p.Alike ctx ctx' p') :
    p'.chain.kinds = p.chain.kinds ∧ p'.sink.kind = p.sink.kind := by
  have hoperators : p'.chain.operators.map (·.kind) = p.chain.operators.map (·.kind) := by
    refine List.forall₂_eq_eq_eq ▸ List.forall₂_map_left_iff.mpr (List.forall₂_map_right_iff.mpr ?_)
    exact h.operators.flip.imp fun _ _ hop => hop.kind
  exact ⟨congrArg₂ List.cons h.source.kind hoperators, h.sink.kind⟩

theorem kinds_wire (p : Pipeline) (inflows : List Outflow) :
    (p.wire inflows).body.chain.kinds = p.chain.kinds ∧
      (p.wire inflows).body.sink.kind = p.sink.kind := by
  unfold wire
  dsimp only
  split <;> exact ⟨rfl, rfl⟩

end Pipeline

namespace Engine

open Scope.Store

namespace World

variable {cells : List FlowCell}

/-! The connections of the flows, flow by flow, without the places of the flows. -/

def bundles (cells : List FlowCell) : List (String × List Outflow) :=
  cells.zipIdx.map fun (cell, f) => (cell.name, (cell.pipeline.outflows f).map Outflow.unplaced)

theorem mem_bundles {b : String × List Outflow} : b ∈ bundles cells ↔
    ∃ (f : FlowId) (cell : FlowCell), cells[f]? = some cell ∧
      b = (cell.name, (cell.pipeline.outflows f).map Outflow.unplaced) := by
  constructor
  · intro hb
    obtain ⟨⟨cell, f⟩, hmem, rfl⟩ := List.mem_map.mp hb
    exact ⟨f, cell, List.mk_mem_zipIdx_iff_getElem?.mp hmem, rfl⟩
  · rintro ⟨f, cell, hcell, rfl⟩
    exact List.mem_map.mpr ⟨(cell, f), List.mk_mem_zipIdx_iff_getElem?.mpr hcell, rfl⟩

theorem names_bundles (cells : List FlowCell) : (bundles cells).map (·.1) = cells.map (·.name) := by
  refine List.ext_getElem? fun i => ?_
  simp only [bundles, List.getElem?_map, List.getElem?_zipIdx, Option.map_map]
  rfl

theorem unplaced_outflowsFrom (cells : List FlowCell) :
    (outflowsFrom 0 cells).map Outflow.unplaced = (bundles cells).flatMap (·.2) := by
  rw [outflowsFrom, bundles, List.map_flatMap, List.flatMap_map]

end World

/-! One flow in two sets. -/

/-- Flows of one name and with one sort of monitor, whose parts are alike. -/
structure FlowCell.Alike (ctx ctx' : Context) (cell cell' : FlowCell) : Prop where
  name : cell'.name = cell.name
  monitorKind : cell'.monitorKind = cell.monitorKind
  pipeline : cell.pipeline.Alike ctx ctx' cell'.pipeline
  parked : Option.Rel (Component.Alike ctx ctx' Eq) cell.parked cell'.parked

namespace FlowCell

variable {st st' : Scope.Store} {ctx ctx' : Context} {cell cell' : FlowCell}

open HookEnd

/-- A flow is attached in one set if it is in the other, with the same sink read on demand. -/
theorem follows_attach (hctx : ctx.Alike st st' ctx') (cell : FlowCell) :
    Follows (FlowCell.Alike ctx ctx') (cell.attach ctx) (cell.attach ctx') := by
  have hpipeline : Follows (fun c c' => ∃ p p', p.Alike ctx ctx' p' ∧
      c = { cell with pipeline := p } ∧ c' = { cell with pipeline := p' })
      (cell.onPipeline (Pipeline.setContext ctx)) (cell.onPipeline (Pipeline.setContext ctx')) :=
    (Pipeline.follows_setContext hctx cell.pipeline).map fun p p' h => ⟨p, p', h, rfl, rfl⟩
  refine hpipeline.andThen ?_
  rintro _ _ ⟨p, p', hp, rfl, rfl⟩
  cases cell.parked with
  | none => exact follows_pass ⟨rfl, rfl, hp, .none⟩
  | some m =>
      have hmonitor := Component.follows_setContext (MonitorBody.follows_attach hctx m.body)
      intro hok
      obtain ⟨hok', hm⟩ := hmonitor hok
      refine ⟨hok', rfl, rfl, ⟨hp.source, hp.operators, ?_⟩, .some hm⟩
      have hok : (Component.setContext ctx m).result = .ok () := hok
      simp only [World.attachMonitor, HookEnd.map, hok, hok']
      split
      · obtain ⟨hkind, harguments, hstage, hcontext, hcontext', hbody⟩ := hp.sink
        exact ⟨hkind, harguments, hstage, hcontext, hcontext', hbody.onDemand⟩
      · exact hp.sink

/-- The parts of a flow take their arguments in one set if they do in the other. -/
theorem Alike.follows_setUp (h : cell.Alike ctx ctx' cell') (hctx : ctx.Alike st st' ctx') :
    Follows (FlowCell.Alike ctx ctx') (cell.setUp st) (cell'.setUp st') := by
  have hpipeline : Follows (FlowCell.Alike ctx ctx') (cell.onPipeline (Pipeline.setUp st))
      (cell'.onPipeline (Pipeline.setUp st')) :=
    (h.pipeline.follows_setUp hctx).map fun p p' hp => ⟨h.name, h.monitorKind, hp, h.parked⟩
  refine hpipeline.andThen fun c c' hc => ?_
  unfold World.prepareMonitor
  have hparked := hc.parked
  cases hm : c.parked <;> cases hm' : c'.parked <;> rw [hm, hm'] at hparked
  · exact follows_pass hc
  · cases hparked
  · cases hparked
  · cases hparked with
    | some hmonitor =>
        exact (MonitorBody.follows_setUp hmonitor hctx).map fun m m' hm =>
          ⟨hc.name, hc.monitorKind, hc.pipeline, .some hm⟩

/-- A flow that is attached and takes its arguments in one set does so in the other. -/
theorem alike_prepared {directory directory' : Directory} {scope scope' : ScopeId}
    (hctx : Context.Alike st st' ⟨cell.name, scope, directory⟩ ⟨cell.name, scope', directory'⟩)
    (hattach : (cell.attach ⟨cell.name, scope, directory⟩).result = .ok ())
    (hsetUp : ((World.housed directory cell scope).setUp st).result = .ok ()) :
    (cell.attach ⟨cell.name, scope', directory'⟩).result = .ok () ∧
      ((World.housed directory' cell scope').setUp st').result = .ok () ∧
      FlowCell.Alike ⟨cell.name, scope, directory⟩ ⟨cell.name, scope', directory'⟩
        ((World.housed directory cell scope).prepared st)
        ((World.housed directory' cell scope').prepared st') := by
  obtain ⟨hattach', hbodies⟩ := follows_attach hctx cell hattach
  have hhoused : FlowCell.Alike ⟨cell.name, scope, directory⟩ ⟨cell.name, scope', directory'⟩
      (World.housed directory cell scope) (World.housed directory' cell scope') :=
    ⟨hbodies.name, hbodies.monitorKind, hbodies.pipeline, hbodies.parked⟩
  obtain ⟨hsetUp', hbodies⟩ := hhoused.follows_setUp hctx hsetUp
  exact ⟨hattach', hsetUp', hbodies.name, hbodies.monitorKind, hbodies.pipeline, hbodies.parked⟩

end FlowCell

namespace World

variable {w w' : World} {st st' : Scope.Store} {cell cell' : FlowCell} {i j : Nat}
  {cells cells' : List FlowCell}

/-- Two sets of the same flows, of different names, declared in different orders in the same tree. No
name leads through what another one claims. -/
structure Reordered (w w' : World) : Prop where
  root : w'.root = w.root
  scopes : w'.scopes = w.scopes
  flows : w.flows.Perm w'.flows
  peers : ∀ name, (Fields.get? name w'.directory).map Peer.callable =
    (Fields.get? name w.directory).map Peer.callable
  based : Based w.root w.scopes
  names : (w.flows.map (·.name)).Nodup
  clear : ∀ a ∈ w.flows.map (·.name), ∀ b ∈ w.flows.map (·.name), a ≠ b → Clear a b

namespace Reordered

theorem symm (h : Reordered w w') : Reordered w' w := by
  have hnames := h.flows.map (·.name)
  refine ⟨h.root.symm, h.scopes.symm, h.flows.symm, fun name => (h.peers name).symm, ?_,
    hnames.nodup_iff.mp h.names, fun a ha b hb => ?_⟩
  · rw [h.root, h.scopes]
    exact h.based
  · exact h.clear a (hnames.mem_iff.mpr ha) b (hnames.mem_iff.mpr hb)

theorem clear_in_order (h : Reordered w w') : (w.flows.map (·.name)).Pairwise Clear :=
  List.Nodup.pairwise_of_forall_ne h.names h.clear

/-- Names can be claimed in one order if they can be in another. -/
theorem claimNames_isOk (h : Reordered w w')
    (hclaims : claimNames w.root (w.flows.map (·.name)) w.scopes = .ok st) :
    ∃ st', claimNames w'.root (w'.flows.map (·.name)) w'.scopes = .ok st' := by
  have hnames := h.flows.map (·.name)
  obtain ⟨hslots, hapart⟩ :=
    (claimNames_iff h.based.grown h.based.root h.clear_in_order).mp ⟨st, hclaims⟩
  rw [h.root, h.scopes]
  refine (claimNames_iff h.based.grown h.based.root h.symm.clear_in_order).mpr
    ⟨fun name hname => hslots name (hnames.mem_iff.mpr hname), ?_⟩
  exact (hnames.pairwise_iff fun hab => hab.symm).mp hapart

/-- A flow has the same surroundings in both sets. -/
theorem contexts (h : Reordered w w')
    (hclaims : claimNames w.root (w.flows.map (·.name)) w.scopes = .ok st)
    (hclaims' : claimNames w'.root (w'.flows.map (·.name)) w'.scopes = .ok st')
    (hcell : w.flows[i]? = some cell) (hcell' : w'.flows[j]? = some cell) :
    Context.Alike st st' ⟨cell.name, w.scopes.nodes.length + i, w.directory⟩
      ⟨cell.name, w'.scopes.nodes.length + j, w'.directory⟩ := by
  have hclaimed := claimed_of_claimNames h.based.grown h.based.root h.clear_in_order hclaims
  rw [h.root, h.scopes] at hclaims'
  have hclaimed' := claimed_of_claimNames h.based.grown h.based.root h.symm.clear_in_order hclaims'
  have hmirrors := hclaimed.mirrors hclaimed' h.based.grown h.based.root (h.flows.map (·.name))
  refine ⟨rfl, h.peers, hmirrors.getValue (.inr ⟨i, j, cell.name, ?_, ?_, rfl, ?_⟩)⟩
  · rw [List.getElem?_map, hcell]
    rfl
  · rw [List.getElem?_map, hcell']
    rfl
  · rw [h.scopes]

/-- A flow that one set has, the other one has too. -/
theorem position (h : Reordered w w') (hcell : w'.flows[j]? = some cell) :
    ∃ i : Nat, w.flows[i]? = some cell :=
  List.getElem?_of_mem (h.flows.mem_iff.mpr (List.mem_of_getElem? hcell))

/-- What a set-up comes to is the same in both orders, up to places. -/
theorem alike (h : Reordered w w') (hmade : w.setUp = .ok (st, cells))
    (hclaims' : claimNames w'.root (w'.flows.map (·.name)) w'.scopes = .ok st')
    (hcell : w.flows[i]? = some cell) (hcell' : w'.flows[j]? = some cell) :
    (cell.attach ⟨cell.name, w'.scopes.nodes.length + j, w'.directory⟩).result = .ok () ∧
      ((housed w'.directory cell (w'.scopes.nodes.length + j)).setUp st').result = .ok () ∧
      FlowCell.Alike ⟨cell.name, w.scopes.nodes.length + i, w.directory⟩
        ⟨cell.name, w'.scopes.nodes.length + j, w'.directory⟩
        ((housed w.directory cell (w.scopes.nodes.length + i)).prepared st)
        ((housed w'.directory cell (w'.scopes.nodes.length + j)).prepared st') := by
  obtain ⟨hclaims, hparts, _⟩ := setUp_eq_ok.mp hmade
  obtain ⟨hattach, hsetUp⟩ := hparts i cell hcell
  exact FlowCell.alike_prepared (h.contexts hclaims hclaims' hcell hcell') hattach hsetUp

/-- Flows that are set up in one order are set up in the other. -/
theorem setUp_isOk (h : Reordered w w') (hmade : w.setUp = .ok (st, cells)) :
    ∃ st' cells', w'.setUp = .ok (st', cells') := by
  obtain ⟨hclaims, _, hwired, _⟩ := setUp_eq_ok.mp hmade
  obtain ⟨st', hclaims'⟩ := h.claimNames_isOk hclaims
  refine ⟨st', _, setUp_eq_ok.mpr ⟨hclaims', fun j cell hcell' => ?_, fun c' hc' => ?_, rfl⟩⟩
  · obtain ⟨i, hcell⟩ := h.position hcell'
    obtain ⟨hattach, hsetUp, _⟩ := h.alike hmade hclaims' hcell hcell'
    exact ⟨hattach, hsetUp⟩
  · obtain ⟨j, hj⟩ := List.getElem?_of_mem hc'
    obtain ⟨cell, hcell', rfl⟩ := flow_of_prepared hj
    obtain ⟨i, hcell⟩ := h.position hcell'
    obtain ⟨_, _, halike⟩ := h.alike hmade hclaims' hcell hcell'
    exact halike.pipeline.wire (hwired _ (List.mem_of_getElem? (prepared_of_flow hcell)))

/-- Both sets have the same connections, flow by flow. -/
theorem bundles_perm (h : Reordered w w') (hmade : w.setUp = .ok (st, cells))
    (hclaims' : claimNames w'.root (w'.flows.map (·.name)) w'.scopes = .ok st') :
    (bundles (w.preparedFlows st)).Perm (bundles (w'.preparedFlows st')) := by
  have hnodup : (bundles (w.preparedFlows st)).Nodup := by
    refine .of_map (·.1) ?_
    rw [names_bundles, names_preparedFlows]
    exact h.names
  have hnodup' : (bundles (w'.preparedFlows st')).Nodup := by
    refine .of_map (·.1) ?_
    rw [names_bundles, names_preparedFlows]
    exact h.symm.names
  refine (List.perm_ext_iff_of_nodup hnodup hnodup').mpr fun b => ?_
  rw [mem_bundles, mem_bundles]
  constructor
  · rintro ⟨i, c, hc, rfl⟩
    obtain ⟨cell, hcell, rfl⟩ := flow_of_prepared hc
    obtain ⟨j, hcell'⟩ := h.symm.position hcell
    obtain ⟨_, _, halike⟩ := h.alike hmade hclaims' hcell hcell'
    refine ⟨j, _, prepared_of_flow hcell', ?_⟩
    rw [halike.name, halike.pipeline.outflows i j]
  · rintro ⟨j, c, hc, rfl⟩
    obtain ⟨cell, hcell', rfl⟩ := flow_of_prepared hc
    obtain ⟨i, hcell⟩ := h.position hcell'
    obtain ⟨_, _, halike⟩ := h.alike hmade hclaims' hcell hcell'
    refine ⟨i, _, prepared_of_flow hcell, ?_⟩
    rw [halike.name, halike.pipeline.outflows i j]

/-- What feeds a flow is the same in both orders, up to places. -/
theorem inflows (h : Reordered w w') (hmade : w.setUp = .ok (st, cells))
    (hclaims' : claimNames w'.root (w'.flows.map (·.name)) w'.scopes = .ok st') (name : String) :
    (inflowsOf name (outflowsFrom 0 (w'.preparedFlows st'))).map Outflow.unplaced =
      (inflowsOf name (outflowsFrom 0 (w.preparedFlows st))).map Outflow.unplaced := by
  rw [inflowsOf_unplaced, inflowsOf_unplaced, unplaced_outflowsFrom, unplaced_outflowsFrom]
  refine (inflowsOf_perm (h.bundles_perm hmade hclaims') ?_ (fun b hb o ho => ?_) name).symm
  · rw [names_bundles, names_preparedFlows]
    exact h.names
  · obtain ⟨i, c, hc, rfl⟩ := mem_bundles.mp hb
    obtain ⟨cell, hcell, rfl⟩ := flow_of_prepared hc
    obtain ⟨j, hcell'⟩ := h.symm.position hcell
    obtain ⟨_, _, halike⟩ := h.alike hmade hclaims' hcell hcell'
    obtain ⟨o, hout, rfl⟩ := List.mem_map.mp ho
    exact (halike.pipeline.producer hout).1.trans (name_prepared ..).symm

end Reordered

end World

/-! Sets that are made of the same drafts. -/

section Drafts

variable {fresh fresh' : Nat → String} {drafts drafts' : List FlowDraft}

namespace World

variable {scopes : Scope.Store} {root : ScopeId} {start start' w w' : World}

/-- Which flow of a name can be called is known from the flows. -/
theorem callable_of_ofDrafts (h : ofDrafts fresh drafts scopes root = .ok start) {name : String}
    {callable : Bool} : (Fields.get? name start.directory).map Peer.callable = some callable ↔
      ∃ cell ∈ start.flows, cell.name = name ∧ cell.callable = callable := by
  constructor
  · intro hknown
    obtain ⟨peer, hpeer, rfl⟩ := Option.map_eq_some_iff.mp hknown
    obtain ⟨cell, hcell, hname, hcallable⟩ := peer_of_ofDrafts h hpeer
    exact ⟨cell, List.mem_of_getElem? hcell, hname, hcallable⟩
  · rintro ⟨cell, hmem, rfl, rfl⟩
    obtain ⟨i, hcell⟩ := List.getElem?_of_mem hmem
    rw [((assembled_of_ofDrafts h).entered i cell hcell).2]
    rfl

section Orders

variable (hperm : (entitled fresh drafts).Perm (entitled fresh' drafts'))

include hperm

/-- The same flows are fed by peers. -/
theorem fed_perm : (drafts'.flatMap FlowDraft.targets).contains =
    (drafts.flatMap FlowDraft.targets).contains := by
  have hdrafts := hperm.map (·.2)
  rw [drafts_entitled, drafts_entitled] at hdrafts
  exact funext fun name => ((hdrafts.flatMap_right _).contains_eq).symm

theorem flows_perm (h : ofDrafts fresh drafts scopes root = .ok start)
    (h' : ofDrafts fresh' drafts' scopes root = .ok start') : start.flows.Perm start'.flows := by
  rw [flows_of_ofDrafts h, flows_of_ofDrafts h', fed_perm hperm]
  exact hperm.map _

/-- A set can be made of drafts in one order if it can be in another. -/
theorem ofDrafts_isOk (h : ofDrafts fresh drafts scopes root = .ok start) :
    ∃ start', ofDrafts fresh' drafts' scopes root = .ok start' := by
  have hassembled := assembled_of_ofDrafts h
  have hnames := hperm.map (·.1)
  rw [names_entitled, names_entitled] at hnames
  have hnodup := hassembled.nodup
  rw [hassembled.names] at hnodup
  have hmade : ∃ made, assembleFlows fresh' (drafts'.flatMap FlowDraft.targets) 0 [] drafts' =
      .ok made := by
    refine assembleFlows_isOk (fun j p hp => ?_) (hnames.nodup_iff.mp hnodup) fun _ _ => rfl
    have hmem : (draftName fresh' j p, p) ∈ entitled fresh' drafts' :=
      List.mem_of_getElem? (by rw [getElem?_entitled, hp]; rfl)
    obtain ⟨i, hi⟩ := List.getElem?_of_mem (hperm.mem_iff.mpr hmem)
    rw [getElem?_entitled] at hi
    obtain ⟨q, hq, hsame⟩ := Option.map_eq_some_iff.mp hi
    obtain ⟨hname, rfl⟩ := Prod.mk.inj hsame
    have hcell : i < start.flows.length :=
      hassembled.length.symm ▸ (List.getElem?_eq_some_iff.mp hq).1
    have hmade := hassembled.made i q _ hq (List.getElem?_eq_getElem hcell)
    rw [Nat.zero_add, hname] at hmade
    rw [Nat.zero_add, fed_perm hperm]
    exact ⟨_, hmade⟩
  obtain ⟨⟨cells, directory⟩, hmade⟩ := hmade
  exact ⟨_, ofDrafts_eq_ok.mpr ⟨cells, directory, hmade, rfl⟩⟩

/-- Sets of the same drafts in different orders. -/
theorem reordered_of_perm (hbased : Based root scopes)
    (hclear : ∀ a ∈ draftNames fresh 0 drafts, ∀ b ∈ draftNames fresh 0 drafts, a ≠ b → Clear a b)
    (h : ofDrafts fresh drafts scopes root = .ok start)
    (h' : ofDrafts fresh' drafts' scopes root = .ok start') : Reordered start start' := by
  have hflows := flows_perm hperm h h'
  have hassembled := assembled_of_ofDrafts h
  have hpeers (name : String) : (Fields.get? name start'.directory).map Peer.callable =
      (Fields.get? name start.directory).map Peer.callable := by
    refine Option.ext fun callable => ?_
    rw [callable_of_ofDrafts h, callable_of_ofDrafts h']
    simp only [hflows.mem_iff]
  rw [← hassembled.names] at hclear
  have hnodup := hassembled.nodup
  obtain ⟨_, _, _, rfl⟩ := ofDrafts_eq_ok.mp h
  obtain ⟨_, _, _, rfl⟩ := ofDrafts_eq_ok.mp h'
  exact ⟨rfl, rfl, hflows, hpeers, hbased, hnodup, hclear⟩

end Orders

/-- Drafts make a set of flows in a tree of scopes, and a thread sets them up by itself. -/
structure SetUpFrom (fresh : Nat → String) (drafts : List FlowDraft) (scopes : Scope.Store)
    (root : ScopeId) (start w : World) : Prop where
  made : ofDrafts fresh drafts scopes root = .ok start
  ends : start.SetsUp w (.ok .null)

/-- Flows of one name that two set-ups have left: their parts are of the same kinds, both are wired,
and each was handed one list of connections, the same in both sets but for where the producers are. -/
structure Twins (start start' : World) (i j : FlowId) (c c' : FlowCell) : Prop where
  kinds : c'.pipeline.chain.kinds = c.pipeline.chain.kinds
  sink : c'.pipeline.sink.kind = c.pipeline.sink.kind
  monitor : c'.monitorKind = c.monitorKind
  wired : c.state = .wired ∧ c'.state = .wired
  handed : ∃ inflows inflows', (∀ l, start.Receives i l ↔ l = inflows) ∧
    (∀ l, start'.Receives j l ↔ l = inflows') ∧
    inflows'.map Outflow.unplaced = inflows.map Outflow.unplaced

/-- What becomes of drafts and of the tree. -/
def readied (fresh : Nat → String) (drafts : List FlowDraft) (scopes : Scope.Store)
    (root : ScopeId) : Except Error (Scope.Store × List FlowCell) :=
  (ofDrafts fresh drafts scopes root).bind setUp

theorem readied_eq_ok {made : Scope.Store × List FlowCell} :
    readied fresh drafts scopes root = .ok made ↔
      ∃ start, ofDrafts fresh drafts scopes root = .ok start ∧ start.setUp = .ok made := by
  unfold readied
  cases ofDrafts fresh drafts scopes root <;> simp [Except.bind]

theorem setUpFrom_iff (hbased : Based root scopes) :
    (∃ start w, SetUpFrom fresh drafts scopes root start w) ↔
      (readied fresh drafts scopes root).toOption.isSome = true := by
  constructor
  · rintro ⟨start, w, hmade, hends⟩
    obtain ⟨_, _, hsetUp⟩ := (idle_of_ofDrafts hmade hbased).setsUp_iff.mp hends
    rw [readied_eq_ok.mpr ⟨start, hmade, hsetUp⟩]
    rfl
  · intro hsome
    cases hreadied : readied fresh drafts scopes root with
    | error e =>
        rw [hreadied] at hsome
        cases hsome
    | ok made =>
        obtain ⟨start, hmade, hsetUp⟩ := readied_eq_ok.mp hreadied
        have hyields := (idle_of_ofDrafts hmade hbased).yields_setUp
        rw [hsetUp] at hyields
        obtain ⟨w₁, hyields, _⟩ := hyields
        obtain ⟨w, hends, _⟩ := setsUp_of_yields hyields
        exact ⟨start, w, hmade, hends⟩

/-- A set of flows can be set up in one order if it can be in another. -/
theorem readied_isOk (hbased : Based root scopes)
    (hperm : (entitled fresh drafts).Perm (entitled fresh' drafts'))
    (hclear : ∀ a ∈ draftNames fresh 0 drafts, ∀ b ∈ draftNames fresh 0 drafts, a ≠ b → Clear a b)
    (h : ∃ start w, SetUpFrom fresh drafts scopes root start w) :
    ∃ start w, SetUpFrom fresh' drafts' scopes root start w := by
  obtain ⟨start, w, hmade, hends⟩ := h
  obtain ⟨_, _, hsetUp⟩ := (idle_of_ofDrafts hmade hbased).setsUp_iff.mp hends
  obtain ⟨start', hmade'⟩ := ofDrafts_isOk hperm hmade
  obtain ⟨st', cells', hsetUp'⟩ :=
    (reordered_of_perm hperm hbased hclear hmade hmade').setUp_isOk hsetUp
  rw [setUpFrom_iff hbased, readied_eq_ok.mpr ⟨start', hmade', hsetUp'⟩]
  rfl

/-- A set-up leaves the flows under their names. -/
theorem Idle.names_setsUp (hidle : start.Idle .init) (hends : start.SetsUp w (.ok .null)) :
    w.flows.map (·.name) = start.flows.map (·.name) := by
  obtain ⟨_, _, hmade⟩ := hidle.setsUp_iff.mp hends
  obtain ⟨_, _, _, hcells⟩ := setUp_eq_ok.mp hmade
  rw [hcells, List.map_map]
  exact names_preparedFlows start w.scopes

/-- Flows of one name in two sets are twins. -/
theorem Reordered.twins (h : Reordered start start') (hidle : start.Idle .init)
    (hidle' : start'.Idle .init) (hends : start.SetsUp w (.ok .null))
    (hends' : start'.SetsUp w' (.ok .null)) {i j : FlowId} {c c' : FlowCell}
    (hc : w.flow? i = some c) (hc' : w'.flow? j = some c') (hname : c'.name = c.name) :
    Twins start start' i j c c' := by
  obtain ⟨_, _, hmade⟩ := hidle.setsUp_iff.mp hends
  obtain ⟨_, _, hmade'⟩ := hidle'.setsUp_iff.mp hends'
  obtain ⟨_, _, _, hcells⟩ := setUp_eq_ok.mp hmade
  obtain ⟨hclaims', _, _, hcells'⟩ := setUp_eq_ok.mp hmade'
  rw [flow?, hcells, List.getElem?_map] at hc
  rw [flow?, hcells', List.getElem?_map] at hc'
  obtain ⟨p, hp, rfl⟩ := Option.map_eq_some_iff.mp hc
  obtain ⟨p', hp', rfl⟩ := Option.map_eq_some_iff.mp hc'
  obtain ⟨cell, hcell, rfl⟩ := flow_of_prepared hp
  obtain ⟨cell', hcell', rfl⟩ := flow_of_prepared hp'
  have hsame : cell' = cell := by
    have hname : cell'.name = cell.name :=
      (name_prepared ..).symm.trans (hname.trans (name_prepared ..))
    exact List.inj_on_of_nodup_map h.names (h.flows.mem_iff.mpr (List.mem_of_getElem? hcell'))
      (List.mem_of_getElem? hcell) hname
  subst hsame
  obtain ⟨_, _, halike⟩ := h.alike hmade hclaims' hcell hcell'
  obtain ⟨hkinds, hsink⟩ := halike.pipeline.kinds
  refine ⟨?_, ?_, halike.monitorKind, ⟨rfl, rfl⟩, _, _, fun l => ?_, fun l => ?_,
    h.inflows hmade hclaims' cell'.name⟩
  · exact (Pipeline.kinds_wire ..).1.trans (hkinds.trans (Pipeline.kinds_wire ..).1.symm)
  · exact (Pipeline.kinds_wire ..).2.trans (hsink.trans (Pipeline.kinds_wire ..).2.symm)
  · rw [hidle.receives_iff hmade, hcell]
    simp
  · rw [hidle'.receives_iff hmade', hcell']
    simp

/-- Flows can be set up in one order exactly if they can be in any other, and then the flows of one
name are twins, as long as no name leads through the place of another one. Flows without a name of
their own count with the one that they are given. -/
theorem setUp_of_perm (hbased : Based root scopes)
    (hperm : (entitled fresh drafts).Perm (entitled fresh' drafts'))
    (hclear : ∀ a ∈ draftNames fresh 0 drafts, ∀ b ∈ draftNames fresh 0 drafts, a ≠ b → Clear a b) :
    ((∃ start w, SetUpFrom fresh drafts scopes root start w) ↔
      ∃ start' w', SetUpFrom fresh' drafts' scopes root start' w') ∧
    ∀ start w start' w', SetUpFrom fresh drafts scopes root start w →
      SetUpFrom fresh' drafts' scopes root start' w' →
        (w.flows.map (·.name)).Perm (w'.flows.map (·.name)) ∧
        ∀ i j c c', w.flow? i = some c → w'.flow? j = some c' → c'.name = c.name →
          Twins start start' i j c c' := by
  have hnames := hperm.map (·.1)
  rw [names_entitled, names_entitled] at hnames
  refine ⟨⟨readied_isOk hbased hperm hclear, readied_isOk hbased hperm.symm fun a ha b hb =>
    hclear a (hnames.mem_iff.mpr ha) b (hnames.mem_iff.mpr hb)⟩, ?_⟩
  rintro start w start' w' ⟨hmade, hends⟩ ⟨hmade', hends'⟩
  have hreordered := reordered_of_perm hperm hbased hclear hmade hmade'
  have hidle := idle_of_ofDrafts hmade hbased
  have hidle' := idle_of_ofDrafts hmade' hbased
  refine ⟨?_, fun i j c c' hc hc' => hreordered.twins hidle hidle' hends hends' hc hc'⟩
  rw [hidle.names_setsUp hends, hidle'.names_setsUp hends']
  exact hreordered.flows.map _

theorem based_addRoot : Based 0 Scope.Store.empty.addRoot.1 :=
  ⟨.root .empty, by decide⟩

def bareDraft (name : String) : FlowDraft := ⟨some name, none, [], none, none⟩

/-- Two flows that feed a third one. -/
def feeders : List FlowDraft :=
  let feeder (name : String) : FlowDraft := { bareDraft name with
    sink := some (.make Blueprint.flowKind (.flow "c" "" none .null false) ⟨[.flow "c"], []⟩) }
  [feeder "b", feeder "a", bareDraft "c"]

theorem feeders_in_either_order : ∃ start w start' w',
    SetUpFrom (fun _ => "") feeders Scope.Store.empty.addRoot.1 0 start w ∧
    SetUpFrom (fun _ => "") feeders.reverse Scope.Store.empty.addRoot.1 0 start' w' ∧
    (w.flows.map (·.name)).Perm (w'.flows.map (·.name)) ∧
    ∀ i j c c', w.flow? i = some c → w'.flow? j = some c' → c'.name = c.name →
      Twins start start' i j c c' := by
  have hperm : (entitled (fun _ => "") feeders).Perm (entitled (fun _ => "") feeders.reverse) :=
    entitled_perm (by decide) (List.reverse_perm feeders).symm
  have hplain : ∀ b ∈ draftNames (fun _ => "") 0 feeders, Plain b := by decide +kernel
  obtain ⟨hiff, htwins⟩ :=
    setUp_of_perm based_addRoot hperm fun _ _ b hb _ => clear_of_plain (hplain b hb)
  obtain ⟨start, w, hset⟩ := (setUpFrom_iff based_addRoot).mpr
    (show (readied (fun _ => "") feeders _ 0).toOption.isSome = true by decide +kernel)
  obtain ⟨start', w', hset'⟩ := hiff.mp ⟨start, w, hset⟩
  exact ⟨start, w, start', w', hset, hset', htwins _ _ _ _ hset hset'⟩

/-- A flow whose name leads through the scope of another one can be set up only after that one. -/
theorem order_matters_below_flow :
    [bareDraft "a.b", bareDraft "a"].Perm [bareDraft "a", bareDraft "a.b"] ∧
    ([bareDraft "a", bareDraft "a.b"].map (·.name)).Nodup ∧
    (∃ start w, SetUpFrom (fun _ => "") [bareDraft "a", bareDraft "a.b"]
      Scope.Store.empty.addRoot.1 0 start w) ∧
    ¬ ∃ start w, SetUpFrom (fun _ => "") [bareDraft "a.b", bareDraft "a"]
      Scope.Store.empty.addRoot.1 0 start w := by
  refine ⟨.swap .., by decide, ?_, ?_⟩
  · rw [setUpFrom_iff based_addRoot]
    decide +kernel
  · rw [setUpFrom_iff based_addRoot]
    decide +kernel

end World

end Drafts

end Engine
end PullFlow
