import PullFlow.Proofs.Engine.Nested
import PullFlow.Proofs.Engine.Completion
import PullFlow.Proofs.Assembly
import PullFlow.Proofs.Catalog
import PullFlow.Proofs.Lint

/-!
Rings of reads. A document that the checks accept has no ring of calls, but it may have flows that
feed each other in a ring: the default source of a flow that is fed reads its peers, and a flow
whose sink feeds another one is by default read on demand. Where there is no such ring either, no
thread ever waits for a lock that it has; where there is one, a flow can lock itself up.
-/

namespace PullFlow

namespace Blueprint.Flow

/-- Whether the source of a flow reads what feeds the flow. -/
def readsInflows (f : Flow) : Bool :=
  match f.source with
  | some part => part.kind == "inflow"
  | none => !Lint.hasCallMonitor f

/-- The flow that reads the chain of a flow on demand: the sink feeds it, and there is no monitor. -/
def demandedBy? (f : Flow) : Option String :=
  match f.monitor, f.sink with
  | none, some part => if part.kind = flowKind then part.target? else none
  | _, _ => none

end Blueprint.Flow

namespace Lint

/-- The flow of name `a` reads the chain of the flow of name `b` on demand. -/
def Draws (d : Blueprint.Document) (a b : String) : Prop :=
  ∃ f ∈ d.flows, ∃ g ∈ d.flows, f.name = some a ∧ f.readsInflows = true ∧ g.name = some b ∧
    g.demandedBy? = some a

end Lint

namespace Engine

open Relation

/-- Two relations of which the second never goes on from where the first one leads have a ring
together only if one of them has. -/
theorem no_ring_of_parts {α : Type} {C D : α → α → Prop} (hturn : ∀ a b c, C a b → ¬ D b c)
    (hC : ∀ a, ¬ TransGen C a a) (hD : ∀ a, ¬ TransGen D a a) (a : α) :
    ¬ TransGen (fun a b => C a b ∨ D a b) a a := by
  have hpath {a b : α} (h : TransGen (fun a b => C a b ∨ D a b) a b) :
      TransGen D a b ∨ TransGen C a b ∨ (∃ c, D a c) ∧ ∃ c, C c b := by
    induction h with
    | single hab =>
        obtain hab | hab := hab
        · exact .inr (.inl (.single hab))
        · exact .inl (.single hab)
    | @tail b c _ hbc ih =>
        obtain hbc | hbc := hbc
        · obtain hdraw | hcall | ⟨hfirst, _⟩ := ih
          · obtain ⟨e, he, _⟩ := TransGen.head'_iff.mp hdraw
            exact .inr (.inr ⟨⟨e, he⟩, b, hbc⟩)
          · exact .inr (.inl (hcall.tail hbc))
          · exact .inr (.inr ⟨hfirst, b, hbc⟩)
        · obtain hdraw | hcall | ⟨_, e, he⟩ := ih
          · exact .inl (hdraw.tail hbc)
          · obtain ⟨e, _, he⟩ := TransGen.tail'_iff.mp hcall
            exact absurd hbc (hturn e b c he)
          · exact absurd hbc (hturn e b c he)
  intro hring
  obtain hdraw | hcall | ⟨⟨c, hc⟩, e, he⟩ := hpath hring
  · exact hD a hdraw
  · exact hC a hcall
  · exact hturn e a c he hc

/-- A path along two relations, of which the second goes on neither from its start nor from where
the first one leads. -/
theorem path_of_parts {α : Type} {C D : α → α → Prop} (hturn : ∀ a b c, C a b → ¬ D b c) {a b : α}
    (h : TransGen (fun a b => C a b ∨ D a b) a b) (ha : ∀ c, ¬ D a c) : TransGen C a b := by
  induction h using TransGen.head_induction_on with
  | single hab => exact .single (hab.resolve_right (ha _))
  | head hac _ ih =>
      have hcall := hac.resolve_right (ha _)
      exact .head hcall (ih fun e => hturn _ _ e hcall)

/-- The part of a relation that can be on a ring. -/
def Inner {α : Type} (r : α → α → Prop) (a b : α) : Prop := r a b ∧ (∃ z, r z a) ∧ ∃ z, r b z

/-- A ring goes only along steps that can be on a ring. -/
theorem transGen_inner {α : Type} {r : α → α → Prop} {a b : α} (h : TransGen r a b)
    (ha : ∃ z, r z a) (hb : ∃ z, r b z) : TransGen (Inner r) a b := by
  induction h using TransGen.head_induction_on with
  | single hab => exact .single ⟨hab, ha, hb⟩
  | @head a c hac hcb ih =>
      obtain ⟨z, hz, _⟩ := TransGen.head'_iff.mp hcb
      exact .head ⟨hac, ha, z, hz⟩ (ih ⟨a, hac⟩)

theorem no_ring_of_inner {α β : Type} {r : α → α → Prop} {q : β → β → Prop} (name : α → β)
    (hname : ∀ a b, Inner r a b → q (name a) (name b)) (hq : ∀ b, ¬ TransGen q b b) (a : α) :
    ¬ TransGen r a a := by
  intro hring
  obtain ⟨b, hb, _⟩ := TransGen.head'_iff.mp hring
  obtain ⟨c, _, hc⟩ := TransGen.tail'_iff.mp hring
  exact hq (name a) ((transGen_inner hring ⟨c, hc⟩ ⟨b, hb⟩).lift name hname)

/-- A flow whose components know no other flow yet. -/
structure FlowCell.Unattached (cell : FlowCell) : Prop where
  source : ∀ named inflows, cell.pipeline.chain.source.body = .inflow named inflows → inflows = []
  calls : ∀ op ∈ cell.pipeline.chain.operators, ∀ mode target callee,
    op.body = .call mode target callee → callee = none
  tees : ∀ op ∈ cell.pipeline.chain.operators, ∀ sink, op.body = .tee sink →
    sink.body.Tied (fun _ => False) false
  sink : cell.pipeline.sink.body.Tied (fun _ => False) false
  holder : cell.holder = none

namespace World

variable {w start : World} {i j : FlowId}

/-- What a set of flows that is not set up says of the connections between them. -/
def plan (w : World) : Plan where
  directory := w.directory
  name f := ((w.flow? f).map (·.name)).getD ""
  names f target := ∃ cell, w.flow? f = some cell ∧ ∃ op ∈ cell.pipeline.chain.operators,
    ∃ mode callee, op.body = .call mode target callee
  reads f := ∃ cell, w.flow? f = some cell ∧ ∃ named inflows,
    cell.pipeline.chain.source.body = .inflow named inflows
  feeds f target := ∃ cell, w.flow? f = some cell ∧ cell.sinkDriven = true ∧
    cell.pipeline.sink.body.target? = some target

theorem tied_plan (hstrict : w.stoppable = false)
    (h : ∀ f cell, w.flow? f = some cell → cell.Unattached) : w.Tied w.plan := by
  refine ⟨rfl, hstrict, fun f cell hcell => ⟨?_, ⟨?_, ?_⟩, ?_⟩⟩
  · simp [plan, hcell]
  · cases hbody : cell.pipeline.chain.source.body with
    | inflow named inflows =>
        refine ⟨⟨cell, hcell, named, inflows, hbody⟩, ?_⟩
        rw [(h f cell hcell).source named inflows hbody]
        exact fun o ho => nomatch ho
    | _ => trivial
  · intro op hop
    cases hbody : op.body with
    | call mode target callee =>
        refine ⟨⟨cell, hcell, op, hop, mode, callee, hbody⟩, ?_⟩
        rw [(h f cell hcell).calls op hop mode target callee hbody]
        exact fun g hg => nomatch hg
    | tee sink => exact (h f cell hcell).tees op hop sink hbody
    | _ => trivial
  · have hsink := (h f cell hcell).sink
    cases hbody : cell.pipeline.sink.body with
    | flow target producer peer payload onDemand =>
        rw [hbody] at hsink
        rintro (hdemand | hdriven)
        · exact (hsink (.inl hdemand)).elim
        · exact ⟨cell, hcell, hdriven, by rw [hbody]; rfl⟩
    | _ => trivial

/-- Before a run nobody has a lock, whatever the threads are to do outside of chains. -/
theorem wellLocked_of_calls {P : Plan} {first : Activity} {calls : List Activity} (htied : w.Tied P)
    (hfree : ∀ f, w.holderOf f = none)
    (hcalls : ∀ a ∈ first :: calls, a.Tied P ∧ a.holds? = none ∧ ∀ f, a.layer ≠ .inside f) :
    WellLocked P (w.opened first calls) := by
  constructor
  · exact ⟨htied.directory, htied.strict, htied.cell⟩
  · intro t b hb
    obtain ⟨a, ha, rfl⟩ := mem_tasks_opened hb
    exact tied_quiet.mpr (hcalls a ha).1
  · intro t
    obtain hnone | ⟨a, ha, hone⟩ := tasks_opened w first calls t
    · rw [hnone]
      exact .nil
    · rw [hone]
      refine .cons ?_ .nil
      rw [Rests, layer_quiet]
      split
      · trivial
      · next f hlayer => exact absurd hlayer ((hcalls a ha).2.2 f)
      · exact .inl rfl
      · rfl
  · intro t f
    have hholder : (w.opened first calls).holderOf f = none := hfree f
    rw [hholder, if_neg (Option.some_ne_none t).symm]
    obtain hnone | ⟨a, ha, hone⟩ := tasks_opened w first calls t
    · rw [hnone]
      rfl
    · rw [hone]
      simp [(hcalls a ha).2.1]

/-- In a set that is not set up yet nobody has a lock, whoever is to stop its flows. -/
theorem wellLocked_opened {P : Plan} {calls : List Activity} (htied : w.Tied P)
    (hfree : ∀ f, w.holderOf f = none) (hcalls : ∀ a ∈ calls, a.stops = true) :
    WellLocked P (w.opened (.runAll .begin) calls) := by
  refine wellLocked_of_calls htied hfree fun a ha => ?_
  obtain rfl | hcall := List.mem_cons.mp ha
  · exact ⟨trivial, rfl, fun f => Layer.noConfusion⟩
  · have hstops := hcalls a hcall
    unfold Activity.stops at hstops
    split at hstops
    · exact ⟨trivial, rfl, fun f => Layer.noConfusion⟩
    · exact ⟨trivial, rfl, fun f => Layer.noConfusion⟩
    · cases hstops

theorem made_of_isOk {made : Except Error World} (h : made.toOption.isSome = true) :
    made = .ok (made.toOption.getD empty) := by
  cases made with
  | error e => cases h
  | ok w => rfl

end World

/-- Whom the directory of a set of flows knows under a name. -/
theorem peer_of_ofDrafts {fresh : Nat → String} {drafts : List FlowDraft} {scopes : Scope.Store}
    {root : ScopeId} {w : World} (hmade : World.ofDrafts fresh drafts scopes root = .ok w)
    {name : String} {peer : Peer} (hpeer : Fields.get? name w.directory = some peer) :
    ∃ cell, w.flow? peer.flow = some cell ∧ cell.name = name ∧ cell.callable = peer.callable := by
  obtain hnone | ⟨k, cell, hcell, hname, rfl⟩ := (assembled_of_ofDrafts hmade).known name peer hpeer
  · cases hnone
  · rw [Nat.zero_add]
    exact ⟨cell, hcell, hname, rfl⟩

section Document

variable {fresh : Nat → String} {d : Blueprint.Document} {vars : List (String × Value)} {w : World}
  {i j : FlowId} {f : Blueprint.Flow}

/-- A flow of a set as the document has it. -/
structure Described (fresh : Nat → String) (d : Blueprint.Document) (i : FlowId)
    (f : Blueprint.Flow) (p : FlowDraft) (cell : FlowCell) : Prop where
  flow : d.flows[i]? = some f
  draft : FlowDraft.ofFlow Catalog.registry f = .ok p
  cell : ∃ fed, cell = p.cell (draftName fresh i p) fed ∧
    (cell.callable = true → (p.chooseSource fed).kind = FlowDraft.injectedKind ∧
      p.chooseSink.kind = "none")

theorem described_of_ofDocument (h : World.ofDocument Catalog.registry fresh d vars = .ok w)
    {cell : FlowCell} (hcell : w.flow? i = some cell) : ∃ f p, Described fresh d i f p cell := by
  obtain ⟨_, scopes, drafts, _, _, hdrafts, hmade⟩ := ofDocument_eq_ok.mp h
  have hassembled := assembled_of_ofDrafts hmade
  have hflows := mapM_eq_ok.mp hdrafts
  obtain ⟨hi, rfl⟩ := List.getElem?_eq_some_iff.mp hcell
  have hdraft : i < drafts.length := hassembled.length ▸ hi
  have hflow : i < d.flows.length := hflows.length_eq ▸ hdraft
  have hmade := hassembled.made i drafts[i] w.flows[i] (List.getElem?_eq_getElem hdraft) hcell
  rw [Nat.zero_add] at hmade
  refine ⟨d.flows[i], drafts[i], List.getElem?_eq_getElem hflow, ?_, _,
    FlowDraft.assemble_eq_ok.mp hmade⟩
  exact hflows.get hflow hdraft

/-- A document says that a flow can be called by the kind of its monitor. -/
theorem callable_iff_of_ofFlow {p : FlowDraft} (h : FlowDraft.ofFlow Catalog.registry f = .ok p) :
    p.callable = true ↔ Lint.hasCallMonitor f = true := by
  have hmonitor := (FlowDraft.ofFlow_eq_ok.mp h).2.2.2.2
  obtain ⟨hnone, hdraft⟩ | ⟨part, m, hpart, hdraft, hmade⟩ := mapM_option_eq_ok.mp hmonitor
  · simp [FlowDraft.callable, Lint.hasCallMonitor, hnone, hdraft]
  · obtain ⟨_, ⟨hkind, hbody⟩ | ⟨hkind, hbody⟩⟩ := Catalog.monitor_of_build hmade
    · simp [FlowDraft.callable, Lint.hasCallMonitor, hpart, hdraft, hkind, hbody, MonitorBody.callable]
    · have hnot : m.body.callable = false := by
        cases hm : m.body <;> rw [hm] at hbody <;> first | rfl | cases hbody
      simp [FlowDraft.callable, Lint.hasCallMonitor, hpart, hdraft, hkind, hnot]

namespace Described

variable {p : FlowDraft} {cell : FlowCell}

theorem callable_iff (h : Described fresh d i f p cell) :
    p.callable = true ↔ Lint.hasCallMonitor f = true :=
  callable_iff_of_ofFlow h.draft

/-- A source that reads what feeds its flow knows nothing of it yet, and the flow cannot be called. -/
theorem source (h : Described fresh d i f p cell) {named : Bool} {inflows : List Outflow}
    (hbody : cell.pipeline.chain.source.body = .inflow named inflows) :
    inflows = [] ∧ f.readsInflows = true ∧ cell.callable = false := by
  obtain ⟨fed, rfl, hshape⟩ := h.cell
  change (p.chooseSource fed).body = .inflow named inflows at hbody
  have hsource := (FlowDraft.ofFlow_eq_ok.mp h.draft).2.1
  obtain ⟨hnone, hdraft⟩ | ⟨part, source, hpart, hdraft, hmade⟩ := mapM_option_eq_ok.mp hsource
  · have hplain : p.callable = false := by
      cases hcallable : p.callable with
      | false => rfl
      | true =>
          simp only [FlowDraft.chooseSource, hdraft, hcallable, if_true] at hbody
          cases hbody
    refine ⟨?_, ?_, (p.callable_cell _ _).trans hplain⟩
    · simp only [FlowDraft.chooseSource, hdraft, hplain] at hbody
      cases fed with
      | true =>
          cases hbody
          rfl
      | false => cases hbody
    · have hnot := mt h.callable_iff.mpr (by simp [hplain])
      simp [Blueprint.Flow.readsInflows, hnone, hnot]
  · simp only [FlowDraft.chooseSource, hdraft] at hbody
    obtain ⟨hkind, hsolitary | ⟨hinflow, hmade⟩⟩ := Catalog.source_of_build hmade
    · rw [hbody] at hsolitary
      cases hsolitary
    · rw [hmade] at hbody
      cases hbody
      refine ⟨rfl, by simp [Blueprint.Flow.readsInflows, hpart, hinflow], ?_⟩
      cases hcallable : (p.cell (draftName fresh i p) fed).callable with
      | false => rfl
      | true =>
          have hpush := (hshape hcallable).1
          simp only [FlowDraft.chooseSource, hdraft, hkind, hinflow] at hpush
          exact absurd hpush (by decide)

/-- An operator that calls a flow is not attached yet, and the document names the flow. -/
theorem calls (h : Described fresh d i f p cell) {op : Operator}
    (hop : op ∈ cell.pipeline.chain.operators) {mode : CallMode} {target : String}
    {callee : Option FlowId} (hbody : op.body = .call mode target callee) :
    callee = none ∧ target ∈ f.calledFlows := by
  obtain ⟨fed, rfl, _⟩ := h.cell
  rw [FlowDraft.operators_cell] at hop
  have hoperators := mapM_eq_ok.mp (FlowDraft.ofFlow_eq_ok.mp h.draft).2.2.1
  obtain ⟨n, hn, rfl⟩ := List.getElem_of_mem hop
  have hlink : n < f.operators.length := hoperators.length_eq ▸ hn
  obtain ⟨part, sink, _, _, htee⟩ | ⟨part, hpart, hmade⟩ :=
    Catalog.link_of_build (hoperators.get hlink hn)
  · rw [List.get_eq_getElem] at htee
    rw [htee] at hbody
    cases hbody
  · rw [List.get_eq_getElem] at hpart hmade
    obtain hsolitary | ⟨mode', target', htarget, hcall⟩ := Catalog.operator_of_build hmade
    · rw [hbody] at hsolitary
      cases hsolitary
    · rw [hcall] at hbody
      cases hbody
      refine ⟨rfl, List.mem_filterMap.mpr ⟨part, List.mem_filterMap.mpr ?_, htarget⟩⟩
      exact ⟨f.operators[n], List.getElem_mem hlink, by rw [hpart]; rfl⟩

theorem tied_of_build {part : Blueprint.Part} {sink : Sink}
    (h : Catalog.registry.buildSink part = .ok sink) :
    sink.body.Tied (fun _ => False) false := by
  obtain ⟨_, ⟨_, hsolitary⟩ | ⟨_, target, _, hbody⟩⟩ := Catalog.sink_of_build h
  · cases hsink : sink.body with
    | flow target producer peer payload onDemand =>
        rw [hsink] at hsolitary
        cases hsolitary
    | _ => trivial
  · rw [hbody]
    rintro (hdemand | hdriven) <;> contradiction

theorem tees (h : Described fresh d i f p cell) {op : Operator}
    (hop : op ∈ cell.pipeline.chain.operators) {sink : Sink} (hbody : op.body = .tee sink) :
    sink.body.Tied (fun _ => False) false := by
  obtain ⟨fed, rfl, _⟩ := h.cell
  rw [FlowDraft.operators_cell] at hop
  have hoperators := mapM_eq_ok.mp (FlowDraft.ofFlow_eq_ok.mp h.draft).2.2.1
  obtain ⟨n, hn, rfl⟩ := List.getElem_of_mem hop
  have hlink : n < f.operators.length := hoperators.length_eq ▸ hn
  obtain ⟨part, other, _, hmade, htee⟩ | ⟨part, _, hmade⟩ :=
    Catalog.link_of_build (hoperators.get hlink hn)
  · rw [List.get_eq_getElem, hbody] at htee
    cases htee
    exact tied_of_build hmade
  · rw [List.get_eq_getElem] at hmade
    obtain hsolitary | ⟨mode, target, _, hcall⟩ := Catalog.operator_of_build hmade
    · rw [hbody] at hsolitary
      cases hsink : sink.body with
      | flow target producer peer payload onDemand =>
          simp only [OperatorBody.solitary, hsink, SinkBody.solitary] at hsolitary
          cases hsolitary
      | _ => trivial
    · rw [hcall] at hbody
      cases hbody

/-- A sink that feeds a flow is not marked yet, and the document names the flow. -/
theorem sink (h : Described fresh d i f p cell) :
    cell.pipeline.sink.body.Tied (fun _ => False) false ∧ ∀ target, cell.sinkDriven = true →
      cell.pipeline.sink.body.target? = some target → f.demandedBy? = some target := by
  obtain ⟨fed, rfl, _⟩ := h.cell
  change p.chooseSink.body.Tied (fun _ => False) false ∧
    ∀ target, (p.chooseMonitor p.chooseSink).2 = true → p.chooseSink.body.target? = some target → _
  have hdraft := FlowDraft.ofFlow_eq_ok.mp h.draft
  obtain ⟨hnone, hsink⟩ | ⟨part, sink, hpart, hsink, hmade⟩ :=
    mapM_option_eq_ok.mp hdraft.2.2.2.1
  · have himplied : p.chooseSink.body = .none ∨ p.chooseSink.body = .print := by
      simp only [FlowDraft.chooseSink, hsink]
      split
      · exact .inl rfl
      · exact .inr rfl
    obtain hbody | hbody := himplied
    · rw [hbody]
      exact ⟨trivial, fun target _ htarget => nomatch htarget⟩
    · rw [hbody]
      exact ⟨trivial, fun target _ htarget => nomatch htarget⟩
  · simp only [FlowDraft.chooseSink, hsink]
    refine ⟨tied_of_build hmade, fun target hdriven htarget => ?_⟩
    have hmonitor : f.monitor = none := by
      obtain ⟨hnone, _⟩ | ⟨_, m, _, hm, _⟩ := mapM_option_eq_ok.mp hdraft.2.2.2.2
      · exact hnone
      · simp only [FlowDraft.chooseMonitor, hm] at hdriven
        cases hdriven
    obtain ⟨_, ⟨_, hsolitary⟩ | ⟨hkind, target', htarget', hbody⟩⟩ := Catalog.sink_of_build hmade
    · cases hother : sink.body with
      | flow target producer peer payload onDemand =>
          rw [hother] at hsolitary
          cases hsolitary
      | _ =>
          rw [hother] at htarget
          cases htarget
    · rw [hbody] at htarget
      cases htarget
      simp only [Blueprint.Flow.demandedBy?, hmonitor, hpart, if_pos hkind]
      exact htarget'

theorem unattached (h : Described fresh d i f p cell) : cell.Unattached where
  source _ _ hbody := (h.source hbody).1
  calls _ hop _ _ _ hbody := (h.calls hop hbody).1
  tees _ hop _ hbody := h.tees hop hbody
  sink := h.sink.1
  holder := by
    obtain ⟨fed, rfl, _⟩ := h.cell
    rfl

theorem name (h : Described fresh d i f p cell) : cell.name = f.name.getD (fresh i) := by
  obtain ⟨fed, rfl, _⟩ := h.cell
  change draftName fresh i p = _
  rw [draftName, (FlowDraft.ofFlow_eq_ok.mp h.draft).1]

theorem callable (h : Described fresh d i f p cell) : cell.callable = Lint.hasCallMonitor f := by
  have hiff := h.callable_iff
  obtain ⟨fed, rfl, _⟩ := h.cell
  rw [FlowDraft.callable_cell]
  exact Bool.eq_iff_iff.mpr hiff

end Described

section Made

variable (h : World.ofDocument Catalog.registry fresh d vars = .ok w)

include h

theorem accepted_of_ofDocument : Lint.Accepted Catalog.registry d := by
  obtain ⟨found, _, _, haccept, _⟩ := ofDocument_eq_ok.mp h
  exact Lint.accepted_of_accept haccept

theorem peer_of_directory {name : String} {peer : Peer}
    (hpeer : Fields.get? name w.directory = some peer) :
    ∃ cell, w.flow? peer.flow = some cell ∧ cell.name = name ∧ cell.callable = peer.callable := by
  obtain ⟨_, _, drafts, _, _, _, hmade⟩ := ofDocument_eq_ok.mp h
  exact peer_of_ofDrafts hmade hpeer

theorem position_of_cell {cell other : FlowCell} (hcell : w.flow? i = some cell)
    (hother : w.flow? j = some other) (hname : cell.name = other.name) : i = j := by
  obtain ⟨_, _, drafts, _, _, _, hmade⟩ := ofDocument_eq_ok.mp h
  have hi := ((assembled_of_ofDrafts hmade).entered i cell hcell).2
  have hj := ((assembled_of_ofDrafts hmade).entered j other hother).2
  rw [hname, hj] at hi
  have hsame := congrArg Peer.flow (Option.some.inj hi)
  simpa using hsame.symm

theorem cell_of_flow (hf : d.flows[i]? = some f) :
    ∃ p cell, w.flow? i = some cell ∧ Described fresh d i f p cell := by
  obtain ⟨_, _, drafts, _, _, hdrafts, hmade⟩ := ofDocument_eq_ok.mp h
  have hlength : w.flows.length = d.flows.length :=
    (assembled_of_ofDrafts hmade).length.trans (mapM_eq_ok.mp hdrafts).length_eq.symm
  have hi : i < w.flows.length := hlength ▸ (List.getElem?_eq_some_iff.mp hf).1
  have hcell : w.flow? i = some w.flows[i] := List.getElem?_eq_getElem hi
  obtain ⟨g, p, hdescribed⟩ := described_of_ofDocument h hcell
  have hsame := hdescribed.flow
  rw [hf] at hsame
  cases hsame
  exact ⟨p, _, hcell, hdescribed⟩

/-- The flow under a name that the document gives is the one that has it there. -/
theorem named_of_mem {p : FlowDraft} {cell : FlowCell} (hcell : w.flow? i = some cell)
    (hdescribed : Described fresh d i f p cell) (hname : cell.name ∈ Lint.flowNames d) :
    f.name = some cell.name := by
  obtain ⟨g, hg, hgname⟩ := Lint.mem_flowNames.mp hname
  obtain ⟨k, hk⟩ := List.getElem?_of_mem hg
  obtain ⟨_, other, hother, hdescribed'⟩ := cell_of_flow h hk
  have hsame : other.name = cell.name := by rw [hdescribed'.name, hgname, Option.getD_some]
  have hik := position_of_cell h hcell hother hsame.symm
  subst hik
  have hflow := hdescribed.flow
  rw [hk] at hflow
  cases hflow
  exact hgname

/-- What a call of a set says of its document. -/
theorem calls_of_plan (hcalls : w.plan.Calls i j) : ∃ f g a, d.flows[i]? = some f ∧
    d.flows[j]? = some g ∧ g.name = some a ∧ a ∈ f.calledFlows ∧ Lint.hasCallMonitor g = true := by
  obtain ⟨target, peer, ⟨cell, hcell, op, hop, mode, callee, hbody⟩, hpeer, hcallable, rfl⟩ := hcalls
  obtain ⟨other, hother, hname, hsame⟩ := peer_of_directory h hpeer
  obtain ⟨f, p, hdescribed⟩ := described_of_ofDocument h hcell
  obtain ⟨g, q, hdescribed'⟩ := described_of_ofDocument h hother
  have htarget := (hdescribed.calls hop hbody).2
  have hpresent := (accepted_of_ofDocument h).called_present
    (List.mem_of_getElem? hdescribed.flow) htarget
  refine ⟨f, g, target, hdescribed.flow, hdescribed'.flow, ?_, htarget, ?_⟩
  · rw [named_of_mem h hother hdescribed' (hname ▸ hpresent), hname]
  · rw [← hdescribed'.callable, hsame, hcallable]

/-- What a read on demand says of the document of a set. -/
theorem draws_of_plan (hdraws : w.plan.Draws i j) : ∃ f g a, d.flows[i]? = some f ∧
    d.flows[j]? = some g ∧ f.name = some a ∧ f.readsInflows = true ∧
      Lint.hasCallMonitor f = false ∧ g.demandedBy? = some a := by
  obtain ⟨⟨cell, hcell, named, inflows, hbody⟩, other, hother, hdriven, htarget⟩ := hdraws
  obtain ⟨f, p, hdescribed⟩ := described_of_ofDocument h hcell
  obtain ⟨g, q, hdescribed'⟩ := described_of_ofDocument h hother
  obtain ⟨_, hreads, hplain⟩ := hdescribed.source hbody
  have hname : w.plan.name i = cell.name := by simp [World.plan, hcell]
  rw [hname] at htarget
  have hdemanded := hdescribed'.sink.2 cell.name hdriven htarget
  refine ⟨f, g, cell.name, hdescribed.flow, hdescribed'.flow, ?_, hreads, ?_, hdemanded⟩
  · refine named_of_mem h hcell hdescribed ?_
    unfold Blueprint.Flow.demandedBy? at hdemanded
    split at hdemanded
    · next part _ hsink =>
      split at hdemanded
      · exact (accepted_of_ofDocument h).demander_present
          (List.mem_of_getElem? hdescribed'.flow) hsink hdemanded
      · cases hdemanded
    · cases hdemanded
  · rw [← hdescribed.callable, hplain]

end Made

/-- The name that a document gives to the flow at a position. -/
def nameAt (d : Blueprint.Document) (i : FlowId) : String :=
  ((d.flows[i]?).bind (·.name)).getD ""

theorem nameAt_eq {name : String} (hf : d.flows[i]? = some f) (hname : f.name = some name) :
    nameAt d i = name := by
  simp [nameAt, hf, hname]

/-- A flow that can be called reads no other one on demand. -/
theorem no_draws_of_called {name : String}
    (h : World.ofDocument Catalog.registry fresh d vars = .ok w) (hmeets : w.plan.Meets i name)
    (k : FlowId) : ¬ w.plan.Draws i k := by
  intro hdraws
  obtain ⟨peer, hpeer, hcallable, rfl⟩ := hmeets
  obtain ⟨cell, hcell, _, hsame⟩ := peer_of_directory h hpeer
  obtain ⟨f, p, hdescribed⟩ := described_of_ofDocument h hcell
  obtain ⟨f', _, _, hf', _, _, _, hplain, _⟩ := draws_of_plan h hdraws
  cases hdescribed.flow.symm.trans hf'
  rw [← hdescribed.callable, hsame, hcallable] at hplain
  cases hplain

/-- In a set whose document is accepted, flows do not call each other in a ring. -/
theorem no_call_ring_of_ofDocument (h : World.ofDocument Catalog.registry fresh d vars = .ok w)
    (i : FlowId) : ¬ TransGen w.plan.Calls i i := by
  have haccepted := accepted_of_ofDocument h
  refine no_ring_of_inner (nameAt d) ?_ haccepted.ringless i
  rintro i j ⟨hij, ⟨k, hki⟩, _⟩
  obtain ⟨f, g, b, hf, hg, hb, hcalled, _⟩ := calls_of_plan h hij
  obtain ⟨_, f', a, _, hf', ha, _, _⟩ := calls_of_plan h hki
  rw [hf] at hf'
  cases hf'
  rw [nameAt_eq hf ha, nameAt_eq hg hb, Lint.Calls, Lint.callsOf,
    Lint.byName_of_mem haccepted.distinct (List.mem_of_getElem? hf) ha]
  exact hcalled

theorem no_draws_of_calls (h : World.ofDocument Catalog.registry fresh d vars = .ok w)
    (i j k : FlowId) (hcalls : w.plan.Calls i j) : ¬ w.plan.Draws j k := by
  obtain ⟨target, peer, _, hmeets⟩ := hcalls
  exact no_draws_of_called h ⟨peer, hmeets⟩ k

/-- In a set whose document is accepted, reads lead in a ring only where flows feed each other in
one. -/
theorem no_ring_of_ofDocument (h : World.ofDocument Catalog.registry fresh d vars = .ok w)
    (hdraws : ∀ name, ¬ TransGen (Lint.Draws d) name name) (i : FlowId) :
    ¬ TransGen w.plan.Leads i i := by
  refine no_ring_of_parts (C := w.plan.Calls) (D := w.plan.Draws) (no_draws_of_calls h)
    (no_call_ring_of_ofDocument h) ?_ i
  refine no_ring_of_inner (nameAt d) ?_ hdraws
  rintro i j ⟨hij, _, ⟨k, hjk⟩⟩
  obtain ⟨f, g, a, hf, hg, ha, hreads, _, hdemanded⟩ := draws_of_plan h hij
  obtain ⟨g', _, b, hg', _, hb, _, _, _⟩ := draws_of_plan h hjk
  rw [hg] at hg'
  cases hg'
  rw [nameAt_eq hf ha, nameAt_eq hg hb]
  exact ⟨f, List.mem_of_getElem? hf, g, List.mem_of_getElem? hg, ha, hreads, hb, hdemanded⟩

/-- In a set whose document is accepted, reads do not lead from a flow that can be called back to
it. -/
theorem no_ring_of_called {name : String}
    (h : World.ofDocument Catalog.registry fresh d vars = .ok w) (hmeets : w.plan.Meets i name) :
    ¬ TransGen w.plan.Leads i i := fun hring =>
  no_call_ring_of_ofDocument h i
    (path_of_parts (no_draws_of_calls h) hring (no_draws_of_called h hmeets))

end Document

end Engine
end PullFlow
