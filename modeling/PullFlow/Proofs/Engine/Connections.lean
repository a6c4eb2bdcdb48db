import PullFlow.Proofs.Engine.Reorder
import PullFlow.Proofs.Homes
import PullFlow.Proofs.Hooks
import PullFlow.Proofs.Untouched

/-!
The connections of a set of flows. Which sinks feed which flow is known from the drafts, by the seats
of the sinks and the names that they feed. The source that a flow gets when it is assembled, the sink
that is marked as read on demand when it is attached, and what the flow is handed when it is wired
all agree with that.
-/

namespace PullFlow

/-- The sinks of a flow in order, the one at its end after those of its tees. -/
def Seat.Before : Seat → Seat → Prop
  | .tee i, .tee j => i < j
  | .tee _, .terminal => True
  | .terminal, _ => False

/-- Connections go by the names of the flows that they come from, and those of one flow by its sinks. -/
def Outflow.Precedes (o o' : Outflow) : Prop :=
  o.producer < o'.producer ∨ o.producer = o'.producer ∧ o.seat.Before o'.seat

/-- A connection as the flow of a name makes it, on demand now or as before. -/
def Outflow.from (producer : String) (driven : Bool) (o : Outflow) : Outflow :=
  { o with producer := producer, onDemand := o.onDemand || driven }

namespace SinkBody

variable {b : SinkBody} {flow : FlowId} {seat : Seat}

theorem outflow?_seat {o : Outflow} (h : b.outflow? flow seat = some o) :
    o.seat = seat ∧ o.flow = flow ∧ b.target? = some o.target := by
  cases b with
  | flow target producer peer payload onDemand =>
      cases h
      exact ⟨rfl, rfl, rfl⟩
  | _ => cases h

/-- A sink that is attached makes its connection in the name of its flow. -/
theorem outflow?_attach {ctx : Context} (hok : (Hooks.attach ctx b).result = .ok ()) :
    (Hooks.attach ctx b).body.outflow? flow seat =
      (b.outflow? flow seat).map (Outflow.from ctx.flow false) := by
  change (attach ctx b).result = _ at hok
  change (attach ctx b).body.outflow? flow seat = _
  cases b with
  | flow target producer peer payload onDemand =>
      simp only [attach] at hok ⊢
      split at hok
      · cases hok
      · next hother =>
        rw [if_neg hother]
        cases hpeer : ctx.peer target with
        | error e =>
            rw [hpeer] at hok
            cases hok
        | ok found => simp [outflow?, HookEnd.ofExcept, Except.map, Outflow.from]
  | _ => rfl

/-- A sink that is attached feeds a flow that is there. -/
theorem reaches_of_attach {ctx : Context} (hok : (Hooks.attach ctx b).result = .ok ())
    {target : String} (htarget : b.target? = some target) :
    ∃ peer, Fields.get? target ctx.directory = some peer := by
  change (attach ctx b).result = _ at hok
  cases b with
  | flow target' producer peer payload onDemand =>
      cases htarget
      simp only [attach] at hok
      split at hok
      · cases hok
      · simp only [Context.peer] at hok
        cases hfound : Fields.get? target ctx.directory with
        | none =>
            rw [hfound] at hok
            cases hok
        | some peer => exact ⟨peer, rfl⟩
  | _ => cases htarget

theorem outflow?_initialise (st : Scope.Store) (ctx : Context) (params : Params) (b : SinkBody) :
    (Hooks.initialise st ctx params b).body.outflow? flow seat = b.outflow? flow seat := by
  change (initialise ctx params b).body.outflow? flow seat = _
  cases b with
  | var name claimed scope =>
      simp only [initialise]
      cases params.text "name" <;> rfl
  | file path append =>
      simp only [initialise]
      cases params.text "path" with
      | error e => rfl
      | ok path => cases (params.text "mode").bind fileMode <;> rfl
  | _ => rfl

theorem outflow?_onDemand (b : SinkBody) : b.onDemand.outflow? flow seat =
    (b.outflow? flow seat).map fun o => { o with onDemand := true } := by
  cases b <;> rfl

end SinkBody

/-- The connection that an operator makes, if it is a tee. -/
def OperatorBody.outflow? (flow : FlowId) (seat : Seat) (b : OperatorBody) : Option Outflow :=
  b.tee?.bind (·.body.outflow? flow seat)

namespace Component

variable {β : Type} [Hooks β] {c : Component β}

/-- A component is attached by its hook. -/
theorem attach_of_setContext {ctx : Context} (hok : (c.setContext ctx).result = .ok ()) :
    (Hooks.attach ctx c.body).result = .ok () ∧
      (c.setContext ctx).body.body = (Hooks.attach ctx c.body).body := by
  obtain ⟨e, hfail⟩ | ⟨_, hafter⟩ := setContext_eq ctx c
  · rw [hfail] at hok
    cases hok
  · rw [hafter, after_result] at hok
    rw [hafter, after_body]
    exact ⟨hok, rfl⟩

theorem kind_setContext (ctx : Context) (c : Component β) :
    (c.setContext ctx).body.kind = c.kind := by
  obtain ⟨e, hfail⟩ | ⟨_, hafter⟩ := setContext_eq ctx c
  · rw [hfail]
    rfl
  · rw [hafter, after_kind]

theorem kind_setUp (st : Scope.Store) (c : Component β) : (c.setUp st).body.kind = c.kind := by
  obtain ⟨e, hfail⟩ | ⟨_, ctx, params, -, -, hafter⟩ := setUp_eq st c
  · rw [hfail]
    rfl
  · rw [hafter, after_kind]

end Component

namespace OperatorBody

variable {b : OperatorBody} {flow : FlowId} {seat : Seat}

theorem outflow?_of_plain (h : b.tee? = none) : b.outflow? flow seat = none := by
  rw [outflow?, h]
  rfl

theorem outflow?_attach {ctx : Context} (hok : (Hooks.attach ctx b).result = .ok ()) :
    (Hooks.attach ctx b).body.outflow? flow seat =
      (b.outflow? flow seat).map (Outflow.from ctx.flow false) := by
  cases b with
  | tee sink =>
      obtain ⟨hattach, hbody⟩ := Component.attach_of_setContext (c := sink) hok
      change (sink.setContext ctx).body.body.outflow? flow seat = _
      rw [hbody]
      exact SinkBody.outflow?_attach hattach
  | _ => exact outflow?_of_plain (tee?_attach rfl ctx)

theorem outflow?_initialise (st : Scope.Store) (ctx : Context) (params : Params)
    (b : OperatorBody) :
    (Hooks.initialise st ctx params b).body.outflow? flow seat = b.outflow? flow seat := by
  cases b with
  | tee sink =>
      exact Component.setUp_keeps
        (P := fun b => b.outflow? flow seat = sink.body.outflow? flow seat) rfl
        fun ctx params b hb => (SinkBody.outflow?_initialise st ctx params b).trans hb
  | _ => exact outflow?_of_plain (tee?_initialise rfl st params)

/-- The tee of an operator that is attached feeds a flow that is there. -/
theorem reaches_of_attach {ctx : Context} (hok : (Hooks.attach ctx b).result = .ok ())
    {sink : Sink} (htee : b.tee? = some sink) {target : String}
    (htarget : sink.body.target? = some target) :
    ∃ peer, Fields.get? target ctx.directory = some peer := by
  cases b with
  | tee sink' =>
      cases htee
      exact SinkBody.reaches_of_attach (Component.attach_of_setContext (c := sink) hok).1 htarget
  | _ => cases htee

end OperatorBody

namespace HookEnd

variable {β : Type} {f : β → HookEnd β}

/-- A list is moved item by item. -/
theorem each_eq_ok {items : List β} (hok : (each f items).result = .ok ()) :
    (∀ b ∈ items, (f b).result = .ok ()) ∧ (each f items).body = items.map fun b => (f b).body := by
  induction items with
  | nil => exact ⟨List.forall_mem_nil _, rfl⟩
  | cons item rest ih =>
      cases hitem : (f item).result with
      | error e =>
          rw [each_of_error rest hitem] at hok
          cases hok
      | ok u =>
          rw [each_of_ok rest hitem] at hok ⊢
          obtain ⟨hrest, hbodies⟩ := ih hok
          exact ⟨List.forall_mem_cons.mpr ⟨hitem, hrest⟩, congrArg (_ :: ·) hbodies⟩

theorem andThen_eq_ok {h : HookEnd β} (hok : (h.andThen f).result = .ok ()) :
    h.result = .ok () ∧ (f h.body).result = .ok () ∧ (h.andThen f).body = (f h.body).body := by
  unfold andThen at hok ⊢
  split at hok
  · next hfirst => exact ⟨hfirst, hok, rfl⟩
  · next hfirst => cases hfirst.symm.trans hok

end HookEnd

namespace Pipeline

variable {p : Pipeline} {flow : FlowId} {o : Outflow}

/-- The connection that the sink at a seat makes. -/
def outflowAt (flow : FlowId) (p : Pipeline) : Seat → Option Outflow
  | .terminal => p.sink.body.outflow? flow .terminal
  | .tee i => p.chain.operators[i]?.bind (·.body.outflow? flow (.tee i))

/-- A flow makes the connections of its seats. -/
theorem mem_outflows : o ∈ p.outflows flow ↔ ∃ seat, p.outflowAt flow seat = some o := by
  unfold outflows seatedTees
  simp only [List.mem_filterMap, List.mem_append, List.mem_singleton]
  constructor
  · rintro ⟨⟨seat, sink⟩, ⟨⟨op, i⟩, hop, htee⟩ | hlast, ho⟩
    · obtain ⟨_, htee, ⟨⟩⟩ := Option.map_eq_some_iff.mp htee
      refine ⟨.tee i, Option.bind_eq_some_iff.mpr ⟨op, List.mk_mem_zipIdx_iff_getElem?.mp hop, ?_⟩⟩
      exact Option.bind_eq_some_iff.mpr ⟨sink, htee, ho⟩
    · cases hlast
      exact ⟨.terminal, ho⟩
  · rintro ⟨i | _, ho⟩
    · obtain ⟨op, hop, ho⟩ := Option.bind_eq_some_iff.mp ho
      obtain ⟨sink, htee, ho⟩ := Option.bind_eq_some_iff.mp ho
      refine ⟨(.tee i, sink), .inl ⟨(op, i), List.mk_mem_zipIdx_iff_getElem?.mpr hop, ?_⟩, ho⟩
      rw [htee]
      rfl
    · exact ⟨(.terminal, p.sink), .inr rfl, ho⟩

/-- The connections of a flow are in the order of its sinks. -/
theorem pairwise_outflows (flow : FlowId) (p : Pipeline) :
    (p.outflows flow).Pairwise fun o o' => o.seat.Before o'.seat := by
  have hseated : (seatedTees p.chain ++ [(Seat.terminal, p.sink)]).Pairwise
      fun x x' => x.1.Before x'.1 := by
    refine List.pairwise_append.mpr ⟨?_, List.pairwise_singleton _ _, ?_⟩
    · refine List.pairwise_filterMap.mpr ?_
      have hplaces : p.chain.operators.zipIdx.Pairwise fun x x' => x.2 < x'.2 := by
        refine List.pairwise_iff_getElem.mpr fun i j hi hj hij => ?_
        simpa using hij
      refine hplaces.imp ?_
      rintro ⟨op, i⟩ ⟨op', j⟩ hij x hx x' hx'
      obtain ⟨_, _, rfl⟩ := Option.map_eq_some_iff.mp hx
      obtain ⟨_, _, rfl⟩ := Option.map_eq_some_iff.mp hx'
      exact hij
    · rintro x hx x' hx'
      obtain ⟨⟨op, i⟩, _, htee⟩ := List.mem_filterMap.mp hx
      obtain ⟨_, _, rfl⟩ := Option.map_eq_some_iff.mp htee
      rw [List.mem_singleton.mp hx']
      trivial
  refine List.pairwise_filterMap.mpr (hseated.imp ?_)
  rintro ⟨seat, sink⟩ ⟨seat', sink'⟩ hbefore o ho o' ho'
  rw [(SinkBody.outflow?_seat ho).1, (SinkBody.outflow?_seat ho').1]
  exact hbefore

section Parts

variable {source : Source → HookEnd Source} {operator : Operator → HookEnd Operator}
  {sink : Sink → HookEnd Sink}

/-- Moving source, operators and sink, one after the other, moves each of them. -/
theorem parts_eq_ok
    (hok : (((p.onSource source).andThen (onOperators (HookEnd.each operator))).andThen
      (onSink sink)).result = .ok ()) :
    (∀ op ∈ p.chain.operators, (operator op).result = .ok ()) ∧ (sink p.sink).result = .ok () ∧
    (((p.onSource source).andThen (onOperators (HookEnd.each operator))).andThen
      (onSink sink)).body.chain.operators = p.chain.operators.map (fun op => (operator op).body) ∧
    (((p.onSource source).andThen (onOperators (HookEnd.each operator))).andThen
      (onSink sink)).body.sink = (sink p.sink).body := by
  obtain ⟨hfirst, hlast, hbody⟩ := HookEnd.andThen_eq_ok hok
  obtain ⟨_, hmiddle, hmoved⟩ := HookEnd.andThen_eq_ok hfirst
  obtain ⟨hoperators, hbodies⟩ := HookEnd.each_eq_ok hmiddle
  rw [hbody]
  rw [hmoved] at hlast ⊢
  refine ⟨hoperators, hlast, ?_, rfl⟩
  change (Chain.withOperators _ _).operators = _
  rw [Holds.operators_withOperators]
  exact hbodies

/-- Moves that turn the connection of each part turn that of each seat. -/
theorem outflowAt_parts {turn : Outflow → Outflow}
    (hoperator : ∀ (op : Operator) seat, (operator op).result = .ok () →
      (operator op).body.body.outflow? flow seat = (op.body.outflow? flow seat).map turn)
    (hsink : ∀ (s : Sink) seat, (sink s).result = .ok () →
      (sink s).body.body.outflow? flow seat = (s.body.outflow? flow seat).map turn)
    (hok : (((p.onSource source).andThen (onOperators (HookEnd.each operator))).andThen
      (onSink sink)).result = .ok ()) (seat : Seat) :
    (((p.onSource source).andThen (onOperators (HookEnd.each operator))).andThen
      (onSink sink)).body.outflowAt flow seat = (p.outflowAt flow seat).map turn := by
  obtain ⟨hoperators, hlast, hmoved, hkept⟩ := parts_eq_ok hok
  cases seat with
  | terminal =>
      rw [outflowAt, outflowAt, hkept]
      exact hsink p.sink .terminal hlast
  | tee i =>
      rw [outflowAt, outflowAt, hmoved, List.getElem?_map, Option.bind_map, Option.map_bind]
      refine Option.bind_congr fun op hop => ?_
      exact hoperator op (.tee i) (hoperators op (List.mem_of_getElem? hop))

end Parts

theorem outflowAt_setContext {ctx : Context} (hok : (p.setContext ctx).result = .ok ())
    (seat : Seat) : (p.setContext ctx).body.outflowAt flow seat =
      (p.outflowAt flow seat).map (Outflow.from ctx.flow false) := by
  refine outflowAt_parts (fun op seat hok => ?_) (fun s seat hok => ?_) hok seat
  · obtain ⟨hattach, hbody⟩ := Component.attach_of_setContext hok
    rw [hbody]
    exact OperatorBody.outflow?_attach hattach
  · obtain ⟨hattach, hbody⟩ := Component.attach_of_setContext hok
    rw [hbody]
    exact SinkBody.outflow?_attach hattach

theorem outflowAt_setUp {st : Scope.Store} (hok : (p.setUp st).result = .ok ()) (seat : Seat) :
    (p.setUp st).body.outflowAt flow seat = p.outflowAt flow seat := by
  have hkept : (p.setUp st).body.outflowAt flow seat = (p.outflowAt flow seat).map fun o => o := by
    refine outflowAt_parts (fun op seat _ => ?_) (fun s seat _ => ?_) hok seat
    · refine Component.setUp_keeps (P := fun b => b.outflow? flow seat = _) (Option.map_id' ..).symm
        fun ctx params b hb => (OperatorBody.outflow?_initialise st ctx params b).trans hb
    · refine Component.setUp_keeps (P := fun b => b.outflow? flow seat = _) (Option.map_id' ..).symm
        fun ctx params b hb => (SinkBody.outflow?_initialise st ctx params b).trans hb
  exact hkept.trans (Option.map_id' ..)

theorem source_wire (p : Pipeline) (inflows : List Outflow) : (p.wire inflows).body.chain.source =
    { p.chain.source with body := (p.chain.source.body.wire inflows).body } := by
  unfold wire
  dsimp only
  split <;> rfl

end Pipeline

/-- Who takes inflows keeps those that it is handed. -/
theorem SourceBody.held_of_wire {b : SourceBody} {inflows held : List Outflow} {named : Bool}
    (h : (b.wire inflows).body = .inflow named held) : held = inflows := by
  cases b with
  | inflow named' before =>
      cases h
      rfl
  | recorder r =>
      simp only [wire] at h
      split at h <;> cases h
  | _ => cases h

theorem Outflow.Precedes.ne {o o' : Outflow} (h : o.Precedes o') : o ≠ o' := by
  rintro rfl
  obtain hless | ⟨_, hbefore⟩ := h
  · exact lt_irrefl _ hless
  · cases hseat : o.seat <;> rw [hseat] at hbefore
    · exact Nat.lt_irrefl _ hbefore
    · exact hbefore

namespace Engine.FlowCell

variable {cell : FlowCell} {flow : FlowId} {seat : Seat}

/-- A flow that is attached makes its connections in its name, the one at its end on demand if the
sink there chose the monitor. -/
theorem outflowAt_attach {ctx : Context} (hok : (cell.attach ctx).result = .ok ())
    (hparked : cell.parked.isSome) : (cell.attach ctx).body.pipeline.outflowAt flow seat =
      (cell.pipeline.outflowAt flow seat).map
        (Outflow.from ctx.flow (cell.sinkDriven && decide (seat = .terminal))) := by
  obtain ⟨hpipeline, hmonitor, hbody⟩ := HookEnd.andThen_eq_ok hok
  obtain ⟨m, hm⟩ := Option.isSome_iff_exists.mp hparked
  have hmoved : _ = (cell.pipeline.outflowAt flow seat).map _ :=
    Pipeline.outflowAt_setContext hpipeline seat
  rw [attach, hbody]
  simp only [World.attachMonitor, onPipeline, HookEnd.map, hm] at hmonitor ⊢
  rw [hmonitor]
  cases hdriven : cell.sinkDriven with
  | false => exact hmoved
  | true =>
      cases seat with
      | tee i => exact hmoved
      | terminal =>
          refine (SinkBody.outflow?_onDemand _).trans ?_
          refine (congrArg (Option.map _) hmoved).trans ?_
          rw [Option.map_map]
          refine congrArg (Option.map · _) (funext fun o => ?_)
          simp [Outflow.from]

theorem chain_attach {ctx : Context} (hok : (cell.attach ctx).result = .ok ()) :
    (cell.attach ctx).body.pipeline.chain = (cell.pipeline.setContext ctx).body.chain := by
  obtain ⟨_, _, hbody⟩ := HookEnd.andThen_eq_ok hok
  rw [attach, hbody]
  unfold World.attachMonitor
  split <;> rfl

theorem pipeline_setUp {st : Scope.Store} (hok : (cell.setUp st).result = .ok ()) :
    (cell.pipeline.setUp st).result = .ok () ∧
      (cell.setUp st).body.pipeline = (cell.pipeline.setUp st).body := by
  obtain ⟨hpipeline, _, hbody⟩ := HookEnd.andThen_eq_ok hok
  refine ⟨hpipeline, ?_⟩
  rw [setUp, hbody]
  unfold World.prepareMonitor
  split <;> rfl

end Engine.FlowCell

namespace FlowDraft

variable {p : FlowDraft} {name : String} {fed : Bool} {flow : FlowId} {seat : Seat}
  {target : String}

/-- The sink that a flow has at a seat, if it is given. -/
def sinkAt? (p : FlowDraft) : Seat → Option Sink
  | .terminal => p.sink
  | .tee i => p.operators[i]?.bind (·.body.tee?)

/-- The sink at a seat feeds the flow of a name. -/
def Feeds (p : FlowDraft) (seat : Seat) (target : String) : Prop :=
  (p.sinkAt? seat).bind (·.body.target?) = some target

/-- The connection to a flow that the sink at a seat feeds. It is on demand exactly if the sink is at
the end of a flow that is given no monitor. -/
def connection (p : FlowDraft) (name : String) (flow : FlowId) (seat : Seat) (target : String) :
    Outflow :=
  ⟨name, target, flow, seat, p.monitor.isNone && decide (seat = .terminal)⟩

/-- The targets of a flow are what its sinks feed. -/
theorem mem_targets : target ∈ p.targets ↔ ∃ seat, p.Feeds seat target := by
  simp only [targets, List.mem_filterMap, List.mem_append, Option.mem_toList]
  constructor
  · rintro ⟨sink, ⟨op, hop, htee⟩ | hsink, htarget⟩
    · obtain ⟨i, hi⟩ := List.getElem?_of_mem hop
      refine ⟨.tee i, Option.bind_eq_some_iff.mpr ⟨sink, ?_, htarget⟩⟩
      exact Option.bind_eq_some_iff.mpr ⟨op, hi, htee⟩
    · exact ⟨.terminal, Option.bind_eq_some_iff.mpr ⟨sink, hsink, htarget⟩⟩
  · rintro ⟨i | _, hfeeds⟩
    · obtain ⟨sink, hsink, htarget⟩ := Option.bind_eq_some_iff.mp hfeeds
      obtain ⟨op, hop, htee⟩ := Option.bind_eq_some_iff.mp hsink
      exact ⟨sink, .inl ⟨op, List.mem_of_getElem? hop, htee⟩, htarget⟩
    · obtain ⟨sink, hsink, htarget⟩ := Option.bind_eq_some_iff.mp hfeeds
      exact ⟨sink, .inr hsink, htarget⟩

theorem outflow?_of_untouched {b : SinkBody} (h : b.untouched = true) (driven : Bool) :
    (b.outflow? flow seat).map (Outflow.from name driven) =
      b.target?.map fun target => ⟨name, target, flow, seat, driven⟩ := by
  cases b with
  | flow target producer peer payload onDemand =>
      obtain rfl : onDemand = false := by simpa [SinkBody.untouched] using h
      simp [SinkBody.outflow?, SinkBody.target?, Outflow.from]
  | _ => rfl

/-- A sink that feeds a flow chooses the monitor unless there is one. -/
theorem sinkDriven_cell (hfeeds : p.Feeds .terminal target) :
    (p.cell name fed).sinkDriven = p.monitor.isNone := by
  obtain ⟨sink, hsink, htarget⟩ := Option.bind_eq_some_iff.mp hfeeds
  have hsink : p.sink = some sink := hsink
  unfold cell chooseMonitor
  cases p.monitor with
  | some m => rfl
  | none =>
      have hwants : sink.body.wantsDemand = true := by
        cases hbody : sink.body <;> rw [hbody] at htarget <;> first | rfl | cases htarget
      simp [chooseSink, hsink, hwants]

/-- A flow that is made of fresh parts makes the connections of its sinks. -/
theorem outflowAt_cell (h : p.untouched = true) (seat : Seat) :
    ((p.cell name fed).pipeline.outflowAt flow seat).map
        (Outflow.from name ((p.cell name fed).sinkDriven && decide (seat = .terminal))) =
      ((p.sinkAt? seat).bind (·.body.target?)).map (p.connection name flow seat) := by
  obtain ⟨_, hoperators, hsinks⟩ := untouched_iff.mp h
  cases seat with
  | terminal =>
      cases hsink : p.sink with
      | none =>
          have hnone : (p.cell name fed).pipeline.outflowAt flow .terminal = none := by
            change p.chooseSink.body.outflow? flow .terminal = none
            simp only [chooseSink, hsink]
            split <;> rfl
          rw [hnone, sinkAt?, hsink]
          rfl
      | some sink =>
          have hcell : (p.cell name fed).pipeline.sink = sink := by
            change p.chooseSink = sink
            simp only [chooseSink, hsink]
          rw [Pipeline.outflowAt, hcell, outflow?_of_untouched (hsinks sink hsink), sinkAt?, hsink,
            Option.bind_some]
          refine Option.map_congr fun target htarget => ?_
          rw [sinkDriven_cell (show p.Feeds .terminal target by rw [Feeds, sinkAt?, hsink]; exact htarget)]
          rfl
  | tee i =>
      rw [Pipeline.outflowAt, operators_cell, sinkAt?, Option.map_bind, Option.bind_assoc,
        Option.map_bind]
      refine Option.bind_congr fun op hop => ?_
      rw [Function.comp_apply, OperatorBody.outflow?, Option.map_bind, Function.comp_apply,
        Option.map_bind]
      refine Option.bind_congr fun sink hsink => ?_
      have hfresh : sink.body.untouched = true := by
        have hop := hoperators op (List.mem_of_getElem? hop)
        cases hbody : op.body <;> rw [hbody] at hop hsink <;> cases hsink
        exact hop
      refine (outflow?_of_untouched hfresh _).trans (Option.map_congr fun target _ => ?_)
      simp [connection]

end FlowDraft

namespace Engine

namespace World

/-! The order of what feeds a flow. -/

section Order

variable {cells : List FlowCell} {all : List Outflow}

theorem mem_outflowsFrom {o : Outflow} : o ∈ outflowsFrom 0 cells ↔
    ∃ (f : FlowId) (cell : FlowCell), cells[f]? = some cell ∧ o ∈ cell.pipeline.outflows f := by
  constructor
  · intro ho
    obtain ⟨⟨cell, f⟩, hmem, ho⟩ := List.mem_flatMap.mp ho
    exact ⟨f, cell, List.mk_mem_zipIdx_iff_getElem?.mp hmem, ho⟩
  · rintro ⟨f, cell, hcell, ho⟩
    exact List.mem_flatMap.mpr ⟨(cell, f), List.mk_mem_zipIdx_iff_getElem?.mpr hcell, ho⟩

theorem mem_inflowsOf_iff {name : String} {o : Outflow} :
    o ∈ inflowsOf name all ↔ o ∈ all ∧ o.target = name := by
  rw [inflowsOf, List.mem_mergeSort, List.mem_filter, beq_iff_eq]

/-- Flows of different names that are asked one after the other list the connections of each in the
order of its sinks. -/
theorem pairwise_outflowsFrom (hnodup : (cells.map (·.name)).Nodup)
    (hproducer : ∀ (f : FlowId) cell, cells[f]? = some cell →
      ∀ o ∈ cell.pipeline.outflows f, o.producer = cell.name) :
    (outflowsFrom 0 cells).Pairwise fun o o' => o.producer = o'.producer → o.seat.Before o'.seat := by
  refine List.pairwise_flatMap.mpr ⟨fun (cell, f) _ => ?_, ?_⟩
  · refine (Pipeline.pairwise_outflows f cell.pipeline).imp ?_
    intro o o' hbefore _
    exact hbefore
  · refine List.pairwise_iff_getElem.mpr fun i j hi hj hij o ho o' ho' hsame => ?_
    rw [List.length_zipIdx] at hi hj
    rw [List.getElem_zipIdx, Nat.zero_add] at ho ho'
    have hname : cells[i].name = cells[j].name :=
      (hproducer i _ (List.getElem?_eq_getElem hi) o ho).symm.trans
        (hsame.trans (hproducer j _ (List.getElem?_eq_getElem hj) o' ho'))
    have hplace : i = j := by
      refine (@List.Nodup.getElem_inj_iff _ _ hnodup i (by simpa) j (by simpa)).mp ?_
      simpa using hname
    exact absurd hplace (Nat.ne_of_lt hij)

/-- A sort by the producers leaves the connections of each flow in the order of its sinks. -/
theorem pairwise_inflowsOf
    (h : all.Pairwise fun o o' => o.producer = o'.producer → o.seat.Before o'.seat)
    (name : String) : (inflowsOf name all).Pairwise Outflow.Precedes := by
  refine List.pairwise_iff_forall_sublist.mpr fun {o o'} hsub => ?_
  have hsorted := List.pairwise_iff_forall_sublist.mp
    (List.pairwise_mergeSort keyed_trans keyed_total (all.filter (·.target == name))) hsub
  obtain hless | hsame := lt_or_eq_of_le (of_decide_eq_true hsorted)
  · exact .inl hless
  · -- A sort is stable, so the two stand in this order among the connections of their producer.
    have hkept := hsub.filter fun a => decide (a.producer = o'.producer)
    rw [inflowsOf, filter_mergeSort] at hkept
    have hboth : [o, o'].filter (fun a => decide (a.producer = o'.producer)) = [o, o'] := by
      simp [hsame]
    rw [hboth] at hkept
    have hbefore := List.pairwise_iff_forall_sublist.mp h
      ((hkept.trans List.filter_sublist).trans List.filter_sublist)
    exact .inr ⟨hsame, hbefore hsame⟩

end Order

end World

section Drafts

variable {fresh : Nat → String} {drafts : List FlowDraft} {scopes : Scope.Store} {root : ScopeId}
  {start w : World} {st : Scope.Store} {cells : List FlowCell} {i : FlowId} {p : FlowDraft}

namespace World

/-- The flow that a draft became. -/
theorem flow_of_draft (hmade : ofDrafts fresh drafts scopes root = .ok start)
    (hp : drafts[i]? = some p) : start.flows[i]? = some (p.cell (draftName fresh i p)
      (p.name.any (drafts.flatMap FlowDraft.targets).contains)) := by
  rw [flows_of_ofDrafts hmade, List.getElem?_map, getElem?_entitled, hp]
  rfl

theorem draft_of_flow (hmade : ofDrafts fresh drafts scopes root = .ok start) {cell : FlowCell}
    (hcell : start.flows[i]? = some cell) : ∃ p, drafts[i]? = some p ∧
      cell = p.cell (draftName fresh i p) (p.name.any (drafts.flatMap FlowDraft.targets).contains) := by
  rw [flows_of_ofDrafts hmade, List.getElem?_map, getElem?_entitled, Option.map_map] at hcell
  obtain ⟨p, hp, rfl⟩ := Option.map_eq_some_iff.mp hcell
  exact ⟨p, hp, rfl⟩

/-- Once the parts of a flow have taken their arguments, its connections are those of its draft. -/
theorem outflowAt_prepared (hmade : ofDrafts fresh drafts scopes root = .ok start)
    (hsetUp : start.setUp = .ok (st, cells)) (hp : drafts[i]? = some p) (huntouched : p.untouched = true)
    {c : FlowCell} (hc : (start.preparedFlows st)[i]? = some c) (seat : Seat) :
    c.pipeline.outflowAt i seat =
      ((p.sinkAt? seat).bind (·.body.target?)).map (p.connection (draftName fresh i p) i seat) := by
  obtain ⟨cell, hcell, rfl⟩ := flow_of_prepared hc
  obtain ⟨_, hparts, _⟩ := setUp_eq_ok.mp hsetUp
  obtain ⟨hattach, hprepare⟩ := hparts i cell hcell
  obtain ⟨hpipeline, hbody⟩ := FlowCell.pipeline_setUp hprepare
  obtain rfl := Option.some.inj (hcell.symm.trans (flow_of_draft hmade hp))
  change ((housed start.directory _ _).setUp st).body.pipeline.outflowAt i seat = _
  rw [hbody, Pipeline.outflowAt_setUp hpipeline]
  exact (FlowCell.outflowAt_attach hattach rfl).trans (FlowDraft.outflowAt_cell huntouched seat)

section Outflows

variable (hmade : ofDrafts fresh drafts scopes root = .ok start)
  (huntouched : ∀ p ∈ drafts, p.untouched = true) (hsetUp : start.setUp = .ok (st, cells))

include hmade huntouched hsetUp

theorem mem_outflows_prepared {c : FlowCell} (hp : drafts[i]? = some p)
    (hc : (start.preparedFlows st)[i]? = some c) {o : Outflow} :
    o ∈ c.pipeline.outflows i ↔ ∃ seat target, p.Feeds seat target ∧
      o = p.connection (draftName fresh i p) i seat target := by
  rw [Pipeline.mem_outflows]
  refine exists_congr fun seat => ?_
  rw [outflowAt_prepared hmade hsetUp hp (huntouched p (List.mem_of_getElem? hp)) hc seat,
    Option.map_eq_some_iff]
  exact exists_congr fun target => and_congr_right fun _ => eq_comm

/-- The connections that a set-up gathers are those of the sinks that feed a flow. -/
theorem mem_gathered {o : Outflow} : o ∈ outflowsFrom 0 (start.preparedFlows st) ↔
    ∃ (j : FlowId) (q : FlowDraft) (seat : Seat) (target : String), drafts[j]? = some q ∧
      q.Feeds seat target ∧ o = q.connection (draftName fresh j q) j seat target := by
  rw [mem_outflowsFrom]
  refine exists_congr fun j => ⟨?_, ?_⟩
  · rintro ⟨c, hc, ho⟩
    obtain ⟨cell, hcell, _⟩ := flow_of_prepared hc
    obtain ⟨q, hq, _⟩ := draft_of_flow hmade hcell
    obtain ⟨seat, target, hfeeds, rfl⟩ := (mem_outflows_prepared hmade huntouched hsetUp hq hc).mp ho
    exact ⟨q, seat, target, hq, hfeeds, rfl⟩
  · rintro ⟨q, seat, target, hq, hfeeds, rfl⟩
    have hc := @prepared_of_flow _ st _ _ (flow_of_draft hmade hq)
    exact ⟨_, hc, (mem_outflows_prepared hmade huntouched hsetUp hq hc).mpr
      ⟨seat, target, hfeeds, rfl⟩⟩

theorem pairwise_gathered : (outflowsFrom 0 (start.preparedFlows st)).Pairwise
    fun o o' => o.producer = o'.producer → o.seat.Before o'.seat := by
  refine pairwise_outflowsFrom ?_ fun j c hc o ho => ?_
  · rw [names_preparedFlows]
    exact (assembled_of_ofDrafts hmade).nodup
  · obtain ⟨cell, hcell, rfl⟩ := flow_of_prepared hc
    obtain ⟨q, hq, rfl⟩ := draft_of_flow hmade hcell
    obtain ⟨seat, target, _, rfl⟩ := (mem_outflows_prepared hmade huntouched hsetUp hq hc).mp ho
    exact (name_prepared st start.directory (q.cell ..) _).symm

end Outflows

/-- A sink of a flow that is set up feeds a flow of the set. -/
theorem exists_fed (hmade : ofDrafts fresh drafts scopes root = .ok start)
    (hsetUp : start.setUp = .ok (st, cells)) (hp : drafts[i]? = some p) {seat : Seat}
    {target : String} (hfeeds : p.Feeds seat target) :
    ∃ k q, drafts[k]? = some q ∧ draftName fresh k q = target := by
  obtain ⟨_, hparts, _⟩ := setUp_eq_ok.mp hsetUp
  obtain ⟨hattach, _⟩ := hparts i _ (flow_of_draft hmade hp)
  obtain ⟨hpipeline, _, _⟩ := HookEnd.andThen_eq_ok hattach
  obtain ⟨hoperators, hsink, _⟩ := Pipeline.parts_eq_ok hpipeline
  obtain ⟨sink, hseat, htarget⟩ := Option.bind_eq_some_iff.mp hfeeds
  obtain ⟨peer, hpeer⟩ : ∃ peer, Fields.get? target start.directory = some peer := by
    cases seat with
    | terminal =>
        have hseat : p.sink = some sink := hseat
        have hsame : p.chooseSink = sink := by simp only [FlowDraft.chooseSink, hseat]
        refine SinkBody.reaches_of_attach (Component.attach_of_setContext hsink).1 ?_
        exact (congrArg (fun s : Sink => s.body.target?) hsame).trans htarget
    | tee n =>
        obtain ⟨op, hop, htee⟩ := Option.bind_eq_some_iff.mp hseat
        have hmem : op ∈ (p.cell (draftName fresh i p) (p.name.any
            (drafts.flatMap FlowDraft.targets).contains)).pipeline.chain.operators := by
          rw [FlowDraft.operators_cell]
          exact List.mem_of_getElem? hop
        exact OperatorBody.reaches_of_attach
          (Component.attach_of_setContext (hoperators op hmem)).1 htee htarget
  obtain ⟨cell, hcell, hname, _⟩ := peer_of_ofDrafts hmade hpeer
  obtain ⟨q, hq, rfl⟩ := draft_of_flow hmade hcell
  exact ⟨_, q, hq, hname⟩

end World

/-- Drafts of one name are at one place. -/
theorem eq_of_draftName (hmade : World.ofDrafts fresh drafts scopes root = .ok start) {j : FlowId}
    {q : FlowDraft} (hp : drafts[i]? = some p) (hq : drafts[j]? = some q)
    (hname : draftName fresh i p = draftName fresh j q) : i = j := by
  have hassembled := assembled_of_ofDrafts hmade
  have hpeer := (hassembled.entered i _ (World.flow_of_draft hmade hp)).2
  have hpeer' := (hassembled.entered j _ (World.flow_of_draft hmade hq)).2
  change Fields.get? (draftName fresh i p) _ = _ at hpeer
  change Fields.get? (draftName fresh j q) _ = _ at hpeer'
  rw [hname, hpeer', Nat.zero_add, Nat.zero_add] at hpeer
  exact (congrArg Peer.flow (Option.some.inj hpeer)).symm

namespace World

/-- The kind of the source of a flow that is set up is the one it was assembled with. -/
theorem sourceKind_prepared (hmade : ofDrafts fresh drafts scopes root = .ok start)
    (hsetUp : start.setUp = .ok (st, cells)) (hp : drafts[i]? = some p) {c : FlowCell}
    (hc : (start.preparedFlows st)[i]? = some c) : c.pipeline.chain.source.kind =
      (p.chooseSource (p.name.any (drafts.flatMap FlowDraft.targets).contains)).kind := by
  obtain ⟨cell, hcell, rfl⟩ := flow_of_prepared hc
  obtain ⟨_, hparts, _⟩ := setUp_eq_ok.mp hsetUp
  obtain ⟨hattach, hprepare⟩ := hparts i cell hcell
  obtain ⟨_, hbody⟩ := FlowCell.pipeline_setUp hprepare
  obtain rfl := Option.some.inj (hcell.symm.trans (flow_of_draft hmade hp))
  change ((housed start.directory _ _).setUp st).body.pipeline.chain.source.kind = _
  rw [hbody, Pipeline.source_setUp, Component.kind_setUp]
  change (FlowCell.attach _ _).body.pipeline.chain.source.kind = _
  rw [FlowCell.chain_attach hattach, Pipeline.source_setContext, Component.kind_setContext]
  rfl

end World

/-- A flow that leaves its source open takes inflows exactly if peers feed it. -/
theorem inflow_iff_fed {fed : Bool} (hsource : p.source = none) (hcallable : p.callable = false) :
    (p.chooseSource fed).kind = "inflow" ↔ fed = true := by
  simp only [FlowDraft.chooseSource, hsource, hcallable]
  cases fed <;> decide

/-- What a flow is handed when it is set up: the connections of all sinks that feed it and of no
others, each of them once, by the names of their flows and then by the places of the sinks. If it
takes inflows these are what it takes, and it does so without being asked to exactly if there are
any. -/
structure Fed (fresh : Nat → String) (drafts : List FlowDraft) (start w : World) (i : FlowId)
    (p : FlowDraft) (inflows : List Outflow) : Prop where
  handed : ∀ l, start.Receives i l ↔ l = inflows
  exact : ∀ o, o ∈ inflows ↔ ∃ (j : FlowId) (q : FlowDraft) (seat : Seat),
    drafts[j]? = some q ∧ q.Feeds seat (draftName fresh i p) ∧
      o = q.connection (draftName fresh j q) j seat (draftName fresh i p)
  once : inflows.Nodup
  ordered : inflows.Pairwise Outflow.Precedes
  source : ∃ cell, w.flow? i = some cell ∧
    (∀ named held, cell.pipeline.chain.source.body = .inflow named held → held = inflows) ∧
    (p.name.isSome → p.source = none → p.callable = false →
      (cell.pipeline.chain.source.kind = "inflow" ↔ inflows ≠ []))

namespace World

/-- A set-up that succeeds connects each sink that feeds a flow to the one flow of that name, and
hands each flow what feeds it. -/
theorem setUp_connects (hbased : Based root scopes) (huntouched : ∀ p ∈ drafts, p.untouched = true)
    (h : SetUpFrom fresh drafts scopes root start w) :
    (∀ i p, drafts[i]? = some p → ∃ inflows, Fed fresh drafts start w i p inflows) ∧
    ∀ (j : FlowId) (q : FlowDraft) (seat : Seat) (target : String), drafts[j]? = some q →
      q.Feeds seat target → ∃! i : FlowId, ∃ inflows, start.Receives i inflows ∧
        ∃ o ∈ inflows, o.flow = j ∧ o.seat = seat := by
  obtain ⟨hmade, hends⟩ := h
  have hidle := idle_of_ofDrafts hmade hbased
  obtain ⟨_, _, hsetUp⟩ := hidle.setsUp_iff.mp hends
  obtain ⟨_, _, _, hcells⟩ := setUp_eq_ok.mp hsetUp
  have hmem {i : FlowId} {p : FlowDraft} {o : Outflow} :
      o ∈ inflowsOf (draftName fresh i p) (outflowsFrom 0 (start.preparedFlows w.scopes)) ↔
        ∃ (j : FlowId) (q : FlowDraft) (seat : Seat), drafts[j]? = some q ∧
          q.Feeds seat (draftName fresh i p) ∧
            o = q.connection (draftName fresh j q) j seat (draftName fresh i p) := by
    rw [mem_inflowsOf_iff, mem_gathered hmade huntouched hsetUp]
    constructor
    · rintro ⟨⟨j, q, seat, target, hq, hfeeds, rfl⟩, htarget⟩
      obtain rfl : target = draftName fresh i p := htarget
      exact ⟨j, q, seat, hq, hfeeds, rfl⟩
    · rintro ⟨j, q, seat, hq, hfeeds, rfl⟩
      exact ⟨⟨j, q, seat, _, hq, hfeeds, rfl⟩, rfl⟩
  have hreceives {i : FlowId} {p : FlowDraft} (hp : drafts[i]? = some p) (l : List Outflow) :
      start.Receives i l ↔ l =
        inflowsOf (draftName fresh i p) (outflowsFrom 0 (start.preparedFlows w.scopes)) := by
    rw [hidle.receives_iff hsetUp, flow_of_draft hmade hp]
    simp only [Option.some.injEq, exists_eq_left']
    rfl
  refine ⟨fun i p hp => ⟨_, hreceives hp, fun o => hmem, ?_, ?_, ?_⟩, ?_⟩
  · exact (pairwise_inflowsOf (pairwise_gathered hmade huntouched hsetUp) _).imp Outflow.Precedes.ne
  · exact pairwise_inflowsOf (pairwise_gathered hmade huntouched hsetUp) _
  · have hprepared := @prepared_of_flow _ w.scopes _ _ (flow_of_draft hmade hp)
    refine ⟨_, by rw [flow?, hcells, List.getElem?_map, hprepared]; rfl, ?_, ?_⟩
    · intro named held hheld
      rw [FlowCell.wired, Pipeline.source_wire, name_prepared] at hheld
      exact SourceBody.held_of_wire hheld
    · intro hnamed hsource hcallable
      obtain ⟨name, hname⟩ := Option.isSome_iff_exists.mp hnamed
      have hdraft : draftName fresh i p = name := by rw [draftName, hname]; rfl
      rw [FlowCell.wired, Pipeline.source_wire]
      dsimp only
      rw [sourceKind_prepared hmade hsetUp hp hprepared, inflow_iff_fed hsource hcallable, hname,
        Option.any_some, List.contains_iff_mem, List.mem_flatMap]
      constructor
      · rintro ⟨q, hq, htarget⟩
        obtain ⟨j, hj⟩ := List.getElem?_of_mem hq
        obtain ⟨seat, hfeeds⟩ := FlowDraft.mem_targets.mp htarget
        rw [← hdraft] at hfeeds
        exact List.ne_nil_of_mem (hmem.mpr ⟨j, q, seat, hj, hfeeds, rfl⟩)
      · intro hsome
        obtain ⟨o, ho⟩ := List.exists_mem_of_ne_nil _ hsome
        obtain ⟨j, q, seat, hj, hfeeds, _⟩ := hmem.mp ho
        rw [hdraft] at hfeeds
        exact ⟨q, List.mem_of_getElem? hj, FlowDraft.mem_targets.mpr ⟨seat, hfeeds⟩⟩
  · intro j q seat target hq hfeeds
    obtain ⟨i, p, hp, rfl⟩ := exists_fed hmade hsetUp hq hfeeds
    refine ⟨i, ⟨_, (hreceives hp _).mpr rfl, _, hmem.mpr ⟨j, q, seat, hq, hfeeds, rfl⟩, rfl, rfl⟩, ?_⟩
    rintro k ⟨l, hl, o, ho, rfl, rfl⟩
    obtain ⟨cell, hcell, _⟩ := (hidle.receives_iff hsetUp).mp hl
    obtain ⟨p', hp', _⟩ := draft_of_flow hmade hcell
    rw [(hreceives hp' l).mp hl] at ho
    obtain ⟨j', q', seat', hq', hfeeds', rfl⟩ := hmem.mp ho
    obtain rfl : q' = q := Option.some.inj (hq'.symm.trans hq)
    exact eq_of_draftName hmade hp' hp (Option.some.inj (hfeeds'.symm.trans hfeeds))

theorem feeders_connected : ∃ start w,
    SetUpFrom (fun _ => "") feeders Scope.Store.empty.addRoot.1 0 start w ∧
    (∃ inflows, Fed (fun _ => "") feeders start w 2 (bareDraft "c") inflows ∧ inflows ≠ []) ∧
    ∃! i : FlowId, ∃ inflows, start.Receives i inflows ∧
      ∃ o ∈ inflows, o.flow = 1 ∧ o.seat = .terminal := by
  obtain ⟨start, w, hset⟩ := (setUpFrom_iff based_addRoot).mpr
    (show (readied (fun _ => "") feeders _ 0).toOption.isSome = true by decide +kernel)
  obtain ⟨hfed, hreaches⟩ := setUp_connects based_addRoot (by decide) hset
  obtain ⟨inflows, hinflows⟩ := hfed 2 (bareDraft "c") rfl
  refine ⟨start, w, hset, ⟨inflows, hinflows, ?_⟩, hreaches 1 _ .terminal "c" rfl rfl⟩
  have hmem := (hinflows.exact _).mpr ⟨0, _, .terminal, rfl, rfl, rfl⟩
  exact List.ne_nil_of_mem hmem

end World

end Drafts

end Engine
end PullFlow
