import PullFlow.Proofs.Assembly
import PullFlow.Proofs.Catalog
import PullFlow.Proofs.Variables

/-!
Components that nothing has been done to since they were made: they know no other flow and have
claimed no variable. All that a document describes are such, and until a flow is started nothing
is claimed: attaching, setting up and wiring tell a sink what it writes, but write nothing.
-/

namespace PullFlow

def SourceBody.untouched : SourceBody → Bool
  | inflow _ inflows => inflows.isEmpty
  | _ => true

def SinkBody.untouched : SinkBody → Bool
  | flow _ _ _ _ onDemand => !onDemand
  | var _ claimed _ => !claimed
  | _ => true

def OperatorBody.untouched : OperatorBody → Bool
  | call _ _ callee => callee.isNone
  | tee sink => sink.body.untouched
  | _ => true

/-- Whether nothing has been done to the parts of a flow since they were made. -/
def FlowDraft.untouched (p : FlowDraft) : Bool :=
  p.source.all (·.body.untouched) && p.operators.all (·.body.untouched) &&
    p.sink.all (·.body.untouched)

/-- A sink that has claimed no variable. -/
def SinkBody.Unclaimed (b : SinkBody) : Prop := ∀ k, b.knows? = some k → k.claimed = false

/-- An operator whose sink, if it is a tee, has claimed no variable. -/
def OperatorBody.Unclaimed (b : OperatorBody) : Prop := ∀ k, b.knows? = some k → k.claimed = false

namespace SinkBody

variable {b : SinkBody}

theorem unclaimed_of_untouched (h : b.untouched = true) : b.Unclaimed := by
  intro k hk
  cases b with
  | var name claimed scope =>
      cases hk
      simpa [untouched] using h
  | _ => cases hk

theorem unclaimed_attach (ctx : Context) (b : SinkBody) (h : b.Unclaimed) :
    (Hooks.attach ctx b).body.Unclaimed := by
  change (attach ctx b).body.Unclaimed
  cases b with
  | flow target producer peer payload onDemand =>
      simp only [attach]
      split
      · exact h
      · cases ctx.peer target <;> exact fun k hk => nomatch hk
  | recorder r => exact fun k hk => nomatch hk
  | _ => exact h

theorem unclaimed_initialise (st : Scope.Store) (ctx : Context) (params : Params) (b : SinkBody)
    (h : b.Unclaimed) : (Hooks.initialise st ctx params b).body.Unclaimed := by
  change (initialise ctx params b).body.Unclaimed
  cases b with
  | var name claimed scope =>
      have hclaimed : claimed = false := h ⟨name, claimed, scope⟩ rfl
      simp only [initialise]
      cases params.text "name" with
      | error e => exact h
      | ok name' =>
          rintro k ⟨⟩
          exact hclaimed
  | file path append =>
      simp only [initialise]
      cases params.text "path" with
      | error e => exact h
      | ok path => cases (params.text "mode").bind fileMode <;> exact fun k hk => nomatch hk
  | recorder r => exact fun k hk => nomatch hk
  | picky rejected => exact fun k hk => nomatch hk
  | _ => exact h

theorem unclaimed_onDemand (h : b.Unclaimed) : b.onDemand.Unclaimed := by
  cases b with
  | flow target producer peer payload onDemand => exact fun k hk => nomatch hk
  | _ => exact h

end SinkBody

namespace OperatorBody

variable {b : OperatorBody}

theorem unclaimed_of_untouched (h : b.untouched = true) : b.Unclaimed := by
  cases b with
  | tee sink => exact SinkBody.unclaimed_of_untouched h
  | _ => exact fun k hk => nomatch hk

theorem unclaimed_of_no_tee (h : b.tee? = none) : b.Unclaimed := by
  intro k hk
  rw [knows?, h] at hk
  cases hk

theorem unclaimed_attach (ctx : Context) (b : OperatorBody) (h : b.Unclaimed) :
    (Hooks.attach ctx b).body.Unclaimed := by
  change (attach ctx b).body.Unclaimed
  cases b with
  | tee sink =>
      exact Component.setContext_keeps (P := SinkBody.Unclaimed) h (SinkBody.unclaimed_attach ctx)
  | call mode target callee =>
      refine unclaimed_of_no_tee ?_
      simp only [attach]
      split
      · rfl
      · simp only [Context.peer]
        cases Fields.get? target ctx.directory with
        | none => rfl
        | some peer =>
            simp only [bind, Except.bind]
            cases peer.callable <;> rfl
  | _ => exact unclaimed_of_no_tee rfl

theorem unclaimed_initialise (st : Scope.Store) (ctx : Context) (params : Params)
    (b : OperatorBody) (h : b.Unclaimed) :
    (Hooks.initialise st ctx params b).body.Unclaimed := by
  change (initialise st params b).body.Unclaimed
  cases b with
  | tee sink =>
      exact Component.setUp_keeps (P := SinkBody.Unclaimed) h (SinkBody.unclaimed_initialise st)
  | apply f =>
      refine unclaimed_of_no_tee ?_
      simp only [initialise]
      cases initialisePure params f <;> rfl
  | cached delay last =>
      refine unclaimed_of_no_tee ?_
      simp only [initialise]
      cases params.duration "delay" <;> rfl
  | smooth s =>
      refine unclaimed_of_no_tee ?_
      simp only [initialise]
      cases params.duration "delay" with
      | error e => rfl
      | ok delay =>
          cases params.duration? "delay_true" with
          | error e => rfl
          | ok delayTrue => cases params.duration? "delay_false" <;> rfl
  | _ => exact unclaimed_of_no_tee rfl

end OperatorBody

namespace Pipeline

/-- Nobody reads the chain, and no sink has claimed a variable. -/
structure Blank (p : Pipeline) : Prop where
  waiting : p.chain.waiting = []
  unclaimed : ∀ seat k, p.knows? seat = some k → k.claimed = false

variable {p p' : Pipeline}

theorem unclaimed_iff : (∀ seat k, p.knows? seat = some k → k.claimed = false) ↔
    p.Holds (fun _ => True) OperatorBody.Unclaimed SinkBody.Unclaimed := by
  constructor
  · refine fun h => ⟨⟨trivial, fun op hop k hk => ?_⟩, h .terminal⟩
    obtain ⟨i, hi⟩ := List.getElem?_of_mem hop
    exact h (.tee i) k (by simp [Pipeline.knows?, Chain.knows?, hi, hk])
  · intro h seat k hk
    cases seat with
    | terminal => exact h.sink k hk
    | tee i =>
        obtain ⟨op, hop, hk⟩ := Option.bind_eq_some_iff.mp hk
        exact h.chain.operators op (List.mem_of_getElem? hop) k hk

namespace Blank

theorem upkept (h : p.Blank) (hkept : p.Upkept p') : p'.Blank := by
  refine ⟨?_, fun seat k hk => h.unclaimed seat k (hkept.known seat ▸ hk)⟩
  obtain hsame | hnone := hkept.waiting
  · exact hsame.trans h.waiting
  · exact hnone

/-- A move of source, operators and sink leaves no operator waiting. -/
theorem waiting_andThen {source : Source → HookEnd Source}
    {operators : List Operator → HookEnd (List Operator)} {sink : Sink → HookEnd Sink}
    (h : p.chain.waiting = []) :
    (((p.onSource source).andThen (onOperators operators)).andThen (onSink sink)).body.chain.waiting
      = [] := by
  refine HookEnd.andThen_keeps (P := fun p : Pipeline => p.chain.waiting = []) ?_ fun _ => id
  exact HookEnd.andThen_keeps (P := fun p : Pipeline => p.chain.waiting = []) h fun _ _ => rfl

theorem setContext (h : p.Blank) (ctx : Context) : (p.setContext ctx).body.Blank :=
  ⟨waiting_andThen h.waiting, unclaimed_iff.mpr <| (unclaimed_iff.mp h.unclaimed).setContext
    (fun _ _ => trivial) (OperatorBody.unclaimed_attach ctx) (SinkBody.unclaimed_attach ctx)⟩

theorem setUp (h : p.Blank) (st : Scope.Store) : (p.setUp st).body.Blank :=
  ⟨waiting_andThen h.waiting, unclaimed_iff.mpr <| (unclaimed_iff.mp h.unclaimed).setUp
    (fun _ _ _ _ => trivial) (OperatorBody.unclaimed_initialise st)
    (SinkBody.unclaimed_initialise st)⟩

theorem wire (h : p.Blank) (inflows : List Outflow) : (p.wire inflows).body.Blank := by
  refine ⟨?_, unclaimed_iff.mpr ((unclaimed_iff.mp h.unclaimed).wire fun _ _ => trivial)⟩
  unfold Pipeline.wire
  dsimp only
  split <;> exact h.waiting

end Blank
end Pipeline

namespace FlowDraft

variable {p : FlowDraft} {name : String} {fed : Bool}

/-- The parts of a flow that nothing has been done to. -/
theorem untouched_iff : p.untouched = true ↔
    (∀ source, p.source = some source → source.body.untouched = true) ∧
      (∀ op ∈ p.operators, op.body.untouched = true) ∧
        ∀ sink, p.sink = some sink → sink.body.untouched = true := by
  cases hsource : p.source <;> cases hsink : p.sink <;>
    simp [untouched, hsource, hsink, and_assoc]

theorem untouched_chooseSource (h : p.untouched = true) (fed : Bool) :
    (p.chooseSource fed).body.untouched = true := by
  unfold chooseSource
  split
  · next source hsource => exact (untouched_iff.mp h).1 source hsource
  · split
    · rfl
    · split <;> rfl

theorem untouched_chooseSink (h : p.untouched = true) : p.chooseSink.body.untouched = true := by
  unfold chooseSink
  split
  · next sink hsink => exact (untouched_iff.mp h).2.2 sink hsink
  · split <;> rfl

theorem blank_cell (h : p.untouched = true) (name : String) (fed : Bool) :
    (p.cell name fed).pipeline.Blank := by
  refine ⟨rfl, Pipeline.unclaimed_iff.mpr ⟨⟨trivial, fun op hop => ?_⟩, ?_⟩⟩
  · rw [operators_cell] at hop
    exact OperatorBody.unclaimed_of_untouched ((untouched_iff.mp h).2.1 op hop)
  · exact SinkBody.unclaimed_of_untouched (untouched_chooseSink h)

end FlowDraft

namespace Catalog

theorem untouched_source {part : Blueprint.Part} {c : Source}
    (h : registry.buildSource part = .ok c) : c.body.untouched = true := by
  obtain ⟨_, hsolitary | ⟨_, hbody⟩⟩ := source_of_build h
  · cases hbody : c.body with
    | inflow named inflows =>
        rw [hbody] at hsolitary
        cases hsolitary
    | _ => rfl
  · rw [hbody]
    rfl

theorem untouched_of_solitary {b : SinkBody} (h : b.solitary = true) : b.untouched = true := by
  cases b with
  | flow target producer peer payload onDemand => cases h
  | var name claimed scope => exact h
  | _ => rfl

theorem untouched_sink {part : Blueprint.Part} {c : Sink} (h : registry.buildSink part = .ok c) :
    c.body.untouched = true := by
  obtain ⟨_, ⟨_, hsolitary⟩ | ⟨_, target, _, hbody⟩⟩ := sink_of_build h
  · exact untouched_of_solitary hsolitary
  · rw [hbody]
    rfl

theorem untouched_link {link : Blueprint.Link} {c : Operator}
    (h : registry.buildLink link = .ok c) : c.body.untouched = true := by
  obtain ⟨part, sink, _, hsink, hbody⟩ | ⟨part, _, hmade⟩ := link_of_build h
  · rw [hbody]
    exact untouched_sink hsink
  · obtain hsolitary | ⟨mode, target, _, hbody⟩ := operator_of_build hmade
    · cases hbody : c.body with
      | tee sink =>
          rw [hbody] at hsolitary
          exact untouched_of_solitary hsolitary
      | call mode target callee =>
          rw [hbody] at hsolitary
          cases hsolitary
      | _ => rfl
    · rw [hbody]
      rfl

/-- Nothing has been done to the parts of a flow that are made for a document. -/
theorem untouched_of_ofFlow {f : Blueprint.Flow} {p : FlowDraft}
    (h : FlowDraft.ofFlow registry f = .ok p) : p.untouched = true := by
  obtain ⟨_, hsource, hoperators, hsink, _⟩ := FlowDraft.ofFlow_eq_ok.mp h
  refine FlowDraft.untouched_iff.mpr ⟨?_, ?_, ?_⟩
  · intro source hsome
    rw [hsome] at hsource
    obtain ⟨_, hnone⟩ | ⟨part, source', _, hsource', hmade⟩ := mapM_option_eq_ok.mp hsource
    · cases hnone
    · cases hsource'
      exact untouched_source hmade
  · intro op hop
    obtain ⟨n, hn, rfl⟩ := List.getElem_of_mem hop
    have hlinks := mapM_eq_ok.mp hoperators
    exact untouched_link (hlinks.get (hlinks.length_eq ▸ hn) hn)
  · intro sink hsome
    rw [hsome] at hsink
    obtain ⟨_, hnone⟩ | ⟨part, sink', _, hsink', hmade⟩ := mapM_option_eq_ok.mp hsink
    · cases hnone
    · cases hsink'
      exact untouched_sink hmade

end Catalog
end PullFlow
