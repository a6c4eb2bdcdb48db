import PullFlow.Proofs.Assembly
import PullFlow.Proofs.Catalog
import PullFlow.Proofs.Engine.SetUp
import PullFlow.Proofs.Pipeline

/-!
Which flows can be attached. Only the components that call or feed a flow can refuse their
surroundings, and they do so if it is not there, is their own or, for a call, cannot be called.
-/

namespace PullFlow

theorem Component.setContext_ok {β : Type} [Hooks β] {c : Component β} {ctx : Context}
    (hstage : c.stage = .created) (hattach : (Hooks.attach ctx c.body).result = .ok ()) :
    (c.setContext ctx).result = .ok () := by
  simp only [setContext, expect, if_pos hstage, after, hattach]

namespace HookEnd

variable {β : Type} {f : β → HookEnd β}

theorem andThen_ok {h : HookEnd β} (hfirst : h.result = .ok ())
    (hthen : (f h.body).result = .ok ()) : (h.andThen f).result = .ok () := by
  simp only [andThen, hfirst, hthen]

theorem each_ok {items : List β} (h : ∀ b ∈ items, (f b).result = .ok ()) :
    (each f items).result = .ok () := by
  induction items with
  | nil => rfl
  | cons item rest ih =>
      obtain ⟨hitem, hrest⟩ := List.forall_mem_cons.mp h
      simp only [each, hitem, ih hrest]

end HookEnd

/-- A pipeline is attached if all its components are. -/
theorem Pipeline.setContext_ok {p : Pipeline} {ctx : Context}
    (hsource : (p.chain.source.setContext ctx).result = .ok ())
    (hoperators : ∀ op ∈ p.chain.operators, (op.setContext ctx).result = .ok ())
    (hsink : (p.sink.setContext ctx).result = .ok ()) : (p.setContext ctx).result = .ok () := by
  have hfirst : (p.onSource (Component.setContext ctx)).result = .ok () := hsource
  have hsecond : ((p.onSource (Component.setContext ctx)).andThen
      (onOperators (HookEnd.each (Component.setContext ctx)))).result = .ok () :=
    HookEnd.andThen_ok hfirst (HookEnd.each_ok hoperators)
  refine HookEnd.andThen_ok hsecond ?_
  -- The sink is the one that was there before source and operators moved.
  have hsame : ((p.onSource (Component.setContext ctx)).andThen
      (onOperators (HookEnd.each (Component.setContext ctx)))).body.sink = p.sink :=
    HookEnd.andThen_keeps (P := fun q : Pipeline => q.sink = p.sink) rfl fun _ h => h
  change (Component.setContext ctx _).result = _
  rw [hsame]
  exact hsink

namespace Context

/-- The flow of a name is there, and is another one. -/
def Reaches (ctx : Context) (target : String) : Prop :=
  target ≠ ctx.flow ∧ ∃ peer, Fields.get? target ctx.directory = some peer

/-- The flow of a name is there, can be called, and is another one. -/
def CanCall (ctx : Context) (target : String) : Prop :=
  target ≠ ctx.flow ∧ ∃ peer, Fields.get? target ctx.directory = some peer ∧ peer.callable = true

end Context

variable {ctx : Context}

theorem SourceBody.attach_ok {b : SourceBody} (h : b.solitary = true ∨ b = .inflow false []) :
    (Hooks.attach ctx b).result = .ok () := by
  obtain h | rfl := h
  · cases b <;> first | rfl | cases h
  · rfl

theorem SinkBody.attach_ok_of_solitary {b : SinkBody} (h : b.solitary = true) :
    (Hooks.attach ctx b).result = .ok () := by
  cases b <;> first | rfl | cases h

theorem SinkBody.attach_ok_of_reaches {target : String} (h : ctx.Reaches target) :
    (Hooks.attach ctx (SinkBody.flow target "" Option.none .null false)).result = .ok () := by
  obtain ⟨hne, peer, hpeer⟩ := h
  change (attach ctx (.flow target "" Option.none .null false)).result = _
  simp only [attach, if_neg hne, Context.peer, hpeer]
  rfl

theorem OperatorBody.attach_ok_of_lone {b : OperatorBody} (h : b.lone = true) :
    (Hooks.attach ctx b).result = .ok () := by
  obtain ⟨hsolitary, hstage⟩ := OperatorBody.lone_iff.mp h
  cases b with
  | tee sink =>
      exact Component.setContext_ok (hstage sink rfl) (SinkBody.attach_ok_of_solitary hsolitary)
  | call mode target callee => cases hsolitary
  | recorder r => cases hsolitary
  | _ => rfl

theorem OperatorBody.attach_ok_of_canCall {mode : CallMode} {target : String}
    (h : ctx.CanCall target) : (Hooks.attach ctx (OperatorBody.call mode target none)).result = .ok () := by
  obtain ⟨hne, peer, hpeer, hcallable⟩ := h
  change (attach ctx (.call mode target none)).result = _
  simp only [attach, if_neg hne, Context.peer, hpeer, bind, Except.bind, hcallable, if_true]
  rfl

theorem MonitorBody.attach_ok {b : MonitorBody} (h : b = .onCall ∨ b.solitary = true) :
    (Hooks.attach ctx b).result = .ok () := by
  obtain rfl | h := h
  · rfl
  · cases b <;> first | rfl | cases h

namespace Catalog

variable {part : Blueprint.Part}

theorem source_attached {c : Source} (h : registry.buildSource part = .ok c) :
    (c.setContext ctx).result = .ok () := by
  obtain ⟨f, body, _, _, hmade⟩ := Registry.build_eq_ok h
  refine Component.setContext_ok (by rw [hmade]; rfl) (SourceBody.attach_ok ?_)
  obtain ⟨_, hsolitary | ⟨_, hbody⟩⟩ := source_of_build h
  · exact .inl hsolitary
  · exact .inr hbody

theorem sink_attached {c : Sink} (h : registry.buildSink part = .ok c)
    (htarget : ∀ target, part.kind = Blueprint.flowKind → part.target? = some target →
      ctx.Reaches target) : (c.setContext ctx).result = .ok () := by
  obtain ⟨f, body, _, _, hmade⟩ := Registry.build_eq_ok h
  refine Component.setContext_ok (by rw [hmade]; rfl) ?_
  obtain ⟨_, ⟨_, hsolitary⟩ | ⟨hkind, target, hnamed, hbody⟩⟩ := sink_of_build h
  · exact SinkBody.attach_ok_of_solitary hsolitary
  · rw [hbody]
    exact SinkBody.attach_ok_of_reaches (htarget target hkind hnamed)

theorem operator_attached {c : Operator} (h : registry.buildOperator part = .ok c)
    (htarget : ∀ target, part.target? = some target → ctx.CanCall target) :
    (c.setContext ctx).result = .ok () := by
  obtain ⟨f, body, _, _, hmade⟩ := Registry.build_eq_ok h
  refine Component.setContext_ok (by rw [hmade]; rfl) ?_
  obtain hlone | ⟨mode, target, hnamed, hcall⟩ := lone_of_build h
  · exact OperatorBody.attach_ok_of_lone hlone
  · rw [hcall]
    exact OperatorBody.attach_ok_of_canCall (htarget target hnamed)

theorem link_attached {link : Blueprint.Link} {c : Operator} (h : registry.buildLink link = .ok c)
    (hfeeds : ∀ part, link.tee? = some part → ∀ target, part.kind = Blueprint.flowKind →
      part.target? = some target → ctx.Reaches target)
    (hcalls : ∀ part, link.operator? = some part → ∀ target, part.target? = some target →
      ctx.CanCall target) : (c.setContext ctx).result = .ok () := by
  cases link with
  | operator part => exact operator_attached h (hcalls part rfl)
  | tee part =>
      change (registry.buildSink part).map _ = .ok c at h
      cases hsink : registry.buildSink part with
      | error e =>
          rw [hsink] at h
          cases h
      | ok sink =>
          rw [hsink] at h
          cases h
          have hattached := sink_attached hsink (hfeeds part rfl)
          exact Component.setContext_ok rfl hattached

theorem monitor_attached {c : Monitor} (h : registry.buildMonitor part = .ok c) :
    (c.setContext ctx).result = .ok () := by
  obtain ⟨f, body, _, _, hmade⟩ := Registry.build_eq_ok h
  refine Component.setContext_ok (by rw [hmade]; rfl) (MonitorBody.attach_ok ?_)
  obtain ⟨_, ⟨_, hbody⟩ | ⟨_, hsolitary⟩⟩ := monitor_of_build h
  · exact .inl hbody
  · exact .inr hsolitary

end Catalog

namespace FlowDraft

variable {f : Blueprint.Flow} {p : FlowDraft}

/-- The parts of a flow of a document are attached if the flows that it feeds are there and those
that it calls can be called. -/
theorem attach_ok (h : ofFlow Catalog.registry f = .ok p) (name : String) (fed : Bool)
    (hfeeds : ∀ target ∈ f.outflowTargets, ctx.Reaches target)
    (hcalls : ∀ target ∈ f.calledFlows, ctx.CanCall target) :
    ((p.cell name fed).attach ctx).result = .ok () := by
  obtain ⟨_, hsource, hoperators, hsink, hmonitor⟩ := ofFlow_eq_ok.mp h
  have hfed {part : Blueprint.Part} (hpart : part ∈ f.sinks) (target : String)
      (hkind : part.kind = Blueprint.flowKind) (htarget : part.target? = some target) :
      ctx.Reaches target := by
    refine hfeeds target (List.mem_filterMap.mpr ⟨part, List.mem_filter.mpr ⟨hpart, ?_⟩, htarget⟩)
    rw [hkind]
    exact beq_self_eq_true _
  refine HookEnd.andThen_ok (Pipeline.setContext_ok ?_ (fun op hop => ?_) ?_) ?_
  · change ((p.chooseSource fed).setContext ctx).result = _
    obtain ⟨_, hnone⟩ | ⟨part, source, _, hsome, hmade⟩ := mapM_option_eq_ok.mp hsource
    · simp only [chooseSource, hnone]
      split
      · rfl
      · split <;> rfl
    · simp only [chooseSource, hsome]
      exact Catalog.source_attached hmade
  · rw [operators_cell] at hop
    obtain ⟨n, hn, rfl⟩ := List.getElem_of_mem hop
    have hlinks := mapM_eq_ok.mp hoperators
    have hlink : n < f.operators.length := hlinks.length_eq ▸ hn
    have hmade := hlinks.get hlink hn
    rw [List.get_eq_getElem, List.get_eq_getElem] at hmade
    refine Catalog.link_attached hmade (fun part hpart => hfed ?_) fun part hpart target htarget =>
      hcalls target ?_
    · exact List.mem_append_left _ (List.mem_filterMap.mpr ⟨_, List.getElem_mem hlink, hpart⟩)
    · refine List.mem_filterMap.mpr ⟨part, List.mem_filterMap.mpr ?_, htarget⟩
      exact ⟨_, List.getElem_mem hlink, hpart⟩
  · change (p.chooseSink.setContext ctx).result = _
    obtain ⟨_, hnone⟩ | ⟨part, sink, hpart, hsome, hmade⟩ := mapM_option_eq_ok.mp hsink
    · simp only [chooseSink, hnone]
      split <;> rfl
    · simp only [chooseSink, hsome]
      exact Catalog.sink_attached hmade (hfed (by simp [Blueprint.Flow.sinks, hpart]))
  · change ((p.chooseMonitor p.chooseSink).1.setContext ctx).result = _
    obtain ⟨_, hnone⟩ | ⟨part, monitor, _, hsome, hmade⟩ := mapM_option_eq_ok.mp hmonitor
    · simp only [chooseMonitor, hnone]
      split <;> rfl
    · simp only [chooseMonitor, hsome]
      exact Catalog.monitor_attached hmade

end FlowDraft
end PullFlow
