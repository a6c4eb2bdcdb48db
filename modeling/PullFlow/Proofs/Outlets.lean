import PullFlow.Proofs.Pipeline

/-!
Where the sinks of a flow lead. A sink that feeds another flow names it from the beginning, and it is
attached to the flow that the directory has under that name. Nothing changes either afterwards, be
the sink at the end of the flow or at a tee.
-/

namespace PullFlow

variable {feeds : String → Prop} {known : Directory}

/-- A sink feeds only a flow of certain names, and is attached at most to the one of its name. -/
def SinkBody.Aims (feeds : String → Prop) (known : Directory) : SinkBody → Prop
  | flow target _ peer _ _ => feeds target ∧
      ∀ f, peer = some f → ∃ found, Fields.get? target known = some found ∧ found.flow = f
  | _ => True

/-- The sink of a tee leads where it may. -/
def OperatorBody.Aims (feeds : String → Prop) (known : Directory) : OperatorBody → Prop
  | tee sink => sink.body.Aims feeds known
  | _ => True

namespace SinkBody

theorem aims_attach {ctx : Context} (hknown : ctx.directory = known) (b : SinkBody)
    (h : b.Aims feeds known) : (Hooks.attach ctx b).body.Aims feeds known := by
  change (attach ctx b).body.Aims feeds known
  cases b with
  | flow target producer peer payload onDemand =>
      simp only [attach]
      split
      · exact h
      · simp only [Context.peer, hknown]
        cases hfound : Fields.get? target known with
        | none => exact h
        | some found =>
            refine ⟨h.1, fun f hf => ⟨found, hfound, ?_⟩⟩
            cases hf
            rfl
  | _ => trivial

theorem aims_initialise (st : Scope.Store) (ctx : Context) (params : Params) (b : SinkBody)
    (h : b.Aims feeds known) : (Hooks.initialise st ctx params b).body.Aims feeds known := by
  change (initialise ctx params b).body.Aims feeds known
  cases b with
  | flow target producer peer payload onDemand => exact h
  | var name claimed scope =>
      simp only [initialise]
      cases params.text "name" <;> trivial
  | file path append =>
      simp only [initialise]
      cases params.text "path" with
      | error e => trivial
      | ok path => cases (params.text "mode").bind fileMode <;> trivial
  | _ => trivial

theorem aims_start (b : SinkBody) (h : b.Aims feeds known) :
    (Hooks.start b).body.Aims feeds known := by
  cases b <;> exact h

theorem aims_stop (b : SinkBody) (h : b.Aims feeds known) :
    (Hooks.stop b).body.Aims feeds known := by
  cases b <;> exact h

theorem aims_onDemand {b : SinkBody} (h : b.Aims feeds known) : b.onDemand.Aims feeds known := by
  cases b <;> exact h

theorem aims_perform (b : SinkBody) (v : Value) (h : b.Aims feeds known) :
    (b.perform v).1.Aims feeds known := by
  cases b with
  | var name claimed scope => cases scope <;> trivial
  | _ => exact h

theorem aims_resume (b : SinkBody) (w : SinkWait) (answer : Outcome) (h : b.Aims feeds known) :
    (b.resume w answer).1.Aims feeds known := by
  unfold resume
  split
  · split <;> trivial
  · split <;> trivial
  · exact h
  · exact h

end SinkBody

namespace OperatorBody

theorem aims_of_plain {b : OperatorBody} (h : b.tee? = none) : b.Aims feeds known := by
  cases b with
  | tee sink => cases h
  | _ => trivial

theorem aims_attach {ctx : Context} (hknown : ctx.directory = known) (b : OperatorBody)
    (h : b.Aims feeds known) : (Hooks.attach ctx b).body.Aims feeds known := by
  cases b with
  | tee sink =>
      exact Component.setContext_keeps (P := SinkBody.Aims feeds known) h
        (SinkBody.aims_attach hknown)
  | _ => exact aims_of_plain (tee?_attach rfl ctx)

theorem aims_initialise (st : Scope.Store) (ctx : Context) (params : Params) (b : OperatorBody)
    (h : b.Aims feeds known) : (Hooks.initialise st ctx params b).body.Aims feeds known := by
  cases b with
  | tee sink =>
      exact Component.setUp_keeps (P := SinkBody.Aims feeds known) h (SinkBody.aims_initialise st)
  | _ => exact aims_of_plain (tee?_initialise rfl st params)

theorem aims_start (b : OperatorBody) (h : b.Aims feeds known) :
    (Hooks.start b).body.Aims feeds known := by
  cases b with
  | tee sink => exact Component.start_keeps (P := SinkBody.Aims feeds known) h SinkBody.aims_start
  | _ => trivial

theorem aims_stop (b : OperatorBody) (h : b.Aims feeds known) :
    (Hooks.stop b).body.Aims feeds known := by
  cases b with
  | tee sink => exact Component.stop_keeps (P := SinkBody.Aims feeds known) h SinkBody.aims_stop
  | _ => trivial

theorem aims_begin (b : OperatorBody) (now : Nat) (above : String) (h : b.Aims feeds known) :
    (b.begin now above).1.Aims feeds known := by
  unfold begin
  split <;> first | exact h | trivial | (split <;> exact h)

theorem aims_afterSink {sink : Sink} (v : Value) {m : SinkBody × SinkMove}
    (h : m.1.Aims feeds known) : (afterSink sink v m).1.Aims feeds known := by
  obtain ⟨body, move⟩ := m
  cases move <;> exact h

theorem aims_receive (b : OperatorBody) (now : Nat) (v : Value) (h : b.Aims feeds known) :
    (receive now v b).1.Aims feeds known := by
  cases b with
  | tee sink => exact aims_afterSink v (SinkBody.aims_perform sink.body v h)
  | feed left =>
      simp only [receive]
      split <;> trivial
  | _ => trivial

theorem aims_resume (b : OperatorBody) (now : Nat) (w : OperatorWait) (answer : Outcome)
    (h : b.Aims feeds known) : (b.resume now w answer).1.Aims feeds known := by
  unfold resume
  split
  · exact aims_receive b now _ h
  case h_8 v w =>
    split
    · next sink => exact aims_afterSink v (SinkBody.aims_resume sink.body w answer h)
    · exact h
  all_goals first | exact h | (split <;> first | exact h | trivial | (split <;> trivial))

end OperatorBody

/-- A read leaves the sinks of its tees where they lead. -/
theorem aims_nodes : Nodes (fun _ => True) (OperatorBody.Aims feeds known) (fun _ => True)
    (fun _ => True) where
  sourceBegin _ _ := ⟨trivial, fun _ _ _ => ⟨trivial, trivial⟩⟩
  sourceResume _ _ _ _ _ := ⟨trivial, fun _ _ _ => ⟨trivial, trivial⟩⟩
  operatorBegin b now above h := ⟨b.aims_begin now above h, fun _ _ _ => trivial⟩
  operatorResume b now w answer h := ⟨b.aims_resume now w answer h, fun _ _ _ => trivial⟩

namespace Pipeline

/-- All sinks of a flow lead where they may. -/
def Aims (feeds : String → Prop) (known : Directory) (p : Pipeline) : Prop :=
  p.Holds (fun _ => True) (OperatorBody.Aims feeds known) (SinkBody.Aims feeds known)

theorem Aims.sinks {p : Pipeline} (h : p.Aims feeds known) :
    ∀ sink ∈ p.sinks, sink.body.Aims feeds known := by
  intro sink hsink
  obtain hsink | hsink := List.mem_append.mp hsink
  · obtain ⟨op, hop, htee⟩ := List.mem_filterMap.mp hsink
    have haims := h.chain.operators op hop
    cases hbody : op.body with
    | tee other =>
        rw [hbody] at htee haims
        cases htee
        exact haims
    | _ =>
        rw [hbody] at htee
        cases htee
  · cases List.mem_singleton.mp hsink
    exact h.sink

end Pipeline
end PullFlow
