import PullFlow.Proofs.Pipeline

/-!
Which other flows a flow can come to. Its operators call flows that they name, its source reads the
chains of flows that feed it on demand, and nothing else in its pipeline leads to another flow. What
is named when a flow is put together bounds what its components ask for ever after.
-/

namespace PullFlow

/-- Bounds for what a flow has to do with others. -/
structure Ties where
  /-- Its source may read what feeds the flow. -/
  reads : Prop
  /-- The names of the flows that its operators may call. -/
  names : String → Prop
  /-- The flows that its operators may call, each by its name. -/
  calls : String → FlowId → Prop
  /-- The flows whose chains its source may read on demand. -/
  draws : FlowId → Prop
  /-- The name of the flow that may read its own chain on demand. -/
  feeds : String → Prop

variable {T : Ties}

def SourceBody.Tied (T : Ties) : SourceBody → Prop
  | inflow _ inflows => T.reads ∧ ∀ o ∈ inflows, o.onDemand = true → T.draws o.flow
  | _ => True

/-- A source that neither other flows nor calls feed. -/
def SourceBody.plain : SourceBody → Bool
  | inflow .. | injected _ => false
  | _ => true

/-- A sink that is read on demand, or is going to be, feeds a flow that may do so. -/
def SinkBody.Tied (feeds : String → Prop) (driven : Bool) : SinkBody → Prop
  | flow target _ _ _ onDemand => onDemand = true ∨ driven = true → feeds target
  | _ => True

def OperatorBody.Tied (T : Ties) : OperatorBody → Prop
  | call _ target callee => T.names target ∧ ∀ f, callee = some f → T.calls target f
  | tee sink => sink.body.Tied (fun _ => False) false
  | _ => True

def Request.Tied (T : Ties) : Request → Prop
  | payload o => o.onDemand = true → T.draws o.flow
  | call name f _ => T.calls name f
  | _ => True

/-- A request that involves no other flow. -/
def Request.leaf : Request → Prop
  | look .. | write .. | host .. | note .. => True
  | _ => False

def SourceWait.Tied (T : Ties) : SourceWait → Prop
  | inflow _ _ rest => ∀ o ∈ rest, o.onDemand = true → T.draws o.flow
  | _ => True

theorem Request.Tied.of_leaf {r : Request} (h : r.leaf) : r.Tied T := by
  cases r with
  | payload o => cases h
  | call name f v => cases h
  | _ => trivial

namespace SourceBody

theorem tied_attach (ctx : Context) (b : SourceBody) (h : b.Tied T) :
    (Hooks.attach ctx b).body.Tied T := by
  cases b with
  | inflow named inflows => exact h
  | _ => trivial

/-- A source that neither other flows nor calls feed stays such a one. -/
theorem plain_initialise (ctx : Context) (params : Params) (b : SourceBody) (h : b.plain = true) :
    (initialise ctx params b).body.plain = true := by
  cases b with
  | inflow named inflows => cases h
  | injected slot => cases h
  | script left stopAtEnd parameters =>
      simp only [initialise]
      split <;> rfl
  | text s =>
      simp only [initialise]
      cases params.text "value" <;> rfl
  | int n =>
      simp only [initialise]
      cases params.int "value" <;> rfl
  | float x =>
      simp only [initialise]
      cases params.float "value" <;> rfl
  | bool x =>
      simp only [initialise]
      cases params.bool "value" <;> rfl
  | counter current step =>
      simp only [initialise]
      cases params.int "start" <;> cases params.int "step" <;> rfl
  | var name wait scope =>
      simp only [initialise]
      cases params.text "name" <;> cases params.bool "wait" <;> rfl
  | file path binary =>
      simp only [initialise]
      cases params.text "path" <;> cases params.bool "binary" <;> rfl
  | now format =>
      simp only [initialise]
      cases params.text "format" with
      | error e => rfl
      | ok format =>
          simp only [bind, Except.bind]
          split <;> rfl
  | during start stop =>
      simp only [initialise]
      cases (params.text "start").bind (Clock.TimeOfDay.parse "start") with
      | error e => rfl
      | ok start =>
          cases (params.text "end").bind (Clock.TimeOfDay.parse "end") <;> rfl
  | _ => rfl

theorem tied_of_plain {b : SourceBody} (h : b.plain = true) : b.Tied T := by
  cases b with
  | inflow named inflows => cases h
  | _ => trivial

/-- Initialising a source leaves its inflows. -/
theorem tied_initialise (st : Scope.Store) (ctx : Context) (params : Params) (b : SourceBody)
    (h : b.Tied T) : (Hooks.initialise st ctx params b).body.Tied T := by
  change (initialise ctx params b).body.Tied T
  cases b with
  | inflow named inflows =>
      simp only [initialise, HookEnd.ofExcept, Except.map]
      split
      · next hmap =>
        split at hmap <;> cases hmap
        exact h
      · exact h
  | injected slot => trivial
  | _ => exact tied_of_plain (plain_initialise ctx params _ rfl)

theorem tied_start (b : SourceBody) (h : b.Tied T) : (Hooks.start b).body.Tied T := by
  cases b with
  | inflow named inflows => exact h
  | _ => trivial

theorem tied_stop (b : SourceBody) (h : b.Tied T) : (Hooks.stop b).body.Tied T := by
  cases b with
  | inflow named inflows => exact h
  | _ => trivial

/-- A source takes the inflows of its flow if it reads any. -/
theorem tied_wire {inflows : List Outflow}
    (hinflows : T.reads → ∀ o ∈ inflows, o.onDemand = true → T.draws o.flow) (b : SourceBody)
    (h : b.Tied T) : (b.wire inflows).body.Tied T := by
  cases b with
  | inflow named old => exact ⟨h.1, hinflows h.1⟩
  | recorder r =>
      simp only [wire]
      split <;> trivial
  | _ => trivial

theorem tied_scriptMove {v : Value} {r : Request} {w : SourceWait}
    (h : scriptMove v = .ask r w) : r.Tied T ∧ w.Tied T := by
  unfold scriptMove at h
  split at h
  · split at h
    · cases h
    · split at h <;> cases h
    · cases h
      exact ⟨trivial, trivial⟩
    · cases h
  · cases h

/-- A source asks for no other chains than those of its inflows. -/
theorem tied_begin (b : SourceBody) (h : b.Tied T) :
    b.begin.1.Tied T ∧ ∀ r w, b.begin.2 = .ask r w → r.Tied T ∧ w.Tied T := by
  have hasks {r₀ : Request} {w₀ : SourceWait} (hr : r₀.Tied T) (hw : w₀.Tied T) (r : Request)
      (w : SourceWait) (hask : SourceMove.ask r₀ w₀ = .ask r w) : r.Tied T ∧ w.Tied T := by
    cases hask
    exact ⟨hr, hw⟩
  have hreplies (out : Outcome) (r : Request) (w : SourceWait)
      (hask : SourceMove.reply out = .ask r w) : r.Tied T ∧ w.Tied T := nomatch hask
  cases b with
  | inflow named inflows =>
      cases inflows with
      | nil => exact ⟨h, hreplies _⟩
      | cons first rest =>
          obtain ⟨hfirst, hrest⟩ := List.forall_mem_cons.mp h.2
          cases rest with
          | nil => exact ⟨h, hasks hfirst trivial⟩
          | cons next rest => exact ⟨h, hasks hfirst hrest⟩
  | script left stopAtEnd parameters =>
      cases left with
      | nil =>
          refine ⟨trivial, fun r w hask => ?_⟩
          simp only [begin] at hask
          split at hask <;> cases hask
          exact ⟨trivial, trivial⟩
      | cons step left => exact ⟨trivial, fun r w => tied_scriptMove⟩
  | sequence left => cases left <;> exact ⟨trivial, hreplies _⟩
  | var name wait scope =>
      cases scope with
      | none => exact ⟨trivial, hreplies _⟩
      | some s => exact ⟨trivial, hasks trivial trivial⟩
  | lines => exact ⟨trivial, hasks trivial trivial⟩
  | file path binary => exact ⟨trivial, hasks trivial trivial⟩
  | now format => exact ⟨trivial, hasks trivial trivial⟩
  | epoch => exact ⟨trivial, hasks trivial trivial⟩
  | during start stop => exact ⟨trivial, hasks trivial trivial⟩
  | recorder r => exact ⟨trivial, hasks trivial trivial⟩
  | _ => exact ⟨trivial, hreplies _⟩

theorem tied_resume (b : SourceBody) (w : SourceWait) (answer : Outcome) (h : b.Tied T)
    (hw : w.Tied T) : (b.resume w answer).1.Tied T ∧
      ∀ r w', (b.resume w answer).2 = .ask r w' → r.Tied T ∧ w'.Tied T := by
  have hreplies (out : Outcome) (r : Request) (w' : SourceWait)
      (hask : SourceMove.reply out = .ask r w') : r.Tied T ∧ w'.Tied T := nomatch hask
  cases w with
  | inflow done asked rest =>
      cases answer with
      | error e => exact ⟨h, hreplies _⟩
      | ok v =>
          cases rest with
          | nil => exact ⟨h, hreplies _⟩
          | cons next rest =>
              obtain ⟨hnext, hrest⟩ := List.forall_mem_cons.mp hw
              refine ⟨h, fun r w' hask => ?_⟩
              cases hask
              exact ⟨hnext, hrest⟩
  | _ => exact ⟨h, hreplies _⟩

end SourceBody

namespace SinkBody

variable {feeds : String → Prop} {driven : Bool}

theorem tied_attach (ctx : Context) (b : SinkBody) (h : b.Tied feeds driven) :
    (Hooks.attach ctx b).body.Tied feeds driven := by
  change (attach ctx b).body.Tied feeds driven
  cases b with
  | flow target producer peer payload onDemand =>
      simp only [attach]
      split
      · exact h
      · cases ctx.peer target <;> exact h
  | _ => trivial

theorem tied_initialise (st : Scope.Store) (ctx : Context) (params : Params) (b : SinkBody)
    (h : b.Tied feeds driven) : (Hooks.initialise st ctx params b).body.Tied feeds driven := by
  change (initialise ctx params b).body.Tied feeds driven
  cases b with
  | flow target producer peer payload onDemand => exact h
  | var name claimed scope =>
      simp only [initialise]
      cases params.text "name" <;> trivial
  | file path append =>
      simp only [initialise]
      cases params.text "path" with
      | error e => trivial
      | ok path => cases (params.text "mode").bind fileMode <;> trivial
  | _ => trivial

theorem tied_start (b : SinkBody) (h : b.Tied feeds driven) :
    (Hooks.start b).body.Tied feeds driven := by
  cases b with
  | flow target producer peer payload onDemand => exact h
  | _ => trivial

theorem tied_stop (b : SinkBody) (h : b.Tied feeds driven) :
    (Hooks.stop b).body.Tied feeds driven := by
  cases b with
  | flow target producer peer payload onDemand => exact h
  | _ => trivial

/-- A sink that suggested the monitor of its flow is marked. -/
theorem tied_onDemand {b : SinkBody} (h : b.Tied feeds true) : b.onDemand.Tied feeds true := by
  cases b with
  | flow target producer peer payload onDemand => exact fun _ => h (.inr rfl)
  | _ => trivial

/-- A sink asks for nothing that involves other flows. -/
theorem tied_perform (b : SinkBody) (v : Value) (h : b.Tied feeds driven) :
    (b.perform v).1.Tied feeds driven ∧ ∀ r w, (b.perform v).2 = .ask r w → r.leaf := by
  have hasks {r₀ : Request} {w₀ : SinkWait} (hr : r₀.leaf) (r : Request) (w : SinkWait)
      (hask : SinkMove.ask r₀ w₀ = .ask r w) : r.leaf := by
    cases hask
    exact hr
  cases b with
  | flow target producer peer payload onDemand => exact ⟨h, fun _ _ hask => nomatch hask⟩
  | print => exact ⟨trivial, hasks trivial⟩
  | var name claimed scope =>
      cases scope with
      | none => exact ⟨trivial, fun _ _ hask => nomatch hask⟩
      | some s => exact ⟨trivial, hasks trivial⟩
  | file path append => exact ⟨trivial, hasks trivial⟩
  | recorder r => exact ⟨trivial, hasks trivial⟩
  | _ => exact ⟨trivial, fun _ _ hask => nomatch hask⟩

theorem tied_resume (b : SinkBody) (w : SinkWait) (answer : Outcome) (h : b.Tied feeds driven) :
    (b.resume w answer).1.Tied feeds driven ∧ ∀ r w', (b.resume w answer).2 = .ask r w' → r.leaf := by
  unfold resume
  split
  · split <;> exact ⟨trivial, fun _ _ hask => nomatch hask⟩
  · split
    · refine ⟨h, fun r w' hask => ?_⟩
      cases hask
      trivial
    · exact ⟨h, fun _ _ hask => nomatch hask⟩
  · exact ⟨h, fun _ _ hask => nomatch hask⟩
  · exact ⟨h, fun _ _ hask => nomatch hask⟩

end SinkBody

namespace OperatorBody

theorem tied_attach {ctx : Context}
    (hcalls : ∀ target peer, T.names target → Fields.get? target ctx.directory = some peer →
      peer.callable = true → T.calls target peer.flow) (b : OperatorBody) (h : b.Tied T) :
    (Hooks.attach ctx b).body.Tied T := by
  change (attach ctx b).body.Tied T
  cases b with
  | tee sink => exact Component.setContext_keeps (P := SinkBody.Tied (fun _ => False) false) h (SinkBody.tied_attach ctx)
  | call mode target callee =>
      simp only [attach]
      split
      · exact h
      · simp only [Context.peer]
        cases hpeer : Fields.get? target ctx.directory with
        | none => exact h
        | some peer =>
            simp only [bind, Except.bind]
            cases hcallable : peer.callable with
            | false => exact h
            | true =>
                refine ⟨h.1, fun f hf => ?_⟩
                cases hf
                exact hcalls target peer h.1 hpeer hcallable
  | _ => trivial

theorem tied_initialise (st : Scope.Store) (ctx : Context) (params : Params) (b : OperatorBody)
    (h : b.Tied T) : (Hooks.initialise st ctx params b).body.Tied T := by
  change (initialise st params b).body.Tied T
  cases b with
  | tee sink =>
      exact Component.setUp_keeps (P := SinkBody.Tied (fun _ => False) false) h (SinkBody.tied_initialise st)
  | call mode target callee => exact h
  | apply f =>
      simp only [initialise]
      cases initialisePure params f <;> trivial
  | cached delay last =>
      simp only [initialise]
      cases params.duration "delay" <;> trivial
  | smooth s =>
      simp only [initialise]
      cases params.duration "delay" with
      | error e => trivial
      | ok delay =>
          cases params.duration? "delay_true" with
          | error e => trivial
          | ok delayTrue => cases params.duration? "delay_false" <;> trivial
  | _ => trivial

theorem tied_start (b : OperatorBody) (h : b.Tied T) : (Hooks.start b).body.Tied T := by
  cases b with
  | tee sink => exact Component.start_keeps (P := SinkBody.Tied (fun _ => False) false) h SinkBody.tied_start
  | call mode target callee => exact h
  | _ => trivial

theorem tied_stop (b : OperatorBody) (h : b.Tied T) : (Hooks.stop b).body.Tied T := by
  cases b with
  | tee sink => exact Component.stop_keeps (P := SinkBody.Tied (fun _ => False) false) h SinkBody.tied_stop
  | call mode target callee => exact h
  | _ => trivial

theorem tied_begin (b : OperatorBody) (now : Nat) (above : String) (h : b.Tied T) :
    (b.begin now above).1.Tied T ∧ ∀ r w, (b.begin now above).2 = .ask r w → r.Tied T := by
  unfold begin
  split
  · exact ⟨trivial, fun _ _ hask => nomatch hask⟩
  · split <;> exact ⟨h, fun _ _ hask => nomatch hask⟩
  · exact ⟨h, fun _ _ hask => nomatch hask⟩
  · exact ⟨h, fun _ _ hask => nomatch hask⟩
  · exact ⟨trivial, fun _ _ hask => nomatch hask⟩
  · refine ⟨h, fun r w hask => ?_⟩
    cases hask
    trivial
  · exact ⟨h, fun _ _ hask => nomatch hask⟩
  · exact ⟨h, fun _ _ hask => nomatch hask⟩

/-- A call goes to the flow that the operator is attached to. -/
theorem tied_nextCall {mode : CallMode} {target : String} {callee : FlowId}
    (h : T.calls target callee) (done rest : List Value) {r : Request} {w : OperatorWait}
    (hask : nextCall mode target callee done rest = .ask r w) : r.Tied T := by
  cases rest with
  | nil => cases hask
  | cons item rest =>
      cases hask
      exact h

theorem tied_afterSink {sink : Sink} (v : Value) {m : SinkBody × SinkMove}
    (hbody : m.1.Tied (fun _ => False) false) (hask : ∀ r w, m.2 = .ask r w → r.leaf) :
    (afterSink sink v m).1.Tied T ∧ ∀ r w, (afterSink sink v m).2 = .ask r w → r.Tied T := by
  obtain ⟨body, move⟩ := m
  cases move with
  | done d => exact ⟨hbody, fun _ _ hask => nomatch hask⟩
  | ask r w =>
      refine ⟨hbody, fun r' w' h => ?_⟩
      cases h
      exact .of_leaf (hask r w rfl)

theorem tied_receive (b : OperatorBody) (now : Nat) (v : Value) (h : b.Tied T) :
    (receive now v b).1.Tied T ∧ ∀ r w, (receive now v b).2 = .ask r w → r.Tied T := by
  cases b with
  | tee sink =>
      have hperform := SinkBody.tied_perform sink.body v h
      exact tied_afterSink v hperform.1 hperform.2
  | call mode target callee =>
      refine ⟨h, fun r w hask => ?_⟩
      simp only [receive, startCalls] at hask
      cases callee with
      | none => cases hask
      | some callee =>
          have hcallee := h.2 callee rfl
          cases mode with
          | whole =>
              cases hask
              exact hcallee
          | each =>
              simp only at hask
              split at hask
              · cases hask
              · exact tied_nextCall hcallee _ _ hask
          | keep =>
              simp only at hask
              split at hask
              · cases hask
              · exact tied_nextCall hcallee _ _ hask
  | feed left =>
      simp only [receive]
      split <;> exact ⟨trivial, fun _ _ hask => nomatch hask⟩
  | _ => exact ⟨trivial, fun _ _ hask => nomatch hask⟩

theorem tied_resume (b : OperatorBody) (now : Nat) (w : OperatorWait) (answer : Outcome)
    (h : b.Tied T) : (b.resume now w answer).1.Tied T ∧
      ∀ r w', (b.resume now w answer).2 = .ask r w' → r.Tied T := by
  unfold resume
  split
  · exact tied_receive b now _ h
  · split <;> exact ⟨h, fun _ _ hask => nomatch hask⟩
  · exact ⟨h, fun _ _ hask => nomatch hask⟩
  · split
    · next done rest v mode target callee =>
      exact ⟨h, fun r w' => tied_nextCall (h.2 callee rfl) _ _⟩
    · exact ⟨h, fun _ _ hask => nomatch hask⟩
  · split
    · next kept item rest v mode target callee =>
      exact ⟨h, fun r w' => tied_nextCall (h.2 callee rfl) _ _⟩
    · exact ⟨h, fun _ _ hask => nomatch hask⟩
  · exact ⟨h, fun _ _ hask => nomatch hask⟩
  · exact ⟨h, fun _ _ hask => nomatch hask⟩
  · next v w =>
    split
    · next sink =>
      have hresume := SinkBody.tied_resume sink.body w answer h
      exact tied_afterSink v hresume.1 hresume.2
    · exact ⟨h, fun _ _ hask => nomatch hask⟩
  · split
    · split <;> exact ⟨trivial, fun _ _ hask => nomatch hask⟩
    · exact ⟨h, fun _ _ hask => nomatch hask⟩
  · split <;> exact ⟨h, fun _ _ hask => nomatch hask⟩
  · exact ⟨h, fun _ _ hask => nomatch hask⟩

end OperatorBody

theorem tied_nodes : Nodes (SourceBody.Tied T) (OperatorBody.Tied T) (Request.Tied T)
    (SourceWait.Tied T) where
  sourceBegin := SourceBody.tied_begin
  sourceResume := SourceBody.tied_resume
  operatorBegin := OperatorBody.tied_begin
  operatorResume := OperatorBody.tied_resume

end PullFlow
