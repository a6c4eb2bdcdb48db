import PullFlow.Proofs.Pipeline

/-!
Where the source of a flow looks for variables. A source that reads a variable does so from the scope
in which it was attached, and it is attached only once. No operator and no sink asks for a variable.
-/

namespace PullFlow

variable {home : Option ScopeId}

/-- Whether a variable is asked for. -/
def Request.looks : Request → Bool
  | .look .. => true
  | _ => false

/-- A variable is asked for only from one scope. -/
def Request.LooksIn (home : Option ScopeId) : Request → Prop
  | .look s _ _ => home = some s
  | _ => True

theorem Request.LooksIn.of_not_looks {r : Request} (h : r.looks = false) : r.LooksIn home := by
  cases r with
  | look => cases h
  | _ => trivial

/-- A source that reads a variable reads it from one scope. -/
def SourceBody.LooksIn (home : Option ScopeId) : SourceBody → Prop
  | var _ _ scope => ∀ s, scope = some s → home = some s
  | _ => True

namespace SourceBody

theorem looksIn_attach (ctx : Context) (b : SourceBody) (h : b.LooksIn home) :
    (Hooks.attach ctx b).body.LooksIn home := by
  cases b <;> exact h

/-- A source is initialised with the scope that it is attached in. -/
theorem looksIn_initialise (st : Scope.Store) (ctx : Context) (params : Params) (b : SourceBody)
    (h : b.LooksIn (some ctx.scope)) :
    (Hooks.initialise st ctx params b).body.LooksIn (some ctx.scope) := by
  change (initialise ctx params b).body.LooksIn (some ctx.scope)
  cases b with
  | var name wait scope =>
      simp only [initialise]
      cases params.text "name" with
      | error e => exact h
      | ok name' =>
          cases params.bool "wait" with
          | error e => exact h
          | ok wait' => exact fun _ hs => hs
  | inflow named inflows =>
      simp only [initialise]
      cases params.bool "named" <;> trivial
  | script left stopAtEnd parameters =>
      simp only [initialise]
      split <;> trivial
  | text s =>
      simp only [initialise]
      cases params.text "value" <;> trivial
  | int n =>
      simp only [initialise]
      cases params.int "value" <;> trivial
  | float x =>
      simp only [initialise]
      cases params.float "value" <;> trivial
  | bool x =>
      simp only [initialise]
      cases params.bool "value" <;> trivial
  | counter current step =>
      simp only [initialise]
      cases params.int "start" <;> cases params.int "step" <;> trivial
  | file path binary =>
      simp only [initialise]
      cases params.text "path" <;> cases params.bool "binary" <;> trivial
  | now format =>
      simp only [initialise]
      cases params.text "format" with
      | error e => trivial
      | ok format =>
          simp only [bind, Except.bind]
          split <;> trivial
  | during start stop =>
      simp only [initialise]
      cases (params.text "start").bind (Clock.TimeOfDay.parse "start") with
      | error e => trivial
      | ok start =>
          cases (params.text "end").bind (Clock.TimeOfDay.parse "end") <;> trivial
  | _ => trivial

theorem looksIn_start (b : SourceBody) (h : b.LooksIn home) :
    (Hooks.start b).body.LooksIn home := by
  cases b <;> exact h

theorem looksIn_stop (b : SourceBody) (h : b.LooksIn home) :
    (Hooks.stop b).body.LooksIn home := by
  cases b <;> exact h

theorem looksIn_wire (inflows : List Outflow) (b : SourceBody) (h : b.LooksIn home) :
    (b.wire inflows).body.LooksIn home := by
  cases b with
  | recorder r =>
      simp only [wire]
      split <;> trivial
  | _ => exact h

theorem looksIn_scriptMove {v : Value} {r : Request} {w : SourceWait}
    (h : scriptMove v = .ask r w) : r.LooksIn home := by
  unfold scriptMove at h
  split at h
  · split at h
    · cases h
    · split at h <;> cases h
    · cases h
      trivial
    · cases h
  · cases h

/-- A source asks for a variable only from its scope. -/
theorem looksIn_begin (b : SourceBody) (h : b.LooksIn home) :
    b.begin.1.LooksIn home ∧ ∀ r w, b.begin.2 = .ask r w → r.LooksIn home := by
  cases b with
  | var name wait scope =>
      cases scope with
      | none => exact ⟨h, fun r w hask => SourceMove.noConfusion hask⟩
      | some s =>
          refine ⟨h, fun r w hask => ?_⟩
          cases hask
          exact h s rfl
  | inflow named inflows =>
      cases inflows with
      | nil => exact ⟨trivial, fun r w hask => SourceMove.noConfusion hask⟩
      | cons first rest =>
          refine ⟨by cases rest <;> trivial, fun r w hask => ?_⟩
          cases rest <;> cases hask <;> trivial
  | script left stopAtEnd parameters =>
      cases left with
      | nil =>
          refine ⟨trivial, fun r w hask => ?_⟩
          simp only [begin] at hask
          split at hask <;> cases hask
          trivial
      | cons step left => exact ⟨trivial, fun r w => looksIn_scriptMove⟩
  | sequence left =>
      cases left <;> exact ⟨trivial, fun r w hask => SourceMove.noConfusion hask⟩
  | _ =>
      refine ⟨trivial, fun r w hask => ?_⟩
      cases hask <;> trivial

theorem looksIn_resume (b : SourceBody) (w : SourceWait) (answer : Outcome) (h : b.LooksIn home) :
    (b.resume w answer).1.LooksIn home ∧
      ∀ r w', (b.resume w answer).2 = .ask r w' → r.LooksIn home := by
  unfold resume
  split
  · exact ⟨h, fun r w' hask => SourceMove.noConfusion hask⟩
  · exact ⟨h, fun r w' hask => SourceMove.noConfusion hask⟩
  · split
    · exact ⟨h, fun r w' hask => SourceMove.noConfusion hask⟩
    · split
      · refine ⟨h, fun r w' hask => ?_⟩
        cases hask
        trivial
      · exact ⟨h, fun r w' hask => SourceMove.noConfusion hask⟩
  · exact ⟨h, fun r w' hask => SourceMove.noConfusion hask⟩

end SourceBody

/-! No sink and no operator asks for a variable. -/

namespace SinkBody

theorem looks_perform {b : SinkBody} {v : Value} {r : Request} {w : SinkWait}
    (h : (b.perform v).2 = .ask r w) : r.looks = false := by
  cases b with
  | var name claimed scope =>
      cases scope with
      | none => cases h
      | some s =>
          cases h
          rfl
  | _ => cases h <;> rfl

theorem looks_resume {b : SinkBody} {w w' : SinkWait} {answer : Outcome} {r : Request}
    (h : (b.resume w answer).2 = .ask r w') : r.looks = false := by
  unfold resume at h
  split at h
  · split at h <;> cases h
  · split at h <;> cases h
    rfl
  · cases h
  · cases h

end SinkBody

namespace OperatorBody

theorem looks_begin {b : OperatorBody} {now : Nat} {above : String} {r : Request}
    {w : OperatorWait} (h : (b.begin now above).2 = .ask r w) : r.looks = false := by
  unfold begin at h
  split at h <;> first | (cases h; rfl) | cases h | (split at h <;> cases h)

theorem looks_afterSink {sink : Sink} {v : Value} {m : SinkBody × SinkMove} {r : Request}
    {w : OperatorWait} (hm : ∀ r w, m.2 = .ask r w → r.looks = false)
    (h : (afterSink sink v m).2 = .ask r w) : r.looks = false := by
  obtain ⟨body, move⟩ := m
  cases move with
  | done d => cases h
  | ask r' w' =>
      cases h
      exact hm r w' rfl

theorem looks_nextCall {mode : CallMode} {target : String} {callee : FlowId} {done rest : List Value}
    {r : Request} {w : OperatorWait} (h : nextCall mode target callee done rest = .ask r w) :
    r.looks = false := by
  cases rest <;> cases h
  rfl

theorem looks_receive {b : OperatorBody} {now : Nat} {v : Value} {r : Request} {w : OperatorWait}
    (h : (b.receive now v).2 = .ask r w) : r.looks = false := by
  cases b with
  | tee sink => exact looks_afterSink (fun _ _ => SinkBody.looks_perform) h
  | call mode target callee =>
      simp only [receive, startCalls] at h
      split at h
      · cases h
      · split at h
        · cases h
          rfl
        · split at h
          · cases h
          · exact looks_nextCall h
  | feed left =>
      simp only [receive] at h
      split at h <;> cases h
  | _ => cases h

theorem looks_resume {b : OperatorBody} {now : Nat} {w w' : OperatorWait} {answer : Outcome}
    {r : Request} (h : (b.resume now w answer).2 = .ask r w') : r.looks = false := by
  unfold resume at h
  split at h
  · exact looks_receive h
  · split at h <;> cases h
  · cases h
  · split at h
    · exact looks_nextCall h
    · cases h
  · split at h
    · exact looks_nextCall h
    · cases h
  · cases h
  · cases h
  · split at h
    · exact looks_afterSink (fun _ _ => SinkBody.looks_resume) h
    · cases h
  · split at h
    · split at h <;> cases h
    · cases h
  · split at h <;> cases h
  · cases h

end OperatorBody

/-- A read asks for variables only from the scope of its source. -/
theorem looksIn_nodes (home : Option ScopeId) : Nodes (SourceBody.LooksIn home) (fun _ => True)
    (Request.LooksIn home) (fun _ => True) where
  sourceBegin b h := ⟨(b.looksIn_begin h).1, fun r w hask => ⟨(b.looksIn_begin h).2 r w hask, trivial⟩⟩
  sourceResume b w answer h _ := ⟨(b.looksIn_resume w answer h).1,
    fun r w' hask => ⟨(b.looksIn_resume w answer h).2 r w' hask, trivial⟩⟩
  operatorBegin _ _ _ _ := ⟨trivial, fun _ _ hask => .of_not_looks (OperatorBody.looks_begin hask)⟩
  operatorResume _ _ _ _ _ :=
    ⟨trivial, fun _ _ hask => .of_not_looks (OperatorBody.looks_resume hask)⟩

namespace Component

/-- The scope in which a component is attached. -/
def home? {β : Type} (c : Component β) : Option ScopeId := c.context.map (·.scope)

/-- A source that looks where it is attached, and is not attached while it is fresh. -/
structure Homed (c : Component SourceBody) : Prop where
  looks : c.body.LooksIn c.home?
  fresh : c.stage = .created → c.home? = none

/-- A source that is attached stays where it is. -/
structure Stays (c c' : Component SourceBody) : Prop where
  homed : c'.Homed
  home : ∀ s, c.home? = some s → c'.home? = some s

variable {c : Component SourceBody}

theorem Homed.stays (h : c.Homed) : c.Stays c := ⟨h, fun _ hs => hs⟩

/-- A source whose body changes without its scope. -/
theorem Homed.body (h : c.Homed) {body : SourceBody} (hbody : body.LooksIn c.home?) :
    c.Stays { c with body := body } :=
  ⟨⟨hbody, h.fresh⟩, fun _ hs => hs⟩

/-- What a hook leaves of a source that has been attached. -/
theorem Homed.after (h : c.Homed) {k : HookEnd SourceBody} {stage : Stage}
    (hbody : k.body.LooksIn c.home?) (hstage : stage ≠ .created) :
    c.Stays (c.after k stage c.context).body := by
  unfold Component.after
  split
  · exact ⟨⟨hbody, fun hcreated => absurd hcreated hstage⟩, fun _ hs => hs⟩
  · exact h.body hbody

theorem Homed.setContext (h : c.Homed) (ctx : Context) : c.Stays (c.setContext ctx).body := by
  obtain ⟨e, hfail⟩ | ⟨hcreated, hafter⟩ := Component.setContext_eq ctx c
  · rw [hfail]
    exact h.stays
  · have hnone := h.fresh hcreated
    have hlooks := h.looks
    rw [hnone] at hlooks
    rw [hafter]
    unfold Component.after
    split
    · -- a fresh source knows no scope yet
      refine ⟨⟨?_, Stage.noConfusion⟩, fun s hs => absurd (hnone.symm.trans hs) nofun⟩
      refine SourceBody.looksIn_attach ctx c.body ?_
      cases hbody : c.body with
      | var name wait scope =>
          rw [hbody] at hlooks
          exact fun s hs => absurd (hlooks s hs) nofun
      | _ => trivial
    · exact h.body (SourceBody.looksIn_attach ctx c.body h.looks)

/-- A source is attached in the scope of its context. -/
theorem home_setContext {ctx : Context} (h : (c.setContext ctx).result = .ok ()) :
    (c.setContext ctx).body.home? = some ctx.scope := by
  obtain ⟨e, hfail⟩ | ⟨-, hafter⟩ := Component.setContext_eq ctx c
  · rw [hfail] at h
    cases h
  · rw [hafter] at h ⊢
    unfold Component.after at h ⊢
    split at h
    · rfl
    · cases h

theorem Homed.setUp (h : c.Homed) (st : Scope.Store) : c.Stays (c.setUp st).body := by
  obtain ⟨e, hfail⟩ | ⟨-, ctx, params, hctx, -, hafter⟩ := Component.setUp_eq st c
  · rw [hfail]
    exact h.stays
  · have hhome : c.home? = some ctx.scope := by rw [home?, hctx]; rfl
    rw [hafter]
    refine h.after ?_ Stage.noConfusion
    rw [hhome]
    exact SourceBody.looksIn_initialise st ctx params c.body (hhome ▸ h.looks)

theorem Homed.start (h : c.Homed) : c.Stays c.start.body := by
  obtain ⟨e, hfail⟩ | ⟨-, hafter⟩ := Component.start_eq c
  · rw [hfail]
    exact h.stays
  · rw [hafter]
    exact h.after (SourceBody.looksIn_start c.body h.looks) Stage.noConfusion

theorem Homed.stop (h : c.Homed) : c.Stays c.stop.body := by
  have hstopped {body : SourceBody} (hbody : body.LooksIn c.home?) :
      c.Stays { c with body := body, stage := .stopped } :=
    ⟨⟨hbody, Stage.noConfusion⟩, fun _ hs => hs⟩
  unfold Component.stop
  dsimp only
  split
  · exact h.stays
  · exact hstopped (SourceBody.looksIn_stop c.body h.looks)
  · exact hstopped h.looks

end Component

namespace Pipeline

variable {p : Pipeline}

/-- The scope in which the source of a flow is attached. -/
def home? (p : Pipeline) : Option ScopeId := p.chain.source.home?

/-- The source of a flow looks where it is attached. -/
def Homed (p : Pipeline) : Prop := p.chain.source.Homed

/-- What is done to a flow leaves its source where it is attached. -/
abbrev Stays (p p' : Pipeline) : Prop := p.chain.source.Stays p'.chain.source

/-- Moving the other components leaves the source as it is. -/
theorem source_andThen {source : Source} {h : HookEnd Pipeline} {f g : Pipeline → HookEnd Pipeline}
    (hfirst : h.body.chain.source = source) (hf : ∀ q, (f q).body.chain.source = q.chain.source)
    (hg : ∀ q, (g q).body.chain.source = q.chain.source) :
    ((h.andThen f).andThen g).body.chain.source = source :=
  HookEnd.andThen_keeps (P := fun q : Pipeline => q.chain.source = source)
    (HookEnd.andThen_keeps (P := fun q : Pipeline => q.chain.source = source) hfirst
      fun q hq => (hf q).trans hq) fun q hq => (hg q).trans hq

theorem source_setContext (ctx : Context) (p : Pipeline) :
    (p.setContext ctx).body.chain.source = (Component.setContext ctx p.chain.source).body :=
  source_andThen rfl (fun _ => rfl) fun _ => rfl

theorem source_setUp (st : Scope.Store) (p : Pipeline) :
    (p.setUp st).body.chain.source = (Component.setUp st p.chain.source).body :=
  source_andThen rfl (fun _ => rfl) fun _ => rfl

theorem source_start (p : Pipeline) : p.start.body.chain.source = p.chain.source.start.body :=
  source_andThen rfl (fun _ => rfl) fun _ => rfl

/-- A flow that is attached without fail has its source in the scope of the context. -/
theorem home_setContext {ctx : Context} (h : (p.setContext ctx).result = .ok ()) :
    (p.setContext ctx).body.home? = some ctx.scope := by
  have hsource : (Component.setContext ctx p.chain.source).result = .ok () := by
    unfold Pipeline.setContext HookEnd.andThen at h
    cases hfirst : (p.onSource (Component.setContext ctx)).result with
    | ok done => exact hfirst
    | error e => simp [hfirst] at h
  rw [home?, source_setContext]
  exact Component.home_setContext hsource

theorem Homed.wire (h : p.Homed) (inflows : List Outflow) : p.Stays (p.wire inflows).body := by
  have hbody := Component.Homed.body h (SourceBody.looksIn_wire inflows p.chain.source.body h.looks)
  unfold Pipeline.wire
  dsimp only
  split <;> exact hbody

/-- A read moves the source of a chain at most in its body. -/
theorem source_step (c : Chain) (now : Nat) (point : PullPoint) (answer : Outcome) :
    ∃ body, (c.step now point answer).1.source = { c.source with body := body } := by
  have hsource (m : SourceBody × SourceMove) : (c.afterSource m).1.source =
      { c.source with body := m.1 } := by
    obtain ⟨body, move⟩ := m
    cases move <;> rfl
  have hoperator (c' : Chain) (op : Operator) (m : OperatorBody × OperatorMove) :
      (c'.afterOperator op m).1.source = c'.source := by
    obtain ⟨body, move⟩ := m
    cases move <;> rfl
  have hdeliver (out : Outcome) : (c.deliver now out).1.source = c.source := by
    unfold Chain.deliver
    split
    · rfl
    · exact hoperator _ _ _
  cases point with
  | enter =>
      change ∃ body, (c.enter now).1.source = _
      unfold Chain.enter
      split
      · exact ⟨_, hsource _⟩
      · exact ⟨c.source.body, hoperator _ _ _⟩
  | source wait => exact ⟨_, hsource _⟩
  | asked => exact ⟨c.source.body, hdeliver answer⟩
  | reply out => exact ⟨c.source.body, hdeliver out⟩

/-- A read leaves the source where it is, and asks for variables only from there. -/
theorem Homed.step (h : p.Homed) (now : Nat) (point : PullPoint) (answer : Outcome) :
    p.Stays { p with chain := (p.chain.step now point answer).1 } ∧
      ∀ r q, (p.chain.step now point answer).2 = .ask r q → r.LooksIn p.home? := by
  have hheld : p.chain.Holds (SourceBody.LooksIn p.home?) fun _ => True :=
    ⟨h.looks, fun _ _ => trivial⟩
  obtain ⟨hafter, hmove⟩ := hheld.step (looksIn_nodes _) (PullPoint.within_true point) now answer
  refine ⟨?_, fun r q hask => ?_⟩
  · obtain ⟨body, hsource⟩ := source_step p.chain now point answer
    have hbody := hafter.source
    dsimp only [Stays]
    rw [hsource] at hbody ⊢
    exact Component.Homed.body h hbody
  · rw [hask] at hmove
    exact hmove.1

end Pipeline

end PullFlow
