import PullFlow.Pipeline

/-!
What holds of all components of a flow, whatever moves them: a property of the components that
every hook keeps is kept by the moves of the whole pipeline, and one that every node keeps is kept
by a read.
-/

namespace PullFlow

namespace Component

section After

variable {β : Type} {c : Component β} (h : HookEnd β) (stage : Stage) (ctx : Option Context)

/-! A component takes over the end of a hook. -/

theorem after_kind : (c.after h stage ctx).body.kind = c.kind := by
  unfold after
  split <;> rfl

theorem after_body : (c.after h stage ctx).body.body = h.body := by
  unfold after
  split <;> rfl

theorem after_result : (c.after h stage ctx).result = h.result := by
  unfold after
  split <;> exact Eq.symm ‹_›

theorem after_stage :
    (c.after h stage ctx).body.stage = if h.result.isOk then stage else c.stage := by
  unfold after
  cases h.result <;> rfl

end After

variable {β : Type} [Hooks β] {P : β → Prop} {c : Component β}

/-! Each move of a component is refused, or takes over the end of its hook. -/

/-- A component is attached only when it is created. -/
theorem setContext_eq (ctx : Context) (c : Component β) : (∃ e, c.setContext ctx = .fail c e) ∨
    c.stage = .created ∧
      c.setContext ctx = c.after (Hooks.attach ctx c.body) .contextualized (some ctx) := by
  by_cases hstage : c.stage = .created
  · exact .inr ⟨hstage, by simp [setContext, expect, hstage]⟩
  · exact .inl ⟨_, by simp [setContext, expect, hstage]; rfl⟩

/-- A component is set up only when it is attached and its arguments can be bound. -/
theorem setUp_eq (st : Scope.Store) (c : Component β) : (∃ e, c.setUp st = .fail c e) ∨
    c.stage = .contextualized ∧ ∃ ctx params,
      c.context = some ctx ∧ c.bound st ctx = .ok params ∧
        c.setUp st = c.after (Hooks.initialise st ctx params c.body) .initialised c.context := by
  by_cases hstage : c.stage = .contextualized
  · cases hctx : c.context with
    | none => exact .inl ⟨_, by simp [setUp, expect, hstage, hctx]; rfl⟩
    | some ctx =>
        cases hbound : c.bound st ctx with
        | error e => exact .inl ⟨e, by simp [setUp, expect, hstage, hctx, hbound]⟩
        | ok params =>
            refine .inr ⟨hstage, ctx, params, rfl, hbound, ?_⟩
            simp [setUp, expect, hstage, hctx, hbound]
  · exact .inl ⟨_, by simp [setUp, expect, hstage]; rfl⟩

theorem start_of_ne (hstage : c.stage ≠ .initialised) : ∃ e, c.start = .fail c e :=
  ⟨_, by simp [start, expect, hstage]; rfl⟩

/-- A component starts only when it is initialised. -/
theorem start_eq (c : Component β) : (∃ e, c.start = .fail c e) ∨
    c.stage = .initialised ∧ c.start = c.after (Hooks.start c.body) .running c.context := by
  by_cases hstage : c.stage = .initialised
  · exact .inr ⟨hstage, by simp [start, expect, hstage]⟩
  · exact .inl (start_of_ne hstage)

theorem setContext_keeps (h : P c.body) {ctx : Context}
    (hattach : ∀ b, P b → P (Hooks.attach ctx b).body) : P (c.setContext ctx).body.body := by
  obtain ⟨e, hfail⟩ | ⟨-, hafter⟩ := setContext_eq ctx c
  · rwa [hfail]
  · rw [hafter, after_body]
    exact hattach c.body h

theorem setUp_keeps (h : P c.body) {st : Scope.Store}
    (hinitialise : ∀ ctx params b, P b → P (Hooks.initialise st ctx params b).body) :
    P (c.setUp st).body.body := by
  obtain ⟨e, hfail⟩ | ⟨-, ctx, params, -, -, hafter⟩ := setUp_eq st c
  · rwa [hfail]
  · rw [hafter, after_body]
    exact hinitialise ctx params c.body h

theorem start_keeps (h : P c.body) (hstart : ∀ b, P b → P (Hooks.start b).body) :
    P c.start.body.body := by
  obtain ⟨e, hfail⟩ | ⟨-, hafter⟩ := start_eq c
  · rwa [hfail]
  · rw [hafter, after_body]
    exact hstart c.body h

theorem stop_keeps (h : P c.body) (hstop : ∀ b, P b → P (Hooks.stop b).body) :
    P c.stop.body.body := by
  unfold stop
  dsimp only
  split
  · exact h
  · exact hstop c.body h
  · exact h

end Component

namespace HookEnd

variable {β : Type} {P : β → Prop} {f : β → HookEnd β}

theorem andThen_keeps {h : HookEnd β} (hfirst : P h.body) (hf : ∀ b, P b → P (f b).body) :
    P (h.andThen f).body := by
  unfold andThen
  split
  · exact hf h.body hfirst
  · exact hfirst

theorem each_keeps (hf : ∀ b, P b → P (f b).body) {items : List β} (h : ∀ b ∈ items, P b) :
    ∀ b ∈ (each f items).body, P b := by
  induction items with
  | nil => exact fun b hb => nomatch hb
  | cons item items ih =>
      obtain ⟨hitem, hitems⟩ := List.forall_mem_cons.mp h
      unfold each
      dsimp only
      split
      · exact List.forall_mem_cons.mpr ⟨hf item hitem, hitems⟩
      · exact List.forall_mem_cons.mpr ⟨hf item hitem, ih hitems⟩

theorem all_keeps (hf : ∀ b, P b → P (f b).body) {items : List β} (h : ∀ b ∈ items, P b) :
    ∀ b ∈ (all f items).body, P b := by
  induction items with
  | nil => exact fun b hb => nomatch hb
  | cons item items ih =>
      obtain ⟨hitem, hitems⟩ := List.forall_mem_cons.mp h
      exact List.forall_mem_cons.mpr ⟨hf item hitem, ih hitems⟩

end HookEnd

/-- What holds of the source and of all operators. -/
structure Chain.Holds (S : SourceBody → Prop) (O : OperatorBody → Prop) (c : Chain) : Prop where
  source : S c.source.body
  operators : ∀ op ∈ c.operators, O op.body

/-- What holds of the source, of all operators and of the sink at the end. -/
structure Pipeline.Holds (S : SourceBody → Prop) (O : OperatorBody → Prop) (K : SinkBody → Prop)
    (p : Pipeline) : Prop where
  chain : p.chain.Holds S O
  sink : K p.sink.body

/-- What a read waits for at its source. -/
def PullPoint.Within (W : SourceWait → Prop) : PullPoint → Prop
  | .source w => W w
  | _ => True

theorem PullPoint.within_true (p : PullPoint) : p.Within fun _ => True := by
  cases p <;> trivial

/-- What a read asks for, and what it waits for at its source. -/
def PullMove.Within (R : Request → Prop) (W : SourceWait → Prop) : PullMove → Prop
  | .go p => p.Within W
  | .ask r p => R r ∧ p.Within W
  | .done _ => True

/-- Nodes that stay what they are and ask for nothing else than they may. -/
structure Nodes (S : SourceBody → Prop) (O : OperatorBody → Prop) (R : Request → Prop)
    (W : SourceWait → Prop) : Prop where
  sourceBegin : ∀ b, S b → S b.begin.1 ∧ ∀ r w, b.begin.2 = .ask r w → R r ∧ W w
  sourceResume : ∀ b w answer, S b → W w → S (b.resume w answer).1 ∧
    ∀ r w', (b.resume w answer).2 = .ask r w' → R r ∧ W w'
  operatorBegin : ∀ b now above, O b → O (b.begin now above).1 ∧
    ∀ r w, (b.begin now above).2 = .ask r w → R r
  operatorResume : ∀ b now w answer, O b → O (b.resume now w answer).1 ∧
    ∀ r w', (b.resume now w answer).2 = .ask r w' → R r

/-- An operator that moves stays between those above it and those below. -/
theorem Chain.operators_afterOperator (c : Chain) (op : Operator)
    (m : OperatorBody × OperatorMove) :
    (c.afterOperator op m).1.operators =
      c.idle.reverse ++ { op with body := m.1 } :: c.waiting.map (·.1) := by
  obtain ⟨body, move⟩ := m
  cases move <;> simp [afterOperator, operators]

namespace Chain.Holds

variable {S : SourceBody → Prop} {O : OperatorBody → Prop} {R : Request → Prop}
  {W : SourceWait → Prop} {c : Chain}

theorem afterSource (h : c.Holds S O) {m : SourceBody × SourceMove} (hbody : S m.1)
    (hask : ∀ r w, m.2 = .ask r w → R r ∧ W w) :
    (c.afterSource m).1.Holds S O ∧ (c.afterSource m).2.Within R W := by
  obtain ⟨body, move⟩ := m
  cases move with
  | reply out => exact ⟨⟨hbody, h.operators⟩, trivial⟩
  | ask r w => exact ⟨⟨hbody, h.operators⟩, hask r w rfl⟩

/-- The operator that moves stands between the idle and the waiting ones. -/
theorem afterOperator {op : Operator} (hsource : S c.source.body)
    (hothers : ∀ other ∈ c.operators, O other.body) {m : OperatorBody × OperatorMove}
    (hbody : O m.1) (hask : ∀ r w, m.2 = .ask r w → R r) :
    (c.afterOperator op m).1.Holds S O ∧ (c.afterOperator op m).2.Within R W := by
  have hall : ∀ other ∈ (c.afterOperator op m).1.operators, O other.body := by
    rw [Chain.operators_afterOperator]
    intro other hother
    obtain hidle | hother := List.mem_append.mp hother
    · exact hothers other (List.mem_append_left _ hidle)
    · obtain rfl | hwaiting := List.mem_cons.mp hother
      · exact hbody
      · exact hothers other (List.mem_append_right _ hwaiting)
  obtain ⟨body, move⟩ := m
  cases move with
  | reply out => exact ⟨⟨hsource, hall⟩, trivial⟩
  | up w => exact ⟨⟨hsource, hall⟩, trivial⟩
  | ask r w => exact ⟨⟨hsource, hall⟩, hask r w rfl, trivial⟩

theorem enter (h : c.Holds S O) (hnodes : Nodes S O R W) (now : Nat) :
    (c.enter now).1.Holds S O ∧ (c.enter now).2.Within R W := by
  unfold Chain.enter
  split
  · have hbegin := hnodes.sourceBegin c.source.body h.source
    exact h.afterSource hbegin.1 hbegin.2
  · next op idle hidle =>
    have hop : O op.body := h.operators op (by simp [Chain.operators, hidle])
    have hbegin := hnodes.operatorBegin op.body now (nextKind { c with idle := idle }) hop
    refine afterOperator (c := { c with idle := idle }) h.source
      (fun other hother => h.operators other ?_) hbegin.1 hbegin.2
    simp only [Chain.operators, hidle, List.reverse_cons, List.append_assoc, List.mem_append] at hother ⊢
    exact hother.imp_right .inr

theorem deliver (h : c.Holds S O) (hnodes : Nodes S O R W) (now : Nat) (out : Outcome) :
    (c.deliver now out).1.Holds S O ∧ (c.deliver now out).2.Within R W := by
  unfold Chain.deliver
  split
  · exact ⟨h, trivial⟩
  · next op w waiting hwaiting =>
    have hop : O op.body := h.operators op (by simp [Chain.operators, hwaiting])
    have hresume := hnodes.operatorResume op.body now w out hop
    refine afterOperator (c := { c with waiting := waiting }) h.source
      (fun other hother => h.operators other ?_) hresume.1 hresume.2
    simp only [Chain.operators, hwaiting, List.map_cons, List.mem_append, List.mem_cons] at hother ⊢
    exact hother.imp_right .inr

/-- A read keeps what its nodes keep, and asks for nothing else than they do. -/
theorem step (h : c.Holds S O) (hnodes : Nodes S O R W) {p : PullPoint} (hp : p.Within W)
    (now : Nat) (answer : Outcome) :
    (c.step now p answer).1.Holds S O ∧ (c.step now p answer).2.Within R W := by
  cases p with
  | enter => exact h.enter hnodes now
  | source w =>
      have hresume := hnodes.sourceResume c.source.body w answer h.source hp
      exact h.afterSource hresume.1 hresume.2
  | asked => exact h.deliver hnodes now answer
  | reply out => exact h.deliver hnodes now out

end Chain.Holds

namespace Pipeline.Holds

variable {S : SourceBody → Prop} {O : OperatorBody → Prop} {K : SinkBody → Prop} {p : Pipeline}

theorem onSource (h : p.Holds S O K) {f : Source → HookEnd Source}
    (hf : S p.chain.source.body → S (f p.chain.source).body.body) :
    (p.onSource f).body.Holds S O K :=
  ⟨⟨hf h.chain.source, h.chain.operators⟩, h.sink⟩

theorem operators_withOperators (c : Chain) (operators : List Operator) :
    (c.withOperators operators).operators = operators := by
  simp [Chain.withOperators, Chain.operators]

theorem onOperators (h : p.Holds S O K) {f : List Operator → HookEnd (List Operator)}
    (hf : (∀ op ∈ p.chain.operators, O op.body) → ∀ op ∈ (f p.chain.operators).body, O op.body) :
    (p.onOperators f).body.Holds S O K := by
  refine ⟨⟨h.chain.source, ?_⟩, h.sink⟩
  change ∀ op ∈ (p.chain.withOperators (f p.chain.operators).body).operators, O op.body
  rw [operators_withOperators]
  exact hf h.chain.operators

theorem onSink (h : p.Holds S O K) {f : Sink → HookEnd Sink}
    (hf : K p.sink.body → K (f p.sink).body.body) : (p.onSink f).body.Holds S O K :=
  ⟨h.chain, hf h.sink⟩

theorem setContext (h : p.Holds S O K) {ctx : Context}
    (hsource : ∀ b, S b → S (Hooks.attach ctx b).body)
    (hoperator : ∀ b, O b → O (Hooks.attach ctx b).body)
    (hsink : ∀ b, K b → K (Hooks.attach ctx b).body) : (p.setContext ctx).body.Holds S O K := by
  refine HookEnd.andThen_keeps (HookEnd.andThen_keeps ?_ fun p hp => ?_) fun p hp => ?_
  · exact h.onSource fun hs => Component.setContext_keeps hs hsource
  · exact hp.onOperators (HookEnd.each_keeps fun op hop => Component.setContext_keeps hop hoperator)
  · exact hp.onSink fun hk => Component.setContext_keeps hk hsink

theorem setUp (h : p.Holds S O K) {st : Scope.Store}
    (hsource : ∀ ctx params b, S b → S (Hooks.initialise st ctx params b).body)
    (hoperator : ∀ ctx params b, O b → O (Hooks.initialise st ctx params b).body)
    (hsink : ∀ ctx params b, K b → K (Hooks.initialise st ctx params b).body) :
    (p.setUp st).body.Holds S O K := by
  refine HookEnd.andThen_keeps (HookEnd.andThen_keeps ?_ fun p hp => ?_) fun p hp => ?_
  · exact h.onSource fun hs => Component.setUp_keeps hs hsource
  · exact hp.onOperators (HookEnd.each_keeps fun op hop => Component.setUp_keeps hop hoperator)
  · exact hp.onSink fun hk => Component.setUp_keeps hk hsink

theorem start (h : p.Holds S O K) (hsource : ∀ b, S b → S (Hooks.start b).body)
    (hoperator : ∀ b, O b → O (Hooks.start b).body) (hsink : ∀ b, K b → K (Hooks.start b).body) :
    p.start.body.Holds S O K := by
  refine HookEnd.andThen_keeps (HookEnd.andThen_keeps ?_ fun p hp => ?_) fun p hp => ?_
  · exact h.onSource fun hs => Component.start_keeps hs hsource
  · exact hp.onOperators (HookEnd.each_keeps fun op hop => Component.start_keeps hop hoperator)
  · exact hp.onSink fun hk => Component.start_keeps hk hsink

theorem stop (h : p.Holds S O K) (hsource : ∀ b, S b → S (Hooks.stop b).body)
    (hoperator : ∀ b, O b → O (Hooks.stop b).body) (hsink : ∀ b, K b → K (Hooks.stop b).body) :
    p.stop.body.Holds S O K := by
  have hfirst := h.onSource (f := Component.stop) fun hs => Component.stop_keeps hs hsource
  have hsecond := hfirst.onOperators (f := HookEnd.all Component.stop)
    (HookEnd.all_keeps fun op hop => Component.stop_keeps hop hoperator)
  exact hsecond.onSink fun hk => Component.stop_keeps hk hsink

theorem wire (h : p.Holds S O K) {inflows : List Outflow}
    (hsource : ∀ b, S b → S (b.wire inflows).body) : (p.wire inflows).body.Holds S O K := by
  have hwired := h.onSource (f := fun source =>
    (source.body.wire inflows).map fun body => { source with body := body })
    fun hs => hsource p.chain.source.body hs
  unfold Pipeline.wire
  dsimp only
  split
  · exact ⟨⟨hwired.chain.source, hwired.chain.operators⟩, hwired.sink⟩
  · exact hwired

end Pipeline.Holds

/-! An operator that is no tee never becomes one. -/

namespace OperatorBody

variable {b : OperatorBody}

theorem tee?_attach (hplain : b.tee? = none) (ctx : Context) :
    (attach ctx b).body.tee? = none := by
  cases b with
  | tee sink => cases hplain
  | call mode target callee =>
      simp only [attach]
      split
      · rfl
      · cases ctx.peer target with
        | error e => rfl
        | ok peer =>
            simp only [bind, Except.bind]
            split <;> rfl
  | _ => rfl

theorem tee?_initialise (hplain : b.tee? = none) (st : Scope.Store) (params : Params) :
    (initialise st params b).body.tee? = none := by
  cases b with
  | tee sink => cases hplain
  | apply f =>
      simp only [initialise]
      cases initialisePure params f <;> rfl
  | cached delay last =>
      simp only [initialise]
      cases params.duration "delay" <;> rfl
  | smooth s =>
      simp only [initialise]
      cases params.duration "delay" with
      | error e => rfl
      | ok delay =>
          cases params.duration? "delay_true" with
          | error e => rfl
          | ok delayTrue => cases params.duration? "delay_false" <;> rfl
  | _ => rfl

theorem tee?_start (hplain : b.tee? = none) : (Hooks.start b).body.tee? = none := by
  cases b <;> first | rfl | cases hplain

theorem tee?_stop (hplain : b.tee? = none) : (Hooks.stop b).body.tee? = none := by
  cases b <;> first | rfl | cases hplain

end OperatorBody

end PullFlow
