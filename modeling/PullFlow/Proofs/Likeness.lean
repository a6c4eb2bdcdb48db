import PullFlow.Proofs.Pipeline
import Mathlib.Data.List.Forall2

/-!
Components of two sets of flows that are alike: made in the same way, and attached to flows of one
name that know the same names. They differ at most in where other flows and scopes are. Hooks keep
them so: where one succeeds, so does that of the counterpart.
-/

namespace PullFlow

/-- Where the first hook succeeds, so does the second, and they leave what is related. -/
def HookEnd.Follows {β γ : Type} (R : β → γ → Prop) (h : HookEnd β) (h' : HookEnd γ) : Prop :=
  h.result = .ok () → h'.result = .ok () ∧ R h.body h'.body

namespace HookEnd

variable {β γ δ ε : Type} {R : β → γ → Prop} {S : δ → ε → Prop} {h : HookEnd β} {h' : HookEnd γ}

theorem follows_pass {b : β} {b' : γ} (hb : R b b') : Follows R (.pass b) (.pass b') :=
  fun _ => ⟨rfl, hb⟩

theorem follows_fail {b : β} {e : Error} : Follows R (.fail b e) h' := by
  intro hok
  cases hok

theorem follows_self {R : β → β → Prop} (hb : R h.body h.body) : Follows R h h :=
  fun hok => ⟨hok, hb⟩

theorem Follows.imp {R' : β → γ → Prop} (h₁ : Follows R h h') (himp : ∀ b b', R b b' → R' b b') :
    Follows R' h h' := fun hok => (h₁ hok).imp_right (himp _ _)

theorem Follows.map {f : β → δ} {f' : γ → ε} (h₁ : Follows R h h')
    (hf : ∀ b b', R b b' → S (f b) (f' b')) : Follows S (h.map f) (h'.map f') :=
  fun hok => (h₁ hok).imp_right (hf _ _)

theorem follows_ofExcept {b : β} {b' : γ} {r : Except Error β} {r' : Except Error γ}
    (hr : ∀ a, r = .ok a → ∃ a', r' = .ok a' ∧ R a a') :
    Follows R (.ofExcept b r) (.ofExcept b' r') := by
  intro hok
  cases r with
  | error e => cases hok
  | ok a =>
      obtain ⟨a', rfl, ha⟩ := hr a rfl
      exact ⟨rfl, ha⟩

theorem Follows.andThen {R' : β → γ → Prop} {f : β → HookEnd β} {f' : γ → HookEnd γ}
    (h₁ : Follows R h h') (hf : ∀ b b', R b b' → Follows R' (f b) (f' b')) :
    Follows R' (h.andThen f) (h'.andThen f') := by
  intro hok
  unfold HookEnd.andThen at hok ⊢
  cases hr : h.result with
  | error e =>
      rw [hr] at hok
      exact absurd (hr.symm.trans hok) nofun
  | ok u =>
      obtain ⟨hr', hb⟩ := h₁ hr
      rw [hr] at hok
      rw [hr']
      exact hf h.body h'.body hb hok

theorem follows_each {f : β → HookEnd β} {f' : γ → HookEnd γ} {items : List β} {items' : List γ}
    (hitems : List.Forall₂ (fun b b' => Follows R (f b) (f' b')) items items') :
    Follows (List.Forall₂ R) (each f items) (each f' items') := by
  induction hitems with
  | nil => exact follows_pass .nil
  | @cons b b' rest rest' hb _ ih =>
      intro hok
      unfold each at hok ⊢
      cases hr : (f b).result with
      | error e =>
          simp only [hr] at hok
          cases hok
      | ok u =>
          obtain ⟨hr', hbody⟩ := hb hr
          simp only [hr] at hok
          obtain ⟨hrest, hbodies⟩ := ih hok
          simp only [hr, hr']
          exact ⟨hrest, .cons hbody hbodies⟩

end HookEnd

open HookEnd

/-- Surroundings in which the same names lead to flows that can be called or not, and to variables of
the same values. -/
structure Context.Alike (st st' : Scope.Store) (ctx ctx' : Context) : Prop where
  flow : ctx'.flow = ctx.flow
  peers : ∀ name, (Fields.get? name ctx'.directory).map Peer.callable =
    (Fields.get? name ctx.directory).map Peer.callable
  values : ∀ key, st'.getValue ctx'.scope key = st.getValue ctx.scope key

namespace Context.Alike

variable {st st' : Scope.Store} {ctx ctx' : Context}

/-- A name that leads to a flow leads to its counterpart. -/
theorem peer (h : ctx.Alike st st' ctx') {name : String} {found : Peer}
    (hfound : ctx.peer name = .ok found) :
    ∃ found', ctx'.peer name = .ok found' ∧ found'.callable = found.callable := by
  have hpeers := h.peers name
  simp only [Context.peer] at hfound ⊢
  cases hget : Fields.get? name ctx.directory with
  | none =>
      rw [hget] at hfound
      cases hfound
  | some peer =>
      rw [hget] at hfound hpeers
      cases hfound
      obtain ⟨found', hget', hcallable⟩ := Option.map_eq_some_iff.mp hpeers
      rw [hget']
      exact ⟨found', rfl, hcallable⟩

theorem resolve (h : ctx.Alike st st' ctx') (p : Param) : ctx'.resolve st' p = ctx.resolve st p := by
  cases p with
  | literal v => rfl
  | var key => exact h.values key
  | flow name =>
      have hpeers := h.peers name
      simp only [Context.resolve, Context.peer, h.flow]
      cases hget : Fields.get? name ctx.directory with
      | none =>
          rw [hget] at hpeers
          rw [Option.map_eq_none_iff.mp hpeers]
      | some peer =>
          rw [hget] at hpeers
          obtain ⟨peer', hget', _⟩ := Option.map_eq_some_iff.mp hpeers
          rw [hget']
          rfl

theorem resolveNamed (h : ctx.Alike st st' ctx') (named : List (String × Param)) :
    ctx'.resolveNamed st' named = ctx.resolveNamed st named := by
  induction named with
  | nil => rfl
  | cons field rest ih =>
      obtain ⟨name, p⟩ := field
      simp only [Context.resolveNamed, h.resolve, ih]

end Context.Alike

/-- Components of one kind with the same arguments, at the same stage, in the surroundings of their
flows. -/
structure Component.Alike {β : Type} (ctx ctx' : Context) (R : β → β → Prop) (c c' : Component β) :
    Prop where
  kind : c'.kind = c.kind
  arguments : c'.arguments = c.arguments
  stage : c'.stage = c.stage
  context : c.context = some ctx
  context' : c'.context = some ctx'
  body : R c.body c'.body

namespace Component

variable {β : Type} [Hooks β] {R : β → β → Prop} {st st' : Scope.Store} {ctx ctx' : Context}
  {c c' : Component β}

/-- What is attached in two surroundings is alike. -/
theorem follows_setContext
    (hattach : Follows R (Hooks.attach ctx c.body) (Hooks.attach ctx' c.body)) :
    Follows (Alike ctx ctx' R) (c.setContext ctx) (c.setContext ctx') := by
  intro hok
  unfold setContext after at hok ⊢
  cases hstage : c.expect .created with
  | error e =>
      rw [hstage] at hok
      cases hok
  | ok u =>
      cases hr : (Hooks.attach ctx c.body).result with
      | error e =>
          simp only [hstage, hr] at hok
          cases hok
      | ok u =>
          obtain ⟨hr', hbody⟩ := hattach hr
          simp only [hr']
          exact ⟨trivial, rfl, rfl, rfl, rfl, rfl, hbody⟩

/-- Alike components are bound to the same arguments. -/
theorem Alike.bound (h : c.Alike ctx ctx' R c') (hctx : ctx.Alike st st' ctx')
    (hschema : Hooks.schema c'.body = Hooks.schema c.body) : c'.bound st' ctx' = c.bound st ctx := by
  have hresolve : ctx'.resolve st' = ctx.resolve st := funext hctx.resolve
  simp only [Component.bound, h.arguments, h.kind, hresolve, hctx.resolveNamed, hschema]

theorem Alike.follows_setUp (h : c.Alike ctx ctx' R c') (hctx : ctx.Alike st st' ctx')
    (hschema : Hooks.schema c'.body = Hooks.schema c.body)
    (hinitialise : ∀ params, Follows R (Hooks.initialise st ctx params c.body)
      (Hooks.initialise st' ctx' params c'.body)) :
    Follows (Alike ctx ctx' R) (c.setUp st) (c'.setUp st') := by
  intro hok
  have hexpect : c'.expect .contextualized = c.expect .contextualized := by
    simp only [expect, h.stage, h.kind]
  simp only [setUp, after, hexpect, h.context, h.context', h.bound hctx hschema] at hok ⊢
  cases hstage : c.expect .contextualized with
  | error e =>
      rw [hstage] at hok
      cases hok
  | ok u =>
      cases hbound : c.bound st ctx with
      | error e =>
          simp only [hstage, hbound] at hok
          cases hok
      | ok params =>
          cases hr : (Hooks.initialise st ctx params c.body).result with
          | error e =>
              simp only [hstage, hbound, hr] at hok
              cases hok
          | ok u =>
              obtain ⟨hr', hbody⟩ := hinitialise params hr
              simp only [hr, hr']
              exact ⟨trivial, h.kind, h.arguments, rfl, rfl, rfl, hbody⟩

end Component

variable {st st' : Scope.Store} {ctx ctx' : Context}

/-! Sources. -/

/-- Sources that differ at most in where they look for a variable. -/
inductive SourceBody.Alike : SourceBody → SourceBody → Prop
  | same (b : SourceBody) : Alike b b
  | var (name : String) (wait : Bool) (scope scope' : Option ScopeId) :
      Alike (.var name wait scope) (.var name wait scope')

namespace SourceBody

theorem follows_attach (hctx : ctx.Alike st st' ctx') (b : SourceBody) :
    Follows Alike (Hooks.attach ctx b) (Hooks.attach ctx' b) := by
  have hsame : Hooks.attach ctx' b = Hooks.attach ctx b := by
    change attach ctx' b = attach ctx b
    cases b with
    | recorder r => simp only [attach, Recorder.attach, hctx.flow]
    | _ => rfl
  rw [hsame]
  exact follows_self (.same _)

theorem Alike.schema {b b' : SourceBody} (h : b.Alike b') : Hooks.schema b' = Hooks.schema b := by
  cases h <;> rfl

theorem Alike.follows_initialise {b b' : SourceBody} (h : b.Alike b') (params : Params) :
    Follows Alike (Hooks.initialise st ctx params b) (Hooks.initialise st' ctx' params b') := by
  change Follows Alike (initialise ctx params b) (initialise ctx' params b')
  have hvar (name : String) (wait : Bool) (scope scope' : Option ScopeId) :
      Follows Alike (initialise ctx params (.var name wait scope))
        (initialise ctx' params (.var name wait scope')) := by
    refine follows_ofExcept fun a ha => ?_
    cases hname : params.text "name" with
    | error e =>
        simp only [hname, bind, Except.bind] at ha
        cases ha
    | ok name =>
        cases hwait : params.bool "wait" with
        | error e =>
            simp only [hname, hwait, bind, Except.bind] at ha
            cases ha
        | ok wait =>
            simp only [hname, hwait, bind, Except.bind] at ha
            cases ha
            exact ⟨_, rfl, .var name wait _ _⟩
  cases h with
  | var name wait scope scope' => exact hvar name wait scope scope'
  | same b =>
      cases b with
      | var name wait scope => exact hvar name wait scope scope
      | _ => exact follows_self (.same _)

end SourceBody

/-! Sinks. -/

/-- A connection without the place of the flow that it comes from. -/
def Outflow.unplaced (o : Outflow) : Outflow := { o with flow := 0 }

/-- Sinks of a flow that differ at most in where they write a variable or what they feed is. -/
inductive SinkBody.Alike (owner : String) : SinkBody → SinkBody → Prop
  | same (b : SinkBody) (hfeeds : b.target? = Option.none) : Alike owner b b
  | var (name : String) (claimed : Bool) (scope scope' : Option ScopeId) :
      Alike owner (.var name claimed scope) (.var name claimed scope')
  | flow (target : String) (peer peer' : Option FlowId) (payload : Value) (onDemand : Bool) :
      Alike owner (.flow target owner peer payload onDemand) (.flow target owner peer' payload onDemand)

namespace SinkBody

theorem follows_attach (hctx : ctx.Alike st st' ctx') (b : SinkBody) :
    Follows (Alike ctx.flow) (Hooks.attach ctx b) (Hooks.attach ctx' b) := by
  change Follows _ (attach ctx b) (attach ctx' b)
  cases b with
  | flow target producer peer payload onDemand =>
      simp only [attach, hctx.flow]
      split
      · exact follows_fail
      · refine follows_ofExcept fun a ha => ?_
        cases hpeer : ctx.peer target with
        | error e =>
            rw [hpeer] at ha
            cases ha
        | ok found =>
            rw [hpeer] at ha
            cases ha
            obtain ⟨found', hfound', _⟩ := hctx.peer hpeer
            rw [hfound']
            exact ⟨_, rfl, .flow target _ _ payload onDemand⟩
  | recorder r =>
      simp only [attach, Recorder.attach, hctx.flow]
      exact follows_self (.same _ rfl)
  | _ => exact follows_self (.same _ rfl)

variable {owner : String} {b b' : SinkBody}

theorem Alike.schema (h : b.Alike owner b') : Hooks.schema b' = Hooks.schema b := by
  cases h <;> rfl

theorem Alike.follows_initialise (h : b.Alike owner b') (params : Params) :
    Follows (Alike owner) (Hooks.initialise st ctx params b)
      (Hooks.initialise st' ctx' params b') := by
  change Follows (Alike owner) (initialise ctx params b) (initialise ctx' params b')
  have hvar (name : String) (claimed : Bool) (scope scope' : Option ScopeId) :
      Follows (Alike owner) (initialise ctx params (.var name claimed scope))
        (initialise ctx' params (.var name claimed scope')) := by
    refine follows_ofExcept fun a ha => ?_
    cases hname : params.text "name" with
    | error e =>
        rw [hname] at ha
        cases ha
    | ok name =>
        rw [hname] at ha
        cases ha
        exact ⟨_, rfl, .var name claimed _ _⟩
  cases h with
  | var name claimed scope scope' => exact hvar name claimed scope scope'
  | flow target peer peer' payload onDemand => exact follows_pass (.flow target _ _ payload onDemand)
  | same b hfeeds =>
      cases b with
      | var name claimed scope => exact hvar name claimed scope scope
      | flow target producer peer payload onDemand => cases hfeeds
      | file path append =>
          refine follows_self (.same _ ?_)
          simp only [initialise]
          cases params.text "path" with
          | error e => rfl
          | ok path => cases (params.text "mode").bind fileMode <;> rfl
      | _ => exact follows_self (.same _ rfl)

theorem Alike.outflow? (h : b.Alike owner b') (f f' : FlowId) (seat : Seat) :
    (b'.outflow? f' seat).map Outflow.unplaced = (b.outflow? f seat).map Outflow.unplaced := by
  cases h with
  | var name claimed scope scope' => rfl
  | flow target peer peer' payload onDemand => rfl
  | same b hfeeds =>
      cases b with
      | flow target producer peer payload onDemand => cases hfeeds
      | _ => rfl

theorem Alike.producer (h : b.Alike owner b') {f : FlowId} {seat : Seat} {o : Outflow}
    (ho : b.outflow? f seat = some o) : o.producer = owner ∧ o.flow = f := by
  cases h with
  | var name claimed scope scope' => cases ho
  | flow target peer peer' payload onDemand =>
      cases ho
      exact ⟨rfl, rfl⟩
  | same b hfeeds =>
      cases b with
      | flow target producer peer payload onDemand => cases hfeeds
      | _ => cases ho

theorem Alike.onDemand (h : b.Alike owner b') : b.onDemand.Alike owner b'.onDemand := by
  cases h with
  | var name claimed scope scope' => exact .var name claimed scope scope'
  | flow target peer peer' payload onDemand => exact .flow target peer peer' payload true
  | same b hfeeds =>
      cases b with
      | flow target producer peer payload onDemand => cases hfeeds
      | _ => exact .same _ rfl

end SinkBody

/-! Operators. -/

/-- Operators that differ at most in where the flow is that they call, or that carry alike sinks. -/
inductive OperatorBody.Alike (ctx ctx' : Context) : OperatorBody → OperatorBody → Prop
  | same (b : OperatorBody) (hplain : b.tee? = none) : Alike ctx ctx' b b
  | call (mode : CallMode) (target : String) (callee callee' : Option FlowId) :
      Alike ctx ctx' (.call mode target callee) (.call mode target callee')
  | tee (sink sink' : Sink) (h : sink.Alike ctx ctx' (SinkBody.Alike ctx.flow) sink') :
      Alike ctx ctx' (.tee sink) (.tee sink')

namespace OperatorBody

theorem follows_attach (hctx : ctx.Alike st st' ctx') (b : OperatorBody) :
    Follows (Alike ctx ctx') (Hooks.attach ctx b) (Hooks.attach ctx' b) := by
  change Follows _ (attach ctx b) (attach ctx' b)
  cases b with
  | tee sink =>
      have hsink := Component.follows_setContext (SinkBody.follows_attach hctx sink.body)
      exact hsink.map fun sink sink' h => .tee sink sink' h
  | call mode target callee =>
      simp only [attach, hctx.flow]
      split
      · exact follows_fail
      · refine follows_ofExcept fun a ha => ?_
        cases hpeer : ctx.peer target with
        | error e =>
            simp only [hpeer, bind, Except.bind] at ha
            cases ha
        | ok found =>
            obtain ⟨found', hfound', hcallable⟩ := hctx.peer hpeer
            simp only [hpeer, hfound', hcallable, bind, Except.bind] at ha ⊢
            split at ha
            · next htrue =>
              cases ha
              exact ⟨_, if_pos htrue, .call mode target _ _⟩
            · cases ha
  | recorder r =>
      simp only [attach, Recorder.attach, hctx.flow]
      exact follows_self (.same _ rfl)
  | _ => exact follows_self (.same _ rfl)

variable {b b' : OperatorBody}

theorem Alike.schema (h : b.Alike ctx ctx' b') : Hooks.schema b' = Hooks.schema b := by
  cases h <;> rfl

theorem Alike.follows_initialise (h : b.Alike ctx ctx' b') (hctx : ctx.Alike st st' ctx')
    (params : Params) : Follows (Alike ctx ctx') (Hooks.initialise st ctx params b)
      (Hooks.initialise st' ctx' params b') := by
  change Follows (Alike ctx ctx') (initialise st params b) (initialise st' params b')
  cases h with
  | call mode target callee callee' => exact follows_pass (.call mode target callee callee')
  | tee sink sink' hsink =>
      have hsetUp := hsink.follows_setUp hctx hsink.body.schema fun params =>
        hsink.body.follows_initialise params
      exact hsetUp.map fun sink sink' h => .tee sink sink' h
  | same b hplain =>
      have hsame : initialise st' params b = initialise st params b := by
        cases b with
        | tee sink => cases hplain
        | _ => rfl
      rw [hsame]
      exact follows_self (.same _ (tee?_initialise hplain st params))

end OperatorBody

/-! Monitors. -/

namespace MonitorBody

theorem follows_attach (hctx : ctx.Alike st st' ctx') (b : MonitorBody) :
    Follows Eq (Hooks.attach ctx b) (Hooks.attach ctx' b) := by
  have hsame : Hooks.attach ctx' b = Hooks.attach ctx b := by
    change attach ctx' b = attach ctx b
    cases b with
    | recorder r => simp only [attach, Recorder.attach, hctx.flow]
    | _ => rfl
  rw [hsame]
  exact follows_self rfl

theorem follows_setUp {m m' : Monitor} (h : m.Alike ctx ctx' Eq m') (hctx : ctx.Alike st st' ctx') :
    Follows (Component.Alike ctx ctx' Eq) (m.setUp st) (m'.setUp st') := by
  refine h.follows_setUp hctx (by rw [h.body]) fun params => ?_
  rw [← h.body]
  exact follows_self rfl

end MonitorBody

/-! Pipelines. -/

/-- Pipelines whose sources, operators and sinks are related. -/
structure Pipeline.Related (S : Source → Source → Prop) (O : Operator → Operator → Prop)
    (K : Sink → Sink → Prop) (p p' : Pipeline) : Prop where
  source : S p.chain.source p'.chain.source
  operators : List.Forall₂ O p.chain.operators p'.chain.operators
  sink : K p.sink p'.sink

namespace Pipeline

variable {S : Source → Source → Prop} {O : Operator → Operator → Prop} {K : Sink → Sink → Prop}
  {p p' : Pipeline}

/-- A move of source, operators and sink, one after the other. -/
theorem follows_parts {f f' : Source → HookEnd Source}
    {g g' : List Operator → HookEnd (List Operator)} {k k' : Sink → HookEnd Sink}
    (hsource : Follows S (f p.chain.source) (f' p'.chain.source))
    (hoperators : Follows (List.Forall₂ O) (g p.chain.operators) (g' p'.chain.operators))
    (hsink : Follows K (k p.sink) (k' p'.sink)) :
    Follows (Related S O K) (((p.onSource f).andThen (onOperators g)).andThen (onSink k))
      (((p'.onSource f').andThen (onOperators g')).andThen (onSink k')) := by
  have hfirst : Follows (fun q q' => S q.chain.source q'.chain.source ∧
      (q.chain.operators = p.chain.operators ∧ q'.chain.operators = p'.chain.operators) ∧
      q.sink = p.sink ∧ q'.sink = p'.sink) (p.onSource f) (p'.onSource f') :=
    hsource.map fun source source' h => ⟨h, ⟨rfl, rfl⟩, rfl, rfl⟩
  have hsecond : Follows (fun q q' => S q.chain.source q'.chain.source ∧
      List.Forall₂ O q.chain.operators q'.chain.operators ∧ q.sink = p.sink ∧ q'.sink = p'.sink)
      ((p.onSource f).andThen (onOperators g)) ((p'.onSource f').andThen (onOperators g')) := by
    refine hfirst.andThen ?_
    rintro q q' ⟨hq, ⟨hops, hops'⟩, hkept, hkept'⟩
    rw [onOperators, onOperators, hops, hops']
    refine hoperators.map fun ops ops' h => ⟨hq, ?_, hkept, hkept'⟩
    rw [Holds.operators_withOperators, Holds.operators_withOperators]
    exact h
  refine hsecond.andThen ?_
  rintro q q' ⟨hq, hops, hkept, hkept'⟩
  rw [onSink, onSink, hkept, hkept']
  exact hsink.map fun sink sink' h => ⟨hq, hops, h⟩

/-- Pipelines whose parts are alike. -/
abbrev Alike (ctx ctx' : Context) : Pipeline → Pipeline → Prop :=
  Related (Component.Alike ctx ctx' SourceBody.Alike)
    (Component.Alike ctx ctx' (OperatorBody.Alike ctx ctx'))
    (Component.Alike ctx ctx' (SinkBody.Alike ctx.flow))

theorem follows_setContext (hctx : ctx.Alike st st' ctx') (p : Pipeline) :
    Follows (Alike ctx ctx') (p.setContext ctx) (p.setContext ctx') := by
  refine follows_parts (Component.follows_setContext (SourceBody.follows_attach hctx _)) ?_
    (Component.follows_setContext (SinkBody.follows_attach hctx _))
  refine follows_each (List.forall₂_same.mpr fun op _ => ?_)
  exact Component.follows_setContext (OperatorBody.follows_attach hctx op.body)

theorem Related.follows_setUp (h : p.Alike ctx ctx' p') (hctx : ctx.Alike st st' ctx') :
    Follows (Alike ctx ctx') (p.setUp st) (p'.setUp st') := by
  refine follows_parts (h.source.follows_setUp hctx h.source.body.schema
    fun params => h.source.body.follows_initialise params) ?_
    (h.sink.follows_setUp hctx h.sink.body.schema fun params => h.sink.body.follows_initialise params)
  refine follows_each (h.operators.imp fun op op' hop => ?_)
  exact hop.follows_setUp hctx hop.body.schema fun params => hop.body.follows_initialise hctx params

/-- What feeds a source decides nothing about whether it can be wired. -/
theorem Related.wire (h : p.Alike ctx ctx' p') {inflows inflows' : List Outflow}
    (hok : (p.wire inflows).result = .ok ()) : (p'.wire inflows').result = .ok () := by
  have hwire {q : Pipeline} {inflows : List Outflow} : (q.wire inflows).result =
      (q.chain.source.body.wire inflows).result := by
    unfold Pipeline.wire
    simp only [onSource, HookEnd.map]
    split <;> rfl
  rw [hwire] at hok ⊢
  have hbody := h.source.body
  generalize p.chain.source.body = b at hok hbody
  generalize p'.chain.source.body = b' at hbody ⊢
  cases hbody with
  | var name wait scope scope' => rfl
  | same b =>
      cases b with
      | recorder r =>
          simp only [SourceBody.wire] at hok ⊢
          cases hr : (r.hook .wire).result with
          | error e =>
              simp only [hr] at hok
              cases hok
          | ok u => rfl
      | _ => rfl

/-- The tees of alike chains have the same seats. -/
theorem seated_alike {ops ops' : List Operator}
    (h : List.Forall₂ (Component.Alike ctx ctx' (OperatorBody.Alike ctx ctx')) ops ops') (n : Nat) :
    List.Forall₂ (fun (x x' : Seat × Sink) => x'.1 = x.1 ∧
        x.2.Alike ctx ctx' (SinkBody.Alike ctx.flow) x'.2)
      ((ops.zipIdx n).filterMap fun (op, i) => op.body.tee?.map fun sink => (.tee i, sink))
      ((ops'.zipIdx n).filterMap fun (op, i) => op.body.tee?.map fun sink => (.tee i, sink)) := by
  induction h generalizing n with
  | nil => exact .nil
  | @cons op op' rest rest' hop _ ih =>
      have hbody := hop.body
      rw [List.zipIdx_cons, List.zipIdx_cons, List.filterMap_cons, List.filterMap_cons]
      dsimp only
      generalize op.body = b at hbody ⊢
      generalize op'.body = b' at hbody ⊢
      cases hbody with
      | tee sink sink' hsink => exact .cons ⟨rfl, hsink⟩ (ih (n + 1))
      | call mode target callee callee' => exact ih (n + 1)
      | same b hplain =>
          rw [hplain]
          exact ih (n + 1)

theorem Related.seats (h : p.Alike ctx ctx' p') :
    List.Forall₂ (fun (x x' : Seat × Sink) => x'.1 = x.1 ∧
        x.2.Alike ctx ctx' (SinkBody.Alike ctx.flow) x'.2)
      (seatedTees p.chain ++ [(Seat.terminal, p.sink)])
      (seatedTees p'.chain ++ [(Seat.terminal, p'.sink)]) :=
  List.rel_append (seated_alike h.operators 0) (.cons ⟨rfl, h.sink⟩ .nil)

/-- Alike pipelines have the same connections to other flows. -/
theorem Related.outflows (h : p.Alike ctx ctx' p') (f f' : FlowId) :
    (p'.outflows f').map Outflow.unplaced = (p.outflows f).map Outflow.unplaced := by
  have hseats := h.seats
  simp only [Pipeline.outflows]
  generalize seatedTees p.chain ++ [(Seat.terminal, p.sink)] = seats at hseats ⊢
  generalize seatedTees p'.chain ++ [(Seat.terminal, p'.sink)] = seats' at hseats ⊢
  rw [List.map_filterMap, List.map_filterMap]
  induction hseats with
  | nil => rfl
  | @cons x x' rest rest' hx _ ih =>
      rw [List.filterMap_cons, List.filterMap_cons, ih, hx.1, hx.2.body.outflow? f f' x.1]

/-- The connections of a flow say where it is and what its name is. -/
theorem Related.producer (h : p.Alike ctx ctx' p') {f : FlowId} {o : Outflow}
    (ho : o ∈ p.outflows f) : o.producer = ctx.flow ∧ o.flow = f := by
  obtain ⟨x, hx, hout⟩ := List.mem_filterMap.mp ho
  obtain ⟨i, hi, rfl⟩ := List.getElem_of_mem hx
  have hseat := h.seats.get hi (h.seats.length_eq ▸ hi)
  exact hseat.2.body.producer hout

end Pipeline
end PullFlow
