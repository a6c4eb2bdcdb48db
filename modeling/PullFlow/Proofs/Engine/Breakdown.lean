import PullFlow.Proofs.Binding
import PullFlow.Proofs.Engine.Acceptance
import PullFlow.Proofs.Resolution

/-!
What a set-up breaks down over. Of all the hooks only those of the operators and monitors that wait
take durations, and they take them from bound parameters. So the one failure that no handler may
catch ends a set-up only if one of these components is given more seconds than can be told.
-/

namespace PullFlow

/-! ### Hooks -/

namespace HookEnd

variable {α β γ : Type} {h : HookEnd β} {body : β}

theorem catchable_ofExcept {r : Except Error β} (h : Catchable r) :
    Catchable (HookEnd.ofExcept body r).result :=
  catchable_iff_avoids.mpr (avoids_ofExcept (catchable_iff_avoids.mp h))

theorem catchable_andThen {f : β → HookEnd β} (h₁ : Catchable h.result)
    (hf : h.result = .ok () → Catchable (f h.body).result) : Catchable (h.andThen f).result := by
  unfold andThen
  cases hr : h.result with
  | ok u => exact hf hr
  | error e =>
      dsimp only
      rw [hr]
      exact h₁.error hr

theorem catchable_each {f : β → HookEnd β} {items : List β}
    (h : ∀ b ∈ items, Catchable (f b).result) : Catchable (HookEnd.each f items).result := by
  induction items with
  | nil => exact catchable_ok _
  | cons b items ih =>
      rw [List.forall_mem_cons] at h
      unfold each
      dsimp only
      cases hr : (f b).result with
      | ok u => exact ih h.2
      | error e => exact h.1.error hr

theorem catchable_toExcept (h₁ : Catchable h.result) : Catchable h.toExcept := by
  unfold toExcept
  cases hr : h.result with
  | ok u => exact catchable_ok _
  | error e => exact h₁.error hr

end HookEnd

theorem Error.ne_overflow_of_raised {e : Error} (h : e.Raised) : e ≠ .overflow := by
  rintro rfl
  exact h

theorem Recorder.catchable_hook (r : Recorder) (name : HookName) : Catchable (r.hook name).result :=
  catchable_iff_avoids.mpr (r.avoids_hook (fun _ => Error.ne_overflow_of_raised) name)

/-! ### Parameters and scopes -/

theorem Error.beyond_overflow : Beyond (· = overflow) where
  undefinedKey _ := by simp
  configuration _ := by simp

namespace Scope.Store

variable {st : Store} {s : ScopeId}

theorem catchable_owner (names : List String) : Catchable (st.owner s names) := by
  induction names generalizing s with
  | nil => exact catchable_error.mpr (by simp)
  | cons name rest ih =>
      cases rest with
      | nil => exact catchable_ok _
      | cons next rest =>
          unfold owner
          split
          · exact ih
          · exact catchable_error.mpr (by simp)

theorem catchable_claimName (root : ScopeId) (name : String) :
    Catchable (st.claimName root name) := by
  unfold claimName set
  refine Catchable.bind ((catchable_owner _).bind fun slot _ => ?_) fun claimed _ => ?_
  · dsimp only
    split <;> exact catchable_ok _
  · dsimp only
    split
    · exact catchable_ok _
    · exact catchable_error.mpr (by simp)

end Scope.Store

theorem Context.catchable_peer (ctx : Context) (name : String) : Catchable (ctx.peer name) :=
  catchable_iff_avoids.mpr (Error.beyond_overflow.peer ctx name)

/-! ### Components -/

namespace Component

variable {β : Type} {c : Component β} {ctx : Context} {st : Scope.Store}

theorem catchable_after {h : HookEnd β} {stage : Stage} {context : Option Context}
    (hr : Catchable h.result) : Catchable (c.after h stage context).result := by
  rwa [after_result]

theorem catchable_expect (stage : Stage) : Catchable (c.expect stage) := by
  unfold expect
  split
  · exact catchable_ok _
  · exact catchable_error.mpr (by simp)

variable [Hooks β]

/-- A component is given more seconds for one of its parameters than can be told. -/
def Overlong (st : Scope.Store) (c : Component β) : Prop :=
  ∃ ctx ∈ c.context, ∃ args ∈ (c.arguments.args.mapM (ctx.resolve st)).toOption,
    ∃ named ∈ (ctx.resolveNamed st c.arguments.named).toOption,
      Schema.Overlong (Hooks.schema c.body).specs args named

instance : Decidable (c.Overlong st) :=
  inferInstanceAs (Decidable (∃ ctx ∈ c.context,
    ∃ args ∈ (c.arguments.args.mapM (ctx.resolve st)).toOption,
      ∃ named ∈ (ctx.resolveNamed st c.arguments.named).toOption,
        Schema.Overlong (Hooks.schema c.body).specs args named))

theorem catchable_setContext (h : Catchable (Hooks.attach ctx c.body).result) :
    Catchable (c.setContext ctx).result := by
  unfold setContext
  cases hstage : c.expect .created with
  | ok u => exact catchable_after h
  | error e => exact (catchable_expect .created).error hstage

theorem catchable_bound (hcontext : c.context = some ctx) (h : ¬ c.Overlong st) :
    Catchable (c.bound st ctx) := by
  have hresolve (p : Param) : Catchable (ctx.resolve st p) :=
    catchable_iff_avoids.mpr (Error.beyond_overflow.resolve st ctx p)
  have hresolveNamed (fields : List (String × Param)) : Catchable (ctx.resolveNamed st fields) :=
    catchable_iff_avoids.mpr (Error.beyond_overflow.resolveNamed st ctx fields)
  refine (Catchable.mapM fun p _ => hresolve p).bind fun args hargs => ?_
  refine (hresolveNamed _).bind fun named hnamed => ?_
  refine Schema.catchable_bind fun hover => h ⟨ctx, hcontext, args, ?_, named, ?_, hover⟩
  · rw [hargs]
    rfl
  · rw [hnamed]
    rfl

theorem catchable_setUp (h : ¬ c.Overlong st)
    (hinitialise : ∀ ctx params args named,
      (Hooks.schema c.body).bind c.kind args named = .ok params →
      Catchable (Hooks.initialise st ctx params c.body).result) :
    Catchable (c.setUp st).result := by
  unfold setUp
  cases hstage : c.expect .contextualized with
  | error e => exact (catchable_expect .contextualized).error hstage
  | ok u =>
      cases hcontext : c.context with
      | none => exact catchable_error.mpr (by simp)
      | some ctx =>
          dsimp only
          cases hbound : c.bound st ctx with
          | error e => exact (catchable_bound hcontext h).error hbound
          | ok params =>
              obtain ⟨args, _, hbound⟩ := bind_eq_ok.mp hbound
              obtain ⟨named, _, hbound⟩ := bind_eq_ok.mp hbound
              exact catchable_after (hinitialise ctx params args named hbound)

end Component

/-! ### Sources and sinks -/

/-- Nothing is too long for parameters that take no durations. -/
theorem Schema.not_overlong {specs : List ParamSpec} {args : List Value}
    {named : List (String × Value)} (h : ∀ spec ∈ specs, spec.kind ≠ .duration) :
    ¬ Overlong specs args named := by
  intro hlong
  obtain ⟨i, spec, v, hspec, hkind, -⟩ := overlong_iff.mp hlong
  exact h spec (List.mem_of_getElem? hspec) hkind

theorem Component.not_overlong {β : Type} [Hooks β] {c : Component β} {st : Scope.Store}
    (h : ∀ spec ∈ (Hooks.schema c.body).specs, spec.kind ≠ .duration) : ¬ c.Overlong st := by
  rintro ⟨_, -, args, -, named, -, hlong⟩
  exact Schema.not_overlong h hlong

namespace Schema

variable {s : Schema} {p : Params} {component : String} {args : List Value}
  {named : List (String × Value)}

/-- Only durations can be too long. -/
theorem spares_overflow (h : ∀ key, s.Declares key .duration →
    Catchable (p.duration key) ∧ Catchable (p.duration? key)) : s.Spares p (· = .overflow) :=
  Error.beyond_overflow.spares (fun _ => Error.ne_overflow_of_raised) fun key hkey =>
    (h key hkey).imp catchable_iff_avoids.mp catchable_iff_avoids.mp

theorem spares_of_timeless (h : ∀ spec ∈ s.specs, spec.kind ≠ .duration) :
    s.Spares p (· = .overflow) :=
  spares_overflow fun _ ⟨_, hspec⟩ => absurd rfl (h _ hspec)

theorem spares_of_lasting (hbind : s.bind component args named = .ok p)
    (h : ∀ key, s.Declares key .duration → s.Lasting key) : s.Spares p (· = .overflow) :=
  spares_overflow fun key hkey =>
    ⟨catchable_duration hbind (h key hkey), catchable_duration? hbind (h key hkey)⟩

end Schema

namespace SourceBody

variable {b : SourceBody} {ctx : Context} {p : Params}

theorem timeless : ∀ spec ∈ (schema b).specs, spec.kind ≠ .duration := by
  cases b with
  | script _ _ parameters =>
      cases parameters <;> simp [schema, Schema.empty, Schema.required, Schema.optional]
  | _ => simp [schema, Recorder.schema, Schema.empty, Schema.anyNumber, Schema.required,
      Schema.optional]

theorem catchable_attach : Catchable (attach ctx b).result := by
  cases b with
  | recorder r => exact Recorder.catchable_hook _ _
  | _ => exact catchable_ok _

theorem catchable_wire (inflows : List Outflow) : Catchable (b.wire inflows).result := by
  cases b with
  | recorder r =>
      unfold wire
      dsimp only
      cases hr : (r.hook .wire).result with
      | ok u => exact catchable_ok _
      | error e => exact (r.catchable_hook .wire).error hr
  | _ => exact catchable_ok _

theorem catchable_initialise : Catchable (initialise ctx p b).result :=
  catchable_iff_avoids.mpr (avoids_initialise (Schema.spares_of_timeless timeless))

end SourceBody

namespace SinkBody

variable {b : SinkBody} {ctx : Context} {p : Params}

theorem timeless : ∀ spec ∈ (schema b).specs, spec.kind ≠ .duration := by
  cases b <;> simp [schema, Recorder.schema, Schema.empty, Schema.required, Schema.optional]

theorem catchable_attach : Catchable (attach ctx b).result :=
  catchable_iff_avoids.mpr
    (Error.beyond_overflow.sink_attach (fun _ => Error.ne_overflow_of_raised) ctx b)

theorem catchable_initialise : Catchable (initialise ctx p b).result :=
  catchable_iff_avoids.mpr (avoids_initialise (Schema.spares_of_timeless timeless))

theorem catchable_setUp (st : Scope.Store) (sink : Sink) : Catchable (sink.setUp st).result :=
  Component.catchable_setUp (Component.not_overlong timeless) fun _ _ _ _ _ => catchable_initialise

end SinkBody

namespace OperatorBody

variable {b : OperatorBody} {ctx : Context} {st : Scope.Store} {p : Params} {args : List Value}
  {named : List (String × Value)} {kind : String}

theorem catchable_attach : Catchable (attach ctx b).result := by
  cases b with
  | tee sink => exact Component.catchable_setContext (c := sink) SinkBody.catchable_attach
  | call mode target _ =>
      unfold attach
      dsimp only
      split
      · exact catchable_error.mpr (by simp)
      · refine HookEnd.catchable_ofExcept ((ctx.catchable_peer target).bind fun peer _ => ?_)
        split
        · exact catchable_ok _
        · exact catchable_error.mpr (by simp)
  | recorder r => exact Recorder.catchable_hook _ _
  | _ => exact catchable_ok _

/-- The delays that are waited by default can be told. -/
theorem lasting_delay (name : String) :
    (Schema.empty.optional "delay" .duration durationSpec).Lasting name :=
  (Schema.lasting_empty name).optional fun _ => ⟨rfl, by decide +kernel⟩

theorem lasting_smooth (s : Steady) (name : String) : (schema (smooth s)).Lasting name :=
  ((lasting_delay name).optional fun _ => ⟨rfl, by decide +kernel⟩).optional
    fun _ => ⟨rfl, by decide +kernel⟩

theorem lasting_of_declares {key : String} (h : (schema b).Declares key .duration) :
    (schema b).Lasting key := by
  cases b with
  | apply f => cases f <;> simp [schema] at h
  | cached _ _ => exact lasting_delay key
  | smooth s => exact lasting_smooth s key
  | _ => simp [schema, Recorder.schema] at h

theorem catchable_initialise (hbind : (schema b).bind kind args named = .ok p) :
    Catchable (initialise st p b).result := by
  have hspares := Schema.spares_of_lasting hbind fun _ => lasting_of_declares
  exact catchable_iff_avoids.mpr (avoids_initialise hspares fun sink _ =>
    catchable_iff_avoids.mp (SinkBody.catchable_setUp st sink))

theorem catchable_setUp {op : Operator} (h : ¬ op.Overlong st) : Catchable (op.setUp st).result :=
  Component.catchable_setUp h fun _ _ _ _ hbind => catchable_initialise hbind

end OperatorBody

namespace MonitorBody

variable {b : MonitorBody} {ctx : Context} {st : Scope.Store} {p : Params} {args : List Value}
  {named : List (String × Value)} {kind : String}

theorem catchable_attach : Catchable (attach ctx b).result := by
  cases b with
  | recorder r => exact Recorder.catchable_hook _ _
  | _ => exact catchable_ok _

theorem lasting_sleep {seconds : Float} (h : ¬ Duration.TooLong (.float seconds)) (name : String) :
    (sleepSchema seconds).Lasting name :=
  (Schema.lasting_empty name).optional fun _ => ⟨rfl, h⟩

theorem lasting_interval (sleep : Duration) (exits : List ExitCondition) :
    (schema (interval sleep exits)).Lasting "sleep" := by
  have hsleep : (sleepSchema 1.0).Lasting "sleep" := lasting_sleep (by decide +kernel) "sleep"
  exact ((hsleep.other (by decide)).other (by decide)).other (by decide)

theorem lasting_onValue (target : Value) (always : Bool) (sleep : Duration) (matching : Bool) :
    (schema (onValue target always sleep matching)).Lasting "sleep" :=
  (((Schema.lasting_empty "sleep").required fun h => absurd h (by decide)).other
    (by decide)).optional fun _ => ⟨rfl, by decide +kernel⟩

theorem lasting_of_declares {key : String} (h : (schema b).Declares key .duration) :
    (schema b).Lasting key := by
  cases b with
  | interval sleep exits =>
      obtain rfl : key = "sleep" := by simpa [schema, ExitCondition.schema, sleepSchema] using h
      exact lasting_interval sleep exits
  | onValue target always sleep matching =>
      obtain rfl : key = "sleep" := by simpa [schema] using h
      exact lasting_onValue target always sleep matching
  | change _ _ | onDemand _ => exact lasting_sleep (by decide +kernel) key
  | _ => simp [schema, Recorder.schema] at h

theorem catchable_initialise (hbind : (schema b).bind kind args named = .ok p) :
    Catchable (initialise p b).result :=
  catchable_iff_avoids.mpr (avoids_initialise
    (Schema.spares_of_lasting hbind fun _ => lasting_of_declares))

theorem catchable_setUp {m : Monitor} (h : ¬ m.Overlong st) : Catchable (m.setUp st).result :=
  Component.catchable_setUp h fun _ _ _ _ hbind => catchable_initialise hbind

end MonitorBody

/-! ### Flows -/

namespace Pipeline

variable {p : Pipeline} {ctx : Context} {st : Scope.Store}

theorem catchable_setContext : Catchable (p.setContext ctx).result := by
  refine HookEnd.catchable_andThen (HookEnd.catchable_andThen ?_ fun _ => ?_) fun _ => ?_
  · exact Component.catchable_setContext (c := p.chain.source) SourceBody.catchable_attach
  · exact HookEnd.catchable_each fun op _ =>
      Component.catchable_setContext (c := op) OperatorBody.catchable_attach
  · exact Component.catchable_setContext (β := SinkBody) SinkBody.catchable_attach

theorem catchable_setUp (h : ∀ op ∈ p.chain.operators, ¬ op.Overlong st) :
    Catchable (p.setUp st).result := by
  refine HookEnd.catchable_andThen (HookEnd.catchable_andThen ?_ fun _ => ?_) fun _ => ?_
  · exact Component.catchable_setUp (c := p.chain.source)
      (Component.not_overlong SourceBody.timeless) fun _ _ _ _ _ => SourceBody.catchable_initialise
  · exact HookEnd.catchable_each fun op hop => OperatorBody.catchable_setUp (h op hop)
  · exact SinkBody.catchable_setUp st _

theorem catchable_wire (inflows : List Outflow) : Catchable (p.wire inflows).result := by
  have hsource := SourceBody.catchable_wire (b := p.chain.source.body) inflows
  unfold wire
  dsimp only
  split <;> exact hsource

end Pipeline

namespace Engine

variable {cell : FlowCell} {cells : List FlowCell} {ctx : Context} {st : Scope.Store}

namespace FlowCell

/-- A component of a flow is given more seconds for one of its parameters than can be told. -/
def Overlong (st : Scope.Store) (cell : FlowCell) : Prop :=
  (∃ op ∈ cell.pipeline.chain.operators, op.Overlong st) ∨ ∃ m ∈ cell.parked, m.Overlong st

instance : Decidable (cell.Overlong st) :=
  inferInstanceAs (Decidable ((∃ op ∈ cell.pipeline.chain.operators, op.Overlong st) ∨
    ∃ m ∈ cell.parked, m.Overlong st))

theorem catchable_attach : Catchable (cell.attach ctx).result := by
  refine HookEnd.catchable_andThen Pipeline.catchable_setContext fun _ => ?_
  unfold World.attachMonitor
  split
  · exact catchable_ok _
  · exact Component.catchable_setContext (β := MonitorBody) MonitorBody.catchable_attach

theorem catchable_setUp (h : ¬ cell.Overlong st) : Catchable (cell.setUp st).result := by
  have hpipeline : Catchable (cell.pipeline.setUp st).result :=
    Pipeline.catchable_setUp fun op hop hlong => h (.inl ⟨op, hop, hlong⟩)
  refine HookEnd.catchable_andThen hpipeline fun _ => ?_
  unfold World.prepareMonitor
  split
  · exact catchable_ok _
  · next m hm => exact MonitorBody.catchable_setUp fun hlong => h (.inr ⟨m, hm, hlong⟩)

end FlowCell

namespace World

/-- A pass fails in no way beyond handling if it handles no flow in such a way. -/
theorem Pass.catchable_all {P : Pass} (Kept : Scope.Store → Prop) (hst : Kept st)
    (hkept : ∀ {st cell made}, Kept st → P.one st cell = .ok made → Kept made.1)
    (h : ∀ st, Kept st → ∀ cell ∈ cells, Catchable (P.one st cell)) :
    Catchable (P.all st cells) := by
  induction cells generalizing st with
  | nil => exact catchable_ok _
  | cons cell rest ih =>
      refine (h st hst cell List.mem_cons_self).bind fun made hmade => ?_
      refine Catchable.bind ?_ fun _ _ => catchable_ok _
      exact ih (hkept hst hmade) fun st hst cell hcell =>
        h st hst cell (List.mem_cons_of_mem _ hcell)

/-- Once the flows of a set have their scopes, a component is given more seconds for one of its
parameters than can be told. -/
def Overlong (w : World) : Prop :=
  ∃ made ∈ ((contextPass w.root w.directory).all w.scopes w.flows).toOption,
    ∃ cell ∈ made.2, cell.Overlong made.1

variable {w w₁ : World} {out : Outcome}

instance : Decidable w.Overlong :=
  inferInstanceAs (Decidable (∃ made ∈
    ((contextPass w.root w.directory).all w.scopes w.flows).toOption,
      ∃ cell ∈ made.2, cell.Overlong made.1))

theorem catchable_setUp (h : ¬ w.Overlong) : Catchable w.setUp := by
  refine Catchable.bind ?_ fun made hmade => ?_
  · refine Pass.catchable_all (fun _ => True) trivial (fun _ _ => trivial) fun st _ cell _ => ?_
    exact (Scope.Store.catchable_claimName _ _).bind fun _ _ =>
      (HookEnd.catchable_toExcept FlowCell.catchable_attach).bind fun _ _ => catchable_ok _
  obtain ⟨st, cells⟩ := made
  refine Catchable.bind ?_ fun made _ => ?_
  · refine Pass.catchable_all (· = st) rfl (fun hst hone => ?_) fun st' hst cell hcell => ?_
    · rw [(preparePass_eq_ok.mp hone).1]
      exact hst
    · subst hst
      refine Catchable.map (HookEnd.catchable_toExcept (FlowCell.catchable_setUp ?_)) _
      refine fun hlong => h ⟨(st', cells), ?_, cell, hcell, hlong⟩
      rw [hmade]
      rfl
  · refine Pass.catchable_all (fun _ => True) trivial (fun _ _ => trivial) fun st _ cell _ => ?_
    have hwire : Catchable (cell.onPipeline (Pipeline.wire (inflowsOf cell.name
        (outflowsFrom 0 made.2)))).result := Pipeline.catchable_wire _
    exact (HookEnd.catchable_toExcept hwire).map _

/-- A set-up by itself ends as its passes do. -/
theorem Idle.exists_setsUp (h : w.Idle .init) :
    ∃ w₁, SetsUp w w₁ (w.setUp.map fun _ => .null) := by
  have hyields := h.yields_setUp
  cases hmade : w.setUp with
  | error e =>
      rw [hmade] at hyields
      obtain ⟨w₁, hyields⟩ := hyields
      obtain ⟨w₂, hsets, _⟩ := setsUp_of_yields hyields
      exact ⟨w₂, hsets⟩
  | ok made =>
      rw [hmade] at hyields
      obtain ⟨w₁, hyields, -⟩ := hyields
      obtain ⟨w₂, hsets, _⟩ := setsUp_of_yields hyields
      exact ⟨w₂, hsets⟩

theorem Idle.breaks_down (h : w.Idle .init) (hsetUp : w.setUp = .error .overflow) :
    ∃ w₁, SetsUp w w₁ (.error .overflow) := by
  have hends := h.exists_setsUp
  rwa [hsetUp] at hends

/-- A set-up by itself breaks down over nothing but seconds that cannot be told. -/
theorem Idle.catchable_of_setsUp (hidle : w.Idle .init) (hsets : SetsUp w w₁ out)
    (h : ¬ w.Overlong) : Catchable out := by
  obtain ⟨w₂, hsets'⟩ := hidle.exists_setsUp
  rw [← (hsets.unique hsets').2]
  exact (catchable_setUp h).map _

/-- Durations break nothing down but by more seconds than can be told: not when they are read from a
text or a value, bound, or asked for, and not the set-up of a document. -/
theorem catchable_unless_overlong (s : String) (v : Value) (schema : Schema)
    (fresh : Nat → String) (d : Blueprint.Document) (start : World) :
    ((Duration.parse s = .error .overflow ↔ Duration.TooLong (.text s)) ∧
      (¬ Duration.TooLong (.text s) → Duration.Answered (Duration.parse s))) ∧
    ((Duration.ofValue v = .error .overflow ↔ Duration.TooLong v) ∧
      (¬ Duration.TooLong v → Duration.Answered (Duration.ofValue v))) ∧
    (∀ component args named, ¬ Schema.Overlong schema.specs args named →
      Catchable (schema.bind component args named)) ∧
    (∀ component args named p name, schema.bind component args named = .ok p →
      schema.Lasting name → Catchable (p.duration name) ∧ Catchable (p.duration? name)) ∧
    ((Fields.keys d.globals).Nodup → ofDocument Catalog.registry fresh d [] = .ok start →
      ¬ start.Overlong →
      (∃ w out, SetsUp start w out) ∧ ∀ w out, SetsUp start w out → Catchable out) := by
  refine ⟨⟨Duration.parse_eq_overflow_iff, Duration.ofValue_answered⟩,
    ⟨Duration.ofValue_eq_overflow_iff, Duration.ofValue_answered⟩,
    fun component args named => Schema.catchable_bind,
    fun component args named p name hbind hlasting =>
      ⟨Schema.catchable_duration hbind hlasting, Schema.catchable_duration? hbind hlasting⟩,
    fun hglobals hmade hlong => ?_⟩
  have hidle := idle_of_ofDocument hmade hglobals
  exact ⟨hidle.exists_setsUp.imp fun w hsets => ⟨_, hsets⟩,
    fun w out hsets => hidle.catchable_of_setsUp hsets hlong⟩

/-- A flow that reads a cached value at intervals. -/
def patientDocument (delay sleep : String) : Blueprint.Document :=
  ⟨[⟨some "f", some (.bare "bool.true"),
      [.operator ⟨"cached", none, [.literal (.text delay)], []⟩], some (.bare "none"),
      some ⟨"interval", none, [.literal (.text sleep)], []⟩⟩], []⟩

theorem exists_of_mem_toOption {α : Type} {made : Except Error α} {q : α → Prop}
    (h : ∃ a ∈ made.toOption, q a) : ∃ a, made = .ok a ∧ q a := by
  obtain ⟨a, ha, hq⟩ := h
  cases made with
  | error e => cases ha
  | ok made =>
      cases ha
      exact ⟨_, rfl, hq⟩

/-- An hour and a quarter of a second are no breakdown. -/
theorem patient_endures : Duration.Answered (Duration.parse "1h") ∧
    Duration.Answered (Duration.ofValue (.float 0.25)) ∧
    (∃ p, (MonitorBody.schema (.onDemand ⟨0⟩)).bind "on_demand" [.text "1h"] [] = .ok p ∧
      Catchable (p.duration "sleep")) ∧
    ∃ start w out, ofDocument Catalog.registry (fun _ => "") (patientDocument "1h" "250ms") [] =
      .ok start ∧ SetsUp start w out ∧ Catchable out := by
  have hbuilt : ∃ start ∈ (ofDocument Catalog.registry (fun _ => "")
      (patientDocument "1h" "250ms") []).toOption, ¬ start.Overlong := by decide +kernel
  obtain ⟨start, hmade, hshort⟩ := exists_of_mem_toOption hbuilt
  have hbound : ((MonitorBody.schema (.onDemand ⟨0⟩)).bind "on_demand" [.text "1h"]
      []).toOption.isSome = true := by decide +kernel
  obtain ⟨p, hp⟩ := exists_of_isSome hbound
  obtain ⟨htext, hvalue, -, hget, hset⟩ := catchable_unless_overlong "1h" (.float 0.25)
    (MonitorBody.schema (.onDemand ⟨0⟩)) (fun _ => "") (patientDocument "1h" "250ms") start
  have hasked := hget _ _ _ p "sleep" hp (MonitorBody.lasting_sleep (by decide +kernel) _)
  obtain ⟨⟨w, out, hsets⟩, hcaught⟩ := hset (by decide) hmade hshort
  exact ⟨htext.2 (by decide +kernel), hvalue.2 (by decide +kernel), ⟨p, hp, hasked.1⟩,
    start, w, out, hmade, hsets, hcaught w out hsets⟩

/-- A delay of `1e20` seconds is neither a duration nor an error, and ends the set-up. -/
theorem endless_delay_breaks_down : ¬ Duration.Answered (Duration.parse "1e20") ∧
    ∃ start w, ofDocument Catalog.registry (fun _ => "") (patientDocument "1e20" "250ms") [] =
      .ok start ∧ SetsUp start w (.error .overflow) := by
  have hlong : Duration.TooLong (.text "1e20") := by decide +kernel
  have hover := Duration.parse_eq_overflow_iff.mpr hlong
  refine ⟨?_, ?_⟩
  · rw [hover]
    rintro (⟨d, hd⟩ | ⟨m, hm⟩)
    · cases hd
    · cases hm
  · have hbuilt : ∃ start ∈ (ofDocument Catalog.registry (fun _ => "")
        (patientDocument "1e20" "250ms") []).toOption, ¬ Catchable start.setUp := by decide +kernel
    obtain ⟨start, hmade, hbroken⟩ := exists_of_mem_toOption hbuilt
    obtain ⟨w, hsets⟩ := (idle_of_ofDocument hmade (by decide)).breaks_down (not_not.mp hbroken)
    exact ⟨start, w, hmade, hsets⟩

end World

end Engine

end PullFlow
