import PullFlow.Proofs.Duration
import PullFlow.Proofs.Initialise

/-!
What looking up names and binding arguments fail with: a name that is not there, an argument that
cannot be used, or more seconds than can be told. A sort of errors with none of these is never what
a lookup, a getter or a binding comes to; nor is it what a hook that initialises comes to, unless
hooks raise such errors themselves.
-/

namespace PullFlow

/-- A sort of errors with none over the names and arguments that a component is given. -/
structure Beyond (bad : Error → Prop) : Prop where
  undefinedKey : ∀ key, ¬ bad (.undefinedKey key)
  configuration : ∀ misuse, ¬ bad (.configuration misuse)

namespace Beyond

variable {bad : Error → Prop} (h : Beyond bad)
include h

/-! ### Names -/

theorem getValue (st : Scope.Store) (s : ScopeId) (key : String) :
    Avoids bad (st.getValue s key) := by
  unfold Scope.Store.getValue Scope.Store.get
  cases st.find? s (Scope.path key) with
  | none => exact avoids_error.mpr (h.undefinedKey key)
  | some e =>
      cases e with
      | value v => exact avoids_ok v
      | scope t => exact avoids_error.mpr (h.configuration _)

theorem peer (ctx : Context) (name : String) : Avoids bad (ctx.peer name) := by
  unfold Context.peer
  split
  · exact avoids_ok _
  · exact avoids_error.mpr (h.configuration _)

theorem resolve (st : Scope.Store) (ctx : Context) (p : Param) : Avoids bad (ctx.resolve st p) := by
  cases p with
  | var key => exact h.getValue st _ key
  | flow name => exact avoids_map_iff.mpr (h.peer ctx name)
  | literal v => exact avoids_ok v

theorem resolveNamed (st : Scope.Store) (ctx : Context) (fields : List (String × Param)) :
    Avoids bad (ctx.resolveNamed st fields) := by
  induction fields with
  | nil => exact avoids_ok _
  | cons f rest ih => exact (h.resolve st ctx f.2).bind fun _ _ => ih.bind fun _ _ => avoids_ok _

/-! ### Parameters -/

theorem require (p : Params) (name : String) : Avoids bad (p.require name) := by
  unfold Params.require
  split
  · exact avoids_ok _
  · exact avoids_error.mpr (h.configuration _)

/-- Where the durations that are declared can be asked for, nothing else that a hook asks for or
raises over it is of the sort. -/
theorem spares {s : Schema} {p : Params} (hraised : ∀ e : Error, e.Raised → ¬ bad e)
    (hduration : ∀ key, s.Declares key .duration →
      Avoids bad (p.duration key) ∧ Avoids bad (p.duration? key)) : s.Spares p bad where
  asks key kind hkey := by
    cases kind with
    | any => exact avoids_map_iff.mpr (h.require p key)
    | text => exact avoids_map_iff.mpr (avoids_map_iff.mpr (h.require p key))
    | duration => exact avoids_map_iff.mpr (hduration key hkey).1
    | int | float | bool =>
        refine avoids_map_iff.mpr ((h.require p key).bind fun v _ => ?_)
        split
        · exact avoids_ok _
        · exact avoids_error.mpr (h.configuration _)
  asks? key hkey := (hduration key hkey).2
  raised := hraised

theorem sink_attach (hraised : ∀ e : Error, e.Raised → ¬ bad e) (ctx : Context) (b : SinkBody) :
    Avoids bad (SinkBody.attach ctx b).result := by
  cases b with
  | flow target _ _ _ _ =>
      unfold SinkBody.attach
      dsimp only
      split
      · exact avoids_error.mpr (h.configuration _)
      · exact HookEnd.avoids_ofExcept (avoids_map_iff.mpr (h.peer ctx target))
  | recorder r => exact Recorder.avoids_hook hraised _ _
  | _ => exact avoids_ok _

section Binding

variable (hover : ¬ bad .overflow)
include hover

theorem ofValue (v : Value) : Avoids bad (Duration.ofValue v) := by
  rcases Duration.ofValue_result v with ⟨-, d, hd, -⟩ | ⟨-, m, hm⟩ | ⟨-, hlong⟩
  · rw [hd]
    exact avoids_ok d
  · rw [hm]
    exact avoids_error.mpr (h.configuration m)
  · rw [hlong]
    exact avoids_error.mpr hover

theorem durations (p : Params) (key : String) :
    Avoids bad (p.duration key) ∧ Avoids bad (p.duration? key) := by
  refine ⟨(h.require p key).bind fun v _ => h.ofValue hover v, ?_⟩
  unfold Params.duration?
  split
  · exact avoids_map_iff.mpr (h.ofValue hover _)
  · exact avoids_ok _

theorem coerce (component : String) (spec : ParamSpec) (v : Value) :
    Avoids bad (ParamKind.coerce component spec v) := by
  unfold ParamKind.coerce
  dsimp only
  split
  · exact avoids_ok _
  · cases spec.kind with
    | any => exact avoids_ok v
    | text =>
        cases v with
        | text _ | number _ | bool _ => exact avoids_ok _
        | null | list _ | object _ => exact avoids_error.mpr (h.configuration _)
    | duration =>
        dsimp only
        split
        · exact avoids_ok _
        · exact avoids_error.mpr hover
        · exact avoids_error.mpr (h.configuration _)
    | int | float | bool =>
        dsimp only
        split
        · exact avoids_ok _
        · exact avoids_error.mpr (h.configuration _)

theorem bindOne (component : String) (spec : ParamSpec) (args : List Value)
    (named : List (String × Value)) : Avoids bad (Schema.bindOne component spec args named) := by
  unfold Schema.bindOne
  cases args with
  | cons v args =>
      dsimp only
      split
      · exact avoids_error.mpr (h.configuration _)
      · exact avoids_map_iff.mpr (h.coerce hover component spec v)
  | nil =>
      dsimp only
      split
      · exact avoids_map_iff.mpr (h.coerce hover component spec _)
      · exact avoids_ok _
      · exact avoids_error.mpr (h.configuration _)

theorem bindSpecs (component : String) (specs : List ParamSpec) (args : List Value)
    (named : List (String × Value)) :
    Avoids bad (Schema.bindSpecs component specs args named) := by
  induction specs generalizing args named with
  | nil => exact avoids_ok _
  | cons spec specs ih =>
      exact (h.bindOne hover component spec args named).bind fun _ _ =>
        (ih _ _).bind fun _ _ => avoids_ok _

theorem bind (component : String) (s : Schema) (args : List Value) (named : List (String × Value)) :
    Avoids bad (s.bind component args named) := by
  refine (h.bindSpecs hover component s.specs args named).bind fun bound _ => ?_
  obtain ⟨values, rest, left⟩ := bound
  dsimp only
  split
  · split
    · exact avoids_error.mpr (h.configuration _)
    · split
      · exact avoids_error.mpr (h.configuration _)
      · exact avoids_ok _
  · exact avoids_ok _

theorem bound {β : Type} [Hooks β] (st : Scope.Store) (ctx : Context) (c : Component β) :
    Avoids bad (c.bound st ctx) :=
  (Avoids.mapM fun p _ => h.resolve st ctx p).bind fun args _ =>
    (h.resolveNamed st ctx c.arguments.named).bind fun named _ =>
      h.bind hover c.kind (Hooks.schema c.body) args named

theorem sink_initialise (hraised : ∀ e : Error, e.Raised → ¬ bad e) (ctx : Context) (p : Params)
    (b : SinkBody) : Avoids bad (SinkBody.initialise ctx p b).result :=
  SinkBody.avoids_initialise (h.spares hraised fun key _ => h.durations hover p key)

end Binding

end Beyond
end PullFlow
