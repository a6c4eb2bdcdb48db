import PullFlow.Proofs.Arguments
import PullFlow.Proofs.Initialise

/-!
What the getters make of bound parameters. An argument that binding takes has the form that the
getter of its sort reads, so that no hook calls the parameter unset or of another sort. Floats
make the one exception: an argument that spells no finite number is taken for a float, but the value
that stands for it is null, and null leaves the parameter unset.
-/

namespace PullFlow

/-- The parameter that an error calls unset or of another sort. -/
def Misuse.unmet? : Misuse → Option String
  | parameterNotSet name | parameterNotInteger name | parameterNotNumber name
  | parameterNotBoolean name => some name
  | _ => none

/-- The error that a parameter is unset or of another sort. -/
def Error.Blames (name : String) : Error → Prop
  | configuration m => m.unmet? = some name
  | _ => False

namespace Duration

variable {name : String}

theorem ofSeconds_avoids_blame (x : Float) : Avoids (Error.Blames name) (ofSeconds x) := by
  unfold ofSeconds
  split
  · exact avoids_error.mpr id
  · dsimp only
    split
    · exact avoids_ok _
    · exact avoids_error.mpr id

/-- What is no duration is an error of its own. -/
theorem ofValue_avoids_blame (v : Value) : Avoids (Error.Blames name) (ofValue v) := by
  cases v with
  | number n =>
      unfold ofValue
      dsimp only
      split
      · exact ofSeconds_avoids_blame _
      · exact avoids_error.mpr (by simp [Error.Blames, Misuse.unmet?])
  | text s =>
      rw [ofValue, parse_eq]
      cases spelled? s with
      | some x => exact ofSeconds_avoids_blame x
      | none => exact avoids_error.mpr (by simp [Error.Blames, Misuse.unmet?])
  | null | bool _ | list _ | object _ =>
      exact avoids_error.mpr (by simp [Error.Blames, Misuse.unmet?])

end Duration

namespace ParamKind

variable {component : String} {spec : ParamSpec} {v w : Value} {p : Params} {name : String}

/-- A float that is not finite is taken and leaves its parameter unset. -/
theorem coerce_of_not_told (hgiven : v.isNull = false) (h : ¬ Told spec v) :
    coerce component spec v = .ok .null := by
  simp only [Told, Classical.not_imp, not_forall] at h
  obtain ⟨hkind, x, hx, hinfinite⟩ := h
  unfold coerce
  dsimp only
  rw [hgiven, hkind, Option.mem_def.mp hx]
  simp [Value.float, hinfinite]

/-- The getter of a sort reads the values of the sort. -/
theorem ask_of_reads {kind : ParamKind} (h : kind.Reads w) (hget : p.get? name = some w) :
    kind.ask p name = .ok () := by
  have hrequire : p.require name = .ok w := by rw [Params.require, hget]
  cases kind with
  | any => rw [ask, hrequire]; rfl
  | text =>
      rw [ask, Params.text, hrequire]
      rfl
  | int =>
      obtain ⟨n, rfl, hn⟩ := h
      have htold : (Value.int n).toInt64? = some n := if_pos hn
      rw [ask, Params.int, hrequire]
      simp [bind, Except.bind, htold]
      rfl
  | float =>
      obtain ⟨x, rfl, hfinite⟩ := h
      have htold : (Value.float x).toFloat? = some x := by rw [Value.float, if_pos hfinite]; rfl
      rw [ask, Params.float, hrequire]
      simp [bind, Except.bind, htold]
      rfl
  | bool =>
      obtain ⟨b, rfl⟩ := h
      rw [ask, Params.bool, hrequire]
      rfl
  | duration =>
      obtain ⟨x, rfl, hbelow⟩ := h
      obtain ⟨d, hd⟩ := Duration.ofValue_float_of_below hbelow
      rw [ask, Params.duration, hrequire]
      simp [bind, Except.bind, hd]
      rfl

/-- A getter blames no parameter but the one it asks for. -/
theorem ask_avoids_other {key : String} (hne : key ≠ name) (kind : ParamKind) :
    Avoids (Error.Blames name) (kind.ask p key) := by
  have hrequire : Avoids (Error.Blames name) (p.require key) := by
    unfold Params.require
    split
    · exact avoids_ok _
    · exact avoids_error.mpr fun h => hne (Option.some.inj h)
  cases kind with
  | any => exact avoids_map_iff.mpr hrequire
  | text => exact avoids_map_iff.mpr (avoids_map_iff.mpr hrequire)
  | int | float | bool =>
      refine avoids_map_iff.mpr (hrequire.bind fun v _ => ?_)
      split
      · exact avoids_ok _
      · exact avoids_error.mpr fun h => hne (Option.some.inj h)
  | duration =>
      exact avoids_map_iff.mpr (hrequire.bind fun v _ => Duration.ofValue_avoids_blame v)

end ParamKind

/-- A duration that may be unset is never blamed for it. -/
theorem Params.avoids_duration? (p : Params) (name key : String) :
    Avoids (Error.Blames name) (p.duration? key) := by
  unfold duration?
  split
  · exact avoids_map_iff.mpr (Duration.ofValue_avoids_blame _)
  · exact avoids_ok _

/-- No error that a hook raises itself blames a parameter like this. -/
theorem Error.not_blames_of_raised {e : Error} (name : String) (h : e.Raised) :
    ¬ e.Blames name := by
  cases e with
  | configuration m =>
      cases m with
      | timeFormat _ | timeOfDay _ _ _ | fileMode _ | hashAlgorithm _ =>
          simp [Blames, Misuse.unmet?]
      | _ => exact False.elim h
  | evaluation _ _ => exact id
  | _ => exact False.elim h

/-! ### Arguments that are given -/

namespace Schema

variable {component : String} {s : Schema} {args : List Value} {named : List (String × Value)}
  {spec : ParamSpec} {v : Value} {p : Params}

/-- A parameter is declared once and is given an argument that is not null. -/
def Supplied (s : Schema) (args : List Value) (named : List (String × Value)) (spec : ParamSpec)
    (v : Value) : Prop :=
  ∃ before after, s.specs = before ++ spec :: after ∧ spec.name ∉ before.map (·.name) ∧
    spec.name ∉ after.map (·.name) ∧ given? args named spec before.length = some v ∧
    v.isNull = false

/-- The getters of the declared sorts give a parameter. -/
def Met (s : Schema) (p : Params) (name : String) : Prop :=
  ∀ spec ∈ s.specs, spec.name = name → spec.kind.ask p name = .ok ()

/-- No getter that asks for the declared sort of a parameter blames one that is met. -/
theorem Met.spares {name : String} (h : s.Met p name) : s.Spares p (Error.Blames name) where
  asks key kind := fun ⟨_, hspec⟩ => by
    by_cases hname : key = name
    · subst hname
      rw [h _ hspec rfl]
      exact avoids_ok _
    · exact ParamKind.ask_avoids_other hname kind
  asks? key _ := p.avoids_duration? name key
  raised _ := Error.not_blames_of_raised name

/-- No component of these parameters calls one of them unset or of another sort as it is
initialised. -/
structure Unblamed (s : Schema) (p : Params) (name : String) : Prop where
  source : ∀ (b : SourceBody) (st : Scope.Store) (ctx : Context), Hooks.schema b = s →
    Avoids (Error.Blames name) (Hooks.initialise st ctx p b).result
  operator : ∀ (b : OperatorBody) (st : Scope.Store) (ctx : Context), Hooks.schema b = s →
    Avoids (Error.Blames name) (Hooks.initialise st ctx p b).result
  sink : ∀ (b : SinkBody) (st : Scope.Store) (ctx : Context), Hooks.schema b = s →
    Avoids (Error.Blames name) (Hooks.initialise st ctx p b).result
  monitor : ∀ (b : MonitorBody) (st : Scope.Store) (ctx : Context), Hooks.schema b = s →
    Avoids (Error.Blames name) (Hooks.initialise st ctx p b).result

theorem Met.unblamed {name : String} (h : s.Met p name) (hname : name ∈ s.names) :
    s.Unblamed p name where
  source b _ _ hs := by
    subst hs
    exact SourceBody.avoids_initialise h.spares
  operator b _ _ hs := by
    subst hs
    refine OperatorBody.avoids_initialise h.spares fun sink hsink => ?_
    obtain rfl : b = .tee sink := by cases b <;> cases hsink; rfl
    cases hname
  sink b _ _ hs := by
    subst hs
    exact SinkBody.avoids_initialise h.spares
  monitor b _ _ hs := by
    subst hs
    exact MonitorBody.avoids_initialise h.spares

theorem Supplied.eq_of_mem {other : ParamSpec} (h : s.Supplied args named spec v)
    (hother : other ∈ s.specs) (hname : other.name = spec.name) : other = spec := by
  obtain ⟨before, after, hspecs, hnew, hlast, -⟩ := h
  rw [hspecs, List.mem_append, List.mem_cons] at hother
  rcases hother with hbefore | rfl | hafter
  · exact absurd (hname ▸ List.mem_map_of_mem hbefore) hnew
  · rfl
  · exact absurd (hname ▸ List.mem_map_of_mem hafter) hlast

theorem Supplied.mem (h : s.Supplied args named spec v) : spec ∈ s.specs := by
  obtain ⟨before, after, hspecs, -⟩ := h
  rw [hspecs]
  exact List.mem_append_right _ List.mem_cons_self

/-- A supplied parameter is bound to its argument, brought to its sort. -/
theorem Supplied.coerced (h : s.Supplied args named spec v)
    (hbind : s.bind component args named = .ok p) :
    ∃ w, ParamKind.coerce component spec v = .ok w ∧ Fields.get? spec.name p.values = some w := by
  obtain ⟨before, after, hspecs, hnew, hlast, hgiven, -⟩ := h
  obtain ⟨w, hfilled, hget⟩ := filling_of_bind hbind hspecs hnew hlast
  rw [hgiven] at hfilled
  exact ⟨w, hfilled, hget⟩

/-- A parameter that is given an argument is read by the getter of its sort, and no hook blames it,
unless the argument is taken for a float that is not finite: that leaves the parameter unset. -/
theorem supplied_parameter_read (hbind : s.bind component args named = .ok p)
    (h : s.Supplied args named spec v) :
    (p.get? spec.name = none ↔ ¬ ParamKind.Told spec v) ∧
      (ParamKind.Told spec v →
        spec.kind.ask p spec.name = .ok () ∧ s.Unblamed p spec.name) := by
  obtain ⟨w, hcoerce, hget⟩ := h.coerced hbind
  have hgiven : v.isNull = false := by
    obtain ⟨_, _, -, -, -, -, hgiven⟩ := h
    exact hgiven
  by_cases htold : ParamKind.Told spec v
  · have hreads := ParamKind.reads_of_coerce hgiven htold hcoerce
    have hset : p.get? spec.name = some w := by
      rw [Params.get?, hget, Option.filter_some, hreads.isNull]
      rfl
    have hask := ParamKind.ask_of_reads hreads hset
    refine ⟨by simp [hset, htold], fun _ => ⟨hask, Met.unblamed ?_ ?_⟩⟩
    · intro other hother hname
      rw [h.eq_of_mem hother hname]
      exact hask
    · exact List.mem_map_of_mem h.mem
  · rw [ParamKind.coerce_of_not_told hgiven htold] at hcoerce
    cases hcoerce
    have hunset : p.get? spec.name = none := by
      rw [Params.get?, hget]
      rfl
    exact ⟨by simp [hunset, htold], fun h => absurd h htold⟩

/-- The parameter of a source of booleans, given by its name. -/
theorem condition_read :
    let s := empty.optional "value" .bool (.bool true)
    let p : Params := ⟨[("value", .bool false)], []⟩
    s.bind "bool" [] [("value", .text "no")] = .ok p ∧
      s.Supplied [] [("value", .text "no")] ⟨"value", .bool, some (.bool true)⟩ (.text "no") ∧
      p.bool "value" = .ok false ∧ s.Unblamed p "value" := by
  have hbind : (empty.optional "value" .bool (.bool true)).bind "bool" []
      [("value", .text "no")] = .ok ⟨[("value", .bool false)], []⟩ := by rfl
  have hsupplied : (empty.optional "value" .bool (.bool true)).Supplied []
      [("value", .text "no")] ⟨"value", .bool, some (.bool true)⟩ (.text "no") :=
    ⟨[], [], rfl, List.not_mem_nil, List.not_mem_nil, rfl, rfl⟩
  have hread := supplied_parameter_read hbind hsupplied
  exact ⟨hbind, hsupplied, rfl, (hread.2 (fun h => by cases h)).2⟩

/-- A source of floats takes not-a-number for its parameter, finds the parameter unset as it is
initialised and blames it. -/
theorem not_a_number_unset :
    let s := empty.optional "value" .float (.float 0.0)
    let p : Params := ⟨[("value", .null)], []⟩
    s.bind "float" [.text "nan"] [] = .ok p ∧
      s.Supplied [.text "nan"] [] ⟨"value", .float, some (.float 0.0)⟩ (.text "nan") ∧
      p.float "value" = .error (.configuration (.parameterNotSet "value")) ∧
      ¬ s.Unblamed p "value" := by
  refine ⟨by rfl, ⟨[], [], rfl, List.not_mem_nil, List.not_mem_nil, rfl, rfl⟩, rfl, fun h => ?_⟩
  exact h.source (.float 0.0) ⟨[]⟩ ⟨"", 0, []⟩ rfl _ rfl rfl

end Schema

end PullFlow
