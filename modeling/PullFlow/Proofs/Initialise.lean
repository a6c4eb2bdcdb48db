import PullFlow.Monitor
import PullFlow.Operator
import PullFlow.Proofs.Outcome

/-!
What the hooks that initialise components fail with. A hook asks for the parameters of its schema,
each by the getter of the declared sort, and raises errors of its own over what it is given. So
where neither the getters nor the hooks' own errors are of a sort, no hook fails with that sort.
-/

namespace PullFlow

/-- Asks for a parameter by the getter of a sort. -/
def ParamKind.ask (p : Params) (name : String) : ParamKind → Done
  | text => (p.text name).map fun _ => ()
  | int => (p.int name).map fun _ => ()
  | float => (p.float name).map fun _ => ()
  | bool => (p.bool name).map fun _ => ()
  | duration => (p.duration name).map fun _ => ()
  | any => (p.require name).map fun _ => ()

/-- The errors that hooks raise themselves over what they are given. -/
def Error.Raised : Error → Prop
  | evaluation .. => True
  | configuration (.timeFormat _) | configuration (.timeOfDay ..) | configuration (.fileMode _)
  | configuration (.hashAlgorithm _) => True
  | _ => False

namespace Schema

variable {s : Schema} {p : Params} {name key : String} {kind sort : ParamKind} {default : Value}
  {bad : Error → Prop}

/-- A parameter of a sort is declared. -/
def Declares (s : Schema) (name : String) (kind : ParamKind) : Prop :=
  ∃ default, ⟨name, kind, default⟩ ∈ s.specs

@[simp] theorem not_declares_empty : ¬ empty.Declares name kind := fun ⟨_, h⟩ => by cases h

@[simp] theorem not_declares_anyNumber : ¬ anyNumber.Declares name kind := fun ⟨_, h⟩ => by cases h

@[simp] theorem declares_required : (s.required key sort).Declares name kind ↔
    s.Declares name kind ∨ name = key ∧ kind = sort := by
  simp [Declares, required, exists_or]

@[simp] theorem declares_optional : (s.optional key sort default).Declares name kind ↔
    s.Declares name kind ∨ name = key ∧ kind = sort := by
  simp [Declares, optional, exists_or]

/-- Errors of a sort come neither from the getters of the declared parameters nor from hooks. -/
structure Spares (s : Schema) (p : Params) (bad : Error → Prop) : Prop where
  asks : ∀ key kind, s.Declares key kind → Avoids bad (kind.ask p key)
  asks? : ∀ key, s.Declares key .duration → Avoids bad (p.duration? key)
  raised : ∀ e : Error, e.Raised → ¬ bad e

namespace Spares

theorem text (h : s.Spares p bad) (hkey : s.Declares key .text) : Avoids bad (p.text key) :=
  avoids_map_iff.mp (h.asks key .text hkey)

theorem int (h : s.Spares p bad) (hkey : s.Declares key .int) : Avoids bad (p.int key) :=
  avoids_map_iff.mp (h.asks key .int hkey)

theorem float (h : s.Spares p bad) (hkey : s.Declares key .float) : Avoids bad (p.float key) :=
  avoids_map_iff.mp (h.asks key .float hkey)

theorem bool (h : s.Spares p bad) (hkey : s.Declares key .bool) : Avoids bad (p.bool key) :=
  avoids_map_iff.mp (h.asks key .bool hkey)

theorem duration (h : s.Spares p bad) (hkey : s.Declares key .duration) :
    Avoids bad (p.duration key) :=
  avoids_map_iff.mp (h.asks key .duration hkey)

end Spares
end Schema

namespace HookEnd

variable {α β : Type} {bad : Error → Prop} {body : β}

theorem avoids_ofExcept {r : Except Error β} (h : Avoids bad r) :
    Avoids bad (HookEnd.ofExcept body r).result := by
  cases r with
  | ok b => exact avoids_ok _
  | error e => exact h.error rfl

theorem avoids_taking {r : Except Error α} {next : α → HookEnd β} (h : Avoids bad r)
    (hnext : ∀ a, Avoids bad (next a).result) : Avoids bad (HookEnd.taking body r next).result := by
  cases r with
  | ok a => exact hnext a
  | error e => exact h.error rfl

end HookEnd

section

variable {bad : Error → Prop} (hraised : ∀ e : Error, e.Raised → ¬ bad e)
include hraised

theorem Recorder.avoids_hook (r : Recorder) (h : HookName) : Avoids bad (r.hook h).result := by
  unfold hook result
  dsimp only
  split
  · exact avoids_error.mpr (hraised _ trivial)
  · exact avoids_ok _

theorem Clock.TimeOfDay.avoids_parse (parameter s : String) :
    Avoids bad (Clock.TimeOfDay.parse parameter s) := by
  unfold Clock.TimeOfDay.parse
  dsimp only
  split
  · exact avoids_ok _
  · split
    · exact avoids_ok _
    · exact avoids_error.mpr (hraised _ trivial)

theorem SinkBody.avoids_fileMode (mode : String) : Avoids bad (fileMode mode) := by
  unfold fileMode
  split
  · exact avoids_ok _
  · split
    · exact avoids_ok _
    · exact avoids_error.mpr (hraised _ trivial)

theorem OperatorBody.avoids_checkHash (algorithm : String) : Avoids bad (checkHash algorithm) := by
  unfold checkHash
  split
  · exact avoids_ok _
  · exact avoids_error.mpr (hraised _ trivial)

end

variable {ctx : Context} {st : Scope.Store} {p : Params} {bad : Error → Prop}

theorem SourceBody.avoids_initialise {b : SourceBody} (h : (schema b).Spares p bad) :
    Avoids bad (initialise ctx p b).result := by
  cases b with
  | text _ => exact HookEnd.avoids_ofExcept (avoids_map_iff.mpr (h.text (by simp [schema])))
  | int _ => exact HookEnd.avoids_ofExcept (avoids_map_iff.mpr (h.int (by simp [schema])))
  | float _ => exact HookEnd.avoids_ofExcept (avoids_map_iff.mpr (h.float (by simp [schema])))
  | bool _ | inflow _ _ =>
      exact HookEnd.avoids_ofExcept (avoids_map_iff.mpr (h.bool (by simp [schema])))
  | counter _ _ =>
      exact HookEnd.avoids_taking (h.int (by simp [schema])) fun _ =>
        HookEnd.avoids_ofExcept (avoids_map_iff.mpr (h.int (by simp [schema])))
  | var _ _ _ =>
      exact HookEnd.avoids_ofExcept ((h.text (by simp [schema])).bind fun _ _ =>
        (h.bool (by simp [schema])).bind fun _ _ => avoids_ok _)
  | file _ _ =>
      exact HookEnd.avoids_taking (h.text (by simp [schema])) fun _ =>
        HookEnd.avoids_ofExcept (avoids_map_iff.mpr (h.bool (by simp [schema])))
  | now _ =>
      refine HookEnd.avoids_ofExcept ((h.text (by simp [schema])).bind fun format _ => ?_)
      split
      · exact avoids_ok _
      · exact avoids_error.mpr (h.raised _ trivial)
  | during _ _ =>
      have htime (key : String) (hkey : (schema (during _ _)).Declares key .text) :
          Avoids bad ((p.text key).bind (Clock.TimeOfDay.parse key)) :=
        (h.text hkey).bind fun s _ => Clock.TimeOfDay.avoids_parse h.raised key s
      exact HookEnd.avoids_taking (htime "start" (by simp [schema])) fun _ =>
        HookEnd.avoids_ofExcept (avoids_map_iff.mpr (htime "end" (by simp [schema])))
  | script _ _ parameters => cases parameters <;> exact avoids_ok _
  | recorder r => exact Recorder.avoids_hook h.raised _ _
  | _ => exact avoids_ok _

theorem SinkBody.avoids_initialise {b : SinkBody} (h : (schema b).Spares p bad) :
    Avoids bad (initialise ctx p b).result := by
  cases b with
  | var _ _ _ => exact HookEnd.avoids_ofExcept (avoids_map_iff.mpr (h.text (by simp [schema])))
  | file _ _ =>
      exact HookEnd.avoids_taking (h.text (by simp [schema])) fun _ =>
        HookEnd.avoids_ofExcept (avoids_map_iff.mpr ((h.text (by simp [schema])).bind fun mode _ =>
          avoids_fileMode h.raised mode))
  | recorder r => exact Recorder.avoids_hook h.raised _ _
  | _ => exact avoids_ok _

theorem OperatorBody.avoids_initialisePure {f : Operator.Pure}
    (h : (schema (apply f)).Spares p bad) : Avoids bad (initialisePure p f) := by
  cases f with
  | hash =>
      exact (h.text (by simp [schema])).bind fun algorithm _ =>
        (avoids_checkHash h.raised algorithm).bind fun _ _ => avoids_ok _
  | get _ => exact avoids_map_iff.mpr (h.text (by simp [schema]))
  | toJson _ => exact avoids_map_iff.mpr (h.bool (by simp [schema]))
  | _ => exact avoids_ok _

/-- A tee fails as its sink does, which has parameters of its own. -/
theorem OperatorBody.avoids_initialise {b : OperatorBody} (h : (schema b).Spares p bad)
    (htee : ∀ sink, b.tee? = some sink → Avoids bad (sink.setUp st).result) :
    Avoids bad (initialise st p b).result := by
  cases b with
  | apply f => exact HookEnd.avoids_ofExcept (avoids_map_iff.mpr (avoids_initialisePure h))
  | cached _ _ =>
      exact HookEnd.avoids_ofExcept (avoids_map_iff.mpr (h.duration (by simp [schema])))
  | smooth s =>
      exact HookEnd.avoids_taking (h.duration (by simp [schema])) fun _ =>
        HookEnd.avoids_taking (h.asks? _ (by simp [schema])) fun _ =>
          HookEnd.avoids_ofExcept (avoids_map_iff.mpr (h.asks? _ (by simp [schema])))
  | tee sink => exact htee sink rfl
  | recorder r => exact Recorder.avoids_hook h.raised _ _
  | _ => exact avoids_ok _

theorem MonitorBody.avoids_initialise {b : MonitorBody} (h : (schema b).Spares p bad) :
    Avoids bad (initialise p b).result := by
  cases b with
  | count _ => exact HookEnd.avoids_ofExcept (avoids_map_iff.mpr (h.int (by simp [schema])))
  | interval sleep exits =>
      have hflag (key : String) (hkey : (schema (interval sleep exits)).Declares key .bool) :
          Avoids bad (p.bool key) := h.bool hkey
      have hexits : Avoids bad (ExitCondition.ofParams p) :=
        (hflag _ (by simp [schema, ExitCondition.schema])).bind fun _ _ =>
          (hflag _ (by simp [schema, ExitCondition.schema])).bind fun _ _ =>
            (hflag _ (by simp [schema, ExitCondition.schema])).bind fun _ _ => avoids_ok _
      have hsleep : Avoids bad (p.duration "sleep") :=
        h.duration (by simp [schema, ExitCondition.schema, sleepSchema])
      exact HookEnd.avoids_ofExcept (hsleep.bind fun _ _ => hexits.bind fun _ _ => avoids_ok _)
  | change _ _ | onDemand _ =>
      exact HookEnd.avoids_ofExcept
        (avoids_map_iff.mpr (h.duration (by simp [schema, sleepSchema])))
  | onValue _ _ _ _ =>
      exact HookEnd.avoids_ofExcept ((h.bool (by simp [schema])).bind fun _ _ =>
        (h.duration (by simp [schema])).bind fun _ _ => avoids_ok _)
  | recorder r => exact Recorder.avoids_hook h.raised _ _
  | _ => exact avoids_ok _

end PullFlow
