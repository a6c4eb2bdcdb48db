import PullFlow.Params.Schema
import PullFlow.Proofs.Duration
import PullFlow.Proofs.Fields
import PullFlow.Proofs.Outcome

/-!
What binding makes of arguments. An argument that a parameter takes is brought to a form that the
getter of its sort reads. The one failure that no handler may catch comes out of it only if a
parameter for durations is given more seconds than can be told; and the durations of bound
parameters can always be asked for.
-/

namespace PullFlow

open Decimal Duration

/-- What a value becomes as a duration: unset, or seconds that read back. -/
def Timed (v : Value) : Prop := v = .null ∨ ∃ x, v = .float x ∧ Below 64 x

theorem Timed.catchable {v : Value} (h : Timed v) : Catchable (Duration.ofValue v) := by
  rcases h with rfl | ⟨x, rfl, hx⟩
  · simp [Duration.ofValue]
  · obtain ⟨d, hd⟩ := ofValue_float_of_below hx
    simp [hd]

namespace Decimal

theorem fitsSigned_iff {n : Int} :
    fitsSigned n = true ↔ -(signedLimit : Int) ≤ n ∧ n < signedLimit := by
  simp [fitsSigned]

theorem fitsSigned_truncate64 (x : Float) : fitsSigned (truncate64 x) = true := by
  rw [fitsSigned_iff]
  unfold truncate64
  have hlimit : (0 : Int) < signedLimit := by decide
  split
  · omega
  · dsimp only
    generalize (magnitudeOf x).num / (magnitudeOf x).den = whole
    split
    · split <;> omega
    · next hsmall =>
      rw [Bool.or_eq_true, not_or, decide_eq_true_eq, Nat.not_le] at hsmall
      split <;> simp only [Int.ofNat_eq_natCast] <;> omega

end Decimal

namespace ParamKind

variable {component : String} {spec : ParamSpec} {v w : Value}

theorem coerce_eq_overflow (h : coerce component spec v = .error .overflow) :
    spec.kind = .duration ∧ TooLong v := by
  unfold coerce at h
  dsimp only at h
  split at h
  · cases h
  · cases hkind : spec.kind <;> rw [hkind] at h <;> dsimp only at h
    case duration =>
      rcases ofValue_result v with ⟨_, d, hd, _⟩ | ⟨_, m, hm⟩ | ⟨hlong, _⟩
      · rw [hd] at h
        cases h
      · rw [hm] at h
        cases h
      · exact ⟨rfl, hlong⟩
    case any => cases h
    all_goals split at h <;> cases h

/-- The values of a sort, as its getter reads them. -/
def Reads (v : Value) : ParamKind → Prop
  | text => ∃ s, v = .text s
  | int => ∃ n, v = .int n ∧ Decimal.fitsSigned n = true
  | float => ∃ x : Float, v = .float x ∧ x.isFinite = true
  | bool => ∃ b, v = .bool b
  | duration => ∃ x, v = .float x ∧ Decimal.Below 64 x
  | any => v.isNull = false

/-- An argument that a value can stand for. What it gives for a float must be a finite number. -/
def Told (spec : ParamSpec) (v : Value) : Prop :=
  spec.kind = .float → ∀ x ∈ floatOf? v, x.isFinite = true

theorem fitsSigned_integerOf? {n : Int} (h : integerOf? v = some n) :
    Decimal.fitsSigned n = true := by
  unfold integerOf? at h
  split at h
  · split at h
    · next hfit =>
      cases h
      obtain ⟨hn, hfit⟩ := Option.ite_none_right_eq_some.mp hfit
      exact Option.some.inj hfit ▸ hn
    · dsimp only at h
      split at h
      · cases h
        exact Decimal.fitsSigned_truncate64 _
      · cases h
  · split at h
    · cases h
      exact Decimal.fitsSigned_truncate64 _
    · cases h
  · exact (Option.filter_eq_some_iff.mp h).2
  · cases h

theorem isNull_float {x : Float} : (Value.float x).isNull = !x.isFinite := by
  unfold Value.float
  split
  · next h => simp [Value.isNull, h]
  · next h => simp [Value.isNull, h]

theorem Reads.isNull {kind : ParamKind} (h : kind.Reads w) : w.isNull = false := by
  cases kind with
  | any => exact h
  | text | bool =>
      obtain ⟨_, rfl⟩ := h
      rfl
  | int =>
      obtain ⟨_, rfl, -⟩ := h
      rfl
  | float =>
      obtain ⟨x, rfl, hfinite⟩ := h
      rw [isNull_float, hfinite, Bool.not_true]
  | duration =>
      obtain ⟨x, rfl, hbelow⟩ := h
      rw [isNull_float, hbelow.isFinite, Bool.not_true]

/-- An argument that a value can stand for is brought to its sort. -/
theorem reads_of_coerce (hgiven : v.isNull = false) (htold : Told spec v)
    (h : coerce component spec v = .ok w) : spec.kind.Reads w := by
  unfold coerce at h
  dsimp only at h
  rw [hgiven, if_neg Bool.false_ne_true] at h
  cases hkind : spec.kind <;> rw [hkind] at h <;> dsimp only at h
  case text =>
    cases v with
    | text _ | number _ | bool _ =>
        cases h
        exact ⟨_, rfl⟩
    | null | list _ | object _ => cases h
  case int =>
    split at h
    · next n hn =>
      cases h
      exact ⟨n, rfl, fitsSigned_integerOf? hn⟩
    · cases h
  case float =>
    split at h
    · next x hx =>
      cases h
      exact ⟨x, rfl, htold hkind x hx⟩
    · cases h
  case bool =>
    split at h
    · cases h
      exact ⟨_, rfl⟩
    · cases h
  case duration =>
    rcases Duration.ofValue_result v with ⟨_, d, hd, hbelow⟩ | ⟨_, m, hm⟩ | ⟨_, hover⟩
    · rw [hd] at h
      cases h
      exact ⟨_, rfl, hbelow⟩
    · rw [hm] at h
      cases h
    · rw [hover] at h
      cases h
  case any =>
    cases h
    exact hgiven

theorem timed_of_coerce (hkind : spec.kind = .duration) (h : coerce component spec v = .ok w) :
    Timed w := by
  cases hgiven : v.isNull with
  | true =>
      simp only [coerce, hgiven, if_true, Except.ok.injEq] at h
      exact .inl h.symm
  | false =>
      have htold : Told spec v := fun hfloat => by rw [hkind] at hfloat; cases hfloat
      have hreads := reads_of_coerce hgiven htold h
      rw [hkind] at hreads
      exact .inr hreads

end ParamKind

namespace Schema

variable {component : String} {s : Schema} {args rest : List Value}
  {named left : List (String × Value)} {spec : ParamSpec} {specs : List ParamSpec}
  {values : List (String × Value)} {v : Value} {p : Params}

/-- The argument that a parameter at a place is given: the one at its place, or else the one of its
name. -/
def given? (args : List Value) (named : List (String × Value)) (spec : ParamSpec) (i : Nat) :
    Option Value :=
  args[i]?.or (Fields.get? spec.name named)

/-- Among the arguments of parameters for durations one is too long. -/
def Overlong (specs : List ParamSpec) (args : List Value) (named : List (String × Value)) : Prop :=
  ∃ slot ∈ specs.zipIdx, slot.1.kind = .duration ∧
    ∃ v ∈ given? args named slot.1 slot.2, TooLong v

instance : Decidable (Overlong specs args named) :=
  inferInstanceAs (Decidable (∃ slot ∈ specs.zipIdx, slot.1.kind = .duration ∧
    ∃ v ∈ given? args named slot.1 slot.2, TooLong v))

theorem overlong_iff : Overlong specs args named ↔ ∃ i spec v, specs[i]? = some spec ∧
    spec.kind = .duration ∧ given? args named spec i = some v ∧ TooLong v := by
  constructor
  · rintro ⟨⟨spec, i⟩, hslot, hkind, v, hgiven, hlong⟩
    exact ⟨i, spec, v, List.mem_zipIdx_iff_getElem?.mp hslot, hkind, hgiven, hlong⟩
  · rintro ⟨i, spec, v, hspec, hkind, hgiven, hlong⟩
    exact ⟨(spec, i), List.mem_zipIdx_iff_getElem?.mpr hspec, hkind, v, hgiven, hlong⟩

/-- What binding makes of a parameter for durations: an argument brought to its sort or the
default. -/
def Bound (spec : ParamSpec) (v : Value) : Prop :=
  spec.kind = .duration → Timed v ∨ spec.default = some v

theorem map_eq_overflow {α β : Type} {r : Except Error α} {f : α → β}
    (h : r.map f = .error .overflow) : r = .error .overflow := by
  cases r <;> cases h
  rfl

theorem bindOne_eq_overflow (h : bindOne component spec args named = .error .overflow) :
    Overlong (spec :: specs) args named := by
  unfold bindOne at h
  split at h
  · next v args =>
    split at h
    · cases h
    · obtain ⟨hkind, hlong⟩ := ParamKind.coerce_eq_overflow (map_eq_overflow h)
      exact overlong_iff.mpr ⟨0, spec, v, rfl, hkind, rfl, hlong⟩
  · split at h
    · next v hnamed =>
      obtain ⟨hkind, hlong⟩ := ParamKind.coerce_eq_overflow (map_eq_overflow h)
      exact overlong_iff.mpr ⟨0, spec, v, rfl, hkind, hnamed, hlong⟩
    · cases h
    · cases h

/-- How one parameter is filled: from its place, by its name or with its default. It is filled with
a value and leaves the arguments for the parameters after it. -/
inductive Fills (component : String) (spec : ParamSpec) : List Value → List (String × Value) →
    Value → List Value × List (String × Value) → Prop
  | position {a v : Value} {args : List Value} {named : List (String × Value)} :
      spec.name ∉ Fields.keys named → ParamKind.coerce component spec a = .ok v →
      Fills component spec (a :: args) named v (args, named)
  | name {a v : Value} {named : List (String × Value)} :
      Fields.get? spec.name named = some a → ParamKind.coerce component spec a = .ok v →
      Fills component spec [] named v ([], Fields.erase spec.name named)
  | default {v : Value} {named : List (String × Value)} :
      spec.name ∉ Fields.keys named → spec.default = some v →
      Fills component spec [] named v ([], named)

theorem fills_of_bindOne {made : Value × List Value × List (String × Value)}
    (h : bindOne component spec args named = .ok made) :
    Fills component spec args named made.1 made.2 := by
  unfold bindOne at h
  split at h
  · split at h
    · cases h
    · next hfree =>
      obtain ⟨v, hfits, rfl⟩ := map_eq_ok.mp h
      exact .position (Fields.get?_eq_none_iff.mp hfree) hfits
  · split at h
    · next hgiven =>
      obtain ⟨v, hfits, rfl⟩ := map_eq_ok.mp h
      exact .name hgiven hfits
    · next hfree hstated =>
      cases h
      exact .default (Fields.get?_eq_none_iff.mp hfree) hstated
    · cases h

namespace Fills

variable {left : List Value × List (String × Value)}

theorem args_eq (h : Fills component spec args named v left) : left.1 = args.tail := by
  cases h <;> rfl

theorem named_eq (h : Fills component spec args named v left) :
    left.2 = named ∨ left.2 = Fields.erase spec.name named := by
  cases h with
  | position _ _ | default _ _ => exact .inl rfl
  | name _ _ => exact .inr rfl

theorem bound (h : Fills component spec args named v left) : Bound spec v := fun hkind => by
  cases h with
  | position _ hfits | name _ hfits => exact .inl (ParamKind.timed_of_coerce hkind hfits)
  | default _ hstated => exact .inr hstated

end Fills

theorem Overlong.cons {left : List Value × List (String × Value)}
    (h : Overlong specs left.1 left.2) (hargs : left.1 = args.tail)
    (hnamed : left.2 = named ∨ left.2 = Fields.erase spec.name named) :
    Overlong (spec :: specs) args named := by
  obtain ⟨i, spec', v, hspec, hkind, hgiven, hlong⟩ := overlong_iff.mp h
  have hplace : left.1[i]? = args[i + 1]? := by
    rw [hargs]
    cases args <;> simp
  have hname {v : Value} (hget : Fields.get? spec'.name left.2 = some v) :
      Fields.get? spec'.name named = some v := by
    rcases hnamed with heq | heq <;> rw [heq] at hget
    · exact hget
    · rw [Fields.get?_erase] at hget
      split at hget
      · cases hget
      · exact hget
  refine overlong_iff.mpr ⟨i + 1, spec', v, hspec, hkind, ?_, hlong⟩
  rw [given?, hplace] at hgiven
  rw [given?]
  cases harg : args[i + 1]? with
  | some a => rwa [harg] at hgiven
  | none =>
      rw [harg] at hgiven
      exact hname hgiven

theorem catchable_bindSpecs (h : ¬ Overlong specs args named) :
    Catchable (bindSpecs component specs args named) := by
  induction specs generalizing args named with
  | nil => exact catchable_ok _
  | cons spec specs ih =>
      rw [bindSpecs]
      refine Catchable.bind (fun hover => h (bindOne_eq_overflow hover)) fun made hmade => ?_
      have hfills := fills_of_bindOne hmade
      exact Catchable.bind (ih fun hover => h (hover.cons hfills.args_eq hfills.named_eq))
        fun _ _ => catchable_ok _

/-- Only an argument that is too long for its parameter fails a binding beyond handling. -/
theorem catchable_bind (h : ¬ Overlong s.specs args named) :
    Catchable (s.bind component args named) := by
  refine Catchable.bind (catchable_bindSpecs h) fun made _ => ?_
  obtain ⟨values, rest, left⟩ := made
  dsimp only
  split
  · split
    · exact catchable_error.mpr (by simp)
    · cases left with
      | nil => exact catchable_ok _
      | cons f left => exact catchable_error.mpr (by simp)
  · exact catchable_ok _

theorem bound_of_bindSpecs {made : List (String × Value) × List Value × List (String × Value)}
    (h : bindSpecs component specs args named = .ok made) :
    ∀ f ∈ made.1, ∃ spec ∈ specs, f.1 = spec.name ∧ Bound spec f.2 := by
  induction specs generalizing args named made with
  | nil =>
      cases h
      exact List.forall_mem_nil _
  | cons spec specs ih =>
      obtain ⟨⟨v, left⟩, hone, h⟩ := bind_eq_ok.mp h
      obtain ⟨others, hrest, h⟩ := bind_eq_ok.mp h
      cases h
      have hfirst := (fills_of_bindOne hone).bound
      refine List.forall_mem_cons.mpr ⟨⟨spec, List.mem_cons_self, rfl, hfirst⟩, fun f hf => ?_⟩
      obtain ⟨spec', hspec, hbound⟩ := ih hrest f hf
      exact ⟨spec', List.mem_cons_of_mem _ hspec, hbound⟩

/-- What binding makes of the filled parameters and of what is left of the arguments. -/
theorem bind_eq_ok_left (h : s.bind component args named = .ok p) :
    ∃ made, bindSpecs component s.specs args named = .ok made ∧
      p = ⟨Fields.ofList made.1, made.2.1⟩ ∧
      (s.variadic = false → made.2.1 = [] ∧ made.2.2 = []) := by
  obtain ⟨⟨values, rest, left⟩, hspecs, h⟩ := bind_eq_ok.mp h
  refine ⟨_, hspecs, ?_⟩
  dsimp only at h
  split at h
  · next hfixed =>
    split at h
    · cases h
    · next hrest =>
      cases left with
      | nil =>
          cases h
          exact ⟨rfl, fun _ => ⟨by simpa using hrest, rfl⟩⟩
      | cons f left => cases h
  · next hvariadic =>
    cases h
    exact ⟨rfl, fun hfixed => absurd (by simp [hfixed]) hvariadic⟩

theorem bound_of_get? {name : String} (h : s.bind component args named = .ok p)
    (hget : p.get? name = some v) : ∃ spec ∈ s.specs, name = spec.name ∧ Bound spec v := by
  obtain ⟨made, hspecs, rfl, -⟩ := bind_eq_ok_left h
  obtain ⟨hvalue, _⟩ := Option.filter_eq_some_iff.mp hget
  exact bound_of_bindSpecs hspecs _ (Fields.mem_of_get?_ofList hvalue)

/-- A parameter for durations with a default that can be told. -/
def Lasting (s : Schema) (name : String) : Prop :=
  ∀ spec ∈ s.specs, spec.name = name → spec.kind = .duration ∧ ∀ v ∈ spec.default, ¬ TooLong v

theorem lasting_empty (name : String) : empty.Lasting name := List.forall_mem_nil _

theorem Lasting.required {name n : String} {kind : ParamKind} (h : s.Lasting name)
    (hnew : n = name → kind = .duration) : (s.required n kind).Lasting name := by
  intro spec hspec hname
  rcases List.mem_append.mp hspec with hold | hnewest
  · exact h spec hold hname
  · cases List.mem_singleton.mp hnewest
    exact ⟨hnew hname, fun _ hv => by cases hv⟩

theorem Lasting.optional {name n : String} {kind : ParamKind} {default : Value}
    (h : s.Lasting name) (hnew : n = name → kind = .duration ∧ ¬ TooLong default) :
    (s.optional n kind default).Lasting name := by
  intro spec hspec hname
  rcases List.mem_append.mp hspec with hold | hnewest
  · exact h spec hold hname
  · cases List.mem_singleton.mp hnewest
    refine ⟨(hnew hname).1, fun v hv => ?_⟩
    cases hv
    exact (hnew hname).2

theorem Lasting.other {name n : String} {kind : ParamKind} {default : Value} (h : s.Lasting name)
    (hne : n ≠ name) : (s.optional n kind default).Lasting name :=
  h.optional fun heq => absurd heq hne

theorem catchable_of_get? {name : String} (h : s.bind component args named = .ok p)
    (hlasting : s.Lasting name) (hget : p.get? name = some v) : Catchable (Duration.ofValue v) := by
  obtain ⟨spec, hspec, rfl, hbound⟩ := bound_of_get? h hget
  obtain ⟨hkind, hdefault⟩ := hlasting spec hspec rfl
  rcases hbound hkind with htimed | hdefaulted
  · exact htimed.catchable
  · exact fun hover => hdefault v hdefaulted (ofValue_eq_overflow_iff.mp hover)

/-- The duration of a bound parameter can be asked for. -/
theorem catchable_duration {name : String} (h : s.bind component args named = .ok p)
    (hlasting : s.Lasting name) : Catchable (p.duration name) := by
  unfold Params.duration Params.require
  cases hget : p.get? name with
  | some v => exact catchable_of_get? h hlasting hget
  | none => exact catchable_error.mpr (by simp)

theorem catchable_duration? {name : String} (h : s.bind component args named = .ok p)
    (hlasting : s.Lasting name) : Catchable (p.duration? name) := by
  unfold Params.duration?
  split
  · next v hget => exact (catchable_of_get? h hlasting hget).map _
  · exact catchable_ok _

end Schema

end PullFlow
