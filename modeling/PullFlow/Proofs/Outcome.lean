import PullFlow.Error
import Mathlib.Logic.Basic

/-!
Computations that may fail: what a sequence of them comes to, and the results that are no failure of
a sort, above all not the one failure beyond handling.
-/

namespace PullFlow

/-- What comes of two computations, one after the other. -/
theorem bind_eq_ok {ε α β : Type} {r : Except ε α} {f : α → Except ε β} {b : β} :
    (r >>= f) = .ok b ↔ ∃ a, r = .ok a ∧ f a = .ok b := by
  cases r <;> simp [bind, Except.bind]

theorem map_eq_ok {ε α β : Type} {r : Except ε α} {f : α → β} {b : β} :
    r.map f = .ok b ↔ ∃ a, r = .ok a ∧ f a = b := by
  cases r <;> simp [Except.map]

theorem eq_ok_of_toOption {ε α : Type} {r : Except ε α} {a : α} (h : r.toOption = some a) :
    r = .ok a := by
  cases r with
  | error e => cases h
  | ok b => exact congrArg Except.ok (Option.some.inj h)

variable {α β : Type} {r : Except Error α} {f : α → Except Error β} {bad : Error → Prop}

/-- A result that is no failure of a sort. -/
def Avoids (bad : Error → Prop) (r : Except Error α) : Prop := ∀ e, r = .error e → ¬ bad e

theorem avoids_ok (a : α) : Avoids bad (.ok a) := fun _ h => by cases h

theorem avoids_error {e : Error} : Avoids bad (.error e : Except Error α) ↔ ¬ bad e := by
  simp [Avoids]

/-- A failure that is passed on. -/
theorem Avoids.error {e : Error} (h : Avoids bad r) (hr : r = .error e) :
    Avoids bad (.error e : Except Error β) :=
  avoids_error.mpr (h e hr)

theorem Avoids.bind (h : Avoids bad r) (hf : ∀ a, r = .ok a → Avoids bad (f a)) :
    Avoids bad (r >>= f) := by
  cases r with
  | error e => exact h.error rfl
  | ok a => exact hf a rfl

theorem avoids_map_iff {g : α → β} : Avoids bad (r.map g) ↔ Avoids bad r := by
  cases r with
  | error e => exact avoids_error.trans avoids_error.symm
  | ok a => exact ⟨fun _ => avoids_ok a, fun _ => avoids_ok _⟩

theorem Avoids.mapM {f : α → Except Error β} {items : List α} (h : ∀ a ∈ items, Avoids bad (f a)) :
    Avoids bad (items.mapM f) := by
  induction items with
  | nil => exact avoids_ok _
  | cons a items ih =>
      rw [List.forall_mem_cons] at h
      rw [List.mapM_cons]
      exact h.1.bind fun _ _ => (ih h.2).bind fun _ _ => avoids_ok _

/-- A result that is not the failure no handler may catch. -/
def Catchable {α : Type} (r : Except Error α) : Prop := r ≠ .error .overflow

theorem catchable_iff_avoids : Catchable r ↔ Avoids (· = .overflow) r := by
  constructor
  · rintro h e hr rfl
    exact h hr
  · intro h hr
    exact h _ hr rfl

@[simp] theorem catchable_ok (a : α) : Catchable (.ok a : Except Error α) := fun h => by cases h

@[simp]
theorem catchable_error {e : Error} : Catchable (.error e : Except Error α) ↔ e ≠ .overflow := by
  simp [Catchable]

/-- Whether a result can be handled. -/
def caught : Except Error α → Bool
  | .error .overflow => false
  | _ => true

theorem caught_iff : caught r = true ↔ Catchable r := by
  cases r with
  | ok a => simp [caught]
  | error e => cases e <;> simp [caught]

instance : Decidable (Catchable r) := decidable_of_iff _ caught_iff

theorem Catchable.error {e : Error} (h : Catchable r) (hr : r = .error e) :
    Catchable (.error e : Except Error β) :=
  catchable_iff_avoids.mpr ((catchable_iff_avoids.mp h).error hr)

theorem Catchable.bind (h : Catchable r) (hf : ∀ a, r = .ok a → Catchable (f a)) :
    Catchable (r >>= f) :=
  catchable_iff_avoids.mpr <|
    (catchable_iff_avoids.mp h).bind fun a ha => catchable_iff_avoids.mp (hf a ha)

theorem Catchable.map (h : Catchable r) (g : α → β) : Catchable (r.map g) :=
  catchable_iff_avoids.mpr (avoids_map_iff.mpr (catchable_iff_avoids.mp h))

theorem Catchable.mapM {f : α → Except Error β} {items : List α}
    (h : ∀ a ∈ items, Catchable (f a)) : Catchable (items.mapM f) :=
  catchable_iff_avoids.mpr (.mapM fun a ha => catchable_iff_avoids.mp (h a ha))

end PullFlow
