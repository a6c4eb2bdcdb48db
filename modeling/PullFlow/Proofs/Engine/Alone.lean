import PullFlow.Proofs.Engine.Completion
import PullFlow.Proofs.Engine.Owing
import Mathlib.Logic.Relation

/-!
A thread that sets flows up by itself. With nobody else about, its run depends on nothing but the
world and the activities on its stack, and what it makes of an activity does not depend on those
that wait below. So what an activity leads to is said once, for any stack below it, and put together
from what its parts lead to.
-/

namespace PullFlow.Engine

open Relation

/-- Whether an activity is part of the set-up of flows. -/
def Activity.readies : Activity → Bool
  | .write .. | .contextualize .. | .prepare .. | .wire .. | .setUpAll _ | .advance .. => true
  | _ => false

theorem rouse_of_readies {st : Scope.Store} {root : ScopeId} {a : Activity}
    (h : a.readies = true) : World.rouse st root a = a := by
  cases a <;> first | rfl | cases h

namespace World

variable {w w₁ w₂ w₃ : World} {a b c : Activity} {answer answer₁ answer₂ out : Outcome}
  {stack rest : List Activity}

/-- Thread 0 goes on by itself. -/
def Alone : World → World → Prop := ReflTransGen fun w w' => w.step 0 = some w'

/-- Two ways that a thread goes by itself are parts of one way. -/
theorem Alone.total (h : Alone w w₁) (h' : Alone w w₂) : Alone w₁ w₂ ∨ Alone w₂ w₁ := by
  refine ReflTransGen.total_of_right_unique (fun w w₁ w₂ h₁ h₂ => ?_) h h'
  exact Option.some.inj (h₁.symm.trans h₂)

theorem Alone.eq_of_over (h : Alone w w₁) (hover : w.step 0 = none) : w₁ = w := by
  obtain rfl | ⟨w', hstep, _⟩ := ReflTransGen.cases_head h
  · rfl
  · rw [hover] at hstep
    cases hstep

/-- Where a thread cannot go on is where its way ends. -/
theorem Alone.to_over (h : Alone w w₁) (h' : Alone w w₂) (hover : w₂.step 0 = none) :
    Alone w₁ w₂ := by
  obtain hway | hway := h.total h'
  · exact hway
  · rw [hway.eq_of_over hover]
    exact .refl

theorem Alone.rank_le (h : Alone w w₁) (f : FlowId) :
    (w.stateOf f).rank ≤ (w₁.stateOf f).rank := by
  induction h with
  | refl => exact Nat.le_refl _
  | tail _ hstep ih =>
      obtain ⟨a, ha⟩ := doing?_of_step hstep
      obtain ⟨_, w', turn, hgoes, rfl⟩ := goes_of_step ha hstep
      exact Nat.le_trans ih (hgoes.moves.rank_le f)

/-- The world with one thread, which is busy with a stack of activities. -/
def busy (w : World) (stack : List Activity) (answer : Outcome) : World :=
  { w with threads := [⟨stack, answer, [], none⟩] }

/-- The world with one thread, whose current activity took a turn. -/
def took (w : World) (rest : List Activity) (answer : Outcome) (turn : Turn) : World :=
  { w with threads := [(⟨[], answer, [], none⟩ : Thread).after rest turn] }

/-! What the set-up of flows does to the flows and scopes does not depend on the threads. -/

theorem wake_busy (w : World) (s : ScopeId) (hstack : ∀ b ∈ stack, b.readies = true) :
    (w.busy stack answer).wake s = (w.wake s).busy stack answer := by
  have hmap : stack.map (rouse w.scopes (w.scopes.rootOf s)) = stack :=
    (List.map_congr_left fun b hb => rouse_of_readies (hstack b hb)).trans (List.map_id stack)
  simp only [wake, busy, List.map_cons, List.map_nil, hmap]

section Threads

variable {t : ThreadId} {f : FlowId}

/-- A step in the world with one thread is the step in the world without it. -/
def Unmanned (stack : List Activity) (answer : Outcome) (r r' : Stepped) : Prop :=
  r' = r.map fun next => (next.1.busy stack answer, next.2)

theorem write_busy (hstack : ∀ b ∈ stack, b.readies = true) (s : ScopeId) (key : String)
    (e : Entry) (first : Bool) (p : WritePoint) :
    Unmanned stack answer (w.write s key e first p)
      ((w.busy stack answer).write s key e first p) := by
  unfold Unmanned
  cases p with
  | seek q =>
      cases q with
      | finished owner => cases owner <;> rfl
      | _ => rfl
  | store owner name =>
      cases first
      · rfl
      · simp only [write, if_pos]
        rw [show (w.busy stack answer).scopes = w.scopes from rfl]
        cases w.scopes.entry? owner name <;> rfl
  | wake =>
      simp only [write]
      rw [wake_busy w s hstack]
      change (if w.gateFree s = true then _ else _) = _
      split <;> rfl

theorem advance_busy (target : FlowState) (p : AdvancePoint) :
    Unmanned stack answer (w.advance f target p) ((w.busy stack answer).advance f target p) := by
  unfold Unmanned
  cases p with
  | swap =>
      simp only [advance]
      change Option.map _ (w.flow? f) = _
      cases w.flow? f with
      | none => rfl
      | some cell =>
          simp only [Option.map_some]
          split <;> rfl
  | emit before =>
      simp only [advance]
      change Option.map _ (w.flow? f) = _
      cases w.flow? f <;> rfl

theorem checkState_busy (state : FlowState) (next : Activity) :
    Unmanned stack answer (w.checkState f state next)
      ((w.busy stack answer).checkState f state next) := by
  unfold Unmanned checkState
  change Option.map _ (w.flow? f) = _
  cases w.flow? f with
  | none => rfl
  | some cell =>
      simp only [Option.map_some]
      split <;> rfl

theorem afterHook_busy (h : HookEnd FlowCell) (next : Activity) :
    (w.busy stack answer).afterHook f h next =
      ((w.afterHook f h next).1.busy stack answer, (w.afterHook f h next).2) := by
  simp only [afterHook]
  split <;> rfl

theorem onPipeline_busy (hook : Pipeline → HookEnd Pipeline) (next : Activity) :
    Unmanned stack answer (w.onPipeline f hook next)
      ((w.busy stack answer).onPipeline f hook next) := by
  unfold Unmanned onPipeline
  change (w.flow? f).bind _ = _
  cases w.flow? f with
  | none => rfl
  | some cell =>
      simp only [Option.bind_some]
      cases cell.holder with
      | some _ => rfl
      | none => exact congrArg some (afterHook_busy _ next)

theorem unlessFailed_busy (turn : Turn) :
    (w.busy stack answer).unlessFailed answer₁ (w.busy stack answer, turn) =
      ((w.unlessFailed answer₁ (w, turn)).1.busy stack answer,
        (w.unlessFailed answer₁ (w, turn)).2) := by
  cases answer₁ <;> rfl

theorem contextualize_busy (p : ContextPoint) :
    Unmanned stack answer (w.contextualize f answer₁ p)
      ((w.busy stack answer).contextualize f answer₁ p) := by
  cases p with
  | check => exact checkState_busy .init _
  | attach scope =>
      unfold Unmanned
      simp only [contextualize]
      change (w.flow? f).bind _ = _
      cases w.flow? f with
      | none => rfl
      | some cell => exact onPipeline_busy _ _
  | «global» scope =>
      unfold Unmanned
      simp only [contextualize]
      change (w.flow? f).map _ = _
      cases w.flow? f with
      | none => rfl
      | some cell => exact congrArg some (unlessFailed_busy _)
  | monitor scope =>
      unfold Unmanned
      simp only [contextualize]
      change (w.flow? f).map _ = _
      cases w.flow? f with
      | none => rfl
      | some cell => exact congrArg some (afterHook_busy _ _)
  | named scope => exact congrArg some (unlessFailed_busy _)
  | child | record scope | advance | advanced => rfl

theorem prepare_busy (p : PreparePoint) :
    Unmanned stack answer (w.prepare f p) ((w.busy stack answer).prepare f p) := by
  cases p with
  | check => exact checkState_busy .context _
  | components => exact onPipeline_busy _ _
  | monitor =>
      unfold Unmanned
      simp only [prepare]
      change (w.flow? f).map _ = _
      cases w.flow? f with
      | none => rfl
      | some cell => exact congrArg some (afterHook_busy _ _)
  | advance | advanced => rfl

theorem wire_busy (inflows : List Outflow) (p : WirePoint) :
    Unmanned stack answer (w.wire f inflows p) ((w.busy stack answer).wire f inflows p) := by
  cases p with
  | check => exact checkState_busy .setup _
  | source => exact onPipeline_busy _ _
  | advance | advanced => rfl

theorem setUpAll_busy (p : SetUpPoint) :
    Unmanned stack answer (w.setUpAll answer₁ p) ((w.busy stack answer).setUpAll answer₁ p) := by
  cases p with
  | context left | prepare left =>
      cases left <;> exact congrArg some (unlessFailed_busy _)
  | gather left done =>
      cases left with
      | nil => exact congrArg some (unlessFailed_busy _)
      | cons flow left =>
          unfold Unmanned
          simp only [setUpAll]
          change (w.outflowsOf flow).bind _ = _
          cases w.outflowsOf flow with
          | none => rfl
          | some more => exact congrArg some (unlessFailed_busy _)
  | wire left all =>
      cases left with
      | nil => exact congrArg some (unlessFailed_busy _)
      | cons flow left =>
          unfold Unmanned
          simp only [setUpAll]
          change (w.flow? flow).bind _ = _
          cases w.flow? flow with
          | none => rfl
          | some cell => exact congrArg some (unlessFailed_busy _)

theorem step_busy (ha : a.readies = true) (hstack : ∀ b ∈ stack, b.readies = true) :
    Unmanned stack answer (a.step w t answer₁) (a.step (w.busy stack answer) t answer₁) := by
  cases a with
  | write s key e first p => exact write_busy hstack s key e first p
  | advance f target p => exact advance_busy target p
  | contextualize f p => exact contextualize_busy p
  | prepare f p => exact prepare_busy p
  | wire f inflows p => exact wire_busy inflows p
  | setUpAll p => exact setUpAll_busy p
  | _ => cases ha

end Threads

/-- A step of the only thread. -/
theorem step_of_turn {turn : Turn} (ha : a.readies = true) (hrest : ∀ b ∈ rest, b.readies = true)
    (h : a.step w 0 answer = some (w₁, turn)) :
    (w.busy (a :: rest) answer).step 0 = some (w₁.took rest answer turn) := by
  have hstep : a.step (w.busy (a :: rest) answer) 0 answer = _ :=
    step_busy ha (List.forall_mem_cons.mpr ⟨ha, hrest⟩)
  rw [h] at hstep
  change Option.map _ (a.step (w.busy (a :: rest) answer) 0 answer) = _
  rw [hstep]
  cases turn with
  | exit out => cases rest <;> rfl
  | _ => rfl

/-- The activity `a` leads to `b` in its place, whatever waits below it. -/
def LeadsTo (w : World) (a : Activity) (answer : Outcome) (w₁ : World) (b : Activity)
    (answer₁ : Outcome) : Prop :=
  ∀ rest, (∀ c ∈ rest, c.readies = true) → Alone (w.busy (a :: rest) answer) (w₁.busy (b :: rest) answer₁)

/-- The activity `a` comes to its end with an outcome, whatever waits below it. -/
def Yields (w : World) (a : Activity) (answer : Outcome) (w₁ : World) (out : Outcome) : Prop :=
  ∀ rest, (∀ c ∈ rest, c.readies = true) →
    ∃ answer', Alone (w.busy (a :: rest) answer) (w₁.took rest answer' (.exit out))

theorem LeadsTo.refl (w : World) (a : Activity) (answer : Outcome) : LeadsTo w a answer w a answer :=
  fun _ _ => .refl

theorem LeadsTo.trans (h : LeadsTo w a answer w₁ b answer₁) (h' : LeadsTo w₁ b answer₁ w₂ c answer₂) :
    LeadsTo w a answer w₂ c answer₂ :=
  fun rest hrest => (h rest hrest).trans (h' rest hrest)

theorem LeadsTo.yields (h : LeadsTo w a answer w₁ b answer₁) (h' : Yields w₁ b answer₁ w₂ out) :
    Yields w a answer w₂ out := by
  intro rest hrest
  obtain ⟨answer', hway⟩ := h' rest hrest
  exact ⟨answer', (h rest hrest).trans hway⟩

theorem leads_of_goto (ha : a.readies = true)
    (h : a.step w 0 answer = some (w₁, .goto b answer₁)) : LeadsTo w a answer w₁ b answer₁ :=
  fun _ hrest => .single (step_of_turn ha hrest h)

theorem yields_of_exit (ha : a.readies = true) (h : a.step w 0 answer = some (w₁, .exit out)) :
    Yields w a answer w₁ out :=
  fun _ hrest => ⟨answer, .single (step_of_turn ha hrest h)⟩

theorem leads_of_invoke (ha : a.readies = true) (hc : c.readies = true)
    (h : a.step w 0 answer = some (w₁, .invoke b c)) (hb : Yields w₁ b (.ok .null) w₂ out) :
    LeadsTo w a answer w₂ c out := by
  intro rest hrest
  obtain ⟨answer', hway⟩ := hb (c :: rest) (List.forall_mem_cons.mpr ⟨hc, hrest⟩)
  exact .head (step_of_turn ha hrest h) hway

end World
end PullFlow.Engine
