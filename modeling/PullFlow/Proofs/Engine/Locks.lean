import PullFlow.Proofs.Engine.Turns
import PullFlow.Proofs.Ties

/-!
Who has the lock of which flow. An activity has at most one lock, at some of its points; it takes
it in one step and gives it back in another. While it has one it waits for activities of few sorts
only: an evaluation of the chain under that lock, a sink at the end of that flow, or a change of
state. A chain that is evaluated comes to other flows only along the ties of its own.
-/

namespace PullFlow.Engine

/-- The flow whose lock an activity has. -/
def Activity.holds? : Activity → Option FlowId
  | .read f .start | .read f (.unlock _) | .read f .pulled => some f
  | .push f _ .begin | .push f _ (.serving _) | .push f _ (.performed _) => some f
  | .call _ f _ .inject | .call _ f _ .pulled | .call _ f _ (.clear _) | .call _ f _ (.unlock _) =>
      some f
  | .finish f _ .components => some f
  | .run f _ .advance | .run f _ .advanced | .run f _ .release | .run f _ .start
  | .run f _ .abandon => some f
  | _ => none

/-- The flow whose lock an activity waits for before it goes on. -/
def Activity.awaits? : Activity → Option FlowId
  | .read f .lock | .push f _ .lock | .call _ f _ .lock | .finish f _ .lock | .run f _ .lock => some f
  | .sinksActive f | .contextualize f (.attach _) | .prepare f .components | .wire f _ .source =>
      some f
  | .setUpAll (.gather (f :: _) _) => some f
  | _ => none

/-- Where an activity stands among those that wait for each other. -/
inductive Layer where
  /-- It waits for no lock and for no activity that does. -/
  | leaf
  /-- It evaluates the chain of a flow under the lock of that flow. -/
  | inside (f : FlowId)
  /-- It is on its way into the chain of a flow or out of it. -/
  | entry (f : FlowId)
  /-- It waits for other activities without a lock. -/
  | outer

def Activity.layer : Activity → Layer
  | .look .. | .write .. | .close .. | .host _ | .advance .. | .sleep .. => .leaf
  | .pull f _ => .inside f
  | .read f _ | .demand f | .call _ f _ _ => .entry f
  | _ => .outer

/-- What is known of flows before they are set up: their names, which flows they may call by name,
which of them read what feeds them, and which may be read on demand by the flow of a name. -/
structure Plan where
  directory : Directory
  name : FlowId → String
  names : FlowId → String → Prop
  reads : FlowId → Prop
  feeds : FlowId → String → Prop

namespace Plan

variable (P : Plan) (f g : FlowId)

/-- A flow may call another one, which can be called. -/
def Calls : Prop :=
  ∃ target peer, P.names f target ∧ Fields.get? target P.directory = some peer ∧
    peer.callable = true ∧ peer.flow = g

/-- The flow of a name, which can be called. -/
def Meets (target : String) : Prop :=
  ∃ peer, Fields.get? target P.directory = some peer ∧ peer.callable = true ∧ peer.flow = g

/-- A flow may read the chain of another one on demand. -/
def Draws : Prop := P.reads f ∧ P.feeds g (P.name f)

/-- A read of one chain may come to another one. -/
def Leads : Prop := P.Calls f g ∨ P.Draws f g

def ties : Ties where
  reads := P.reads f
  names := P.names f
  calls target g := P.names f target ∧ P.Meets g target
  draws := P.Draws f
  feeds := P.feeds f

end Plan

variable {P : Plan}

/-- The components of a flow keep to the plan. -/
structure FlowCell.Tied (P : Plan) (f : FlowId) (cell : FlowCell) : Prop where
  name : cell.name = P.name f
  pipeline : cell.pipeline.Holds (SourceBody.Tied (P.ties f)) (OperatorBody.Tied (P.ties f))
    (SinkBody.Tied (P.feeds f) cell.sinkDriven)

/-- What an activity knows of connections between flows keeps to the plan. -/
def Activity.Tied (P : Plan) : Activity → Prop
  | .pull f p => p.Within (SourceWait.Tied (P.ties f))
  | .wire f inflows _ => ∀ o ∈ inflows, o.target = P.name f ∧ (o.onDemand = true → P.feeds o.flow o.target)
  | .setUpAll (.gather _ done) => ∀ o ∈ done, o.onDemand = true → P.feeds o.flow o.target
  | .setUpAll (.wire _ all) => ∀ o ∈ all, o.onDemand = true → P.feeds o.flow o.target
  | _ => True

/-- What an activity may wait for at a point. -/
def Opens (E : FlowId → FlowId → Prop) (back callee : Activity) : Prop :=
  match callee.layer with
  | .leaf => True
  | .inside f => back.holds? = some f
  | .entry g => (∃ f, back.layer = .inside f ∧ E f g) ∨ back.layer = .outer ∧ back.holds? = none
  | .outer => back.layer = .outer ∧ back.holds? = none

/-- A turn leaves an activity in its layer, and what it waits for is further inside. -/
def Turn.Nests (E : FlowId → FlowId → Prop) (a : Activity) : Turn → Prop
  | .goto b _ => b.layer = a.layer
  | .invoke callee back => back.layer = a.layer ∧ callee.holds? = none ∧ Opens E back callee
  | .exit _ => True

/-- The lock that an activity has after a turn. -/
def Turn.holds? : Turn → Option FlowId
  | .goto b _ => b.holds?
  | .invoke _ back => back.holds?
  | .exit _ => none

namespace World

/-- The thread that has the lock of a flow. -/
def holderOf (w : World) (f : FlowId) : Option ThreadId := (w.flow? f).bind (·.holder)

/-- All flows keep to the plan. -/
structure Tied (P : Plan) (w : World) : Prop where
  directory : w.directory = P.directory
  strict : w.stoppable = false
  cell : ∀ f cell, w.flow? f = some cell → cell.Tied P f

/-- What a step does to the locks: nothing, or it takes a free one, or gives one back. -/
inductive Grip (w : World) (t : ThreadId) (a : Activity) (w₁ : World) (turn : Turn) : Prop
  | keep : (∀ f, w₁.holderOf f = w.holderOf f) → turn.holds? = a.holds? → Grip w t a w₁ turn
  | take (f : FlowId) : w.holderOf f = none →
      (∀ g, w₁.holderOf g = if f = g then some t else w.holderOf g) → a.holds? = none →
      turn.holds? = some f → Grip w t a w₁ turn
  | drop (f : FlowId) : a.holds? = some f →
      (∀ g, w₁.holderOf g = if f = g then none else w.holderOf g) → turn.holds? = none →
      Grip w t a w₁ turn

/-- What a step may do: it keeps to the plan, waits further inside, and takes one lock at most. -/
structure Bounded (P : Plan) (w : World) (t : ThreadId) (a : Activity) (r : World × Turn) :
    Prop where
  tied : r.1.Tied P
  frames : ∀ b ∈ r.2.frames, b.Tied P
  nests : r.2.Nests P.Leads a
  grip : Grip w t a r.1 r.2

/-- Components and locks are as the plan and the threads have them. -/
structure Unmoved (P : Plan) (w w₁ : World) : Prop where
  tied : w.Tied P → w₁.Tied P
  holder : ∀ f, w₁.holderOf f = w.holderOf f

variable {w w₁ w₂ : World} {t : ThreadId} {f : FlowId}

namespace Unmoved

theorem refl (w : World) : Unmoved P w w := ⟨id, fun _ => rfl⟩

theorem trans (h : Unmoved P w w₁) (h' : Unmoved P w₁ w₂) : Unmoved P w w₂ :=
  ⟨h'.tied ∘ h.tied, fun f => (h'.holder f).trans (h.holder f)⟩

theorem modifyFlow {change : FlowCell → FlowCell}
    (htied : ∀ cell, w.flow? f = some cell → cell.Tied P f → (change cell).Tied P f)
    (hholder : ∀ cell, w.flow? f = some cell → (change cell).holder = cell.holder) :
    Unmoved P w (w.modifyFlow f change) := by
  constructor
  · intro h
    refine ⟨h.directory, h.strict, fun g cell hcell => ?_⟩
    rw [flow?_modifyFlow] at hcell
    split at hcell
    · next hfg =>
      subst hfg
      obtain ⟨old, hold, rfl⟩ := Option.map_eq_some_iff.mp hcell
      exact htied old hold (h.cell f old hold)
    · exact h.cell g cell hcell
  · intro g
    rw [holderOf, holderOf, flow?_modifyFlow]
    split
    · next hfg =>
      subst hfg
      cases hcell : w.flow? f with
      | none => rfl
      | some cell => exact hholder cell hcell
    · rfl

/-- A change of a flow that leaves its components. -/
theorem modifyRest {change : FlowCell → FlowCell} (hname : ∀ cell, (change cell).name = cell.name)
    (hpipeline : ∀ cell, (change cell).pipeline = cell.pipeline)
    (hdriven : ∀ cell, (change cell).sinkDriven = cell.sinkDriven)
    (hholder : ∀ cell, (change cell).holder = cell.holder) : Unmoved P w (w.modifyFlow f change) := by
  refine modifyFlow (fun cell _ h => ⟨(hname cell).trans h.name, ?_⟩) fun cell _ => hholder cell
  rw [hpipeline, hdriven]
  exact h.pipeline

theorem setPipeline {p : Pipeline} (hp : ∀ cell, w.flow? f = some cell → cell.Tied P f →
      p.Holds (SourceBody.Tied (P.ties f)) (OperatorBody.Tied (P.ties f))
        (SinkBody.Tied (P.feeds f) cell.sinkDriven)) : Unmoved P w (w.setPipeline f p) :=
  modifyFlow (fun cell hcell h => ⟨h.name, hp cell hcell h⟩) fun _ _ => rfl

theorem scopes (st : Scope.Store) : Unmoved P w { w with scopes := st } :=
  ⟨fun h => ⟨h.directory, h.strict, h.cell⟩, fun _ => rfl⟩

theorem jot (notes : List Note) : Unmoved P w (w.jot notes) :=
  ⟨fun h => ⟨h.directory, h.strict, h.cell⟩, fun _ => rfl⟩

theorem emit (e : Event) : Unmoved P w (w.emit e) :=
  ⟨fun h => ⟨h.directory, h.strict, h.cell⟩, fun _ => rfl⟩

theorem wake (s : ScopeId) : Unmoved P w (w.wake s) :=
  ⟨fun h => ⟨h.directory, h.strict, h.cell⟩, fun _ => rfl⟩

theorem modifyThread (change : Thread → Thread) : Unmoved P w (w.modifyThread t change) :=
  ⟨fun h => ⟨h.directory, h.strict, h.cell⟩, fun _ => rfl⟩

theorem spawn (a : Activity) : Unmoved P w (w.spawn a).1 :=
  ⟨fun h => ⟨h.directory, h.strict, h.cell⟩, fun _ => rfl⟩

theorem enterGate {s : ScopeId} (h : w.enterGate t s = some w₁) : Unmoved P w w₁ := by
  unfold World.enterGate at h
  dsimp only at h
  split at h
  · split at h
    · cases h
      exact scopes _
    · cases h
  · cases h

theorem turn (turn : Turn) : Unmoved P w (w.turn t turn) := modifyThread _

theorem tick (nanos : Nat) : Unmoved P w (w.tick nanos) :=
  ⟨fun h => ⟨h.directory, h.strict, h.cell⟩, fun _ => rfl⟩

end Unmoved

theorem lock_eq_some (h : w.lock t f = some w₁) : w.holderOf f = none ∧ (w.Tied P → w₁.Tied P) ∧
    ∀ g, w₁.holderOf g = if f = g then some t else w.holderOf g := by
  unfold World.lock at h
  split at h
  · next cell hcell =>
    split at h
    · next hfree =>
      cases h
      refine ⟨by rw [holderOf, hcell]; exact hfree, fun htied => ?_, fun g => ?_⟩
      · refine ⟨htied.directory, htied.strict, fun g other hother => ?_⟩
        rw [flow?_modifyFlow] at hother
        split at hother
        · next hfg =>
          subst hfg
          obtain ⟨old, hold, rfl⟩ := Option.map_eq_some_iff.mp hother
          exact ⟨(htied.cell f old hold).name, (htied.cell f old hold).pipeline⟩
        · exact htied.cell g other hother
      · rw [holderOf, flow?_modifyFlow]
        split
        · next hfg =>
          subst hfg
          rw [hcell]
          rfl
        · rfl
    · cases h
  · cases h

theorem holderOf_unlock (w : World) (f g : FlowId) :
    (w.unlock f).holderOf g = if f = g then none else w.holderOf g := by
  rw [holderOf, unlock, flow?_modifyFlow]
  split
  · next hfg =>
    subst hfg
    cases w.flow? f <;> rfl
  · rfl

theorem tied_unlock (h : w.Tied P) (f : FlowId) : (w.unlock f).Tied P := by
  refine ⟨h.directory, h.strict, fun g cell hcell => ?_⟩
  rw [unlock, flow?_modifyFlow] at hcell
  split at hcell
  · next hfg =>
    subst hfg
    obtain ⟨old, hold, rfl⟩ := Option.map_eq_some_iff.mp hcell
    exact ⟨(h.cell f old hold).name, (h.cell f old hold).pipeline⟩
  · exact h.cell g cell hcell

namespace Bounded

variable {a b callee back : Activity} {out : Outcome}

theorem goto (htied : w.Tied P) (hunmoved : Unmoved P w w₁) (hlayer : b.layer = a.layer)
    (hholds : b.holds? = a.holds?) (hb : b.Tied P) : Bounded P w t a (w₁, .goto b out) :=
  ⟨hunmoved.tied htied, List.forall_mem_singleton.mpr hb, hlayer, .keep hunmoved.holder hholds⟩

theorem invoke (htied : w.Tied P) (hunmoved : Unmoved P w w₁) (hlayer : back.layer = a.layer)
    (hholds : back.holds? = a.holds?) (hcallee : callee.holds? = none)
    (hopens : Opens P.Leads back callee) (hc : callee.Tied P) (hb : back.Tied P) :
    Bounded P w t a (w₁, .invoke callee back) :=
  ⟨hunmoved.tied htied, List.forall_mem_cons.mpr ⟨hc, List.forall_mem_singleton.mpr hb⟩,
    ⟨hlayer, hcallee, hopens⟩, .keep hunmoved.holder hholds⟩

theorem exit (htied : w.Tied P) (hunmoved : Unmoved P w w₁) (hholds : a.holds? = none) :
    Bounded P w t a (w₁, .exit out) :=
  ⟨hunmoved.tied htied, (fun _ hb => nomatch hb), trivial, .keep hunmoved.holder hholds.symm⟩

theorem lock (htied : w.Tied P) (hlock : w.lock t f = some w₁) (hlayer : b.layer = a.layer)
    (hfree : a.holds? = none) (hholds : b.holds? = some f) (hb : b.Tied P) :
    Bounded P w t a (w₁, .goto b out) := by
  obtain ⟨hnone, hkeeps, hholder⟩ := lock_eq_some (P := P) hlock
  exact ⟨hkeeps htied, List.forall_mem_singleton.mpr hb, hlayer, .take f hnone hholder hfree hholds⟩

theorem unlock (htied : w.Tied P) (hunmoved : Unmoved P w w₁) (hlayer : b.layer = a.layer)
    (hholds : a.holds? = some f) (hfree : b.holds? = none) (hb : b.Tied P) :
    Bounded P w t a (w₁.unlock f, .goto b out) := by
  refine ⟨tied_unlock (hunmoved.tied htied) f, List.forall_mem_singleton.mpr hb, hlayer,
    .drop f hholds (fun g => ?_) hfree⟩
  rw [holderOf_unlock, hunmoved.holder]

theorem unlockExit (htied : w.Tied P) (hholds : a.holds? = some f) :
    Bounded P w t a (w.unlock f, .exit out) :=
  ⟨tied_unlock htied f, (fun _ hb => nomatch hb), trivial, .drop f hholds (holderOf_unlock w f) rfl⟩

end Bounded

end World
end PullFlow.Engine
