import PullFlow.Proofs.Engine.Bracketing
import PullFlow.Proofs.Homes

/-!
The scopes of flows. The context pass makes a scope, attaches the components of a flow in it, and
gives it to the flow afterwards. So the scope that a flow has is the one that its source looks in,
and a read of a variable that a chain has asked for goes on in that scope. Whoever is past the
context pass of a flow, in its passes or in its run, finds that it has its scope.
-/

namespace PullFlow.Engine

/-- The points of a context pass and those that it may go on at. -/
inductive ContextPoint.Leads : ContextPoint → ContextPoint → Prop
  | child : Leads .check .child
  | «global» {s : ScopeId} : Leads .child (.global s)
  | named {s : ScopeId} : Leads (.global s) (.named s)
  | attach {s : ScopeId} : Leads (.named s) (.attach s)
  | monitor {s : ScopeId} : Leads (.attach s) (.monitor s)
  | record {s : ScopeId} : Leads (.monitor s) (.record s)
  | advance {s : ScopeId} : Leads (.record s) .advance
  | advanced : Leads .advance .advanced

/-- The scope that a context pass has made. -/
def ContextPoint.scope? : ContextPoint → Option ScopeId
  | .global s | .named s | .attach s | .monitor s | .record s => some s
  | _ => none

/-- The scope in which a context pass has attached the components. -/
def ContextPoint.home? : ContextPoint → Option ScopeId
  | .monitor s | .record s => some s
  | _ => none

/-- Whether an activity goes on only with a flow that has its scope. -/
def Activity.sited (f : FlowId) : Activity → Bool
  | .contextualize g .advance | .contextualize g .advanced => decide (g = f)
  | .advance g target _ => decide (g = f) && decide (target.rank < FlowState.ending.rank)
  | .prepare _ .check | .wire _ _ .check => false
  | .prepare g _ | .wire g _ _ => decide (g = f)
  | .launch g true => decide (g = f)
  | .run g _ _ => decide (g = f)
  | _ => false

theorem sited_quiet (f : FlowId) (a : Activity) : (quiet a).sited f = a.sited f := by
  cases a <;> rfl

theorem sited_of_begins {f : FlowId} {a : Activity} (h : a.begins = true) :
    a.sited f = false := by
  unfold Activity.begins at h
  split at h <;> first | rfl | cases h

namespace World

variable {w w₁ start : World} {t u : ThreadId} {f g : FlowId} {a b : Activity} {answer : Outcome}
  {cell : FlowCell} {p : Pipeline} {s : ScopeId} {turn : Turn} {rest : List Activity}
  {trace : List Taken}

/-- The scope in which the source of a flow is attached. -/
def home? (w : World) (f : FlowId) : Option ScopeId := (w.pipeline? f).bind Pipeline.home?

theorem homed_setInjected (v : Option Value) (h : p.Homed) : p.Stays (setInjected v p) := by
  unfold setInjected
  split
  · exact Component.Homed.body h trivial
  · exact Component.Homed.stays h

/-- Whatever works on a flow leaves its source where it is attached. -/
theorem Works.stays {parked : Option Monitor} (h : Works w answer f cell a p parked)
    (hhomed : cell.pipeline.Homed) : cell.pipeline.Stays p := by
  cases h with
  | pull => exact (hhomed.step _ _ _).1
  | inject | clear => exact homed_setInjected _ hhomed
  | start =>
      dsimp only [Pipeline.Stays]
      rw [Pipeline.source_start]
      exact Component.Homed.start hhomed
  | stop => exact Component.Homed.stop hhomed
  | attach =>
      dsimp only [Pipeline.Stays]
      rw [Pipeline.source_setContext]
      exact Component.Homed.setContext hhomed _
  | setUp =>
      dsimp only [Pipeline.Stays]
      rw [Pipeline.source_setUp]
      exact Component.Homed.setUp hhomed _
  | wire => exact hhomed.wire _
  | monitor =>
      unfold attachMonitor
      split <;> exact Component.Homed.stays hhomed
  | _ => exact Component.Homed.stays hhomed

/-- A flow is given a scope at the end of its context pass, and keeps the one it has till then. -/
theorem Acts.scope (h : Acts w t answer a w₁) (f : FlowId) : w₁.scope? f = w.scope? f ∨
    ∃ s, a = .contextualize f (.record s) ∧ w₁.scope? f = some s := by
  have hkeep {g : FlowId} {change : FlowCell → FlowCell}
      (hscope : ∀ cell, (change cell).scope = cell.scope) :
      (w.modifyFlow g change).scope? f = w.scope? f := by
    rw [scope?, flow?_modifyFlow, scope?]
    split
    · cases w.flow? f with
      | none => rfl
      | some cell => exact hscope cell
    · rfl
  cases h with
  | leaves _ hleaves => exact .inl (hleaves.scope f)
  | works _ _ hleaves => exact .inl ((hleaves.scope f).trans (hkeep fun _ => rfl))
  | release | unlatch | cut => exact .inl (hkeep fun _ => rfl)
  | @record g s =>
      rw [scope?, flow?_modifyFlow, scope?]
      by_cases hgf : g = f
      · subst hgf
        rw [if_pos rfl]
        cases w.flow? g with
        | none => exact .inl rfl
        | some cell => exact .inr ⟨s, rfl, rfl⟩
      · rw [if_neg hgf]
        exact .inl rfl
  | _ => exact .inl rfl

/-- Scopes stay, and closed ones are not opened again. -/
theorem Acts.lasts (h : Acts w t answer a w₁) : w.scopes.Lasts w₁.scopes := by
  cases h with
  | leaves _ hleaves | works _ _ hleaves => exact hleaves.lasts
  | _ => exact .refl _

/-- A context pass goes on at its next point. -/
theorem contextualize_leads {q q' : ContextPoint} {r : World × Turn}
    (h : w.contextualize f answer q = some r) (hb : .contextualize g q' ∈ r.2.frames) :
    g = f ∧ q.Leads q' := by
  have hnext {next : World × Turn} (hb : .contextualize g q' ∈ (w.unlessFailed answer next).2.frames) :
      .contextualize g q' ∈ next.2.frames := by
    cases answer with
    | ok v => exact hb
    | error e => cases hb
  have hwrite {s : ScopeId} {key : String} {e : Entry} {first : Bool} {back : ContextPoint}
      (hb : .contextualize g q' ∈ (Turn.invoke (writeTo s key e first) (.contextualize f back)).frames) :
      Activity.contextualize g q' = .contextualize f back := by
    obtain hsame | hb := List.mem_cons.mp hb
    · cases hsame
    · exact List.mem_singleton.mp hb
  cases q with
  | check =>
      cases (mem_checkState h hb).1
      exact ⟨rfl, .child⟩
  | child =>
      cases h
      cases hwrite hb
      exact ⟨rfl, .global⟩
  | «global» s =>
      obtain ⟨cell, _, rfl⟩ := Option.map_eq_some_iff.mp h
      cases hwrite (hnext hb)
      exact ⟨rfl, .named⟩
  | named s =>
      cases h
      cases List.mem_singleton.mp (hnext hb)
      exact ⟨rfl, .attach⟩
  | attach s =>
      obtain ⟨cell, _, h⟩ := Option.bind_eq_some_iff.mp h
      obtain ⟨cell', _, h⟩ := Option.bind_eq_some_iff.mp h
      split at h <;> cases h
      cases (mem_afterHook hb).1
      exact ⟨rfl, .monitor⟩
  | monitor s =>
      obtain ⟨cell, _, rfl⟩ := Option.map_eq_some_iff.mp h
      cases (mem_afterHook hb).1
      exact ⟨rfl, .record⟩
  | record s =>
      cases h
      cases List.mem_singleton.mp hb
      exact ⟨rfl, .advance⟩
  | advance =>
      cases h
      obtain hsame | hb := List.mem_cons.mp hb
      · cases hsame
      · cases List.mem_singleton.mp hb
        exact ⟨rfl, .advanced⟩
  | advanced =>
      cases h
      cases hb

/-- The components of a flow are attached in the scope that the pass has made. -/
theorem home_of_attach {q : ContextPoint} {r : World × Turn}
    (h : w.contextualize f answer (.attach s) = some r) (hb : .contextualize f q ∈ r.2.frames) :
    r.1.home? f = some s := by
  obtain ⟨cell, _, h⟩ := Option.bind_eq_some_iff.mp h
  obtain ⟨cell', hcell', h⟩ := Option.bind_eq_some_iff.mp h
  split at h <;> cases h
  have hok : (cell'.pipeline.setContext (w.contextOf cell s)).result = .ok () := (mem_afterHook hb).2
  rw [home?, pipeline?_afterHook hcell']
  exact Pipeline.home_setContext hok

/-- A read of a variable that is asked for is at its start. It is a chain that asks for it, and if
the source of the chain looks where it is attached, the read is from there. -/
theorem look_of_asked {back : Activity} {key : String} {wait : Bool} {q : LookPoint}
    (hstep : a.step w t answer = some (w₁, .invoke (.look s key wait q) back)) :
    Activity.look s key wait q = lookFor s key wait ∧ ∃ f r, back = .pull f r ∧
      ((∀ p, w.pipeline? f = some p → p.Homed) → w.home? f = some s) := by
  have hserve {w' : World} {r : Request} {back' : Activity}
      (h : w'.serve r back' = (w₁, .invoke (.look s key wait q) back)) :
      r = .look s key wait ∧ Activity.look s key wait q = lookFor s key wait := by
    unfold World.serve at h
    split at h
    · cases h
      exact ⟨rfl, rfl⟩
    · cases h
    · cases h
    · split at h <;> cases h
    · cases h
    · split at h <;> cases h
    · cases h
  have hsink {f : FlowId} {v : Value} {cell : FlowCell} {m : SinkBody × SinkMove}
      (hm : ∀ r wait, m.2 = .ask r wait → r.looks = false)
      (h : w.afterSink f v cell m = (w₁, .invoke (.look s key wait q) back)) : False := by
    obtain ⟨body, move⟩ := m
    cases move with
    | done d => cases h
    | ask r wait' =>
        obtain ⟨rfl, _⟩ := hserve h
        cases hm _ _ rfl
  obtain ⟨hasks, hgoes⟩ := step_stacks hstep
  cases hasks with
  | @chain f q' _ hr =>
      cases hgoes with
      | @pull _ q₀ _ =>
          obtain ⟨cell, hcell, h⟩ := Option.map_eq_some_iff.mp hstep
          have hpipeline : w.pipeline? f = some cell.pipeline := by rw [pipeline?, hcell]; rfl
          dsimp only at h
          split at h
          · cases h
          · next r' q'' hmove =>
            obtain ⟨rfl, hstart⟩ := hserve h
            refine ⟨hstart, f, q', rfl, fun hhomed => ?_⟩
            rw [home?, hpipeline]
            exact ((hhomed _ hpipeline).step w.clock q₀ answer).2 _ _ hmove
          · cases h
  | @sink f v wait' _ hr =>
      cases hgoes with
      | @push _ _ q₀ _ =>
          cases q₀ with
          | begin =>
              obtain ⟨cell, _, h⟩ := Option.map_eq_some_iff.mp hstep
              exact (hsink (fun _ _ => SinkBody.looks_perform) h).elim
          | serving wait₀ =>
              obtain ⟨cell, _, h⟩ := Option.map_eq_some_iff.mp hstep
              exact (hsink (fun _ _ => SinkBody.looks_resume) h).elim
          | lock =>
              obtain ⟨w', _, h⟩ := Option.map_eq_some_iff.mp hstep
              cases h
          | performed d => cases d <;> cases hstep
          | emit =>
              obtain ⟨cell, _, h⟩ := Option.map_eq_some_iff.mp hstep
              cases h

/-- Where flows live: their sources look where they are attached, and that is the scope that a
context pass has made and the one that the flow is given. -/
structure Housed (w : World) : Prop where
  homed : ∀ f p, w.pipeline? f = some p → p.Homed
  made : ∀ t f q s, .contextualize f q ∈ w.tasks t → q.scope? = some s → s ∈ w.scopes
  placed : ∀ t f q s, .contextualize f q ∈ w.tasks t → q.home? = some s → w.home? f = some s
  recorded : ∀ f s, w.scope? f = some s → w.home? f = some s ∧ s ∈ w.scopes
  looks : ∀ t s key wait q below rest, w.tasks t = .look s key wait q :: below :: rest →
    ∃ f r, below = .pull f r ∧ w.home? f = some s

namespace Housed

/-- A source that is attached stays where it is. -/
theorem home (h : Housed w) (hacts : Acts w t answer a w₁) (hs : w.home? f = some s) :
    w₁.home? f = some s := by
  obtain ⟨p, hp, hhome⟩ := Option.bind_eq_some_iff.mp hs
  obtain ⟨hpipeline, _⟩ | ⟨cell, p', parked, hcell, hworks, hpipeline, _⟩ := hacts.parts f
  · rw [home?, hpipeline]
    exact hs
  · have hbefore : w.pipeline? f = some cell.pipeline := by rw [pipeline?, hcell]; rfl
    rw [hbefore] at hp
    cases hp
    rw [home?, hpipeline]
    exact (hworks.stays (h.homed f _ hbefore)).home s hhome

theorem takes (h : Housed w) (hstacked : ∀ u, Stacked (w.tasks u))
    (htakes : Takes w t a rest w₁ turn) : Housed (w₁.turn t turn) := by
  have htasks := htakes.goes.tasks
  have hhome {f : FlowId} {s : ScopeId} (hs : w.home? f = some s) :
      (w₁.turn t turn).home? f = some s :=
    show w₁.home? f = some s from h.home htakes.acts hs
  have hlasts : w.scopes.Lasts (w₁.turn t turn).scopes := htakes.acts.lasts
  -- a context pass was at the point before, or it is the one that takes the turn
  have hpass {u : ThreadId} {f : FlowId} {q : ContextPoint}
      (hmem : .contextualize f q ∈ (w₁.turn t turn).tasks u) : .contextualize f q ∈ w.tasks u ∨
      q = .check ∨ ∃ q₀, .contextualize f q₀ ∈ w.tasks t ∧ q₀.Leads q ∧
        w.contextualize f (w.answerOf t) q₀ = some (w₁, turn) ∧ .contextualize f q ∈ turn.frames := by
    obtain hmem | ⟨_, c, hc, hsame⟩ | ⟨_, _, _, hsame, _⟩ := htakes.mem hmem
    · exact .inl hmem
    · obtain rfl := eq_of_quiet_eq hsame fun _ _ _ _ => Activity.noConfusion
      have hstep := htakes.step_of_mem hc
      obtain hgoes | ⟨back, _, hasks, _⟩ := htakes.stacks.of_mem hc
      · cases hgoes with
        | contextualize => exact .inr (.inr ⟨_, htakes.top, (contextualize_leads hstep hc).2, hstep, hc⟩)
      · cases hasks with
        | chain hr | sink hr => cases hr
        | context => exact .inr (.inl rfl)
    · cases hsame
  refine ⟨?_, ?_, ?_, ?_, ?_⟩
  · intro f p hp
    obtain ⟨hpipeline, _⟩ | ⟨cell, p', parked, hcell, hworks, hpipeline, _⟩ := htakes.acts.parts f
    · exact h.homed f p (hpipeline ▸ hp)
    · obtain rfl : p' = p := Option.some.inj (hpipeline.symm.trans hp)
      have hbefore : w.pipeline? f = some cell.pipeline := by rw [pipeline?, hcell]; rfl
      exact (hworks.stays (h.homed f _ hbefore)).homed
  · intro u f q s hmem hq
    obtain hmem | rfl | ⟨q₀, hmem₀, hleads, hstep, hc⟩ := hpass hmem
    · exact hlasts.mem s (h.made u f q s hmem hq)
    · cases hq
    · cases hleads with
      | «global» =>
          cases hstep
          obtain hsame | hc := List.mem_cons.mp hc
          · cases hsame
          · cases List.mem_singleton.mp hc
            cases hq
            exact Scope.Store.mem_addChild_self _ _
      | named | attach | monitor | record => exact hlasts.mem s (h.made t f _ s hmem₀ hq)
      | _ => cases hq
  · intro u f q s hmem hq
    obtain hmem | rfl | ⟨q₀, hmem₀, hleads, hstep, hc⟩ := hpass hmem
    · exact hhome (h.placed u f q s hmem hq)
    · cases hq
    · cases hleads with
      | monitor =>
          cases hq
          exact home_of_attach hstep hc
      | record => exact hhome (h.placed t f _ s hmem₀ hq)
      | _ => cases hq
  · intro f s hs
    obtain hsame | ⟨s', rfl, hs'⟩ := htakes.acts.scope f
    · obtain ⟨hsource, hmem⟩ := h.recorded f s (hsame ▸ hs)
      exact ⟨hhome hsource, hlasts.mem s hmem⟩
    · obtain rfl : s' = s := Option.some.inj (hs'.symm.trans hs)
      exact ⟨hhome (h.placed t f _ s' htakes.top rfl), hlasts.mem s' (h.made t f _ s' htakes.top rfl)⟩
  · intro u s key wait q below rest' hlook
    have hbefore {v : ThreadId} {q' : LookPoint} (hv : w.tasks v = .look s key wait q' :: below :: rest') :
        ∃ f r, below = .pull f r ∧ (w₁.turn t turn).home? f = some s := by
      obtain ⟨f, r, hbelow, hs⟩ := h.looks v s key wait q' below rest' hv
      exact ⟨f, r, hbelow, hhome hs⟩
    by_cases hu : u = t
    · subst hu
      rw [htakes.goes.tasks_self] at hlook
      cases turn with
      | goto b out =>
          have hgoes : a.Continues b := htakes.stacks
          injection hlook with hb hrest
          cases b with
          | look s' key' wait' q' =>
              cases hb
              cases hgoes with
              | look => exact hbefore (htasks.trans (congrArg _ hrest))
          | _ => cases hb
      | invoke callee back =>
          injection hlook with hcallee hlook
          injection hlook with hback _
          cases callee with
          | look s' key' wait' q' =>
              cases hcallee
              have hstep := htakes.step_of_mem (List.mem_cons_self (a := Activity.look s key wait q'))
              obtain ⟨_, f, r, rfl, hs⟩ := look_of_asked hstep
              exact ⟨f, r, hback.symm, hhome (hs (h.homed f))⟩
          | _ => cases hcallee
      | exit out =>
          -- nothing stands above a read
          obtain hstacked := hstacked u
          rw [htasks, show rest = _ from hlook] at hstacked
          cases hstacked with
          | cons hawaits _ =>
              obtain ⟨callee, hasks, _⟩ := hawaits
              cases hasks with
              | move hmover => cases hmover
    · obtain hsame | ⟨_, g, m, _, _, hnew⟩ := htakes.goes.tasks_of_ne hu
      · exact hbefore (hsame ▸ hlook)
      · rw [hnew] at hlook
        cases hlook

theorem tick (h : Housed w) (nanos : Nat) : Housed (w.tick nanos) :=
  ⟨h.homed, h.made, h.placed, h.recorded, h.looks⟩

end Housed

theorem Run.housed (h : Run start trace w) (hstacked : ∀ u, Stacked (start.tasks u))
    (hstart : Housed start) : Housed w :=
  (h.every (P := fun _ w => (∀ u, Stacked (w.tasks u)) ∧ Housed w) ⟨hstacked, hstart⟩
    (fun _ _ nanos hw => ⟨hw.1, hw.2.tick nanos⟩)
    fun _ _ _ _ _ _ _ htakes hw => ⟨htakes.stacked hw.1, hw.2.takes hw.1 htakes⟩).2

/-- Whoever goes past the context pass of a flow has been there before, gives the flow its scope, or
finds the flow past the pass. -/
theorem sited_of_continues (h : a.step w t answer = some (w₁, turn)) (hb : b ∈ turn.frames)
    (hgoes : a.Continues b) (hsited : b.sited f = true) : a.sited f = true ∨
      (∃ s, a = .contextualize f (.record s)) ∨
        FlowState.context.rank ≤ (w.stateOf f).rank ∧ w.stopping f = false := by
  have hstate {state : FlowState} (hf : w.stateOf f = state)
      (hlow : FlowState.context.rank ≤ state.rank) (hhigh : state.rank < FlowState.ending.rank) :
      FlowState.context.rank ≤ (w.stateOf f).rank ∧ w.stopping f = false := by
    rw [stopping, hf]
    exact ⟨hlow, decide_eq_false (Nat.not_le_of_lt hhigh)⟩
  cases hgoes with
  | advance => exact .inl hsited
  | @contextualize g q q' =>
      obtain ⟨_, hleads⟩ := contextualize_leads h hb
      cases hleads with
      | @advance s =>
          obtain rfl : g = f := of_decide_eq_true hsited
          exact .inr (.inl ⟨s, rfl⟩)
      | advanced => exact .inl hsited
      | _ => cases hsited
  | @prepare g q q' =>
      have hgf : g = f := by
        cases q' <;> first | exact of_decide_eq_true hsited | cases hsited
      subst hgf
      cases q with
      | check => exact .inr (.inr (hstate (mem_checkState h hb).2 (by decide) (by decide)))
      | _ => exact .inl (decide_eq_true rfl)
  | @wire g inflows q q' =>
      have hgf : g = f := by
        cases q' <;> first | exact of_decide_eq_true hsited | cases hsited
      subst hgf
      cases q with
      | check => exact .inr (.inr (hstate (mem_checkState h hb).2 (by decide) (by decide)))
      | _ => exact .inl (decide_eq_true rfl)
  | @check g checked =>
      obtain rfl : g = f := of_decide_eq_true hsited
      cases checked with
      | true => exact .inl hsited
      | false =>
          have hwired := (mem_checkState ((launch_unchecked w g).symm.trans h) hb).2
          exact .inr (.inr (hstate hwired (by decide) (by decide)))
  | launch | run => exact .inl hsited
  | _ => cases hsited

theorem sited_of_step (h : a.step w t answer = some (w₁, turn)) (hb : b ∈ turn.frames)
    (hsited : b.sited f = true) : a.sited f = true ∨
      (∃ s, a = .contextualize f (.record s)) ∨
        FlowState.context.rank ≤ (w.stateOf f).rank ∧ w.stopping f = false := by
  obtain hgoes | ⟨back, hback, hasks, hgoes⟩ := (step_stacks h).of_mem hb
  · exact sited_of_continues h hb hgoes hsited
  · refine sited_of_continues h hback hgoes ?_
    -- a flow is moved up to its start only by those who are past the pass
    cases hasks with
    | move hmover =>
        obtain ⟨hflow, hlow⟩ := (Bool.and_eq_true _ _).mp hsited
        cases hmover with
        | stop | run | finish => exact absurd (of_decide_eq_true hlow) (by decide)
        | _ => exact hflow
    | chain hr | sink hr => cases b <;> first | cases hsited | cases hr
    | _ => cases hsited

/-- Whoever is past the context pass of a flow finds that it has its scope. -/
structure Sited (f : FlowId) (w : World) : Prop where
  past : ∀ t, ∀ a ∈ w.tasks t, a.sited f = true → (w.scope? f).isSome = true
  state : FlowState.context.rank ≤ (w.stateOf f).rank → w.stopping f = false →
    (w.scope? f).isSome = true

theorem Acts.scope_isSome (h : Acts w t answer a w₁) (hsome : (w.scope? f).isSome = true) :
    (w₁.scope? f).isSome = true := by
  obtain hsame | ⟨s, _, hs⟩ := h.scope f
  · rw [hsame]
    exact hsome
  · rw [hs]
    rfl

namespace Sited

theorem takes (h : Sited f w) (hflow : ∃ cell, w.flow? f = some cell)
    (htakes : Takes w t a rest w₁ turn) : Sited f (w₁.turn t turn) := by
  have hkeep : (w.scope? f).isSome = true → (w₁.scope? f).isSome = true := htakes.acts.scope_isSome
  have htop : a.sited f = true → (w₁.scope? f).isSome = true := fun hsited =>
    hkeep (h.past t _ htakes.top (by rw [sited_quiet]; exact hsited))
  constructor
  · intro u b hmem hsited
    change (w₁.scope? f).isSome = true
    obtain hmem | ⟨_, c, hc, rfl⟩ | ⟨g, m, rfl, rfl, _⟩ := htakes.mem hmem
    · exact hkeep (h.past u b hmem hsited)
    · rw [sited_quiet] at hsited
      obtain hbefore | ⟨s, rfl⟩ | ⟨hlow, hgoing⟩ :=
        sited_of_step (htakes.step_of_mem hc) hc hsited
      · exact htop hbefore
      · obtain ⟨cell, hcell⟩ := hflow
        cases htakes.step_of_mem hc
        rw [scope?, flow?_modifyFlow, if_pos rfl, hcell]
        rfl
      · exact hkeep (h.state hlow hgoing)
    · exact htop hsited
  · intro hlow hgoing
    change (w₁.scope? f).isSome = true
    change FlowState.context.rank ≤ (w₁.stateOf f).rank at hlow
    change w₁.stopping f = false at hgoing
    obtain hsame | ⟨target, rfl, _, hafter, _⟩ := htakes.goes.moves.state f
    · rw [hsame] at hlow
      rw [stopping, hsame] at hgoing
      exact hkeep (h.state hlow hgoing)
    · refine htop ?_
      rw [stopping, hafter] at hgoing
      exact (Bool.and_eq_true _ _).mpr
        ⟨decide_eq_true rfl, decide_eq_true (Nat.lt_of_not_le (of_decide_eq_false hgoing))⟩

theorem tick (h : Sited f w) (nanos : Nat) : Sited f (w.tick nanos) := ⟨h.past, h.state⟩

/-- A flow that is not set up and that nobody sets up. -/
theorem init (hstate : w.stateOf f = .init)
    (hbegins : ∀ u, ∀ b ∈ w.tasks u, ∃ a : Activity, a.begins = true ∧ b = quiet a) :
    Sited f w := by
  constructor
  · intro u b hmem hsited
    obtain ⟨a, ha, rfl⟩ := hbegins u b hmem
    rw [sited_quiet, sited_of_begins ha] at hsited
    cases hsited
  · intro hlow _
    rw [hstate] at hlow
    exact absurd hlow (by decide)

end Sited

end World
end PullFlow.Engine
