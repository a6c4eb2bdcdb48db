import PullFlow.Proofs.Engine.Points
import PullFlow.Proofs.Hooks

/-!
Flows that are set up. Whoever is past the set-up of a flow, in its passes or in its start, finds
all its components set up, and so does whoever sees it in a state between the set-up and its end.
For setting up moves a component only from one stage before that to the next; one that is set up stays
so through all that is done to the flow later.
-/

namespace PullFlow

/-- Whether a component is set up, whatever came of it since. -/
def Stage.ready : Stage → Bool
  | .created | .contextualized => false
  | _ => true

/-- Whether a component was started or stopped. -/
def Stage.begun : Stage → Bool
  | .running | .stopped => true
  | _ => false

theorem Stage.eq_initialised {s : Stage} (hready : s.ready = true) (hbegun : s.begun = false) :
    s = .initialised := by
  cases s <;> simp_all [Stage.ready, Stage.begun]

/-- Components that come closer to being set up, if anything. -/
def Eased (marks marks' : List (Place × Stage)) : Prop :=
  List.Forall₂ (fun x x' => x'.1 = x.1 ∧
    (x'.2 = x.2 ∨ x.2.ready = false ∧ x'.2.begun = false)) marks marks'

namespace Eased

variable {marks marks' : List (Place × Stage)}

theorem refl (marks : List (Place × Stage)) : Eased marks marks :=
  List.forall₂_same.mpr fun _ _ => ⟨rfl, .inl rfl⟩

theorem places (h : Eased marks marks') : marks'.map Prod.fst = marks.map Prod.fst := by
  induction h with
  | nil => rfl
  | cons hx _ ih => rw [List.map_cons, List.map_cons, hx.1, ih]

/-- What is set up stays as it is. -/
theorem eq_of_ready (h : Eased marks marks') (hready : ∀ x ∈ marks, x.2.ready = true) :
    marks' = marks := by
  induction h with
  | nil => rfl
  | @cons x x' _ _ hx _ ih =>
      obtain ⟨hfirst, hrest⟩ := List.forall_mem_cons.mp hready
      obtain ⟨hplace, hstage | ⟨hnot, _⟩⟩ := hx
      · rw [ih hrest, Prod.ext hplace hstage]
      · rw [hfirst] at hnot
        cases hnot

/-- Setting up starts nothing. -/
theorem begun (h : Eased marks marks') (hbegun : ∀ x ∈ marks, x.2.begun = false) :
    ∀ x ∈ marks', x.2.begun = false := by
  induction h with
  | nil => exact List.forall_mem_nil _
  | cons hx _ ih =>
      obtain ⟨hfirst, hrest⟩ := List.forall_mem_cons.mp hbegun
      refine List.forall_mem_cons.mpr ⟨?_, ih hrest⟩
      obtain ⟨_, hstage | ⟨_, hnot⟩⟩ := hx
      · rw [hstage]
        exact hfirst
      · exact hnot

end Eased

theorem Readying.eased {β : Type} {leaves : β → List Leaf} {b : β} {h : HookEnd β}
    {before after : Stage} (hmoves : Readying before after leaves b h)
    (hbefore : before.ready = false) (hafter : after.begun = false) :
    Eased ((leaves b).map Leaf.mark) ((leaves h.body).map Leaf.mark) := by
  refine List.forall₂_map_left_iff.mpr (List.forall₂_map_right_iff.mpr ?_)
  refine hmoves.marks.imp fun l l' hl => ⟨hl.1, hl.2.imp_right fun hmoved => ?_⟩
  rw [Leaf.mark, Leaf.mark, hmoved.1, hmoved.2]
  exact ⟨hbefore, hafter⟩

namespace Engine

theorem marks_setInjected (v : Option Value) (p : Pipeline) :
    (setInjected v p).marks = p.marks := by
  unfold setInjected
  split
  · exact p.marks_sourceBody _
  · rfl

namespace World

variable {w w₁ : World} {t u : ThreadId} {f : FlowId} {a : Activity} {answer : Outcome}
  {cell : FlowCell} {p : Pipeline} {m m₁ : Monitor} {turn : Turn} {rest : List Activity}

theorem marks_attachMonitor (ctx : Context) (cell : FlowCell) :
    (attachMonitor ctx cell).body.pipeline.marks = cell.pipeline.marks := by
  unfold attachMonitor
  split
  · rfl
  · refine Pipeline.marks_congr rfl rfl ?_
    simp only [HookEnd.map]
    split
    · split <;> rfl
    · rfl

theorem parked_attachMonitor (ctx : Context) (cell : FlowCell) :
    (attachMonitor ctx cell).body.parked = cell.parked.map fun m => (m.setContext ctx).body := by
  unfold attachMonitor
  split
  · next hparked =>
    rw [hparked]
    exact hparked
  · next hparked =>
    rw [hparked]
    rfl

theorem parked_prepareMonitor (st : Scope.Store) (cell : FlowCell) :
    (prepareMonitor st cell).body.parked = cell.parked.map fun m => (m.setUp st).body := by
  unfold prepareMonitor
  split
  · next hparked =>
    rw [hparked]
    exact hparked
  · next hparked =>
    rw [hparked]
    rfl

/-- Starting and stopping the components of a flow apart, a step at most sets them up. -/
theorem Works.eased {parked : Option Monitor} (h : Works w answer f cell a p parked) :
    (∃ m, a = .run f m .start ∧ p = cell.pipeline.start.body) ∨
      (∃ m, a = .finish f m .components ∧ p = cell.pipeline.stop.body) ∨
        Eased cell.pipeline.marks p.marks := by
  have hsame (hmarks : p.marks = cell.pipeline.marks) : Eased cell.pipeline.marks p.marks := by
    rw [hmarks]
    exact .refl _
  cases h with
  | pull => exact .inr (.inr (hsame (Pipeline.marks_step _ _ _ _)))
  | perform | resume => exact .inr (.inr (hsame (Pipeline.marks_sinkBody _ _)))
  | inject | clear => exact .inr (.inr (hsame (marks_setInjected _ _)))
  | start => exact .inl ⟨_, rfl, rfl⟩
  | stop => exact .inr (.inl ⟨_, rfl, rfl⟩)
  | attach => exact .inr (.inr ((Pipeline.setContext_readying _ _).eased rfl rfl))
  | monitor => exact .inr (.inr (hsame (marks_attachMonitor _ _)))
  | setUp => exact .inr (.inr ((Pipeline.setUp_readying _ _).eased rfl rfl))
  | wire => exact .inr (.inr (hsame (Pipeline.marks_wire _ _)))
  | _ => exact .inr (.inr (.refl _))

/-- A monitor that is parked after a step is put there by its run, or it was there before and was at
most set up. -/
theorem Works.parked {parked : Option Monitor} (h : Works w answer f cell a p parked)
    (hparked : parked = some m₁) : (∃ d, a = .run f m₁ (.park d)) ∨
      ∃ m, cell.parked = some m ∧ Eased [(.monitor, m.stage)] [(.monitor, m₁.stage)] := by
  cases h with
  | park =>
      cases hparked
      exact .inl ⟨_, rfl⟩
  | retake | stopTake | launch => cases hparked
  | monitor =>
      rw [parked_attachMonitor] at hparked
      obtain ⟨m, hm, rfl⟩ := Option.map_eq_some_iff.mp hparked
      exact .inr ⟨m, hm, ((m.setContext_readying _).eased rfl rfl :)⟩
  | setUpMonitor =>
      rw [parked_prepareMonitor] at hparked
      obtain ⟨m, hm, rfl⟩ := Option.map_eq_some_iff.mp hparked
      exact .inr ⟨m, hm, ((m.setUp_readying _).eased rfl rfl :)⟩
  | _ => exact .inr ⟨_, hparked, .refl _⟩

theorem pipeline?_setParts {parked : Option Monitor} (hcell : w.flow? f = some cell) (g : FlowId) :
    (w.setParts f p parked).pipeline? g = if f = g then some p else w.pipeline? g := by
  rw [setParts, pipeline?_modifyFlow]
  split
  · next hfg =>
    rw [← hfg, hcell]
    rfl
  · rfl

theorem parked?_setParts {parked : Option Monitor} (hcell : w.flow? f = some cell) (g : FlowId) :
    (w.setParts f p parked).parked? g = if f = g then parked else w.parked? g := by
  rw [parked?, setParts, flow?_modifyFlow]
  split
  · next hfg =>
    rw [← hfg, hcell]
    rfl
  · rfl

/-- A step leaves the components and the parked monitor of a flow or works on them. -/
theorem Acts.parts (h : Acts w t answer a w₁) (g : FlowId) :
    w₁.pipeline? g = w.pipeline? g ∧ w₁.parked? g = w.parked? g ∨
      ∃ cell p parked, w.flow? g = some cell ∧ Works w answer g cell a p parked ∧
        w₁.pipeline? g = some p ∧ w₁.parked? g = parked := by
  have hkeep {f : FlowId} {change : FlowCell → FlowCell}
      (hparts : ∀ cell,
        (change cell).pipeline = cell.pipeline ∧ (change cell).parked = cell.parked) :
      (w.modifyFlow f change).pipeline? g = w.pipeline? g ∧
        (w.modifyFlow f change).parked? g = w.parked? g := by
    rw [pipeline?_modifyFlow, parked?, flow?_modifyFlow, pipeline?, parked?]
    split
    · cases w.flow? g with
      | none => exact ⟨rfl, rfl⟩
      | some cell => exact ⟨congrArg some (hparts cell).1, (hparts cell).2⟩
    · exact ⟨rfl, rfl⟩
  cases h with
  | leaves _ hleaves => exact .inl ⟨hleaves.pipeline g, hleaves.parked g⟩
  | @works f cell _ p parked _ hcell hworks hleaves =>
      have hpipeline := hleaves.pipeline g
      have hparked := hleaves.parked g
      rw [pipeline?_setParts hcell] at hpipeline
      rw [parked?_setParts hcell] at hparked
      by_cases hfg : f = g
      · subst hfg
        rw [if_pos rfl] at hpipeline hparked
        exact .inr ⟨cell, p, parked, hcell, hworks, hpipeline, hparked⟩
      · rw [if_neg hfg] at hpipeline hparked
        exact .inl ⟨hpipeline, hparked⟩
  | announce => exact .inl ⟨rfl, rfl⟩
  | release | unlatch | cut | record => exact .inl (hkeep fun _ => ⟨rfl, rfl⟩)
  | enter | refuse | leave | absent => exact .inl ⟨rfl, rfl⟩

/-- All components of a flow are set up, and so is its monitor if it is parked. -/
structure Equipped (f : FlowId) (w : World) : Prop where
  components : ∀ p, w.pipeline? f = some p → ∀ x ∈ p.marks, x.2.ready = true
  monitor : ∀ m, w.parked? f = some m → m.stage.ready = true

theorem ready_started {ls : List Leaf} (h : ∀ l ∈ ls, l.stage.ready = true) :
    ∀ x ∈ started ls, x.2.ready = true := by
  induction ls with
  | nil => exact List.forall_mem_nil _
  | cons l ls ih =>
      rw [started]
      split
      · exact List.forall_mem_cons.mpr ⟨rfl, ih (List.forall_mem_cons.mp h).2⟩
      · exact List.forall_mem_map.mpr h

/-- Components that are set up stay so. -/
theorem Acts.components_ready (h : Acts w t answer a w₁)
    (hready : ∀ p, w.pipeline? f = some p → ∀ x ∈ p.marks, x.2.ready = true) :
    ∀ p, w₁.pipeline? f = some p → ∀ x ∈ p.marks, x.2.ready = true := by
  obtain ⟨hpipeline, _⟩ | ⟨cell, p, parked, hcell, hworks, hpipeline, _⟩ := h.parts f
  · rw [hpipeline]
    exact hready
  · have hbefore := hready cell.pipeline (by rw [pipeline?, hcell]; rfl)
    intro p' hp'
    rw [hpipeline] at hp'
    cases hp'
    obtain ⟨m, _, rfl⟩ | ⟨m, _, rfl⟩ | heased := hworks.eased
    · rw [Pipeline.marks, (Pipeline.start_starting _).marks]
      exact ready_started (List.forall_mem_map.mp hbefore)
    · rw [Pipeline.marks, (Pipeline.stop_stopping _).marks]
      exact List.forall_mem_map.mpr fun _ _ => rfl
    · rw [heased.eq_of_ready hbefore]
      exact hbefore

/-- A flow that is set up stays so, if what is parked is set up. -/
theorem Equipped.acts (h : Equipped f w) (hacts : Acts w t answer a w₁)
    (hpark : ∀ m d, a = .run f m (.park d) → m.stage.ready = true) : Equipped f w₁ := by
  refine ⟨hacts.components_ready h.components, fun m hm => ?_⟩
  obtain ⟨_, hparked⟩ | ⟨cell, p, parked, hcell, hworks, _, hparked⟩ := hacts.parts f
  · exact h.monitor m (hparked ▸ hm)
  · obtain ⟨d, ha⟩ | ⟨m₀, hm₀, heased⟩ := hworks.parked (hparked ▸ hm)
    · exact hpark m d ha
    · have hbefore := h.monitor m₀ (by rw [parked?, hcell]; exact hm₀)
      have hsame := heased.eq_of_ready (List.forall_mem_singleton.mpr hbefore)
      have hstage : m.stage = m₀.stage := by simpa using hsame
      rw [hstage]
      exact hbefore

end World

/-- Whether an activity goes on only with a flow that is set up. -/
def Activity.past (f : FlowId) : Activity → Bool
  | .prepare g .advance | .prepare g .advanced => decide (g = f)
  | .wire g _ .source | .wire g _ .advance | .wire g _ .advanced => decide (g = f)
  | .launch g true => decide (g = f)
  | .run g _ _ => decide (g = f)
  | _ => false

theorem past_quiet (f : FlowId) (a : Activity) : (quiet a).past f = a.past f := by
  cases a <;> rfl

theorem past_of_begins {f : FlowId} {a : Activity} (h : a.begins = true) : a.past f = false := by
  unfold Activity.past
  split <;> first | rfl | cases h

/-- Nobody asks for the rest of a set-up. -/
theorem past_of_asks {f : FlowId} {back a : Activity} (h : back.Asks a) : a.past f = false := by
  cases h with
  | chain hr | sink hr => cases a <;> first | rfl | cases hr
  | _ => rfl

namespace World

variable {w w₁ start : World} {t u : ThreadId} {f : FlowId} {a b : Activity} {answer : Outcome}
  {cell : FlowCell} {p : Pipeline} {m m₁ : Monitor} {turn : Turn} {rest : List Activity}
  {trace : List Taken}

/-- What holds of a flow and of those who set it up and start it. -/
structure Prepared (f : FlowId) (w : World) : Prop where
  components : ∀ t, .prepare f .monitor ∈ w.tasks t →
    ∀ p, w.pipeline? f = some p → ∀ x ∈ p.marks, x.2.ready = true
  past : ∀ t, ∀ a ∈ w.tasks t, a.past f = true → Equipped f w
  runs : ∀ t m p, .run f m p ∈ w.tasks t → p.gone = false → m.stage.ready = true
  state : FlowState.setup.rank ≤ (w.stateOf f).rank → w.stopping f = false → Equipped f w

theorem mem_checkState {state : FlowState} {next : Activity} {r : World × Turn}
    (h : w.checkState f state next = some r) (hb : b ∈ r.2.frames) :
    b = next ∧ w.stateOf f = state := by
  obtain ⟨cell, hcell, rfl⟩ := Option.map_eq_some_iff.mp h
  by_cases hstate : cell.state = state
  · rw [expect, if_pos hstate] at hb
    refine ⟨List.mem_singleton.mp hb, ?_⟩
    rw [stateOf, hcell]
    exact hstate
  · rw [expect, if_neg hstate] at hb
    cases hb

/-- The start of a flow begins with a look at its state. -/
theorem launch_unchecked (w : World) (f : FlowId) :
    w.launch f false = w.checkState f .wired (.launch f true) := rfl

theorem mem_afterHook {k : HookEnd FlowCell} {next : Activity}
    (hb : b ∈ (w.afterHook f k next).2.frames) : b = next ∧ k.result = .ok () := by
  unfold afterHook at hb
  dsimp only at hb
  split at hb
  · next hok => exact ⟨List.mem_singleton.mp hb, hok⟩
  · cases hb

theorem parked?_afterHook (hcell : w.flow? f = some cell) (k : HookEnd FlowCell)
    (next : Activity) : (w.afterHook f k next).1.parked? f = k.body.parked := by
  have hflow : ((w.modifyFlow f fun _ => k.body).jot k.notes).parked? f = k.body.parked := by
    change ((w.modifyFlow f fun _ => k.body).flow? f).bind (·.parked) = k.body.parked
    rw [flow?_modifyFlow, if_pos rfl, hcell]
    rfl
  unfold afterHook
  dsimp only
  split <;> exact hflow

theorem pipeline?_afterHook (hcell : w.flow? f = some cell) (k : HookEnd FlowCell)
    (next : Activity) : (w.afterHook f k next).1.pipeline? f = some k.body.pipeline := by
  have hflow : ((w.modifyFlow f fun _ => k.body).jot k.notes).pipeline? f =
      some k.body.pipeline := by
    change (w.modifyFlow f fun _ => k.body).pipeline? f = some k.body.pipeline
    rw [pipeline?_modifyFlow, if_pos rfl, hcell]
    rfl
  unfold afterHook
  dsimp only
  split <;> exact hflow

/-- The components of a flow are set up once that step has succeeded. -/
theorem components_of_prepare {q : PreparePoint} {r : World × Turn} (h : w.prepare f q = some r)
    (hb : .prepare f .monitor ∈ r.2.frames) :
    ∀ p, r.1.pipeline? f = some p → ∀ x ∈ p.marks, x.2.ready = true := by
  cases q with
  | check => cases (mem_checkState h hb).1
  | components =>
      obtain ⟨cell, hcell, h⟩ := Option.bind_eq_some_iff.mp h
      split at h <;> cases h
      have hok : (cell.pipeline.setUp w.scopes).result = .ok () := (mem_afterHook hb).2
      intro p hp
      rw [pipeline?_afterHook hcell] at hp
      cases hp
      refine List.forall_mem_map.mpr fun l hl => ?_
      rw [Leaf.mark, (Pipeline.setUp_readying _ _).ready hok l hl]
      rfl
  | monitor =>
      obtain ⟨cell, _, rfl⟩ := Option.map_eq_some_iff.mp h
      cases (mem_afterHook hb).1
  | advance =>
      cases h
      simp [Turn.frames] at hb
  | advanced =>
      cases h
      cases hb

/-- The set-up pass ends with the monitor, if it is there. -/
theorem monitor_of_prepare {q : PreparePoint} {r : World × Turn} (h : w.prepare f q = some r)
    (hb : b ∈ r.2.frames) (hpast : b.past f = true) : (Activity.prepare f q).past f = true ∨
      q = .monitor ∧ ∀ m, r.1.parked? f = some m → m.stage.ready = true := by
  cases q with
  | check =>
      rw [(mem_checkState h hb).1] at hpast
      cases hpast
  | components =>
      obtain ⟨cell, _, h⟩ := Option.bind_eq_some_iff.mp h
      split at h <;> cases h
      rw [(mem_afterHook hb).1] at hpast
      cases hpast
  | monitor =>
      obtain ⟨cell, hcell, rfl⟩ := Option.map_eq_some_iff.mp h
      have hok := (mem_afterHook hb).2
      refine .inr ⟨rfl, fun m hm => ?_⟩
      rw [parked?_afterHook hcell, parked_prepareMonitor] at hm
      obtain ⟨m₀, hm₀, rfl⟩ := Option.map_eq_some_iff.mp hm
      have hdone : (m₀.setUp w.scopes).result = .ok () := by
        simpa [prepareMonitor, hm₀, HookEnd.map] using hok
      have hmoves : Readying .contextualized .initialised (fun m => [m.leaf .monitor]) m₀
          (m₀.setUp w.scopes) := m₀.setUp_readying w.scopes
      have hstage := hmoves.ready hdone _ (List.mem_singleton.mpr rfl)
      change (m₀.setUp w.scopes).body.stage = .initialised at hstage
      rw [hstage]
      rfl
  | advance | advanced => exact .inl (by simp [Activity.past])

/-- Whoever goes past the set-up of a flow has been there before, or finds it set up. -/
theorem past_of_step (h : a.step w t answer = some (w₁, turn)) (hb : b ∈ turn.frames)
    (hpast : b.past f = true) : a.past f = true ∨
      (a = .prepare f .monitor ∧ ∀ m, w₁.parked? f = some m → m.stage.ready = true) ∨
        w.stateOf f = .setup ∨ w.stateOf f = .wired := by
  have hgoes : a.Continues b := by
    obtain hgoes | ⟨back, _, hasks, _⟩ := (step_stacks h).of_mem hb
    · exact hgoes
    · rw [past_of_asks hasks] at hpast
      cases hpast
  cases hgoes with
  | @prepare g q q' =>
      have hgf : g = f := by
        cases q' <;> first | exact of_decide_eq_true hpast | cases hpast
      subst hgf
      obtain hbefore | ⟨rfl, hmonitor⟩ := monitor_of_prepare h hb hpast
      · exact .inl hbefore
      · exact .inr (.inl ⟨rfl, hmonitor⟩)
  | @wire g inflows q q' =>
      have hgf : g = f := by
        cases q' <;> first | exact of_decide_eq_true hpast | cases hpast
      subst hgf
      cases q with
      | check => exact .inr (.inr (.inl (mem_checkState h hb).2))
      | _ => exact .inl (by simp [Activity.past])
  | @check g checked =>
      obtain rfl : g = f := of_decide_eq_true hpast
      cases checked with
      | true => exact .inl hpast
      | false => exact .inr (.inr (.inr (mem_checkState ((launch_unchecked w g).symm.trans h) hb).2))
  | launch => exact .inl hpast
  | run => exact .inl hpast
  | _ => cases hpast

theorem stage_start (m : Monitor) (h : m.stage.ready = true) : m.start.body.stage.ready = true := by
  have hmarks := (m.starting .monitor).marks
  have hready : ∀ x ∈ started [m.leaf .monitor], x.2.ready = true :=
    ready_started (List.forall_mem_singleton.mpr h)
  rw [← hmarks] at hready
  exact hready _ (List.mem_singleton.mpr rfl)

/-- A run that has a monitor that is set up goes on with one that is set up. -/
theorem ready_of_run {q q' : RunPoint} {g : FlowId} {r : World × Turn}
    (h : w.run t f m answer q = some r) (hb : .run g m₁ q' ∈ r.2.frames) (hq' : q'.gone = false)
    (hm : m.stage.ready = true) : m₁.stage.ready = true := by
  obtain rfl | rfl | ⟨wait, rfl⟩ := monitor_of_run h hb hq'
  · exact hm
  · exact stage_start m hm
  · exact hm

/-- A step leaves the frames of the threads, but for the run of a monitor that was parked, on a
thread of its own. -/
theorem Moves.brings (h : Moves w answer a w₁ turn) (hb : b ∈ w₁.tasks u) : b ∈ w.tasks u ∨
    ∃ g m, a = .launch g true ∧ b = .run g m .lock ∧ w.parked? g = some m := by
  have hcalm (hcalm : Calm w w₁) : b ∈ w.tasks u := by
    rwa [tasks_of_jobs hcalm.jobs] at hb
  cases h with
  | plain _ hsame _ | announce hsame | finishOn _ _ _ hsame | runOn _ _ hsame
  | runAsk _ _ _ hsame =>
      exact .inl (hcalm hsame)
  | @launchThread g cell m hcell hparked =>
      rw [World.tasks, jobs_started] at hb
      rcases Nat.lt_trichotomy u w.jobs.length with hu | rfl | hu
      · rw [List.getElem?_append_left hu] at hb
        exact .inl hb
      · rw [List.getElem?_concat_length] at hb
        refine .inr ⟨g, m, rfl, List.mem_singleton.mp hb, ?_⟩
        rw [parked?, hcell]
        exact hparked
      · rw [List.getElem?_eq_none (by rw [List.length_append]; exact hu)] at hb
        cases hb
  | _ => exact .inl hb

theorem Takes.mem_self (h : Takes w t a rest w₁ turn) (hb : b ∈ (w₁.turn t turn).tasks t) :
    b ∈ rest ∨ ∃ c ∈ turn.frames, b = quiet c := by
  rw [h.goes.tasks_self] at hb
  obtain hb | hb := List.mem_append.mp hb
  · obtain ⟨c, hc, rfl⟩ := List.mem_map.mp hb
    exact .inr ⟨c, hc, rfl⟩
  · exact .inl hb

theorem Takes.mem_other (h : Takes w t a rest w₁ turn) (hu : u ≠ t)
    (hb : b ∈ (w₁.turn t turn).tasks u) : b ∈ w.tasks u ∨
      ∃ g m, a = .launch g true ∧ b = .run g m .lock ∧ w.parked? g = some m := by
  rw [tasks_turn_of_ne hu] at hb
  exact h.goes.moves.brings hb

/-- A frame of a thread after a turn was there before, or the turn has put it there. -/
theorem Takes.mem (h : Takes w t a rest w₁ turn) (hb : b ∈ (w₁.turn t turn).tasks u) :
    b ∈ w.tasks u ∨ (u = t ∧ ∃ c ∈ turn.frames, b = quiet c) ∨
      ∃ g m, a = .launch g true ∧ b = .run g m .lock ∧ w.parked? g = some m := by
  by_cases hu : u = t
  · subst hu
    obtain hb | hb := h.mem_self hb
    · rw [h.goes.tasks]
      exact .inl (List.mem_cons_of_mem _ hb)
    · exact .inr (.inl ⟨rfl, hb⟩)
  · exact (h.mem_other hu hb).imp_right .inr

theorem Takes.top (h : Takes w t a rest w₁ turn) : quiet a ∈ w.tasks t := by
  rw [h.goes.tasks]
  exact List.mem_cons_self

/-- A step leaves frames only if it is a step of an activity, not an answer of the host. -/
theorem Takes.step_of_mem (h : Takes w t a rest w₁ turn) (hb : b ∈ turn.frames) :
    a.step w t (w.answerOf t) = some (w₁, turn) := by
  obtain hstep | ⟨_, _, _, _, rfl⟩ := h.does
  · exact hstep
  · cases hb

theorem parked_of_launch {checked : Bool} {r : World × Turn} (h : w.launch f checked = some r)
    (hb : .run f m .lock ∈ r.2.frames) : w.parked? f = some m := by
  obtain ⟨cell, hcell, rfl⟩ := Option.map_eq_some_iff.mp h
  rw [parked?, hcell]
  cases checked with
  | false =>
      rw [if_neg Bool.false_ne_true] at hb
      split at hb
      · cases List.mem_singleton.mp hb
      · cases hb
  | true =>
      rw [if_pos rfl] at hb
      split at hb
      · cases hb
      · next hparked =>
        split at hb
        · cases hb
        · cases List.mem_singleton.mp hb
          exact hparked

namespace Prepared

theorem ready (h : Prepared f w) (htakes : Takes w t a rest w₁ turn) (hready : Equipped f w) :
    Equipped f w₁ := by
  refine hready.acts htakes.acts fun m d ha => ?_
  subst ha
  exact h.runs t m (.park d) htakes.top rfl

theorem takes (h : Prepared f w) (hstacked : ∀ u, Stacked (w.tasks u))
    (htakes : Takes w t a rest w₁ turn) : Prepared f (w₁.turn t turn) := by
  have hkeep (hready : Equipped f w) : Equipped f (w₁.turn t turn) :=
    have hafter := h.ready htakes hready
    ⟨hafter.components, hafter.monitor⟩
  refine ⟨?_, ?_, ?_, ?_⟩
  · intro u hmem
    obtain hmem | ⟨rfl, c, hc, hsame⟩ | ⟨g, m, _, hsame, _⟩ := htakes.mem hmem
    · exact htakes.acts.components_ready (h.components u hmem)
    · obtain rfl := eq_of_quiet_eq hsame fun _ _ _ _ => Activity.noConfusion
      have hstep := htakes.step_of_mem hc
      obtain hgoes | ⟨back, _, hasks, _⟩ := htakes.stacks.of_mem hc
      · cases hgoes
        exact components_of_prepare hstep hc
      · cases hasks with
        | chain hr | sink hr => cases hr
    · cases hsame
  · intro u b hb hpast
    obtain hmem | ⟨rfl, c, hc, rfl⟩ | ⟨g, m, rfl, rfl, _⟩ := htakes.mem hb
    · exact hkeep (h.past u b hmem hpast)
    · rw [past_quiet] at hpast
      obtain hbefore | ⟨rfl, hmonitor⟩ | hstate | hstate :=
        past_of_step (htakes.step_of_mem hc) hc hpast
      · exact hkeep (h.past u (quiet a) htakes.top (by rw [past_quiet]; exact hbefore))
      · exact ⟨htakes.acts.components_ready (h.components u htakes.top), hmonitor⟩
      · exact hkeep (h.state (by rw [hstate]) (by rw [stopping, hstate]; rfl))
      · exact hkeep (h.state (by rw [hstate]; decide) (by rw [stopping, hstate]; rfl))
    · exact hkeep (h.past t _ htakes.top hpast)
  · intro u m q hmem hq
    obtain hmem | ⟨rfl, c, hc, hsame⟩ | ⟨g, m', rfl, hsame, hparked⟩ := htakes.mem hmem
    · exact h.runs u m q hmem hq
    · obtain rfl := eq_of_quiet_eq hsame fun _ _ _ _ => Activity.noConfusion
      have hstep := htakes.step_of_mem hc
      obtain hgoes | ⟨back, _, hasks, _⟩ := htakes.stacks.of_mem hc
      · cases hgoes with
        | @run _ m₀ _ q₀ _ =>
            have hbefore : q₀.gone = false := by
              cases hq₀ : q₀.gone with
              | false => rfl
              | true =>
                  rw [gone_of_run hstep hc hq₀] at hq
                  cases hq
            exact ready_of_run hstep hc hq (h.runs u m₀ q₀ htakes.top hbefore)
        | launch =>
            have hready := h.past u _ htakes.top (by simp [quiet, Activity.past])
            exact hready.monitor m (parked_of_launch hstep hc)
      · cases hasks with
        | chain hr | sink hr => cases hr
    · cases hsame
      exact (h.past t _ htakes.top (by simp [quiet, Activity.past])).monitor m hparked
  · intro hrank hstopping
    have heffect := htakes.goes.moves.effect f
    generalize hafter : w₁.control f = after at heffect
    have hsame (hstate : w₁.stateOf f = w.stateOf f) : Equipped f (w₁.turn t turn) := by
      change FlowState.setup.rank ≤ (w₁.stateOf f).rank at hrank
      change w₁.stopping f = false at hstopping
      rw [stopping, hstate] at hstopping
      rw [hstate] at hrank
      exact hkeep (h.state hrank hstopping)
    cases heffect with
    | none => exact hsame (by rw [stateOf_eq, stateOf_eq w, hafter])
    | @swap s target _ _ _ _ _ _ =>
        -- the flow comes to a state past its set-up, so whoever moves it there is past that too
        obtain ⟨back, below, rfl, hmover⟩ := (htakes.goes.tasks ▸ hstacked t).advance
        change FlowState.setup.rank ≤ (w₁.stateOf f).rank at hrank
        change w₁.stopping f = false at hstopping
        rw [stopping] at hstopping
        rw [stateOf_of_control hafter] at hrank hstopping
        dsimp only at hrank hstopping
        have hback : back ∈ w.tasks t := by
          rw [htakes.goes.tasks]
          exact List.mem_cons_of_mem _ List.mem_cons_self
        cases hmover with
        | context => exact absurd hrank (by decide)
        | setUp | wire | start => exact hkeep (h.past t _ hback (by simp [Activity.past]))
        | stop | run | finish => exact absurd (by decide) (of_decide_eq_false hstopping)
    | _ hbefore => exact hsame (by rw [stateOf_of_control hbefore, stateOf_of_control hafter])

theorem tick (h : Prepared f w) (nanos : Nat) : Prepared f (w.tick nanos) := by
  have hkeep (hready : Equipped f w) : Equipped f (w.tick nanos) :=
    ⟨hready.components, hready.monitor⟩
  exact ⟨h.components, fun u b hb hpast => hkeep (h.past u b hb hpast), h.runs,
    fun hrank hstopping => hkeep (h.state hrank hstopping)⟩

/-- A flow that is not set up and that nobody sets up. -/
theorem init (hstate : w.stateOf f = .init)
    (hbegins : ∀ u, ∀ b ∈ w.tasks u, ∃ a : Activity, a.begins = true ∧ b = quiet a) :
    Prepared f w := by
  refine ⟨?_, ?_, ?_, ?_⟩
  · intro u hmem
    cases begins_of_quiet (hbegins u _ hmem) fun _ _ _ _ => Activity.noConfusion
  · intro u b hmem hpast
    obtain ⟨b, hb, rfl⟩ := hbegins u b hmem
    rw [past_quiet, past_of_begins hb] at hpast
    cases hpast
  · intro u m q hmem
    cases begins_of_quiet (hbegins u _ hmem) fun _ _ _ _ => Activity.noConfusion
  · intro hrank
    rw [hstate] at hrank
    exact absurd hrank (by decide)

end Prepared

/-- In every state of a run flows are set up as far as they have come. -/
theorem Run.prepared (h : Run start trace w) (hstacked : ∀ u, Stacked (start.tasks u))
    (hstart : Prepared f start) : Prepared f w := by
  have hall : (∀ u, Stacked (w.tasks u)) ∧ Prepared f w :=
    h.every (P := fun _ w => (∀ u, Stacked (w.tasks u)) ∧ Prepared f w) ⟨hstacked, hstart⟩
      (fun _ _ nanos hw => ⟨hw.1, hw.2.tick nanos⟩)
      fun _ _ _ _ _ _ _ htakes hw => ⟨htakes.stacked hw.1, hw.2.takes hw.1 htakes⟩
  exact hall.2

end World
end Engine
end PullFlow
