import PullFlow.Proofs.Engine.Bracketing
import PullFlow.Proofs.Engine.SetUp

/-!
What a set-up hands to the flows. It gathers the connections of all flows once their parts have taken
their arguments, and from then on hands each flow its share of them. So the flows that it leaves and
the connections that each of them is handed are both known from the flows and the scopes it began
with.
-/

namespace PullFlow
namespace Engine

open Scope.Store

/-- What was gathered stays as it is while flows are wired. -/
def SetUpPoint.Keeps (p p' : SetUpPoint) : Prop :=
  ∀ left all, p = .wire left all → ∃ left', p' = .wire left' all

/-- Whether an activity goes over a whole set of flows. -/
def Activity.surveys : Activity → Bool
  | .setUpAll _ | .runAll _ => true
  | _ => false

namespace FlowCell

/-- A flow whose parts have taken their arguments. -/
def prepared (st : Scope.Store) (cell : FlowCell) : FlowCell :=
  { (cell.setUp st).body with state := .setup }

/-- A flow that has been handed what feeds it. -/
def wired (all : List Outflow) (cell : FlowCell) : FlowCell :=
  { cell with
    pipeline := (Pipeline.wire (World.inflowsOf cell.name all) cell.pipeline).body
    state := .wired }

end FlowCell

namespace World

variable {w w' : World} {st st₁ st' : Scope.Store} {cells cells₁ : List FlowCell}

/-! What a set-up makes of the flows. -/

/-- A pass that leaves the scopes as they are, seen flow by flow. -/
theorem all_eq_ok_of_still {P : Pass} {fine : FlowCell → Prop} {g : FlowCell → FlowCell}
    (hone : ∀ cell st₁ cell', P.one st cell = .ok (st₁, cell') ↔
      st₁ = st ∧ fine cell ∧ cell' = g cell) :
    P.all st cells = .ok (st₁, cells₁) ↔
      st₁ = st ∧ (∀ cell ∈ cells, fine cell) ∧ cells₁ = cells.map g := by
  induction cells generalizing st₁ cells₁ with
  | nil =>
      constructor
      · rintro ⟨⟩
        exact ⟨rfl, List.forall_mem_nil _, rfl⟩
      · rintro ⟨rfl, _, rfl⟩
        rfl
  | cons cell rest ih =>
      rw [Pass.all_cons, List.forall_mem_cons]
      constructor
      · rintro ⟨_, cell', st₂, rest', hfirst, hrest, ⟨⟩⟩
        obtain ⟨rfl, hfine, rfl⟩ := (hone ..).mp hfirst
        obtain ⟨rfl, hall, rfl⟩ := ih.mp hrest
        exact ⟨rfl, ⟨hfine, hall⟩, rfl⟩
      · rintro ⟨rfl, ⟨hfine, hall⟩, rfl⟩
        exact ⟨_, _, _, _, (hone ..).mpr ⟨rfl, hfine, rfl⟩, ih.mpr ⟨rfl, hall, rfl⟩, rfl⟩

/-- The flows of a set, each attached in a scope of its own. -/
def housedFlows (w : World) : List FlowCell :=
  (w.flows.zipIdx w.scopes.nodes.length).map fun (cell, scope) => housed w.directory cell scope

/-- The flows of a set once their parts have taken their arguments. -/
def preparedFlows (w : World) (st : Scope.Store) : List FlowCell :=
  w.housedFlows.map (FlowCell.prepared st)

theorem getElem?_preparedFlows (w : World) (st : Scope.Store) (i : Nat) :
    (w.preparedFlows st)[i]? = w.flows[i]?.map fun cell =>
      (housed w.directory cell (w.scopes.nodes.length + i)).prepared st := by
  rw [preparedFlows, housedFlows, List.getElem?_map, List.getElem?_map, List.getElem?_zipIdx,
    Option.map_map, Option.map_map]
  rfl

theorem prepared_of_flow {i : Nat} {cell : FlowCell} (hcell : w.flows[i]? = some cell) :
    (w.preparedFlows st)[i]? =
      some ((housed w.directory cell (w.scopes.nodes.length + i)).prepared st) := by
  rw [getElem?_preparedFlows, hcell]
  rfl

theorem flow_of_prepared {i : Nat} {c : FlowCell} (hc : (w.preparedFlows st)[i]? = some c) :
    ∃ cell, w.flows[i]? = some cell ∧
      c = (housed w.directory cell (w.scopes.nodes.length + i)).prepared st := by
  rw [getElem?_preparedFlows] at hc
  obtain ⟨cell, hcell, rfl⟩ := Option.map_eq_some_iff.mp hc
  exact ⟨cell, hcell, rfl⟩

theorem name_prepared (st : Scope.Store) (directory : Directory) (cell : FlowCell) (scope : ScopeId) :
    ((housed directory cell scope).prepared st).name = cell.name :=
  (FlowCell.akin_setUp st _).name.trans (FlowCell.akin_attach ⟨cell.name, scope, directory⟩ cell).name

theorem names_preparedFlows (w : World) (st : Scope.Store) :
    (w.preparedFlows st).map (·.name) = w.flows.map (·.name) := by
  refine List.ext_getElem? fun i => ?_
  rw [List.getElem?_map, List.getElem?_map, getElem?_preparedFlows, Option.map_map]
  exact congrArg (w.flows[i]?.map ·) (funext fun cell => name_prepared ..)

/-- The passes of a set-up. -/
theorem setUp_passes : w.setUp = .ok (st₁, cells₁) ↔
    (contextPass w.root w.directory).all w.scopes w.flows = .ok (st₁, w.housedFlows) ∧
    preparePass.all st₁ w.housedFlows = .ok (st₁, w.preparedFlows st₁) ∧
    (wirePass (outflowsFrom 0 (w.preparedFlows st₁))).all st₁ (w.preparedFlows st₁) =
      .ok (st₁, cells₁) := by
  unfold setUp
  constructor
  · cases hcontext : (contextPass w.root w.directory).all w.scopes w.flows with
    | error e => simp [bind, Except.bind]
    | ok contextualized =>
        obtain ⟨st, cells⟩ := contextualized
        obtain ⟨_, _, hcells⟩ := contextPass_all_eq_ok.mp hcontext
        obtain rfl : cells = w.housedFlows := hcells
        cases hprepare : preparePass.all st w.housedFlows with
        | error e => simp [bind, Except.bind, hprepare]
        | ok prepared =>
            obtain ⟨st', cells⟩ := prepared
            obtain ⟨rfl, _, hcells⟩ := (all_eq_ok_of_still fun _ _ _ => preparePass_eq_ok).mp hprepare
            obtain rfl : cells = w.preparedFlows st' := hcells
            intro h
            simp only [bind, Except.bind, hprepare] at h
            obtain ⟨rfl, _⟩ := (all_eq_ok_of_still fun _ _ _ => wirePass_eq_ok).mp h
            exact ⟨rfl, hprepare, h⟩
  · rintro ⟨hcontext, hprepare, hwire⟩
    simp only [hcontext, hprepare, bind, Except.bind]
    exact hwire

/-- A set-up claims the names, attaches each flow in its own scope, hands the parts their arguments
in the tree of all claims, and then hands each flow what feeds it. -/
theorem setUp_eq_ok : w.setUp = .ok (st₁, cells₁) ↔
    claimNames w.root (w.flows.map (·.name)) w.scopes = .ok st₁ ∧
    (∀ i cell, w.flows[i]? = some cell →
      (cell.attach ⟨cell.name, w.scopes.nodes.length + i, w.directory⟩).result = .ok () ∧
        ((housed w.directory cell (w.scopes.nodes.length + i)).setUp st₁).result = .ok ()) ∧
    (∀ cell ∈ w.preparedFlows st₁, (Pipeline.wire
      (inflowsOf cell.name (outflowsFrom 0 (w.preparedFlows st₁))) cell.pipeline).result = .ok ()) ∧
    cells₁ = (w.preparedFlows st₁).map (FlowCell.wired (outflowsFrom 0 (w.preparedFlows st₁))) := by
  have hplace {i : Nat} {cell : FlowCell} : w.flows[i]? = some cell ↔
      (cell, w.scopes.nodes.length + i) ∈ w.flows.zipIdx w.scopes.nodes.length := by
    rw [List.mk_mem_zipIdx_iff_le_and_getElem?_sub, Nat.add_sub_cancel_left]
    exact (and_iff_right (Nat.le_add_right ..)).symm
  rw [setUp_passes, contextPass_all_eq_ok, all_eq_ok_of_still fun _ _ _ => preparePass_eq_ok,
    all_eq_ok_of_still fun _ _ _ => wirePass_eq_ok]
  constructor
  · rintro ⟨⟨hclaims, hattach, _⟩, ⟨_, hset, _⟩, _, hwired, hcells⟩
    exact ⟨hclaims, fun i cell hcell => ⟨hattach _ _ (hplace.mp hcell),
      hset _ (List.mem_map.mpr ⟨_, hplace.mp hcell, rfl⟩)⟩, hwired, hcells⟩
  · rintro ⟨hclaims, hparts, hwired, hcells⟩
    have hparts (cell : FlowCell) (scope : ScopeId)
        (hmem : (cell, scope) ∈ w.flows.zipIdx w.scopes.nodes.length) :
        (cell.attach ⟨cell.name, scope, w.directory⟩).result = .ok () ∧
          ((housed w.directory cell scope).setUp st₁).result = .ok () := by
      obtain ⟨hle, hcell⟩ := List.mk_mem_zipIdx_iff_le_and_getElem?_sub.mp hmem
      rw [← Nat.add_sub_cancel' hle]
      exact hparts _ cell hcell
    refine ⟨⟨hclaims, fun cell scope hmem => (hparts cell scope hmem).1, rfl⟩,
      ⟨rfl, fun cell hmem => ?_, rfl⟩, rfl, hwired, hcells⟩
    obtain ⟨⟨cell, scope⟩, hscope, rfl⟩ := List.mem_map.mp hmem
    exact (hparts cell scope hscope).2

/-! What each flow is handed. -/

/-- On the way of a set-up a flow is handed what feeds it. -/
def Receives (w : World) (f : FlowId) (inflows : List Outflow) : Prop :=
  ∃ v p, Alone (w.opened (.setUpAll (.context w.set)) []) v ∧ .wire f inflows p ∈ v.stackOf 0

/-- Flows keep their names. -/
theorem Acts.name {t : ThreadId} {a : Activity} {answer : Outcome} (h : Acts w t answer a w')
    (g : FlowId) : w'.nameOf? g = w.nameOf? g := by
  have hkeep {f : FlowId} {change : FlowCell → FlowCell}
      (hchange : ∀ cell, (change cell).name = cell.name) :
      (w.modifyFlow f change).nameOf? g = w.nameOf? g := by
    rw [nameOf?, map_modifyFlow]
    split
    · simp only [hchange]
      rfl
    · rfl
  cases h with
  | leaves _ hleaves => exact hleaves.name g
  | works _ _ hleaves => exact (hleaves.name g).trans (hkeep fun _ => rfl)
  | release | unlatch | cut | record => exact hkeep fun _ => rfl
  | _ => rfl

/-- A set-up at a point, below its passes over single flows. A flow that is wired is handed its share
of the connections that were gathered. -/
structure SettingUp (v : World) (above : List Activity) (p : SetUpPoint) : Prop where
  tasks : v.tasks 0 = above ++ [.setUpAll p]
  passes : ∀ b ∈ above, b.surveys = false
  share : ∀ f l q, .wire f l q ∈ above → ∃ left all name,
    p = .wire left all ∧ v.nameOf? f = some name ∧ l = inflowsOf name all

/-- A set-up goes on at another point, maybe after a pass over a single flow, or is over. -/
theorem setUpAll_turn {answer : Outcome} {turn : Turn} {p : SetUpPoint}
    (h : w.setUpAll answer p = some (w', turn)) : turn.frames = [] ∨
      ∃ above p', turn.frames = above ++ [.setUpAll p'] ∧ p.Keeps p' ∧
        (∀ b ∈ above, b.surveys = false) ∧ ∀ f l q, .wire f l q ∈ above → ∃ left all name,
          p' = .wire left all ∧ w.nameOf? f = some name ∧ l = inflowsOf name all := by
  cases answer with
  | error e =>
      refine .inl ?_
      cases p with
      | context left | prepare left => cases left <;> cases h <;> rfl
      | gather left _ | wire left _ =>
          cases left with
          | nil =>
              cases h
              rfl
          | cons f left =>
              obtain ⟨_, _, h⟩ := Option.bind_eq_some_iff.mp h
              cases h
              rfl
  | ok v =>
      cases p with
      | context left | prepare left =>
          cases left with
          | nil =>
              cases h
              exact .inr ⟨[], _, rfl, fun _ _ => SetUpPoint.noConfusion, List.forall_mem_nil _,
                fun _ _ _ hmem => absurd hmem List.not_mem_nil⟩
          | cons f left =>
              cases h
              refine .inr ⟨[_], _, rfl, fun _ _ => SetUpPoint.noConfusion,
                List.forall_mem_singleton.mpr rfl, fun _ _ _ hmem => ?_⟩
              cases List.mem_singleton.mp hmem
      | gather left found =>
          obtain ⟨p', hframes⟩ : ∃ p', turn.frames = [.setUpAll p'] := by
            cases left with
            | nil =>
                cases h
                exact ⟨_, rfl⟩
            | cons f left =>
                obtain ⟨_, _, h⟩ := Option.bind_eq_some_iff.mp h
                cases h
                exact ⟨_, rfl⟩
          exact .inr ⟨[], p', hframes, fun _ _ => SetUpPoint.noConfusion, List.forall_mem_nil _,
            fun _ _ _ hmem => absurd hmem List.not_mem_nil⟩
      | wire left all =>
          cases left with
          | nil =>
              cases h
              exact .inl rfl
          | cons f left =>
              obtain ⟨cell, hcell, h⟩ := Option.bind_eq_some_iff.mp h
              cases h
              refine .inr ⟨[_], _, rfl, fun _ _ hp => ?_, List.forall_mem_singleton.mpr rfl,
                fun _ _ _ hmem => ?_⟩
              · cases hp
                exact ⟨left, rfl⟩
              · cases List.mem_singleton.mp hmem
                exact ⟨left, all, cell.name, rfl, by rw [nameOf?, hcell]; rfl, rfl⟩

/-- What stands above a set-up leads to more of the passes over single flows only. -/
theorem frames_of_pass {a : Activity} {turn : Turn} (h : turn.Stacks a) (ha : a.surveys = false) :
    (∀ b ∈ turn.frames, b.surveys = false) ∧ ∀ f l q, .wire f l q ∈ turn.frames →
      ∃ q', a = .wire f l q' := by
  have hcontinues {b : Activity} (hb : a.Continues b) : b.surveys = false := by
    cases hb <;> first | rfl | exact ha
  constructor
  · intro b hb
    obtain hgoes | ⟨back, hback, hasks, hgoes⟩ := h.of_mem hb
    · exact hcontinues hgoes
    · have hplain := hcontinues hgoes
      cases hasks with
      | chain hr | sink hr => cases b <;> first | rfl | cases hr
      | setUp => cases hplain
      | _ => rfl
  · intro f l q hb
    obtain hgoes | ⟨back, hback, hasks, hgoes⟩ := h.of_mem hb
    · cases hgoes
      exact ⟨_, rfl⟩
    · have hplain := hcontinues hgoes
      cases hasks with
      | chain hr | sink hr => cases hr
      | wire => cases hplain

theorem surveys_quiet (a : Activity) : (quiet a).surveys = a.surveys := by
  cases a <;> rfl

/-- Frames that no reader is among look the same without the points of reads. -/
theorem mem_quiet_wire {frames : List Activity} {f : FlowId} {l : List Outflow} {q : WirePoint} :
    .wire f l q ∈ frames.map quiet ↔ .wire f l q ∈ frames := by
  constructor
  · intro hmem
    obtain ⟨c, hc, hsame⟩ := List.mem_map.mp hmem
    exact eq_of_quiet_eq hsame.symm (fun _ _ _ _ => Activity.noConfusion) ▸ hc
  · exact fun hmem => List.mem_map.mpr ⟨_, hmem, rfl⟩

theorem SettingUp.takes {v : World} {above rest : List Activity} {p : SetUpPoint} {a : Activity}
    {turn : Turn} (h : SettingUp v above p) (htakes : Takes v 0 a rest w' turn) :
    (w'.turn 0 turn).tasks 0 = [] ∨
      ∃ above' p', SettingUp (w'.turn 0 turn) above' p' ∧ p.Keeps p' := by
  have hbefore := htakes.goes.tasks.symm.trans h.tasks
  have hafter := htakes.goes.tasks_self
  have hname (f : FlowId) : (w'.turn 0 turn).nameOf? f = v.nameOf? f := htakes.acts.name f
  cases above with
  | nil =>
      obtain ⟨hquiet, rfl⟩ := List.cons.inj hbefore
      obtain rfl : a = .setUpAll p :=
        (eq_of_quiet_eq hquiet.symm fun _ _ _ _ => Activity.noConfusion).symm
      obtain hstep | ⟨_, _, hsame, _⟩ := htakes.does
      · obtain hover | ⟨above', p', hframes, hkeeps, hpasses, hshare⟩ := setUpAll_turn hstep
        · rw [hover] at hafter
          exact .inl hafter
        · rw [hframes, List.map_append, List.append_nil] at hafter
          refine .inr ⟨above'.map quiet, p', ⟨hafter, fun b hb => ?_, fun f l q hmem => ?_⟩, hkeeps⟩
          · obtain ⟨c, hc, rfl⟩ := List.mem_map.mp hb
            rw [surveys_quiet]
            exact hpasses c hc
          · rw [hname]
            exact hshare f l q (mem_quiet_wire.mp hmem)
      · cases hsame
  | cons b above =>
      obtain ⟨rfl, rfl⟩ := List.cons.inj hbefore
      obtain ⟨hplain, hpasses⟩ := List.forall_mem_cons.mp h.passes
      rw [surveys_quiet] at hplain
      obtain ⟨hframes, hwire⟩ := frames_of_pass htakes.stacks hplain
      refine .inr ⟨_, p, ⟨hafter.trans (List.append_assoc ..).symm, fun c hc => ?_,
        fun f l q hmem => ?_⟩, fun left all hp => ⟨left, hp⟩⟩
      · obtain hc | hc := List.mem_append.mp hc
        · obtain ⟨c, hc', rfl⟩ := List.mem_map.mp hc
          rw [surveys_quiet]
          exact hframes c hc'
        · exact hpasses c hc
      · rw [hname]
        obtain hmem | hmem := List.mem_append.mp hmem
        · obtain ⟨q', rfl⟩ := hwire f l q (mem_quiet_wire.mp hmem)
          exact h.share f l q' List.mem_cons_self
        · exact h.share f l q (List.mem_cons_of_mem _ hmem)

/-- From then on the set-up goes on or is over, with what it has gathered. -/
theorem SettingUp.alone {v : World} {above : List Activity} {p : SetUpPoint} (h : SettingUp v above p)
    (hway : Alone v w) : w.tasks 0 = [] ∨ ∃ above' p', SettingUp w above' p' ∧ p.Keeps p' := by
  induction hway with
  | refl => exact .inr ⟨above, p, h, fun left all hp => ⟨left, hp⟩⟩
  | tail _ hstep ih =>
      obtain ⟨a, rest, w', turn, htakes, _, rfl⟩ := takes_of_step hstep
      obtain hover | ⟨above', p', hat, hkeeps⟩ := ih
      · exact absurd hover htakes.goes.busy
      · refine (hat.takes htakes).imp id ?_
        rintro ⟨above'', p'', hat', hkeeps'⟩
        refine ⟨above'', p'', hat', fun left all hp => ?_⟩
        obtain ⟨left', hp'⟩ := hkeeps left all hp
        exact hkeeps' left' all hp'

/-- A set-up is at one point. -/
theorem SettingUp.point_eq {v : World} {above above' : List Activity} {p p' : SetUpPoint}
    (h : SettingUp v above p) (h' : SettingUp v above' p') : p' = p := by
  obtain ⟨_, hpoint⟩ := List.append_inj' (h'.tasks.symm.trans h.tasks) rfl
  exact Activity.setUpAll.inj (List.head_eq_of_cons_eq hpoint)

/-- A flow that is being wired is being handed its share. -/
theorem SettingUp.wire {v : World} {above : List Activity} {p : SetUpPoint} {f : FlowId}
    {l : List Outflow} {q : WirePoint} (h : SettingUp v above p) (hmem : .wire f l q ∈ v.stackOf 0) :
    ∃ left all name, p = .wire left all ∧ v.nameOf? f = some name ∧ l = inflowsOf name all := by
  have hmem := mem_quiet_wire.mpr hmem
  rw [← tasks_eq, h.tasks] at hmem
  obtain hmem | hmem := List.mem_append.mp hmem
  · exact h.share f l q hmem
  · cases List.mem_singleton.mp hmem

theorem Alone.name {v : World} (h : Alone v w) (f : FlowId) : w.nameOf? f = v.nameOf? f := by
  induction h with
  | refl => rfl
  | tail _ hstep ih =>
      obtain ⟨a, rest, w', turn, htakes, _, rfl⟩ := takes_of_step hstep
      exact (htakes.acts.name f).trans ih

theorem Alone.stacked {v : World} (h : Alone v w) (hstacked : ∀ u, Stacked (v.tasks u)) :
    ∀ u, Stacked (w.tasks u) := by
  induction h with
  | refl => exact hstacked
  | tail _ hstep ih =>
      obtain ⟨a, rest, w', turn, htakes, _, rfl⟩ := takes_of_step hstep
      exact htakes.stacked ih

/-- A flow that comes to be wired was being wired on the way. -/
theorem Alone.wired {v : World} {f : FlowId} (h : Alone v w) (hstacked : ∀ u, Stacked (v.tasks u))
    (hbefore : v.stateOf f ≠ .wired) (hafter : w.stateOf f = .wired) :
    ∃ u l p, Alone v u ∧ .wire f l p ∈ u.stackOf 0 := by
  induction h with
  | refl => exact absurd hafter hbefore
  | @tail u _ hway hstep ih =>
      by_cases hwired : u.stateOf f = .wired
      · exact ih hwired
      · obtain ⟨a, rest, w', turn, htakes, _, rfl⟩ := takes_of_step hstep
        obtain hsame | ⟨target, rfl, _, htarget, _⟩ := htakes.goes.moves.state f
        · exact absurd (hsame.symm.trans hafter) hwired
        · obtain rfl : target = .wired := htarget.symm.trans hafter
          have hadvance : Stacked (.advance f .wired .swap :: rest) :=
            htakes.goes.tasks ▸ Alone.stacked hway hstacked 0
          obtain ⟨back, below, rfl, hmover⟩ := hadvance.advance
          cases hmover with
          | @wire l =>
              refine ⟨u, l, .advanced, hway, mem_quiet_wire.mp ?_⟩
              rw [← tasks_eq, htakes.goes.tasks]
              exact List.mem_cons_of_mem _ List.mem_cons_self

section SetUps

variable {f : FlowId} {l : List Outflow}

/-- When all flows have taken their arguments, the set-up goes on to wire them with what it has
gathered. -/
theorem Idle.leads_wire (h : w.Idle .init) (hmade : w.setUp = .ok (st₁, cells₁)) : ∃ v,
    LeadsTo w (.setUpAll (.context w.set)) (.ok .null) v
      (.setUpAll (.wire v.set (outflowsFrom 0 (w.preparedFlows st₁)))) (.ok .null) ∧
    v.Idle .setup := by
  obtain ⟨hcontext, hprepare, _⟩ := setUp_passes.mp hmade
  have hleads := h.leads_context
  rw [hcontext] at hleads
  obtain ⟨v₁, hleads₁, hbecame₁, hidle₁⟩ := hleads
  have hleads := hidle₁.leads_prepare
  rw [hbecame₁.scopes, hbecame₁.flows, hprepare, hbecame₁.set] at hleads
  obtain ⟨v₂, hleads₂, _, hidle₂⟩ := hleads
  exact ⟨v₂, hleads₁.trans hleads₂, hidle₂⟩

/-- What a flow is handed is its share of the connections that flows have once their parts have taken
their arguments. -/
theorem Idle.receives_iff (h : w.Idle .init) (hmade : w.setUp = .ok (st₁, cells₁)) :
    w.Receives f l ↔ ∃ cell, w.flows[f]? = some cell ∧
      l = inflowsOf cell.name (outflowsFrom 0 (w.preparedFlows st₁)) := by
  obtain ⟨v, hleads, _⟩ := h.leads_wire hmade
  have hstart : SettingUp (w.opened (.setUpAll (.context w.set)) []) [] (.context w.set) :=
    ⟨rfl, List.forall_mem_nil _, fun _ _ _ hmem => absurd hmem List.not_mem_nil⟩
  have hgathered := hleads [] (List.forall_mem_nil _)
  have hpoint : SettingUp (v.busy [.setUpAll (.wire v.set (outflowsFrom 0 (w.preparedFlows st₁)))]
      (.ok .null)) [] (.wire v.set (outflowsFrom 0 (w.preparedFlows st₁))) :=
    ⟨rfl, List.forall_mem_nil _, fun _ _ _ hmem => absurd hmem List.not_mem_nil⟩
  have hshare {l : List Outflow} (hreceives : w.Receives f l) : ∃ cell, w.flows[f]? = some cell ∧
      l = inflowsOf cell.name (outflowsFrom 0 (w.preparedFlows st₁)) := by
    obtain ⟨u, q, hway, hwire⟩ := hreceives
    have hbusy : u.tasks 0 ≠ [] := by
      intro hover
      have hmem := mem_quiet_wire.mpr hwire
      rw [← tasks_eq, hover] at hmem
      cases hmem
    obtain hover | ⟨above, p, hat, _⟩ := hstart.alone hway
    · exact absurd hover hbusy
    · obtain ⟨left, all, name, rfl, hname, rfl⟩ := hat.wire hwire
      rw [hway.name] at hname
      obtain ⟨cell, hcell, rfl⟩ := Option.map_eq_some_iff.mp hname
      refine ⟨cell, hcell, congrArg _ ?_⟩
      -- The set-up came past where it had gathered, or it is on the way to there.
      obtain hpast | hahead := hgathered.total hway
      · obtain hover | ⟨above', p', hat', hkeeps⟩ := hpoint.alone hpast
        · exact absurd hover hbusy
        · obtain ⟨left', rfl⟩ := hkeeps _ _ rfl
          exact (SetUpPoint.wire.inj (hat'.point_eq hat)).2
      · obtain hover | ⟨above', p', hat', hkeeps⟩ := hat.alone hahead
        · cases hover
        · obtain ⟨left', rfl⟩ := hkeeps _ _ rfl
          exact (SetUpPoint.wire.inj (hpoint.point_eq hat')).2
  refine ⟨hshare, ?_⟩
  rintro ⟨cell, hcell, rfl⟩
  have hyields := h.yields_setUp
  rw [hmade] at hyields
  obtain ⟨w₁, hyields, _, hflows₁⟩ := hyields
  obtain ⟨w₂, hsets, _, hflows₂⟩ := setsUp_of_yields hyields
  have hbefore : (w.opened (.setUpAll (.context w.set)) []).stateOf f ≠ .wired := by
    rw [stateOf, show (w.opened (.setUpAll (.context w.set)) []).flow? f = some cell from hcell]
    simp only [(h.cells cell (List.mem_of_getElem? hcell)).1]
    decide
  have hafter : w₂.stateOf f = .wired := by
    obtain ⟨_, _, _, hcells⟩ := setUp_eq_ok.mp hmade
    rw [stateOf, flow?, hflows₂, hflows₁, hcells, List.getElem?_map, prepared_of_flow hcell]
    rfl
  obtain ⟨u, l, q, hway, hwire⟩ :=
    hsets.way.wired (stacked_opened w (List.forall_mem_singleton.mpr rfl)) hbefore hafter
  obtain ⟨cell', hcell', rfl⟩ := hshare ⟨u, q, hway, hwire⟩
  cases hcell.symm.trans hcell'
  exact ⟨u, q, hway, hwire⟩

end SetUps

end World
end Engine
end PullFlow
