import PullFlow.Proofs.Engine.Grounds
import PullFlow.Proofs.Engine.Rings
import PullFlow.Proofs.Engine.Upkeep
import PullFlow.Proofs.Untouched

/-!
A set of flows up to the end of its set-up. One thread sets the flows up while others at most stop
them. None of this reads a chain or feeds a sink, so at the end no operator waits for anything and
no sink has claimed a variable.
-/

namespace PullFlow.Engine

/-- Whether an activity is part of the end of flows. -/
def Activity.ends : Activity → Bool
  | .close .. | .advance .. | .interrupt .. | .finish .. | .stop .. | .stopAll _ => true
  | _ => false

/-- Whether an activity is part of the set-up of flows or of their end. -/
def Activity.prepares : Activity → Bool
  | .write .. | .contextualize .. | .prepare .. | .wire .. | .setUpAll _ => true
  | a => a.ends

theorem prepares_of_ends {a : Activity} (h : a.ends = true) : a.prepares = true := by
  cases a <;> first | rfl | cases h

theorem aloof_of_ends {a : Activity} (h : a.ends = true) : a.aloof = true ∧ a.feeds = false := by
  cases a <;> first | exact ⟨rfl, rfl⟩ | cases h

@[simp] theorem ends_quiet (a : Activity) : (quiet a).ends = a.ends := by
  cases a <;> rfl

@[simp] theorem prepares_quiet (a : Activity) : (quiet a).prepares = a.prepares := by
  cases a <;> rfl

namespace World

variable {w w₁ : World} {t : ThreadId} {f : FlowId} {a callee back : Activity} {answer : Outcome}
  {turn : Turn} {r : World × Turn}

/-- No chain is read, and no variable is claimed. -/
def Blank (w : World) : Prop := ∀ f pipeline, w.pipeline? f = some pipeline → pipeline.Blank

theorem Blank.tends (h : w.Blank) (htends : Tends a w w₁) : w₁.Blank := by
  intro f pipeline hpipeline
  obtain hsame | ⟨_, p, p', hp, hp', hkept⟩ := htends.pipeline f
  · exact h f pipeline (hsame ▸ hpipeline)
  · rw [hp'] at hpipeline
    cases hpipeline
    exact (h f p hp).upkept hkept

/-- A change of one flow. -/
theorem Blank.modifyFlow (h : w.Blank) {change : FlowCell → FlowCell}
    (hchange : ∀ cell, w.flow? f = some cell → (change cell).pipeline.Blank) :
    (w.modifyFlow f change).Blank := by
  intro g pipeline hpipeline
  rw [pipeline?_modifyFlow] at hpipeline
  split at hpipeline
  · next hfg =>
    subst hfg
    obtain ⟨cell, hcell, rfl⟩ := Option.map_eq_some_iff.mp hpipeline
    exact hchange cell hcell
  · exact h g pipeline hpipeline

theorem Blank.cell (h : w.Blank) {cell : FlowCell} (hcell : w.flow? f = some cell) :
    cell.pipeline.Blank :=
  h f cell.pipeline (by rw [pipeline?, hcell]; rfl)

/-! An end of flows leads to nothing else. -/

theorem close_ends {s : ScopeId} {p : ClosePoint} (h : w.close s p = some r) :
    ∀ b ∈ r.2.frames, b.ends = true := by
  cases p with
  | mark =>
      cases h
      exact List.forall_mem_singleton.mpr rfl
  | wake =>
      simp only [World.close] at h
      split at h <;> cases h
      exact List.forall_mem_nil _

theorem interrupt_ends {p : InterruptPoint} (h : w.interrupt f p = some r) :
    ∀ b ∈ r.2.frames, b.ends = true := by
  cases p with
  | sleeper =>
      cases h
      exact List.forall_mem_singleton.mpr rfl
  | close =>
      obtain ⟨cell, _, rfl⟩ := Option.map_eq_some_iff.mp h
      split
      · exact List.forall_mem_cons.mpr ⟨rfl, List.forall_mem_singleton.mpr rfl⟩
      · exact List.forall_mem_singleton.mpr rfl
  | latch =>
      cases h
      exact List.forall_mem_nil _

theorem step_ends (ha : a.ends = true) (h : a.step w t answer = some r) :
    ∀ b ∈ r.2.frames, b.ends = true := by
  have hinvoke {callee back : Activity} (hcallee : callee.ends = true) (hback : back.ends = true) :
      ∀ b ∈ (Turn.invoke callee back).frames, b.ends = true :=
    List.forall_mem_cons.mpr ⟨hcallee, List.forall_mem_singleton.mpr hback⟩
  obtain ⟨w₁, turn⟩ := r
  cases a with
  | close s p => exact close_ends h
  | interrupt f p => exact interrupt_ends h
  | advance f target p =>
      have hmoves : Moves w answer _ w₁ turn := advance_moves h
      cases hmoves with
      | plain hplain _ _ => cases hplain
      | swap _ _ => exact List.forall_mem_singleton.mpr rfl
      | behind _ _ | announce _ => exact List.forall_mem_nil _
  | finish f m p =>
      have hmoves : Moves w answer _ w₁ turn := finish_moves h
      cases hmoves with
      | plain hplain _ _ => cases hplain
      | finishOn _ _ _ _ => exact List.forall_mem_singleton.mpr rfl
      | finishEnd => exact hinvoke rfl rfl
      | finished => exact List.forall_mem_nil _
  | stop f p =>
      cases stop_moves h with
      | plain hplain _ _ => cases hplain
      | stopBegin => exact hinvoke rfl rfl
      | stopFirst _ => exact hinvoke rfl rfl
      | stopTake _ _ => exact hinvoke rfl rfl
      | stopLate _ | stopLeft _ _ | stopped => exact List.forall_mem_nil _
  | stopAll left =>
      have hmoves : Moves w answer _ w₁ turn := stopAll_moves h
      cases hmoves with
      | plain hplain _ _ => cases hplain
      | stopNext => exact hinvoke rfl rfl
      | stopNone => exact List.forall_mem_nil _
  | _ => cases ha

/-! The set-up of flows. -/

/-- A step that leaves chains and variables blank and goes on with the set-up. -/
structure Prepares (w : World) (r : World × Turn) : Prop where
  blank : w.Blank → r.1.Blank
  frames : ∀ b ∈ r.2.frames, b.prepares = true

namespace Prepares

theorem goto (h : w.Blank → w₁.Blank) (ha : a.prepares = true) {out : Outcome} :
    Prepares w (w₁, .goto a out) :=
  ⟨h, List.forall_mem_singleton.mpr ha⟩

theorem invoke (h : w.Blank → w₁.Blank) (hcallee : callee.prepares = true)
    (hback : back.prepares = true) : Prepares w (w₁, .invoke callee back) :=
  ⟨h, List.forall_mem_cons.mpr ⟨hcallee, List.forall_mem_singleton.mpr hback⟩⟩

theorem exit (h : w.Blank → w₁.Blank) {out : Outcome} : Prepares w (w₁, .exit out) :=
  ⟨h, List.forall_mem_nil _⟩

theorem unlessFailed {next : World × Turn} (h : Prepares w next) :
    Prepares w (w.unlessFailed answer next) := by
  cases answer with
  | ok v => exact h
  | error e => exact .exit id

end Prepares

theorem write_prepares {s : ScopeId} {key : String} {e : Entry} {first : Bool} {p : WritePoint}
    (h : w.write s key e first p = some r) : Prepares w r := by
  unfold write at h
  split at h
  · cases h
    exact .exit id
  · cases h
    exact .goto id rfl
  · cases h
    exact .goto id rfl
  · dsimp only at h
    split at h
    · split at h <;> cases h
      · exact .exit id
      · exact ⟨fun hw => hw, List.forall_mem_singleton.mpr rfl⟩
    · cases h
      exact ⟨fun hw => hw, List.forall_mem_nil _⟩
  · split at h <;> cases h
    exact ⟨fun hw => hw, List.forall_mem_nil _⟩

theorem checkState_prepares {state : FlowState} {next : Activity} (hnext : next.prepares = true)
    (h : w.checkState f state next = some r) : Prepares w r := by
  obtain ⟨cell, _, rfl⟩ := Option.map_eq_some_iff.mp h
  split
  · exact .goto id hnext
  · exact .exit id

theorem afterHook_prepares {cell : FlowCell} (hcell : w.flow? f = some cell)
    {h : HookEnd FlowCell} {next : Activity}
    (hhook : cell.pipeline.Blank → h.body.pipeline.Blank) (hnext : next.prepares = true) :
    Prepares w (w.afterHook f h next) := by
  have hblank (hw : w.Blank) : ((w.modifyFlow f fun _ => h.body).jot h.notes).Blank :=
    (hw.modifyFlow fun _ _ => hhook (hw.cell hcell)).tends (.jot (a := next) _)
  simp only [afterHook]
  split
  · exact .goto hblank hnext
  · exact .exit hblank

theorem onPipeline_prepares {hook : Pipeline → HookEnd Pipeline} {next : Activity}
    (hhook : ∀ p : Pipeline, p.Blank → (hook p).body.Blank) (hnext : next.prepares = true)
    (h : w.onPipeline f hook next = some r) : Prepares w r := by
  obtain ⟨cell, hcell, h⟩ := Option.bind_eq_some_iff.mp h
  split at h <;> cases h
  exact afterHook_prepares hcell (hhook cell.pipeline) hnext

theorem blank_attachMonitor (ctx : Context) {cell : FlowCell} (h : cell.pipeline.Blank) :
    (attachMonitor ctx cell).body.pipeline.Blank := by
  unfold attachMonitor
  split
  · exact h
  · dsimp only [HookEnd.map]
    have hholds := Pipeline.unclaimed_iff.mp h.unclaimed
    refine ⟨h.waiting, Pipeline.unclaimed_iff.mpr ⟨hholds.chain, ?_⟩⟩
    have hsink := hholds.sink
    split
    · split
      · exact SinkBody.unclaimed_onDemand hsink
      · exact hsink
    · exact hsink

theorem contextualize_prepares {p : ContextPoint} (h : w.contextualize f answer p = some r) :
    Prepares w r := by
  cases p with
  | check => exact checkState_prepares rfl h
  | child =>
      cases h
      exact .invoke (fun hw => hw) rfl rfl
  | global scope =>
      obtain ⟨cell, _, rfl⟩ := Option.map_eq_some_iff.mp h
      exact .unlessFailed (.invoke id rfl rfl)
  | named scope =>
      cases h
      exact .unlessFailed (.goto id rfl)
  | attach scope =>
      obtain ⟨cell, _, h⟩ := Option.bind_eq_some_iff.mp h
      exact onPipeline_prepares (fun _ hp => hp.setContext _) rfl h
  | monitor scope =>
      obtain ⟨cell, hcell, rfl⟩ := Option.map_eq_some_iff.mp h
      exact afterHook_prepares hcell (blank_attachMonitor _) rfl
  | record scope =>
      cases h
      refine ⟨fun hw => hw.modifyFlow fun cell hcell => ?_, List.forall_mem_singleton.mpr rfl⟩
      have hblank : cell.pipeline.Blank := hw.cell hcell
      exact hblank
  | advance =>
      cases h
      exact .invoke id rfl rfl
  | advanced =>
      cases h
      exact .exit id

theorem prepare_prepares {p : PreparePoint} (h : w.prepare f p = some r) : Prepares w r := by
  cases p with
  | check => exact checkState_prepares rfl h
  | components => exact onPipeline_prepares (fun _ hp => hp.setUp _) rfl h
  | monitor =>
      obtain ⟨cell, hcell, rfl⟩ := Option.map_eq_some_iff.mp h
      refine afterHook_prepares hcell (fun hp => ?_) rfl
      unfold prepareMonitor
      split <;> exact hp
  | advance =>
      cases h
      exact .invoke id rfl rfl
  | advanced =>
      cases h
      exact .exit id

theorem wire_prepares {inflows : List Outflow} {p : WirePoint} (h : w.wire f inflows p = some r) :
    Prepares w r := by
  cases p with
  | check => exact checkState_prepares rfl h
  | source => exact onPipeline_prepares (fun _ hp => hp.wire _) rfl h
  | advance =>
      cases h
      exact .invoke id rfl rfl
  | advanced =>
      cases h
      exact .exit id

theorem setUpAll_prepares {p : SetUpPoint} (h : w.setUpAll answer p = some r) : Prepares w r := by
  unfold setUpAll at h
  cases p with
  | context left | prepare left =>
      cases left <;> cases h
      · exact .unlessFailed (.goto id rfl)
      · exact .unlessFailed (.invoke id rfl rfl)
  | gather left done =>
      cases left with
      | nil =>
          cases h
          exact .unlessFailed (.goto id rfl)
      | cons flow left =>
          obtain ⟨more, _, h⟩ := Option.bind_eq_some_iff.mp h
          cases h
          exact .unlessFailed (.goto id rfl)
  | wire left all =>
      cases left with
      | nil =>
          cases h
          exact .unlessFailed (.exit id)
      | cons flow left =>
          obtain ⟨cell, _, h⟩ := Option.bind_eq_some_iff.mp h
          cases h
          exact .unlessFailed (.invoke id rfl rfl)

theorem step_prepares (ha : a.prepares = true) (h : a.step w t answer = some r) : Prepares w r := by
  have hends (hends : a.ends = true) : Prepares w r := by
    obtain ⟨haloof, hfeeds⟩ := aloof_of_ends hends
    exact ⟨fun hw => hw.tends (step_light haloof hfeeds h).tends,
      fun b hb => prepares_of_ends (step_ends hends h b hb)⟩
  cases a with
  | write s key e first p => exact write_prepares h
  | contextualize f p => exact contextualize_prepares h
  | prepare f p => exact prepare_prepares h
  | wire f inflows p => exact wire_prepares h
  | setUpAll p => exact setUpAll_prepares h
  | _ => exact hends ha

/-! Up to the end of the set-up. -/

/-- Thread 0 sets the flows up or is about to; others at most stop flows. -/
structure Dormant (w : World) : Prop where
  main : w.tasks 0 = [.runAll .begin] ∨
    ∃ front, w.tasks 0 = front ++ [.runAll .ready] ∧ ∀ b ∈ front, b.prepares = true
  others : ∀ t, t ≠ 0 → ∀ b ∈ w.tasks t, b.ends = true
  blank : w.Blank

/-- Thread 0 has gone on from the set-up. -/
def Begun (w : World) : Prop := .runAll .begin ∉ w.tasks 0 ∧ .runAll .ready ∉ w.tasks 0

variable {rest : List Activity}

theorem quiet_eq_runAll {a : Activity} {p : RunAllPoint} (h : quiet a = .runAll p) :
    a = .runAll p := by
  cases a <;> first | exact h | cases h

/-- Only the start of a flow starts a thread. -/
theorem tasks_of_ne_launch (hgoes : Goes w t a rest w₁ turn) (ha : ∀ f, a ≠ .launch f true)
    {u : ThreadId} (hu : u ≠ t) : (w₁.turn t turn).tasks u = w.tasks u := by
  obtain hsame | ⟨_, f, m, hlaunch, _⟩ := hgoes.tasks_of_ne hu
  · exact hsame
  · exact absurd hlaunch (ha f)

/-- A step of the thread that sets the flows up. -/
theorem Dormant.goes_main (h : w.Dormant) (hgoes : Goes w 0 a rest w₁ turn) :
    (w₁.turn 0 turn).Dormant ∨ (w₁.turn 0 turn).Begun := by
  have hself := hgoes.tasks_self
  have hothers (ha : ∀ f, a ≠ .launch f true) (u : ThreadId) (hu : u ≠ 0) (b : Activity)
      (hb : b ∈ (w₁.turn 0 turn).tasks u) : b.ends = true :=
    h.others u hu b (tasks_of_ne_launch hgoes ha hu ▸ hb)
  have htasks := hgoes.tasks
  obtain hbegin | ⟨front, hready, hfront⟩ := h.main
  · rw [hbegin] at htasks
    injection htasks with hhead hrest
    subst hrest
    cases quiet_eq_runAll hhead.symm
    obtain hstep | ⟨r, heq⟩ := hgoes.step
    · cases hstep
      refine .inl ⟨.inr ⟨[.setUpAll (.context w.set)], hself, ?_⟩, hothers (fun _ => nofun), h.blank⟩
      exact List.forall_mem_singleton.mpr rfl
    · cases heq
  · rw [hready] at htasks
    cases front with
    | nil =>
        injection htasks with hhead hrest
        subst hrest
        cases quiet_eq_runAll hhead.symm
        obtain hstep | ⟨r, heq⟩ := hgoes.step
        · refine .inr ?_
          rw [Begun, hself]
          simp only [Activity.step, runAll] at hstep
          split at hstep <;> cases hstep
          · simp [Turn.next, Turn.frames, quiet]
          · simp [Turn.frames, quiet]
        · cases heq
    | cons c front =>
        injection htasks with hhead hrest
        subst hrest
        obtain ⟨hc, hfront⟩ := List.forall_mem_cons.mp hfront
        have ha : a.prepares = true := by rw [← prepares_quiet, ← hhead, hc]
        obtain hstep | ⟨r, rfl⟩ := hgoes.step
        · have hprepares := step_prepares ha hstep
          refine .inl ⟨.inr ⟨turn.frames.map quiet ++ front,
              hself.trans (List.append_assoc ..).symm, ?_⟩,
            hothers ?_, hprepares.blank h.blank⟩
          · refine List.forall_mem_append.mpr ⟨?_, hfront⟩
            refine List.forall_mem_map.mpr fun b hb => ?_
            rw [prepares_quiet]
            exact hprepares.frames b hb
          · rintro f rfl
            cases ha
        · cases ha

/-- A step of a thread that stops flows. -/
theorem Dormant.goes_other (h : w.Dormant) (hgoes : Goes w t a rest w₁ turn) (ht : t ≠ 0) :
    (w₁.turn t turn).Dormant := by
  have hstack := h.others t ht
  rw [hgoes.tasks] at hstack
  obtain ⟨hends, hrest⟩ := List.forall_mem_cons.mp hstack
  rw [ends_quiet] at hends
  have hsame {u : ThreadId} (hu : u ≠ t) : (w₁.turn t turn).tasks u = w.tasks u := by
    refine tasks_of_ne_launch hgoes ?_ hu
    rintro f rfl
    cases hends
  obtain hstep | ⟨r, rfl⟩ := hgoes.step
  · refine ⟨by rw [hsame (Ne.symm ht)]; exact h.main, fun u hu b hb => ?_,
      (step_prepares (prepares_of_ends hends) hstep).blank h.blank⟩
    by_cases hut : u = t
    · subst hut
      rw [hgoes.tasks_self] at hb
      obtain hb | hb := List.mem_append.mp hb
      · obtain ⟨c, hc, rfl⟩ := List.mem_map.mp hb
        rw [ends_quiet]
        exact step_ends hends hstep c hc
      · exact hrest b hb
    · exact h.others u hu b (hsame hut ▸ hb)
  · cases hends

theorem Begun.goes (h : w.Begun) (hgoes : Goes w t a rest w₁ turn) : (w₁.turn t turn).Begun := by
  have hkeeps {p : RunAllPoint} (hnot : .runAll p ∉ w.tasks 0)
      (hframes : t = 0 → .runAll p ∉ turn.frames.map quiet) :
      .runAll p ∉ (w₁.turn t turn).tasks 0 := by
    by_cases ht : 0 = t
    · subst ht
      rw [hgoes.tasks_self, List.mem_append, not_or]
      refine ⟨hframes rfl, fun hrest => hnot ?_⟩
      rw [hgoes.tasks]
      exact List.mem_cons_of_mem _ hrest
    · obtain hsame | ⟨_, f, m, _, _, hnew⟩ := hgoes.tasks_of_ne ht
      · rwa [hsame]
      · rw [hnew]
        simp
  have hframes (p : RunAllPoint) (ht : t = 0) : .runAll p ∉ turn.frames.map quiet := by
    subst ht
    intro hmem
    obtain ⟨b, hb, heq⟩ := List.mem_map.mp hmem
    cases quiet_eq_runAll heq
    by_cases ha : ∃ q, a = .runAll q
    · obtain ⟨q, rfl⟩ := ha
      have htasks : .runAll q ∈ w.tasks 0 := hgoes.tasks ▸ List.mem_cons_self
      cases q with
      | begin => exact h.1 htasks
      | ready => exact h.2 htasks
      | stopped e =>
          obtain hstep | ⟨r, heq⟩ := hgoes.step
          · cases hstep
            cases hb
          · cases heq
    · exact hgoes.moves.not_runAll (fun q hq => ha ⟨q, hq⟩) p hb
  exact ⟨hkeeps h.1 (hframes _), hkeeps h.2 (hframes _)⟩

/-- Up to the end of the set-up all is blank. -/
theorem Reach.dormant {start : World} (h : Reach start w) (hstart : start.Dormant) :
    w.Dormant ∨ w.Begun := by
  have hgoes {w w₁ : World} {t : ThreadId} {a : Activity} {rest : List Activity} {turn : Turn}
      (h : w.Dormant ∨ w.Begun) (hgoes : Goes w t a rest w₁ turn) :
      (w₁.turn t turn).Dormant ∨ (w₁.turn t turn).Begun := by
    obtain h | h := h
    · by_cases ht : t = 0
      · subst ht
        exact h.goes_main hgoes
      · exact .inl (h.goes_other hgoes ht)
    · exact .inr (h.goes hgoes)
  induction h with
  | refl => exact .inl hstart
  | step _ hstep ih =>
      obtain ⟨a, ha⟩ := doing?_of_step hstep
      obtain ⟨rest, w₁, turn, hmove, rfl⟩ := goes_of_step ha hstep
      exact hgoes ih hmove
  | @host w t out _ ih =>
      obtain hsame | ⟨r, rest, hmove, heq⟩ := goes_hostReply w t out
      · rw [hsame]
        exact ih
      · rw [heq]
        exact hgoes ih hmove
  | tick _ ih => exact ih.imp (fun h => ⟨h.main, h.others, h.blank⟩) fun h => h

/-- Flows that are set up and not started: all are still, and nothing is claimed. -/
structure Poised (P : Plan) (w : World) : Prop where
  locked : WellLocked P w
  aloof : ∀ t, ∀ b ∈ w.tasks t, b.aloof = true
  blank : w.Blank

/-- At the end of the set-up the flows are poised. -/
theorem Dormant.poised {P : Plan} (h : w.Dormant) (hlocked : WellLocked P w)
    (hready : w.doing? 0 = some (.runAll .ready)) : Poised P w := by
  obtain ⟨rest, htasks⟩ := tasks_of_doing hready
  refine ⟨hlocked, fun t b hb => ?_, h.blank⟩
  by_cases ht : t = 0
  · subst ht
    obtain hbegin | ⟨front, hfront, hprepares⟩ := h.main
    · rw [hbegin] at htasks
      cases htasks
    · rw [hfront] at htasks
      cases front with
      | nil =>
          rw [hfront, List.nil_append, List.mem_singleton] at hb
          rw [hb]
          rfl
      | cons c front =>
          injection htasks with hhead
          have hc := (List.forall_mem_cons.mp hprepares).1
          rw [hhead] at hc
          cases hc
  · exact (aloof_of_ends (h.others t ht b hb)).1

section Drafts

variable {fresh : Nat → String} {drafts : List FlowDraft} {scopes : Scope.Store} {root : ScopeId}
  {start : World} {calls : List Activity}

/-- A flow of a set is made of one of the drafts. -/
theorem draft_of_ofDrafts (h : ofDrafts fresh drafts scopes root = .ok w) {cell : FlowCell}
    (hcell : w.flow? f = some cell) :
    ∃ p ∈ drafts, ∃ name fed, cell = p.cell name fed := by
  have hassembled := assembled_of_ofDrafts h
  obtain ⟨hi, rfl⟩ := List.getElem?_eq_some_iff.mp hcell
  have hdraft : f < drafts.length := hassembled.length ▸ hi
  have hmade := hassembled.made f drafts[f] w.flows[f] (List.getElem?_eq_getElem hdraft) hcell
  exact ⟨drafts[f], List.getElem_mem hdraft, _, _, (FlowDraft.assemble_eq_ok.mp hmade).1⟩

theorem tied_of_untouched {b : SinkBody} (h : b.untouched = true) :
    b.Tied (fun _ => False) false := by
  cases b with
  | flow target producer peer payload onDemand =>
      rintro (hdemand | hdriven)
      · rw [hdemand] at h
        cases h
      · cases hdriven
  | _ => trivial

theorem unattached_cell {p : FlowDraft} (h : p.untouched = true) (name : String) (fed : Bool) :
    (p.cell name fed).Unattached := by
  have hoperators := (FlowDraft.untouched_iff.mp h).2.1
  constructor
  · intro named inflows hbody
    have hsource := FlowDraft.untouched_chooseSource h fed
    rw [show (p.chooseSource fed).body = .inflow named inflows from hbody] at hsource
    exact List.isEmpty_iff.mp hsource
  · intro op hop mode target callee hbody
    rw [FlowDraft.operators_cell] at hop
    have hop := hoperators op hop
    rw [hbody] at hop
    exact Option.isNone_iff_eq_none.mp hop
  · intro op hop sink hbody
    rw [FlowDraft.operators_cell] at hop
    have hop := hoperators op hop
    rw [hbody] at hop
    exact tied_of_untouched hop
  · exact tied_of_untouched (FlowDraft.untouched_chooseSink h)
  · rfl

theorem unattached_of_drafts (hmade : ofDrafts fresh drafts scopes root = .ok start)
    (hnew : ∀ p ∈ drafts, p.untouched = true) {cell : FlowCell} (hcell : start.flow? f = some cell) :
    cell.Unattached := by
  obtain ⟨p, hp, name, fed, rfl⟩ := draft_of_ofDrafts hmade hcell
  exact unattached_cell (hnew p hp) name fed

theorem tied_of_drafts (hmade : ofDrafts fresh drafts scopes root = .ok start)
    (hnew : ∀ p ∈ drafts, p.untouched = true) : start.Tied start.plan := by
  refine tied_plan ?_ fun _ _ => unattached_of_drafts hmade hnew
  obtain ⟨cells, directory, _, rfl⟩ := ofDrafts_eq_ok.mp hmade
  rfl

theorem free_of_drafts (hmade : ofDrafts fresh drafts scopes root = .ok start)
    (hnew : ∀ p ∈ drafts, p.untouched = true) (f : FlowId) : start.holderOf f = none := by
  rw [holderOf]
  cases h : start.flow? f with
  | none => rfl
  | some cell => exact (unattached_of_drafts hmade hnew h).holder

/-- A set that was put together from drafts, once its flows are set up. -/
theorem poised_of_drafts (hmade : ofDrafts fresh drafts scopes root = .ok start)
    (hnew : ∀ p ∈ drafts, p.untouched = true) (hcalls : ∀ b ∈ calls, b.stops = true)
    (hreach : Reach (start.opened (.runAll .begin) calls) w)
    (hready : w.doing? 0 = some (.runAll .ready)) : Poised start.plan w := by
  have hlocked : WellLocked start.plan (start.opened (.runAll .begin) calls) :=
    wellLocked_opened (tied_of_drafts hmade hnew) (free_of_drafts hmade hnew) hcalls
  have hdormant : (start.opened (.runAll .begin) calls).Dormant := by
    refine ⟨.inl rfl, fun t ht b hb => ?_, fun f pipeline hpipeline => ?_⟩
    · obtain ⟨n, rfl⟩ := Nat.exists_eq_succ_of_ne_zero ht
      rw [tasks_eq, stackOf, opened, List.getElem?_map, List.getElem?_cons_succ] at hb
      cases hcall : calls[n]? with
      | none =>
          rw [hcall] at hb
          cases hb
      | some call =>
          rw [hcall] at hb
          cases List.mem_singleton.mp hb
          have hstops := hcalls call (List.mem_of_getElem? hcall)
          cases call <;> first | rfl | cases hstops
    · obtain ⟨cell, hfound, rfl⟩ := Option.map_eq_some_iff.mp hpipeline
      obtain ⟨p, hp, name, fed, rfl⟩ := draft_of_ofDrafts hmade hfound
      exact FlowDraft.blank_cell (hnew p hp) name fed
  obtain h | h := hreach.dormant hdormant
  · exact h.poised (hreach.wellLocked hlocked) hready
  · obtain ⟨rest, htasks⟩ := tasks_of_doing hready
    exact absurd (htasks ▸ List.mem_cons_self) h.2

end Drafts

end World
end PullFlow.Engine
