import PullFlow.Proofs.Engine.Phases

/-!
Every flow that has ended was stopped as far as it was started. Its monitor goes from hand to hand,
and whoever has it finds the components of the flow as far as the phase of the flow says. So the
hooks that the turns of a run have called come to a start of the components and a stop of those that
were started.
-/

namespace PullFlow.Engine.World

variable {w w₁ start : World} {t u : ThreadId} {f : FlowId} {a b : Activity} {answer : Outcome}
  {cell : FlowCell} {p : Pipeline} {m m₁ : Monitor} {turn : Turn} {rest : List Activity}
  {trace : List Taken} {n : Nat} {q : RunPoint}

/-- The stages of the components of a flow. -/
def marksOf (w : World) (f : FlowId) : List (Place × PullFlow.Stage) :=
  (w.leavesOf f).map Leaf.mark

theorem marksOf_of_pipeline? (h : w.pipeline? f = some p) : w.marksOf f = p.marks := by
  rw [marksOf, leavesOf_of_pipeline? h]
  rfl

/-- How far a flow with `n` operators has come, whoever has its monitor. -/
structure Brackets (n : Nat) (f : FlowId) (trace : List Taken) (w : World) : Prop where
  flow : ∃ p, w.pipeline? f = some p
  places : (w.marksOf f).map Prod.fst = places n
  parked : ∀ m, w.parked? f = some m → Standing n (Visited f .started trace w) (hookLog f trace)
    (w.marksOf f ++ [(.monitor, m.stage)])
  frames : ∀ t, ∀ a ∈ w.tasks t, handles true f a = true →
    Phase n (Visited f .started trace w) (granted f w t) (hookLog f trace) (w.marksOf f) a
  used : ∀ taken ∈ trace, usesUp true f taken.activity = true → ∃ starts stops,
    hookLog f trace = starts ++ stops ∧ Bracketed n (Visited f .started trace w) starts stops
  rank : Visited f .started trace w → FlowState.started.rank ≤ (w.stateOf f).rank
  ended : w.stateOf f = .ended → (∃ t, ∃ a ∈ w.tasks t, closes f a = true) ∨
    ∃ taken ∈ trace, usesUp true f taken.activity = true

theorem handles_of_closes (h : closes f a = true) : handles true f a = true := by
  unfold closes at h
  split at h
  · simpa [handles] using h
  · cases h

theorem handles_of_usesUp (h : usesUp true f a = true) : handles true f a = true := by
  unfold usesUp at h
  split at h
  · simp at h
  · simpa [handles] using h
  · cases h

theorem eq_of_handles (h : handles true f a = true) :
    (∃ m q, a = .run f m q ∧ q.gone = false) ∨ ∃ m q, a = .finish f m q := by
  cases a with
  | run g m q =>
      rw [handles_run, Bool.and_eq_true, decide_eq_true_iff, Bool.not_eq_true'] at h
      obtain ⟨rfl, hq⟩ := h
      exact .inl ⟨m, q, rfl, hq⟩
  | finish g m q =>
      have hgf : g = f := by
        cases q <;> simpa [handles] using h
      subst hgf
      exact .inr ⟨m, q, rfl⟩
  | _ => cases h

theorem quiet_of_handles (h : handles true f (quiet a) = true) :
    quiet a = a ∧ handles true f a = true := by
  rw [handles_quiet] at h
  refine ⟨?_, h⟩
  obtain ⟨m, q, rfl, _⟩ | ⟨m, q, rfl⟩ := eq_of_handles h <;> rfl

/-- A turn changes the state of a flow only by moving it forward. -/
theorem Moves.state (h : Moves w answer a w₁ turn) (f : FlowId) : w₁.stateOf f = w.stateOf f ∨
    ∃ target, a = .advance f target .swap ∧ (w.stateOf f).rank < target.rank ∧
      w₁.stateOf f = target ∧ turn = .next (.advance f target (.emit (w.stateOf f))) := by
  have heffect := h.effect f
  generalize hafter : w₁.control f = after at heffect
  cases heffect with
  | none => exact .inl (by rw [stateOf_eq, stateOf_eq w, hafter])
  | swap hbefore hrank hturn =>
      refine .inr ⟨_, rfl, ?_, stateOf_of_control hafter, ?_⟩
      · rw [stateOf_of_control hbefore]
        exact hrank
      · rw [stateOf_of_control hbefore]
        exact hturn
  | _ hbefore => exact .inl (by rw [stateOf_of_control hbefore, stateOf_of_control hafter])

theorem visited_cons {s : FlowState} :
    Visited f s (⟨w, t, a⟩ :: trace) (w₁.turn t turn) ↔
      w₁.stateOf f = s ∨ Visited f s trace w := by
  rw [Visited, Visited]
  refine or_congr Iff.rfl ?_
  simp

theorem parked_of_stop {q : StopPoint} {q' : FinishPoint} {r : World × Turn}
    (h : w.stop f answer q = some r) (hb : .finish f m q' ∈ r.2.frames) :
    w.parked? f = some m := by
  cases q with
  | begin =>
      cases h
      simp [Turn.frames] at hb
  | advanced =>
      cases h
      cases hyes : MonitorBody.yes answer <;> simp [hyes, Turn.frames, Turn.done] at hb
  | interrupted =>
      obtain ⟨cell, hcell, rfl⟩ := Option.map_eq_some_iff.mp h
      rw [parked?, hcell]
      split at hb
      · next hparked =>
        obtain hsame | hb := List.mem_cons.mp hb
        · cases hsame
          exact hparked
        · cases List.mem_singleton.mp hb
      · cases hb
  | finished =>
      cases h
      cases hb

theorem parked_of_run {q' : FinishPoint} {r : World × Turn}
    (h : w.run t f m₁ answer q = some r) (hq : q.gone = true)
    (hb : .finish f m q' ∈ r.2.frames) : w.parked? f = some m := by
  cases q with
  | parked d =>
      simp only [World.run, Option.some.injEq] at h
      subst h
      split at hb
      · cases List.mem_singleton.mp hb
      · cases hb
  | retake d =>
      obtain ⟨cell, hcell, rfl⟩ := Option.map_eq_some_iff.mp h
      rw [parked?, hcell]
      split at hb
      · next hparked =>
        obtain hsame | hb := List.mem_cons.mp hb
        · cases hsame
          exact hparked
        · cases List.mem_singleton.mp hb
      · cases hb
  | finished d =>
      cases h
      cases hb
  | _ => cases hq

/-- The monitor that is taken from a flow by an activity that has not had it was parked there. -/
theorem parked_of_handles (htakes : Takes w t a rest w₁ turn) (ha : handles true f a = false)
    {c : Activity} (hc : c ∈ turn.frames) (hhandles : handles true f c = true) :
    ∃ m, w.parked? f = some m ∧ (c = .run f m .lock ∨ c = .finish f m .monitor) := by
  have hstep := htakes.step_of_mem hc
  have hgone {m₀ : Monitor} {q₀ : RunPoint} (ha : handles true f (.run f m₀ q₀) = false) :
      q₀.gone = true := by
    rwa [handles_run, decide_eq_true rfl, Bool.true_and, Bool.not_eq_false'] at ha
  obtain ⟨m, q, rfl, hq⟩ | ⟨m, q, rfl⟩ := eq_of_handles hhandles
  · obtain hgoes | ⟨back, _, hasks, _⟩ := htakes.stacks.of_mem hc
    · cases hgoes with
      | run =>
          rw [gone_of_run hstep hc (hgone ha)] at hq
          cases hq
      | launch => exact ⟨m, parked_of_launch hstep hc, .inl rfl⟩
    · cases hasks with
      | chain hr | sink hr => cases hr
  · obtain hgoes | ⟨back, _, hasks, hgoes⟩ := htakes.stacks.of_mem hc
    · cases hgoes with
      | @finish _ m₀ _ q₀ _ => cases q₀ <;> simp [handles] at ha
    · cases hasks with
      | chain hr | sink hr => cases hr
      | stopFinish =>
          cases hgoes
          exact ⟨m, parked_of_stop hstep hc, .inr rfl⟩
      | runFinish =>
          cases hgoes
          exact ⟨m, parked_of_run hstep (hgone ha) hc, .inr rfl⟩

theorem parkedOf_iff (w : World) (f : FlowId) :
    w.parkedOf f = true ↔ ∃ m, w.parked? f = some m := by
  rw [parkedOf, parked?]
  cases w.flow? f with
  | none => simp
  | some cell => exact Option.isSome_iff_exists

/-- Starting and stopping them apart, a step leaves the components of a flow, or it sets them up. -/
theorem Acts.marks_eased (h : Acts w t answer a w₁) (hstart : ∀ m, a ≠ .run f m .start)
    (hstop : ∀ m, a ≠ .finish f m .components) : Eased (w.marksOf f) (w₁.marksOf f) := by
  obtain ⟨hpipeline, _⟩ | ⟨cell, p, parked, hcell, hworks, hpipeline, _⟩ := h.parts f
  · rw [marksOf, marksOf, leavesOf, leavesOf, hpipeline]
    exact .refl _
  · rw [marksOf_of_pipeline? hpipeline, marksOf_of_pipeline? (by rw [pipeline?, hcell]; rfl)]
    obtain ⟨m, rfl, _⟩ | ⟨m, rfl, _⟩ | heased := hworks.eased
    · exact absurd rfl (hstart m)
    · exact absurd rfl (hstop m)
    · exact heased

/-- A monitor that is parked after a step was put there by its run, or was there before. -/
theorem Acts.parked_eased (h : Acts w t answer a w₁) (hm : w₁.parked? f = some m₁) :
    (∃ d, a = .run f m₁ (.park d)) ∨ ∃ m, w.parked? f = some m ∧
      Eased [(.monitor, m.stage)] [(.monitor, m₁.stage)] := by
  obtain ⟨_, hparked⟩ | ⟨cell, p, parked, hcell, hworks, _, hparked⟩ := h.parts f
  · exact .inr ⟨m₁, hparked ▸ hm, .refl _⟩
  · obtain hpark | ⟨m, hbefore, heased⟩ := hworks.parked (hparked ▸ hm)
    · exact .inl hpark
    · exact .inr ⟨m, by rw [parked?, hcell]; exact hbefore, heased⟩

/-- The places of the components of a flow stay. -/
theorem Acts.places (h : Acts w t answer a w₁) :
    (w₁.marksOf f).map Prod.fst = (w.marksOf f).map Prod.fst := by
  obtain ⟨hpipeline, _⟩ | ⟨cell, p, parked, hcell, hworks, hpipeline, _⟩ := h.parts f
  · rw [marksOf, marksOf, leavesOf, leavesOf, hpipeline]
  · rw [marksOf_of_pipeline? hpipeline, marksOf_of_pipeline? (by rw [pipeline?, hcell]; rfl)]
    obtain ⟨m, _, rfl⟩ | ⟨m, _, rfl⟩ | heased := hworks.eased
    · rw [Pipeline.marks, (Pipeline.start_starting _).marks, started_places, Pipeline.marks,
        List.map_map]
      rfl
    · rw [Pipeline.marks, (Pipeline.stop_stopping _).marks, Pipeline.marks, List.map_map,
        List.map_map]
      rfl
    · exact heased.places

theorem Acts.flow (h : Acts w t answer a w₁) (hp : ∃ p, w.pipeline? f = some p) :
    ∃ p, w₁.pipeline? f = some p := by
  obtain ⟨hpipeline, _⟩ | ⟨_, p, _, _, _, hpipeline, _⟩ := h.parts f
  · rw [hpipeline]
    exact hp
  · exact ⟨p, hpipeline⟩

/-- The start of the components, as the next state of a flow shows it. -/
theorem Acts.pipeline_start (h : Acts w t answer (.run f m .start) w₁)
    (hp : w.pipeline? f = some p) : w₁.pipeline? f = some p.start.body := by
  cases h with
  | leaves hworks _ => cases hworks
  | @works _ cell _ _ _ _ hcell hworks hleaves =>
      cases hworks
      rw [pipeline?, hcell] at hp
      cases hp
      rw [hleaves.pipeline, pipeline?_setParts hcell, if_pos rfl]
  | absent _ hcases =>
      obtain ⟨_, _, _, hsame⟩ | ⟨_, _, hsame⟩ := hcases <;> cases hsame

theorem not_granted_summons (h : Takes w t (.run f m .advance) rest w₁ turn) :
    ¬ granted f (w₁.turn t turn) t := by
  obtain hstep | ⟨_, _, hhost, _⟩ := h.does
  · cases hstep
    have htasks := h.goes.tasks_self
    rintro (⟨before, below, htop⟩ | ⟨⟨m', below, htop⟩, _⟩) <;> rw [htasks] at htop <;> cases htop
  · cases hhost

theorem granted_advanced (h : w.tasks t = .run f m .advanced :: rest) :
    granted f w t ↔ MonitorBody.yes (w.answerOf t) = true := by
  refine ⟨?_, fun hyes => .inr ⟨⟨m, rest, h⟩, hyes⟩⟩
  rintro (⟨before, below, htop⟩ | ⟨_, hyes⟩)
  · rw [h] at htop
    cases htop
  · exact hyes

/-- What a turn makes of the phase of a flow, when it is the turn of who has its monitor. -/
theorem Brackets.phase (h : Brackets n f trace w) (hprepared : Prepared f w)
    (htakes : Takes w t a rest w₁ turn) (hmem : a ∈ w.tasks t) (ha : handles true f a = true)
    {c : Activity} (hc : c ∈ turn.frames) (hhandles : handles true f c = true) :
    Phase n (Visited f .started trace w) (granted f (w₁.turn t turn) t)
      (hookLog f trace ++ Taken.hooks f ⟨w, t, a⟩) (w₁.marksOf f) c := by
  have hphase := h.frames t a hmem ha
  obtain ⟨p, hp⟩ := h.flow
  have hmarks : w.marksOf f = p.marks := marksOf_of_pipeline? hp
  have hstep := htakes.step_of_mem hc
  obtain ⟨m, q, rfl, hgone⟩ | ⟨m, q, rfl⟩ := eq_of_handles ha
  · have hready := hprepared.past t _ hmem (by simp [Activity.past])
    have hcomponents : ∀ x ∈ w.marksOf f, x.2.ready = true := by
      rw [hmarks]
      exact hready.components p hp
    by_cases hq : q = .start
    · subst hq
      rw [marksOf_of_pipeline? (htakes.acts.pipeline_start hp)]
      have hstep : w.run t f m (w.answerOf t) .start = some (w₁, turn) := hstep
      exact phase_start hphase hp hmarks.symm h.places hstep hc
    · have heased := htakes.acts.marks_eased (f := f) (fun m' hsame => hq (by cases hsame; rfl))
        (fun _ => Activity.noConfusion)
      rw [heased.eq_of_ready hcomponents]
      refine phase_run hphase h.places hq hgone ?_ ?_ ?_ hstep hc hhandles
      · exact List.forall_mem_append.mpr ⟨hcomponents,
          List.forall_mem_singleton.mpr (hprepared.runs t m q hmem hgone)⟩
      · rintro rfl
        exact granted_advanced htakes.goes.tasks
      · rintro rfl
        exact not_granted_summons htakes
  · by_cases hq : q = .components
    · refine phase_finish hphase hp hmarks.symm h.places hstep hc hhandles _ ?_
      intro hne
      exact absurd hq hne
    · have heased := htakes.acts.marks_eased (f := f) (fun _ => Activity.noConfusion)
        (fun m' hsame => hq (by cases hsame; rfl))
      have hnext : Phase n (Visited f .started trace w) (granted f (w₁.turn t turn) t)
          (hookLog f trace ++ Taken.hooks f ⟨w, t, .finish f m q⟩) (w.marksOf f) c :=
        phase_finish hphase hp hmarks.symm h.places hstep hc hhandles _ fun _ => rfl
      exact hnext.eased heased fun _ _ _ => Iff.rfl

namespace Brackets

/-- A turn of who has the monitor of a flow. -/
theorem handled (h : Brackets n f trace w) (hkept : Kept f trace w) (hprepared : Prepared f w)
    (htakes : Takes w t a rest w₁ turn) (ha : handles true f a = true) :
    Brackets n f (⟨w, t, a⟩ :: trace) (w₁.turn t turn) := by
  have hquiet : quiet a = a := (quiet_of_handles (by rw [handles_quiet]; exact ha)).1
  have hmem : a ∈ w.tasks t := hquiet ▸ htakes.top
  obtain ⟨hcount, hothers, hunused⟩ := hkept.alone true hmem ha
  have hrest : ∀ b ∈ rest, handles true f b = false := by
    rw [htakes.goes.tasks, hquiet, List.countP_cons_of_pos ha, Nat.add_eq_right] at hcount
    exact fun b hb => Bool.eq_false_iff.mpr (List.countP_eq_zero.mp hcount b hb)
  have hunparked (m : Monitor) : w.parked? f ≠ some m := by
    intro hm
    have hparked := (parkedOf_iff w f).mpr ⟨m, hm⟩
    rw [hkept.parkedOf_eq_false true hmem ha] at hparked
    cases hparked
  have hstate : w₁.stateOf f = w.stateOf f := by
    obtain hsame | ⟨target, rfl, _⟩ := htakes.goes.moves.state f
    · exact hsame
    · cases ha
  have hbegan : Visited f .started (⟨w, t, a⟩ :: trace) (w₁.turn t turn) ↔
      Visited f .started trace w := by
    rw [visited_cons, hstate]
    exact or_iff_right_of_imp .inl
  have honly {u : ThreadId} {b : Activity} (hb : b ∈ w.tasks u)
      (hhandles : handles true f b = true) : b = a := by
    by_cases hu : u = t
    · subst hu
      rw [htakes.goes.tasks, hquiet] at hb
      obtain rfl | hb := List.mem_cons.mp hb
      · rfl
      · rw [hrest b hb] at hhandles
        cases hhandles
    · rw [hothers u hu b hb] at hhandles
      cases hhandles
  refine ⟨htakes.acts.flow h.flow, htakes.acts.places.trans h.places, ?_, ?_, ?_, ?_, ?_⟩
  · intro m' hm'
    obtain ⟨d, rfl⟩ | ⟨m, hm, _⟩ := htakes.acts.parked_eased hm'
    · have heased := htakes.acts.marks_eased (f := f) (fun _ => by simp)
        (fun _ => Activity.noConfusion)
      have hphase := h.frames t _ hmem ha
      rw [hookLog_cons, hooks_run (by simp) (by simp), List.append_nil, hbegan]
      exact Standing.eased (.inr hphase) (List.rel_append heased (Eased.refl _))
    · exact absurd hm (hunparked m)
  · intro u b hb hhandles
    rw [hookLog_cons, hbegan]
    by_cases hu : u = t
    · subst hu
      obtain hb | ⟨c, hc, rfl⟩ := htakes.mem_self hb
      · rw [hrest b hb] at hhandles
        cases hhandles
      · obtain ⟨hsame, hhandles⟩ := quiet_of_handles hhandles
        rw [hsame]
        exact h.phase hprepared htakes hmem ha hc hhandles
    · obtain hb | ⟨g, m, rfl, _⟩ := htakes.mem_other hu hb
      · rw [hothers u hu b hb] at hhandles
        cases hhandles
      · cases ha
  · intro taken htaken huses
    obtain rfl | htaken := List.mem_cons.mp htaken
    · have hphase := h.frames t a hmem ha
      dsimp only at huses
      unfold usesUp at huses
      split at huses
      · simp at huses
      · next g m =>
        obtain rfl : g = f := by simpa using huses
        rw [hookLog_cons, hbegan]
        exact (List.append_nil (hookLog g trace)).symm ▸ hphase
      · cases huses
    · rw [hunused taken htaken] at huses
      cases huses
  · rw [hbegan]
    exact hstate ▸ h.rank
  · intro hended
    obtain ⟨u, b, hb, hcloses⟩ | ⟨taken, htaken, huses⟩ := h.ended (hstate ▸ hended)
    · obtain rfl := honly hb (handles_of_closes hcloses)
      refine .inr ⟨_, List.mem_cons_self, ?_⟩
      unfold closes at hcloses
      split at hcloses
      · simpa [usesUp] using hcloses
      · cases hcloses
    · rw [hunused taken htaken] at huses
      cases huses

/-- A run waits for its start with the same prospect, unless the flow is moved there. -/
theorem granted_keep (hstacked : Stacked (w.tasks t)) (htakes : Takes w t a rest w₁ turn)
    (ha : handles true f a = false) (hstate : w₁.stateOf f = .started → w.stateOf f = .started)
    {u : ThreadId} {m : Monitor} (hmem : .run f m .advanced ∈ w.tasks u) :
    granted f (w₁.turn t turn) u ↔ granted f w u := by
  by_cases hu : u = t
  · subst hu
    have htasks := htakes.goes.tasks
    rw [htasks] at hmem hstacked
    obtain hsame | hmem := List.mem_cons.mp hmem
    · have hhandles : handles true f (quiet a) = true := by
        rw [← hsame]
        simp [handles, RunPoint.gone]
      rw [handles_quiet, ha] at hhandles
      cases hhandles
    · obtain ⟨⟨p, hp⟩, below, rfl⟩ := hstacked.summons hmem
      obtain rfl := eq_of_quiet hp rfl
      have hself := htakes.goes.tasks_self
      have hanswer := htakes.goes.answerOf_self
      have hmoves := htakes.goes.moves
      generalize w.answerOf u = answer at hmoves
      cases hmoves with
      | plain hplain => cases hplain
      | @swap _ _ cell hcell hrank =>
          have hbefore : w.stateOf f = cell.state := by rw [stateOf, hcell]
          have hafter := hstate (by simp [stateOf, flow?_modifyFlow, hcell])
          rw [← hbefore, hafter] at hrank
          exact absurd hrank (Nat.lt_irrefl _)
      | behind hcell hrank =>
          refine iff_of_false ?_ ?_
          · rw [granted_advanced hself, hanswer]
            exact Bool.false_ne_true
          · rintro (⟨before, below, htop⟩ | ⟨⟨m', below, htop⟩, _⟩) <;> rw [htasks] at htop <;>
              cases htop
      | announce =>
          refine iff_of_true ?_ (.inl ⟨_, _, htasks⟩)
          rw [granted_advanced hself, hanswer]
          rfl
  · have hsame := htakes.goes.tasks_of_busy hu (List.ne_nil_of_mem hmem)
    rw [granted, granted, hsame, htakes.goes.answerOf_of_ne hu]

/-- What a turn of another activity leaves of how far the flow has come, when it does not move the
flow to its start. -/
theorem kept (h : Brackets n f trace w) (hstacked : Stacked (w.tasks t))
    (htakes : Takes w t a rest w₁ turn) (ha : handles true f a = false)
    (hstate : w₁.stateOf f = .started → w.stateOf f = .started) :
    Brackets n f (⟨w, t, a⟩ :: trace) (w₁.turn t turn) := by
  have hbegan : Visited f .started (⟨w, t, a⟩ :: trace) (w₁.turn t turn) ↔
      Visited f .started trace w :=
    visited_cons.trans (or_iff_right_of_imp fun hstarted => .inl (hstate hstarted))
  have heased := htakes.acts.marks_eased (f := f)
    (by rintro m rfl; simp [handles, RunPoint.gone] at ha)
    (by rintro m rfl; simp [handles] at ha)
  have hlog : hookLog f (⟨w, t, a⟩ :: trace) = hookLog f trace := by
    rw [hookLog_cons, hooks_of_not_handles ha, List.append_nil]
  have hstanding {m m' : Monitor} (hm : w.parked? f = some m)
      (hmonitor : Eased [(Place.monitor, m.stage)] [(Place.monitor, m'.stage)]) :
      Standing n (Visited f .started trace w) (hookLog f trace)
        (w₁.marksOf f ++ [(.monitor, m'.stage)]) :=
    (h.parked m hm).eased (List.rel_append heased hmonitor)
  have hframes {u : ThreadId} {b : Activity} (hb : b ∈ w.tasks u)
      (hhandles : handles true f b = true) :
      Phase n (Visited f .started trace w) (granted f (w₁.turn t turn) u) (hookLog f trace)
        (w₁.marksOf f) b := by
    refine (h.frames u b hb hhandles).eased heased ?_
    rintro g m rfl
    obtain rfl : g = f := by simpa [handles, RunPoint.gone] using hhandles
    exact granted_keep hstacked htakes ha hstate hb
  refine ⟨htakes.acts.flow h.flow, htakes.acts.places.trans h.places, ?_, ?_, ?_, ?_, ?_⟩
  · intro m' hm'
    rw [hlog, hbegan]
    obtain ⟨d, rfl⟩ | ⟨m, hm, hmonitor⟩ := htakes.acts.parked_eased hm'
    · simp [handles, RunPoint.gone] at ha
    · exact hstanding hm hmonitor
  · intro u b hb hhandles
    rw [hlog, hbegan]
    obtain hb | ⟨rfl, c, hc, rfl⟩ | ⟨g, m, rfl, rfl, hm⟩ := htakes.mem hb
    · exact hframes hb hhandles
    · obtain ⟨hsame, hhandles⟩ := quiet_of_handles hhandles
      rw [hsame]
      obtain ⟨m, hm, rfl | rfl⟩ := parked_of_handles htakes ha hc hhandles
      · exact hstanding hm (.refl _)
      · exact hstanding hm (.refl _)
    · obtain rfl : g = f := by simpa [handles, RunPoint.gone] using hhandles
      exact hstanding hm (.refl _)
  · intro taken htaken huses
    obtain rfl | htaken := List.mem_cons.mp htaken
    · rw [handles_of_usesUp huses] at ha
      cases ha
    · rw [hlog, hbegan]
      exact h.used taken htaken huses
  · rw [hbegan]
    exact fun hvisited => Nat.le_trans (h.rank hvisited) (htakes.goes.moves.rank_le f)
  · intro hended
    have hstays {u : ThreadId} {b : Activity} (hb : b ∈ w.tasks u) (hcloses : closes f b = true) :
        b ∈ (w₁.turn t turn).tasks u := by
      by_cases hu : u = t
      · subst hu
        rw [htakes.goes.tasks] at hb
        obtain rfl | hb := List.mem_cons.mp hb
        · have hhandles := handles_of_closes hcloses
          rw [handles_quiet, ha] at hhandles
          cases hhandles
        · rw [htakes.goes.tasks_self]
          exact List.mem_append_right _ hb
      · rw [htakes.goes.tasks_of_busy hu (List.ne_nil_of_mem hb)]
        exact hb
    obtain hsame | ⟨target, rfl, _, htarget, _⟩ := htakes.goes.moves.state f
    · obtain ⟨u, b, hb, hcloses⟩ | ⟨taken, htaken, huses⟩ := h.ended (hsame ▸ hended)
      · exact .inl ⟨u, b, hstays hb hcloses, hcloses⟩
      · exact .inr ⟨taken, List.mem_cons_of_mem _ htaken, huses⟩
    · obtain rfl : target = .ended := htarget.symm.trans hended
      have htasks := htakes.goes.tasks
      obtain ⟨back, below, rfl, hmover⟩ := (htasks ▸ hstacked).advance
      cases hmover with
      | @finish m =>
          have hback : .finish f m .announced ∈ w.tasks t := by
            rw [htasks]
            exact List.mem_cons_of_mem _ List.mem_cons_self
          have hcloses : closes f (.finish f m .announced) = true := decide_eq_true rfl
          exact .inl ⟨t, _, hstays hback hcloses, hcloses⟩

/-- A flow is moved to its start while the monitor waits for that. -/
theorem moved (h : Brackets n f trace w) (hkept : Kept f trace w)
    (hstacked : Stacked (w.tasks t)) (htakes : Takes w t (.advance f .started .swap) rest w₁ turn)
    (hrank : (w.stateOf f).rank < FlowState.started.rank) (hstate : w₁.stateOf f = .started)
    (hturn : turn = .next (.advance f .started (.emit (w.stateOf f)))) :
    Brackets n f (⟨w, t, .advance f .started .swap⟩ :: trace) (w₁.turn t turn) := by
  have htasks := htakes.goes.tasks
  obtain ⟨back, below, rfl, hmover⟩ := (htasks ▸ hstacked).advance
  cases hmover with
  | @start m =>
  have hmem : .run f m .advanced ∈ w.tasks t := by
    rw [htasks]
    exact List.mem_cons_of_mem _ List.mem_cons_self
  have hhandles : handles true f (.run f m .advanced) = true := by
    simp [handles, RunPoint.gone]
  obtain ⟨hcount, hothers, hunused⟩ := hkept.alone true hmem hhandles
  have hnot : ¬ Visited f .started trace w := fun hvisited =>
    absurd (h.rank hvisited) (Nat.not_le.mpr hrank)
  have hbegan : Visited f .started (⟨w, t, .advance f .started .swap⟩ :: trace)
      (w₁.turn t turn) := (visited_cons (a := .advance f .started .swap)).mpr (.inl hstate)
  have hlog : hookLog f (⟨w, t, .advance f .started .swap⟩ :: trace) = hookLog f trace := by
    rw [hookLog_cons, hooks_of_not_handles rfl, List.append_nil]
  have hungranted : ¬ granted f w t := by
    rintro (⟨before, below, htop⟩ | ⟨⟨m', below, htop⟩, _⟩) <;> rw [htasks] at htop <;> cases htop
  have heased := htakes.acts.marks_eased (f := f) (fun _ => Activity.noConfusion)
    (fun _ => Activity.noConfusion)
  -- the start was not granted before, so the monitor is that of a flow that was not started
  have hcold : Cold (hookLog f trace) (w₁.marksOf f ++ [(.monitor, m.stage)]) := by
    obtain ⟨_, hcold⟩ | ⟨hvisited, _⟩ := (h.frames t _ hmem hhandles).2 hungranted
    · exact hcold.eased (List.rel_append heased (Eased.refl _))
    · exact absurd hvisited hnot
  have hneg : ¬ handles true f (quiet (.advance f .started .swap)) = true := Bool.false_ne_true
  have hbelow : ∀ b ∈ below, handles true f b = false := by
    rw [htasks, List.countP_cons_of_neg hneg,
      List.countP_cons_of_pos hhandles, Nat.add_eq_right] at hcount
    exact fun b hb => Bool.eq_false_iff.mpr (List.countP_eq_zero.mp hcount b hb)
  refine ⟨htakes.acts.flow h.flow, htakes.acts.places.trans h.places, ?_, ?_, ?_, ?_, ?_⟩
  · intro m' hm'
    obtain ⟨d, hsame⟩ | ⟨m, hm, _⟩ := htakes.acts.parked_eased hm'
    · cases hsame
    · have hparked := (parkedOf_iff w f).mpr ⟨m, hm⟩
      rw [hkept.parkedOf_eq_false true hmem hhandles] at hparked
      cases hparked
  · intro u b hb hb'
    rw [hlog]
    by_cases hu : u = t
    · subst hu
      have hself := htakes.goes.tasks_self
      rw [hturn] at hself hb
      rw [hself] at hb
      obtain rfl | hb := List.mem_cons.mp hb
      · cases hb'
      · obtain rfl | hb := List.mem_cons.mp hb
        · refine ⟨fun _ => ⟨hbegan, hcold⟩, fun hnot => absurd ?_ hnot⟩
          rw [hturn]
          exact .inl ⟨_, _, hself⟩
        · rw [hbelow b hb] at hb'
          cases hb'
    · obtain hb | ⟨_, _, hsame, _⟩ := htakes.mem_other hu hb
      · rw [hothers u hu b hb] at hb'
        cases hb'
      · cases hsame
  · intro taken htaken huses
    obtain rfl | htaken := List.mem_cons.mp htaken
    · cases huses
    · rw [hunused taken htaken] at huses
      cases huses
  · intro _
    exact Nat.le_of_eq (congrArg FlowState.rank hstate.symm)
  · intro hended
    cases hstate.symm.trans hended

theorem takes (h : Brackets n f trace w) (hkept : Kept f trace w) (hprepared : Prepared f w)
    (hstacked : Stacked (w.tasks t)) (htakes : Takes w t a rest w₁ turn) :
    Brackets n f (⟨w, t, a⟩ :: trace) (w₁.turn t turn) := by
  cases ha : handles true f a with
  | true => exact h.handled hkept hprepared htakes ha
  | false =>
      obtain hsame | ⟨target, rfl, hrank, hstate, hturn⟩ := htakes.goes.moves.state f
      · exact h.kept hstacked htakes ha fun hstarted => hsame ▸ hstarted
      · by_cases htarget : target = .started
        · subst htarget
          exact h.moved hkept hstacked htakes hrank hstate hturn
        · exact h.kept hstacked htakes ha fun hstarted =>
            absurd (hstate.symm.trans hstarted) htarget

end Brackets

/-- A flow that was not set up and that nobody starts or stops yet. -/
theorem Brackets.init (hcell : w.flow? f = some cell) (hstate : cell.state = .init)
    (hparked : cell.parked = some m)
    (hbegun : ∀ x ∈ cell.pipeline.marks ++ [(.monitor, m.stage)], x.2.begun = false)
    (hfree : ∀ u, ∀ b ∈ w.tasks u, handles true f b = false) :
    Brackets cell.pipeline.chain.operators.length f [] w := by
  have hp : w.pipeline? f = some cell.pipeline := by rw [pipeline?, hcell]; rfl
  have hmarks : w.marksOf f = cell.pipeline.marks := marksOf_of_pipeline? hp
  have hinit : w.stateOf f = .init := by rw [stateOf, hcell]; exact hstate
  have hnot : ¬ Visited f .started [] w := by
    rintro (hstarted | ⟨taken, htaken, _⟩)
    · cases hinit.symm.trans hstarted
    · cases htaken
  refine ⟨⟨_, hp⟩, hmarks ▸ Pipeline.marks_places _, ?_, ?_, ?_,
    fun hvisited => absurd hvisited hnot, ?_⟩
  · intro m' hm'
    rw [parked?, hcell, Option.bind_some, hparked] at hm'
    cases hm'
    exact .inl ⟨hnot, rfl, hmarks ▸ hbegun⟩
  · intro u b hb hhandles
    rw [hfree u b hb] at hhandles
    cases hhandles
  · intro taken htaken
    cases htaken
  · intro hended
    cases hinit.symm.trans hended

theorem Brackets.tick (h : Brackets n f trace w) (nanos : Nat) :
    Brackets n f trace (w.tick nanos) :=
  ⟨h.flow, h.places, h.parked, h.frames, h.used, h.rank, h.ended⟩

theorem Run.brackets (h : Run start trace w) (hstacked : ∀ u, Stacked (start.tasks u))
    (hkept : Kept f [] start) (hprepared : Prepared f start) (hstart : Brackets n f [] start) :
    Brackets n f trace w := by
  have hall : (∀ u, Stacked (w.tasks u)) ∧ Kept f trace w ∧ Prepared f w ∧ Brackets n f trace w :=
    h.every (P := fun trace w => (∀ u, Stacked (w.tasks u)) ∧ Kept f trace w ∧ Prepared f w ∧
        Brackets n f trace w) ⟨hstacked, hkept, hprepared, hstart⟩
      (fun _ _ nanos hw =>
        ⟨hw.1, hw.2.1.calm (calm_tick nanos), hw.2.2.1.tick nanos, hw.2.2.2.tick nanos⟩)
      fun _ _ t _ _ _ _ htakes hw => ⟨htakes.stacked hw.1, hw.2.1.goes htakes.goes,
        hw.2.2.1.takes hw.1 htakes, hw.2.2.2.takes hw.2.1 hw.2.2.1 (hw.1 t) htakes⟩
  exact hall.2.2.2

/-- A flow that has ended was started and stopped as far as it says. -/
theorem Brackets.over (h : Brackets n f trace w) (hended : w.stateOf f = .ended) :
    ∃ starts stops, hookLog f trace = starts ++ stops ∧
      Bracketed n (∃ taken ∈ trace, taken.before.stateOf f = .started) starts stops := by
  have hvisited : Visited f .started trace w ↔
      ∃ taken ∈ trace, taken.before.stateOf f = .started := by
    refine or_iff_right fun hstarted => ?_
    cases hended.symm.trans hstarted
  rw [← hvisited]
  obtain ⟨t, b, hb, hcloses⟩ | ⟨taken, htaken, huses⟩ := h.ended hended
  · have hphase := h.frames t b hb (handles_of_closes hcloses)
    unfold closes at hcloses
    split at hcloses
    · exact hphase
    · cases hcloses
  · exact h.used taken htaken huses

theorem handles_of_begins {late : Bool} (h : a.begins = true) : handles late f a = false := by
  unfold handles
  split <;> first | rfl | cases h

theorem kept_opened {first : Activity} {calls : List Activity} (hparked : start.parked? f = some m)
    (hcalls : ∀ a ∈ first :: calls, a.begins = true) : Kept f [] (start.opened first calls) := by
  obtain ⟨cell, hcell, hslot⟩ := Option.bind_eq_some_iff.mp hparked
  refine ⟨⟨cell, hcell⟩, fun late => ?_⟩
  have hheld : held late f (start.opened first calls) = 0 := by
    refine held_eq_zero fun t a ha => ?_
    obtain ⟨b, hb, rfl⟩ := begins_opened start hcalls t a ha
    rw [handles_quiet]
    exact handles_of_begins hb
  have hslot : (start.opened first calls).parkedOf f = true :=
    (parkedOf_iff _ f).mpr ⟨m, hparked⟩
  rw [hheld, hslot]
  rfl

/-- A turn that calls hooks notes in the journal what they note, and nothing else. -/
theorem Run.noted (h : Run start trace w) {taken : Taken} (htaken : taken ∈ trace)
    (hhooks : taken.hooks f ≠ []) : ∃ after, taken.before.step taken.thread = some after ∧
      after.journal = taken.before.journal ++ (taken.hooks f).flatMap (·.notes) := by
  induction h with
  | refl => cases htaken
  | @step _ w w' t a _ hdoing hstep ih =>
      obtain rfl | htaken := List.mem_cons.mp htaken
      · obtain ⟨th, b, rest, w₁, turn, hth, hstack, hturn, rfl⟩ := step_eq_some hstep
        rw [doing?, stackOf_of_get hth, hstack] at hdoing
        cases hdoing
        have hnoted := journal_of_hooks hturn hhooks
        exact ⟨_, hstep, hnoted⟩
      · exact ih htaken
  | host _ _ ih =>
      obtain rfl | htaken := List.mem_cons.mp htaken
      · exact absurd rfl hhooks
      · exact ih htaken
  | tick _ ih => exact ih htaken

/-- Once a flow has ended, the hooks that were called for its components are those of one start and
one stop. The start went through source, operators, sink and monitor up to the first failure; the
stop went through monitor, source, operators and sink and called each of those once whose start had
succeeded, and no other. A flow that was not started had no hook called. Every turn that called
hooks has left their notes. -/
theorem hooks_bracketed {first : Activity} {calls : List Activity}
    (hcell : start.flow? f = some cell) (hstate : cell.state = .init)
    (hparked : cell.parked = some m)
    (hbegun : ∀ x ∈ cell.pipeline.marks ++ [(.monitor, m.stage)], x.2.begun = false)
    (hcalls : ∀ a ∈ first :: calls, a.begins = true)
    (hrun : Run (start.opened first calls) trace w) (hended : w.stateOf f = .ended) :
    (∃ starts stops, hookLog f trace = starts ++ stops ∧
      Bracketed cell.pipeline.chain.operators.length
        (∃ taken ∈ trace, taken.before.stateOf f = .started) starts stops) ∧
    ∀ taken ∈ trace, taken.hooks f ≠ [] → ∃ after, taken.before.step taken.thread = some after ∧
      after.journal = taken.before.journal ++ (taken.hooks f).flatMap (·.notes) := by
  have hbegins := begins_opened start hcalls
  have hslot : start.parked? f = some m := by rw [parked?, hcell]; exact hparked
  have hinit : (start.opened first calls).stateOf f = .init := by
    rw [stateOf, show (start.opened first calls).flow? f = some cell from hcell]
    exact hstate
  have hbrackets := hrun.brackets (stacked_opened start hcalls) (kept_opened hslot hcalls)
    (Prepared.init hinit hbegins) (Brackets.init hcell hstate hparked hbegun fun u b hb => by
      obtain ⟨a, ha, rfl⟩ := hbegins u b hb
      rw [handles_quiet]
      exact handles_of_begins ha)
  exact ⟨hbrackets.over hended, fun taken htaken => hrun.noted htaken⟩

/-- A recorder that was not told its tag yet. -/
def blank : Recorder := ⟨"", "", ""⟩

/-- A flow that notes what its components do. The start of its sink fails. -/
def flawedMade : Except Error World :=
  ofDrafts (fun _ => "")
    [⟨some "f", some (.make "source" (.recorder blank) ⟨[], [("tag", .literal (.text "a"))]⟩),
      [.make "tee" (.tee (.make "sink" (.recorder blank) ⟨[], [("tag", .literal (.text "b"))]⟩))
        .none],
      some (.make "sink" (.recorder blank)
        ⟨[], [("tag", .literal (.text "c")), ("fail", .literal (.text "start"))]⟩),
      some (.make "monitor" (.recorder blank) ⟨[], [("tag", .literal (.text "m"))]⟩)⟩]
    Scope.Store.empty.addRoot.1 0

def flawed : World := flawedMade.toOption.getD empty

/-- The flow is set up and started, and its thread runs it to the end. -/
def flawedTurns : List ThreadId := List.replicate 48 0 ++ List.replicate 28 1

def flawedTrace : List Taken := ((flawed.opened (.runAll .begin) []).replay [] flawedTurns).1

def flawedOver : World := ((flawed.opened (.runAll .begin) []).replay [] flawedTurns).2

/-- Source and tee of the flow are started before its sink, and they alone are stopped. -/
theorem flawed_bracketed :
    ((hookLog 0 flawedTrace).map fun c => (c.place, c.hook, c.result.isOk)) =
      [(.source, .start, true), (.operator 0, .start, true), (.sink, .start, false),
        (.source, .stop, true), (.operator 0, .stop, true)] ∧
    flawedOver.stateOf 0 = .ended ∧
    (∃ starts stops, hookLog 0 flawedTrace = starts ++ stops ∧
      Bracketed 1 (∃ taken ∈ flawedTrace, taken.before.stateOf 0 = .started) starts stops) := by
  have hended : flawedOver.stateOf 0 = .ended := by decide +kernel
  obtain ⟨cell, hcell⟩ : ∃ cell, flawed.flow? 0 = some cell := ⟨_, rfl⟩
  have hstate : (flawed.flow? 0).map (·.state) = some .init := by decide +kernel
  have hmonitor : ((flawed.flow? 0).bind (·.parked)).map (·.stage) = some .created := by
    decide +kernel
  have hmarks : (flawed.flow? 0).map (·.pipeline.marks) =
      some [(.source, .created), (.operator 0, .created), (.sink, .created)] := by
    decide +kernel
  have hlength : (flawed.flow? 0).map (·.pipeline.chain.operators.length) = some 1 := by
    decide +kernel
  rw [hcell] at hstate hmonitor hmarks hlength
  obtain ⟨m, hparked, hstage⟩ := Option.map_eq_some_iff.mp hmonitor
  have hbegun : ∀ x ∈ cell.pipeline.marks ++ [(.monitor, m.stage)], x.2.begun = false := by
    have hall : cell.pipeline.marks = _ := Option.some.inj hmarks
    rw [hall, hstage]
    decide
  have hrun : Run (flawed.opened (.runAll .begin) []) flawedTrace flawedOver :=
    run_replay .refl flawedTurns
  refine ⟨by decide +kernel, hended, ?_⟩
  rw [← Option.some.inj hlength]
  exact (hooks_bracketed hcell (Option.some.inj hstate) hparked hbegun (by simp [Activity.begins])
    hrun hended).1

end PullFlow.Engine.World
