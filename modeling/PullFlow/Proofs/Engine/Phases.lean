import PullFlow.Proofs.Engine.HookLog

/-!
How far the components of a flow have come, for each point at which an activity has its monitor:
nothing was started, all were started in order up to the first failure, or the monitor was stopped
already. A turn of the activity calls the hooks of that point and leaves the next point with what
it has to find.
-/

namespace PullFlow.Engine

/-- A run of a flow's monitor, once all has been started as far as it goes. -/
def RunPoint.warm : RunPoint → Bool
  | .drive _ | .acting _ | .judge _ | .fail _ | .decide _ => true
  | .ending _ | .interrupt _ | .finish _ | .park _ => true
  | _ => false

/-- How far the components of a flow have come when an activity has its monitor. `granted` is
whether the start of the flow was granted, when that is just being decided. -/
def Phase (n : Nat) (began granted : Prop) (log : List HookCall) (marks : List (Place × Stage)) :
    Activity → Prop
  | .run _ m .lock | .run _ m .advance | .run _ m .abandon | .run _ m .abandoned =>
      Standing n began log (marks ++ [(.monitor, m.stage)])
  | .run _ m .advanced =>
      (granted → began ∧ Cold log (marks ++ [(.monitor, m.stage)])) ∧
        (¬ granted → Standing n began log (marks ++ [(.monitor, m.stage)]))
  | .run _ m .release | .run _ m .start => began ∧ Primed log (marks ++ [(.monitor, m.stage)])
  | .run _ m .monitor => began ∧ Warm (places n) log marks ∧ (∀ c ∈ log, c.result.isOk = true) ∧
      m.stage = .initialised
  | .run _ _ (.parked _) | .run _ _ (.retake _) | .run _ _ (.finished _) => True
  | .run _ m _ => began ∧ Warm (startOrder n) log (marks ++ [(.monitor, m.stage)])
  | .finish _ m .monitor => Standing n began log (marks ++ [(.monitor, m.stage)])
  | .finish _ _ .lock | .finish _ _ .components =>
      ∃ starts stops, log = starts ++ stops ∧ Closing n began starts stops marks
  | .finish _ _ _ => ∃ starts stops, log = starts ++ stops ∧ Bracketed n began starts stops
  | _ => True

section Phases

variable {n : Nat} {began granted granted' : Prop} {log : List HookCall}
  {marks marks' : List (Place × Stage)} {f : FlowId} {m : Monitor} {q : RunPoint} {a : Activity}

theorem phase_warm (hq : q.warm = true) : Phase n began granted log marks (.run f m q) ↔
    began ∧ Warm (startOrder n) log (marks ++ [(.monitor, m.stage)]) := by
  cases q <;> first | exact Iff.rfl | cases hq

/-- Being set up leaves the phase of a flow. -/
theorem Phase.eased (h : Phase n began granted log marks a) (heased : Eased marks marks')
    (hgranted : ∀ g m, a = .run g m .advanced → (granted' ↔ granted)) :
    Phase n began granted' log marks' a := by
  have hboth (m : Monitor) :
      Eased (marks ++ [(Place.monitor, m.stage)]) (marks' ++ [(Place.monitor, m.stage)]) :=
    List.rel_append heased (Eased.refl _)
  have hwarm (m : Monitor)
      (hwarm : Warm (startOrder n) log (marks ++ [(Place.monitor, m.stage)])) :
      Warm (startOrder n) log (marks' ++ [(Place.monitor, m.stage)]) :=
    hwarm.eq_of_eased (hboth m) ▸ hwarm
  have hprimed (m : Monitor) (hprimed : Primed log (marks ++ [(Place.monitor, m.stage)])) :
      Primed log (marks' ++ [(Place.monitor, m.stage)]) :=
    hprimed.eq_of_eased (hboth m) ▸ hprimed
  cases a with
  | run g m q =>
      cases q with
      | lock | advance | abandon | abandoned => exact Standing.eased h (hboth m)
      | advanced =>
          rw [Phase, hgranted g m rfl]
          exact ⟨fun hg => ⟨(h.1 hg).1, (h.1 hg).2.eased (hboth m)⟩,
            fun hg => (h.2 hg).eased (hboth m)⟩
      | release | start => exact ⟨h.1, hprimed m h.2⟩
      | monitor => exact ⟨h.1, h.2.1.eq_of_eased heased ▸ h.2.1, h.2.2⟩
      | parked | retake | finished => exact trivial
      | _ => exact ⟨h.1, hwarm m h.2⟩
  | finish g m q =>
      cases q with
      | monitor => exact Standing.eased h (hboth m)
      | lock | components =>
          obtain ⟨starts, stops, hlog, hclosing⟩ := h
          exact ⟨starts, stops, hlog, hclosing.eased heased⟩
      | ended | announced => exact h
  | _ => exact trivial

end Phases

namespace World

/-- The components of a flow with hooks. -/
def leavesOf (w : World) (f : FlowId) : List Leaf :=
  ((w.pipeline? f).map Pipeline.leaves).getD []

/-- The hooks of a flow that a turn calls. -/
def Taken.hooks (f : FlowId) (taken : Taken) : List HookCall :=
  match taken.activity with
  | .run g _ .start => if g = f then startCalls (taken.before.leavesOf f) else []
  | .run g m .monitor => if g = f then startCalls [m.leaf .monitor] else []
  | .finish g m .monitor => if g = f then stopCalls [m.leaf .monitor] else []
  | .finish g _ .components => if g = f then stopCalls (taken.before.leavesOf f) else []
  | _ => []

/-- The hooks of a flow that were called in a run, in order. -/
def hookLog (f : FlowId) (trace : List Taken) : List HookCall :=
  trace.reverse.flatMap (Taken.hooks f)

/-- A run in which a flow was in a state at some time. -/
def Visited (f : FlowId) (s : FlowState) (trace : List Taken) (w : World) : Prop :=
  w.stateOf f = s ∨ ∃ taken ∈ trace, taken.before.stateOf f = s

variable {w w₁ start : World} {t u : ThreadId} {f : FlowId} {a b : Activity} {answer : Outcome}
  {cell : FlowCell} {p : Pipeline} {m m₁ : Monitor} {turn : Turn} {rest : List Activity}
  {trace : List Taken} {n : Nat} {q : RunPoint}

theorem hookLog_cons (f : FlowId) (taken : Taken) (trace : List Taken) :
    hookLog f (taken :: trace) = hookLog f trace ++ taken.hooks f := by
  simp [hookLog]

theorem leavesOf_of_pipeline? (h : w.pipeline? f = some p) : w.leavesOf f = p.leaves := by
  rw [leavesOf, h]
  rfl

/-- Only who has the monitor of a flow calls its hooks. -/
theorem hooks_of_not_handles (ha : handles true f a = false) : Taken.hooks f ⟨w, t, a⟩ = [] := by
  have hne {g : FlowId} {m : Monitor} {q : RunPoint} (ha : handles true f (.run g m q) = false)
      (hq : q.gone = false) : g ≠ f := by
    rintro rfl
    simp [handles_run, hq] at ha
  unfold Taken.hooks
  dsimp only
  split
  · exact if_neg (hne ha rfl)
  · exact if_neg (hne ha rfl)
  · exact if_neg (by simpa [handles] using ha)
  · exact if_neg (by simpa [handles] using ha)
  · rfl

/-- The hooks that a turn calls have made the notes that it leaves. -/
theorem journal_of_hooks (h : a.step w t answer = some (w₁, turn))
    (ha : Taken.hooks f ⟨w, t, a⟩ ≠ []) :
    w₁.journal = w.journal ++ (Taken.hooks f ⟨w, t, a⟩).flatMap (·.notes) := by
  unfold Taken.hooks at ha ⊢
  dsimp only at ha ⊢
  split at ha
  · next g m =>
    split at ha
    · next hgf =>
      subst hgf
      rw [if_pos rfl]
      obtain ⟨cell, hcell, heq⟩ := Option.map_eq_some_iff.mp h
      cases heq
      rw [leavesOf, pipeline?, hcell]
      exact congrArg (w.journal ++ ·) (Pipeline.start_starting _).notes
    · exact absurd rfl ha
  · next g m =>
    split at ha
    · next hgf =>
      rw [if_pos hgf]
      cases h
      exact congrArg (w.journal ++ ·) (m.starting .monitor).notes
    · exact absurd rfl ha
  · next g m =>
    split at ha
    · next hgf =>
      rw [if_pos hgf]
      cases h
      exact congrArg (w.journal ++ ·) (m.stopping .monitor).notes
    · exact absurd rfl ha
  · next g m =>
    split at ha
    · next hgf =>
      subst hgf
      rw [if_pos rfl]
      obtain ⟨cell, hcell, heq⟩ := Option.map_eq_some_iff.mp h
      cases heq
      rw [leavesOf, pipeline?, hcell]
      exact congrArg (w.journal ++ ·) (Pipeline.stop_stopping _).notes
    · exact absurd rfl ha
  · exact absurd rfl ha

/-- The start of the components is granted when the flow was moved to it. -/
def granted (f : FlowId) (w : World) (t : ThreadId) : Prop :=
  (∃ before rest, w.tasks t = .advance f .started (.emit before) :: rest) ∨
    (∃ m rest, w.tasks t = .run f m .advanced :: rest) ∧ MonitorBody.yes (w.answerOf t) = true

section Steps

variable {began given given' : Prop} {log : List HookCall} {marks : List (Place × PullFlow.Stage)}
  {c : Activity}

theorem hooks_run (hq : q ≠ .start) (hq' : q ≠ .monitor) :
    Taken.hooks f ⟨w, t, .run f m q⟩ = [] := by
  unfold Taken.hooks
  cases q <;> first | rfl | exact absurd rfl hq | exact absurd rfl hq'

/-- A run that is under way goes on so, or hands its monitor on to the end of the flow. -/
theorem warm_of_run (hq : q.warm = true) (h : w.run t f m answer q = some (w₁, turn))
    (hc : c ∈ turn.frames) (hhandles : handles true f c = true) :
    (∃ m' q', c = .run f m' q' ∧ m'.stage = m.stage ∧ q'.warm = true) ∨
      c = .finish f m .monitor := by
  have hgoto {m' : Monitor} {q' : RunPoint} (hm : m'.stage = m.stage) (hq' : q'.warm = true)
      (hc : c ∈ [Activity.run f m' q']) : (∃ m' q', c = .run f m' q' ∧ m'.stage = m.stage ∧
        q'.warm = true) ∨ c = .finish f m .monitor :=
    .inl ⟨m', q', List.mem_singleton.mp hc, hm, hq'⟩
  have hback {callee : Activity} {q' : RunPoint} (hcallee : handles true f callee = false)
      (hq' : q'.warm = true) (hc : c ∈ [callee, Activity.run f m q']) :
      (∃ m' q', c = .run f m' q' ∧ m'.stage = m.stage ∧ q'.warm = true) ∨
        c = .finish f m .monitor := by
    obtain rfl | hc := List.mem_cons.mp hc
    · rw [hcallee] at hhandles
      cases hhandles
    · exact hgoto rfl hq' hc
  cases q with
  | drive move =>
      obtain ⟨cell, _, h⟩ := Option.bind_eq_some_iff.mp h
      dsimp only at h
      split at h
      · cases h
        exact hgoto rfl rfl hc
      · cases h
        exact hgoto rfl rfl hc
      · cases h
        exact hgoto rfl rfl hc
      · cases h
        exact hgoto rfl rfl hc
      · cases h
        exact hgoto rfl rfl hc
      · cases h
        exact hgoto rfl rfl hc
      · split at h <;> cases h
        exact hgoto rfl rfl hc
      · obtain ⟨callee, hcallee, heq⟩ := Option.map_eq_some_iff.mp h
        cases heq
        refine hback ?_ rfl hc
        unfold actionOf? at hcallee
        split at hcallee <;> cases hcallee <;> rfl
  | acting wait =>
      cases h
      exact .inl ⟨_, _, List.mem_singleton.mp hc, rfl, rfl⟩
  | fail d =>
      cases d with
      | ok v =>
          cases h
          exact hgoto rfl rfl hc
      | error e =>
          obtain ⟨cell, _, heq⟩ := Option.map_eq_some_iff.mp h
          cases heq
          exact hgoto rfl rfl hc
  | decide d =>
      simp only [World.run, Option.some.injEq] at h
      split at h <;> split at h <;> cases h <;> exact hgoto rfl rfl hc
  | interrupt d =>
      simp only [World.run, Option.some.injEq] at h
      split at h <;> cases h
      · exact hback rfl rfl hc
      · exact hgoto rfl rfl hc
  | judge d =>
      cases h
      exact hgoto rfl rfl hc
  | park d =>
      cases h
      rw [List.mem_singleton.mp hc, handles_run] at hhandles
      simp [RunPoint.gone] at hhandles
  | ending d =>
      cases h
      exact hback rfl rfl hc
  | finish d =>
      cases h
      obtain rfl | hc := List.mem_cons.mp hc
      · exact .inr rfl
      · rw [List.mem_singleton.mp hc, handles_run] at hhandles
        simp [RunPoint.gone] at hhandles
  | _ => cases hq

/-- What a run does to its phase, but for the start of the components. -/
theorem phase_run (h : Phase n began given log marks (.run f m q))
    (hplaces : marks.map Prod.fst = places n) (hq : q ≠ .start) (hgone : q.gone = false)
    (hready : ∀ x ∈ marks ++ [(Place.monitor, m.stage)], x.2.ready = true)
    (hgiven : q = .advanced → (given ↔ MonitorBody.yes answer = true))
    (hgiven' : q = .advance → ¬ given')
    (hstep : w.run t f m answer q = some (w₁, turn)) (hc : c ∈ turn.frames)
    (hhandles : handles true f c = true) :
    Phase n began given' (log ++ Taken.hooks f ⟨w, t, .run f m q⟩) marks c := by
  cases hwarm : q.warm with
  | true =>
      have hnone : Taken.hooks f ⟨w, t, .run f m q⟩ = [] := by
        cases q <;> first | rfl | cases hwarm
      rw [hnone, List.append_nil]
      have hbefore := (phase_warm hwarm).mp h
      obtain ⟨m', q', rfl, hm, hq'⟩ | rfl := warm_of_run hwarm hstep hc hhandles
      · rw [phase_warm hq', hm]
        exact hbefore
      · exact .inr hbefore
  | false =>
  cases q with
  | lock =>
      obtain ⟨w', _, heq⟩ := Option.map_eq_some_iff.mp hstep
      cases heq
      rw [hooks_run hq (by simp), List.append_nil, List.mem_singleton.mp hc]
      exact h
  | advance =>
      cases hstep
      rw [hooks_run hq (by simp), List.append_nil]
      obtain rfl | hc := List.mem_cons.mp hc
      · cases hhandles
      · rw [List.mem_singleton.mp hc]
        exact ⟨fun hgiven => absurd hgiven (hgiven' rfl), fun _ => h⟩
  | advanced =>
      rw [hooks_run hq (by simp), List.append_nil]
      cases hyes : MonitorBody.yes answer with
      | true =>
          simp only [World.run, hyes, Option.some.injEq] at hstep
          cases hstep
          rw [List.mem_singleton.mp hc]
          obtain ⟨hbegan, hcold⟩ := h.1 ((hgiven rfl).mpr hyes)
          exact ⟨hbegan, hcold.log,
            fun x hx => Stage.eq_initialised (hready x hx) (hcold.marks x hx)⟩
      | false =>
          simp only [World.run, hyes, Option.some.injEq] at hstep
          cases hstep
          rw [List.mem_singleton.mp hc]
          exact h.2 (mt (hgiven rfl).mp (by simp [hyes]))
  | release =>
      cases hstep
      rw [hooks_run hq (by simp), List.append_nil, List.mem_singleton.mp hc]
      exact h
  | abandon =>
      cases hstep
      rw [hooks_run hq (by simp), List.append_nil, List.mem_singleton.mp hc]
      exact h
  | abandoned =>
      cases hstep
      rw [hooks_run hq (by simp), List.append_nil]
      obtain rfl | hc := List.mem_cons.mp hc
      · exact h
      · rw [List.mem_singleton.mp hc]
        exact trivial
  | monitor =>
      obtain ⟨hbegan, hstarted, hall, hstage⟩ := h
      have hhooks : Taken.hooks f ⟨w, t, .run f m .monitor⟩ = [(m.leaf .monitor).startCall] := by
        unfold Taken.hooks
        dsimp only
        rw [if_pos rfl, startCalls_cons (show (m.leaf .monitor).stage = .initialised from hstage)]
        split <;> rfl
      have hafter := hstarted.monitor hplaces hall (m.leaf .monitor) rfl
      have hbody : m.start.body.stage =
          if (m.leaf .monitor).start.1.isOk then .running else .initialised := by
        have hmarks : [(Place.monitor, m.start.body.stage)] = started [m.leaf .monitor] :=
          (m.starting .monitor).marks
        have hleaf : (m.leaf .monitor).stage = .initialised := hstage
        have hplace : (m.leaf .monitor).place = .monitor := rfl
        cases hok : (m.leaf .monitor).start.1.isOk <;>
          simpa [started, Leaf.starts, Leaf.mark, hleaf, hplace, hok] using hmarks
      rw [hhooks]
      cases hstep
      rw [List.mem_singleton.mp hc]
      split
      · rw [phase_warm rfl, hbody]
        exact ⟨hbegan, hafter⟩
      · rw [phase_warm rfl, hbody]
        exact ⟨hbegan, hafter⟩
  | start => exact absurd rfl hq
  | parked | retake | finished => cases hgone
  | _ => cases hwarm

/-- The start of the components of a flow. -/
theorem phase_start (h : Phase n began given log marks (.run f m .start))
    (hp : w.pipeline? f = some p) (hmarks : p.marks = marks)
    (hplaces : marks.map Prod.fst = places n)
    (hstep : w.run t f m answer .start = some (w₁, turn)) (hc : c ∈ turn.frames) :
    Phase n began given' (log ++ Taken.hooks f ⟨w, t, .run f m .start⟩) p.start.body.marks c := by
  obtain ⟨hbegan, hprimed⟩ := h
  subst hmarks
  obtain ⟨hcomponents, hmonitor⟩ := List.forall_mem_append.mp hprimed.marks
  have hstage : m.stage = .initialised := hmonitor _ (List.mem_singleton.mpr rfl)
  have hleaves : ∀ l ∈ p.leaves, l.stage = .initialised := List.forall_mem_map.mp hcomponents
  have horder : p.leaves.map (·.place) = places n := by
    rw [← hplaces, Pipeline.marks, List.map_map]
    rfl
  have hstarting := p.start_starting
  have hwarm : Warm (places n) (startCalls p.leaves) p.start.body.marks := by
    rw [Pipeline.marks, hstarting.marks, ← horder]
    exact warm_startCalls hleaves (horder ▸ places_nodup n)
  have hall := startCalls_isOk hleaves
  rw [← hstarting.result] at hall
  have hhooks : Taken.hooks f ⟨w, t, .run f m .start⟩ = startCalls p.leaves := by
    unfold Taken.hooks
    dsimp only
    rw [if_pos rfl, leavesOf_of_pipeline? hp]
  rw [hhooks, hprimed.log, List.nil_append]
  obtain ⟨cell, hcell, heq⟩ := Option.map_eq_some_iff.mp hstep
  rw [pipeline?, hcell] at hp
  cases hp
  cases heq
  rw [List.mem_singleton.mp hc]
  cases hresult : cell.pipeline.start.result with
  | ok u =>
      rw [hresult] at hall
      exact ⟨hbegan, hwarm, hall.mpr rfl, hstage⟩
  | error e =>
      rw [hresult] at hall
      refine ⟨hbegan, ?_⟩
      rw [hstage]
      exact hwarm.failed fun hok => by cases hall.mp hok

/-- What the end of a flow does to its phase. -/
theorem phase_finish {q : FinishPoint} (h : Phase n began given log marks (.finish f m q))
    (hp : w.pipeline? f = some p) (hmarks : p.marks = marks)
    (hplaces : marks.map Prod.fst = places n)
    (hstep : w.finish t f m q = some (w₁, turn)) (hc : c ∈ turn.frames)
    (hhandles : handles true f c = true) (marks' : List (Place × PullFlow.Stage))
    (hmarks' : q ≠ .components → marks' = marks) :
    Phase n began given' (log ++ Taken.hooks f ⟨w, t, .finish f m q⟩) marks' c := by
  cases q with
  | monitor =>
      have hhooks : Taken.hooks f ⟨w, t, .finish f m .monitor⟩ = stopCalls [m.leaf .monitor] := by
        unfold Taken.hooks
        dsimp only
        rw [if_pos rfl]
      cases hstep
      rw [List.mem_singleton.mp hc, hhooks, hmarks' (by simp)]
      exact ⟨log, _, rfl, Standing.stopMonitor (l := m.leaf .monitor) h rfl⟩
  | lock =>
      obtain ⟨w', _, heq⟩ := Option.map_eq_some_iff.mp hstep
      cases heq
      rw [List.mem_singleton.mp hc, hmarks' (by simp)]
      have hnone : Taken.hooks f ⟨w, t, .finish f m .lock⟩ = [] := rfl
      rw [hnone, List.append_nil]
      exact h
  | components =>
      obtain ⟨starts, stops, rfl, hclosing⟩ := h
      have hhooks : Taken.hooks f ⟨w, t, .finish f m .components⟩ = stopCalls p.leaves := by
        unfold Taken.hooks
        dsimp only
        rw [if_pos rfl, leavesOf_of_pipeline? hp]
      obtain ⟨cell, _, heq⟩ := Option.map_eq_some_iff.mp hstep
      cases heq
      rw [List.mem_singleton.mp hc, hhooks, List.append_assoc]
      subst hmarks
      exact ⟨starts, _, rfl, hclosing.stopComponents hplaces⟩
  | ended =>
      cases hstep
      have hnone : Taken.hooks f ⟨w, t, .finish f m .ended⟩ = [] := rfl
      rw [hnone, List.append_nil]
      obtain rfl | hc := List.mem_cons.mp hc
      · cases hhandles
      · rw [List.mem_singleton.mp hc]
        exact h
  | announced =>
      cases hstep
      cases hc

end Steps

end World
end PullFlow.Engine
