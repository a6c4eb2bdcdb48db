import PullFlow.Proofs.Engine.Frames

/-!
The way of a run through its points: from each it goes on to few others, and at few of them it waits
for something else to be done first.
-/

namespace PullFlow.Engine

/-- The points of a run and those that it may go on at. -/
def RunPoint.leads : RunPoint → RunPoint → Bool
  | .lock, .advance | .advance, .advanced => true
  | .advanced, .release | .release, .start | .start, .monitor | .start, .judge _ => true
  | .advanced, .abandon | .abandon, .abandoned | .abandoned, .finished _ => true
  | .monitor, .drive _ | .monitor, .judge _ => true
  | .drive _, .drive _ | .drive _, .acting _ | .drive _, .judge _ | .acting _, .drive _ => true
  | .judge _, .fail _ | .fail _, .decide _ | .decide _, .ending _ | .decide _, .park _ => true
  | .ending _, .interrupt _ | .interrupt _, .finish _ | .finish _, .finished _ => true
  | .park _, .parked _ | .parked _, .retake _ | .retake _, .finished _ => true
  | _, _ => false

/-- What a run waits for at its points. -/
inductive RunPoint.Calls (f : FlowId) : RunPoint → Activity → Prop
  | start : Calls f .advance (.advance f .started .swap)
  | abandoned {m : Monitor} : Calls f .abandoned (.finish f m .monitor)
  | act {w : World} {action : MonitorAct} {wait : MonitorWait} {a : Activity} :
      w.actionOf? f action = some a → Calls f (.drive (.act action wait)) a
  | ending {d : Done} : Calls f (.ending d) (.advance f .ending .swap)
  | interrupt {d : Done} : Calls f (.interrupt d) (.interrupt f .sleeper)
  | finish {m : Monitor} {d : Done} : Calls f (.finish d) (.finish f m .monitor)
  | retake {m : Monitor} {d : Done} : Calls f (.retake d) (.finish f m .monitor)

namespace World

variable {w : World} {t : ThreadId} {f : FlowId} {b : Activity} {answer : Outcome} {m m₁ : Monitor}

theorem actionOf?_ne_run {action : MonitorAct} {g : FlowId} {q : RunPoint} :
    w.actionOf? f action ≠ some (.run g m q) := by
  intro h
  unfold actionOf? at h
  split at h <;> cases h

/-- A run goes on at the next point, or waits for what it asks for at its point. -/
theorem run_leads {q : RunPoint} {r : World × Turn} (h : w.run t f m answer q = some r)
    (hb : b ∈ r.2.frames) : (∃ m' q', b = .run f m' q' ∧ q.leads q' = true) ∨ q.Calls f b := by
  have hgoto {m' : Monitor} {q' : RunPoint} (hleads : q.leads q' = true)
      (hb : b ∈ [Activity.run f m' q']) :
      (∃ m' q', b = .run f m' q' ∧ q.leads q' = true) ∨ q.Calls f b :=
    .inl ⟨m', q', List.mem_singleton.mp hb, hleads⟩
  have hinvoke {callee : Activity} {m' : Monitor} {q' : RunPoint} (hcalls : q.Calls f callee)
      (hleads : q.leads q' = true) (hb : b ∈ [callee, Activity.run f m' q']) :
      (∃ m' q', b = .run f m' q' ∧ q.leads q' = true) ∨ q.Calls f b := by
    obtain rfl | hb := List.mem_cons.mp hb
    · exact .inr hcalls
    · exact hgoto hleads hb
  cases q with
  | lock =>
      obtain ⟨w₁, _, rfl⟩ := Option.map_eq_some_iff.mp h
      exact hgoto rfl hb
  | advance =>
      cases h
      exact hinvoke .start rfl hb
  | advanced =>
      cases h
      cases hyes : MonitorBody.yes answer <;> simp only [hyes] at hb <;> exact hgoto rfl hb
  | release | abandon | acting _ | judge _ | park _ =>
      cases h
      exact hgoto rfl hb
  | start =>
      obtain ⟨cell, _, rfl⟩ := Option.map_eq_some_iff.mp h
      dsimp only at hb
      split at hb <;> exact hgoto rfl hb
  | abandoned =>
      cases h
      exact hinvoke .abandoned rfl hb
  | monitor =>
      cases h
      dsimp only at hb
      split at hb <;> exact hgoto rfl hb
  | drive move =>
      obtain ⟨cell, _, h⟩ := Option.bind_eq_some_iff.mp h
      dsimp only at h
      split at h
      · cases h
        exact hgoto rfl hb
      · cases h
        exact hgoto rfl hb
      · cases h
        exact hgoto rfl hb
      · cases h
        exact hgoto rfl hb
      · cases h
        exact hgoto rfl hb
      · cases h
        exact hgoto rfl hb
      · split at h <;> cases h
        exact hgoto rfl hb
      · obtain ⟨callee, hcallee, rfl⟩ := Option.map_eq_some_iff.mp h
        exact hinvoke (.act hcallee) rfl hb
  | fail d =>
      cases d with
      | ok v =>
          cases h
          exact hgoto rfl hb
      | error e =>
          obtain ⟨cell, _, rfl⟩ := Option.map_eq_some_iff.mp h
          exact hgoto rfl hb
  | decide d =>
      simp only [World.run, Option.some.injEq] at h
      subst h
      split at hb <;> split at hb <;> exact hgoto rfl hb
  | ending d =>
      cases h
      exact hinvoke .ending rfl hb
  | interrupt d =>
      cases h
      cases hyes : MonitorBody.yes answer <;> simp only [hyes] at hb
      · exact hgoto rfl hb
      · exact hinvoke .interrupt rfl hb
  | finish d =>
      cases h
      exact hinvoke .finish rfl hb
  | parked d =>
      simp only [World.run, Option.some.injEq] at h
      subst h
      split at hb
      · exact hgoto rfl hb
      · cases hb
  | retake d =>
      obtain ⟨cell, _, rfl⟩ := Option.map_eq_some_iff.mp h
      split at hb
      · exact hinvoke .retake rfl hb
      · cases hb
  | finished d =>
      cases h
      cases hb

/-- The monitor that a run goes on with is the one that it has, at most started meanwhile or moved by
an answer. -/
theorem monitor_of_run {q q' : RunPoint} {g : FlowId} {r : World × Turn}
    (h : w.run t f m answer q = some r) (hb : .run g m₁ q' ∈ r.2.frames) (hq' : q'.gone = false) :
    m₁ = m ∨ m₁ = m.start.body ∨ ∃ wait, m₁ = { m with body := (m.body.resume wait answer).1 } := by
  have hgoto {m' : Monitor} {p : RunPoint} (hb : .run g m₁ q' ∈ [Activity.run f m' p]) :
      m₁ = m' := by
    cases List.mem_singleton.mp hb
    rfl
  have hback {callee : Activity} {p : RunPoint} (hcallee : ∀ m', callee ≠ .run g m' q')
      (hb : .run g m₁ q' ∈ [callee, Activity.run f m p]) : m₁ = m := by
    obtain hsame | hb := List.mem_cons.mp hb
    · exact absurd hsame.symm (hcallee m₁)
    · exact hgoto hb
  cases q with
  | lock =>
      obtain ⟨w₁, _, rfl⟩ := Option.map_eq_some_iff.mp h
      exact .inl (hgoto hb)
  | start =>
      obtain ⟨cell, _, rfl⟩ := Option.map_eq_some_iff.mp h
      exact .inl (hgoto hb)
  | monitor =>
      cases h
      exact .inr (.inl (hgoto hb))
  | drive move =>
      obtain ⟨cell, _, h⟩ := Option.bind_eq_some_iff.mp h
      dsimp only at h
      split at h
      · cases h
        exact .inl (hgoto hb)
      · cases h
        exact .inl (hgoto hb)
      · cases h
        exact .inl (hgoto hb)
      · cases h
        exact .inl (hgoto hb)
      · cases h
        exact .inl (hgoto hb)
      · cases h
        exact .inl (hgoto hb)
      · split at h <;> cases h
        exact .inl (hgoto hb)
      · obtain ⟨callee, hcallee, rfl⟩ := Option.map_eq_some_iff.mp h
        refine .inl (hback (fun m' hsame => ?_) hb)
        rw [hsame] at hcallee
        exact actionOf?_ne_run hcallee
  | acting wait =>
      cases h
      exact .inr (.inr ⟨wait, hgoto hb⟩)
  | fail d =>
      cases d with
      | ok v =>
          cases h
          exact .inl (hgoto hb)
      | error e =>
          obtain ⟨cell, _, rfl⟩ := Option.map_eq_some_iff.mp h
          exact .inl (hgoto hb)
  | decide d =>
      simp only [World.run, Option.some.injEq] at h
      subst h
      refine .inl ?_
      split at hb <;> split at hb <;> exact hgoto hb
  | interrupt d =>
      cases h
      refine .inl ?_
      cases hyes : MonitorBody.yes answer <;> simp only [hyes] at hb
      · exact hgoto hb
      · exact hback (fun _ => Activity.noConfusion) hb
  | parked d =>
      simp only [World.run, Option.some.injEq] at h
      subst h
      split at hb
      · exact .inl (hgoto hb)
      · cases hb
  | retake d =>
      obtain ⟨cell, _, rfl⟩ := Option.map_eq_some_iff.mp h
      split at hb
      · obtain hsame | hb := List.mem_cons.mp hb
        · cases hsame
        · cases List.mem_singleton.mp hb
          cases hq'
      · cases hb
  | advanced | release | abandon | judge _ | park _ =>
      cases h
      exact .inl (hgoto hb)
  | advance | abandoned | ending _ | finish _ =>
      cases h
      exact .inl (hback (fun _ => Activity.noConfusion) hb)
  | finished d =>
      cases h
      cases hb

/-- A run that has handed its monitor on does not take it up again. -/
theorem gone_of_run {q q' : RunPoint} {g : FlowId} {r : World × Turn}
    (h : w.run t f m answer q = some r) (hb : .run g m₁ q' ∈ r.2.frames) (hq : q.gone = true) :
    q'.gone = true := by
  obtain ⟨_, _, hsame, hleads⟩ | hcalls := run_leads h hb
  · cases hsame
    cases q with
    | parked d | retake d | finished d => cases q' <;> first | rfl | cases hleads
    | _ => cases hq
  · cases hcalls
    cases hq

end World
end PullFlow.Engine
