import PullFlow.Proofs.Engine.Readiness

/-!
Which monitor a flow has. Hooks and answers change the state of a monitor and never which one it is,
and no step takes the monitor of one flow for that of another. So a flow is driven by the monitor
that it was put together with, wherever that one is.
-/

namespace PullFlow

namespace MonitorBody

/-- Which of the monitors it is, whatever its state. -/
abbrev sort (b : MonitorBody) : Nat := b.ctorIdx

/-- Whether the monitor idles while a sink is active. -/
def idler : MonitorBody → Bool
  | onDemand _ => true
  | _ => false

variable {b b' : MonitorBody}

theorem callable_of_sort (h : b.sort = b'.sort) : b.callable = b'.callable := by
  cases b <;> cases b' <;> first | rfl | cases h

theorem idler_of_sort (h : b.sort = b'.sort) : b.idler = b'.idler := by
  cases b <;> cases b' <;> first | rfl | cases h

theorem sort_receive (v : Value) (b : MonitorBody) : (b.receive v).1.sort = b.sort := by
  unfold receive
  split
  · split <;> rfl
  · split <;> rfl
  · dsimp only
    split <;> rfl
  · rfl

theorem sort_resume (wait : MonitorWait) (out : Outcome) (b : MonitorBody) :
    (b.resume wait out).1.sort = b.sort := by
  unfold resume
  split
  case h_9 => exact sort_receive _ b
  all_goals first
    | rfl
    | (split <;> first | rfl | (split <;> rfl))

theorem sort_initialise (p : Params) (b : MonitorBody) : (initialise p b).body.sort = b.sort := by
  cases b with
  | once | onCall | probe | recorder r => rfl
  | count n =>
      simp only [initialise]
      cases p.int "n" <;> rfl
  | change sleep last | onDemand sleep =>
      simp only [initialise]
      cases p.duration "sleep" <;> rfl
  | interval sleep exits =>
      simp only [initialise, bind, Except.bind]
      cases p.duration "sleep" with
      | error e => rfl
      | ok sleep => cases ExitCondition.ofParams p <;> rfl
  | onValue target always sleep matching =>
      simp only [initialise, bind, Except.bind]
      cases p.bool "always" with
      | error e => rfl
      | ok always => cases p.duration "sleep" <;> rfl

end MonitorBody

/-! No hook makes another monitor of one. -/

namespace Monitor

variable (m : Monitor)

theorem sort_setContext (ctx : Context) :
    (Component.setContext ctx m).body.body.sort = m.body.sort :=
  Component.setContext_keeps (P := fun b : MonitorBody => b.sort = m.body.sort) rfl
    fun b hb => by cases b <;> exact hb

theorem sort_setUp (st : Scope.Store) : (Component.setUp st m).body.body.sort = m.body.sort :=
  Component.setUp_keeps (P := fun b : MonitorBody => b.sort = m.body.sort) rfl
    fun _ params b hb => (MonitorBody.sort_initialise params b).trans hb

theorem sort_start : (Component.start m).body.body.sort = m.body.sort :=
  Component.start_keeps (P := fun b : MonitorBody => b.sort = m.body.sort) rfl
    fun b hb => by cases b <;> exact hb

end Monitor

namespace Engine.World

variable {w w₁ start : World} {t u : ThreadId} {f g : FlowId} {a b : Activity} {answer : Outcome}
  {m m₁ : Monitor} {turn : Turn} {rest : List Activity} {trace : List Taken} {k : Nat}

/-- A monitor that is parked after a step is put there by its run, or it is the one that was there
before. -/
theorem Acts.parked_before (h : Acts w t answer a w₁) (hm : w₁.parked? f = some m₁) :
    (∃ d, a = .run f m₁ (.park d)) ∨
      ∃ m, w.parked? f = some m ∧ m₁.body.sort = m.body.sort := by
  obtain ⟨_, hparked⟩ | ⟨cell, pipeline, parked, hcell, hworks, _, hparked⟩ := h.parts f
  · exact .inr ⟨m₁, hparked ▸ hm, rfl⟩
  · rw [hparked] at hm
    rw [parked?, hcell]
    cases hworks with
    | park =>
        cases hm
        exact .inl ⟨_, rfl⟩
    | retake | stopTake | launch => cases hm
    | monitor =>
        rw [parked_attachMonitor] at hm
        obtain ⟨m, hparked, rfl⟩ := Option.map_eq_some_iff.mp hm
        exact .inr ⟨m, hparked, m.sort_setContext _⟩
    | setUpMonitor =>
        rw [parked_prepareMonitor] at hm
        obtain ⟨m, hparked, rfl⟩ := Option.map_eq_some_iff.mp hm
        exact .inr ⟨m, hparked, m.sort_setUp _⟩
    | _ => exact .inr ⟨m₁, hm, rfl⟩

/-- A run goes on with the monitor that it has. -/
theorem sort_of_run {q q' : RunPoint} {r : World × Turn} (h : w.run t f m answer q = some r)
    (hb : .run g m₁ q' ∈ r.2.frames) (hq' : q'.gone = false) : m₁.body.sort = m.body.sort := by
  obtain rfl | rfl | ⟨wait, rfl⟩ := monitor_of_run h hb hq'
  · rfl
  · exact m.sort_start
  · exact MonitorBody.sort_resume wait answer m.body

/-- The monitor of a flow is of one sort, parked or run. -/
structure Driven (f : FlowId) (k : Nat) (w : World) : Prop where
  parked : ∀ m, w.parked? f = some m → m.body.sort = k
  runs : ∀ t m q, .run f m q ∈ w.tasks t → q.gone = false → m.body.sort = k

namespace Driven

theorem takes (h : Driven f k w) (htakes : Takes w t a rest w₁ turn) :
    Driven f k (w₁.turn t turn) := by
  have htop := htakes.top
  refine ⟨fun m₁ hm₁ => ?_, fun u m₁ q' hmem hq' => ?_⟩
  · obtain ⟨d, rfl⟩ | ⟨m, hm, hsame⟩ := htakes.acts.parked_before (f := f) hm₁
    · exact h.runs t m₁ _ htop rfl
    · exact hsame.trans (h.parked m hm)
  · obtain hmem | ⟨rfl, c, hc, hsame⟩ | ⟨g, m, rfl, hsame, hparked⟩ := htakes.mem hmem
    · exact h.runs u m₁ q' hmem hq'
    · obtain rfl := eq_of_quiet_eq hsame fun _ _ _ _ => Activity.noConfusion
      have hstep := htakes.step_of_mem hc
      obtain hgoes | ⟨back, _, hasks, _⟩ := htakes.stacks.of_mem hc
      · cases hgoes with
        | @run _ m _ q _ =>
            have hgone : q.gone = false := by
              cases hq : q.gone with
              | false => rfl
              | true =>
                  rw [gone_of_run hstep hc hq] at hq'
                  cases hq'
            exact (sort_of_run hstep hc hq').trans (h.runs u m q htop hgone)
        | launch => exact h.parked m₁ (parked_of_launch hstep hc)
      · cases hasks with
        | chain hr | sink hr => cases hr
    · cases hsame
      exact h.parked m₁ hparked

theorem tick (h : Driven f k w) (nanos : Nat) : Driven f k (w.tick nanos) := ⟨h.parked, h.runs⟩

/-- The monitor is where it was put while threads are yet to begin. -/
theorem init (hparked : ∀ m, w.parked? f = some m → m.body.sort = k)
    (hbegins : ∀ u, ∀ b ∈ w.tasks u, ∃ a : Activity, a.begins = true ∧ b = quiet a) :
    Driven f k w := by
  refine ⟨hparked, fun u m q hmem _ => ?_⟩
  cases begins_of_quiet (hbegins u _ hmem) fun _ _ _ _ => Activity.noConfusion

end Driven

theorem Run.driven (h : Run start trace w) (hstart : Driven f k start) : Driven f k w :=
  h.every (P := fun _ w => Driven f k w) hstart (fun _ _ nanos hw => hw.tick nanos)
    fun _ _ _ _ _ _ _ htakes hw => hw.takes htakes

end Engine.World
end PullFlow
