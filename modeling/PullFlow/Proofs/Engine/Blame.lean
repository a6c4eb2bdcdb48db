import PullFlow.Proofs.Engine.Course

/-!
How a failure comes to be known. A flow that fails ends its run with an error, the thread that
starts the set takes that error over when it joins the flow's thread or was running the flow
itself, and nothing makes it forget an error. So a failure that was announced is reported in the
end.
-/

namespace PullFlow.Engine

/-- Whether an activity knows of a failure. -/
def Activity.failed : Activity → Bool
  | .run _ _ p =>
      match p.end? with
      | some (.error _) => true
      | _ => false
  | .joinAll _ (.error _) _ => true
  | .startAll (.abort _) | .startAll (.aborted _) | .startAll (.stopped (.error _)) => true
  | .runAll (.stopped _) => true
  | _ => false

/-- Whether an activity takes over the failure of what it has waited for. -/
def Activity.heeds : Activity → Bool
  | .joinAll _ _ true | .startAll (.launched _) | .startAll .joined | .runAll .ready => true
  | _ => false

variable {a b : Activity} {rest tasks : List Activity}

theorem failed_quiet (a : Activity) : (quiet a).failed = a.failed := by
  cases a <;> rfl

theorem heeds_quiet (a : Activity) : (quiet a).heeds = a.heeds := by
  cases a <;> rfl

theorem failed_run {f : FlowId} {m : Monitor} {p : RunPoint} :
    (Activity.run f m p).failed = true ↔ ∃ e, p.end? = some (.error e) := by
  simp only [Activity.failed]
  cases p.end? with
  | none => simp
  | some d => cases d <;> simp

theorem not_helper {p : Prop} (h : a.failed = true ∨ a.heeds = true ∧ p) : a.helper = false := by
  obtain h | ⟨h, _⟩ := h
  · cases a <;> first | rfl | cases h
  · cases a <;> first | rfl | cases h

namespace World

variable {w w' w₁ : World} {t u : ThreadId} {turn : Turn} {answer : Outcome}

/-- An activity that knows of a failure, or is told of one, goes on knowing it or ends with an
error. -/
theorem Moves.failed (h : Moves w answer a w₁ turn)
    (ha : a.failed = true ∨ a.heeds = true ∧ ∃ e, answer = .error e) :
    (∃ b ∈ turn.frames, b.failed = true) ∨ ∃ e, turn = .exit (.error e) := by
  have hrun {f : FlowId} {m : Monitor} {p : RunPoint}
      (ha : (Activity.run f m p).failed = true ∨
        (Activity.run f m p).heeds = true ∧ ∃ e, answer = .error e) :
      ∃ e, p.end? = some (.error e) := by
    obtain hfailed | ⟨hheeds, _⟩ := ha
    · exact failed_run.mp hfailed
    · cases hheeds
  have hjoin {left : List FlowId} {failed : Done} {joining : Bool}
      (ha : (Activity.joinAll left failed joining).failed = true ∨
        (Activity.joinAll left failed joining).heeds = true ∧ ∃ e, answer = .error e) :
      ∃ e, (if joining then firstFailure failed answer else failed) = .error e := by
    cases failed with
    | error e => exact ⟨e, ite_self _⟩
    | ok v =>
        cases joining with
        | false => obtain hfailed | ⟨hheeds, _⟩ := ha <;> contradiction
        | true =>
            obtain hfailed | ⟨_, e, rfl⟩ := ha
            · cases hfailed
            · exact ⟨e, rfl⟩
  cases h with
  | plain hplain =>
      have hnot := not_helper ha
      rw [helper_plain hplain] at hnot
      cases hnot
  | runOn hp | runAsk hp | runAbandon hp | runPass hp =>
      obtain ⟨e, he⟩ := hrun ha
      rw [hp] at he
      cases he
  | runDecide hend _ _ =>
      obtain ⟨e, he⟩ := hrun ha
      exact .inl ⟨_, List.mem_singleton.mpr rfl, failed_run.mpr ⟨e, hend.symm.trans he⟩⟩
  | runEnding | runRelease | runFinish =>
      obtain ⟨e, he⟩ := hrun ha
      exact .inl ⟨_, List.mem_cons_of_mem _ (List.mem_cons_self ..), failed_run.mpr ⟨e, he⟩⟩
  | runTake _ _ =>
      obtain ⟨e, he⟩ := hrun ha
      exact .inl ⟨_, List.mem_cons_of_mem _ (List.mem_cons_self ..), failed_run.mpr ⟨e, he⟩⟩
  | runPark | runRetake =>
      obtain ⟨e, he⟩ := hrun ha
      exact .inl ⟨_, List.mem_singleton.mpr rfl, failed_run.mpr ⟨e, he⟩⟩
  | runKeep _ | runLeft _ _ | runOver =>
      obtain ⟨e, he⟩ := hrun ha
      cases he
      exact .inr ⟨e, rfl⟩
  | joinOver =>
      obtain ⟨e, he⟩ := hjoin ha
      rw [he]
      exact .inr ⟨e, rfl⟩
  | joinNext =>
      obtain ⟨e, he⟩ := hjoin ha
      rw [he]
      exact .inl ⟨_, List.mem_cons_of_mem _ (List.mem_cons_self ..), rfl⟩
  | launchAbort _ => exact .inl ⟨_, List.mem_cons_of_mem _ (List.mem_cons_self ..), rfl⟩
  | abortJoin => exact .inl ⟨_, List.mem_cons_of_mem _ (List.mem_cons_self ..), rfl⟩
  | aborted => exact .inr ⟨_, rfl⟩
  | notReady _ => exact .inl ⟨_, List.mem_cons_of_mem _ (List.mem_cons_self ..), rfl⟩
  | setUpStopped => exact .inr ⟨_, rfl⟩
  | launched hanswer | ready hanswer =>
      obtain hfailed | ⟨_, e, he⟩ := ha
      · cases hfailed
      · rw [hanswer] at he
        cases he
  | joinStop =>
      obtain hfailed | ⟨_, e, he⟩ := ha
      · cases hfailed
      · subst he
        exact .inl ⟨_, List.mem_cons_of_mem _ (List.mem_cons_self ..), rfl⟩
  | @allStopped out =>
      obtain hfailed | ⟨hheeds, _⟩ := ha
      · cases out with
        | error e => exact .inr ⟨e, rfl⟩
        | ok v => cases hfailed
      · cases hheeds
  | _ =>
      obtain hfailed | ⟨hheeds, _⟩ := ha
      · cases hfailed
      · cases hheeds

/-- A thread that knows of a failure or is to be told of one, or has ended with an error. -/
inductive Blamed (w : World) (t : ThreadId) : Prop
  | knows {a : Activity} : a ∈ w.tasks t → a.failed = true → Blamed w t
  | told {a : Activity} {rest : List Activity} {e : Error} : w.tasks t = a :: rest →
      a.heeds = true → w.answerOf t = .error e → Blamed w t
  | returned {e : Error} : w.result? t = some (.error e) → Blamed w t

/-- A failure is announced where a run reports one or has failed, and nowhere else. -/
theorem Moves.announced (h : Moves w answer a w₁ turn) :
    (∀ event, event.failure = true → (event ∈ w₁.events ↔ event ∈ w.events)) ∨
    (∃ f m e wait name, a = .run f m (.drive (.act (.report e) wait)) ∧
      turn = .next (.run f m (.acting wait)) ∧ w₁ = w.emit (.pullFailed name e.message)) ∨
    ∃ f m e name, a = .run f m (.fail (.error e)) ∧
      turn = .next (.run f m (.decide (.error e))) ∧ w₁ = w.emit (.flowFailed name e.message) := by
  cases h with
  | plain _ hcalm _ => exact .inl hcalm.failures
  | announce hcalm => exact .inl hcalm.failures
  | finishOn _ _ _ hcalm => exact .inl hcalm.failures
  | runOn _ _ hcalm => exact .inl hcalm.failures
  | runAsk _ _ _ hcalm => exact .inl hcalm.failures
  | runReport _ => exact .inr (.inl ⟨_, _, _, _, _, rfl, rfl, rfl⟩)
  | runFail _ => exact .inr (.inr ⟨_, _, _, _, rfl, rfl, rfl⟩)
  | _ => exact .inl fun _ _ => Iff.rfl

theorem mem_events_emit {e event : Event} :
    event ∈ (w.emit e).events ↔ event ∈ w.events ∨ event = e := by
  simp [emit]

/-- An announced failure stays announced. -/
theorem Moves.announced_before (h : Moves w answer a w₁ turn) {event : Event}
    (hfailure : event.failure = true) (hevent : event ∈ w.events) : event ∈ w₁.events := by
  obtain hsame | ⟨_, _, _, _, _, _, _, rfl⟩ | ⟨_, _, _, _, _, _, rfl⟩ := h.announced
  · exact (hsame event hfailure).mpr hevent
  · exact mem_events_emit.mpr (.inl hevent)
  · exact mem_events_emit.mpr (.inl hevent)

variable {main n : ThreadId}

namespace Manned

/-- What waits for an activity of the course takes its failure over. -/
theorem heeds (h : Manned main n w) (hgoes : Goes w t a rest w₁ turn) (ha : a.helper = false)
    (hawait : ∀ f, a ≠ .awaitStart f) :
    rest = [] ∨ ∃ b left, rest = b :: left ∧ (b.failed = true ∨ b.heeds = true) := by
  have hcore := hgoes.core_self ha
  by_cases ht : t < n
  · by_cases hmain : t = main
    · subst hmain
      have hstage := h.stage
      generalize core (w.tasks t) = stack at hstage hcore
      cases hstage with
      | launching _ | here _ =>
          cases hcore
          exact .inr ⟨_, _, rfl, .inr rfl⟩
      | awaiting =>
          cases hcore
          exact absurd rfl (hawait _)
      | joined habove _ =>
          cases habove with
          | none =>
              cases hcore
              exact .inl rfl
          | all | one =>
              cases hcore
              exact .inr ⟨_, _, rfl, .inr rfl⟩
      | aborted habove _ _ =>
          cases habove with
          | none =>
              cases hcore
              exact .inl rfl
          | all =>
              cases hcore
              exact .inr ⟨_, _, rfl, .inl rfl⟩
          | one =>
              cases hcore
              exact .inr ⟨_, _, rfl, .inr rfl⟩
      | finished _ _ => cases hcore
      | _ =>
          cases hcore
          exact .inl rfl
    · rw [h.visitors t ht hmain] at hcore
      cases hcore
  · obtain hnone | ⟨f, m, p, hrun⟩ := h.flows t (Nat.le_of_not_lt ht)
    · rw [hgoes.tasks] at hnone
      cases hnone
    · rw [hcore] at hrun
      exact .inl (List.cons_eq_cons.mp hrun).2

/-- An error that ends an activity of the course is not lost. -/
theorem blamed_of_exit (h : Manned main n w) {e : Error}
    (hgoes : Goes w t a rest w₁ (.exit (.error e))) (ha : a.helper = false)
    (hawait : ∀ f, a ≠ .awaitStart f) : Blamed (w₁.turn t (.exit (.error e))) t := by
  have hself := hgoes.tasks_self
  rw [show (Turn.exit (.error e)).frames.map quiet ++ rest = rest from rfl] at hself
  obtain hrest | ⟨b, left, hrest, hb⟩ := h.heeds hgoes ha hawait
  · refine .returned (result?_exit hgoes.busy_before ?_ _)
    rw [hgoes.tasks_before]
    exact hrest
  · rw [hrest] at hself
    obtain hfailed | hheeds := hb
    · exact .knows (by rw [hself]; exact List.mem_cons_self ..) hfailed
    · exact .told hself hheeds hgoes.answerOf_self

theorem blamed_goes (h : Manned main n w) (hblamed : Blamed w u)
    (hgoes : Goes w t a rest w₁ turn) : Blamed (w₁.turn t turn) u := by
  have hmove (ha : a.failed = true ∨ a.heeds = true ∧ ∃ e, w.answerOf t = .error e) :
      Blamed (w₁.turn t turn) t := by
    obtain ⟨b, hb, hfailed⟩ | ⟨e, rfl⟩ := hgoes.moves.failed ha
    · refine .knows ?_ ((failed_quiet b).trans hfailed)
      rw [hgoes.tasks_self]
      exact List.mem_append_left _ (List.mem_map_of_mem hb)
    · refine h.blamed_of_exit hgoes (not_helper ha) ?_
      · intro f hsame
        subst hsame
        obtain hfailed | ⟨hheeds, _⟩ := ha
        · cases hfailed
        · cases hheeds
  by_cases hu : u = t
  · subst hu
    cases hblamed with
    | knows hb hfailed =>
        rw [hgoes.tasks] at hb
        obtain rfl | hb := List.mem_cons.mp hb
        · exact hmove (.inl ((failed_quiet a).symm.trans hfailed))
        · refine .knows ?_ hfailed
          rw [hgoes.tasks_self]
          exact List.mem_append_right _ hb
    | told htasks hheeds hanswer =>
        rw [hgoes.tasks] at htasks
        obtain ⟨rfl, _⟩ := List.cons_eq_cons.mp htasks
        exact hmove (.inr ⟨(heeds_quiet a).symm.trans hheeds, _, hanswer⟩)
    | returned hresult =>
        have hnone := h.results u _ hresult
        rw [hgoes.tasks] at hnone
        cases hnone
  · cases hblamed with
    | knows hb hfailed =>
        refine .knows ?_ hfailed
        rw [hgoes.tasks_of_busy hu (List.ne_nil_of_mem hb)]
        exact hb
    | told htasks hheeds hanswer =>
        have hbusy : w.tasks u ≠ [] := by
          rw [htasks]
          exact List.cons_ne_nil _ _
        exact .told ((hgoes.tasks_of_busy hu hbusy).trans htasks) hheeds
          ((hgoes.answerOf_of_ne hu).trans hanswer)
    | returned hresult =>
        exact .returned ((result?_turn_of_ne hu).trans ((hgoes.moves.result? u).trans hresult))

end Manned

/-- A failure is known to the thread that starts the set, or to one that it is still to join. -/
def Known (main : ThreadId) (w : World) : Prop :=
  Blamed w main ∨ ∃ f u, w.threadOf f = some u ∧ Blamed w u

theorem Known.goes (h : Known main w) (hmanned : Manned main n w)
    (hgoes : Goes w t a rest w₁ turn) : Known main (w₁.turn t turn) := by
  obtain hblamed | ⟨f, u, hthread, hblamed⟩ := h
  · exact .inl (hmanned.blamed_goes hblamed hgoes)
  · obtain hsame | ⟨rfl, _⟩ | ⟨u', out, rfl, rfl, _, hthread', hresult⟩ :=
      hgoes.moves.threadOf f
    · exact .inr ⟨f, u, hsame.trans hthread, hmanned.blamed_goes hblamed hgoes⟩
    · rw [(hmanned.idle_of_launch hgoes).2] at hthread
      cases hthread
    · -- the thread is joined, which tells its result to the one that joins it
      rw [hthread] at hthread'
      cases hthread'
      have hover := hmanned.results u out hresult
      cases hblamed with
      | knows hb _ =>
          rw [hover] at hb
          cases hb
      | told htasks _ _ =>
          rw [hover] at htasks
          cases htasks
      | returned herror =>
          rw [hresult] at herror
          cases herror
          have hmain := hmanned.eq_main hgoes rfl (by rintro _ _ _ ⟨⟩)
          subst hmain
          exact .inl (hmanned.blamed_of_exit hgoes rfl (by rintro _ ⟨⟩))

/-- Every announced failure is known. -/
def Reported (main : ThreadId) (w : World) : Prop :=
  ∀ name message, Event.flowFailed name message ∈ w.events → Known main w

theorem Blamed.calm (h : Blamed w u) (hcalm : Calm w w') : Blamed w' u := by
  cases h with
  | knows hb hfailed => exact .knows (by rw [tasks_of_jobs hcalm.jobs]; exact hb) hfailed
  | told htasks hheeds hanswer =>
      exact .told ((tasks_of_jobs hcalm.jobs u).trans htasks) hheeds
        ((answerOf_of_jobs hcalm.jobs u).trans hanswer)
  | returned hresult => exact .returned ((result?_of_jobs hcalm.jobs u).trans hresult)

theorem Known.calm (h : Known main w) (hcalm : Calm w w') : Known main w' := by
  obtain hmain | ⟨f, u, hthread, hu⟩ := h
  · exact .inl (hmain.calm hcalm)
  · refine .inr ⟨f, u, ?_, hu.calm hcalm⟩
    rw [threadOf_eq, hcalm.control, ← threadOf_eq]
    exact hthread

theorem Reported.calm (h : Reported main w) (hcalm : Calm w w') : Reported main w' :=
  fun name message hevent => (h name message ((hcalm.failures _ rfl).mp hevent)).calm hcalm

theorem Reported.goes (h : Reported main w) (hmanned : Manned main n w)
    (hgoes : Goes w t a rest w₁ turn) : Reported main (w₁.turn t turn) := by
  intro name message hevent
  have hstays (hbefore : Event.flowFailed name message ∈ w.events) :
      Known main (w₁.turn t turn) := (h name message hbefore).goes hmanned hgoes
  obtain hsame | ⟨_, _, _, _, _, _, _, rfl⟩ | ⟨f, m, e, _, rfl, rfl, _⟩ := hgoes.moves.announced
  · exact hstays ((hsame _ rfl).mp hevent)
  · obtain hbefore | heq := mem_events_emit.mp hevent
    · exact hstays hbefore
    · cases heq
  · have hself : Blamed (w₁.turn t (.next (.run f m (.decide (.error e))))) t := by
      refine .knows (a := .run f m (.decide (.error e))) ?_ rfl
      rw [hgoes.tasks_self]
      exact List.mem_cons_self ..
    by_cases hmain : t = main
    · exact .inl (hmain ▸ hself)
    · by_cases ht : t < n
      · have hcore := hgoes.core_self rfl
        rw [hmanned.visitors t ht hmain] at hcore
        cases hcore
      · obtain ⟨g, hg⟩ := hmanned.recorded t (Nat.le_of_not_lt ht) hgoes.busy
        exact .inr ⟨g, t, (hmanned.threadOf_of_ne hgoes hmain g).trans hg, hself⟩

end World
end PullFlow.Engine
