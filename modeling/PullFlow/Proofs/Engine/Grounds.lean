import PullFlow.Proofs.Engine.Blame

/-!
What a known failure goes back to. A thread comes by an error only where a run has announced that
its flow has failed, and where a flow is started after its stop.
-/

namespace PullFlow.Engine

/-- Whatever an activity takes a failure over from is no activity that any thread may be busy with,
and neither is the last activity of a stack. -/
def Guarded : List Activity → Prop
  | [] => True
  | [a] => a.helper = false
  | a :: b :: rest => (b.heeds = true → a.helper = false) ∧ Guarded (b :: rest)

variable {a b c : Activity} {rest : List Activity}

theorem heeds_plain (h : a.plain = true) : a.heeds = false := by
  cases a <;> first | rfl | cases h

theorem failed_plain (h : a.plain = true) : a.failed = false := by
  cases a <;> first | rfl | cases h

namespace Guarded

theorem exit (h : Guarded (a :: rest)) : Guarded rest := by
  cases rest with
  | nil => trivial
  | cons b rest => exact h.2

theorem goto (h : Guarded (a :: rest)) (hb : a.helper = false → b.helper = false) :
    Guarded (b :: rest) := by
  cases rest with
  | nil => exact hb h
  | cons c rest => exact ⟨fun hheeds => hb (h.1 hheeds), h.2⟩

theorem invoke (h : Guarded (a :: rest)) (hb : a.helper = false → b.helper = false)
    (hc : b.heeds = true → c.helper = false) : Guarded (c :: b :: rest) :=
  ⟨hc, h.goto hb⟩

/-- An activity that ends with an error which is taken over. -/
theorem not_helper (h : Guarded (a :: rest)) (hrest : ∀ b left, rest = b :: left → b.heeds = true) :
    a.helper = false := by
  cases rest with
  | nil => exact h
  | cons b left => exact h.1 (hrest b left rfl)

end Guarded

namespace World

/-- A flow is to be started after its stop. -/
inductive Late (w : World) : Activity → Prop
  | stopped {f : FlowId} {cell : FlowCell} : w.flow? f = some cell → cell.state ≠ .wired →
      Late w (.launch f false)
  | taken {f : FlowId} {cell : FlowCell} : w.flow? f = some cell → cell.parked = none →
      Late w (.launch f true)

variable {w w' w₁ : World} {main n t u : ThreadId} {turn : Turn} {answer : Outcome}
  {trace : List Taken}

theorem Moves.guarded (h : Moves w answer a w₁ turn) (hguarded : Guarded (quiet a :: rest))
    (hset : a ≠ .runAll .begin) : Guarded (turn.frames.map quiet ++ rest) := by
  have hplain {c : Activity} (hc : c.plain = true) : (quiet c).helper = true :=
    (helper_quiet c).trans (helper_plain hc)
  cases h with
  | plain ha _ hturn =>
      have hnot {p : Prop} (hfalse : (quiet a).helper = false) : p := by
        rw [hplain ha] at hfalse
        cases hfalse
      cases turn with
      | goto b out => exact hguarded.goto hnot
      | invoke callee back =>
          refine hguarded.invoke hnot fun hheeds => ?_
          rw [heeds_quiet, heeds_plain hturn.2] at hheeds
          cases hheeds
      | exit out => exact hguarded.exit
  | setUp => exact absurd rfl hset
  | swap | finishOn | runOn | runPass | runReport | runFail | runDecide | runPark | runRetake
  | launchOn | launchHere | launchEnd | launched | awaitEnd | ready =>
      exact hguarded.goto fun hnot => hnot
  | joinNext | launchNext | joinStart => exact hguarded.invoke (fun hnot => hnot) fun _ => rfl
  | finishEnd | stopBegin | stopFirst | stopTake | stopNext | runAsk | runAbandon | runEnding
  | runRelease | runFinish | runTake | launchAbort | abortJoin | awaitNext | joinStop | notReady =>
      refine hguarded.invoke (fun hnot => hnot) fun hheeds => ?_
      cases hheeds
  | _ => exact hguarded.exit

theorem not_failed_asked (h : Asked w b) : b.failed = false := by
  cases h with
  | plain hplain => exact failed_plain hplain
  | stopAll => rfl
  | advance _ _ => rfl

theorem not_failed_run {p : RunPoint} (f : FlowId) (m : Monitor) (h : p.end? = none) :
    (Activity.run f m p).failed = false := by
  simp [Activity.failed, h]

theorem not_runAll_plain {p : RunAllPoint} (h : b.plain = true) : b ≠ .runAll p := by
  intro hsame
  subst hsame
  cases h

/-- The set is set up by a run of the set only. -/
theorem Moves.not_runAll (h : Moves w answer a w₁ turn) (ha : ∀ p, a ≠ .runAll p)
    (p : RunAllPoint) : .runAll p ∉ turn.frames := by
  cases h with
  | @plain _ _ turn _ _ hturn =>
      cases turn with
      | goto c out => simpa [Turn.frames] using Ne.symm (not_runAll_plain hturn)
      | invoke callee back =>
          obtain ⟨hasked, hback⟩ := hturn
          have hcallee : callee ≠ .runAll p := by
            intro hsame
            subst hsame
            cases hasked with
            | plain hplain => cases hplain
          simpa [Turn.frames] using ⟨hcallee.symm, Ne.symm (not_runAll_plain hback)⟩
      | exit out => simp [Turn.frames]
  | runAsk _ _ hserved _ =>
      obtain hplain | rfl := hserved
      · simpa [Turn.frames] using Ne.symm (not_runAll_plain hplain)
      · simp [Turn.frames]
  | setUp | ready _ | notReady _ | setUpStopped => exact absurd rfl (ha _)
  | _ => simp [Turn.frames, Turn.next, Turn.done, Turn.ofDone]

/-- An activity comes to know of a failure from one that knew of it or was told of it, or as a
flow has failed. -/
theorem Moves.failed_before (h : Moves w answer a w₁ turn) :
    (∀ b ∈ turn.frames, b.failed = false) ∨
      (a.failed = true ∨ a.heeds = true ∧ ∃ e, answer = .error e) ∨
      ∃ name message, Event.flowFailed name message ∈ w₁.events := by
  cases h with
  | plain _ _ hturn =>
      refine .inl ?_
      cases turn with
      | goto c out => simpa [Turn.frames] using failed_plain hturn
      | invoke callee back =>
          simpa [Turn.frames] using ⟨not_failed_asked hturn.1, failed_plain hturn.2⟩
      | exit out => simp [Turn.frames]
  | @runOn f m m' _ _ _ _ _ hp _ => exact .inl (by simpa [Turn.frames] using not_failed_run f m' hp)
  | @runAsk f m _ _ _ _ _ hp hserved _ =>
      refine .inl ?_
      obtain hplain | rfl := hserved
      · simpa [Turn.frames] using ⟨failed_plain hplain, not_failed_run f m hp⟩
      · simpa [Turn.frames, Activity.failed] using not_failed_run f m hp
  | runFail _ => exact .inr (.inr ⟨_, _, mem_events_emit.mpr (.inr rfl)⟩)
  | @runDecide f m p p' hend _ _ =>
      cases hfailed : (Activity.run f m p').failed with
      | false => exact .inl (by simpa [Turn.frames, Turn.next] using hfailed)
      | true =>
          obtain ⟨e, he⟩ := failed_run.mp hfailed
          exact .inr (.inl (.inl (failed_run.mpr ⟨e, hend.trans he⟩)))
  | @runEnding f m d | @runRelease f m d | @runFinish f m d | @runTake f m _ d _ _ _ =>
      cases d with
      | ok v => exact .inl (by simp [Turn.frames, Activity.failed, RunPoint.end?])
      | error e => exact .inr (.inl (.inl rfl))
  | @runPark f m d | @runRetake f m d =>
      cases d with
      | ok v => exact .inl (by simp [Turn.frames, Turn.next, Activity.failed, RunPoint.end?])
      | error e => exact .inr (.inl (.inl rfl))
  | @joinNext f left failed joining =>
      cases failed with
      | error e => exact .inr (.inl (.inl rfl))
      | ok v =>
          cases joining with
          | false => exact .inl (by simp [Turn.frames, Activity.failed])
          | true =>
              cases hanswer : answer with
              | ok v =>
                  exact .inl (by
                    simp [Turn.frames, Activity.failed, firstFailure, Outcome.done, Except.map])
              | error e => exact .inr (.inl (.inr ⟨rfl, e, rfl⟩))
  | launchAbort hanswer | notReady hanswer => exact .inr (.inl (.inr ⟨rfl, _, hanswer⟩))
  | abortJoin => exact .inr (.inl (.inl rfl))
  | joinStop =>
      cases hanswer : answer with
      | ok v => exact .inl (by simp [Turn.frames, Activity.failed])
      | error e => exact .inr (.inl (.inr ⟨rfl, e, rfl⟩))
  | _ =>
      exact .inl (by
        simp [Turn.frames, Turn.next, Turn.done, Turn.ofDone, Activity.failed, RunPoint.end?])

/-- What takes failures over is not told of one before it has waited. -/
theorem Moves.answer_of_heeds (h : Moves w answer a w₁ turn) {frames : List Activity}
    (hframes : turn.frames = b :: frames) (hheeds : b.heeds = true) (e : Error) :
    turn.answer ≠ .error e := by
  cases h with
  | @plain _ _ turn _ _ hturn =>
      cases turn with
      | goto c out =>
          cases hframes
          rw [heeds_plain hturn] at hheeds
          cases hheeds
      | invoke callee back =>
          intro hsame
          cases hsame
      | exit out => cases hframes
  | runOn _ _ _ =>
      cases hframes
      cases hheeds
  | behind | announce _ | finished | stopLate _ | stopLeft _ _ | stopped | stopNone | runKeep _
  | runLeft _ _ | runOver | launchLate _ _ | launchLeft _ _ | launchThread _ _ | awaited
  | joinNone _ _ | joined _ _ _ | joinOver | aborted | allStopped | setUpStopped => cases hframes
  | _ =>
      intro hsame
      cases hsame

/-- Where an error that ends an activity of the course comes from. -/
theorem Moves.error_before {e : Error} (h : Moves w answer a w₁ (.exit (.error e)))
    (ha : a.helper = false) : (a.failed = true ∨ a.heeds = true ∧ ∃ e, answer = .error e) ∨
      w.Late a ∨ ∃ f u, a = .join f ∧ w.threadOf f = some u ∧ w.result? u = some (.error e) := by
  generalize hturn : Turn.exit (.error e) = turn at h
  have hdone {d : Done} (hd : Turn.exit (.error e) = .ofDone d) : d = .error e := by
    cases d <;> cases hd
    rfl
  cases h with
  | plain hplain =>
      rw [helper_plain hplain] at ha
      cases ha
  | runKeep _ | runLeft _ _ | runOver =>
      rw [hdone hturn]
      exact .inl (.inl rfl)
  | launchLate hcell hstate => exact .inr (.inl (.stopped hcell hstate))
  | launchLeft hcell hparked => exact .inr (.inl (.taken hcell hparked))
  | joined hcell hthread hresult =>
      cases hturn
      refine .inr (.inr ⟨_, _, rfl, ?_, hresult⟩)
      rw [World.threadOf, hcell]
      exact hthread
  | @joinOver failed joining =>
      have hfailed := hdone hturn
      cases failed with
      | error e' => exact .inl (.inl rfl)
      | ok v =>
          cases joining with
          | false => cases hfailed
          | true =>
              cases hanswer : answer with
              | ok v =>
                  rw [hanswer] at hfailed
                  cases hfailed
              | error e' => exact .inl (.inr ⟨rfl, e', rfl⟩)
  | aborted | setUpStopped => exact .inl (.inl rfl)
  | allStopped =>
      cases hturn
      exact .inl (.inl rfl)
  | behind | announce _ => cases ha
  | _ => cases hturn

/-- Why a failure can be known: a flow has failed, or was to be started after its stop. -/
def Grounds (trace : List Taken) (w : World) : Prop :=
  (∃ name message, Event.flowFailed name message ∈ w.events) ∨
    ∃ taken ∈ trace, taken.before.Late taken.activity

/-- The thread that starts the set and the threads of flows. -/
def Flowing (main n t : ThreadId) : Prop := t < n → t = main

/-- Every failure that is known has grounds. -/
structure Grounded (main n : ThreadId) (trace : List Taken) (w : World) : Prop where
  guarded : ∀ t, Flowing main n t → Guarded (w.tasks t)
  started : ∀ t p, .runAll p ∉ w.tasks t
  grounds : ∀ t, Flowing main n t → Blamed w t → Grounds trace w

theorem Grounds.goes (h : Grounds trace w) (hgoes : Goes w t a rest w₁ turn) :
    Grounds (⟨w, t, a⟩ :: trace) (w₁.turn t turn) := by
  obtain ⟨name, message, hevent⟩ | ⟨taken, htaken, hlate⟩ := h
  · exact .inl ⟨name, message, hgoes.moves.announced_before rfl hevent⟩
  · exact .inr ⟨taken, List.mem_cons_of_mem _ htaken, hlate⟩

/-- A thread that has not taken the turn knew before what it knows now. -/
theorem Goes.blamed_before (hgoes : Goes w t a rest w₁ turn) (hu : u ≠ t)
    (hblamed : Blamed (w₁.turn t turn) u) : Blamed w u := by
  cases hblamed with
  | knows hb hfailed =>
      obtain hsame | ⟨_, f, m, _, _, hnew⟩ := hgoes.tasks_of_ne hu
      · exact .knows (hsame ▸ hb) hfailed
      · rw [hnew] at hb
        rw [List.mem_singleton.mp hb] at hfailed
        cases hfailed
  | told htasks hheeds hanswer =>
      obtain hsame | ⟨_, f, m, _, _, hnew⟩ := hgoes.tasks_of_ne hu
      · exact .told (hsame.symm.trans htasks) hheeds
          ((hgoes.answerOf_of_ne hu).symm.trans hanswer)
      · rw [hnew] at htasks
        cases htasks
        cases hheeds
  | returned hresult =>
      rw [result?_turn_of_ne hu, hgoes.moves.result?] at hresult
      exact .returned hresult

namespace Grounded

theorem calm (h : Grounded main n trace w) (hcalm : Calm w w') : Grounded main n trace w' := by
  have htasks (t : ThreadId) : w'.tasks t = w.tasks t := tasks_of_jobs hcalm.jobs t
  refine ⟨fun t ht => ?_, fun t p => ?_, fun t ht hblamed => ?_⟩
  · rw [htasks]
    exact h.guarded t ht
  · rw [htasks]
    exact h.started t p
  · obtain ⟨name, message, hevent⟩ | hlate := h.grounds t ht (hblamed.calm hcalm.symm)
    · exact .inl ⟨name, message, (hcalm.failures _ rfl).mpr hevent⟩
    · exact .inr hlate

variable (h : Grounded main n trace w) (hgoes : Goes w t a rest w₁ turn)
include h hgoes

theorem not_runAll (p : RunAllPoint) : a ≠ .runAll p := by
  intro hsame
  subst hsame
  refine h.started t p ?_
  rw [hgoes.tasks]
  exact List.mem_cons_self ..

theorem guarded_goes (ht : Flowing main n u) : Guarded ((w₁.turn t turn).tasks u) := by
  by_cases hu : u = t
  · subst hu
    have hguarded := h.guarded u ht
    rw [hgoes.tasks] at hguarded
    rw [hgoes.tasks_self]
    exact hgoes.moves.guarded hguarded (h.not_runAll hgoes .begin)
  · obtain hsame | ⟨_, f, m, _, _, hnew⟩ := hgoes.tasks_of_ne hu
    · rw [hsame]
      exact h.guarded u ht
    · rw [hnew]
      exact rfl

theorem started_goes (p : RunAllPoint) : .runAll p ∉ (w₁.turn t turn).tasks u := by
  intro hmem
  by_cases hu : u = t
  · subst hu
    rw [hgoes.tasks_self] at hmem
    obtain hmem | hmem := List.mem_append.mp hmem
    · obtain ⟨b, hb, heq⟩ := List.mem_map.mp hmem
      have hb' := eq_of_quiet heq rfl
      subst hb'
      exact hgoes.moves.not_runAll (h.not_runAll hgoes) p hb
    · refine h.started u p ?_
      rw [hgoes.tasks]
      exact List.mem_cons_of_mem _ hmem
  · obtain hsame | ⟨_, f, m, _, _, hnew⟩ := hgoes.tasks_of_ne hu
    · rw [hsame] at hmem
      exact h.started u p hmem
    · rw [hnew] at hmem
      cases List.mem_singleton.mp hmem

/-- What the activity of a turn knew of or was told of. -/
theorem grounds_of_source (ht : Flowing main n t)
    (hsource : a.failed = true ∨ a.heeds = true ∧ ∃ e, w.answerOf t = .error e) :
    Grounds trace w := by
  refine h.grounds t ht ?_
  obtain hfailed | ⟨hheeds, e, hanswer⟩ := hsource
  · refine .knows ?_ ((failed_quiet a).trans hfailed)
    rw [hgoes.tasks]
    exact List.mem_cons_self ..
  · exact .told hgoes.tasks ((heeds_quiet a).trans hheeds) hanswer

/-- An error that ends an activity of a flowing thread. -/
theorem grounds_of_exit (hmanned : Manned main n w) (ht : Flowing main n t) {e : Error}
    (hturn : turn = .exit (.error e)) (ha : a.helper = false) :
    Grounds (⟨w, t, a⟩ :: trace) (w₁.turn t turn) := by
  subst hturn
  obtain hsource | hlate | ⟨f, u, rfl, hthread, hresult⟩ := hgoes.moves.error_before ha
  · exact (h.grounds_of_source hgoes ht hsource).goes hgoes
  · exact .inr ⟨_, List.mem_cons_self .., hlate⟩
  · -- the thread that is joined is one of a flow
    have hu : Flowing main n u := fun hlt =>
      absurd (hmanned.spawned f u hthread) (Nat.not_le.mpr hlt)
    exact (h.grounds u hu (.returned hresult)).goes hgoes

theorem grounds_goes (hmanned : Manned main n w) (ht : Flowing main n u)
    (hblamed : Blamed (w₁.turn t turn) u) : Grounds (⟨w, t, a⟩ :: trace) (w₁.turn t turn) := by
  by_cases hu : u = t
  · subst hu
    have hguarded := h.guarded u ht
    rw [hgoes.tasks] at hguarded
    have hexit {e : Error} (hturn : turn = .exit (.error e))
        (hrest : ∀ b left, rest = b :: left → b.heeds = true) :
        Grounds (⟨w, u, a⟩ :: trace) (w₁.turn u turn) := by
      refine h.grounds_of_exit hgoes hmanned ht hturn ?_
      exact (helper_quiet a).symm.trans (hguarded.not_helper hrest)
    -- What the thread knows now it has from the turn, or it lies below and was known before.
    cases hblamed with
    | knows hb hfailed =>
        rw [hgoes.tasks_self] at hb
        obtain hb | hb := List.mem_append.mp hb
        · obtain ⟨c, hc, rfl⟩ := List.mem_map.mp hb
          rw [failed_quiet] at hfailed
          obtain hnot | hsource | hevent := hgoes.moves.failed_before
          · rw [hnot c hc] at hfailed
            cases hfailed
          · exact (h.grounds_of_source hgoes ht hsource).goes hgoes
          · exact .inl hevent
        · refine (h.grounds u ht (.knows ?_ hfailed)).goes hgoes
          rw [hgoes.tasks]
          exact List.mem_cons_of_mem _ hb
    | @told b left e htasks hheeds hanswer =>
        rw [hgoes.tasks_self] at htasks
        rw [hgoes.answerOf_self] at hanswer
        cases turn with
        | exit out =>
            cases hanswer
            refine hexit rfl fun c left' hrest => ?_
            have hrest' : rest = b :: left := htasks
            rw [hrest] at hrest'
            cases hrest'
            exact hheeds
        | goto c out =>
            obtain ⟨rfl, _⟩ := List.cons_eq_cons.mp htasks
            rw [heeds_quiet] at hheeds
            exact absurd hanswer (hgoes.moves.answer_of_heeds rfl hheeds e)
        | invoke callee back => cases hanswer
    | returned hresult =>
        obtain hsame | ⟨htail, out, hturn, hout⟩ := result?_turn_self hgoes.busy_before turn
        · rw [hsame, hgoes.moves.result?] at hresult
          have hover := hmanned.results u _ hresult
          rw [hgoes.tasks] at hover
          cases hover
        · rw [hgoes.tasks_before, List.tail_cons] at htail
          rw [hout] at hresult
          cases hresult
          refine hexit hturn fun b left hrest => ?_
          rw [htail] at hrest
          cases hrest
  · exact (h.grounds u ht (hgoes.blamed_before hu hblamed)).goes hgoes

theorem goes (hmanned : Manned main n w) :
    Grounded main n (⟨w, t, a⟩ :: trace) (w₁.turn t turn) :=
  ⟨fun _ ht => h.guarded_goes hgoes ht, fun _ p => h.started_goes hgoes p,
    fun _ ht hblamed => h.grounds_goes hgoes hmanned ht hblamed⟩

end Grounded

end World
end PullFlow.Engine
