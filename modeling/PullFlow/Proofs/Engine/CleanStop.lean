import PullFlow.Proofs.Engine.Completion
import PullFlow.Proofs.Engine.Grounds
import PullFlow.Proofs.Engine.Verdict

/-!
When a stop is a clean end. The components of the flows do not fail on their own, so an error is a
wait that the closing of a scope broke off, or the start of a flow that a stop has overtaken. The
run of a set that is stopped succeeds and announces no failure exactly if three mishaps do not
happen: a flow is started after its stop; a broken-off wait ends the run of a flow that is not yet
to stop; a loop reports a broken-off wait, because its flow is not yet asked to stop or because it
was pushing.
-/

namespace PullFlow.Engine

/-- A run that is about to announce that its flow has failed. -/
inductive Condemned : List Activity → Prop
  | run {f : FlowId} {m : Monitor} {e : Error} {rest : List Activity} :
      Condemned (.run f m (.fail (.error e)) :: rest)

/-- A run that is about to report an error. -/
inductive Complains (answer : Outcome) : List Activity → Prop
  | asks {f : FlowId} {m : Monitor} {e : Error} {rest : List Activity} :
      MonitorBody.yes answer = false → Complains answer (.run f m (.acting (.judging e)) :: rest)
  | reports {f : FlowId} {m : Monitor} {e : Error} {wait : MonitorWait} {rest : List Activity} :
      Complains answer (.run f m (.drive (.act (.report e) wait)) :: rest)

/-- The error that the end of a monitor comes with. -/
def RunPoint.ends? : RunPoint → Option Error
  | .judge (.error e) | .drive (.finish (.error e)) => some e
  | _ => none

theorem ends_of_waits {p : RunPoint} (h : p.waits = true) : p.ends? = none := by
  cases p <;> first | rfl | cases h

theorem ends_of_tame {p : RunPoint} (h : p.tame = true) : p.ends? = none := by
  cases p with
  | judge d =>
      cases d with
      | ok v => rfl
      | error e => cases h
  | drive move =>
      cases move with
      | act action wait => rfl
      | finish d =>
          cases d with
          | ok v => rfl
          | error e => cases h
  | _ => rfl

namespace World

/-- A broken-off wait ends the run of a flow that is not to stop. -/
inductive Broken (w : World) : Activity → Prop
  | run {f : FlowId} {m : Monitor} {key : String} : w.stopping f = false →
      Broken w (.run f m (.judge (.error (.interrupted key))))

/-- A loop comes to report a broken-off wait. -/
inductive Complained (w : World) (t : ThreadId) : Activity → Prop
  /-- Its flow is not asked to stop. -/
  | read {f : FlowId} {m : Monitor} {cell : FlowCell} {e : Error} : w.flow? f = some cell →
      cell.stopped = false → Complained w t (.run f m (.drive (.act .stopped (.judging e))))
  /-- A push does not ask. -/
  | push {f : FlowId} {m : Monitor} {key : String} : w.answerOf t = .error (.interrupted key) →
      Complained w t (.run f m (.acting .forwarded))

/-- A component fails on its own. -/
def Taken.Fails (taken : Taken) : Prop := taken.before.Fails taken.thread taken.activity

/-- A turn in which a stop comes to look like a failure. -/
def Taken.Mishap (taken : Taken) : Prop :=
  taken.before.Late taken.activity ∨ taken.before.Broken taken.activity ∨
    taken.before.Complained taken.thread taken.activity

variable {start w w' w₁ : World} {main n t u : ThreadId} {trace : List Taken} {a : Activity}
  {rest : List Activity} {turn : Turn} {out : Outcome}

/-- What is known of the errors in every state of a run without failures of the components. -/
structure Tried (trace : List Taken) (w : World) : Prop where
  apt : ∀ t, Apt (w.tasks t)
  ends : ∀ t f m p rest e, w.tasks t = .run f m p :: rest → p.ends? = some e →
    ∃ key, e = .interrupted key
  failed : (∃ taken ∈ trace, taken.before.Broken taken.activity) ↔
    (∃ name message, Event.flowFailed name message ∈ w.events) ∨ ∃ t, Condemned (w.tasks t)
  reported : (∃ taken ∈ trace, taken.before.Complained taken.thread taken.activity) ↔
    (∃ name message, Event.pullFailed name message ∈ w.events) ∨
      ∃ t, Complains (w.answerOf t) (w.tasks t)

theorem Tried.calm (h : Tried trace w) (hcalm : Calm w w') : Tried trace w' := by
  have htasks (t : ThreadId) : w'.tasks t = w.tasks t := tasks_of_jobs hcalm.jobs t
  have hanswer (t : ThreadId) : w'.answerOf t = w.answerOf t := answerOf_of_jobs hcalm.jobs t
  constructor
  · intro t
    rw [htasks]
    exact h.apt t
  · intro t
    rw [htasks]
    exact h.ends t
  · simp only [htasks, hcalm.failures (.flowFailed _ _) rfl]
    exact h.failed
  · simp only [htasks, hanswer, hcalm.failures (.pullFailed _ _) rfl]
    exact h.reported

theorem tried_of_no_run (htasks : ∀ t, ∀ f m p, .run f m p ∉ w.tasks t)
    (hevents : ∀ event ∈ w.events, event.failure = false) : Tried [] w := by
  have hrun {t : ThreadId} {f : FlowId} {m : Monitor} {p : RunPoint} {rest : List Activity}
      (heq : w.tasks t = .run f m p :: rest) : False := by
    refine htasks t f m p ?_
    rw [heq]
    exact List.mem_cons_self ..
  have hevent {event : Event} (hmem : event ∈ w.events) (hfailure : event.failure = true) :
      False := by
    rw [hevents event hmem] at hfailure
    cases hfailure
  constructor
  · intro t
    exact ⟨fun f m p hmem => absurd (List.mem_of_mem_tail hmem) (htasks t f m p),
      fun f m p rest heq => (hrun heq).elim⟩
  · intro t f m p rest e heq
    exact (hrun heq).elim
  · constructor
    · intro hcase
      obtain ⟨_, ⟨⟩, _⟩ := hcase
    · intro hcase
      obtain ⟨name, message, hmem⟩ | ⟨t, ht⟩ := hcase
      · exact (hevent hmem rfl).elim
      · generalize htasks : w.tasks t = stack at ht
        cases ht with
        | run => exact (hrun htasks).elim
  · constructor
    · intro hcase
      obtain ⟨_, ⟨⟩, _⟩ := hcase
    · intro hcase
      obtain ⟨name, message, hmem⟩ | ⟨t, ht⟩ := hcase
      · exact (hevent hmem rfl).elim
      · generalize htasks : w.tasks t = stack at ht
        cases ht with
        | asks _ => exact (hrun htasks).elim
        | reports => exact (hrun htasks).elim

theorem interrupted_of_answer {f : FlowId} {m : Monitor} {wait : MonitorWait} {e : Error}
    (hown : ¬ Fails w t (.run f m (.acting wait))) (hanswer : w.answerOf t = .error e) :
    ∃ key, e = .interrupted key := by
  refine Classical.byContradiction fun hnot => hown (.action hanswer fun key hkey => ?_)
  exact hnot ⟨key, hkey⟩

/-- A condemned run stays so until it announces that its flow has failed. -/
theorem condemned_goes (hu : Condemned (w.tasks u)) (hgoes : Goes w t a rest w₁ turn) :
    (∃ name message, Event.flowFailed name message ∈ (w₁.turn t turn).events) ∨
      ∃ u, Condemned ((w₁.turn t turn).tasks u) := by
  by_cases hut : u = t
  · subst hut
    rw [hgoes.tasks] at hu
    generalize hstack : quiet a :: rest = stack at hu
    cases hu with
    | run =>
        have ha := eq_of_quiet (List.cons_eq_cons.mp hstack).1 rfl
        subst ha
        obtain ⟨cell, _, hrun⟩ := Option.map_eq_some_iff.mp (run_of_goes hgoes)
        cases hrun
        exact .inl ⟨_, _, mem_events_emit.mpr (.inr rfl)⟩
  · have hbusy : w.tasks u ≠ [] := by
      intro hnone
      rw [hnone] at hu
      cases hu
    refine .inr ⟨u, ?_⟩
    rw [hgoes.tasks_of_busy hut hbusy]
    exact hu

/-- A run that is to report an error stays so until it has reported it. -/
theorem complains_goes (hu : Complains (w.answerOf u) (w.tasks u))
    (hgoes : Goes w t a rest w₁ turn) :
    (∃ name message, Event.pullFailed name message ∈ (w₁.turn t turn).events) ∨
      ∃ u, Complains ((w₁.turn t turn).answerOf u) ((w₁.turn t turn).tasks u) := by
  by_cases hut : u = t
  · subst hut
    rw [hgoes.tasks] at hu
    generalize hstack : quiet a :: rest = stack at hu
    cases hu with
    | asks hno =>
        have ha := eq_of_quiet (List.cons_eq_cons.mp hstack).1 rfl
        subst ha
        have hrun := run_of_goes hgoes
        simp only [run, MonitorBody.resume, hno, Option.some.injEq, Prod.mk.injEq] at hrun
        refine .inr ⟨u, ?_⟩
        rw [hgoes.tasks_self, ← hrun.2]
        exact .reports
    | reports =>
        have ha := eq_of_quiet (List.cons_eq_cons.mp hstack).1 rfl
        subst ha
        obtain ⟨cell, _, hrun⟩ := Option.bind_eq_some_iff.mp (run_of_goes hgoes)
        cases hrun
        exact .inl ⟨_, _, mem_events_emit.mpr (.inr rfl)⟩
  · have hbusy : w.tasks u ≠ [] := by
      intro hnone
      rw [hnone] at hu
      cases hu
    refine .inr ⟨u, ?_⟩
    rw [hgoes.tasks_of_busy hut hbusy, hgoes.answerOf_of_ne hut]
    exact hu

namespace Tried

variable (h : Tried trace w) (hgoes : Goes w t a rest w₁ turn) (hown : ¬ Fails w t a)
include h hgoes hown

/-- An error that ends a monitor is a broken-off wait. -/
theorem ends_goes {f : FlowId} {m : Monitor} {p : RunPoint} {rest' : List Activity} {e : Error}
    (hhead : (w₁.turn t turn).tasks u = .run f m p :: rest') (hends : p.ends? = some e) :
    ∃ key, e = .interrupted key := by
  by_cases hu : u = t
  · subst hu
    obtain hwaits | rfl | ⟨m', p', rfl, hleads⟩ := hgoes.head (h.apt u) hhead
    · rw [ends_of_waits hwaits] at hends
      cases hends
    · cases hends
    · generalize (w₁.turn u turn).answerOf u = out at hleads
      cases hleads with
      | tame htame =>
          rw [ends_of_tame htame] at hends
          cases hends
      | fails hfails => exact absurd hfails hown
      | answered hanswer =>
          cases hends
          exact interrupted_of_answer hown hanswer
      | finished =>
          cases hends
          exact h.ends u f m' _ rest e hgoes.tasks rfl
      | _ => cases hends
  · obtain hsame | ⟨_, g, m', _, _, hnew⟩ := hgoes.tasks_of_ne hu
    · rw [hsame] at hhead
      exact h.ends u f m p rest' e hhead hends
    · rw [hnew] at hhead
      cases hhead
      cases hends

/-- A run is condemned by a broken-off wait. -/
theorem condemned_before (hu : Condemned ((w₁.turn t turn).tasks u)) :
    w.Broken a ∨ ∃ u, Condemned (w.tasks u) := by
  by_cases hut : u = t
  · subst hut
    generalize hhead : (w₁.turn u turn).tasks u = stack at hu
    cases hu with
    | @run f m e rest' =>
        obtain hwaits | hlock | ⟨m', p', rfl, hleads⟩ := hgoes.head (h.apt u) hhead
        · cases hwaits
        · cases hlock
        · generalize (w₁.turn u turn).answerOf u = out at hleads
          cases hleads with
          | tame htame => cases htame
          | fails hfails => exact absurd hfails hown
          | @judged d _ _ hjudged =>
              cases d with
              | ok v => cases hjudged
              | error e' =>
                  obtain ⟨key, rfl⟩ := h.ends u f m' _ rest e' hgoes.tasks rfl
                  cases hstopping : w.stopping f with
                  | false => exact .inl (.run hstopping)
                  | true => simp [judged, hstopping] at hjudged
  · obtain hsame | ⟨_, g, m', _, _, hnew⟩ := hgoes.tasks_of_ne hut
    · rw [hsame] at hu
      exact .inr ⟨u, hu⟩
    · rw [hnew] at hu
      cases hu

/-- A flow fails where a broken-off wait has ended its run too early, and nowhere else. -/
theorem failed_goes :
    (∃ taken ∈ ⟨w, t, a⟩ :: trace, taken.before.Broken taken.activity) ↔
      (∃ name message, Event.flowFailed name message ∈ (w₁.turn t turn).events) ∨
        ∃ u, Condemned ((w₁.turn t turn).tasks u) := by
  simp only [List.mem_cons, exists_eq_or_imp]
  constructor
  · intro hcase
    obtain hbroken | hbefore := hcase
    · refine .inr ⟨t, ?_⟩
      rw [hgoes.tasks_self]
      cases hbroken with
      | run hstopping =>
          have hrun := run_of_goes hgoes
          simp only [run, judged, hstopping, Option.some.injEq, Prod.mk.injEq] at hrun
          rw [← hrun.2]
          exact .run
    · obtain ⟨name, message, hevent⟩ | ⟨u, hu⟩ := h.failed.mp hbefore
      · exact .inl ⟨name, message, hgoes.moves.announced_before rfl hevent⟩
      · exact condemned_goes hu hgoes
  · have hbefore (hu : ∃ u, Condemned (w.tasks u)) :
        w.Broken a ∨ ∃ taken ∈ trace, taken.before.Broken taken.activity :=
      .inr (h.failed.mpr (.inr hu))
    intro hcase
    obtain ⟨name, message, hevent⟩ | ⟨u, hu⟩ := hcase
    · have hkept (hevent : Event.flowFailed name message ∈ w.events) :
          w.Broken a ∨ ∃ taken ∈ trace, taken.before.Broken taken.activity :=
        .inr (h.failed.mpr (.inl ⟨name, message, hevent⟩))
      obtain hsame | ⟨_, _, _, _, _, _, _, rfl⟩ | ⟨f, m, e, _, rfl, _, _⟩ := hgoes.moves.announced
      · exact hkept ((hsame _ rfl).mp hevent)
      · obtain hevent | heq := mem_events_emit.mp hevent
        · exact hkept hevent
        · cases heq
      · refine hbefore ⟨t, ?_⟩
        rw [hgoes.tasks]
        exact .run
    · obtain hbroken | hu := h.condemned_before hgoes hown hu
      · exact .inl hbroken
      · exact hbefore hu

/-- A complaint comes from a broken-off wait. -/
theorem complains_before
    (hu : Complains ((w₁.turn t turn).answerOf u) ((w₁.turn t turn).tasks u)) :
    w.Complained t a ∨ ∃ u, Complains (w.answerOf u) (w.tasks u) := by
  by_cases hut : u = t
  · subst hut
    have hhead {f : FlowId} {m : Monitor} {p : RunPoint} {rest' : List Activity}
        (hhead : (w₁.turn u turn).tasks u = .run f m p :: rest') (hwaits : p.waits = false)
        (hlock : p ≠ .lock) : ∃ m' p', a = .run f m' p' ∧
          Leads w u f m' p' p ((w₁.turn u turn).answerOf u) := by
      obtain hwaits' | hlock' | hleads := hgoes.head (h.apt u) hhead
      · rw [hwaits] at hwaits'
        cases hwaits'
      · exact absurd hlock' hlock
      · exact hleads
    generalize htasks : (w₁.turn u turn).tasks u = stack at hu
    generalize (w₁.turn u turn).answerOf u = out at hu hhead
    cases hu with
    | asks hno =>
        obtain ⟨m', p', rfl, hleads⟩ := hhead htasks rfl (by rintro ⟨⟩)
        cases hleads with
        | tame htame => cases htame
        | fails hfails => exact absurd hfails hown
        | @asked _ cell hcell =>
            cases hstopped : cell.stopped with
            | false => exact .inl (.read hcell hstopped)
            | true =>
                rw [hstopped] at hno
                cases hno
    | reports =>
        obtain ⟨m', p', rfl, hleads⟩ := hhead htasks rfl (by rintro ⟨⟩)
        cases hleads with
        | tame htame => cases htame
        | fails hfails => exact absurd hfails hown
        | unstopped hno =>
            refine .inr ⟨u, ?_⟩
            rw [hgoes.tasks]
            exact .asks hno
        | @push e _ hanswer =>
            obtain ⟨key, rfl⟩ := interrupted_of_answer hown hanswer
            exact .inl (.push hanswer)
  · obtain hsame | ⟨_, g, m', _, _, hnew⟩ := hgoes.tasks_of_ne hut
    · rw [hsame, hgoes.answerOf_of_ne hut] at hu
      exact .inr ⟨u, hu⟩
    · rw [hnew] at hu
      cases hu

/-- An error is reported where a loop has complained, and nowhere else. -/
theorem reported_goes :
    (∃ taken ∈ ⟨w, t, a⟩ :: trace, taken.before.Complained taken.thread taken.activity) ↔
      (∃ name message, Event.pullFailed name message ∈ (w₁.turn t turn).events) ∨
        ∃ u, Complains ((w₁.turn t turn).answerOf u) ((w₁.turn t turn).tasks u) := by
  simp only [List.mem_cons, exists_eq_or_imp]
  constructor
  · intro hcase
    obtain hcomplained | hbefore := hcase
    · refine .inr ⟨t, ?_⟩
      rw [hgoes.tasks_self, hgoes.answerOf_self]
      cases hcomplained with
      | read hcell hstopped =>
          have hrun := run_of_goes hgoes
          simp only [run, drive, hcell, hstopped, Option.bind_some, Option.some.injEq,
            Prod.mk.injEq] at hrun
          rw [← hrun.2]
          exact .asks rfl
      | push hanswer =>
          have hrun := run_of_goes hgoes
          simp only [run, MonitorBody.resume, hanswer, Option.some.injEq, Prod.mk.injEq] at hrun
          rw [← hrun.2]
          exact .reports
    · obtain ⟨name, message, hevent⟩ | ⟨u, hu⟩ := h.reported.mp hbefore
      · exact .inl ⟨name, message, hgoes.moves.announced_before rfl hevent⟩
      · exact complains_goes hu hgoes
  · have hbefore (hu : ∃ u, Complains (w.answerOf u) (w.tasks u)) : w.Complained t a ∨
        ∃ taken ∈ trace, taken.before.Complained taken.thread taken.activity :=
      .inr (h.reported.mpr (.inr hu))
    intro hcase
    obtain ⟨name, message, hevent⟩ | ⟨u, hu⟩ := hcase
    · have hkept (hevent : Event.pullFailed name message ∈ w.events) : w.Complained t a ∨
          ∃ taken ∈ trace, taken.before.Complained taken.thread taken.activity :=
        .inr (h.reported.mpr (.inl ⟨name, message, hevent⟩))
      obtain hsame | ⟨f, m, e, _, _, rfl, _, _⟩ | ⟨_, _, _, _, _, _, rfl⟩ := hgoes.moves.announced
      · exact hkept ((hsame _ rfl).mp hevent)
      · refine hbefore ⟨t, ?_⟩
        rw [hgoes.tasks]
        exact .reports
      · obtain hevent | heq := mem_events_emit.mp hevent
        · exact hkept hevent
        · cases heq
    · obtain hcomplained | hu := h.complains_before hgoes hown hu
      · exact .inl hcomplained
      · exact hbefore hu

theorem goes : Tried (⟨w, t, a⟩ :: trace) (w₁.turn t turn) :=
  ⟨Apt.goes h.apt hgoes hown, fun _ _ _ _ _ _ hhead hends => h.ends_goes hgoes hown hhead hends,
    h.failed_goes hgoes hown, h.reported_goes hgoes hown⟩

end Tried

/-- A flow that is to be started after its stop is not started. -/
theorem Moves.exit_of_late {answer : Outcome} (h : Moves w answer a w₁ turn) (hlate : w.Late a) :
    ∃ e, turn = .exit (.error e) := by
  cases hlate with
  | stopped hcell hstate =>
      cases h with
      | plain hplain => cases hplain
      | launchOn hcell' hwired =>
          rw [hcell] at hcell'
          cases hcell'
          exact absurd hwired hstate
      | launchLate _ _ => exact ⟨_, rfl⟩
  | taken hcell hnone =>
      cases h with
      | plain hplain => cases hplain
      | launchLeft _ _ => exact ⟨_, rfl⟩
      | launchThread hcell' hparked | launchHere hcell' hparked =>
          rw [hcell] at hcell'
          cases hcell'
          rw [hnone] at hparked
          cases hparked

/-- What holds in every state of a run of a set that is set up. -/
structure Played (main n : ThreadId) (trace : List Taken) (w : World) : Prop where
  manned : Manned main n w
  reported : Reported main w
  late : (∃ taken ∈ trace, taken.before.Late taken.activity) → Known main w
  grounded : Grounded main n trace w
  tried : (∀ taken ∈ trace, ¬ taken.Fails) → Tried trace w

namespace Played

theorem calm (h : Played main n trace w) (hcalm : Calm w w') : Played main n trace w' :=
  ⟨h.manned.calm hcalm, h.reported.calm hcalm, fun hlate => (h.late hlate).calm hcalm,
    h.grounded.calm hcalm, fun hown => (h.tried hown).calm hcalm⟩

theorem goes (h : Played main n trace w) (hgoes : Goes w t a rest w₁ turn) :
    Played main n (⟨w, t, a⟩ :: trace) (w₁.turn t turn) := by
  refine ⟨h.manned.goes hgoes, h.reported.goes h.manned hgoes, ?_,
    h.grounded.goes hgoes h.manned, ?_⟩
  · intro hcase
    obtain ⟨taken, htaken, hlate⟩ := hcase
    obtain rfl | htaken := List.mem_cons.mp htaken
    · have hlate : w.Late a := hlate
      obtain ⟨e, rfl⟩ := hgoes.moves.exit_of_late hlate
      have hhelper : a.helper = false := by cases hlate <;> rfl
      have hmain := h.manned.eq_main hgoes hhelper (by rintro _ _ _ rfl; cases hlate)
      subst hmain
      exact .inl (h.manned.blamed_of_exit hgoes hhelper (by rintro _ rfl; cases hlate))
    · exact (h.late ⟨taken, htaken, hlate⟩).goes h.manned hgoes
  · intro hown
    refine (h.tried fun taken htaken => hown taken (List.mem_cons_of_mem _ htaken)).goes hgoes ?_
    exact hown _ (List.mem_cons_self ..)

end Played

theorem Gathered.played {start : World}
    (h : Gathered main (.startAll (.launch start.set)) start) :
    Played main start.threads.length [] start := by
  have hmanned : Manned main start.threads.length start :=
    h.manned rfl (.launch ⟨h.nodup, fun _ hf => hf, fun f _ => h.idle f⟩)
  have htasks := h.tasks_main rfl
  have hflowing {t : ThreadId} (ht : Flowing main start.threads.length t) :
      t = main ∨ start.tasks t = [] := by
    by_cases hlt : t < start.threads.length
    · exact .inl (ht hlt)
    · refine .inr ?_
      rw [tasks, List.getElem?_eq_none (by rw [length_jobs]; exact Nat.le_of_not_lt hlt)]
  refine ⟨hmanned, ?_, ?_, ⟨?_, ?_, ?_⟩, fun _ => ?_⟩
  · intro name message hevent
    have hnot := h.unfailed _ hevent
    cases hnot
  · intro hcase
    obtain ⟨_, ⟨⟩, _⟩ := hcase
  · intro t ht
    obtain rfl | hnone := hflowing ht
    · rw [htasks]
      exact rfl
    · rw [hnone]
      trivial
  · intro t p hmem
    obtain heq | hstops := h.cases rfl hmem
    · cases heq
    · cases hstops
  · exact fun t _ hblamed => absurd hblamed (h.not_blamed rfl rfl rfl)
  · refine tried_of_no_run (fun t f m p hmem => ?_) h.unfailed
    obtain heq | hstops := h.cases rfl hmem
    · cases heq
    · cases hstops

theorem Run.played (h : Run start trace w)
    (hstart : Gathered main (.startAll (.launch start.set)) start) :
    Played main start.threads.length trace w :=
  Run.keep (P := fun trace w => Played main start.threads.length trace w) hstart.played
    (fun _ _ _ hcalm hplayed => hplayed.calm hcalm)
    (fun _ _ _ _ _ _ _ hgoes hplayed => hplayed.goes hgoes) h

namespace Played

/-- No run is under way when the thread that starts the set is over. -/
theorem no_run (h : Played main n trace w) (hmain : w.tasks main = []) {f : FlowId} {m : Monitor}
    {p : RunPoint} : w.tasks t ≠ .run f m p :: rest := by
  intro htasks
  by_cases ht : t < n
  · by_cases heq : t = main
    · rw [heq, hmain] at htasks
      cases htasks
    · have hcore := h.manned.visitors t ht heq
      rw [htasks] at hcore
      cases hcore
  · rw [h.manned.idle_of_over hmain (Nat.le_of_not_lt ht)] at htasks
    cases htasks

/-- What has become known is the result when the thread that starts the set is over. -/
theorem known_iff (h : Played main n trace w) (hmain : w.result? main = some out) :
    Known main w ↔ ∃ e, out = .error e := by
  have hover := h.manned.results main out hmain
  constructor
  · intro hcase
    obtain hblamed | ⟨f, u, hthread, _⟩ := hcase
    · cases hblamed with
      | knows hb _ =>
          rw [hover] at hb
          cases hb
      | told htasks _ _ =>
          rw [hover] at htasks
          cases htasks
      | returned herror =>
          rw [hmain] at herror
          exact ⟨_, Option.some_inj.mp herror⟩
    · rw [(h.manned.settled hover).2 f] at hthread
      cases hthread
  · intro hcase
    obtain ⟨e, rfl⟩ := hcase
    exact .inl (.returned hmain)

/-- A turn announces a failure at some time if it is a mishap other than a late start. -/
theorem announced_iff (h : Played main n trace w) (hown : ∀ taken ∈ trace, ¬ taken.Fails)
    (hmain : w.tasks main = []) :
    ((∃ taken ∈ trace, taken.before.Broken taken.activity) ↔
      ∃ name message, Event.flowFailed name message ∈ w.events) ∧
    ((∃ taken ∈ trace, taken.before.Complained taken.thread taken.activity) ↔
      ∃ name message, Event.pullFailed name message ∈ w.events) := by
  have htried := h.tried hown
  constructor
  · refine htried.failed.trans (or_iff_left ?_)
    intro hcase
    obtain ⟨t, ht⟩ := hcase
    generalize htasks : w.tasks t = stack at ht
    cases ht with
    | run => exact h.no_run hmain htasks
  · refine htried.reported.trans (or_iff_left ?_)
    intro hcase
    obtain ⟨t, ht⟩ := hcase
    generalize htasks : w.tasks t = stack at ht
    cases ht with
    | asks _ => exact h.no_run hmain htasks
    | reports => exact h.no_run hmain htasks

/-- The result is an error exactly if a flow has failed or was to be started after its stop. -/
theorem error_iff (h : Played main n trace w) (hmain : w.result? main = some out) :
    (∃ e, out = .error e) ↔ Grounds trace w := by
  rw [← h.known_iff hmain]
  constructor
  · intro hknown
    obtain ⟨e, rfl⟩ := (h.known_iff hmain).mp hknown
    exact h.grounded.grounds main (fun _ => rfl) (.returned hmain)
  · intro hcase
    obtain ⟨name, message, hevent⟩ | hlate := hcase
    · exact h.reported name message hevent
    · exact h.late hlate

end Played

/-- While no turn in a run of a set that is set up, whose components do not fail on their own, was a
mishap, no failure is announced and the set does not end with an error, however its flows are
stopped meanwhile. A run that ends like this had no mishap. -/
theorem clean_iff_no_mishap (hstart : Gathered main (.startAll (.launch start.set)) start)
    (hrun : Run start trace w) (hown : ∀ taken ∈ trace, ¬ taken.Fails) :
    ((∀ taken ∈ trace, ¬ taken.Mishap) →
      (∀ event ∈ w.events, event.failure = false) ∧
        ∀ out, w.result? main = some out → ∃ v, out = .ok v) ∧
    (∀ v, w.result? main = some (.ok v) → (∀ event ∈ w.events, event.failure = false) →
      ∀ taken ∈ trace, ¬ taken.Mishap) := by
  have hplayed := hrun.played hstart
  have htried := hplayed.tried hown
  constructor
  -- An announcement goes back to a mishap, and a result that is an error to one of the two.
  · intro hnone
    have hnofail (name message : String) : Event.flowFailed name message ∉ w.events := by
      intro hevent
      obtain ⟨taken, htaken, hbroke⟩ := htried.failed.mpr (.inl ⟨name, message, hevent⟩)
      exact hnone taken htaken (.inr (.inl hbroke))
    constructor
    · intro event hevent
      cases event with
      | pullFailed name message =>
          obtain ⟨taken, htaken, hcomplains⟩ := htried.reported.mpr (.inl ⟨name, message, hevent⟩)
          exact absurd (.inr (.inr hcomplains)) (hnone taken htaken)
      | flowFailed name message => exact absurd hevent (hnofail name message)
      | _ => rfl
    · intro out hmain
      cases out with
      | ok v => exact ⟨v, rfl⟩
      | error e =>
          obtain ⟨name, message, hevent⟩ | ⟨taken, htaken, hlate⟩ :=
            (hplayed.error_iff hmain).mp ⟨e, rfl⟩
          · exact absurd hevent (hnofail name message)
          · exact absurd (.inl hlate) (hnone taken htaken)
  -- With the starting thread over, no announcement is still to come.
  · intro v hmain hevents taken htaken hmishap
    have hover := hplayed.manned.results main _ hmain
    obtain ⟨hbroken, hcomplained⟩ := hplayed.announced_iff hown hover
    obtain hlate | hbroke | hcomplains := hmishap
    · obtain ⟨e, he⟩ := (hplayed.error_iff hmain).mpr (.inr ⟨taken, htaken, hlate⟩)
      cases he
    · obtain ⟨name, message, hevent⟩ := hbroken.mp ⟨taken, htaken, hbroke⟩
      have hnot := hevents _ hevent
      cases hnot
    · obtain ⟨name, message, hevent⟩ := hcomplained.mp ⟨taken, htaken, hcomplains⟩
      have hnot := hevents _ hevent
      cases hnot

/-- Two flows: `a` waits for a variable, and `b` reads the chain of `a` on demand. -/
def pairMade : Except Error World :=
  ofDrafts (fun _ => "")
    [⟨some "a", some (.make "var.get" (.var "" false none) ⟨[.literal (.text "x")], []⟩), [],
        some (.make Blueprint.flowKind (.flow "b" "" none .null false) ⟨[.flow "b"], []⟩), none⟩,
      ⟨some "b", some (.make "inflow" (.inflow false []) .none), [],
        some (.make "none" .none .none), some (.make "once" .once .none)⟩]
    Scope.Store.empty.addRoot.1 0

/-- The two flows once they are set up. -/
def pairReady : World :=
  (((pairMade.toOption.getD empty).opened (.runAll .begin) []).replay [] (List.replicate 78 0)).2

/-- One thread is to start the flows and another one is to stop them all. -/
def pair : World := pairReady.opened (.startAll (.launch pairReady.set)) [.stopAll pairReady.set]

/-- Both flows start, and `b` waits for the variable in the scope of `a`. -/
def pairWaits : List ThreadId := List.replicate 10 0 ++ List.replicate 7 2 ++ List.replicate 26 3

/-- Both flows are stopped before `b` goes on. -/
def pairClean : List Taken × World :=
  pair.replay [] (pairWaits ++ List.replicate 23 1 ++ List.replicate 31 3 ++ List.replicate 41 2 ++
    List.replicate 21 0)

/-- The stop of `a` breaks off the wait of `b`, whose own stop comes too late. -/
def pairFailed : List Taken × World :=
  pair.replay [] (pairWaits ++ List.replicate 10 1 ++ List.replicate 37 3 ++ List.replicate 6 1 ++
    List.replicate 41 2 ++ List.replicate 21 0)

theorem pair_gathered : Gathered 0 (.startAll (.launch pair.set)) pair := by
  have hidle : pairReady.flows.all (·.thread.isNone) = true := by decide +kernel
  have hevents : pairReady.events.all (!·.failure) = true := by decide +kernel
  rw [pair, set_opened]
  refine gathered_opened (by decide +kernel) ?_ (by simpa using hevents) (by simp [Activity.stops])
  intro f
  rw [threadOf]
  cases hcell : pairReady.flow? f with
  | none => rfl
  | some cell => simpa using List.all_eq_true.mp hidle cell (List.mem_of_getElem? hcell)

theorem own_of_not_failing
    (h : trace.all (fun taken => !taken.before.failing taken.thread taken.activity) = true) :
    ∀ taken ∈ trace, ¬ taken.Fails := by
  intro taken htaken hfails
  have hnot := List.all_eq_true.mp h taken htaken
  rw [failing_of_fails hfails] at hnot
  cases hnot

theorem pair_clean :
    (∀ taken ∈ pairClean.1, ¬ taken.Mishap) ∧
      (∀ event ∈ pairClean.2.events, event.failure = false) ∧
      ∀ out, pairClean.2.result? 0 = some out → ∃ v, out = .ok v := by
  have hrun : Run pair pairClean.1 pairClean.2 := run_replay .refl _
  have hown : ∀ taken ∈ pairClean.1, ¬ taken.Fails := own_of_not_failing (by decide +kernel)
  obtain ⟨hclean, hnone⟩ := clean_iff_no_mishap pair_gathered hrun hown
  have hevents : pairClean.2.events.all (!·.failure) = true := by decide +kernel
  have hresult : (pairClean.2.result? 0).any (·.isOk) = true := by decide +kernel
  obtain ⟨out, hout, hok⟩ := (Option.any_eq_true ..).mp hresult
  cases out with
  | ok v =>
      have hmishap := hnone v hout (by simpa using hevents)
      exact ⟨hmishap, hclean hmishap⟩
  | error e => cases hok

/-- A stop of the whole set can end with a failure although no component fails on its own. -/
theorem pair_failed :
    Gathered 0 (.startAll (.launch pair.set)) pair ∧ pair.stackOf 1 = [.stopAll pair.set] ∧
      Run pair pairFailed.1 pairFailed.2 ∧ (∀ taken ∈ pairFailed.1, ¬ taken.Fails) ∧
      (∃ e, pairFailed.2.result? 0 = some (.error e)) ∧
      ∃ event ∈ pairFailed.2.events, event.failure = true := by
  have hown : ∀ taken ∈ pairFailed.1, ¬ taken.Fails := own_of_not_failing (by decide +kernel)
  have hevents : pairFailed.2.events.any (·.failure) = true := by decide +kernel
  have hresult : (pairFailed.2.result? 0).any (!·.isOk) = true := by decide +kernel
  obtain ⟨out, hout, hok⟩ := (Option.any_eq_true ..).mp hresult
  have hrun : Run pair pairFailed.1 pairFailed.2 := run_replay .refl _
  have hcall : pair.stackOf 1 = [.stopAll pair.set] := by
    rw [pair, set_opened]
    rfl
  refine ⟨pair_gathered, hcall, hrun, hown, ?_, by simpa using hevents⟩
  cases out with
  | ok v => cases hok
  | error e => exact ⟨e, hout⟩

end World
end PullFlow.Engine
