import PullFlow.Proofs.Engine.Owing

/-!
How an error travels through the run of a flow. A hook, a read or a push hands it to the monitor,
which ends with it or reports it; the end of the monitor is judged, and fails the flow unless it is
a wait that the stop of the flow broke off. A loop that reports looks first whether its flow is
asked to stop.
-/

namespace PullFlow.Engine

/-- Whether a run waits for an activity of its own here. -/
def RunPoint.waits : RunPoint → Bool
  | .acting (.judging _) => false
  | .acting _ | .advanced | .interrupt _ | .finish _ | .finished _ => true
  | _ => false

/-- Whether a run has no error at hand. -/
def RunPoint.tame : RunPoint → Bool
  | .judge (.error _) | .fail (.error _) | .drive (.finish (.error _)) => false
  | .drive (.act (.report _) _) | .drive (.act _ (.judging _)) | .acting (.judging _) => false
  | _ => true

/-- Whether an order makes a monitor fail or report. -/
def complains : Order → Bool
  | .fail _ | .report _ => true
  | _ => false

/-- A component fails on its own in a turn: a hook fails, or a read or a push ends with an error
that is not a broken-off wait. A monitor that obeys orders may be told to fail. -/
inductive World.Fails (w : World) (t : ThreadId) : Activity → Prop
  | start {f : FlowId} {m : Monitor} {cell : FlowCell} {e : Error} : w.flow? f = some cell →
      cell.pipeline.start.result = .error e → Fails w t (.run f m .start)
  | monitor {f : FlowId} {m : Monitor} {e : Error} : m.start.result = .error e →
      Fails w t (.run f m .monitor)
  | hook {f : FlowId} {m : Monitor} {r : Recorder} {e : Error} : m.body = .recorder r →
      r.result .run = .error e → Fails w t (.run f m (.acting .noted))
  | action {f : FlowId} {m : Monitor} {wait : MonitorWait} {e : Error} : w.answerOf t = .error e →
      (∀ key, e ≠ .interrupted key) → Fails w t (.run f m (.acting wait))
  | told {f : FlowId} {m : Monitor} {wait : MonitorWait} {cell : FlowCell} {order : Order}
      {inbox : List Order} : w.flow? f = some cell → cell.inbox = order :: inbox →
      complains order = true → Fails w t (.run f m (.drive (.act .listen wait)))

namespace World

variable {w w₁ : World} {t : ThreadId} {f : FlowId} {m : Monitor} {p : RunPoint} {turn : Turn}

/-- Whether an outcome is an error other than a broken-off wait. -/
def strange : Outcome → Bool
  | .ok _ | .error (.interrupted _) => false
  | .error _ => true

/-- Whether a component fails on its own in a turn. -/
def failing (w : World) (t : ThreadId) : Activity → Bool
  | .run f _ .start => (w.flow? f).any fun cell => !cell.pipeline.start.result.isOk
  | .run _ m .monitor => !m.start.result.isOk
  | .run _ m (.acting wait) =>
      strange (w.answerOf t) ||
        match wait, m.body with
        | .noted, .recorder r => !(r.result .run).isOk
        | _, _ => false
  | .run f _ (.drive (.act .listen _)) =>
      (w.flow? f).any fun cell => cell.inbox.head?.any complains
  | _ => false

theorem failing_of_fails {a : Activity} (h : Fails w t a) : w.failing t a = true := by
  cases h with
  | start hcell herror => simp [failing, hcell, herror, Except.isOk, Except.toBool]
  | monitor herror => simp [failing, herror, Except.isOk, Except.toBool]
  | hook hbody herror => simp [failing, hbody, herror, Except.isOk, Except.toBool]
  | action hanswer hnot =>
      have hstrange : strange (w.answerOf t) = true := by
        rw [hanswer]
        unfold strange
        split
        · next heq => cases heq
        · next key heq =>
          cases heq
          exact absurd rfl (hnot key)
        · rfl
      simp [failing, hstrange]
  | told hcell hinbox horder => simp [failing, hcell, hinbox, horder]

/-- How a run comes by an error, or by a question about one. -/
inductive Leads (w : World) (t : ThreadId) (f : FlowId) (m : Monitor) :
    RunPoint → RunPoint → Outcome → Prop
  | tame {p p' : RunPoint} {out : Outcome} : p'.tame = true → Leads w t f m p p' out
  | fails {p p' : RunPoint} {out : Outcome} : Fails w t (.run f m p) → Leads w t f m p p' out
  | answered {wait : MonitorWait} {e : Error} {out : Outcome} : w.answerOf t = .error e →
      Leads w t f m (.acting wait) (.drive (.finish (.error e))) out
  | finished {e : Error} {out : Outcome} :
      Leads w t f m (.drive (.finish (.error e))) (.judge (.error e)) out
  | judged {d : Done} {e : Error} {out : Outcome} : w.judged f d = .error e →
      Leads w t f m (.judge d) (.fail (.error e)) out
  | ask {key : String} {out : Outcome} : w.answerOf t = .error (.interrupted key) →
      Leads w t f m (.acting .cycle) (.drive (.act .stopped (.judging (.interrupted key)))) out
  | asked {e : Error} {cell : FlowCell} : w.flow? f = some cell →
      Leads w t f m (.drive (.act .stopped (.judging e))) (.acting (.judging e))
        (.ok (.bool cell.stopped))
  | unstopped {e : Error} {out : Outcome} : MonitorBody.yes (w.answerOf t) = false →
      Leads w t f m (.acting (.judging e)) (.drive (.act (.report e) .reported)) out
  | push {e : Error} {out : Outcome} : w.answerOf t = .error e →
      Leads w t f m (.acting .forwarded) (.drive (.act (.report e) .reported)) out

theorem tame_countRound (n : Nat) : (RunPoint.drive (MonitorBody.countRound n)).tame = true := by
  cases n <;> rfl

theorem tame_rest (body : MonitorBody) : (RunPoint.drive body.rest).tame = true := by
  cases body <;> rfl

theorem tame_begin (body : MonitorBody) : (RunPoint.drive body.begin).tame = true := by
  cases body with
  | count n => exact tame_countRound n
  | _ => rfl

theorem tame_receive (v : Value) (body : MonitorBody) :
    (RunPoint.drive (body.receive v).2).tame = true := by
  unfold MonitorBody.receive
  split
  · split <;> rfl
  · next sleep last =>
    split
    · exact tame_rest (.change sleep last)
    · rfl
  · next target always sleep matching =>
    dsimp only
    split
    · rfl
    · exact tame_rest (.onValue target always sleep (v == target))
  · rfl

theorem tame_obey {order : Order} (h : complains order = false) :
    (RunPoint.drive (MonitorBody.obey order)).tame = true := by
  cases order <;> first | rfl | cases h

/-- A monitor that goes on with an outcome. -/
theorem leads_resume (wait : MonitorWait) (out : Outcome) :
    Leads w t f m (.acting wait) (.drive (m.body.resume wait (w.answerOf t)).2) out := by
  generalize hanswer : w.answerOf t = answer
  have hfinish {e : Error} (he : answer = .error e) :
      Leads w t f m (.acting wait) (.drive (.finish (.error e))) out := .answered (hanswer.trans he)
  unfold MonitorBody.resume
  split
  · exact .tame rfl
  · exact hfinish rfl
  · cases answer with
    | ok v => exact .tame rfl
    | error e => exact hfinish rfl
  · dsimp only
    split <;> exact .tame rfl
  · exact .tame rfl
  · exact hfinish rfl
  · next left _ => exact .tame (tame_countRound left)
  · exact hfinish rfl
  · exact .tame (tame_receive _ _)
  · exact .ask hanswer
  · next e hnot =>
    refine .fails (.action hanswer ?_)
    intro key hsame
    subst hsame
    exact hnot key rfl
  · next e answer =>
    dsimp only
    split
    · exact .tame (tame_rest _)
    · next hyes => exact .unstopped (by rw [hanswer]; exact Bool.eq_false_iff.mpr hyes)
  · exact .tame (tame_rest _)
  · exact .push hanswer
  · exact .tame (tame_rest _)
  · exact .tame rfl
  · split
    · dsimp only
      split
      · exact .tame (tame_rest _)
      · exact .tame rfl
    · dsimp only
      split <;> exact .tame rfl
  · split
    · dsimp only
      split <;> exact .tame rfl
    · exact .tame rfl
  · split
    · next r hbody =>
      split
      · exact .tame rfl
      · next e hfail => exact .fails (.hook hbody hfail)
    · exact .tame rfl
  all_goals exact .tame rfl

/-- An action that asks whether the flow is to stop is the only one that a question waits for. -/
def Asks (p : RunPoint) : Prop := ∀ act e, p = .drive (.act act (.judging e)) → act = .stopped

theorem leads_drive {move : MonitorMove} {b : Activity} {out : Outcome}
    (h : w.drive f m move = some (w₁, .goto b out)) (hasks : Asks (.drive move)) :
    ∃ m' p', b = .run f m' p' ∧ Leads w t f m (.drive move) p' out := by
  obtain ⟨cell, hcell, hmove⟩ := Option.bind_eq_some_iff.mp h
  clear h
  have htame {act : MonitorAct} {wait : MonitorWait} (heq : move = .act act wait)
      (hact : act ≠ .stopped) : (RunPoint.acting wait).tame = true := by
    cases wait with
    | judging e => exact absurd (hasks act e (by rw [heq])) hact
    | _ => rfl
  dsimp only at hmove
  split at hmove
  · next d =>
    cases hmove
    cases d with
    | ok v => exact ⟨_, _, rfl, .tame rfl⟩
    | error e => exact ⟨_, _, rfl, .finished⟩
  · next wait =>
    cases hmove
    refine ⟨_, _, rfl, ?_⟩
    cases wait with
    | judging e => exact .asked hcell
    | _ => exact .tame rfl
  · cases hmove
    exact ⟨_, _, rfl, .tame (htame rfl nofun)⟩
  · cases hmove
    exact ⟨_, _, rfl, .tame (htame rfl nofun)⟩
  · cases hmove
    exact ⟨_, _, rfl, .tame (htame rfl nofun)⟩
  · cases hmove
    exact ⟨_, _, rfl, .tame (htame rfl nofun)⟩
  · split at hmove
    · cases hmove
    · next order inbox hinbox =>
      cases hmove
      refine ⟨_, _, rfl, ?_⟩
      cases hcomplains : complains order with
      | true => exact .fails (.told hcell hinbox hcomplains)
      | false => exact .tame (tame_obey hcomplains)
  · obtain ⟨a, _, heq⟩ := Option.map_eq_some_iff.mp hmove
    cases heq

/-- Where a run goes on without waiting for anything. -/
theorem leads_run {b : Activity} {out : Outcome}
    (h : w.run t f m (w.answerOf t) p = some (w₁, .goto b out)) (hasks : Asks p) :
    ∃ m' p', b = .run f m' p' ∧ Leads w t f m p p' out := by
  cases p with
  | lock =>
      obtain ⟨w', _, heq⟩ := Option.map_eq_some_iff.mp h
      cases heq
      exact ⟨_, _, rfl, .tame rfl⟩
  | advanced =>
      cases h
      refine ⟨_, _, rfl, .tame ?_⟩
      split <;> rfl
  | release | abandon | park _ =>
      cases h
      exact ⟨_, _, rfl, .tame rfl⟩
  | start =>
      obtain ⟨cell, hcell, heq⟩ := Option.map_eq_some_iff.mp h
      cases heq
      refine ⟨_, _, rfl, ?_⟩
      split
      · exact .tame rfl
      · next e hfail => exact .fails (.start hcell hfail)
  | monitor =>
      cases h
      refine ⟨_, _, rfl, ?_⟩
      split
      · exact .tame (tame_begin _)
      · next e hfail => exact .fails (.monitor hfail)
  | drive move => exact leads_drive h hasks
  | acting wait =>
      cases h
      exact ⟨_, _, rfl, leads_resume wait _⟩
  | judge d =>
      cases h
      refine ⟨_, _, rfl, ?_⟩
      cases hjudged : w.judged f d with
      | ok v => exact .tame rfl
      | error e => exact .judged hjudged
  | fail d =>
      cases d with
      | ok v =>
          cases h
          exact ⟨_, _, rfl, .tame rfl⟩
      | error e =>
          obtain ⟨cell, _, heq⟩ := Option.map_eq_some_iff.mp h
          cases heq
          exact ⟨_, _, rfl, .tame rfl⟩
  | decide d =>
      simp only [run, Option.some.injEq] at h
      split at h <;> split at h <;> cases h <;> exact ⟨_, _, rfl, .tame rfl⟩
  | interrupt d =>
      simp only [run, Option.some.injEq] at h
      split at h <;> cases h
      exact ⟨_, _, rfl, .tame rfl⟩
  | parked d =>
      simp only [run, Option.some.injEq] at h
      split at h <;> cases h
      exact ⟨_, _, rfl, .tame rfl⟩
  | retake d =>
      obtain ⟨cell, _, heq⟩ := Option.map_eq_some_iff.mp h
      split at heq <;> cases heq
  | advance | abandoned | ending _ | finish _ | finished _ => cases h

/-- Where a run goes on after what it waits for. -/
theorem waits_run {callee back : Activity}
    (h : w.run t f m (w.answerOf t) p = some (w₁, .invoke callee back)) (hasks : Asks p) :
    ∃ m' p', back = .run f m' p' ∧ p'.waits = true := by
  cases p with
  | drive move =>
      obtain ⟨cell, _, hmove⟩ := Option.bind_eq_some_iff.mp h
      clear h
      dsimp only at hmove
      split at hmove
      all_goals try cases hmove
      · split at hmove <;> cases hmove
      · next act wait hstopped _ _ _ _ _ =>
        obtain ⟨a, _, heq⟩ := Option.map_eq_some_iff.mp hmove
        cases heq
        refine ⟨_, _, rfl, ?_⟩
        cases wait with
        | judging e => exact (hstopped (hasks act e rfl)).elim
        | _ => rfl
  | lock =>
      obtain ⟨w', _, heq⟩ := Option.map_eq_some_iff.mp h
      cases heq
  | start =>
      obtain ⟨cell, _, heq⟩ := Option.map_eq_some_iff.mp h
      cases heq
  | fail d =>
      cases d with
      | ok v => cases h
      | error e =>
          obtain ⟨cell, _, heq⟩ := Option.map_eq_some_iff.mp h
          cases heq
  | decide d =>
      simp only [run, Option.some.injEq] at h
      split at h <;> split at h <;> cases h
  | interrupt d =>
      simp only [run, Option.some.injEq] at h
      split at h <;> cases h
      exact ⟨_, _, rfl, rfl⟩
  | parked d =>
      simp only [run, Option.some.injEq] at h
      split at h <;> cases h
  | retake d =>
      obtain ⟨cell, _, heq⟩ := Option.map_eq_some_iff.mp h
      split at heq <;> cases heq
      exact ⟨_, _, rfl, rfl⟩
  | advance | abandoned | ending _ | finish _ =>
      cases h
      exact ⟨_, _, rfl, rfl⟩
  | _ => cases h

variable {a b callee back : Activity} {rest : List Activity} {answer : Outcome}

theorem not_run_plain {g : FlowId} {m' : Monitor} {p' : RunPoint} (h : b.plain = true) :
    b ≠ .run g m' p' := by
  intro hsame
  subst hsame
  cases h

/-- Nothing waits for a run but the start of its flow, and a run starts from its beginning. -/
theorem Moves.goto_run {g : FlowId} {m' : Monitor} {p' : RunPoint} {out : Outcome}
    (h : Moves w answer a w₁ (.goto (.run g m' p') out)) :
    (∃ g m p, a = .run g m p) ∨ p' = .lock := by
  cases h with
  | plain _ _ hturn => cases hturn
  | launchHere _ _ => exact .inr rfl
  | _ => exact .inl ⟨_, _, _, rfl⟩

theorem Moves.invoke_run (h : Moves w answer a w₁ (.invoke callee back)) :
    (∀ g m p, callee ≠ .run g m p) ∧
      ((∃ g m p, a = .run g m p) ∨ ∀ g m p, back ≠ .run g m p) := by
  cases h with
  | plain _ _ hturn =>
      obtain ⟨hasked, hback⟩ := hturn
      refine ⟨fun g m p => ?_, .inr fun g m p => not_run_plain hback⟩
      cases hasked with
      | plain hcallee => exact not_run_plain hcallee
      | stopAll =>
          intro hsame
          cases hsame
      | advance =>
          intro hsame
          cases hsame
  | runAsk _ _ hserved _ =>
      refine ⟨fun g m p => ?_, .inl ⟨_, _, _, rfl⟩⟩
      obtain hplain | rfl := hserved
      · exact not_run_plain hplain
      · intro hsame
        cases hsame
  | runAbandon | runEnding | runRelease | runFinish | runTake =>
      exact ⟨fun _ _ _ => (by rintro ⟨⟩), .inl ⟨_, _, _, rfl⟩⟩
  | _ => exact ⟨fun _ _ _ => (by rintro ⟨⟩), .inr fun _ _ _ => (by rintro ⟨⟩)⟩

/-- The runs on a stack: those below the top wait, and one that asks about an error asks whether
the flow is to stop. -/
structure Apt (tasks : List Activity) : Prop where
  below : ∀ f m p, Activity.run f m p ∈ tasks.tail → p.waits = true
  asks : ∀ f m p rest, tasks = .run f m p :: rest → Asks p

theorem run_of_goes (h : Goes w t (.run f m p) rest w₁ turn) :
    w.run t f m (w.answerOf t) p = some (w₁, turn) := by
  obtain hstep | ⟨_, ⟨⟩⟩ := h.step
  exact hstep

theorem Apt.asks_of_goes (h : Apt (w.tasks t)) (hgoes : Goes w t (.run f m p) rest w₁ turn) :
    Asks p :=
  h.asks f m p rest hgoes.tasks

/-- A run at the top after a turn: it has just begun, or waited, or has gone on by itself. -/
theorem Goes.head (h : Goes w t a rest w₁ turn) (hapt : Apt (w.tasks t)) {g : FlowId}
    {m' : Monitor} {p' : RunPoint} {rest' : List Activity}
    (hhead : (w₁.turn t turn).tasks t = .run g m' p' :: rest') :
    p'.waits = true ∨ p' = .lock ∨
      ∃ m p, a = .run g m p ∧ Leads w t g m p p' ((w₁.turn t turn).answerOf t) := by
  rw [h.answerOf_self]
  rw [h.tasks_self] at hhead
  cases turn with
  | exit out =>
      refine .inl (hapt.below g m' p' ?_)
      rw [h.tasks, List.tail_cons, show rest = .run g m' p' :: rest' from hhead]
      exact List.mem_cons_self ..
  | invoke callee back =>
      have hcallee := eq_of_quiet (List.cons_eq_cons.mp hhead).1 rfl
      exact absurd hcallee (h.moves.invoke_run.1 g m' p')
  | goto b out =>
      have hb := eq_of_quiet (List.cons_eq_cons.mp hhead).1 rfl
      subst hb
      obtain ⟨f, m, p, rfl⟩ | hlock := h.moves.goto_run
      · obtain ⟨m'', p'', heq, hleads⟩ := leads_run (run_of_goes h) (hapt.asks_of_goes h)
        cases heq
        exact .inr (.inr ⟨m, p, rfl, hleads⟩)
      · exact .inr (.inl hlock)

theorem Apt.goes (h : ∀ u, Apt (w.tasks u)) (hgoes : Goes w t a rest w₁ turn)
    (hown : ¬ Fails w t a) (u : ThreadId) : Apt ((w₁.turn t turn).tasks u) := by
  by_cases hu : u = t
  · subst hu
    constructor
    · intro f m p hmem
      have hrest (hmem : Activity.run f m p ∈ rest) : p.waits = true := by
        refine (h u).below f m p ?_
        rw [hgoes.tasks]
        exact hmem
      rw [hgoes.tasks_self] at hmem
      cases turn with
      | exit out => exact hrest (List.mem_of_mem_tail hmem)
      | goto b out => exact hrest hmem
      | invoke callee back =>
          obtain hback | hmem := List.mem_cons.mp hmem
          · have hback := eq_of_quiet hback.symm rfl
            subst hback
            obtain ⟨g, m', p', rfl⟩ | hnot := hgoes.moves.invoke_run.2
            · obtain ⟨m'', p'', heq, hwaits⟩ :=
                waits_run (run_of_goes hgoes) ((h u).asks_of_goes hgoes)
              cases heq
              exact hwaits
            · exact absurd rfl (hnot f m p)
          · exact hrest hmem
    · intro f m p rest' hhead act e hsame
      subst hsame
      obtain hwaits | hlock | ⟨m', p', rfl, hleads⟩ := hgoes.head (h u) hhead
      · cases hwaits
      · cases hlock
      · cases hleads with
        | tame htame => cases act <;> cases htame
        | fails hfails => exact absurd hfails hown
        | ask _ => rfl
  · obtain hsame | ⟨_, f, m, _, _, hnew⟩ := hgoes.tasks_of_ne hu
    · rw [hsame]
      exact h u
    · rw [hnew]
      constructor
      · intro f m p hmem
        cases hmem
      · intro f m p rest heq act e hsame
        subst hsame
        cases heq

end World
end PullFlow.Engine
