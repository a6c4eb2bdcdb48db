import PullFlow.Proofs.Engine.Handover

/-!
Who sees to it that a flow that is to end is finished. Whoever moves a flow to its ending looks for
its monitor afterwards, and whoever parks a monitor looks at the state of the flow afterwards. So
while a monitor is parked in a flow that has begun to end, some thread is still to take it.
-/

namespace PullFlow.Engine

/-- Whether an activity moves a flow forward. -/
def Activity.moving : Activity → Bool
  | .advance .. => true
  | _ => false

/-- What waits for a flow to be moved to a state. -/
inductive MovedFrom (f : FlowId) : FlowState → List Activity → Prop
  | early {target : FlowState} {rest : List Activity} :
      target.rank < FlowState.ending.rank → MovedFrom f target rest
  | stop {rest : List Activity} : MovedFrom f .ending (.stop f .advanced :: rest)
  | run {m : Monitor} {d : Done} {rest : List Activity} :
      MovedFrom f .ending (.run f m (.interrupt d) :: rest)
  | finish {m : Monitor} {rest : List Activity} :
      MovedFrom f .ended (.finish f m .announced :: rest)

/-- A flow is moved at the top of a stack only, for one of those who wait for that. -/
structure Topped (tasks : List Activity) : Prop where
  tail : ∀ a ∈ tasks.tail, a.moving = false
  head : ∀ f target p rest, tasks = .advance f target p :: rest → MovedFrom f target rest

/-- An activity that is about to look for the parked monitor of a flow. -/
def owes (f : FlowId) : Activity → Bool
  | .stop g .interrupted => decide (g = f)
  | .run g _ (.parked _) | .run g _ (.retake _) => decide (g = f)
  | _ => false

/-- A thread that is about to look for the parked monitor of a flow, or has just moved the flow and
will look for it. -/
inductive Owing (f : FlowId) (answer : Outcome) : List Activity → Prop
  | looks {a : Activity} {tasks : List Activity} : a ∈ tasks → owes f a = true →
      Owing f answer tasks
  | moved {rest : List Activity} : MonitorBody.yes answer = true →
      Owing f answer (.stop f .advanced :: rest)
  | moving {before : FlowState} {rest : List Activity} :
      Owing f answer (.advance f .ending (.emit before) :: .stop f .advanced :: rest)

variable {f : FlowId} {a b c : Activity} {rest : List Activity}

theorem moving_quiet (a : Activity) : (quiet a).moving = a.moving := by
  cases a <;> rfl

theorem eq_of_quiet (h : quiet a = b) (hb : b.plain = false) : a = b := by
  cases a <;> first | exact h | (subst h; cases hb)

theorem moving_plain (h : a.plain = true) : a.moving = false := by
  cases a <;> first | rfl | cases h

theorem owes_plain (h : a.plain = true) : owes f a = false := by
  cases a <;> first | rfl | cases h

/-- A run that has not handed its monitor on does not look for it. -/
theorem owes_run {g : FlowId} {m : Monitor} {p : RunPoint} (h : p.gone = false) :
    owes f (.run g m p) = false := by
  cases p <;> first | rfl | cases h

theorem Owing.busy {answer : Outcome} {tasks : List Activity} (h : Owing f answer tasks) :
    tasks ≠ [] := by
  cases h with
  | looks hb _ => exact List.ne_nil_of_mem hb
  | moved _ => exact List.cons_ne_nil _ _
  | moving => exact List.cons_ne_nil _ _

namespace Topped

theorem exit (h : Topped (a :: rest)) : Topped rest := by
  refine ⟨fun b hb => h.tail b (List.mem_of_mem_tail hb), ?_⟩
  intro f target p rest hsame
  subst hsame
  cases h.tail _ (List.mem_cons_self ..)

theorem goto (h : Topped (a :: rest)) (hb : b.moving = false) : Topped (b :: rest) := by
  refine ⟨h.tail, ?_⟩
  intro f target p rest hsame
  cases hsame
  cases hb

theorem invoke (h : Topped (a :: rest)) (hb : b.moving = false) (hc : c.moving = false) :
    Topped (c :: b :: rest) := by
  refine ⟨?_, ?_⟩
  · intro d hd
    obtain rfl | hd := List.mem_cons.mp hd
    · exact hb
    · exact h.tail d hd
  · intro f target p rest hsame
    cases hsame
    cases hc

theorem advance {target : FlowState} {p : AdvancePoint} (h : Topped (a :: rest))
    (hb : b.moving = false) (hfrom : MovedFrom f target (b :: rest)) :
    Topped (.advance f target p :: b :: rest) := by
  refine ⟨?_, ?_⟩
  · intro d hd
    obtain rfl | hd := List.mem_cons.mp hd
    · exact hb
    · exact h.tail d hd
  · intro f target p rest hsame
    cases hsame
    exact hfrom

end Topped

namespace World

variable {w w' w₁ : World} {t : ThreadId} {turn : Turn} {answer : Outcome}
  {trace : List Taken}

/-- Moving flows stays at the top of the stacks. -/
theorem Moves.topped (h : Moves w answer a w₁ turn) (htop : Topped (quiet a :: rest)) :
    Topped (turn.frames.map quiet ++ rest) := by
  cases h with
  | plain _ _ hturn =>
      cases turn with
      | goto b out => exact htop.goto ((moving_quiet b).trans (moving_plain hturn))
      | invoke callee back =>
          obtain ⟨hasked, hback⟩ := hturn
          have hb := (moving_quiet back).trans (moving_plain hback)
          cases hasked with
          | plain hcallee =>
              exact htop.invoke hb ((moving_quiet callee).trans (moving_plain hcallee))
          | stopAll => exact htop.invoke hb rfl
          | advance g hrank => exact htop.advance hb (.early hrank)
      | exit out => exact htop.exit
  | swap _ _ =>
      refine ⟨htop.tail, ?_⟩
      intro g target p rest hsame
      cases hsame
      exact htop.head _ _ _ _ rfl
  | finishEnd => exact htop.advance rfl .finish
  | stopBegin => exact htop.advance rfl .stop
  | runEnding => exact htop.advance rfl .run
  | runAsk _ _ hserved _ =>
      obtain hplain | rfl := hserved
      · exact htop.invoke rfl ((moving_quiet _).trans (moving_plain hplain))
      · exact htop.advance rfl (.early (by decide))
  | behind | announce | finished | stopLate | stopLeft | stopped | stopNone | runKeep | runLeft
  | runOver | launchLate | launchLeft | launchThread | awaited | joinNone | joined | joinOver
  | aborted | allStopped | setUpStopped => exact htop.exit
  | finishOn | runOn | runPass | runReport | runFail | runDecide | runPark | runRetake | launchOn
  | launchHere | launchEnd | launched | awaitEnd | ready => exact htop.goto rfl
  | _ => exact htop.invoke rfl rfl

theorem topped_goes (h : ∀ u, Topped (w.tasks u)) (hgoes : Goes w t a rest w₁ turn) (u : ThreadId) :
    Topped ((w₁.turn t turn).tasks u) := by
  by_cases hu : u = t
  · subst hu
    rw [hgoes.tasks_self]
    exact hgoes.moves.topped (hgoes.tasks ▸ h u)
  · obtain hsame | ⟨_, g, m, _, _, hnew⟩ := hgoes.tasks_of_ne hu
    · rw [hsame]
      exact h u
    · rw [hnew]
      refine ⟨?_, ?_⟩
      · intro b hb
        cases hb
      · intro f target p rest heq
        cases heq

theorem stopping_iff (w : World) (f : FlowId) :
    w.stopping f = true ↔ FlowState.ending.rank ≤ (w.stateOf f).rank := by
  rw [stopping]
  exact decide_eq_true_iff

theorem eq_ended_of_rank {s : FlowState} (h : FlowState.ended.rank ≤ s.rank) : s = .ended := by
  cases s <;> first | rfl | exact absurd h (by decide)

/-- States only move forward. -/
theorem Moves.rank_le (h : Moves w answer a w₁ turn) (f : FlowId) :
    (w.stateOf f).rank ≤ (w₁.stateOf f).rank := by
  have heffect := h.effect f
  generalize hafter : w₁.control f = after at heffect
  cases heffect with
  | none => exact Nat.le_of_eq (by rw [stateOf_eq, stateOf_eq w₁, hafter])
  | swap hbefore hrank _ =>
      rw [stateOf_of_control hbefore, stateOf_of_control hafter]
      exact Nat.le_of_lt hrank
  | _ hbefore => exact Nat.le_of_eq (by rw [stateOf_of_control hbefore, stateOf_of_control hafter])

theorem Moves.ended (h : Moves w answer a w₁ turn) (hended : w.stateOf f = .ended) :
    w₁.stateOf f = .ended := by
  refine eq_ended_of_rank ?_
  rw [← hended]
  exact h.rank_le f

theorem Moves.stopping (h : Moves w answer a w₁ turn) (hstopping : w.stopping f = true) :
    w₁.stopping f = true := by
  rw [stopping_iff] at hstopping ⊢
  exact Nat.le_trans hstopping (h.rank_le f)

/-- Whoever tries to end a flow finds it ended afterwards. -/
theorem Moves.swap_ended (h : Moves w answer (.advance f .ended .swap) w₁ turn) :
    w₁.stateOf f = .ended := by
  cases h with
  | plain hplain => cases hplain
  | swap hcell _ => simp [stateOf, flow?_modifyFlow, hcell]
  | behind hcell hrank =>
      refine eq_ended_of_rank ?_
      rw [stateOf, hcell]
      exact Nat.le_of_not_lt hrank

/-- Whoever tries to move a flow to its ending finds it there or further afterwards. -/
theorem Moves.swap_stopping (h : Moves w answer (.advance f .ending .swap) w₁ turn) :
    w₁.stopping f = true := by
  rw [stopping_iff]
  cases h with
  | plain hplain => cases hplain
  | swap hcell _ => simp [stateOf, flow?_modifyFlow, hcell]
  | behind hcell hrank =>
      rw [stateOf, hcell]
      exact Nat.le_of_not_lt hrank

/-- A thread goes on owing a flow its finish until the monitor is not parked any more. -/
theorem Moves.owing (h : Moves w answer a w₁ turn) (howing : Owing f answer (quiet a :: rest))
    (hstopping : w₁.stopping f = true) (hparked : w₁.parkedOf f = true) :
    Owing f turn.answer (turn.frames.map quiet ++ rest) := by
  have hquiet : owes f (quiet a) = owes f a := by cases a <;> rfl
  have htaken {g : FlowId} {cell : FlowCell} (hcell : w.flow? g = some cell) (hgf : g = f) :
      ((w.modifyFlow g fun cell => { cell with parked := none }).parkedOf f) = false := by
    subst hgf
    simp [parkedOf_modifyFlow hcell]
  generalize hstack : quiet a :: rest = stack at howing
  cases howing with
  | @looks b _ hb howes =>
      subst hstack
      obtain rfl | hb := List.mem_cons.mp hb
      · rw [hquiet] at howes
        cases h with
        | plain hplain =>
            rw [owes_plain hplain] at howes
            cases howes
        | stopTake hcell _ => rw [htaken hcell (of_decide_eq_true howes)] at hparked; cases hparked
        | stopLeft hcell hnone =>
            rw [← of_decide_eq_true howes, parkedOf_of_flow? hcell, hnone] at hparked
            cases hparked
        | runTake hcell _ => rw [htaken hcell (of_decide_eq_true howes)] at hparked; cases hparked
        | runLeft hcell hnone =>
            rw [← of_decide_eq_true howes, parkedOf_of_flow? hcell, hnone] at hparked
            cases hparked
        | runKeep hnot =>
            rw [← of_decide_eq_true howes, hnot] at hstopping
            cases hstopping
        | runRetake => exact .looks (List.mem_cons_self ..) howes
        | runOn hp | runAsk hp | runAbandon hp | runPass hp =>
            rw [owes_run (gone_of_end? hp)] at howes
            cases howes
        | runDecide _ hp =>
            rw [owes_run hp] at howes
            cases howes
        | _ => cases howes
      · exact .looks (List.mem_append_right _ hb) howes
  | moved hyes =>
      obtain ⟨ha, rfl⟩ := List.cons_eq_cons.mp hstack
      have ha := eq_of_quiet ha rfl
      subst ha
      cases h with
      | plain hplain => cases hplain
      | stopFirst _ =>
          exact .looks (List.mem_cons_of_mem _ (List.mem_cons_self ..)) (by simp [owes, quiet])
      | stopLate hno =>
          rw [hyes] at hno
          cases hno
  | moving =>
      obtain ⟨ha, rfl⟩ := List.cons_eq_cons.mp hstack
      have ha := eq_of_quiet ha rfl
      subst ha
      cases h with
      | plain hplain => cases hplain
      | announce _ => exact .moved rfl

/-- While the monitor of a flow that has begun to end is parked, some thread is to take it. -/
def Owed (f : FlowId) (w : World) : Prop :=
  w.stopping f = true → w.parkedOf f = true → ∃ t, Owing f (w.answerOf t) (w.tasks t)

theorem Owed.goes (h : Owed f w) (hkept : Kept f trace w) (htop : Topped (w.tasks t))
    (hgoes : Goes w t a rest w₁ turn) : Owed f (w₁.turn t turn) := by
  intro hstopping hparked
  have hstopping₁ : w₁.stopping f = true := hstopping
  have hparked₁ : w₁.parkedOf f = true := hparked
  rw [hgoes.tasks] at htop
  -- who owed the finish before still does
  have hstays (hs : w.stopping f = true) (hp : w.parkedOf f = true) :
      ∃ u, Owing f ((w₁.turn t turn).answerOf u) ((w₁.turn t turn).tasks u) := by
    obtain ⟨u, howing⟩ := h hs hp
    refine ⟨u, ?_⟩
    by_cases hu : u = t
    · subst hu
      rw [hgoes.tasks] at howing
      rw [hgoes.answerOf_self, hgoes.tasks_self]
      exact hgoes.moves.owing howing hstopping₁ hparked₁
    · rw [hgoes.answerOf_of_ne hu, hgoes.tasks_of_busy hu howing.busy]
      exact howing
  have hself {next : List Activity} (hnext : turn.frames.map quiet = next)
      (howing : Owing f turn.answer (next ++ rest)) :
      ∃ u, Owing f ((w₁.turn t turn).answerOf u) ((w₁.turn t turn).tasks u) := by
    refine ⟨t, ?_⟩
    rw [hgoes.answerOf_self, hgoes.tasks_self, hnext]
    exact howing
  have heffect := hgoes.moves.effect f
  generalize hafter : w₁.control f = after at heffect
  cases heffect with
  | none =>
      refine hstays ?_ ?_
      · rwa [stopping_iff, stateOf_eq, ← hafter, ← stateOf_eq, ← stopping_iff]
      · rwa [parkedOf_eq, ← hafter, ← parkedOf_eq]
  | @swap s target p th turn hbefore hrank hturn =>
      have hp : w.parkedOf f = true := by
        rw [parkedOf_of_control hafter] at hparked₁
        rw [parkedOf_of_control hbefore]
        exact hparked₁
      -- nobody who has the monitor moves the flow now
      have hfree {b : Activity} (hb : b ∈ rest) (late : Bool) : handles late f b ≠ true := by
        intro hhandles
        have hmem : b ∈ w.tasks t := by
          rw [hgoes.tasks]
          exact List.mem_cons_of_mem _ hb
        rw [hkept.parkedOf_eq_false late hmem hhandles] at hp
        cases hp
      have hfrom := htop.head f target .swap rest rfl
      cases hfrom with
      | early hearly =>
          rw [stopping_iff, stateOf_of_control hafter] at hstopping₁
          exact absurd hearly (Nat.not_lt.mpr hstopping₁)
      | stop =>
          subst hturn
          exact hself rfl .moving
      | run =>
          exact absurd (by simp [handles_run, RunPoint.gone]) (hfree (List.mem_cons_self ..) true)
      | finish => exact absurd (by simp [handles]) (hfree (List.mem_cons_self ..) true)
  | take _ _ | retake _ _ | thread _ _ | here _ _ =>
      rw [parkedOf_of_control hafter] at hparked₁
      cases hparked₁
  | park _ hturn =>
      subst hturn
      exact hself rfl (.looks (List.mem_cons_self ..) (by simp [owes, quiet]))
  | joined hbefore _ _ =>
      refine hstays ?_ ?_
      · rw [stopping_iff, stateOf_of_control hafter] at hstopping₁
        rwa [stopping_iff, stateOf_of_control hbefore]
      · rw [parkedOf_of_control hafter] at hparked₁
        rwa [parkedOf_of_control hbefore]

/-- Whether an activity is the end of a finish. -/
def closes (f : FlowId) : Activity → Bool
  | .finish g _ .announced => decide (g = f)
  | _ => false

/-- A flow whose finish has come to its end has ended, or is about to be moved there. -/
def Announced (f : FlowId) (w : World) : Prop :=
  ∀ t, ∀ b ∈ w.tasks t, closes f b = true →
    w.stateOf f = .ended ∨ ∃ rest, w.tasks t = .advance f .ended .swap :: rest

theorem closes_quiet (f : FlowId) (a : Activity) : closes f (quiet a) = closes f a := by
  cases a <;> rfl

theorem closes_plain (h : a.plain = true) : closes f a = false := by
  cases a <;> first | rfl | cases h

theorem closes_asked (h : Asked w a) : closes f a = false := by
  cases h with
  | plain h => exact closes_plain h
  | stopAll => rfl
  | advance => rfl

/-- A finish comes to its end by moving the flow. -/
theorem Moves.closes (h : Moves w answer a w₁ turn) (f : FlowId) :
    (∀ b ∈ turn.frames, closes f b = false) ∨
      ∃ m, turn = .invoke (.advance f .ended .swap) (.finish f m .announced) := by
  cases h with
  | plain _ _ hturn =>
      refine .inl ?_
      cases turn with
      | goto c out => simpa [Turn.frames] using closes_plain hturn
      | invoke callee back => simpa [Turn.frames] using ⟨closes_asked hturn.1, closes_plain hturn.2⟩
      | exit out => simp [Turn.frames]
  | @finishEnd g m =>
      by_cases hgf : g = f
      · subst hgf
        exact .inr ⟨m, rfl⟩
      · exact .inl (by simp [Turn.frames, World.closes, hgf])
  | @finishOn g m m' p p' _ _ _ hp' _ =>
      refine .inl ?_
      cases p' <;> first | exact absurd rfl hp' | simp [Turn.frames, Turn.next, World.closes]
  | runAsk _ _ hserved _ =>
      refine .inl ?_
      obtain hplain | rfl := hserved
      · simpa [Turn.frames] using ⟨closes_plain hplain, rfl⟩
      · simp [Turn.frames, World.closes]
  | _ => exact .inl (by simp [Turn.frames, Turn.next, Turn.done, Turn.ofDone, World.closes])

theorem Announced.goes (h : Announced f w) (hgoes : Goes w t a rest w₁ turn) :
    Announced f (w₁.turn t turn) := by
  intro u b hb hcloses
  have hended (hbefore : w.stateOf f = .ended) : (w₁.turn t turn).stateOf f = .ended :=
    hgoes.moves.ended hbefore
  by_cases hu : u = t
  · subst hu
    rw [hgoes.tasks_self] at hb ⊢
    obtain hb | hb := List.mem_append.mp hb
    · obtain ⟨c, hc, rfl⟩ := List.mem_map.mp hb
      rw [closes_quiet] at hcloses
      obtain hnone | ⟨m, rfl⟩ := hgoes.moves.closes f
      · rw [hnone c hc] at hcloses
        cases hcloses
      · exact .inr ⟨_, rfl⟩
    · have hmem : b ∈ w.tasks u := by
        rw [hgoes.tasks]
        exact List.mem_cons_of_mem _ hb
      obtain hbefore | ⟨rest', hmoving⟩ := h u b hmem hcloses
      · exact .inl (hended hbefore)
      · rw [hgoes.tasks] at hmoving
        have ha := eq_of_quiet (List.cons_eq_cons.mp hmoving).1 rfl
        have hmoves := hgoes.moves
        rw [ha] at hmoves
        exact .inl hmoves.swap_ended
  · obtain hsame | ⟨_, g, m, _, _, hnew⟩ := hgoes.tasks_of_ne hu
    · rw [hsame] at hb ⊢
      exact (h u b hb hcloses).imp_left hended
    · rw [hnew] at hb
      rw [List.mem_singleton.mp hb] at hcloses
      cases hcloses

/-- What holds of a flow of the set at all times. -/
structure Watched (f : FlowId) (trace : List Taken) (w : World) : Prop where
  kept : Kept f trace w
  owed : Owed f w
  announced : Announced f w
  ended : trace.countP (fun taken => usesUp true f taken.activity) ≠ 0 → w.stateOf f = .ended

theorem Watched.calm {w' : World} (h : Watched f trace w) (hcalm : Calm w w') :
    Watched f trace w' := by
  have hstate : w'.stateOf f = w.stateOf f := by rw [stateOf_eq, hcalm.control, ← stateOf_eq]
  have htasks (t : ThreadId) : w'.tasks t = w.tasks t := tasks_of_jobs hcalm.jobs t
  refine ⟨h.kept.calm hcalm, ?_, ?_, ?_⟩
  · intro hstopping hparked
    rw [stopping_iff, hstate, ← stopping_iff] at hstopping
    rw [parkedOf_eq, hcalm.control, ← parkedOf_eq] at hparked
    obtain ⟨t, howing⟩ := h.owed hstopping hparked
    exact ⟨t, by rwa [answerOf_of_jobs hcalm.jobs, htasks]⟩
  · intro t b hb hcloses
    rw [htasks] at hb ⊢
    rw [hstate]
    exact h.announced t b hb hcloses
  · rw [hstate]
    exact h.ended

theorem Watched.goes (h : Watched f trace w) (htop : ∀ u, Topped (w.tasks u))
    (hgoes : Goes w t a rest w₁ turn) : Watched f (⟨w, t, a⟩ :: trace) (w₁.turn t turn) := by
  refine ⟨h.kept.goes hgoes, h.owed.goes h.kept (htop t) hgoes, h.announced.goes hgoes, ?_⟩
  intro hcount
  refine hgoes.moves.ended ?_
  cases ha : usesUp true f a with
  | false =>
      rw [List.countP_cons_of_neg (by simp [ha])] at hcount
      exact h.ended hcount
  | true =>
      -- the finish that comes to its end here is at the top, so the flow has been moved
      have hcloses : closes f (quiet a) = true := by
        rw [closes_quiet]
        cases a with
        | finish g m p =>
            cases p with
            | announced => simpa [usesUp, World.closes] using ha
            | _ => simp [usesUp] at ha
        | _ => cases ha
      have hmem : quiet a ∈ w.tasks t := by
        rw [hgoes.tasks]
        exact List.mem_cons_self ..
      obtain hended | ⟨rest', hmoving⟩ := h.announced t (quiet a) hmem hcloses
      · exact hended
      · rw [hgoes.tasks] at hmoving
        rw [(List.cons_eq_cons.mp hmoving).1] at hcloses
        cases hcloses

end World
end PullFlow.Engine
