import PullFlow.Proofs.Engine.Owing

/-!
The course of a set of flows. One thread sets the flows up, starts them one after the other, joins
their threads and stops them; every flow with a thread of its own runs on that one. Other threads
only stop flows. What a thread waits for below the activities that any thread may be busy with, its
core, tells where in this course it is.
-/

namespace PullFlow.Engine

/-- An activity that any thread may be busy with. -/
def Activity.helper : Activity → Bool
  | .advance .. | .finish .. | .stop .. | .stopAll .. => true
  | a => a.plain

/-- What a thread is busy with below what any thread may be busy with. -/
def core (tasks : List Activity) : List Activity := tasks.dropWhile Activity.helper

/-- The flows that an activity is still to stop. -/
def stopsDue : Activity → List FlowId
  | .stopAll left => left
  | .stop f .begin | .advance f .ending .swap => [f]
  | _ => []

/-- The flows whose threads an activity is still to join. -/
def joinsDue : Activity → List FlowId
  | .joinAll left _ _ => left
  | .join f => [f]
  | _ => []

variable {f : FlowId} {a b : Activity} {rest tasks tasks' : List Activity}

theorem helper_plain (h : a.plain = true) : a.helper = true := by
  cases a <;> first | rfl | cases h

theorem helper_quiet (a : Activity) : (quiet a).helper = a.helper := by
  cases a <;> rfl

theorem quiet_eq_self (h : a.plain = false) : quiet a = a := by
  cases a <;> first | rfl | cases h

theorem plain_of_not_helper (h : a.helper = false) : a.plain = false := by
  cases hplain : a.plain with
  | false => rfl
  | true =>
      rw [helper_plain hplain] at h
      cases h

theorem core_cons_helper (h : a.helper = true) : core (a :: rest) = core rest := by
  rw [core, List.dropWhile_cons_of_pos h, core]

theorem core_cons_of_not (h : a.helper = false) : core (a :: rest) = a :: rest := by
  rw [core, List.dropWhile_cons_of_neg (by simp [h])]

theorem core_append {frames : List Activity} (h : ∀ b ∈ frames, b.helper = true) :
    core (frames ++ rest) = core rest := by
  induction frames with
  | nil => rfl
  | cons b frames ih =>
      rw [List.cons_append, core_cons_helper (h b (List.mem_cons_self ..))]
      exact ih fun c hc => h c (List.mem_cons_of_mem b hc)

namespace World

variable {w w' w₁ : World} {t : ThreadId} {turn : Turn} {answer : Outcome}

/-- What any thread may be busy with leads to nothing else. -/
theorem Moves.helper (h : Moves w answer a w₁ turn) (ha : a.helper = true) :
    ∀ b ∈ turn.frames.map quiet, b.helper = true := by
  intro b hb
  obtain ⟨c, hc, rfl⟩ := List.mem_map.mp hb
  rw [helper_quiet]
  cases h with
  | plain _ _ hturn =>
      cases turn with
      | goto d out =>
          rw [List.mem_singleton.mp hc]
          exact helper_plain hturn
      | invoke callee back =>
          obtain ⟨hasked, hback⟩ := hturn
          obtain rfl | hc := List.mem_cons.mp hc
          · cases hasked with
            | plain hplain => exact helper_plain hplain
            | stopAll => rfl
            | advance _ _ => rfl
          · rw [List.mem_singleton.mp hc]
            exact helper_plain hback
      | exit out => cases hc
  | behind | announce | finished | stopLate | stopLeft | stopped | stopNone => cases hc
  | swap | finishOn => rw [List.mem_singleton.mp hc]; rfl
  | finishEnd | stopBegin | stopFirst | stopTake | stopNext =>
      obtain rfl | hc := List.mem_cons.mp hc
      · rfl
      · rw [List.mem_singleton.mp hc]; rfl
  | _ => cases ha

/-- A run goes on as a run, whatever it waits for, or is over. -/
theorem Moves.run {m : Monitor} {p : RunPoint} (h : Moves w answer (.run f m p) w₁ turn) :
    (∃ frames m' p', turn.frames.map quiet = frames ++ [.run f m' p'] ∧
      (∀ b ∈ frames, b.helper = true) ∧
      (p.end? = none ∨ p'.end? = p.end?)) ∨
    ∃ d, p.end? = some d ∧ turn = .ofDone d := by
  have hgoto {m' : Monitor} {p' : RunPoint} (hp : p.end? = none ∨ p'.end? = p.end?) :
      ∃ frames m'' p'', [Activity.run f m' p'] = frames ++ [.run f m'' p''] ∧
        (∀ b ∈ frames, b.helper = true) ∧ (p.end? = none ∨ p''.end? = p.end?) :=
    ⟨[], m', p', rfl, (fun _ hb => nomatch hb), hp⟩
  have hinvoke {c : Activity} {m' : Monitor} {p' : RunPoint} (hc : c.helper = true)
      (hp : p.end? = none ∨ p'.end? = p.end?) :
      ∃ frames m'' p'', [c, Activity.run f m' p'] = frames ++ [.run f m'' p''] ∧
        (∀ b ∈ frames, b.helper = true) ∧ (p.end? = none ∨ p''.end? = p.end?) :=
    ⟨[c], m', p', rfl, fun b hb => by rw [List.mem_singleton.mp hb]; exact hc, hp⟩
  cases h with
  | plain hplain => cases hplain
  | runOn hp _ _ => exact .inl (hgoto (.inl hp))
  | runAsk hp _ hserved _ =>
      refine .inl (hinvoke ?_ (.inl hp))
      obtain hplain | rfl := hserved
      · rw [helper_quiet]
        exact helper_plain hplain
      · rfl
  | runAbandon hp => exact .inl (hinvoke rfl (.inl hp))
  | runPass hp => exact .inl (hgoto (.inl hp))
  | runReport _ => exact .inl (hgoto (.inl rfl))
  | runFail _ => exact .inl (hgoto (.inl rfl))
  | runDecide hp _ _ => exact .inl (hgoto (.inr hp.symm))
  | runEnding => exact .inl (hinvoke rfl (.inr rfl))
  | runRelease => exact .inl (hinvoke rfl (.inr rfl))
  | runFinish => exact .inl (hinvoke rfl (.inr rfl))
  | runPark => exact .inl (hgoto (.inr rfl))
  | runRetake => exact .inl (hgoto (.inr rfl))
  | runTake _ _ => exact .inl (hinvoke rfl (.inr rfl))
  | runKeep _ | runLeft _ _ | runOver => exact .inr ⟨_, rfl, rfl⟩

/-- A flow that is to be stopped still is, or has begun to end. -/
theorem Moves.stopsDue (h : Moves w answer a w₁ turn) (hf : f ∈ Engine.stopsDue (quiet a)) :
    w₁.stopping f = true ∨ ∃ b ∈ turn.frames.map quiet, f ∈ Engine.stopsDue b := by
  have hdue : Engine.stopsDue (quiet a) = Engine.stopsDue a := by cases a <;> rfl
  rw [hdue] at hf
  cases a with
  | stopAll left =>
      cases h with
      | plain hplain => cases hplain
      | stopNone => cases hf
      | stopNext =>
          obtain rfl | hf := List.mem_cons.mp hf
          · exact .inr ⟨_, List.mem_cons_self .., List.mem_singleton.mpr rfl⟩
          · exact .inr ⟨_, List.mem_cons_of_mem _ (List.mem_cons_self ..), hf⟩
  | stop g p =>
      cases p with
      | begin =>
          cases h with
          | plain hplain => cases hplain
          | stopBegin => exact .inr ⟨_, List.mem_cons_self .., hf⟩
      | _ => cases hf
  | advance g target p =>
      cases p with
      | swap =>
          cases target with
          | ending =>
              cases List.mem_singleton.mp hf
              exact .inl h.swap_stopping
          | _ => cases hf
      | emit before => cases target <;> cases hf
  | _ => cases hf

/-- A thread that is to be joined still is, or has been. -/
theorem Moves.joinsDue (h : Moves w answer a w₁ turn) (hf : f ∈ Engine.joinsDue (quiet a)) :
    w₁.threadOf f = none ∨ ∃ b ∈ turn.frames.map quiet, f ∈ Engine.joinsDue b := by
  have hdue : Engine.joinsDue (quiet a) = Engine.joinsDue a := by cases a <;> rfl
  rw [hdue] at hf
  cases a with
  | joinAll left failed joining =>
      cases h with
      | plain hplain => cases hplain
      | joinOver => cases hf
      | joinNext =>
          obtain rfl | hf := List.mem_cons.mp hf
          · exact .inr ⟨_, List.mem_cons_self .., List.mem_singleton.mpr rfl⟩
          · exact .inr ⟨_, List.mem_cons_of_mem _ (List.mem_cons_self ..), hf⟩
  | join g =>
      cases List.mem_singleton.mp hf
      cases h with
      | plain hplain => cases hplain
      | joinNone hcell hnone =>
          refine .inl ?_
          rw [threadOf, hcell]
          exact hnone
      | joined hcell _ _ =>
          refine .inl ?_
          simp [threadOf, flow?_modifyFlow, hcell]
  | _ => cases hf

/-- Threads of flows are noted by the start of a flow only. -/
theorem Moves.threadOf (h : Moves w answer a w₁ turn) (f : FlowId) :
    w₁.threadOf f = w.threadOf f ∨
      a = .launch f true ∧ turn = .done ∧ w₁.threadOf f = some w.jobs.length ∨
      ∃ u out, a = .join f ∧ turn = .exit out ∧ w₁.threadOf f = none ∧
        w.threadOf f = some u ∧ w.result? u = some out := by
  have heffect := h.effect f
  generalize hafter : w₁.control f = after at heffect
  cases heffect with
  | none => exact .inl (by rw [threadOf_eq, hafter, ← threadOf_eq])
  | thread _ hturn => exact .inr (.inl ⟨rfl, hturn, threadOf_of_control hafter⟩)
  | joined hbefore hresult hturn =>
      exact .inr (.inr ⟨_, _, rfl, hturn, threadOf_of_control hafter, threadOf_of_control hbefore,
        hresult⟩)
  | _ hbefore =>
      exact .inl ((threadOf_of_control hafter).trans (threadOf_of_control hbefore).symm)

/-- All flows of the set have begun to end, or are still to be stopped. -/
def Settled (w : World) (tasks : List Activity) : Prop :=
  ∀ f ∈ w.set, w.stopping f = true ∨ ∃ a ∈ tasks, f ∈ Engine.stopsDue a

/-- All threads of flows are joined, or are still to be joined. -/
def JoinedUp (w : World) (tasks : List Activity) : Prop :=
  ∀ f, w.threadOf f = none ∨ ∃ a ∈ tasks, f ∈ Engine.joinsDue a

/-- Flows of the set that have no thread yet. -/
structure Unlaunched (w : World) (left : List FlowId) : Prop where
  nodup : left.Nodup
  members : ∀ f ∈ left, f ∈ w.set
  idle : ∀ f ∈ left, w.threadOf f = none

/-- What waits for the threads of flows. -/
inductive Joining : List Activity → Prop
  | none : Joining []
  | all {left : List FlowId} {failed : Done} {joining : Bool} :
      Joining [.joinAll left failed joining]
  | one {f : FlowId} {left : List FlowId} {failed : Done} :
      Joining [.join f, .joinAll left failed true]

/-- Where the thread that starts the set is in its course, and what holds there. The list is the
core of what it is busy with. -/
inductive Stage (w : World) (tasks : List Activity) : List Activity → Prop
  | begin : w.set.Nodup → JoinedUp w tasks → Stage w tasks [.runAll .begin]
  | ready : w.set.Nodup → JoinedUp w tasks → Stage w tasks [.runAll .ready]
  | setUpStopped {e : Error} : JoinedUp w tasks → Settled w tasks →
      Stage w tasks [.runAll (.stopped e)]
  | launch {left : List FlowId} : Unlaunched w left → Stage w tasks [.startAll (.launch left)]
  | launching {f : FlowId} {checked : Bool} {left : List FlowId} : Unlaunched w (f :: left) →
      Stage w tasks [.launch f checked, .startAll (.launched left)]
  | here {f : FlowId} {m : Monitor} {p : RunPoint} {left : List FlowId} : Unlaunched w left →
      Stage w tasks [.run f m p, .startAll (.launched left)]
  | launched {left : List FlowId} : Unlaunched w left → Stage w tasks [.startAll (.launched left)]
  | abort {e : Error} : Settled w tasks → Stage w tasks [.startAll (.abort e)]
  | await {left : List FlowId} : Stage w tasks [.startAll (.await left)]
  | awaiting {f : FlowId} {left : List FlowId} :
      Stage w tasks [.awaitStart f, .startAll (.await left)]
  | join : Stage w tasks [.startAll .join]
  | joined {above : List Activity} : Joining above → JoinedUp w tasks →
      Stage w tasks (above ++ [.startAll .joined])
  | aborted {above : List Activity} {e : Error} : Joining above → JoinedUp w tasks →
      Settled w tasks → Stage w tasks (above ++ [.startAll (.aborted e)])
  | stopped {out : Outcome} : JoinedUp w tasks → Settled w tasks →
      Stage w tasks [.startAll (.stopped out)]
  | finished : JoinedUp w tasks → Settled w tasks → Stage w tasks []

theorem Moves.settled (h : Moves w answer a w₁ turn) (hset : Settled w (quiet a :: rest)) :
    Settled w₁ (turn.frames.map quiet ++ rest) := by
  intro f hf
  rw [h.set] at hf
  obtain hstopping | ⟨b, hb, hdue⟩ := hset f hf
  · exact .inl (h.stopping hstopping)
  · obtain rfl | hb := List.mem_cons.mp hb
    · obtain hstopping | ⟨c, hc, hdue⟩ := h.stopsDue hdue
      · exact .inl hstopping
      · exact .inr ⟨c, List.mem_append_left _ hc, hdue⟩
    · exact .inr ⟨b, List.mem_append_right _ hb, hdue⟩

theorem Moves.joinedUp (h : Moves w answer a w₁ turn) (hlaunch : ∀ f, a ≠ .launch f true)
    (hjoined : JoinedUp w (quiet a :: rest)) : JoinedUp w₁ (turn.frames.map quiet ++ rest) := by
  intro f
  obtain hsame | ⟨ha, _⟩ | ⟨_, _, _, _, hnone, _⟩ := h.threadOf f
  · obtain hnone | ⟨b, hb, hdue⟩ := hjoined f
    · exact .inl (hsame.trans hnone)
    · obtain rfl | hb := List.mem_cons.mp hb
      · obtain hnone | ⟨c, hc, hdue⟩ := h.joinsDue hdue
        · exact .inl hnone
        · exact .inr ⟨c, List.mem_append_left _ hc, hdue⟩
      · exact .inr ⟨b, List.mem_append_right _ hb, hdue⟩
  · exact absurd ha (hlaunch f)
  · exact .inl hnone

theorem Stage.mono {stack : List Activity} (h : Stage w tasks stack) (hset : w'.set = w.set)
    (hthread : ∀ f, w'.threadOf f = w.threadOf f)
    (hjoined : JoinedUp w tasks → JoinedUp w' tasks')
    (hsettled : Settled w tasks → Settled w' tasks') : Stage w' tasks' stack := by
  have hleft {left : List FlowId} (h : Unlaunched w left) : Unlaunched w' left :=
    ⟨h.nodup, fun f hf => hset ▸ h.members f hf, fun f hf => (hthread f).trans (h.idle f hf)⟩
  cases h with
  | begin hnodup hj => exact .begin (hset ▸ hnodup) (hjoined hj)
  | ready hnodup hj => exact .ready (hset ▸ hnodup) (hjoined hj)
  | setUpStopped hj hs => exact .setUpStopped (hjoined hj) (hsettled hs)
  | launch hl => exact .launch (hleft hl)
  | launching hl => exact .launching (hleft hl)
  | here hl => exact .here (hleft hl)
  | launched hl => exact .launched (hleft hl)
  | abort hs => exact .abort (hsettled hs)
  | await => exact .await
  | awaiting => exact .awaiting
  | join => exact .join
  | joined habove hj => exact .joined habove (hjoined hj)
  | aborted habove hj hs => exact .aborted habove (hjoined hj) (hsettled hs)
  | stopped hj hs => exact .stopped (hjoined hj) (hsettled hs)
  | finished hj hs => exact .finished (hjoined hj) (hsettled hs)

theorem Unlaunched.tail {left : List FlowId} (h : Unlaunched w (f :: left)) : Unlaunched w left :=
  ⟨(List.nodup_cons.mp h.nodup).2, fun g hg => h.members g (List.mem_cons_of_mem f hg),
    fun g hg => h.idle g (List.mem_cons_of_mem f hg)⟩

theorem Unlaunched.moves {left : List FlowId} (h : Unlaunched w left)
    (hmoves : Moves w answer a w₁ turn) (hlaunch : ∀ f ∈ left, a ≠ .launch f true) :
    Unlaunched w₁ left := by
  refine ⟨h.nodup, fun f hf => hmoves.set ▸ h.members f hf, fun f hf => ?_⟩
  obtain hsame | ⟨ha, _⟩ | ⟨_, _, _, _, hnone, _⟩ := hmoves.threadOf f
  · rw [hsame, h.idle f hf]
  · exact absurd ha (hlaunch f hf)
  · exact hnone

/-- The set is to be stopped from here on. -/
theorem settled_all {b : Activity} (rest : List Activity) :
    Settled w (.stopAll w.set :: b :: rest) :=
  fun _ hf => .inr ⟨_, List.mem_cons_self .., hf⟩

/-- The threads of the set are to be joined from here on. -/
theorem joinedUp_all {b : Activity} (rest : List Activity)
    (hmembers : ∀ f t, w.threadOf f = some t → f ∈ w.set) :
    JoinedUp w (.joinAll w.set (.ok ()) false :: b :: rest) := by
  intro f
  cases hthread : w.threadOf f with
  | none => exact .inl rfl
  | some t => exact .inr ⟨_, List.mem_cons_self .., hmembers f t hthread⟩

/-- A step of the course itself. -/
theorem Stage.moves {stack : List Activity} (h : Stage w stack stack) (hstack : stack = a :: rest)
    (ha : a.helper = false) (hmoves : Moves w answer a w₁ turn)
    (hmembers : ∀ f t, w.threadOf f = some t → f ∈ w.set) :
    Stage w₁ (turn.frames.map quiet ++ rest) (core (turn.frames.map quiet ++ rest)) := by
  have hquiet := quiet_eq_self (plain_of_not_helper ha)
  have hj (hlaunch : ∀ f, a ≠ .launch f true) (hj : JoinedUp w stack) :
      JoinedUp w₁ (turn.frames.map quiet ++ rest) := by
    rw [hstack, ← hquiet] at hj
    exact hmoves.joinedUp hlaunch hj
  have hs (hs : Settled w stack) : Settled w₁ (turn.frames.map quiet ++ rest) := by
    rw [hstack, ← hquiet] at hs
    exact hmoves.settled hs
  cases h with
  | begin hnodup hjoined =>
      cases hstack
      cases hmoves with
      | plain hplain => cases hplain
      | setUp => exact .ready hnodup (hj nofun hjoined)
  | ready hnodup hjoined =>
      cases hstack
      cases hmoves with
      | plain hplain => cases hplain
      | ready _ =>
          refine .launch ⟨hnodup, fun _ hf => hf, fun f _ => ?_⟩
          obtain hnone | ⟨b, hb, hdue⟩ := hjoined f
          · exact hnone
          · rw [List.mem_singleton.mp hb] at hdue
            cases hdue
      | notReady _ => exact .setUpStopped (hj nofun hjoined) (settled_all _)
  | setUpStopped hjoined hsettled =>
      cases hstack
      cases hmoves with
      | plain hplain => cases hplain
      | setUpStopped => exact .finished (hj nofun hjoined) (hs hsettled)
  | launch hl =>
      cases hstack
      cases hmoves with
      | plain hplain => cases hplain
      | launchEnd => exact .await
      | launchNext => exact .launching hl
  | launching hl =>
      cases hstack
      cases hmoves with
      | plain hplain => cases hplain
      | launchOn _ _ => exact .launching hl
      | launchLate _ _ => exact .launched hl.tail
      | launchLeft _ _ => exact .launched hl.tail
      | launchThread hcell hparked =>
          have hmove : Moves _ answer _ _ _ := .launchThread hcell hparked
          refine .launched (hl.tail.moves hmove ?_)
          intro g hg hsame
          cases hsame
          exact (List.nodup_cons.mp hl.nodup).1 hg
      | launchHere hcell hparked =>
          have hmove : Moves _ answer _ _ _ := .launchHere hcell hparked
          refine .here (hl.tail.moves hmove ?_)
          intro g hg hsame
          cases hsame
          exact (List.nodup_cons.mp hl.nodup).1 hg
  | here hl =>
      cases hstack
      have hl := hl.moves hmoves fun _ _ => nofun
      obtain ⟨frames, m', p', hframes, hhelper, _⟩ | ⟨d, _, hturn⟩ := hmoves.run
      · rw [hframes, List.append_assoc, core_append hhelper]
        exact .here hl
      · subst hturn
        exact .launched hl
  | launched hl =>
      cases hstack
      cases hmoves with
      | plain hplain => cases hplain
      | launched _ => exact .launch hl
      | launchAbort _ => exact .abort (settled_all _)
  | abort hsettled =>
      cases hstack
      cases hmoves with
      | plain hplain => cases hplain
      | abortJoin => exact .aborted .all (joinedUp_all _ hmembers) (hs hsettled)
  | await =>
      cases hstack
      cases hmoves with
      | plain hplain => cases hplain
      | awaitEnd => exact .join
      | awaitNext => exact .awaiting
  | awaiting =>
      cases hstack
      cases hmoves with
      | plain hplain => cases hplain
      | awaited => exact .await
  | join =>
      cases hstack
      cases hmoves with
      | plain hplain => cases hplain
      | joinStart => exact .joined .all (joinedUp_all _ hmembers)
  | joined habove hjoined =>
      cases habove with
      | none =>
          cases hstack
          cases hmoves with
          | plain hplain => cases hplain
          | joinStop => exact .stopped (hj nofun hjoined) (settled_all _)
      | all =>
          cases hstack
          cases hmoves with
          | plain hplain => cases hplain
          | joinOver => exact .joined .none (hj nofun hjoined)
          | joinNext => exact .joined .one (hj nofun hjoined)
      | one =>
          cases hstack
          have hjoined := hj nofun hjoined
          cases hmoves with
          | plain hplain => cases hplain
          | joinNone _ _ => exact .joined .all hjoined
          | joined _ _ _ => exact .joined .all hjoined
  | aborted habove hjoined hsettled =>
      have hsettled := hs hsettled
      cases habove with
      | none =>
          cases hstack
          cases hmoves with
          | plain hplain => cases hplain
          | aborted => exact .finished (hj nofun hjoined) hsettled
      | all =>
          cases hstack
          cases hmoves with
          | plain hplain => cases hplain
          | joinOver => exact .aborted .none (hj nofun hjoined) hsettled
          | joinNext => exact .aborted .one (hj nofun hjoined) hsettled
      | one =>
          cases hstack
          have hjoined := hj nofun hjoined
          cases hmoves with
          | plain hplain => cases hplain
          | joinNone _ _ => exact .aborted .all hjoined hsettled
          | joined _ _ _ => exact .aborted .all hjoined hsettled
  | stopped hjoined hsettled =>
      cases hstack
      cases hmoves with
      | plain hplain => cases hplain
      | allStopped => exact .finished (hj nofun hjoined) (hs hsettled)
  | finished => cases hstack

/-- What the threads are there for: `main` starts the set, the others of the first `n` stop flows,
and the rest run flows, which note them until they are joined. -/
structure Manned (main n : ThreadId) (w : World) : Prop where
  first : main < n
  count : n ≤ w.jobs.length
  visitors : ∀ t < n, t ≠ main → core (w.tasks t) = []
  flows : ∀ t, n ≤ t → w.tasks t = [] ∨ ∃ f m p, core (w.tasks t) = [.run f m p]
  recorded : ∀ t, n ≤ t → w.tasks t ≠ [] → ∃ f, w.threadOf f = some t
  results : ∀ t out, w.result? t = some out → w.tasks t = []
  members : ∀ f t, w.threadOf f = some t → f ∈ w.set
  spawned : ∀ f t, w.threadOf f = some t → n ≤ t
  stage : Stage w (w.tasks main) (core (w.tasks main))

variable {main n u : ThreadId}

theorem Goes.core_self (h : Goes w t a rest w₁ turn) (ha : a.helper = false) :
    core (w.tasks t) = a :: rest := by
  rw [h.tasks, core_cons_of_not (by rw [helper_quiet, ha]),
    quiet_eq_self (plain_of_not_helper ha)]

theorem Goes.core_helper (h : Goes w t a rest w₁ turn) (ha : a.helper = true) :
    core ((w₁.turn t turn).tasks t) = core (w.tasks t) := by
  rw [h.tasks_self, core_append (h.moves.helper ha), h.tasks,
    core_cons_helper ((helper_quiet a).trans ha)]

namespace Manned

theorem calm (h : Manned main n w) (hcalm : Calm w w') : Manned main n w' := by
  have htasks (t : ThreadId) : w'.tasks t = w.tasks t := tasks_of_jobs hcalm.jobs t
  have hthread (f : FlowId) : w'.threadOf f = w.threadOf f := by
    rw [threadOf_eq, hcalm.control, ← threadOf_eq]
  have hstopping (f : FlowId) : w'.stopping f = w.stopping f := by
    rw [World.stopping, World.stopping, stateOf_eq, hcalm.control, ← stateOf_eq]
  constructor
  · exact h.first
  · rw [hcalm.jobs]
    exact h.count
  · intro t ht hne
    rw [htasks]
    exact h.visitors t ht hne
  · intro t ht
    rw [htasks]
    exact h.flows t ht
  · intro t ht hbusy
    rw [htasks] at hbusy
    obtain ⟨f, hf⟩ := h.recorded t ht hbusy
    exact ⟨f, (hthread f).trans hf⟩
  · intro t out hout
    rw [result?_of_jobs hcalm.jobs] at hout
    rw [htasks]
    exact h.results t out hout
  · intro f t hf
    rw [hthread] at hf
    rw [hcalm.set]
    exact h.members f t hf
  · intro f t hf
    rw [hthread] at hf
    exact h.spawned f t hf
  · rw [htasks]
    refine h.stage.mono hcalm.set hthread (fun hjoined f => ?_) (fun hsettled f hf => ?_)
    · rw [hthread]
      exact hjoined f
    · rw [hcalm.set] at hf
      rw [hstopping]
      exact hsettled f hf

/-- Only the thread that starts the set does more than run a flow. -/
theorem eq_main (h : Manned main n w) (hgoes : Goes w t a rest w₁ turn) (ha : a.helper = false)
    (hrun : ∀ f m p, a ≠ .run f m p) : t = main := by
  have hcore := hgoes.core_self ha
  by_cases ht : t < n
  · by_cases hmain : t = main
    · exact hmain
    · rw [h.visitors t ht hmain] at hcore
      cases hcore
  · obtain hnone | ⟨f, m, p, hcore'⟩ := h.flows t (Nat.le_of_not_lt ht)
    · rw [hgoes.tasks] at hnone
      cases hnone
    · rw [hcore] at hcore'
      exact absurd (List.cons_eq_cons.mp hcore').1 (hrun f m p)

theorem main_busy_same (h : Manned main n w) (hgoes : Goes w t a rest w₁ turn) (hne : main ≠ t) :
    (w₁.turn t turn).tasks main = w.tasks main := by
  obtain hsame | ⟨hnew, _⟩ := hgoes.tasks_of_ne hne
  · exact hsame
  · exact absurd hnew (Nat.ne_of_lt (Nat.lt_of_lt_of_le h.first h.count))

/-- A flow is started while it has no thread. -/
theorem idle_of_launch (h : Manned main n w) (hgoes : Goes w t (.launch f true) rest w₁ turn) :
    f ∈ w.set ∧ w.threadOf f = none := by
  have hmain := h.eq_main hgoes rfl (by rintro _ _ _ ⟨⟩)
  subst hmain
  have hstage := h.stage
  have hcore := hgoes.core_self rfl
  generalize core (w.tasks t) = stack at hstage hcore
  cases hstage with
  | launching hl =>
      cases hcore
      exact ⟨hl.members f (List.mem_cons_self ..), hl.idle f (List.mem_cons_self ..)⟩
  | joined habove _ => cases habove <;> cases hcore
  | aborted habove _ _ => cases habove <;> cases hcore
  | _ => cases hcore

theorem threadOf_of_ne (h : Manned main n w) (hgoes : Goes w t a rest w₁ turn) (hne : t ≠ main)
    (f : FlowId) : w₁.threadOf f = w.threadOf f := by
  obtain hsame | ⟨rfl, _⟩ | ⟨_, _, rfl, _⟩ := hgoes.moves.threadOf f
  · exact hsame
  · exact absurd (h.eq_main hgoes rfl (by rintro _ _ _ ⟨⟩)) hne
  · exact absurd (h.eq_main hgoes rfl (by rintro _ _ _ ⟨⟩)) hne

theorem stage_goes (h : Manned main n w) (hgoes : Goes w t a rest w₁ turn) :
    Stage (w₁.turn t turn) ((w₁.turn t turn).tasks main)
      (core ((w₁.turn t turn).tasks main)) := by
  by_cases hmain : t = main
  · subst hmain
    cases ha : a.helper with
    | true =>
        have hhelper := hgoes.moves.helper ha
        have hlaunch : ∀ f, a ≠ .launch f true := by
          intro f hsame
          subst hsame
          cases ha
        have hthread (f : FlowId) : w₁.threadOf f = w.threadOf f := by
          obtain hsame | ⟨rfl, _⟩ | ⟨_, _, rfl, _⟩ := hgoes.moves.threadOf f
          · exact hsame
          · cases ha
          · cases ha
        rw [hgoes.core_helper ha, hgoes.tasks_self]
        refine h.stage.mono hgoes.moves.set hthread (fun hjoined => ?_) (fun hsettled => ?_)
        · rw [hgoes.tasks] at hjoined
          exact hgoes.moves.joinedUp hlaunch hjoined
        · rw [hgoes.tasks] at hsettled
          exact hgoes.moves.settled hsettled
    | false =>
        have hcore := hgoes.core_self ha
        have hstage := h.stage
        have htasks : w.tasks t = core (w.tasks t) := by
          rw [hcore, hgoes.tasks, quiet_eq_self (plain_of_not_helper ha)]
        rw [← htasks] at hstage hcore
        have hnext := hstage.moves hcore ha hgoes.moves h.members
        rw [hgoes.tasks_self]
        exact Stage.mono hnext rfl (fun _ => rfl) id id
  · have hthread := h.threadOf_of_ne hgoes hmain
    rw [h.main_busy_same hgoes (Ne.symm hmain)]
    refine h.stage.mono hgoes.moves.set hthread (fun hjoined f => ?_) (fun hsettled f hf => ?_)
    · exact (hjoined f).imp_left (hthread f).trans
    · have hset : (w₁.turn t turn).set = w.set := hgoes.moves.set
      rw [hset] at hf
      exact (hsettled f hf).imp_left hgoes.moves.stopping

theorem count_goes (h : Manned main n w) (hgoes : Goes w t a rest w₁ turn) :
    n ≤ (w₁.turn t turn).jobs.length := by
  have hlength : (w₁.turn t turn).jobs.length = w₁.jobs.length := by
    rw [length_jobs, length_jobs]
    exact List.length_modify ..
  rw [hlength]
  obtain hjobs | ⟨_, _, _, _, _, hjobs⟩ := hgoes.moves.jobs
  · rw [hjobs]
    exact h.count
  · rw [hjobs, List.length_append]
    exact Nat.le_add_right_of_le h.count

theorem visitors_goes (h : Manned main n w) (hgoes : Goes w t a rest w₁ turn) (hu : u < n)
    (hne : u ≠ main) : core ((w₁.turn t turn).tasks u) = [] := by
  by_cases hut : u = t
  · subst hut
    cases ha : a.helper with
    | true => rw [hgoes.core_helper ha, h.visitors u hu hne]
    | false =>
        have hnone := hgoes.core_self ha
        rw [h.visitors u hu hne] at hnone
        cases hnone
  · obtain hsame | ⟨hnew, _⟩ := hgoes.tasks_of_ne hut
    · rw [hsame]
      exact h.visitors u hu hne
    · exact absurd hnew (Nat.ne_of_lt (Nat.lt_of_lt_of_le hu h.count))

theorem flows_goes (h : Manned main n w) (hgoes : Goes w t a rest w₁ turn) (hu : n ≤ u) :
    (w₁.turn t turn).tasks u = [] ∨
      ∃ f m p, core ((w₁.turn t turn).tasks u) = [.run f m p] := by
  by_cases hut : u = t
  · subst hut
    obtain hnone | ⟨f, m, p, hrun⟩ := h.flows u hu
    · exact absurd hnone hgoes.busy
    · cases ha : a.helper with
      | true => exact .inr ⟨f, m, p, (hgoes.core_helper ha).trans hrun⟩
      | false =>
          rw [hgoes.core_self ha] at hrun
          cases hrun
          rw [hgoes.tasks_self]
          obtain ⟨frames, m', p', hframes, hhelper, _⟩ | ⟨d, _, rfl⟩ := hgoes.moves.run
          · refine .inr ⟨f, m', p', ?_⟩
            rw [hframes, List.append_assoc, core_append hhelper]
            rfl
          · exact .inl rfl
  · obtain hsame | ⟨_, f, m, _, _, hnew⟩ := hgoes.tasks_of_ne hut
    · rw [hsame]
      exact h.flows u hu
    · rw [hnew]
      exact .inr ⟨f, m, .lock, rfl⟩

theorem recorded_goes (h : Manned main n w) (hgoes : Goes w t a rest w₁ turn) (hu : n ≤ u)
    (hbusy : (w₁.turn t turn).tasks u ≠ []) : ∃ f, (w₁.turn t turn).threadOf f = some u := by
  by_cases hut : u = t
  · subst hut
    obtain ⟨f, hf⟩ := h.recorded u hu hgoes.busy
    have hne : u ≠ main := Ne.symm (Nat.ne_of_lt (Nat.lt_of_lt_of_le h.first hu))
    exact ⟨f, (h.threadOf_of_ne hgoes hne f).trans hf⟩
  · obtain hsame | ⟨_, f, m, _, hthread, _⟩ := hgoes.tasks_of_ne hut
    · rw [hsame] at hbusy
      obtain ⟨f, hf⟩ := h.recorded u hu hbusy
      refine ⟨f, ?_⟩
      -- A thread that is joined has a result, so it is not busy.
      obtain hkeep | ⟨rfl, _⟩ | ⟨u', out, _, _, _, hthread, hresult⟩ := hgoes.moves.threadOf f
      · exact hkeep.trans hf
      · rw [(h.idle_of_launch hgoes).2] at hf
        cases hf
      · rw [hthread] at hf
        cases hf
        exact absurd (h.results u out hresult) hbusy
    · exact ⟨f, hthread⟩

theorem results_goes (h : Manned main n w) (hgoes : Goes w t a rest w₁ turn) {out : Outcome}
    (hout : (w₁.turn t turn).result? u = some out) : (w₁.turn t turn).tasks u = [] := by
  by_cases hut : u = t
  · subst hut
    obtain hsame | ⟨htail, out', rfl, _⟩ := result?_turn_self hgoes.busy_before turn
    · rw [hsame, hgoes.moves.result?] at hout
      exact absurd (h.results u out hout) hgoes.busy
    · rw [hgoes.tasks_before, List.tail_cons] at htail
      rw [hgoes.tasks_self, htail]
      rfl
  · rw [result?_turn_of_ne hut, hgoes.moves.result?] at hout
    obtain hsame | ⟨hnew, _⟩ := hgoes.tasks_of_ne hut
    · rw [hsame]
      exact h.results u out hout
    · rw [result?_eq, hnew, List.getElem?_eq_none (Nat.le_refl _)] at hout
      cases hout

theorem members_goes (h : Manned main n w) (hgoes : Goes w t a rest w₁ turn)
    (hf : w₁.threadOf f = some u) : f ∈ w.set := by
  obtain hsame | ⟨rfl, _⟩ | ⟨_, _, _, _, hnone, _⟩ := hgoes.moves.threadOf f
  · exact h.members f u (hsame.symm.trans hf)
  · exact (h.idle_of_launch hgoes).1
  · rw [hnone] at hf
    cases hf

theorem spawned_goes (h : Manned main n w) (hgoes : Goes w t a rest w₁ turn)
    (hf : w₁.threadOf f = some u) : n ≤ u := by
  obtain hsame | ⟨_, _, hnew⟩ | ⟨_, _, _, _, hnone, _⟩ := hgoes.moves.threadOf f
  · exact h.spawned f u (hsame.symm.trans hf)
  · rw [hnew] at hf
    cases hf
    exact h.count
  · rw [hnone] at hf
    cases hf

theorem goes (h : Manned main n w) (hgoes : Goes w t a rest w₁ turn) :
    Manned main n (w₁.turn t turn) where
  first := h.first
  count := h.count_goes hgoes
  visitors _ hu hne := h.visitors_goes hgoes hu hne
  flows _ hu := h.flows_goes hgoes hu
  recorded _ hu hbusy := h.recorded_goes hgoes hu hbusy
  results _ _ hout := h.results_goes hgoes hout
  members f u hf := by
    have hset : (w₁.turn t turn).set = w.set := hgoes.moves.set
    rw [hset]
    exact h.members_goes hgoes hf
  spawned _ _ hf := h.spawned_goes hgoes hf
  stage := h.stage_goes hgoes

/-- When the thread that starts the set is over, all flows have begun to end, and all threads of
flows are joined. -/
theorem settled (h : Manned main n w) (hmain : w.tasks main = []) :
    (∀ f ∈ w.set, w.stopping f = true) ∧ ∀ f, w.threadOf f = none := by
  have hstage := h.stage
  rw [hmain] at hstage
  generalize hcore : core [] = stack at hstage
  cases hstage with
  | finished hjoined hsettled =>
      refine ⟨fun f hf => ?_, fun f => ?_⟩
      · obtain hstopping | ⟨a, ha, _⟩ := hsettled f hf
        · exact hstopping
        · cases ha
      · obtain hnone | ⟨a, ha, _⟩ := hjoined f
        · exact hnone
        · cases ha
  | joined habove _ => cases habove <;> cases hcore
  | aborted habove _ _ => cases habove <;> cases hcore
  | _ => cases hcore

/-- The threads of flows are over when the thread that starts the set is. -/
theorem idle_of_over (h : Manned main n w) (hmain : w.tasks main = []) (ht : n ≤ t) :
    w.tasks t = [] := by
  by_cases hbusy : w.tasks t = []
  · exact hbusy
  · obtain ⟨f, hf⟩ := h.recorded t ht hbusy
    rw [(h.settled hmain).2 f] at hf
    cases hf

end Manned

end World
end PullFlow.Engine
