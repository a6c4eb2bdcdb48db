import PullFlow.Proofs.Engine.Moves

/-!
The threads after a turn, and what holds in every state of a run when every turn keeps it.
-/

namespace PullFlow.Engine.World

/-- The activities of a thread without the points at which they read. -/
def tasks (w : World) (t : ThreadId) : List Activity :=
  match w.jobs[t]? with
  | some job => job.stack
  | none => []

/-- The outcome that a thread goes on with. -/
def answerOf (w : World) (t : ThreadId) : Outcome :=
  match w.jobs[t]? with
  | some job => job.answer
  | none => .ok .null

variable {w w' w₁ : World} {t u : ThreadId} {turn : Turn}

theorem result?_eq (w : World) (t : ThreadId) : w.result? t = (w.jobs[t]?).bind (·.result) := by
  rw [result?, jobs, List.getElem?_map]
  cases w.threads[t]? <;> rfl

theorem tasks_eq (w : World) (t : ThreadId) : w.tasks t = (w.stackOf t).map quiet := by
  rw [tasks, stackOf, jobs, List.getElem?_map]
  cases w.threads[t]? <;> rfl

theorem tasks_of_doing {a : Activity} (h : w.doing? t = some a) :
    ∃ rest, w.tasks t = quiet a :: rest := by
  rw [tasks_eq]
  cases hstack : w.stackOf t with
  | nil =>
      rw [doing?, hstack] at h
      cases h
  | cons b rest =>
      rw [doing?, hstack] at h
      cases h
      exact ⟨rest.map quiet, rfl⟩

theorem tasks_of_jobs (h : w'.jobs = w.jobs) (t : ThreadId) : w'.tasks t = w.tasks t := by
  rw [tasks, tasks, h]

theorem answerOf_of_jobs (h : w'.jobs = w.jobs) (t : ThreadId) : w'.answerOf t = w.answerOf t := by
  rw [answerOf, answerOf, h]

theorem result?_of_jobs (h : w'.jobs = w.jobs) (t : ThreadId) : w'.result? t = w.result? t := by
  rw [result?_eq, result?_eq, h]

theorem jobs_turn (w : World) (t u : ThreadId) (turn : Turn) :
    (w.turn t turn).jobs[u]? =
      if t = u then w.jobs[u]?.map (·.after (w.tasks t).tail turn.quiet) else w.jobs[u]? := by
  simp only [jobs, List.getElem?_map, threads_turn]
  split
  · simp only [Option.map_map]
    congr 1
    funext th
    simp only [Function.comp_apply, Thread.job_after, below_eq, tasks_eq, List.map_tail]
  · rfl

theorem frames_quiet (turn : Turn) : turn.quiet.frames = turn.frames.map quiet := by
  cases turn <;> rfl

theorem tasks_turn_self (h : w.tasks t ≠ []) :
    (w.turn t turn).tasks t = turn.frames.map quiet ++ (w.tasks t).tail := by
  cases hjob : w.jobs[t]? with
  | none => simp [tasks, hjob] at h
  | some job =>
      rw [tasks, jobs_turn, if_pos rfl, hjob, Option.map_some, ← frames_quiet]
      exact Thread.stack_after job _ turn.quiet

theorem tasks_turn_of_ne (h : u ≠ t) : (w.turn t turn).tasks u = w.tasks u := by
  rw [tasks, jobs_turn, if_neg (Ne.symm h), tasks]

theorem answerOf_turn_self (h : w.tasks t ≠ []) :
    (w.turn t turn).answerOf t = turn.answer := by
  cases hjob : w.jobs[t]? with
  | none => simp [tasks, hjob] at h
  | some job =>
      rw [answerOf, jobs_turn, if_pos rfl, hjob, Option.map_some]
      refine (Thread.answer_after job _ turn.quiet).trans ?_
      cases turn <;> rfl

theorem answerOf_turn_of_ne (h : u ≠ t) : (w.turn t turn).answerOf u = w.answerOf u := by
  rw [answerOf, jobs_turn, if_neg (Ne.symm h), answerOf]

theorem result?_turn_of_ne (h : u ≠ t) : (w.turn t turn).result? u = w.result? u := by
  rw [result?_eq, jobs_turn, if_neg (Ne.symm h), result?_eq]

/-- A thread has a result once its last activity is over. -/
theorem result?_turn_self (h : w.tasks t ≠ []) (turn : Turn) :
    (w.turn t turn).result? t = w.result? t ∨
      (w.tasks t).tail = [] ∧ ∃ out, turn = .exit out ∧ (w.turn t turn).result? t = some out := by
  cases hjob : w.jobs[t]? with
  | none => simp [tasks, hjob] at h
  | some job =>
      rw [result?_eq, jobs_turn, if_pos rfl, hjob, Option.map_some, result?_eq, hjob]
      cases turn with
      | goto a answer => exact .inl rfl
      | invoke callee back => exact .inl rfl
      | exit out =>
          cases hrest : (w.tasks t).tail with
          | nil => exact .inr ⟨rfl, out, rfl, rfl⟩
          | cons b rest => exact .inl rfl

theorem result?_exit (h : w.tasks t ≠ []) (hrest : (w.tasks t).tail = []) (out : Outcome) :
    (w.turn t (.exit out)).result? t = some out := by
  cases hjob : w.jobs[t]? with
  | none => simp [tasks, hjob] at h
  | some job =>
      rw [result?_eq, jobs_turn, if_pos rfl, hjob, Option.map_some, hrest]
      rfl

/-! What a move does to flows and threads. -/

/-- Whether the monitor of a flow is parked. -/
def parkedOf (w : World) (f : FlowId) : Bool :=
  match w.flow? f with
  | some cell => cell.parked.isSome
  | none => false

/-- The thread of a flow that is still to be joined. -/
def threadOf (w : World) (f : FlowId) : Option ThreadId :=
  match w.flow? f with
  | some cell => cell.thread
  | none => none

theorem stateOf_of_control {f : FlowId} {c : FlowState × Bool × Option ThreadId}
    (h : w.control f = some c) : w.stateOf f = c.1 := by
  rw [control] at h
  obtain ⟨cell, hcell, rfl⟩ := Option.map_eq_some_iff.mp h
  rw [stateOf, hcell]
  rfl

theorem parkedOf_of_control {f : FlowId} {c : FlowState × Bool × Option ThreadId}
    (h : w.control f = some c) : w.parkedOf f = c.2.1 := by
  rw [control] at h
  obtain ⟨cell, hcell, rfl⟩ := Option.map_eq_some_iff.mp h
  rw [parkedOf, hcell]
  rfl

theorem threadOf_of_control {f : FlowId} {c : FlowState × Bool × Option ThreadId}
    (h : w.control f = some c) : w.threadOf f = c.2.2 := by
  rw [control] at h
  obtain ⟨cell, hcell, rfl⟩ := Option.map_eq_some_iff.mp h
  rw [threadOf, hcell]
  rfl

theorem stateOf_eq (w : World) (f : FlowId) :
    w.stateOf f = ((w.control f).map (·.1)).getD .ended := by
  rw [stateOf, control]
  cases w.flow? f <;> rfl

theorem parkedOf_eq (w : World) (f : FlowId) :
    w.parkedOf f = ((w.control f).map (·.2.1)).getD false := by
  rw [parkedOf, control]
  cases w.flow? f <;> rfl

theorem threadOf_eq (w : World) (f : FlowId) : w.threadOf f = (w.control f).bind (·.2.2) := by
  rw [threadOf, control]
  cases w.flow? f <;> rfl

/-- What a move can do to a flow. `threads` is the number of threads before it. -/
inductive Effect (w : World) (f : FlowId) :
    Activity → Turn → Option (FlowState × Bool × Option ThreadId) → Prop
  | none {a : Activity} {turn : Turn} : Effect w f a turn (w.control f)
  | swap {s target : FlowState} {p : Bool} {th : Option ThreadId} {turn : Turn} :
      w.control f = some (s, p, th) → s.rank < target.rank →
      turn = .next (.advance f target (.emit s)) →
      Effect w f (.advance f target .swap) turn (some (target, p, th))
  | take {s : FlowState} {th : Option ThreadId} {m : Monitor} {turn : Turn} :
      w.control f = some (s, true, th) →
      turn = .invoke (.finish f m .monitor) (.stop f .finished) →
      Effect w f (.stop f .interrupted) turn (some (s, false, th))
  | retake {s : FlowState} {th : Option ThreadId} {m m' : Monitor} {d : Done} {turn : Turn} :
      w.control f = some (s, true, th) →
      turn = .invoke (.finish f m' .monitor) (.run f m' (.finished d)) →
      Effect w f (.run f m (.retake d)) turn (some (s, false, th))
  | park {s : FlowState} {p : Bool} {th : Option ThreadId} {m : Monitor} {d : Done} {turn : Turn} :
      w.control f = some (s, p, th) → turn = .next (.run f m (.parked d)) →
      Effect w f (.run f m (.park d)) turn (some (s, true, th))
  | thread {s : FlowState} {th : Option ThreadId} {turn : Turn} :
      w.control f = some (s, true, th) → turn = .done →
      Effect w f (.launch f true) turn (some (s, false, some w.jobs.length))
  | here {s : FlowState} {th : Option ThreadId} {m : Monitor} {turn : Turn} :
      w.control f = some (s, true, th) → turn = .next (.run f m .lock) →
      Effect w f (.launch f true) turn (some (s, false, th))
  | joined {s : FlowState} {p : Bool} {u : ThreadId} {out : Outcome} {turn : Turn} :
      w.control f = some (s, p, some u) → w.result? u = some out → turn = .exit out →
      Effect w f (.join f) turn (some (s, p, none))

theorem control_of_flow? {f : FlowId} {cell : FlowCell} (h : w.flow? f = some cell) :
    w.control f = some (cell.state, cell.parked.isSome, cell.thread) := by
  rw [control, h]
  rfl

theorem length_jobs (w : World) : w.jobs.length = w.threads.length := List.length_map ..

/-- A flow after the start of its thread. -/
theorem control_started (w : World) (f g : FlowId) (m : Monitor) (u : ThreadId) :
    (((w.modifyFlow f fun cell => { cell with parked := none }).spawn (.run f m .lock)).1.modifyFlow
      f fun cell => { cell with thread := some u }).control g =
    (w.modifyFlow f fun cell => { cell with parked := none, thread := some u }).control g := by
  simp only [control, flow?, modifyFlow, spawn, List.modify_modify_eq]
  rfl

theorem jobs_started (w : World) (f : FlowId) (m : Monitor) (u : ThreadId) :
    (((w.modifyFlow f fun cell => { cell with parked := none }).spawn (.run f m .lock)).1.modifyFlow
      f fun cell => { cell with thread := some u }).jobs =
    w.jobs ++ [⟨[.run f m .lock], .ok .null, [], none⟩] := by
  simp [jobs, modifyFlow, spawn, Thread.job, quiet]

theorem Moves.effect {answer : Outcome} {a : Activity} (h : Moves w answer a w₁ turn) (g : FlowId) :
    Effect w g a turn (w₁.control g) := by
  have hsame (h : w₁.control g = w.control g) : Effect w g a turn (w₁.control g) := by
    rw [h]
    exact .none
  have hset {f : FlowId} {cell : FlowCell} {change : FlowCell → FlowCell}
      (hcell : w.flow? f = some cell) (hw₁ : ∀ g, w₁.control g = (w.modifyFlow f change).control g)
      (heffect : f = g → Effect w g a turn (some (change cell).control)) :
      Effect w g a turn (w₁.control g) := by
    rw [hw₁, control_modifyFlow]
    split
    · next hfg =>
      subst hfg
      rw [hcell]
      exact heffect rfl
    · exact .none
  cases h with
  | plain _ hcalm _ => exact hsame (hcalm.control g)
  | announce hcalm => exact hsame (hcalm.control g)
  | finishOn _ _ _ hcalm => exact hsame (hcalm.control g)
  | runOn _ _ hcalm => exact hsame (hcalm.control g)
  | runAsk _ _ _ hcalm => exact hsame (hcalm.control g)
  | swap hcell hrank =>
      refine hset hcell (fun _ => rfl) ?_
      intro hsame
      subst hsame
      have hcontrol := control_of_flow? hcell
      exact .swap hcontrol hrank rfl
  | stopTake hcell hparked =>
      refine hset hcell (fun _ => rfl) ?_
      intro hsame
      subst hsame
      exact .take (by rw [control_of_flow? hcell, hparked]; rfl) rfl
  | runTake hcell hparked =>
      refine hset hcell (fun _ => rfl) ?_
      intro hsame
      subst hsame
      exact .retake (by rw [control_of_flow? hcell, hparked]; rfl) rfl
  | launchHere hcell hparked =>
      refine hset hcell (fun _ => rfl) ?_
      intro hsame
      subst hsame
      exact .here (by rw [control_of_flow? hcell, hparked]; rfl) rfl
  | joined hcell hthread hresult =>
      refine hset hcell (fun _ => rfl) ?_
      intro hsame
      subst hsame
      exact .joined (by rw [control_of_flow? hcell, hthread]) hresult rfl
  | @runPark f m d =>
      cases hcell : w.flow? f with
      | none =>
          refine hsame ?_
          rw [control_modifyFlow]
          split
          · next hfg =>
            subst hfg
            simp [control, hcell]
          · rfl
      | some cell =>
          refine hset hcell (fun _ => rfl) ?_
          intro hsame
          subst hsame
          have hcontrol := control_of_flow? hcell
          exact .park hcontrol rfl
  | @launchThread f cell m hcell hparked =>
      refine hset hcell (fun g => control_started w f g m w.threads.length) ?_
      intro hsame
      subst hsame
      rw [FlowCell.control, ← length_jobs]
      exact .thread (by rw [control_of_flow? hcell, hparked]; rfl) rfl
  | _ => exact hsame rfl

/-- The threads stay, and the start of a flow may add one to them. -/
theorem Moves.jobs {answer : Outcome} {a : Activity} (h : Moves w answer a w₁ turn) :
    w₁.jobs = w.jobs ∨ ∃ f m, a = .launch f true ∧ turn = .done ∧
      w₁.threadOf f = some w.jobs.length ∧
      w₁.jobs = w.jobs ++ [⟨[.run f m .lock], .ok .null, [], none⟩] := by
  cases h with
  | plain _ hcalm _ => exact .inl hcalm.jobs
  | announce hcalm => exact .inl hcalm.jobs
  | finishOn _ _ _ hcalm => exact .inl hcalm.jobs
  | runOn _ _ hcalm => exact .inl hcalm.jobs
  | runAsk _ _ _ hcalm => exact .inl hcalm.jobs
  | @launchThread f cell m hcell _ =>
      refine .inr ⟨f, m, rfl, rfl, ?_, jobs_started w f m _⟩
      have hflow : w.flows[f]? = some cell := hcell
      simp [threadOf, flow?, spawn, modifyFlow, hflow, length_jobs]
  | _ => exact .inl rfl

theorem Moves.set {answer : Outcome} {a : Activity} (h : Moves w answer a w₁ turn) :
    w₁.set = w.set := by
  cases h with
  | plain _ hcalm _ => exact hcalm.set
  | announce hcalm => exact hcalm.set
  | finishOn _ _ _ hcalm => exact hcalm.set
  | runOn _ _ hcalm => exact hcalm.set
  | runAsk _ _ _ hcalm => exact hcalm.set
  | _ => rfl

/-- A thread that is busy with an activity, above others, moves and takes a turn. -/
structure Goes (w : World) (t : ThreadId) (a : Activity) (rest : List Activity) (w₁ : World)
    (turn : Turn) : Prop where
  tasks : w.tasks t = quiet a :: rest
  moves : Moves w (w.answerOf t) a w₁ turn
  step : a.step w t (w.answerOf t) = some (w₁, turn) ∨ ∃ r, a = .host r

theorem answerOf_of_get {th : Thread} (h : w.threads[t]? = some th) : w.answerOf t = th.answer := by
  rw [answerOf, jobs, List.getElem?_map, h]
  rfl

theorem goes_of_step {a : Activity} (ha : w.doing? t = some a) (h : w.step t = some w') :
    ∃ rest w₁ turn, Goes w t a rest w₁ turn ∧ w' = w₁.turn t turn := by
  obtain ⟨th, b, rest, w₁, turn, hth, hstack, hstep, rfl⟩ := step_eq_some h
  have hb : b = a := by
    rw [doing?, stackOf_of_get hth, hstack] at ha
    exact Option.some_inj.mp ha
  subst hb
  refine ⟨rest.map quiet, w₁, turn, ⟨?_, ?_, .inl ?_⟩, rfl⟩
  · rw [tasks_eq, stackOf_of_get hth, hstack]
    rfl
  · rw [answerOf_of_get hth]
    exact step_moves hstep
  · rw [answerOf_of_get hth]
    exact hstep

theorem goes_of_host {r : HostRequest} (hr : w.doing? t = some (.host r)) (out : Outcome) :
    ∃ rest w₁ turn, Goes w t (.host r) rest w₁ turn ∧ w.hostReply t out = w₁.turn t turn := by
  cases hstack : w.stackOf t with
  | nil => simp [doing?, hstack] at hr
  | cons a rest =>
      have ha : a = .host r := by simpa [doing?, hstack] using hr
      subst ha
      refine ⟨rest.map quiet, w, .exit out, ⟨?_, .plain rfl (.refl w) trivial, .inr ⟨r, rfl⟩⟩, ?_⟩
      · rw [tasks_eq, hstack]
        rfl
      · obtain heq | ⟨th, r', rest', hth, hstack', heq⟩ := hostReply_eq w t out
        · cases hth : w.threads[t]? with
          | none => simp [stackOf, hth] at hstack
          | some th =>
              rw [stackOf_of_get hth] at hstack
              simp [hostReply, hostRequest?, hth, hstack]
        · exact heq

theorem calm_tick (nanos : Nat) : Calm w (w.tick nanos) :=
  ⟨rfl, rfl, fun _ => rfl, fun _ _ => Iff.rfl⟩

/-- What every turn keeps holds in every state of a run. -/
theorem Run.keep {start : World} {P : List Taken → World → Prop}
    (hstart : P [] start)
    (hcalm : ∀ trace w w', Calm w w' → P trace w → P trace w')
    (hgoes : ∀ trace w t a rest w₁ turn, Goes w t a rest w₁ turn → P trace w →
      P (⟨w, t, a⟩ :: trace) (w₁.turn t turn))
    {trace : List Taken} {w : World} (h : Run start trace w) : P trace w := by
  induction h with
  | refl => exact hstart
  | step _ ha hstep ih =>
      obtain ⟨rest, w₁, turn, hmove, rfl⟩ := goes_of_step ha hstep
      exact hgoes _ _ _ _ _ _ _ hmove ih
  | @host _ _ _ _ out _ hr ih =>
      obtain ⟨rest, w₁, turn, hmove, heq⟩ := goes_of_host hr out
      rw [heq]
      exact hgoes _ _ _ _ _ _ _ hmove ih
  | tick _ ih => exact hcalm _ _ _ (calm_tick _) ih

theorem jobs_lt (h : w.tasks t ≠ []) : t < w.jobs.length := by
  rw [tasks] at h
  cases hjob : w.jobs[t]? with
  | none => simp [hjob] at h
  | some job => exact (List.getElem?_eq_some_iff.mp hjob).1

/-- A move leaves what the threads are busy with, and may add a thread for a flow. -/
theorem Moves.tasks {answer : Outcome} {a : Activity} (h : Moves w answer a w₁ turn)
    (u : ThreadId) : w₁.tasks u = w.tasks u ∨ u = w.jobs.length ∧ ∃ f m, a = .launch f true ∧
      w₁.threadOf f = some u ∧ w₁.tasks u = [.run f m .lock] := by
  obtain hjobs | ⟨f, m, ha, _, hthread, hjobs⟩ := h.jobs
  · exact .inl (tasks_of_jobs hjobs u)
  · rcases Nat.lt_trichotomy u w.jobs.length with hu | hu | hu
    · refine .inl ?_
      rw [World.tasks, hjobs, List.getElem?_append_left hu, World.tasks]
    · refine .inr ⟨hu, f, m, ha, hu ▸ hthread, ?_⟩
      rw [World.tasks, hjobs, hu, List.getElem?_concat_length]
    · refine .inl ?_
      rw [World.tasks, World.tasks, hjobs, List.getElem?_eq_none (Nat.le_of_lt hu),
        List.getElem?_eq_none (by rw [List.length_append]; exact hu)]

theorem Moves.answerOf {answer : Outcome} {a : Activity} (h : Moves w answer a w₁ turn)
    (u : ThreadId) : w₁.answerOf u = w.answerOf u := by
  obtain hjobs | ⟨f, m, ha, _, hthread, hjobs⟩ := h.jobs
  · exact answerOf_of_jobs hjobs u
  · rcases Nat.lt_trichotomy u w.jobs.length with hu | hu | hu
    · rw [World.answerOf, hjobs, List.getElem?_append_left hu, World.answerOf]
    · rw [World.answerOf, World.answerOf, hjobs, hu, List.getElem?_concat_length,
        List.getElem?_eq_none (Nat.le_refl _)]
    · rw [World.answerOf, World.answerOf, hjobs, List.getElem?_eq_none (Nat.le_of_lt hu),
        List.getElem?_eq_none (by rw [List.length_append]; exact hu)]

theorem Moves.result? {answer : Outcome} {a : Activity} (h : Moves w answer a w₁ turn)
    (u : ThreadId) : w₁.result? u = w.result? u := by
  obtain hjobs | ⟨f, m, ha, _, hthread, hjobs⟩ := h.jobs
  · exact result?_of_jobs hjobs u
  · rw [result?_eq, result?_eq, hjobs]
    rcases Nat.lt_trichotomy u w.jobs.length with hu | hu | hu
    · rw [List.getElem?_append_left hu]
    · rw [hu, List.getElem?_concat_length, List.getElem?_eq_none (Nat.le_refl _)]
      rfl
    · rw [List.getElem?_eq_none (Nat.le_of_lt hu),
        List.getElem?_eq_none (by rw [List.length_append]; exact hu)]

namespace Goes

variable {a : Activity} {rest : List Activity}

theorem busy (h : Goes w t a rest w₁ turn) : w.tasks t ≠ [] := by
  rw [h.tasks]
  exact List.cons_ne_nil _ _

theorem tasks_before (h : Goes w t a rest w₁ turn) : w₁.tasks t = quiet a :: rest := by
  obtain hsame | ⟨hnew, _⟩ := h.moves.tasks t
  · rw [hsame, h.tasks]
  · exact absurd hnew (Nat.ne_of_lt (jobs_lt h.busy))

theorem busy_before (h : Goes w t a rest w₁ turn) : w₁.tasks t ≠ [] := by
  rw [h.tasks_before]
  exact List.cons_ne_nil _ _

/-- What the thread itself is busy with afterwards. -/
theorem tasks_self (h : Goes w t a rest w₁ turn) :
    (w₁.turn t turn).tasks t = turn.frames.map quiet ++ rest := by
  rw [tasks_turn_self h.busy_before, h.tasks_before, List.tail_cons]

theorem tasks_of_ne (h : Goes w t a rest w₁ turn) (hu : u ≠ t) :
    (w₁.turn t turn).tasks u = w.tasks u ∨ u = w.jobs.length ∧ ∃ f m, a = .launch f true ∧
      w₁.threadOf f = some u ∧ (w₁.turn t turn).tasks u = [.run f m .lock] := by
  rw [tasks_turn_of_ne hu]
  exact h.moves.tasks u

/-- Other threads that are busy stay as they are. -/
theorem tasks_of_busy (h : Goes w t a rest w₁ turn) (hu : u ≠ t) (hbusy : w.tasks u ≠ []) :
    (w₁.turn t turn).tasks u = w.tasks u := by
  obtain hsame | ⟨hnew, _⟩ := h.tasks_of_ne hu
  · exact hsame
  · exact absurd hnew (Nat.ne_of_lt (jobs_lt hbusy))

theorem answerOf_self (h : Goes w t a rest w₁ turn) :
    (w₁.turn t turn).answerOf t = turn.answer :=
  answerOf_turn_self h.busy_before

theorem answerOf_of_ne (h : Goes w t a rest w₁ turn) (hu : u ≠ t) :
    (w₁.turn t turn).answerOf u = w.answerOf u := by
  rw [answerOf_turn_of_ne hu, h.moves.answerOf]

end Goes

end PullFlow.Engine.World
