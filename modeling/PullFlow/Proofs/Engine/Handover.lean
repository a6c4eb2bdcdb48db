import PullFlow.Proofs.Engine.Turns

/-!
How the monitor of a flow is handed on. It is parked, or some thread runs it or is about to finish
the flow with it, or the flow has been finished with it: always exactly one of these, however the
start of the flow, its run and its stops interleave.
-/

namespace PullFlow.Engine

/-- Whether an activity has the monitor of a flow. With `late` it keeps it until the flow is
finished, else until the finish begins. -/
def handles (late : Bool) (f : FlowId) : Activity → Bool
  | .run g _ p => decide (g = f) && !p.gone
  | .finish g _ .monitor => decide (g = f)
  | .finish g _ _ => decide (g = f) && late
  | _ => false

/-- Whether a step of an activity uses up the monitor of a flow. -/
def usesUp (late : Bool) (f : FlowId) : Activity → Bool
  | .finish g _ .monitor => decide (g = f) && !late
  | .finish g _ .announced => decide (g = f) && late
  | _ => false

variable {late : Bool} {f : FlowId} {a : Activity}

theorem handles_run (late : Bool) (f g : FlowId) (m : Monitor) (p : RunPoint) :
    handles late f (.run g m p) = (decide (g = f) && !p.gone) :=
  rfl

theorem usesUp_run (late : Bool) (f g : FlowId) (m : Monitor) (p : RunPoint) :
    usesUp late f (.run g m p) = false :=
  rfl

theorem handles_quiet (late : Bool) (f : FlowId) (a : Activity) :
    handles late f (quiet a) = handles late f a := by
  cases a <;> rfl

theorem handles_plain (h : a.plain = true) : handles late f a = false := by
  cases a <;> first | rfl | cases h

theorem usesUp_plain (h : a.plain = true) : usesUp late f a = false := by
  cases a <;> first | rfl | cases h

theorem handles_asked {w : World} (h : Asked w a) : handles late f a = false := by
  cases h with
  | plain h => exact handles_plain h
  | stopAll => rfl
  | advance => rfl

theorem handles_served (late : Bool) (f : FlowId) {g : FlowId} (h : a.served g) :
    handles late f a = false := by
  obtain h | rfl := h
  · exact handles_plain h
  · rfl

/-- A plain activity leaves no monitor behind. -/
theorem countP_plain {w : World} {turn : Turn} (h : turn.Plain w) :
    turn.frames.countP (handles late f) = 0 := by
  cases turn with
  | goto b answer => simp [Turn.frames, handles_plain h]
  | invoke callee back => simp [Turn.frames, handles_asked h.1, handles_plain h.2]
  | exit out => rfl

theorem countP_flatMap_modify {α β : Type} (p : β → Bool) (parts : α → List β) (change : α → α)
    {items : List α} {i : Nat} {x : α} (h : items[i]? = some x) :
    ((items.modify i change).flatMap parts).countP p + (parts x).countP p =
      (items.flatMap parts).countP p + (parts (change x)).countP p := by
  induction items generalizing i with
  | nil => cases h
  | cons y items ih =>
      cases i with
      | zero =>
          cases h
          simp only [List.modify_zero_cons, List.flatMap_cons, List.countP_append]
          omega
      | succ i =>
          have hrest := ih (i := i) h
          simp only [List.modify_succ_cons, List.flatMap_cons, List.countP_append]
          omega

namespace World

variable {w w₁ : World} {t : ThreadId} {turn : Turn} {rest : List Activity}

/-- How often threads have the monitor of a flow. -/
def held (late : Bool) (f : FlowId) (w : World) : Nat :=
  (w.jobs.flatMap Thread.stack).countP (handles late f)

theorem held_turn (late : Bool) (f : FlowId) (h : w.tasks t = quiet a :: rest) (turn : Turn) :
    held late f (w.turn t turn) + (handles late f a).toNat =
      held late f w + turn.frames.countP (handles late f) := by
  cases hjob : w.jobs[t]? with
  | none => simp [World.tasks, hjob] at h
  | some job =>
      have hstack : job.stack = quiet a :: rest := by simpa [World.tasks, hjob] using h
      have hjobs : (w.turn t turn).jobs = w.jobs.modify t (·.after rest turn.quiet) := by
        refine List.ext_getElem? fun u => ?_
        rw [jobs_turn, List.getElem?_modify, h, List.tail_cons]
        split <;> simp
      have hcount := countP_flatMap_modify (handles late f) Thread.stack
        (·.after rest turn.quiet) hjob
      have hframes : (turn.frames.map quiet).countP (handles late f) =
          turn.frames.countP (handles late f) := by
        rw [List.countP_map]
        exact List.countP_congr fun b _ => by simp [handles_quiet]
      rw [Thread.stack_after, List.countP_append, frames_quiet, hframes, hstack, List.countP_cons,
        handles_quiet] at hcount
      simp only [held, hjobs]
      cases ha : handles late f a <;> simp [ha] at hcount ⊢ <;> omega

theorem held_of_jobs (h : w₁.jobs = w.jobs) : held late f w₁ = held late f w := by
  rw [held, held, h]

theorem held_spawn (h : w₁.jobs = w.jobs ++ [⟨[a], .ok .null, [], none⟩]) :
    held late f w₁ = held late f w + (handles late f a).toNat := by
  simp only [held, h, List.flatMap_append, List.countP_append]
  cases ha : handles late f a <;> simp [ha]

theorem parkedOf_modifyFlow {g : FlowId} {cell : FlowCell} (hcell : w.flow? g = some cell)
    (change : FlowCell → FlowCell) (f : FlowId) :
    (w.modifyFlow g change).parkedOf f =
      if g = f then (change cell).parked.isSome else w.parkedOf f := by
  by_cases hgf : g = f
  · subst hgf
    simp [parkedOf, flow?_modifyFlow, hcell]
  · simp [parkedOf, flow?_modifyFlow, hgf]

theorem parkedOf_of_keep {g : FlowId} {cell : FlowCell} (hcell : w.flow? g = some cell)
    {change : FlowCell → FlowCell} (hkeep : (change cell).parked = cell.parked) :
    (w.modifyFlow g change).parkedOf f = w.parkedOf f := by
  rw [parkedOf_modifyFlow hcell]
  split
  · next hgf =>
    subst hgf
    rw [hkeep, parkedOf, hcell]
  · rfl

@[simp] theorem parkedOf_emit (event : Event) : (w.emit event).parkedOf f = w.parkedOf f := rfl

@[simp] theorem held_emit (event : Event) : held late f (w.emit event) = held late f w := rfl

@[simp] theorem held_modifyFlow (g : FlowId) (change : FlowCell → FlowCell) :
    held late f (w.modifyFlow g change) = held late f w := rfl

theorem parkedOf_of_flow? {cell : FlowCell} (h : w.flow? f = some cell) :
    w.parkedOf f = cell.parked.isSome := by
  rw [parkedOf, h]

@[simp] theorem gone_lock : RunPoint.lock.gone = false := rfl

@[simp] theorem gone_retake (d : Done) : (RunPoint.retake d).gone = true := rfl

@[simp] theorem gone_decide (d : Done) : (RunPoint.decide d).gone = false := rfl

@[simp] theorem gone_finished (d : Done) : (RunPoint.finished d).gone = true := rfl

theorem gone_of_end? {p : RunPoint} (h : p.end? = none) : p.gone = false := by
  cases p <;> first | rfl | cases h

/-- A monitor is taken from where it is parked. -/
theorem parkedOf_take {g : FlowId} {cell : FlowCell} {m : Monitor} (hcell : w.flow? g = some cell)
    (hparked : cell.parked = some m) :
    ((w.modifyFlow g fun cell => { cell with parked := none }).parkedOf f).toNat +
      (decide (g = f)).toNat = (w.parkedOf f).toNat := by
  rw [parkedOf_modifyFlow hcell]
  by_cases hgf : g = f
  · subst hgf
    simp [parkedOf_of_flow? hcell, hparked]
  · simp [hgf]

/-- A move hands a monitor on, or uses it up: none is lost and none doubled. -/
theorem Moves.balance (late : Bool) {answer : Outcome} (h : Moves w answer a w₁ turn)
    (hflow : ∃ cell, w.flow? f = some cell)
    (hpark : ∀ m d, a = .run f m (.park d) → w.parkedOf f = false) :
    (w₁.parkedOf f).toNat + held late f w₁ + turn.frames.countP (handles late f) +
        (usesUp late f a).toNat =
      (w.parkedOf f).toNat + held late f w + (handles late f a).toNat := by
  have hcalm (hcalm : Calm w w₁) :
      w₁.parkedOf f = w.parkedOf f ∧ held late f w₁ = held late f w := by
    refine ⟨?_, held_of_jobs hcalm.jobs⟩
    rw [parkedOf_eq, parkedOf_eq, hcalm.control]
  cases h with
  | plain hplain hsame hturn =>
      simp [hcalm hsame, countP_plain hturn, usesUp_plain hplain, handles_plain hplain]
  | announce hsame => simp [hcalm hsame, Turn.frames, handles, usesUp]
  | @finishOn g m m' p p' _ hp hp' hp'' hsame =>
      by_cases hgf : g = f <;> cases late <;> cases p <;> cases p' <;>
        simp_all [Turn.frames, Turn.next, handles, usesUp]
  | @finishEnd g m =>
      by_cases hgf : g = f <;> cases late <;> simp [Turn.frames, handles, usesUp, hgf]
  | @finished g m =>
      by_cases hgf : g = f <;> cases late <;> simp [Turn.frames, Turn.done, handles, usesUp, hgf]
  | @runOn g m m' p p' _ out hp hp' hsame =>
      by_cases hgf : g = f <;>
        simp [hcalm hsame, Turn.frames, handles, usesUp, gone_of_end? hp, gone_of_end? hp', hgf]
  | @runAsk g m p p' b _ hp hp' hserved hsame =>
      have hb := handles_served late f hserved
      by_cases hgf : g = f <;>
        simp [hcalm hsame, Turn.frames, handles_run, usesUp_run, gone_of_end? hp, gone_of_end? hp',
          hb, hgf]
  | @runAbandon g m p hp =>
      by_cases hgf : g = f <;>
        simp [Turn.frames, handles, usesUp, gone_of_end? hp, hgf]
  | @runPass g m p hp =>
      by_cases hgf : g = f <;>
        simp [Turn.frames, Turn.next, handles, usesUp, gone_of_end? hp, hgf]
  | @runReport g _ _ _ _ _ | @runFail g _ _ _ _ =>
      by_cases hgf : g = f <;> simp [Turn.frames, Turn.next, handles, usesUp, RunPoint.gone, hgf]
  | @runDecide g m p p' _ hp hp' =>
      by_cases hgf : g = f <;> simp [Turn.frames, Turn.next, handles, usesUp, hp, hp', hgf]
  | @runEnding g m d | @runRelease g m d | @runFinish g m d =>
      by_cases hgf : g = f <;> simp [Turn.frames, handles, usesUp, RunPoint.gone, hgf]
  | swap hcell _ =>
      simp [parkedOf_of_keep hcell, Turn.frames, Turn.next, handles, usesUp]
  | joined hcell _ _ => simp [parkedOf_of_keep hcell, Turn.frames, handles, usesUp]
  -- A parked monitor is taken: what the slot loses, the thread has from now on.
  | @stopTake g _ _ hcell hparked | @runTake g _ _ _ _ hcell hparked
  | @launchHere g _ _ hcell hparked =>
      have htake := parkedOf_take (f := f) hcell hparked
      by_cases hgf : g = f <;>
        simp [Turn.frames, Turn.next, handles, usesUp, hgf] at htake ⊢ <;> omega
  | @launchThread g cell m hcell hparked =>
      have htake := parkedOf_take (f := f) hcell hparked
      have hparkedOf (u : ThreadId) :
          (((w.modifyFlow g fun cell => { cell with parked := none }).spawn
            (.run g m .lock)).1.modifyFlow g
              fun cell => { cell with thread := some u }).parkedOf f =
          (w.modifyFlow g fun cell => { cell with parked := none }).parkedOf f := by
        rw [parkedOf_eq, control_started, ← parkedOf_eq, parkedOf_modifyFlow hcell,
          parkedOf_modifyFlow hcell]
      rw [hparkedOf, held_spawn (jobs_started w g m _), handles_run]
      simp [Turn.frames, Turn.done, handles, usesUp]
      omega
  | @runPark g m d =>
      obtain ⟨cell, hcell⟩ := hflow
      -- Two parked monitors would be counted as one, so the slot must be empty before.
      by_cases hgf : g = f
      · subst hgf
        rw [parkedOf_modifyFlow hcell]
        simp [hpark m d rfl, Turn.frames, Turn.next, handles, usesUp, RunPoint.gone]
        omega
      · have hparked : (w.modifyFlow g fun cell => { cell with parked := some m }).parkedOf f =
            w.parkedOf f := by
          simp [parkedOf, flow?_modifyFlow, hgf]
        simp [hparked, Turn.frames, Turn.next, handles, usesUp, hgf]
  | _ =>
      simp [Turn.frames, Turn.next, Turn.done, Turn.ofDone, handles, usesUp, RunPoint.gone]

theorem held_pos (ha : a ∈ w.tasks t) (h : handles late f a = true) : 0 < held late f w := by
  cases hjob : w.jobs[t]? with
  | none => simp [World.tasks, hjob] at ha
  | some job =>
      have hmem : a ∈ job.stack := by simpa [World.tasks, hjob] using ha
      have hall : a ∈ w.jobs.flatMap Thread.stack :=
        List.mem_flatMap.mpr ⟨job, List.mem_of_getElem? hjob, hmem⟩
      exact List.countP_pos_iff.mpr ⟨a, hall, h⟩

/-- Nobody has the monitor if no activity does. -/
theorem held_eq_zero (h : ∀ t, ∀ a ∈ w.tasks t, handles late f a = false) :
    held late f w = 0 := by
  refine List.countP_eq_zero.mpr fun a ha => ?_
  obtain ⟨job, hjob, hmem⟩ := List.mem_flatMap.mp ha
  obtain ⟨u, hu⟩ := List.mem_iff_getElem?.mp hjob
  rw [h u a (by rw [World.tasks, hu]; exact hmem)]
  exact Bool.false_ne_true

/-- The monitor of a flow is in exactly one place, or was used up once. -/
structure Kept (f : FlowId) (trace : List Taken) (w : World) : Prop where
  flow : ∃ cell, w.flow? f = some cell
  once : ∀ late, (w.parkedOf f).toNat + held late f w +
    trace.countP (fun taken => usesUp late f taken.activity) = 1

variable {trace : List Taken} {w' : World}

theorem flow?_of_control (h : w'.control f = w.control f) :
    (∃ cell, w'.flow? f = some cell) ↔ ∃ cell, w.flow? f = some cell := by
  rw [control, control] at h
  cases hcell : w.flow? f <;> cases hcell' : w'.flow? f <;> simp_all

theorem Kept.calm (h : Kept f trace w) (hcalm : Calm w w') : Kept f trace w' := by
  refine ⟨(flow?_of_control (hcalm.control f)).mpr h.flow, fun late => ?_⟩
  rw [parkedOf_eq, hcalm.control, ← parkedOf_eq, held_of_jobs hcalm.jobs]
  exact h.once late

/-- A thread that has the monitor has the only one. -/
theorem Kept.parkedOf_eq_false (h : Kept f trace w) (late : Bool) (ha : a ∈ w.tasks t)
    (hhandles : handles late f a = true) : w.parkedOf f = false := by
  have hpos := held_pos ha hhandles
  have honce := h.once late
  cases hparked : w.parkedOf f with
  | false => rfl
  | true =>
      simp only [hparked, Bool.toNat_true] at honce
      omega

/-- Who has the monitor has it alone, and once. -/
theorem Kept.alone (h : Kept f trace w) (late : Bool) (ha : a ∈ w.tasks t)
    (hhandles : handles late f a = true) : (w.tasks t).countP (handles late f) = 1 ∧
      (∀ u, u ≠ t → ∀ b ∈ w.tasks u, handles late f b = false) ∧
        ∀ taken ∈ trace, usesUp late f taken.activity = false := by
  have hpos := held_pos ha hhandles
  have honce := h.once late
  have hheld : held late f w = 1 := by omega
  have hused : trace.countP (fun taken => usesUp late f taken.activity) = 0 := by omega
  cases hjob : w.jobs[t]? with
  | none => simp [World.tasks, hjob] at ha
  | some job =>
      have htasks : w.tasks t = job.stack := by rw [World.tasks, hjob]
      rw [htasks] at ha ⊢
      -- without this thread nobody would have it
      have hcount := countP_flatMap_modify (handles late f) Thread.stack
        (fun job => { job with stack := [] }) hjob
      have hown : 0 < job.stack.countP (handles late f) :=
        List.countP_pos_iff.mpr ⟨a, ha, hhandles⟩
      simp only [List.countP_nil, Nat.add_zero] at hcount
      rw [held] at hheld
      have hothers : ((w.jobs.modify t fun job => { job with stack := [] }).flatMap
          Thread.stack).countP (handles late f) = 0 := by omega
      refine ⟨by omega, fun u hu b hb => ?_, fun taken htaken => ?_⟩
      · cases hother : w.jobs[u]? with
        | none => simp [World.tasks, hother] at hb
        | some other =>
            have hmem : b ∈ other.stack := by simpa [World.tasks, hother] using hb
            have hstays : (w.jobs.modify t fun job => { job with stack := [] })[u]? =
                some other := by
              rw [List.getElem?_modify, hother]
              simp [Ne.symm hu]
            exact Bool.eq_false_iff.mpr (List.countP_eq_zero.mp hothers b
              (List.mem_flatMap.mpr ⟨other, List.mem_of_getElem? hstays, hmem⟩))
      · exact Bool.eq_false_iff.mpr (List.countP_eq_zero.mp hused taken htaken)

theorem Moves.flow? {answer : Outcome} (h : Moves w answer a w₁ turn)
    (hflow : ∃ cell, w.flow? f = some cell) : ∃ cell, w₁.flow? f = some cell := by
  obtain ⟨cell, hcell⟩ := hflow
  have hcontrol := control_of_flow? hcell
  have hsome : ∃ c, w₁.control f = some c := by
    have heffect := h.effect f
    generalize w₁.control f = after at heffect ⊢
    cases heffect with
    | none => exact ⟨_, hcontrol⟩
    | _ => exact ⟨_, rfl⟩
  obtain ⟨c, hc⟩ := hsome
  obtain ⟨cell', hcell', _⟩ := Option.map_eq_some_iff.mp hc
  exact ⟨cell', hcell'⟩

theorem Kept.goes (h : Kept f trace w) (hgoes : Goes w t a rest w₁ turn) :
    Kept f (⟨w, t, a⟩ :: trace) (w₁.turn t turn) := by
  refine ⟨hgoes.moves.flow? h.flow, fun late => ?_⟩
  have hpark (m : Monitor) (d : Done) (ha : a = .run f m (.park d)) : w.parkedOf f = false := by
    have hmem : quiet a ∈ w.tasks t := by
      rw [hgoes.tasks]
      exact List.mem_cons_self ..
    refine h.parkedOf_eq_false true hmem ?_
    simp [handles_quiet, ha, handles_run, RunPoint.gone]
  have hbalance := hgoes.moves.balance late h.flow hpark
  have hturn := held_turn late f hgoes.tasks_before turn
  have honce := h.once late
  have hparked : (w₁.turn t turn).parkedOf f = w₁.parkedOf f := rfl
  rw [hparked, List.countP_cons]
  cases ha : usesUp late f a <;> simp [ha] at hbalance ⊢ <;> omega

end World
end PullFlow.Engine
