import PullFlow.Proofs.Dealings
import PullFlow.Proofs.Engine.Bracketing
import PullFlow.Proofs.Engine.Unhindered

/-!
The deeds of the monitor of a flow in the course of a run, read off its turns. The monitor is run by
one thread at a time, which takes one deed after the other; what it asks for stands right above it
on the stack of that thread and comes to the outcome that it is told. So the deeds of every run are
those of a monitor that began as the flow's monitor was set up.
-/

namespace PullFlow.Engine

/-- The deed of a monitor in a turn of its run. -/
def RunPoint.deed? (stopped : Bool) (answer : Outcome) : RunPoint → Option Deed
  | .drive (.act .stopped _) => some (.finds stopped)
  | .drive (.act a _) => some (.asks a)
  | .drive (.finish d) => some (.ends d)
  | .acting w => some (.told w answer)
  | _ => none

/-- The deed of the monitor of a flow, or of the flow for it, in a turn of an activity. -/
def Activity.deed? (f : FlowId) (stopped : Bool) (answer : Outcome) : Activity → Option Deed
  | .run g _ q => if g = f then q.deed? stopped answer else none
  | .sleep g _ => if g = f then some (.finds stopped) else none
  | .push g v (.performed d) => if g = f then some (.sinks v d) else none
  | .push g v .emit => if g = f then some (.announces v) else none
  | _ => none

namespace World

def Taken.deed? (f : FlowId) (taken : Taken) : Option Deed :=
  taken.activity.deed? f (taken.before.stoppedOf f) (taken.before.answerOf taken.thread)

/-- The deeds of the monitor of a flow in the turns of a run, the latest first. -/
def deeds (f : FlowId) (trace : List Taken) : Dealings := trace.filterMap (Taken.deed? f)

/-! Where a monitor is. -/

/-- `Serves f stand w a`: with `a` the thread does what the monitor waits for. -/
inductive Serves (f : FlowId) : Stand → MonitorWait → Activity → Prop where
  | read {w : MonitorWait} {p : ReadPoint} : Serves f (.waits .pull w) w (.read f p)
  | push {w : MonitorWait} {v : Value} {p : PushPoint} : p ≠ .emit →
      Serves f (.waits (.push v) w) w (.push f v p)
  | emit {w : MonitorWait} {v : Value} : Serves f (.taken v w) w (.push f v .emit)
  | sleep {w : MonitorWait} {d : Duration} {deadline : Nat} :
      Serves f (.waits (.sleep d) w) w (.sleep f deadline)
  | sinks {w : MonitorWait} : Serves f (.waits .sinksActive w) w (.sinksActive f)

theorem Serves.quiet_eq {f : FlowId} {stand : Stand} {w : MonitorWait} {a : Activity}
    (h : Serves f stand w a) : quiet a = a := by
  cases h <;> rfl

/-- `Hears stand w out`: a monitor that waits there may be told an outcome. -/
inductive Hears : Stand → MonitorWait → Outcome → Prop where
  | answer {a : MonitorAct} {w : MonitorWait} {out : Outcome} : a.inquires = true →
      Hears (.waits a w) w out
  | settled {w : MonitorWait} {out : Outcome} : Hears (.settled out w) w out

end World

/-- Points of a run before the monitor begins. -/
def RunPoint.early : RunPoint → Bool
  | .lock | .advance | .advanced | .release | .start | .abandon | .abandoned | .monitor => true
  | _ => false

/-- Points of a run after the monitor is over. -/
def RunPoint.late : RunPoint → Bool
  | .judge _ | .fail _ | .decide _ | .ending _ | .interrupt _ | .finish _ => true
  | _ => false

namespace World

/-- `Placed f b log callee answer m q`: a run that stands at `q` with the monitor `m`, below `callee`
or on top of its thread with `answer` at hand, is where the deeds of a log have brought it. -/
inductive Placed (f : FlowId) (b : MonitorBody) (log : Dealings) :
    Option Activity → Outcome → Monitor → RunPoint → Prop where
  | early {callee : Option Activity} {answer : Outcome} {m : Monitor} {q : RunPoint} :
      q.early = true → log = [] → m.body = b → Placed f b log callee answer m q
  | ready {answer : Outcome} {m : Monitor} {move : MonitorMove} :
      Plays b log m.body (.ready move) → Placed f b log none answer m (.drive move)
  | served {callee : Activity} {answer : Outcome} {m : Monitor} {stand : Stand} {w : MonitorWait} :
      Plays b log m.body stand → Serves f stand w callee →
      Placed f b log (some callee) answer m (.acting w)
  | answered {answer : Outcome} {m : Monitor} {stand : Stand} {w : MonitorWait} :
      Plays b log m.body stand → Hears stand w answer → Placed f b log none answer m (.acting w)
  | late {callee : Option Activity} {answer : Outcome} {m : Monitor} {q : RunPoint} :
      q.late = true → Placed f b log callee answer m q

/-- The deeds so far are those of the monitor of a flow, which is where they have brought it. -/
structure Dealt (f : FlowId) (b : MonitorBody) (trace : List Taken) (w : World) : Prop where
  plays : ∃ body stand, Plays b (deeds f trace) body stand
  parked : ∀ m, w.parked? f = some m → deeds f trace = [] ∧ m.body = b ∧ m.stage.ready = true
  placed : ∀ t above m q below, w.tasks t = above ++ .run f m q :: below → q.gone = false →
    Placed f b (deeds f trace) above.getLast? (w.answerOf t) m q

variable {w w₁ start : World} {t u : ThreadId} {f g : FlowId} {a : Activity} {b : MonitorBody}
  {m : Monitor} {answer : Outcome} {turn : Turn} {rest : List Activity} {trace : List Taken}
  {log : Dealings} {stopped : Bool} {d : Deed}

theorem deeds_cons (f : FlowId) (w : World) (t : ThreadId) (a : Activity) (trace : List Taken) :
    deeds f (⟨w, t, a⟩ :: trace) =
      (a.deed? f (w.stoppedOf f) (w.answerOf t)).toList ++ deeds f trace := by
  have hdeed : Taken.deed? f ⟨w, t, a⟩ = a.deed? f (w.stoppedOf f) (w.answerOf t) := rfl
  rw [deeds, List.filterMap_cons, hdeed]
  cases a.deed? f (w.stoppedOf f) (w.answerOf t) <;> rfl

/-! What serves the monitor. -/

/-- A payload is given to a sink above a run that waits for that. -/
theorem run_below_push {v : Value} {p : PushPoint} (h : Stacked (.push f v p :: rest)) :
    ∃ m wait below, rest = .run f m (.acting wait) :: below := by
  obtain ⟨back, below, callee, rfl, hasks, v', q, rfl⟩ :=
    h.asked (P := fun a => ∃ v q, a = .push f v q) (by
      rintro a b hab ⟨v, q, rfl⟩
      cases hab
      exact ⟨_, _, rfl⟩) ⟨v, p, rfl⟩ (by rintro _ ⟨v, q, rfl⟩; rfl)
      (by rintro g m ⟨v, q, hsame⟩; cases hsame)
  cases hasks with
  | chain hr | sink hr => cases hr
  | runPush => exact ⟨_, _, below, rfl⟩

theorem run_below_sleep {deadline : Nat} (h : Stacked (.sleep f deadline :: rest)) :
    ∃ m wait below, rest = .run f m (.acting wait) :: below := by
  obtain ⟨back, below, callee, rfl, hasks, q, rfl⟩ :=
    h.asked (P := fun a => ∃ q, a = .sleep f q) (by
      rintro a b hab ⟨q, rfl⟩
      cases hab
      exact ⟨_, rfl⟩) ⟨deadline, rfl⟩ (by rintro _ ⟨q, rfl⟩; rfl)
      (by rintro g m ⟨q, hsame⟩; cases hsame)
  cases hasks with
  | chain hr | sink hr => cases hr
  | runSleep => exact ⟨_, _, below, rfl⟩

/-- A deed of a monitor is one of its run, or of what stands right above it. -/
theorem run_of_deed (h : Stacked (a :: rest)) (hd : a.deed? f stopped answer = some d) :
    (∃ m q, a = .run f m q ∧ q.gone = false) ∨
      ∃ m wait below, rest = .run f m (.acting wait) :: below := by
  unfold Activity.deed? at hd
  split at hd
  · next g m q =>
    split at hd
    · next hgf =>
      refine .inl ⟨m, q, by rw [hgf], ?_⟩
      cases q <;> first | rfl | cases hd
    · cases hd
  · next g deadline =>
    split at hd
    · next hgf => exact .inr (run_below_sleep (hgf ▸ h))
    · cases hd
  · next g v p =>
    split at hd
    · next hgf => exact .inr (run_below_push (hgf ▸ h))
    · cases hd
  · next g v =>
    split at hd
    · next hgf => exact .inr (run_below_push (hgf ▸ h))
    · cases hd
  · cases hd

/-- What serves the monitor is on its way, or comes to what the monitor is told. -/
def Onward (f : FlowId) (b : MonitorBody) (log : Dealings) (body : MonitorBody) (wait : MonitorWait) :
    Turn → Prop
  | .goto a _ | .invoke _ a => ∃ stand, Plays b log body stand ∧ Serves f stand wait a
  | .exit out => ∃ stand, Plays b log body stand ∧ Hears stand wait out

/-- Whatever a request of a component comes to, the one who asked goes on behind it. -/
theorem serve_onward {body : MonitorBody} {stand : Stand} {wait : MonitorWait} {back : Activity}
    (hplays : Plays b log body stand) (hserves : Serves f stand wait back) (r : Request) :
    Onward f b log body wait (w.serve r back).2 := by
  unfold serve
  split
  case h_4 => split <;> exact ⟨stand, hplays, hserves⟩
  case h_6 => split <;> exact ⟨stand, hplays, hserves⟩
  all_goals exact ⟨stand, hplays, hserves⟩

theorem push_onward {body : MonitorBody} {wait : MonitorWait} {v : Value} {p : PushPoint}
    {r : World × Turn} (hplays : Plays b log body (.waits (.push v) wait)) (hp : p ≠ .emit)
    (h : w.push t f v answer p = some r) :
    Onward f b (((Activity.push f v p).deed? f (w.stoppedOf f) answer).toList ++ log) body wait
      r.2 := by
  have hsink (cell : FlowCell) (m : SinkBody × SinkMove) :
      Onward f b log body wait (w.afterSink f v cell m).2 := by
    unfold afterSink
    dsimp only
    split
    · exact ⟨_, hplays, .push (by simp)⟩
    · exact serve_onward hplays (.push (by simp)) _
  cases p with
  | lock =>
      obtain ⟨w', _, rfl⟩ := Option.map_eq_some_iff.mp h
      exact ⟨_, hplays, .push (by simp)⟩
  | begin | serving =>
      obtain ⟨cell, _, rfl⟩ := Option.map_eq_some_iff.mp h
      exact hsink cell _
  | performed d =>
      have hdeed : (Activity.push f v (.performed d)).deed? f (w.stoppedOf f) answer =
          some (.sinks v d) := if_pos rfl
      rw [hdeed]
      cases d with
      | ok u =>
          cases h
          exact ⟨_, .takes hplays, .emit⟩
      | error e =>
          cases h
          exact ⟨_, .refuses e hplays, .settled⟩
  | emit => exact absurd rfl hp

theorem sleep_onward {body : MonitorBody} {wait : MonitorWait} {d : Duration} {deadline : Nat}
    {r : World × Turn} (hplays : Plays b log body (.waits (.sleep d) wait))
    (h : w.sleep f deadline = some r) :
    Onward f b (((Activity.sleep f deadline).deed? f (w.stoppedOf f) answer).toList ++ log) body wait
      r.2 := by
  have hdeed : (Activity.sleep f deadline).deed? f (w.stoppedOf f) answer =
      some (.finds (w.stoppedOf f)) := if_pos rfl
  obtain ⟨cell, hcell, h⟩ := Option.bind_eq_some_iff.mp h
  have hstopped : w.stoppedOf f = cell.stopped := by
    rw [stoppedOf, hcell]
    rfl
  rw [hdeed, hstopped]
  cases hcut : cell.stopped with
  | true =>
      rw [hcut, if_pos rfl] at h
      cases h
      exact ⟨_, .wakes true hplays, .settled⟩
  | false =>
      rw [hcut, if_neg Bool.false_ne_true] at h
      split at h <;> cases h
      exact ⟨_, .wakes false hplays, .settled⟩

/-- What serves the monitor of a flow goes on serving it, or comes to what the monitor is told. -/
theorem served {body : MonitorBody} {stand : Stand} {wait : MonitorWait} (h : Serves f stand wait a)
    (hplays : Plays b log body stand) (hstep : a.step w t answer = some (w₁, turn)) :
    Onward f b ((a.deed? f (w.stoppedOf f) answer).toList ++ log) body wait turn := by
  have hstacks := step_stacks hstep
  cases h with
  | read =>
      cases turn with
      | goto a' out =>
          cases hstacks
          exact ⟨_, hplays, .read⟩
      | invoke callee back =>
          cases hstacks.2
          exact ⟨_, hplays, .read⟩
      | exit out => exact ⟨_, hplays, .answer rfl⟩
  | sinks =>
      cases turn with
      | goto a' out =>
          cases hstacks
          exact ⟨_, hplays, .sinks⟩
      | invoke callee back =>
          cases hstacks.2
          exact ⟨_, hplays, .sinks⟩
      | exit out => exact ⟨_, hplays, .answer rfl⟩
  | sleep => exact sleep_onward hplays hstep
  | push hp => exact push_onward hplays hp hstep
  | emit =>
      obtain ⟨cell, _, hsame⟩ := Option.map_eq_some_iff.mp hstep
      cases hsame
      have hdeed {v : Value} : (Activity.push f v .emit).deed? f (w.stoppedOf f) answer =
          some (.announces v) := if_pos rfl
      rw [hdeed]
      exact ⟨_, .announces hplays, .settled⟩

/-! The run itself. -/

/-- A turn leaves the run of a flow where deeds have brought its monitor. -/
def Settles (f : FlowId) (b : MonitorBody) (log : Dealings) : Turn → Prop
  | .goto (.run g m q) out => g = f → q.gone = false → Placed f b log none out m q
  | .invoke callee (.run g m q) =>
      g = f → q.gone = false → Placed f b log (some (quiet callee)) (.ok .null) m q
  | _ => True

/-- The start of a monitor leaves its state. -/
theorem body_start (m : Monitor) : m.start.body.body = m.body := by
  have hhook (b : MonitorBody) : (Hooks.start b : HookEnd MonitorBody).body = b := by
    cases b <;> rfl
  obtain ⟨e, hfail⟩ | ⟨-, hafter⟩ := m.start_eq
  · rw [hfail]
    rfl
  · rw [hafter, Component.after_body]
    exact hhook m.body

theorem serves_of_action {action : MonitorAct} {callee : Activity}
    (h : w.actionOf? f action = some callee) (wait : MonitorWait) :
    action.lasting = true ∧ Serves f (.waits action wait) wait callee := by
  unfold actionOf? at h
  split at h <;> cases h
  · exact ⟨rfl, .read⟩
  · exact ⟨rfl, .push (by simp)⟩
  · exact ⟨rfl, .sleep⟩
  · exact ⟨rfl, .sinks⟩

theorem drive_settles {move : MonitorMove} {r : World × Turn}
    (hplays : Plays b log m.body (.ready move)) (h : w.drive f m move = some r) :
    (∃ body stand, Plays b (((RunPoint.drive move).deed? (w.stoppedOf f) answer).toList ++ log)
      body stand) ∧
    Settles f b (((RunPoint.drive move).deed? (w.stoppedOf f) answer).toList ++ log) r.2 := by
  obtain ⟨cell, hcell, h⟩ := Option.bind_eq_some_iff.mp h
  have hstopped : w.stoppedOf f = cell.stopped := by
    rw [stoppedOf, hcell]
    rfl
  dsimp only at h
  split at h
  · next d =>
    cases h
    have hover := Plays.ends hplays
    exact ⟨⟨_, _, hover⟩, fun _ _ => .late rfl⟩
  · next wait =>
    cases h
    have hlooks := Plays.looks cell.stopped hplays
    rw [hstopped]
    exact ⟨⟨_, _, hlooks⟩, fun _ _ => .answered hlooks .settled⟩
  · cases h
    have hpasses := Plays.passes hplays rfl
    exact ⟨⟨_, _, hpasses⟩, fun _ _ => .answered hpasses .settled⟩
  · cases h
    have hpasses := Plays.passes hplays rfl
    exact ⟨⟨_, _, hpasses⟩, fun _ _ => .answered hpasses .settled⟩
  · cases h
    have hpasses := Plays.passes hplays rfl
    exact ⟨⟨_, _, hpasses⟩, fun _ _ => .answered hpasses .settled⟩
  · cases h
    have hpasses := Plays.passes hplays rfl
    exact ⟨⟨_, _, hpasses⟩, fun _ _ => .answered hpasses .settled⟩
  · split at h <;> cases h
    next order inbox _ =>
    have hobeys := Plays.obeys order hplays
    exact ⟨⟨_, _, hobeys⟩, fun _ _ => .ready hobeys⟩
  · obtain ⟨callee, hcallee, rfl⟩ := Option.map_eq_some_iff.mp h
    next action wait _ _ _ _ _ _ _ =>
    obtain ⟨hlasting, hserves⟩ := serves_of_action hcallee wait
    have hasks := Plays.asks hplays hlasting
    have hdeed : (RunPoint.drive (.act action wait)).deed? (w.stoppedOf f) answer =
        some (.asks action) := by
      cases action <;> first | rfl | cases hlasting
    rw [hdeed]
    exact ⟨⟨_, _, hasks⟩, fun _ _ => .served hasks (hserves.quiet_eq.symm ▸ hserves)⟩

theorem run_settles {q : RunPoint} {r : World × Turn} (hplaced : Placed f b log none answer m q)
    (hplays : ∃ body stand, Plays b log body stand) (hgone : q.gone = false)
    (hends : m.body.endsFlow = true) (h : w.run t f m answer q = some r) :
    (∃ body stand, Plays b ((q.deed? (w.stoppedOf f) answer).toList ++ log) body stand) ∧
    Settles f b ((q.deed? (w.stoppedOf f) answer).toList ++ log) r.2 := by
  cases hplaced with
  | early hq hlog hbody =>
      have hearly {callee : Option Activity} {out : Outcome} {q' : RunPoint} (hq' : q'.early = true) :
          Placed f b log callee out m q' := .early hq' hlog hbody
      cases q with
      | lock =>
          obtain ⟨w', _, rfl⟩ := Option.map_eq_some_iff.mp h
          exact ⟨hplays, fun _ _ => hearly rfl⟩
      | advance =>
          cases h
          exact ⟨hplays, fun _ _ => hearly rfl⟩
      | advanced =>
          cases h
          refine ⟨hplays, fun _ _ => hearly ?_⟩
          split <;> rfl
      | release | abandon =>
          cases h
          exact ⟨hplays, fun _ _ => hearly rfl⟩
      | start =>
          obtain ⟨cell, _, rfl⟩ := Option.map_eq_some_iff.mp h
          refine ⟨hplays, fun _ _ => ?_⟩
          split
          · exact hearly rfl
          · exact .late rfl
      | abandoned =>
          cases h
          exact ⟨hplays, fun _ hgone => by cases hgone⟩
      | monitor =>
          cases h
          refine ⟨hplays, fun _ _ => ?_⟩
          split
          · refine .ready ?_
            rw [body_start, hbody]
            exact hlog ▸ .begins
          · exact .late rfl
      | _ => cases hq
  | ready hready => exact drive_settles hready h
  | @answered _ _ stand wait hstand hhears =>
      cases h
      have htold : Plays b (.told wait answer :: log) (m.body.resume wait answer).1
          (.ready (m.body.resume wait answer).2) := by
        cases hhears with
        | answer ha => exact .answered answer hstand ha
        | settled => exact .told hstand
      exact ⟨⟨_, _, htold⟩, fun _ _ => .ready htold⟩
  | late hq =>
      cases q with
      | judge d =>
          cases h
          exact ⟨hplays, fun _ _ => .late rfl⟩
      | fail d =>
          cases d with
          | ok u =>
              cases h
              exact ⟨hplays, fun _ _ => .late rfl⟩
          | error e =>
              obtain ⟨cell, _, rfl⟩ := Option.map_eq_some_iff.mp h
              exact ⟨hplays, fun _ _ => .late rfl⟩
      | decide d =>
          simp only [World.run, hends, Bool.or_true, Bool.true_or, if_true] at h
          cases h
          exact ⟨hplays, fun _ _ => .late rfl⟩
      | ending d =>
          cases h
          exact ⟨hplays, fun _ _ => .late rfl⟩
      | interrupt d =>
          cases h
          refine ⟨hplays, ?_⟩
          cases MonitorBody.yes answer <;> exact fun _ _ => .late rfl
      | finish d =>
          cases h
          exact ⟨hplays, fun _ hgone => by cases hgone⟩
      | _ => cases hq

/-! Where the run is. -/

/-- A list that has one element of a kind has it in one place. -/
theorem split_unique {α : Type} {p : α → Bool} {l l₁ l₂ r₁ r₂ : List α} {x y : α}
    (hcount : l.countP p = 1) (h₁ : l = l₁ ++ x :: r₁) (h₂ : l = l₂ ++ y :: r₂) (hx : p x = true)
    (hy : p y = true) : l₁ = l₂ := by
  have hcounts {l r : List α} {z : α} (hz : p z = true)
      (h : (l ++ z :: r).countP p = 1) : (∀ u ∈ l, p u = false) := by
    rw [List.countP_append, List.countP_cons_of_pos hz] at h
    exact fun u hu => Bool.eq_false_iff.mpr (List.countP_eq_zero.mp (by omega) u hu)
  have hbefore₁ := hcounts hx (h₁ ▸ hcount)
  have hbefore₂ := hcounts hy (h₂ ▸ hcount)
  obtain ⟨c, rfl, hc⟩ | ⟨c, rfl, hc⟩ := List.append_eq_append_iff.mp (h₁.symm.trans h₂)
  · cases c with
    | nil => exact (List.append_nil _).symm
    | cons z c =>
        obtain ⟨rfl, _⟩ := List.cons_eq_cons.mp hc
        rw [hbefore₂ x (List.mem_append_right _ List.mem_cons_self)] at hx
        cases hx
  · cases c with
    | nil => exact List.append_nil _
    | cons z c =>
        obtain ⟨rfl, _⟩ := List.cons_eq_cons.mp hc
        rw [hbefore₁ y (List.mem_append_right _ List.mem_cons_self)] at hy
        cases hy

/-- A flow is run in one place. -/
theorem Kept.run_unique (h : Kept f trace w) {above above' below below' : List Activity}
    {m' : Monitor} {q q' : RunPoint} (hu : w.tasks u = above ++ .run f m q :: below)
    (hq : q.gone = false) (ht : w.tasks t = above' ++ .run f m' q' :: below')
    (hq' : q'.gone = false) : u = t ∧ above = above' := by
  have hhandles {m : Monitor} {q : RunPoint} (hq : q.gone = false) :
      handles true f (.run f m q) = true := by simp [handles, hq]
  have hmem : .run f m q ∈ w.tasks u := hu ▸ List.mem_append_right _ List.mem_cons_self
  have hmem' : .run f m' q' ∈ w.tasks t := ht ▸ List.mem_append_right _ List.mem_cons_self
  obtain ⟨hcount, hothers, _⟩ := h.alone true hmem (hhandles hq)
  by_cases htu : t = u
  · subst htu
    exact ⟨rfl, split_unique hcount hu ht (hhandles hq) (hhandles hq')⟩
  · have hnone := hothers t htu _ hmem'
    rw [hhandles hq'] at hnone
    cases hnone

/-- A deed is done by the run of the flow or right above it. -/
theorem Takes.run_of_deed (h : Takes w t a rest w₁ turn) (hstacked : Stacked (w.tasks t))
    (hd : a.deed? f stopped answer = some d) :
    ∃ above m q below, w.tasks t = above ++ .run f m q :: below ∧ q.gone = false ∧
      above.length ≤ 1 := by
  have htasks := h.goes.tasks
  have hquiet : quiet a = a := by
    cases a <;> first | rfl | cases hd
  rw [hquiet] at htasks
  obtain ⟨m, q, rfl, hq⟩ | ⟨m, wait, below, rfl⟩ := World.run_of_deed (htasks ▸ hstacked) hd
  · exact ⟨[], m, q, rest, htasks, hq, Nat.zero_le 1⟩
  · exact ⟨[a], m, _, below, htasks, rfl, Nat.le_refl 1⟩

/-- Nothing is done for a flow whose run is elsewhere. -/
theorem Takes.deed?_eq_none (h : Takes w t a rest w₁ turn) (hkept : Kept f trace w)
    (hstacked : Stacked (w.tasks t)) {above below : List Activity} {q : RunPoint}
    (hu : w.tasks u = above ++ .run f m q :: below) (hq : q.gone = false)
    (hfar : u ≠ t ∨ 1 < above.length) : a.deed? f stopped answer = none := by
  by_contra hsome
  obtain ⟨d, hd⟩ := Option.ne_none_iff_exists'.mp hsome
  obtain ⟨above', m', q', below', htasks, hq', hnear⟩ := h.run_of_deed hstacked hd
  obtain ⟨rfl, rfl⟩ := hkept.run_unique hu hq htasks hq'
  obtain hfar | hfar := hfar
  · exact hfar rfl
  · omega

theorem expect_of_ready {stage : PullFlow.Stage} (hready : m.stage.ready = true)
    (hstage : stage.ready = false) : ∃ e, m.expect stage = .error e := by
  have hne : m.stage ≠ stage := by
    rintro hsame
    rw [hsame, hstage] at hready
    cases hready
  exact ⟨_, if_neg hne⟩

theorem setContext_of_ready (hready : m.stage.ready = true) (ctx : Context) :
    (m.setContext ctx).body = m := by
  obtain ⟨e, he⟩ : ∃ e, m.expect .created = .error e := expect_of_ready hready rfl
  rw [Component.setContext, he]
  rfl

theorem setUp_of_ready (hready : m.stage.ready = true) (st : Scope.Store) :
    (m.setUp st).body = m := by
  obtain ⟨e, he⟩ : ∃ e, m.expect .contextualized = .error e := expect_of_ready hready rfl
  rw [Component.setUp, he]
  rfl

/-- A monitor that is set up and parked is left alone. -/
theorem Acts.parked_ready (h : Acts w t answer a w₁) {m₁ : Monitor} (hm : w₁.parked? f = some m₁) :
    (∃ d, a = .run f m₁ (.park d)) ∨
      ∃ m, w.parked? f = some m ∧ (m.stage.ready = true → m₁ = m) := by
  obtain ⟨_, hparked⟩ | ⟨cell, pipeline, parked, hcell, hworks, _, hparked⟩ := h.parts f
  · exact .inr ⟨m₁, hparked ▸ hm, fun _ => rfl⟩
  · rw [hparked] at hm
    rw [parked?, hcell]
    cases hworks with
    | park =>
        cases hm
        exact .inl ⟨_, rfl⟩
    | retake | stopTake | launch => cases hm
    | monitor =>
        rw [parked_attachMonitor] at hm
        obtain ⟨m, hparked, rfl⟩ := Option.map_eq_some_iff.mp hm
        exact .inr ⟨m, hparked, fun hready => setContext_of_ready hready _⟩
    | setUpMonitor =>
        rw [parked_prepareMonitor] at hm
        obtain ⟨m, hparked, rfl⟩ := Option.map_eq_some_iff.mp hm
        exact .inr ⟨m, hparked, fun hready => setUp_of_ready hready _⟩
    | _ => exact .inr ⟨m₁, hm, fun _ => rfl⟩

/-- A run below another activity does not look at the outcome at hand. -/
theorem Placed.under {callee : Activity} {answer' : Outcome} {q : RunPoint}
    (h : Placed f b log (some callee) answer m q) : Placed f b log (some callee) answer' m q := by
  cases h with
  | early hq hlog hbody => exact .early hq hlog hbody
  | served hplays hserves => exact .served hplays hserves
  | late hq => exact .late hq

namespace Dealt

theorem deeds_none (hd : a.deed? f (w.stoppedOf f) (w.answerOf t) = none) :
    deeds f (⟨w, t, a⟩ :: trace) = deeds f trace := by
  rw [deeds_cons, hd]
  rfl

/-- A turn of the run itself. -/
theorem on_top {q : RunPoint} (h : Dealt f b trace w) (hdriven : Driven f b.sort w)
    (hends : b.endsFlow = true) (htakes : Takes w t (.run f m q) rest w₁ turn)
    (hq : q.gone = false) :
    (∃ body stand, Plays b (deeds f (⟨w, t, .run f m q⟩ :: trace)) body stand) ∧
      Settles f b (deeds f (⟨w, t, .run f m q⟩ :: trace)) turn := by
  have hplaced := h.placed t [] m q rest htakes.goes.tasks hq
  have hmends : m.body.endsFlow = true := by
    rw [MonitorBody.endsFlow_eq,
      MonitorBody.callable_of_sort (hdriven.runs t m q htakes.top hq), ← MonitorBody.endsFlow_eq]
    exact hends
  have hdeed : (Activity.run f m q).deed? f (w.stoppedOf f) (w.answerOf t) =
      q.deed? (w.stoppedOf f) (w.answerOf t) := if_pos rfl
  rw [deeds_cons, hdeed]
  obtain hstep | ⟨_, _, hhost, _⟩ := htakes.does
  · exact run_settles hplaced h.plays hq hmends hstep
  · cases hhost

/-- What stands right above a run that waits for something else does no deed. -/
theorem deed?_eq_none_of_waiting {q : RunPoint} {below : List Activity} (hkept : Kept f trace w)
    (hstacked : Stacked (w.tasks t)) (htakes : Takes w t a (.run f m q :: below) w₁ turn)
    (hq : q.gone = false) (hwaiting : ∀ wait, q ≠ .acting wait) :
    a.deed? f stopped answer = none := by
  by_contra hsome
  obtain ⟨d, hd⟩ := Option.ne_none_iff_exists'.mp hsome
  have htasks := htakes.goes.tasks
  have hquiet : quiet a = a := by
    cases a <;> first | rfl | cases hd
  rw [hquiet] at htasks
  obtain ⟨m', q', rfl, hq'⟩ | ⟨m', wait, below', hsame⟩ := World.run_of_deed (htasks ▸ hstacked) hd
  · have htop : w.tasks t = [.run f m' q'] ++ .run f m q :: below := htasks
    have hbare : w.tasks t = [] ++ .run f m' q' :: .run f m q :: below := htasks
    cases (hkept.run_unique htop hq hbare hq').2
  · cases hsame
    exact hwaiting wait rfl

/-- A turn of what stands right above the run. -/
theorem right_below {q : RunPoint} {below : List Activity} (h : Dealt f b trace w)
    (hkept : Kept f trace w) (hstacked : Stacked (w.tasks t))
    (htakes : Takes w t a (.run f m q :: below) w₁ turn) (hq : q.gone = false) :
    (∃ body stand, Plays b (deeds f (⟨w, t, a⟩ :: trace)) body stand) ∧
      Placed f b (deeds f (⟨w, t, a⟩ :: trace)) (turn.frames.map quiet).getLast? turn.answer m
        q := by
  have hplaced : Placed f b (deeds f trace) (some (quiet a)) (w.answerOf t) m q :=
    h.placed t [quiet a] m q below htakes.goes.tasks hq
  have hwaiting (hnot : ∀ wait, q ≠ .acting wait) :
      deeds f (⟨w, t, a⟩ :: trace) = deeds f trace :=
    deeds_none (deed?_eq_none_of_waiting hkept hstacked htakes hq hnot)
  cases hplaced with
  | early hearly hlog hbody =>
      rw [hwaiting fun wait hacting => by rw [hacting] at hearly; cases hearly]
      exact ⟨h.plays, .early hearly hlog hbody⟩
  | late hlate =>
      rw [hwaiting fun wait hacting => by rw [hacting] at hlate; cases hlate]
      exact ⟨h.plays, .late hlate⟩
  | served hplays hserves =>
      have hquiet : quiet a = a := by
        cases a <;> first | rfl | cases hserves
      rw [hquiet] at hserves
      obtain hstep | ⟨_, _, rfl, _⟩ := htakes.does
      · have honward := World.served hserves hplays hstep
        rw [deeds_cons]
        cases turn with
        | goto c out | invoke _ c =>
            obtain ⟨stand, hplays, hserves⟩ := honward
            rw [← hserves.quiet_eq] at hserves
            exact ⟨⟨_, _, hplays⟩, .served hplays hserves⟩
        | exit out =>
            obtain ⟨stand, hplays, hhears⟩ := honward
            exact ⟨⟨_, _, hplays⟩, .answered hplays hhears⟩
      · cases hserves

/-- What a turn of the run, or of a launch, leaves of the run. -/
theorem brought {q : RunPoint} {above below : List Activity} (h : Dealt f b trace w)
    (hdriven : Driven f b.sort w) (hends : b.endsFlow = true) (htakes : Takes w t a rest w₁ turn)
    (hframes : turn.frames.map quiet = above ++ .run f m q :: below) (hq : q.gone = false) :
    Placed f b (deeds f (⟨w, t, a⟩ :: trace)) above.getLast? turn.answer m q := by
  obtain ⟨c, hc, hsame⟩ : ∃ c ∈ turn.frames, quiet c = .run f m q := by
    rw [← List.mem_map, hframes]
    exact List.mem_append_right _ List.mem_cons_self
  obtain rfl := eq_of_quiet_eq hsame.symm fun _ _ _ _ => Activity.noConfusion
  have hstep := htakes.step_of_mem hc
  obtain hgoes | ⟨back, _, hasks, _⟩ := htakes.stacks.of_mem hc
  · cases hgoes with
    | launch =>
        obtain ⟨hlog, hbody, _⟩ := h.parked m (parked_of_launch hstep hc)
        exact .early rfl hlog hbody
    | @run _ m₀ _ q₀ _ =>
        have hgone : q₀.gone = false := by
          cases hq₀ : q₀.gone with
          | false => rfl
          | true =>
              rw [gone_of_run hstep hc hq₀] at hq
              cases hq
        have hsettles := (h.on_top hdriven hends htakes hgone).2
        have hstacks := htakes.stacks
        cases turn with
        | goto c out =>
            obtain rfl := List.mem_singleton.mp hc
            obtain ⟨rfl, -⟩ | ⟨-, hnil⟩ := List.singleton_eq_append_iff.mp hframes
            · exact hsettles rfl hq
            · cases hnil
        | invoke callee back =>
            have hcallee : quiet callee ≠ .run f m q := by
              intro hrun
              obtain rfl := eq_of_quiet_eq hrun.symm fun _ _ _ _ => Activity.noConfusion
              cases hstacks.1 with
              | chain hr | sink hr => cases hr
            obtain ⟨rfl, hsame⟩ | ⟨above, rfl, hback⟩ := List.cons_eq_append_iff.mp hframes
            · exact absurd (List.cons_eq_cons.mp hsame).1.symm hcallee
            · obtain ⟨rfl, hsame⟩ | ⟨-, hnil⟩ := List.singleton_eq_append_iff.mp hback
              · have hrun : quiet back = .run f m q := (List.cons_eq_cons.mp hsame).1.symm
                obtain rfl := eq_of_quiet_eq hrun.symm fun _ _ _ _ => Activity.noConfusion
                exact hsettles rfl hq
              · cases hnil
        | exit out => cases hc
  · cases hasks with
    | chain hr | sink hr => cases hr

/-- What the deeds so far make of the monitor, after a turn. -/
theorem plays_turn (h : Dealt f b trace w) (hkept : Kept f trace w) (hdriven : Driven f b.sort w)
    (hends : b.endsFlow = true) (hstacked : Stacked (w.tasks t))
    (htakes : Takes w t a rest w₁ turn) :
    ∃ body stand, Plays b (deeds f (⟨w, t, a⟩ :: trace)) body stand := by
  cases hd : a.deed? f (w.stoppedOf f) (w.answerOf t) with
  | none =>
      rw [deeds_none hd]
      exact h.plays
  | some d =>
      have htasks := htakes.goes.tasks
      have hquiet : quiet a = a := by
        cases a <;> first | rfl | cases hd
      obtain ⟨m, q, rfl, hq⟩ | ⟨m, wait, below, rfl⟩ :=
        World.run_of_deed (hquiet ▸ htasks ▸ hstacked) hd
      · exact (h.on_top hdriven hends htakes hq).1
      · exact (h.right_below hkept hstacked htakes rfl).1

/-- A monitor that is parked after a turn was parked before it, and nothing was done. -/
theorem parked_turn (h : Dealt f b trace w) (hkept : Kept f trace w)
    (hstacked : Stacked (w.tasks t)) (htakes : Takes w t a rest w₁ turn) {m₁ : Monitor}
    (hm₁ : w₁.parked? f = some m₁) :
    deeds f (⟨w, t, a⟩ :: trace) = [] ∧ m₁.body = b ∧ m₁.stage.ready = true := by
  obtain ⟨d, rfl⟩ | ⟨m, hm, hsame⟩ := htakes.acts.parked_ready hm₁
  · cases h.placed t [] m₁ (.park d) rest htakes.goes.tasks rfl with
    | early hearly => cases hearly
    | late hlate => cases hlate
  · obtain ⟨hlog, hbody, hready⟩ := h.parked m hm
    rw [hsame hready, deeds_none ?_]
    · exact ⟨hlog, hbody, hready⟩
    · by_contra hsome
      obtain ⟨d, hd⟩ := Option.ne_none_iff_exists'.mp hsome
      obtain ⟨above, m', q, below, hrun, hq, _⟩ := htakes.run_of_deed hstacked hd
      have hfree := hkept.parkedOf_eq_false true (t := t) (a := .run f m' q)
        (hrun ▸ List.mem_append_right _ List.mem_cons_self) (by simp [handles, hq])
      rw [(parkedOf_iff w f).mpr ⟨m, hm⟩] at hfree
      cases hfree

/-- Where the run is after a turn of its thread: below what the turn leaves, or part of it. -/
theorem placed_self {q : RunPoint} {above below : List Activity} (h : Dealt f b trace w)
    (hkept : Kept f trace w) (hdriven : Driven f b.sort w) (hends : b.endsFlow = true)
    (hstacked : Stacked (w.tasks t)) (htakes : Takes w t a rest w₁ turn)
    (hrun : turn.frames.map quiet ++ rest = above ++ .run f m q :: below) (hq : q.gone = false) :
    Placed f b (deeds f (⟨w, t, a⟩ :: trace)) above.getLast? turn.answer m q := by
  have htasks := htakes.goes.tasks
  obtain ⟨c, rfl, rfl⟩ | ⟨c, hframes, hrest⟩ := List.append_eq_append_iff.mp hrun
  · cases c with
    | nil =>
        rw [List.append_nil]
        exact (h.right_below hkept hstacked htakes hq).2
    | cons x c =>
        have hfar : 1 < (quiet a :: x :: c).length := by simp
        rw [deeds_none (htakes.deed?_eq_none hkept hstacked htasks hq (.inr hfar)),
          List.getLast?_append]
        have hplaced := h.placed t (quiet a :: x :: c) m q below htasks hq
        rw [List.getLast?_cons_cons] at hplaced
        obtain ⟨callee, hcallee⟩ := Option.isSome_iff_exists.mp
          (List.getLast?_isSome.mpr (List.cons_ne_nil x c))
        rw [hcallee] at hplaced ⊢
        exact hplaced.under
  · cases c with
    | nil =>
        obtain rfl : .run f m q :: below = rest := hrest
        rw [List.append_nil] at hframes
        exact hframes ▸ (h.right_below hkept hstacked htakes hq).2
    | cons x c =>
        obtain ⟨rfl, _⟩ := List.cons_eq_cons.mp hrest
        exact h.brought hdriven hends htakes hframes hq

theorem takes (h : Dealt f b trace w) (hkept : Kept f trace w) (hdriven : Driven f b.sort w)
    (hends : b.endsFlow = true) (hstacked : Stacked (w.tasks t))
    (htakes : Takes w t a rest w₁ turn) : Dealt f b (⟨w, t, a⟩ :: trace) (w₁.turn t turn) := by
  refine ⟨h.plays_turn hkept hdriven hends hstacked htakes,
    fun _ => h.parked_turn hkept hstacked htakes, fun u above m q below hu hq => ?_⟩
  by_cases hut : u = t
  · subst hut
    rw [htakes.goes.tasks_self] at hu
    rw [htakes.goes.answerOf_self]
    exact h.placed_self hkept hdriven hends hstacked htakes hu hq
  · have hmem : .run f m q ∈ (w₁.turn t turn).tasks u :=
      hu ▸ List.mem_append_right _ List.mem_cons_self
    obtain hb | ⟨g, m', rfl, hsame, hparked⟩ := htakes.mem_other hut hmem
    · rw [htakes.goes.tasks_of_busy hut (List.ne_nil_of_mem hb)] at hu
      rw [deeds_none (htakes.deed?_eq_none hkept hstacked hu hq (.inl hut)),
        htakes.goes.answerOf_of_ne hut]
      exact h.placed u above m q below hu hq
    · cases hsame
      obtain ⟨hlog, hbody, _⟩ := h.parked m hparked
      exact .early rfl hlog hbody

theorem tick (h : Dealt f b trace w) (nanos : Nat) : Dealt f b trace (w.tick nanos) :=
  ⟨h.plays, h.parked, h.placed⟩

/-- Nothing is done while the monitor is where it was put. -/
theorem init (hparked : ∀ m, w.parked? f = some m → m.body = b ∧ m.stage.ready = true)
    (hfree : ∀ u m q, .run f m q ∈ w.tasks u → q.gone = true) : Dealt f b [] w := by
  refine ⟨⟨_, _, .begins⟩, fun m hm => ⟨rfl, hparked m hm⟩, fun u above m q below hu hq => ?_⟩
  rw [hfree u m q (hu ▸ List.mem_append_right _ List.mem_cons_self)] at hq
  cases hq

end Dealt

/-- A flow whose monitor is parked is not run, and its monitor was not used up. -/
theorem Kept.parked {before : List Taken} (h : Kept f before w) (hparked : w.parked? f = some m) :
    Kept f [] w ∧ ∀ u m q, .run f m q ∈ w.tasks u → q.gone = true := by
  have hslot := (parkedOf_iff w f).mpr ⟨m, hparked⟩
  refine ⟨⟨h.flow, fun late => ?_⟩, fun u m q hmem => ?_⟩
  · have honce := h.once late
    rw [hslot, Bool.toNat_true] at honce ⊢
    rw [List.countP_nil]
    omega
  · by_contra hgone
    have hfree := h.parkedOf_eq_false true hmem (by simpa [handles] using hgone)
    rw [hslot] at hfree
    cases hfree

/-- A monitor that is parked is run by nobody, and its flow has no other one. -/
theorem Run.parked_alone {ready : World} {first : Activity} {calls : List Activity}
    {before : List Taken} {m₀ : Monitor} (hplaced : start.parked? f = some m₀)
    (hcalls : ∀ a ∈ first :: calls, a.begins = true)
    (hbefore : Run (start.opened first calls) before ready) (hparked : ready.parked? f = some m) :
    (∀ u, Stacked (ready.tasks u)) ∧ Kept f [] ready ∧ Driven f m.body.sort ready ∧
      ∀ u m q, .run f m q ∈ ready.tasks u → q.gone = true := by
  obtain ⟨hstacked, hkept⟩ : (∀ u, Stacked (ready.tasks u)) ∧ Kept f before ready :=
    hbefore.every (P := fun trace w => (∀ u, Stacked (w.tasks u)) ∧ Kept f trace w)
      ⟨stacked_opened start hcalls, kept_opened hplaced hcalls⟩
      (fun _ _ nanos hw => ⟨hw.1, hw.2.calm (calm_tick nanos)⟩)
      fun _ _ _ _ _ _ _ htakes hw => ⟨htakes.stacked hw.1, hw.2.goes htakes.goes⟩
  obtain ⟨hkept, hfree⟩ := hkept.parked hparked
  have hslot (m' : Monitor) (hm' : ready.parked? f = some m') : m' = m :=
    Option.some.inj (hm'.symm.trans hparked)
  refine ⟨hstacked, hkept, ⟨fun m' hm' => by rw [hslot m' hm'], fun u m' q hmem hq => ?_⟩, hfree⟩
  rw [hfree u m' q hmem] at hq
  cases hq

/-- From when a monitor that ends its flow is set up, what it asks for and is told in a run are the
deeds of a monitor that began as it was set up. -/
theorem Run.dealt {ready : World} {first : Activity} {calls : List Activity} {before : List Taken}
    {m₀ : Monitor} (hplaced : start.parked? f = some m₀)
    (hcalls : ∀ a ∈ first :: calls, a.begins = true)
    (hbefore : Run (start.opened first calls) before ready) (hparked : ready.parked? f = some m)
    (hready : m.stage.ready = true) (hends : m.body.endsFlow = true) (hrun : Run ready trace w) :
    Dealt f m.body trace w := by
  obtain ⟨hstacked, hkept, hdriven, hfree⟩ := Run.parked_alone hplaced hcalls hbefore hparked
  have hslot (m' : Monitor) (hm' : ready.parked? f = some m') : m' = m :=
    Option.some.inj (hm'.symm.trans hparked)
  have hall : (∀ u, Stacked (w.tasks u)) ∧ Kept f trace w ∧ Driven f m.body.sort w ∧
      Dealt f m.body trace w :=
    hrun.every (P := fun trace w => (∀ u, Stacked (w.tasks u)) ∧ Kept f trace w ∧
        Driven f m.body.sort w ∧ Dealt f m.body trace w)
      ⟨hstacked, hkept, hdriven,
        .init (fun m' hm' => by rw [hslot m' hm']; exact ⟨rfl, hready⟩) hfree⟩
      (fun _ _ nanos hw =>
        ⟨hw.1, hw.2.1.calm (calm_tick nanos), hw.2.2.1.tick nanos, hw.2.2.2.tick nanos⟩)
      fun _ _ t _ _ _ _ htakes hw => ⟨htakes.stacked hw.1, hw.2.1.goes htakes.goes,
        hw.2.2.1.takes htakes, hw.2.2.2.takes hw.2.1 hw.2.2.1 hends (hw.1 t) htakes⟩
  exact hall.2.2.2

end World
end PullFlow.Engine
