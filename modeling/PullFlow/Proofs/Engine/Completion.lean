import PullFlow.Assembly
import PullFlow.Proofs.Engine.Blame

/-!
How a set of flows ends. One thread sets the flows up and runs them while others stop them, in any
order of their steps. When all of them have returned, every flow has ended and was finished exactly
once, whether it was stopped before its start, in its run or after it; and if any flow has failed,
the run of the set tells so.
-/

namespace PullFlow.Engine

/-- A call that stops flows. -/
def Activity.stops : Activity → Bool
  | .stop _ .begin | .stopAll _ => true
  | _ => false

theorem helper_stops {a : Activity} (h : a.stops = true) : a.helper = true := by
  cases a <;> first | rfl | cases h

/-- A flow that was only put together. -/
structure FlowCell.Fresh (cell : FlowCell) : Prop where
  state : cell.state = .init
  parked : cell.parked.isSome = true
  thread : cell.thread = none

namespace World

/-- A set of flows before its run: one thread is about to do `first`, all others are to stop
flows. -/
structure Gathered (main : ThreadId) (first : Activity) (w : World) : Prop where
  starts : w.stackOf main = [first]
  calls : ∀ t, t ≠ main → ∀ a ∈ w.stackOf t, a.stops = true
  results : ∀ t, w.result? t = none
  nodup : w.set.Nodup
  idle : ∀ f, w.threadOf f = none
  unfailed : ∀ event ∈ w.events, event.failure = false

/-- A set of flows that were only put together and are to be set up and run. -/
structure Opening (main : ThreadId) (w : World) : Prop where
  gathered : Gathered main (.runAll .begin) w
  flows : ∀ f ∈ w.set, ∃ cell, w.flow? f = some cell ∧ cell.Fresh

/-- What holds in every state of a run of the set. -/
structure Steady (main n : ThreadId) (trace : List Taken) (w : World) : Prop where
  manned : Manned main n w
  topped : ∀ t, Topped (w.tasks t)
  watched : ∀ f ∈ w.set, Watched f trace w
  reported : Reported main w

variable {start w w' w₁ : World} {main n t : ThreadId} {trace : List Taken}
  {a : Activity} {rest : List Activity} {turn : Turn}

theorem Steady.calm (h : Steady main n trace w) (hcalm : Calm w w') : Steady main n trace w' := by
  refine ⟨h.manned.calm hcalm, fun t => ?_, fun f hf => ?_, h.reported.calm hcalm⟩
  · rw [tasks_of_jobs hcalm.jobs]
    exact h.topped t
  · rw [hcalm.set] at hf
    exact (h.watched f hf).calm hcalm

theorem Steady.goes (h : Steady main n trace w) (hgoes : Goes w t a rest w₁ turn) :
    Steady main n (⟨w, t, a⟩ :: trace) (w₁.turn t turn) := by
  refine ⟨h.manned.goes hgoes, topped_goes h.topped hgoes, fun f hf => ?_,
    h.reported.goes h.manned hgoes⟩
  have hset : (w₁.turn t turn).set = w.set := hgoes.moves.set
  rw [hset] at hf
  exact (h.watched f hf).goes h.topped hgoes

namespace Gathered

variable {first : Activity}

theorem tasks_main (h : Gathered main first w) (hfirst : first.plain = false) :
    w.tasks main = [first] := by
  rw [tasks_eq, h.starts, List.map_singleton, quiet_eq_self hfirst]

theorem stops (h : Gathered main first w) (ht : t ≠ main) (ha : a ∈ w.tasks t) :
    a.stops = true := by
  rw [tasks_eq] at ha
  obtain ⟨b, hb, rfl⟩ := List.mem_map.mp ha
  have hstops := h.calls t ht b hb
  cases b <;> exact hstops

/-- In the beginning every activity is the first one or stops flows. -/
theorem cases (h : Gathered main first w) (hfirst : first.plain = false) (ha : a ∈ w.tasks t) :
    a = first ∨ a.stops = true := by
  by_cases ht : t = main
  · rw [ht, h.tasks_main hfirst] at ha
    exact .inl (List.mem_singleton.mp ha)
  · exact .inr (h.stops ht ha)

theorem manned (h : Gathered main first w) (hfirst : first.plain = false)
    (hstage : Stage w [first] (core [first])) : Manned main w.threads.length w := by
  have htasks := h.tasks_main hfirst
  have hbusy : w.tasks main ≠ [] := by
    rw [htasks]
    exact List.cons_ne_nil _ _
  have hout (t : ThreadId) (ht : w.threads.length ≤ t) : w.tasks t = [] := by
    rw [tasks, List.getElem?_eq_none (by rw [length_jobs]; exact ht)]
  constructor
  · rw [← length_jobs]
    exact jobs_lt hbusy
  · exact Nat.le_of_eq (length_jobs w).symm
  · intro t _ ht
    have hcore : core (w.tasks t ++ []) = core [] :=
      core_append fun a ha => helper_stops (h.stops ht ha)
    rwa [List.append_nil] at hcore
  · exact fun t ht => .inl (hout t ht)
  · exact fun t ht hbusy => absurd (hout t ht) hbusy
  · intro t out hresult
    rw [h.results] at hresult
    cases hresult
  · intro f t hthread
    rw [h.idle] at hthread
    cases hthread
  · intro f t hthread
    rw [h.idle] at hthread
    cases hthread
  · rw [htasks]
    exact hstage

theorem not_blamed (h : Gathered main first w) (hplain : first.plain = false)
    (hfailed : first.failed = false) (hheeds : first.heeds = false) : ¬ Blamed w t := by
  have hquiet {a : Activity} (ha : a ∈ w.tasks t) :
      ¬ (a.failed = true ∨ a.heeds = true ∧ True) := by
    intro hnoisy
    have hnot := not_helper hnoisy
    obtain rfl | hstops := h.cases hplain ha
    · simp [hfailed, hheeds] at hnoisy
    · rw [helper_stops hstops] at hnot
      cases hnot
  intro hblamed
  cases hblamed with
  | knows hb hfailed => exact hquiet hb (.inl hfailed)
  | told htasks hheeds _ =>
      refine hquiet ?_ (.inr ⟨hheeds, trivial⟩)
      rw [htasks]
      exact List.mem_cons_self ..
  | returned hresult =>
      rw [h.results] at hresult
      cases hresult

end Gathered

namespace Opening

theorem cases (h : Opening main w) (ha : a ∈ w.tasks t) :
    a = .runAll .begin ∨ a.stops = true := h.gathered.cases rfl ha

theorem topped (h : Opening main w) (t : ThreadId) : Topped (w.tasks t) := by
  have hmoving {a : Activity} (ha : a ∈ w.tasks t) : a.moving = false := by
    obtain rfl | hstops := h.cases ha
    · rfl
    · cases a <;> first | rfl | cases hstops
  refine ⟨fun a ha => hmoving (List.mem_of_mem_tail ha), ?_⟩
  intro f target p rest htasks
  have hnot := hmoving (a := .advance f target p) (by rw [htasks]; exact List.mem_cons_self ..)
  cases hnot

theorem watched (h : Opening main w) {f : FlowId} (hf : f ∈ w.set) : Watched f [] w := by
  obtain ⟨cell, hcell, hfresh⟩ := h.flows f hf
  refine ⟨⟨⟨cell, hcell⟩, fun late => ?_⟩, ?_, ?_, ?_⟩
  · have hheld : held late f w = 0 := by
      refine held_eq_zero fun t a ha => ?_
      obtain rfl | hstops := h.cases ha
      · rfl
      · cases a <;> first | rfl | cases hstops
    rw [hheld, parkedOf_of_flow? hcell, hfresh.parked]
    rfl
  · intro hstopping
    have hstate : w.stateOf f = .init := by
      rw [stateOf, hcell]
      exact hfresh.state
    rw [stopping, hstate] at hstopping
    cases hstopping
  · intro t a ha hcloses
    obtain rfl | hstops := h.cases ha
    · cases hcloses
    · cases a <;> first | cases hcloses | cases hstops
  · intro hcount
    exact absurd rfl hcount

theorem steady (h : Opening main w) : Steady main w.threads.length [] w := by
  refine ⟨h.gathered.manned rfl ?_, h.topped, fun _ hf => h.watched hf, ?_⟩
  · exact .begin h.gathered.nodup fun f => .inl (h.gathered.idle f)
  · intro name message hevent
    have hnot := h.gathered.unfailed _ hevent
    cases hnot

end Opening

theorem Run.steady (h : Run start trace w) (hstart : Opening main start) :
    Steady main start.threads.length trace w ∧ w.set = start.set := by
  refine Run.keep (P := fun trace w =>
    Steady main start.threads.length trace w ∧ w.set = start.set) ⟨hstart.steady, rfl⟩ ?_ ?_ h
  · intro trace w w' hcalm hcase
    obtain ⟨hsteady, hset⟩ := hcase
    exact ⟨hsteady.calm hcalm, hcalm.set.trans hset⟩
  · intro trace w t a rest w₁ turn hgoes hcase
    obtain ⟨hsteady, hset⟩ := hcase
    exact ⟨hsteady.goes hgoes, hgoes.moves.set.trans hset⟩

namespace Steady

theorem ended_once (h : Steady main n trace w) (hover : ∀ t < n, w.tasks t = []) {f : FlowId}
    (hf : f ∈ w.set) :
    ∃ cell, w.flow? f = some cell ∧ cell.state = .ended ∧ cell.parked = none ∧
      ∀ late, trace.countP (fun taken => usesUp late f taken.activity) = 1 := by
  have hmain := hover main h.manned.first
  have hidle (t : ThreadId) : w.tasks t = [] := by
    by_cases ht : t < n
    · exact hover t ht
    · exact h.manned.idle_of_over hmain (Nat.le_of_not_lt ht)
  have hwatched := h.watched f hf
  obtain ⟨cell, hcell⟩ := hwatched.kept.flow
  -- A monitor that were still parked would be owed by a thread, but all threads are idle.
  have hparked : w.parkedOf f = false := by
    cases hparked : w.parkedOf f with
    | false => rfl
    | true =>
        have hstopping := (h.manned.settled hmain).1 f hf
        obtain ⟨t, howing⟩ := hwatched.owed hstopping hparked
        exact absurd (hidle t) howing.busy
  have honce (late : Bool) : trace.countP (fun taken => usesUp late f taken.activity) = 1 := by
    have hheld : held late f w = 0 := by
      refine held_eq_zero fun t a ha => ?_
      rw [hidle t] at ha
      cases ha
    have honce := hwatched.kept.once late
    rw [hparked, hheld] at honce
    simpa using honce
  refine ⟨cell, hcell, ?_, ?_, honce⟩
  · have hended := hwatched.ended (by rw [honce]; exact Nat.one_ne_zero)
    rwa [stateOf, hcell] at hended
  · rw [parkedOf_of_flow? hcell] at hparked
    exact Option.isSome_eq_false_iff.mp hparked |> Option.isNone_iff_eq_none.mp

/-- A run of the set that succeeds has announced no failure. -/
theorem unfailed (h : Steady main n trace w) {v : Value} (hresult : w.result? main = some (.ok v))
    (name message : String) : Event.flowFailed name message ∉ w.events := by
  intro hevent
  have hmain := h.manned.results main _ hresult
  obtain hblamed | ⟨f, u, hthread, _⟩ := h.reported name message hevent
  · cases hblamed with
    | knows hb _ =>
        rw [hmain] at hb
        cases hb
    | told htasks _ _ =>
        rw [hmain] at htasks
        cases htasks
    | returned herror =>
        rw [hresult] at herror
        cases herror
  · rw [(h.manned.settled hmain).2 f] at hthread
    cases hthread

end Steady

/-- A set of flows with a thread that is to do `first` with it, and threads that stop flows. -/
def opened (w : World) (first : Activity) (calls : List Activity) : World :=
  { w with threads := (first :: calls).map fun a => ⟨[a], .ok .null, [], none⟩ }

@[simp] theorem set_opened (w : World) (first : Activity) (calls : List Activity) :
    (w.opened first calls).set = w.set := rfl

theorem tasks_opened (w : World) (first : Activity) (calls : List Activity) (t : ThreadId) :
    (w.opened first calls).tasks t = [] ∨
      ∃ a ∈ first :: calls, (w.opened first calls).tasks t = [quiet a] := by
  rw [tasks_eq, stackOf, opened, List.getElem?_map]
  cases ha : (first :: calls)[t]? with
  | none => exact .inl rfl
  | some a => exact .inr ⟨a, List.mem_of_getElem? ha, rfl⟩

theorem mem_tasks_opened {first b : Activity} {calls : List Activity} {t : ThreadId}
    (hb : b ∈ (w.opened first calls).tasks t) : ∃ a ∈ first :: calls, b = quiet a := by
  obtain hnone | ⟨a, ha, hone⟩ := tasks_opened w first calls t
  · rw [hnone] at hb
    cases hb
  · rw [hone] at hb
    exact ⟨a, ha, List.mem_singleton.mp hb⟩

/-- A thread that is yet to begin has one activity. -/
theorem below_opened {first b : Activity} {calls below : List Activity} {t : ThreadId}
    (h : (w.opened first calls).tasks t = b :: below) : below = [] := by
  obtain hnone | ⟨a, _, hone⟩ := tasks_opened w first calls t
  · rw [hnone] at h
    cases h
  · rw [hone] at h
    exact (List.cons.inj h).2.symm

theorem gathered_opened {first : Activity} {calls : List Activity} (hnodup : w.set.Nodup)
    (hidle : ∀ f, w.threadOf f = none) (hunfailed : ∀ event ∈ w.events, event.failure = false)
    (hcalls : ∀ a ∈ calls, a.stops = true) : Gathered 0 first (w.opened first calls) := by
  refine ⟨rfl, ?_, ?_, hnodup, hidle, hunfailed⟩
  · rintro (_ | t) ht a ha
    · exact absurd rfl ht
    · rw [stackOf, opened, List.map_cons, List.getElem?_cons_succ, List.getElem?_map] at ha
      cases hcall : calls[t]? with
      | none => simp [hcall] at ha
      | some call =>
          simp only [hcall, Option.map_some, List.mem_singleton] at ha
          rw [ha]
          exact hcalls call (List.mem_of_getElem? hcall)
  · intro t
    rw [result?, opened, List.getElem?_map]
    cases (first :: calls)[t]? <;> rfl

theorem fresh_of_assemble {p : FlowDraft} {name : String} {fed : Bool} {cell : FlowCell}
    (h : p.assemble name fed = .ok cell) : cell.Fresh := by
  unfold FlowDraft.assemble at h
  dsimp only at h
  split at h
  · cases h
  · cases h
    exact ⟨rfl, rfl, rfl⟩

theorem fresh_of_assembleFlows {fresh : Nat → String} {targets : List String}
    {drafts : List FlowDraft} {position : Nat} {directory directory' : Directory}
    {cells : List FlowCell}
    (h : assembleFlows fresh targets position directory drafts = .ok (cells, directory')) :
    ∀ cell ∈ cells, cell.Fresh := by
  induction drafts generalizing position directory cells with
  | nil =>
      cases h
      exact fun cell hcell => nomatch hcell
  | cons p drafts ih =>
      unfold assembleFlows at h
      dsimp only at h
      cases hcell : p.assemble (p.name.getD (fresh position)) (p.name.any targets.contains) with
      | error e =>
          rw [hcell] at h
          cases h
      | ok cell =>
          simp only [hcell, bind, Except.bind, pure, Except.pure] at h
          split at h
          · cases h
          · split at h
            · cases h
            · next rest hrest =>
              cases h
              intro other hother
              obtain rfl | hother := List.mem_cons.mp hother
              · exact fresh_of_assemble hcell
              · exact ih hrest other hother

/-- A set that was put together from drafts is one before its run, whoever is to stop its flows. -/
theorem opening_of_drafts {fresh : Nat → String} {drafts : List FlowDraft} {scopes : Scope.Store}
    {root : ScopeId} {w : World} (h : World.ofDrafts fresh drafts scopes root = .ok w)
    {calls : List Activity} (hcalls : ∀ a ∈ calls, a.stops = true) :
    Opening 0 (w.opened (.runAll .begin) calls) := by
  unfold ofDrafts at h
  simp only [bind, Except.bind, pure, Except.pure] at h
  split at h
  · cases h
  · next made hmade =>
    cases h
    have hfresh := fresh_of_assembleFlows hmade
    refine ⟨gathered_opened List.nodup_range ?_ ?_ hcalls, ?_⟩
    · intro f
      rw [threadOf, flow?]
      cases hcell : made.1[f]? with
      | none => rfl
      | some cell => exact (hfresh cell (List.mem_of_getElem? hcell)).thread
    · intro event hevent
      cases hevent
    · intro f hf
      have hlt : f < made.1.length := List.mem_range.mp hf
      exact ⟨made.1[f], List.getElem?_eq_getElem hlt, hfresh _ (List.getElem_mem hlt)⟩

variable {out : Outcome}

/-- When the thread that runs the set and all threads that stop flows have returned, every flow has
ended, its monitor is left nowhere, and a finish of it began and came to its end exactly once. A
run of the set that succeeds has announced no failure of a flow. -/
theorem ended_once_of_returned (hstart : Opening main start) (hrun : Run start trace w)
    (hmain : w.result? main = some out) (hcalls : ∀ t < start.threads.length, w.stackOf t = []) :
    (∀ f ∈ start.set, ∃ cell, w.flow? f = some cell ∧ cell.state = .ended ∧ cell.parked = none ∧
      ∀ late, trace.countP (fun taken => usesUp late f taken.activity) = 1) ∧
    ((∃ v, out = .ok v) → ∀ name message, Event.flowFailed name message ∉ w.events) := by
  obtain ⟨hsteady, hset⟩ := hrun.steady hstart
  have hover (t : ThreadId) (ht : t < start.threads.length) : w.tasks t = [] := by
    rw [tasks_eq, hcalls t ht]
    rfl
  refine ⟨fun f hf => hsteady.ended_once hover (hset ▸ hf), ?_⟩
  rintro ⟨v, rfl⟩ name message
  exact hsteady.unfailed hmain name message

/-- No flows and no threads. -/
def empty : World := ⟨Scope.Store.empty, 0, [], [], [], [], 0, false, [], []⟩

/-- One flow, put together from a draft. -/
def soloMade : Except Error World :=
  ofDrafts (fun _ => "")
    [⟨some "f", some (.make "constant" (.constant .null) .none), [],
      some (.make "none" .none .none), some (.make "once" .once .none)⟩]
    Scope.Store.empty.addRoot.1 0

/-- One thread is to run the flow while another one stops it. -/
def solo : World := (soloMade.toOption.getD empty).opened (.runAll .begin) [.stop 0 .begin]

/-- The stop comes while the flow reads its chain. -/
def soloTurns : List ThreadId :=
  List.replicate 48 0 ++ List.replicate 16 2 ++ List.replicate 10 1 ++ List.replicate 4 0 ++
    List.replicate 22 2 ++ List.replicate 9 0

def soloOver : World := (solo.replay [] soloTurns).2

theorem solo_opening : Opening 0 solo := by
  have hmade : ∃ w, soloMade = .ok w := ⟨_, rfl⟩
  obtain ⟨w, hw⟩ := hmade
  have hsolo : solo = w.opened (.runAll .begin) [.stop 0 .begin] := by
    rw [solo, hw]
    rfl
  rw [hsolo]
  exact opening_of_drafts hw (by simp [Activity.stops])

theorem solo_ended_once : ∃ trace, Run solo trace soloOver ∧
    (∀ f ∈ solo.set, ∃ cell, soloOver.flow? f = some cell ∧ cell.state = .ended ∧
      cell.parked = none ∧ ∀ late, trace.countP (fun taken => usesUp late f taken.activity) = 1) ∧
    ((∃ v, (.ok .null : Outcome) = .ok v) →
      ∀ name message, Event.flowFailed name message ∉ soloOver.events) := by
  have hrun : Run solo (solo.replay [] soloTurns).1 soloOver := run_replay .refl soloTurns
  refine ⟨_, hrun, ended_once_of_returned solo_opening hrun (by rfl) ?_⟩
  have hcalls : ∀ t < 2, soloOver.stackOf t = [] := by
    rintro (_ | _ | t) ht
    · rfl
    · rfl
    · exact absurd ht (Nat.not_lt.mpr (Nat.le_add_left 2 t))
  exact hcalls

end World
end PullFlow.Engine
