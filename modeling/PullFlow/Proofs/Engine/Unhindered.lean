import PullFlow.Proofs.Engine.Latch
import PullFlow.Proofs.Engine.Monitors
import PullFlow.Proofs.Engine.SingleWriter

/-!
What a stop waits for. A stop that finds the monitor parked finishes the flow itself, and for that it
takes the lock of the flow, which a peer may have while it evaluates the chain. The monitor of a flow
that cannot be called leaves its place when the flow is launched and never comes back to it. So from
then on no stop of the flow waits for a lock.
-/

namespace PullFlow

theorem MonitorBody.endsFlow_eq (b : MonitorBody) : b.endsFlow = !b.callable := by
  cases b <;> rfl

namespace Engine

open Relation

/-- Whether a run is about to park its monitor, or has parked it. -/
def RunPoint.parks : RunPoint → Bool
  | .park _ | .parked _ | .retake _ => true
  | _ => false

/-- Whether a stop of a flow may come to be busy with an activity. -/
def Activity.ofStop (f : FlowId) : Activity → Bool
  | .advance g _ _ | .interrupt g _ | .finish g _ _ => decide (g = f)
  | .close .. => true
  | _ => false

section Stacks

variable {f : FlowId} {a b : Activity} {p : StopPoint} {rest : List Activity}

theorem ofStop_of_leads (h : ReflTransGen Activity.Continues a b) (ha : a.ofStop f = true) :
    b.ofStop f = true := by
  induction h with
  | refl => exact ha
  | tail _ hlast ih => cases hlast <;> exact ih

theorem ofStop_of_asks {back callee : Activity} (h : back.Asks callee)
    (hback : (∃ q, back = .stop f q) ∨ back.ofStop f = true) : callee.ofStop f = true := by
  obtain ⟨q, rfl⟩ | hback := hback
  · cases h with
    | move hmover =>
        cases hmover
        exact decide_eq_true rfl
    | stopRelease | stopFinish => exact decide_eq_true rfl
  · cases h with
    | move hmover =>
        cases hmover with
        | finish => exact hback
        | _ => cases hback
    | close => rfl
    | _ => cases hback

/-- Above a stop there is only what the stop may come to. -/
theorem Stacked.ofStop (h : Stacked (a :: rest)) (hmem : .stop f p ∈ rest) :
    a.ofStop f = true := by
  induction rest generalizing a with
  | nil => cases hmem
  | cons back below ih =>
      cases h with
      | cons hawaits hrest =>
          obtain ⟨callee, hasks, hleads⟩ := hawaits
          refine ofStop_of_leads hleads (ofStop_of_asks hasks ?_)
          obtain rfl | hmem := List.mem_cons.mp hmem
          · exact .inl ⟨p, rfl⟩
          · exact .inr (ih hrest hmem)

/-- A stop finishes a flow only after it has taken its monitor. -/
theorem Stacked.finish_of_stop {g : FlowId} {m : Monitor} {q : FinishPoint}
    (h : Stacked (.finish g m q :: rest)) (hmem : .stop f p ∈ rest) : .stop f .finished ∈ rest := by
  have hgf : g = f := of_decide_eq_true (h.ofStop hmem)
  subst hgf
  obtain ⟨back, below, callee, rfl, hasks, m', q', rfl⟩ :=
    h.asked (P := fun a => ∃ m q, a = .finish g m q) (by
      rintro a b hab ⟨m, q, rfl⟩
      cases hab
      exact ⟨_, _, rfl⟩) ⟨m, q, rfl⟩ (by rintro _ ⟨m, q, rfl⟩; rfl)
      (by rintro g m ⟨m', q, hsame⟩; cases hsame)
  cases hasks with
  | stopFinish => exact List.mem_cons_self
  | runFinish =>
      obtain hsame | hmem := List.mem_cons.mp hmem
      · cases hsame
      · exact nomatch h.tail.ofStop hmem
  | chain hr | sink hr => cases hr

end Stacks

namespace World

variable {w w₁ start : World} {t u : ThreadId} {f g : FlowId} {a b : Activity} {answer : Outcome}
  {cell : FlowCell} {pipeline : Pipeline} {m m₁ : Monitor} {turn : Turn} {rest : List Activity}
  {trace : List Taken}

/-- Whether a turn takes the monitor of a flow from its place to be run. -/
def Taken.launches (f : FlowId) (taken : Taken) : Bool :=
  match taken.activity with
  | .launch g true => decide (g = f) && (taken.before.parked? f).isSome
  | _ => false

/-- The flow was launched. -/
def Launched (f : FlowId) (trace : List Taken) : Prop := ∃ taken ∈ trace, taken.launches f = true

/-- Where the monitor of a flow is that cannot be called. It is not parked any more once anybody has
taken it, to run the flow or to stop it. -/
structure Fleeting (f : FlowId) (trace : List Taken) (w : World) : Prop where
  flow : ∃ cell, w.flow? f = some cell
  runs : ∀ t m q, .run f m q ∈ w.tasks t → q.parks = false
  taken : ∀ t, .stop f .finished ∈ w.tasks t → w.parked? f = none
  launched : Launched f trace → w.parked? f = none ∧ ∀ t, .stop f .finished ∉ w.tasks t

theorem launches_iff {taken : Taken} : taken.launches f = true ↔
    taken.activity = .launch f true ∧ (taken.before.parked? f).isSome = true := by
  unfold Taken.launches
  split
  · next g hactivity =>
    simp [hactivity]
  · next hother =>
    exact iff_of_false Bool.false_ne_true fun h => hother f h.1

/-- Only a run whose monitor makes the flow callable comes to park it. -/
theorem parks_of_run {q q' : RunPoint} {r : World × Turn} (h : w.run t f m answer q = some r)
    (hb : .run g m₁ q' ∈ r.2.frames) (hparks : q'.parks = true) :
    q.parks = true ∨ m.body.callable = true ∧ q.gone = false := by
  obtain ⟨m', q'', hsame, hleads⟩ | hcalls := run_leads h hb
  · cases hsame
    cases q' with
    | park d =>
        cases q with
        | decide d' =>
            refine .inr ⟨?_, rfl⟩
            cases hcallable : m.body.callable with
            | true => rfl
            | false =>
                -- the flow ends with such a monitor, so the run goes on to the end
                have hends : m.body.endsFlow = true := by rw [MonitorBody.endsFlow_eq, hcallable]; rfl
                simp only [World.run, hends, Bool.or_true, Bool.true_or, if_true,
                  Option.some.injEq] at h
                subst h
                cases List.mem_singleton.mp hb
        | _ => cases hleads
    | parked d | retake d =>
        cases q <;> first | exact .inl rfl | cases hleads
    | _ => cases hparks
  · cases hcalls
    next hcallee => exact absurd hcallee actionOf?_ne_run

/-- A stop that is to finish a flow has taken its monitor. -/
theorem taken_of_stop {q : StopPoint} {r : World × Turn} (h : w.stop f answer q = some r)
    (hb : .stop f .finished ∈ r.2.frames) :
    (w.parked? f).isSome = true ∧ r.1.parked? f = none := by
  cases q with
  | begin =>
      cases h
      simp [Turn.frames] at hb
  | advanced =>
      cases h
      cases hyes : MonitorBody.yes answer <;> simp [hyes, Turn.frames, Turn.done] at hb
  | interrupted =>
      obtain ⟨cell, hcell, rfl⟩ := Option.map_eq_some_iff.mp h
      split at hb
      · next hparked => simp [parked?, hcell, hparked, flow?_modifyFlow]
      · cases hb
  | finished =>
      cases h
      cases hb

theorem taken_of_launch {r : World × Turn} (h : w.launch f true = some r) :
    r.1.parked? f = none := by
  obtain ⟨cell, hcell, rfl⟩ := Option.map_eq_some_iff.mp h
  rw [if_pos rfl]
  cases hparked : cell.parked with
  | none => simp [parked?, hcell, hparked]
  | some m =>
      have hafter : (w.modifyFlow f fun cell => { cell with parked := none }).flow? f =
          some { cell with parked := none } := by simp [hcell, flow?_modifyFlow]
      dsimp only
      split
      · rw [parked?, flow?_modifyFlow, if_pos rfl]
        change (((w.modifyFlow f _).flow? f).map _).bind _ = none
        rw [hafter]
        rfl
      · rw [parked?]
        exact hafter ▸ rfl

namespace Fleeting

variable {body : MonitorBody}

theorem takes (h : Fleeting f trace w) (hdriven : Driven f body.sort w)
    (hplain : body.callable = false) (htakes : Takes w t a rest w₁ turn) :
    Fleeting f (⟨w, t, a⟩ :: trace) (w₁.turn t turn) := by
  have htop := htakes.top
  have hstays (hgone : w.parked? f = none) : w₁.parked? f = none := by
    cases hafter : w₁.parked? f with
    | none => rfl
    | some m₁ =>
        obtain ⟨d, rfl⟩ | ⟨m, hm, _⟩ := htakes.acts.parked_before hafter
        · exact nomatch h.runs t m₁ _ htop
        · rw [hgone] at hm
          cases hm
  have hstop {u : ThreadId} (hmem : .stop f .finished ∈ (w₁.turn t turn).tasks u) :
      .stop f .finished ∈ w.tasks u ∨ (w.parked? f).isSome = true ∧ w₁.parked? f = none := by
    obtain hmem | ⟨rfl, c, hc, hsame⟩ | ⟨g, m, _, hsame, _⟩ := htakes.mem hmem
    · exact .inl hmem
    · obtain rfl := eq_of_quiet_eq hsame fun _ _ _ _ => Activity.noConfusion
      obtain hgoes | ⟨back, _, hasks, _⟩ := htakes.stacks.of_mem hc
      · cases hgoes
        exact .inr (taken_of_stop (htakes.step_of_mem hc) hc)
      · cases hasks with
        | chain hr | sink hr => cases hr
    · cases hsame
  refine ⟨htakes.goes.moves.flow? h.flow, ?_, ?_, ?_⟩
  · intro u m₁ q' hmem
    obtain hmem | ⟨rfl, c, hc, hsame⟩ | ⟨g, m, rfl, hsame, hparked⟩ := htakes.mem hmem
    · exact h.runs u m₁ q' hmem
    · obtain rfl := eq_of_quiet_eq hsame fun _ _ _ _ => Activity.noConfusion
      have hstep := htakes.step_of_mem hc
      obtain hgoes | ⟨back, _, hasks, _⟩ := htakes.stacks.of_mem hc
      · cases hgoes with
        | @run _ m _ q _ =>
            cases hparks : q'.parks with
            | false => rfl
            | true =>
                obtain hbefore | ⟨hcalled, hgone⟩ := parks_of_run hstep hc hparks
                · rw [h.runs u m q htop] at hbefore
                  cases hbefore
                · rw [MonitorBody.callable_of_sort (hdriven.runs u m q htop hgone), hplain] at hcalled
                  cases hcalled
        | launch => rfl
      · cases hasks with
        | chain hr | sink hr => cases hr
    · cases hsame
      rfl
  · intro u hmem
    obtain hmem | ⟨_, hgone⟩ := hstop hmem
    · exact hstays (h.taken u hmem)
    · exact hgone
  · rintro ⟨taken, htaken, hlaunches⟩
    obtain ⟨hactivity, hparked⟩ := launches_iff.mp hlaunches
    obtain rfl | htaken := List.mem_cons.mp htaken
    · -- the flow is launched in this turn, by which nothing comes to a stop
      obtain rfl : a = .launch f true := hactivity
      obtain hstep | ⟨_, _, hsame, _⟩ := htakes.does
      · have hgone : w₁.parked? f = none := taken_of_launch hstep
        refine ⟨hgone, fun u hmem => ?_⟩
        obtain hmem | ⟨rfl, c, hc, hsame⟩ | ⟨g, m, _, hsame, _⟩ := htakes.mem hmem
        · rw [h.taken u hmem] at hparked
          cases hparked
        · obtain rfl := eq_of_quiet_eq hsame fun _ _ _ _ => Activity.noConfusion
          obtain hgoes | ⟨back, _, hasks, _⟩ := htakes.stacks.of_mem hc
          · cases hgoes
          · cases hasks with
            | chain hr | sink hr => cases hr
        · cases hsame
      · cases hsame
    · obtain ⟨hgone, hfree⟩ := h.launched ⟨taken, htaken, hlaunches⟩
      refine ⟨hstays hgone, fun u hmem => ?_⟩
      obtain hmem | ⟨hthere, _⟩ := hstop hmem
      · exact hfree u hmem
      · rw [hgone] at hthere
        cases hthere

theorem tick (h : Fleeting f trace w) (nanos : Nat) : Fleeting f trace (w.tick nanos) :=
  ⟨h.flow, h.runs, h.taken, h.launched⟩

/-- Nobody has taken the monitor while threads are yet to begin. -/
theorem init (hcell : w.flow? f = some cell)
    (hbegins : ∀ u, ∀ b ∈ w.tasks u, ∃ a : Activity, a.begins = true ∧ b = quiet a) :
    Fleeting f [] w := by
  refine ⟨⟨cell, hcell⟩, ?_, ?_, ?_⟩
  · intro u m q hmem
    cases begins_of_quiet (hbegins u _ hmem) fun _ _ _ _ => Activity.noConfusion
  · intro u hmem
    cases begins_of_quiet (hbegins u _ hmem) fun _ _ _ _ => Activity.noConfusion
  · rintro ⟨_, htaken, _⟩
    cases htaken

end Fleeting

theorem Run.fleeting {body : MonitorBody} (h : Run start trace w) (hdriven : Driven f body.sort start)
    (hplain : body.callable = false) (hstart : Fleeting f [] start) : Fleeting f trace w :=
  (h.every (P := fun trace w => Driven f body.sort w ∧ Fleeting f trace w) ⟨hdriven, hstart⟩
    (fun _ _ nanos hw => ⟨hw.1.tick nanos, hw.2.tick nanos⟩)
    fun _ _ _ _ _ _ _ htakes hw => ⟨hw.1.takes htakes, hw.2.takes hw.1 hplain htakes⟩).2

/-- Whether a thread is inside a stop of a flow. -/
def inStop (w : World) (t : ThreadId) (f : FlowId) : Bool :=
  (w.stackOf t).any fun a =>
    match a with
    | .stop g _ => decide (g = f)
    | _ => false

/-- The flow whose lock a thread is about to take. -/
def awaitedBy (w : World) (t : ThreadId) : Option FlowId := (w.doing? t).bind Activity.awaits?

theorem inStop_iff : w.inStop t f = true ↔ ∃ p, .stop f p ∈ w.stackOf t := by
  rw [inStop, List.any_eq_true]
  constructor
  · rintro ⟨a, hmem, ha⟩
    cases a with
    | stop g p =>
        obtain rfl : g = f := of_decide_eq_true ha
        exact ⟨p, hmem⟩
    | _ => cases ha
  · rintro ⟨p, hmem⟩
    exact ⟨_, hmem, decide_eq_true rfl⟩

/-- Inside a stop a thread is busy with the stop or with what it comes to, and it finishes the flow
only if the stop has taken the monitor. -/
theorem doing_of_inStop (hstacked : Stacked (w.tasks t)) (hstop : w.inStop t f = true)
    (ha : w.doing? t = some a) : (∃ p, a = .stop f p) ∨ a.ofStop f = true ∧
      ((∃ m q, a = .finish f m q) → .stop f .finished ∈ w.tasks t) := by
  obtain ⟨p, hmem⟩ := inStop_iff.mp hstop
  obtain ⟨rest, htasks⟩ := tasks_of_doing ha
  have hmem : .stop f p ∈ w.tasks t := by
    rw [tasks_eq]
    exact List.mem_map.mpr ⟨_, hmem, rfl⟩
  rw [htasks] at hmem hstacked ⊢
  obtain hsame | hbelow := List.mem_cons.mp hmem
  · exact .inl ⟨p, (eq_of_quiet_eq hsame fun _ _ _ _ => Activity.noConfusion).symm⟩
  · refine .inr ⟨?_, ?_⟩
    · have hof := hstacked.ofStop hbelow
      cases a <;> exact hof
    · rintro ⟨m, q, rfl⟩
      exact List.mem_cons_of_mem _ (hstacked.finish_of_stop hbelow)

section Drafts

variable {fresh : Nat → String} {drafts : List FlowDraft} {scopes : Scope.Store} {root : ScopeId}
  {first : Activity} {calls : List Activity}

/-- A stop of a flow that cannot be called waits for no lock once the flow was launched. All that it
may have to wait for is its turn to wake the readers of a scope that it has closed. -/
theorem stop_unhindered (hmade : ofDrafts fresh drafts scopes root = .ok start)
    (hcalls : ∀ a ∈ first :: calls, a.begins = true)
    (hrun : Run (start.opened first calls) trace w) (hcell : start.flow? f = some cell)
    (hkind : cell.callable = false) (hlaunched : Launched f trace)
    (hstop : w.inStop t f = true) :
    w.awaitedBy t = none ∧
      ((w.step t).isSome = true ∨ ∃ s, w.doing? t = some (.close s .wake)) := by
  have hbegins := begins_opened start hcalls
  have hfleeting : Fleeting f trace w := by
    obtain ⟨p, _, name, fed, rfl⟩ := draft_of_ofDrafts hmade hcell
    refine hrun.fleeting (.init (fun m hm => ?_) hbegins) hkind (.init hcell hbegins)
    rw [parked?, show (start.opened first calls).flow? f = _ from hcell] at hm
    cases hm
    rfl
  have hstacked := hrun.stacked (stacked_opened start hcalls) t
  obtain ⟨cell', hcell'⟩ := hfleeting.flow
  obtain ⟨a, ha⟩ : ∃ a, w.doing? t = some a := by
    obtain ⟨p, hmem⟩ := inStop_iff.mp hstop
    rw [doing?]
    cases hstack : w.stackOf t with
    | nil => simp [hstack] at hmem
    | cons a rest => exact ⟨a, rfl⟩
  rw [awaitedBy, ha, step_of_doing ha, Option.isSome_map]
  obtain ⟨p, rfl⟩ | ⟨hof, hfinish⟩ := doing_of_inStop hstacked hstop ha
  · refine ⟨rfl, .inl ?_⟩
    cases p <;> simp [Activity.step, stop, hcell']
  · cases a with
    | advance g target q =>
        obtain rfl : g = f := of_decide_eq_true hof
        refine ⟨rfl, .inl ?_⟩
        cases q <;> simp [Activity.step, advance, hcell']
    | interrupt g q =>
        obtain rfl : g = f := of_decide_eq_true hof
        refine ⟨rfl, .inl ?_⟩
        cases q <;> simp [Activity.step, interrupt, hcell']
    | close s q =>
        cases q with
        | mark => exact ⟨rfl, .inl rfl⟩
        | wake => exact ⟨rfl, .inr ⟨s, rfl⟩⟩
    | finish g m q =>
        -- such a stop has taken the monitor, which nobody can after the launch
        obtain rfl : g = f := of_decide_eq_true hof
        exact absurd (hfinish ⟨m, q, rfl⟩) ((hfleeting.launched hlaunched).2 t)
    | _ => cases hof

/-- A flow that reads a variable nobody sets. -/
def idlerDrafts : List FlowDraft :=
  [⟨some "a", some (.make "var" (.var "" true none) ⟨[.literal (.text "x")], []⟩), [],
    some (.make "none" .none .none), some (.make "once" .once .none)⟩]

def idler : World :=
  (ofDrafts (fun _ => "") idlerDrafts Scope.Store.empty.addRoot.1 0).toOption.getD empty

/-- One thread runs the flow, one stops it. -/
def idlerOpened : World := idler.opened (.runAll .begin) [.stop 0 .begin]

/-- The flow waits for its variable, under its lock, and the other thread is about to release it. -/
def idlerStopped : List Taken × World :=
  idlerOpened.replay []
    (List.replicate 47 0 ++ List.replicate 22 2 ++ List.replicate 5 1)

theorem idler_unhindered : idlerStopped.2.evaluates 2 0 = true ∧
    idlerStopped.2.holderOf 0 = some 2 ∧ idlerStopped.2.inStop 1 0 = true ∧
    idlerStopped.2.awaitedBy 1 = none ∧ ((idlerStopped.2.step 1).isSome = true ∨
      ∃ s, idlerStopped.2.doing? 1 = some (.close s .wake)) := by
  have hmade : ofDrafts (fun _ => "") idlerDrafts Scope.Store.empty.addRoot.1 0 = .ok idler :=
    made_of_isOk (by decide +kernel)
  have hlaunched : idlerStopped.1.any (Taken.launches 0) = true := by decide +kernel
  have hstop : idlerStopped.2.inStop 1 0 = true := by decide +kernel
  obtain ⟨cell, hcell⟩ : ∃ cell, idler.flow? 0 = some cell := ⟨_, rfl⟩
  have hkind : (idler.flow? 0).map FlowCell.callable = some false := by decide +kernel
  rw [hcell] at hkind
  have hrun : Run idlerOpened idlerStopped.1 idlerStopped.2 := run_replay .refl _
  exact ⟨by decide +kernel, by decide +kernel, hstop,
    stop_unhindered hmade (by simp [Activity.begins]) hrun hcell (Option.some_inj.mp hkind)
      (List.any_eq_true.mp hlaunched) hstop⟩

/-- A call of a flow has its lock, and a stop has come to the end of the flow. -/
def serverHeld : List Taken × World :=
  serverOpened.replay []
    (List.replicate 60 0 ++ List.replicate 5 2 ++ List.replicate 11 1)

/-- The stop of a flow that can be called waits for the lock that a call of it has. -/
theorem server_stop_hindered : Reach serverOpened serverHeld.2 ∧ serverHeld.2.inStop 1 0 = true ∧
    serverHeld.2.awaitedBy 1 = some 0 ∧ serverHeld.2.step 1 = none ∧
    serverHeld.2.holderOf 0 = some 2 ∧ serverHeld.2.evaluates 2 0 = true := by
  have hblocked : (serverHeld.2.step 1).isNone = true := by decide +kernel
  exact ⟨(run_replay .refl _).reach, by decide +kernel, by decide +kernel,
    Option.isNone_iff_eq_none.mp hblocked, by decide +kernel, by decide +kernel⟩

end Drafts

end World
end Engine
end PullFlow
