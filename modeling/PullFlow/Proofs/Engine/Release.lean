import PullFlow.Proofs.Engine.Latch
import PullFlow.Proofs.Engine.Residence
import PullFlow.Proofs.Engine.SingleWriter

/-!
What a stop releases. Whoever moves a flow to its ending cuts its sleeps short, closes its scope,
wakes who sleeps there, and opens its latch. None of this is ever taken back, so from then on nobody
waits for the flow itself. The thread of the flow may still wait, but only on behalf of another one:
inside the chain of a flow that it reads or calls, or for such a flow to start.
-/

namespace PullFlow.Engine

open Relation

/-- Whether the run of a flow may come to be busy with an activity. -/
def Activity.ofRun (f : FlowId) : Activity → Bool
  | .sleep g _ | .push g _ _ | .sinksActive g => decide (g = f)
  | .look .. | .write .. | .close .. | .host _ | .pull .. | .read .. | .demand _ | .call .. => true
  | .advance .. | .interrupt .. | .finish .. | .stop .. | .stopAll _ => true
  | _ => false

/-- Whether an activity runs a flow, or is about to. -/
def Activity.launches (f : FlowId) : Activity → Bool
  | .launch g true | .run g _ _ => decide (g = f)
  | _ => false

section Stacks

variable {f : FlowId} {a b : Activity} {m : Monitor} {p : RunPoint} {rest : List Activity}

theorem launches_quiet (f : FlowId) (a : Activity) : (quiet a).launches f = a.launches f := by
  cases a <;> rfl

theorem sited_of_launches (h : a.launches f = true) : a.sited f = true := by
  unfold Activity.launches at h
  split at h
  · exact h
  · exact h
  · cases h

theorem ofRun_of_leads (h : ReflTransGen Activity.Continues a b) (ha : a.ofRun f = true) :
    b.ofRun f = true := by
  induction h with
  | refl => exact ha
  | tail _ hlast ih => cases hlast <;> exact ih

theorem ofRun_of_asks {back callee : Activity} (h : back.Asks callee)
    (hback : (∃ m q, back = .run f m q) ∨ back.ofRun f = true) : callee.ofRun f = true := by
  have hrequested (hr : callee.requested = true) : callee.ofRun f = true := by
    cases callee <;> first | rfl | cases hr
  obtain ⟨m, q, rfl⟩ | hback := hback
  · cases h <;> first | rfl | exact decide_eq_true rfl
  · cases h <;> first | rfl | exact hrequested ‹_›

theorem close_of_leads {s : ScopeId} {q : ClosePoint}
    (h : ReflTransGen Activity.Continues (.close s q) a) : ∃ q', a = .close s q' := by
  induction h with
  | refl => exact ⟨q, rfl⟩
  | tail _ hlast ih =>
      obtain ⟨q', rfl⟩ := ih
      cases hlast
      exact ⟨_, rfl⟩

theorem interrupt_of_leads {q : InterruptPoint}
    (h : ReflTransGen Activity.Continues (.interrupt f q) a) : ∃ q', a = .interrupt f q' := by
  induction h with
  | refl => exact ⟨q, rfl⟩
  | tail _ hlast ih =>
      obtain ⟨q', rfl⟩ := ih
      cases hlast
      exact ⟨_, rfl⟩

/-- Above the release of the waits of a flow there is at most the close of a scope. -/
theorem Stacked.close_of_interrupt {q : InterruptPoint} (h : Stacked (quiet a :: .interrupt f q :: rest)) :
    ∃ s q', a = .close s q' := by
  cases h with
  | cons hawaits _ =>
      obtain ⟨callee, hasks, hleads⟩ := hawaits
      cases hasks with
      | move hmover => cases hmover
      | close =>
          obtain ⟨q', hsame⟩ := close_of_leads hleads
          exact ⟨_, q', (eq_of_quiet_eq hsame.symm fun _ _ _ _ => Activity.noConfusion).symm⟩

/-- Above a stop that waits for the release of the waits of a flow there is the release. -/
theorem Stacked.interrupt_of_stop (h : Stacked (quiet a :: .stop f .interrupted :: rest)) :
    ∃ q, a = .interrupt f q := by
  cases h with
  | cons hawaits _ =>
      obtain ⟨callee, hasks, hleads⟩ := hawaits
      cases hasks with
      | move hmover => cases hmover
      | stopRelease =>
          obtain ⟨q', hsame⟩ := interrupt_of_leads hleads
          exact ⟨q', (eq_of_quiet_eq hsame.symm fun _ _ _ _ => Activity.noConfusion).symm⟩

/-- Above a run of a flow there is only what the run may come to. -/
theorem Stacked.ofRun (h : Stacked (a :: rest)) (hmem : .run f m p ∈ rest) : a.ofRun f = true := by
  induction rest generalizing a with
  | nil => cases hmem
  | cons back below ih =>
      cases h with
      | cons hawaits hrest =>
          obtain ⟨callee, hasks, hleads⟩ := hawaits
          refine ofRun_of_leads hleads (ofRun_of_asks hasks ?_)
          obtain rfl | hmem := List.mem_cons.mp hmem
          · exact .inl ⟨m, p, rfl⟩
          · exact .inr (ih hrest hmem)

end Stacks

namespace World

variable {w w₁ start : World} {t u : ThreadId} {f g : FlowId} {a b : Activity} {answer : Outcome}
  {cell : FlowCell} {s : ScopeId} {key : String} {wait : Bool} {m : Monitor} {turn : Turn}
  {rest : List Activity} {trace : List Taken}

/-! Nobody sleeps in a scope any more once it is closed and its readers are woken. -/

/-- A step puts no reader to sleep but by its turn. -/
theorem Acts.asleep (h : Acts w t answer a w₁) (hmem : .look s key wait .asleep ∈ w₁.stackOf u) :
    .look s key wait .asleep ∈ w.stackOf u := by
  have hchange {v : ThreadId} {change : Thread → Thread} (hstack : ∀ th, (change th).stack = th.stack)
      (hmem : .look s key wait .asleep ∈ (w.modifyThread v change).stackOf u) :
      .look s key wait .asleep ∈ w.stackOf u := by
    simp only [stackOf, modifyThread, List.getElem?_modify] at hmem ⊢
    cases hth : w.threads[u]? with
    | none => simp [hth] at hmem
    | some th =>
        rw [hth] at hmem
        split at hmem
        · next th' hsome =>
          split at hsome <;> cases hsome
          · exact hstack th ▸ hmem
          · exact hmem
        · cases hmem
  cases h with
  | leaves _ hleaves => exact hleaves.asleep u s key wait hmem
  | works _ _ hleaves => exact hleaves.asleep u s key wait hmem
  | enter | leave =>
      refine hchange (fun th => ?_) hmem
      rfl
  | _ => exact hmem

/-- A reader goes to sleep only in a scope that is open. -/
theorem open_of_asleep (h : a.step w t answer = some (w₁, turn))
    (hmem : .look s key wait .asleep ∈ turn.frames) : w.scopes.isClosed s = false := by
  cases turn with
  | goto b out =>
      have hgoes : a.Continues b := step_stacks h
      obtain rfl := List.mem_singleton.mp hmem
      cases hgoes with
      | @look _ _ _ p _ =>
          simp only [Activity.step] at h
          unfold World.look at h
          split at h
          · cases h
          · split at h <;> cases h
          · cases h
          · obtain ⟨w', _, h⟩ := Option.map_eq_some_iff.mp h
            cases h
          · cases h
          · cases h
          · cases h
          · split at h
            · cases h
            · next hopen => exact Bool.eq_false_iff.mpr hopen
          · cases h
  | invoke callee back =>
      obtain rfl | hmem := List.mem_cons.mp hmem
      · exact absurd (look_of_asked h).1 (by simp [lookFor])
      · obtain rfl := List.mem_singleton.mp hmem
        cases (step_stacks h).1 with
        | move hmover => cases hmover
  | exit out => cases hmem

/-- A reader that sleeps after a turn slept before, or the turn has put it to sleep. -/
theorem Takes.asleep (h : Takes w t a rest w₁ turn)
    (hmem : .look s key wait .asleep ∈ (w₁.turn t turn).stackOf u) :
    .look s key wait .asleep ∈ w₁.stackOf u ∨ .look s key wait .asleep ∈ turn.frames := by
  by_cases hu : u = t
  · subst hu
    cases hth : w₁.threads[u]? with
    | none => exact absurd (by rw [tasks_eq, stackOf, hth]; rfl) h.goes.busy_before
    | some th =>
        rw [stackOf_turn_self hth] at hmem
        obtain hmem | hmem := List.mem_append.mp hmem
        · exact .inr hmem
        · exact .inl (List.mem_of_mem_tail hmem)
  · rw [stackOf_turn_of_ne _ hu] at hmem
    exact .inl hmem

/-- A scope is closed and no reader sleeps in it. -/
structure Cleared (s : ScopeId) (w : World) : Prop where
  closed : w.scopes.isClosed s = true
  awake : ∀ t key wait, .look s key wait .asleep ∉ w.stackOf t

/-- A scope that is cleared stays so. -/
theorem Cleared.takes (h : Cleared s w) (htakes : Takes w t a rest w₁ turn) :
    Cleared s (w₁.turn t turn) := by
  refine ⟨htakes.acts.lasts.closed s h.closed, fun u key wait hmem => ?_⟩
  obtain hmem | hmem := htakes.asleep hmem
  · exact h.awake u key wait (htakes.acts.asleep hmem)
  · have hopen := open_of_asleep (htakes.step_of_mem hmem) hmem
    rw [h.closed] at hopen
    cases hopen

/-- Whoever has closed a scope clears it by waking its readers. -/
theorem Cleared.of_wake (hclosed : w.scopes.isClosed s = true)
    (htakes : Takes w t (.close s .wake) rest w₁ turn) : Cleared s (w₁.turn t turn) := by
  refine ⟨htakes.acts.lasts.closed s hclosed, fun u key wait hmem => ?_⟩
  obtain hstep | ⟨_, _, hsame, _⟩ := htakes.does
  · simp only [Activity.step, World.close] at hstep
    split at hstep <;> cases hstep
    obtain hmem | hmem := htakes.asleep hmem
    · rw [stackOf_wake] at hmem
      exact (mem_of_roused hmem).2 rfl
    · cases hmem
  · cases hsame

/-! What was released stays so. -/

/-- Sleeps that are cut short stay so. -/
theorem Acts.stopped_mono (h : Acts w t answer a w₁) (hstopped : w.stoppedOf f = true) :
    w₁.stoppedOf f = true := by
  have hkeep {g : FlowId} {change : FlowCell → FlowCell}
      (hchange : ∀ cell, cell.stopped = true → (change cell).stopped = true) :
      (w.modifyFlow g change).stoppedOf f = true := by
    rw [stoppedOf, map_modifyFlow]
    rw [stoppedOf] at hstopped
    cases hcell : w.flow? f with
    | none => simp [hcell] at hstopped
    | some cell =>
        rw [hcell] at hstopped
        split
        · exact hchange cell hstopped
        · exact hstopped
  cases h with
  | leaves _ hleaves => exact (hleaves.stopped f).trans hstopped
  | works _ _ hleaves =>
      refine (hleaves.stopped f).trans (hkeep ?_)
      exact fun _ h => h
  | release | unlatch | record =>
      refine hkeep ?_
      exact fun _ h => h
  | cut =>
      refine hkeep ?_
      exact fun _ _ => rfl
  | _ => exact hstopped

/-- Nobody waits in the scope of a flow any more, or the flow never comes to run. -/
def Sealed (f : FlowId) (w : World) : Prop :=
  (∃ s, w.scope? f = some s ∧ Cleared s w) ∨
    w.stopping f = true ∧ ∀ t, ∀ a ∈ w.tasks t, a.launches f = false

/-- A flow that has begun to end is not launched any more. -/
theorem launches_of_step (h : a.step w t answer = some (w₁, turn)) (hb : b ∈ turn.frames)
    (hstopping : w.stopping f = true) (hlaunches : b.launches f = true) : a.launches f = true := by
  obtain hgoes | ⟨back, _, hasks, _⟩ := (step_stacks h).of_mem hb
  · cases hgoes with
    | @check g checked =>
        obtain rfl : g = f := of_decide_eq_true hlaunches
        cases checked with
        | true => exact hlaunches
        | false =>
            have hwired := (mem_checkState ((launch_unchecked w g).symm.trans h) hb).2
            rw [stopping, hwired] at hstopping
            exact absurd hstopping (by decide)
    | launch | run => exact hlaunches
    | _ => cases hlaunches
  · cases hasks with
    | chain hr | sink hr => cases b <;> first | cases hlaunches | cases hr
    | _ => cases hlaunches

/-- A flow keeps the scope that it has: a second context pass would have had to attach its components
again. -/
theorem Housed.scope (h : Housed w) (htakes : Takes w t a rest w₁ turn) (hs : w.scope? f = some s) :
    (w₁.turn t turn).scope? f = some s := by
  change w₁.scope? f = some s
  obtain hsame | ⟨s', rfl, hs'⟩ := htakes.acts.scope f
  · exact hsame.trans hs
  · have hplaced := h.placed t f _ s' htakes.top rfl
    rw [(h.recorded f s hs).1] at hplaced
    rw [hs', ← hplaced]

theorem Sealed.takes (h : Sealed f w) (hhoused : Housed w) (htakes : Takes w t a rest w₁ turn) :
    Sealed f (w₁.turn t turn) := by
  obtain ⟨s, hs, hcleared⟩ | ⟨hstopping, hidle⟩ := h
  · exact .inl ⟨s, hhoused.scope htakes hs, hcleared.takes htakes⟩
  · refine .inr ⟨htakes.goes.moves.stopping hstopping, fun u b hmem => ?_⟩
    cases hlaunches : b.launches f with
    | false => rfl
    | true =>
        have htop : a.launches f = false := by
          rw [← launches_quiet]
          exact hidle t _ htakes.top
        obtain hmem | ⟨_, c, hc, rfl⟩ | ⟨g, m, rfl, rfl, _⟩ := htakes.mem hmem
        · rw [hidle u b hmem] at hlaunches
          cases hlaunches
        · rw [launches_quiet] at hlaunches
          rw [launches_of_step (htakes.step_of_mem hc) hc hstopping hlaunches] at htop
          cases htop
        · have hsame : (Activity.launch g true).launches f = true := hlaunches
          rw [hsame] at htop
          cases htop

theorem Sealed.tick (h : Sealed f w) (nanos : Nat) : Sealed f (w.tick nanos) := by
  obtain ⟨s, hs, hcleared⟩ | hidle := h
  · exact .inl ⟨s, hs, hcleared.closed, hcleared.awake⟩
  · exact .inr hidle

/-- The waits of a flow are released. -/
structure Freed (f : FlowId) (w : World) : Prop where
  stopped : w.stoppedOf f = true
  released : w.releasedOf f = true
  sealed : Sealed f w

theorem Freed.takes (h : Freed f w) (hhoused : Housed w) (hflow : ∃ cell, w.flow? f = some cell)
    (htakes : Takes w t a rest w₁ turn) : Freed f (w₁.turn t turn) :=
  ⟨htakes.acts.stopped_mono h.stopped, htakes.acts.released_mono hflow h.released,
    h.sealed.takes hhoused htakes⟩

theorem Freed.tick (h : Freed f w) (nanos : Nat) : Freed f (w.tick nanos) :=
  ⟨h.stopped, h.released, h.sealed.tick nanos⟩

/-- A turn with which a stop of a flow goes on from the release of the waits of the flow. -/
def Taken.stopReleases (f : FlowId) (taken : Taken) : Bool :=
  match taken.activity with
  | .stop g .interrupted => decide (g = f)
  | _ => false

/-- A stop of a flow has gone on from the release of the waits of the flow. -/
def StopReleased (f : FlowId) (trace : List Taken) : Prop :=
  ∃ taken ∈ trace, taken.stopReleases f = true

theorem Taken.stopReleases_iff {taken : Taken} :
    taken.stopReleases f = true ↔ taken.activity = .stop f .interrupted := by
  unfold stopReleases
  split
  · next g hactivity => simp [hactivity]
  · next hother => exact ⟨Bool.noConfusion, fun h => absurd h (hother f)⟩

/-- A stop never goes on at once: it waits for something else to be done, or it is over. -/
theorem stop_goto {p : StopPoint} {out : Outcome} : w.stop f answer p ≠ some (w₁, .goto b out) := by
  intro h
  cases p with
  | begin | finished => cases h
  | advanced =>
      cases hyes : MonitorBody.yes answer <;> simp [World.stop, hyes, Turn.done] at h
  | interrupted =>
      obtain ⟨cell, _, heq⟩ := Option.map_eq_some_iff.mp h
      split at heq <;> cases heq

/-- How far the release of the waits of a flow has come. -/
structure Releasing (f : FlowId) (trace : List Taken) (w : World) : Prop where
  cut : ∀ t p, .interrupt f p ∈ w.tasks t → p ≠ .sleeper → w.stoppedOf f = true
  closes : ∀ t s p rest, w.tasks t = .close s p :: .interrupt f .latch :: rest →
    w.scope? f = some s ∧ (p = .wake → w.scopes.isClosed s = true)
  closed : ∀ t rest, w.tasks t = .interrupt f .latch :: rest → Sealed f w
  freed : ∀ t rest, w.tasks t = .stop f .interrupted :: rest → Freed f w
  passed : StopReleased f trace → Freed f w

namespace Releasing

/-- Whoever is past the first point of a release has cut the sleeps of the flow short. -/
theorem cut_takes (h : Releasing f trace w) (hlatched : Latched f trace w)
    (htakes : Takes w t a rest w₁ turn) {p : InterruptPoint}
    (hmem : .interrupt f p ∈ (w₁.turn t turn).tasks u) (hp : p ≠ .sleeper) :
    (w₁.turn t turn).stoppedOf f = true := by
  change w₁.stoppedOf f = true
  obtain hmem | ⟨_, c, hc, hsame⟩ | ⟨_, _, _, hsame, _⟩ := htakes.mem hmem
  · exact htakes.acts.stopped_mono (h.cut u p hmem hp)
  · obtain rfl := eq_of_quiet_eq hsame fun _ _ _ _ => Activity.noConfusion
    have hstep := htakes.step_of_mem hc
    obtain hgoes | ⟨back, _, hasks, _⟩ := htakes.stacks.of_mem hc
    · cases hgoes with
      | @interrupt _ q _ =>
          cases q with
          | sleeper =>
              obtain ⟨cell, hcell⟩ := hlatched.flow
              cases hstep
              rw [stoppedOf, flow?_modifyFlow, if_pos rfl, hcell]
              rfl
          | close | latch =>
              exact htakes.acts.stopped_mono (h.cut t _ htakes.top InterruptPoint.noConfusion)
    · cases hasks with
      | chain hr | sink hr => cases hr
      | stopRelease | runRelease => exact absurd rfl hp
  · cases hsame

/-- A release closes the scope of the flow. -/
theorem closes_takes (h : Releasing f trace w) (hhoused : Housed w)
    (hstacked : ∀ u, Stacked (w.tasks u)) (htakes : Takes w t a rest w₁ turn) {p : ClosePoint}
    {below : List Activity}
    (hclose : (w₁.turn t turn).tasks u = .close s p :: .interrupt f .latch :: below) :
    (w₁.turn t turn).scope? f = some s ∧ (p = .wake → (w₁.turn t turn).scopes.isClosed s = true) := by
  have hkeep {q : ClosePoint} {v : ThreadId}
      (hv : w.tasks v = .close s q :: .interrupt f .latch :: below) :
      (w₁.turn t turn).scope? f = some s ∧ (q = .wake → (w₁.turn t turn).scopes.isClosed s = true) := by
    obtain ⟨hs, hclosed⟩ := h.closes v s q below hv
    exact ⟨hhoused.scope htakes hs, fun hq => htakes.acts.lasts.closed s (hclosed hq)⟩
  by_cases hu : u = t
  · subst hu
    obtain ⟨out, rfl, rfl, hgoes, hstep⟩ | ⟨back, rfl, hbelow, hasks, hgoes, hstep⟩ |
      ⟨out, rfl, hrest⟩ := htakes.top_of hclose fun _ _ _ _ => Activity.noConfusion
    · cases hgoes with
      | @close _ q _ =>
          have hbefore := htakes.goes.tasks
          refine ⟨(hkeep hbefore).1, fun _ => ?_⟩
          cases q with
          | mark =>
              cases hstep
              exact Scope.Store.isClosed_close (hhoused.recorded f s (h.closes _ _ _ _ hbefore).1).2
          | wake => exact (hkeep hbefore).2 rfl
    · injection hbelow with hback _
      obtain rfl := eq_of_quiet_eq hback fun _ _ _ _ => Activity.noConfusion
      cases hasks with
      | close =>
          refine ⟨?_, ClosePoint.noConfusion⟩
          cases hgoes with
          | @interrupt _ q _ =>
              cases q with
              | close =>
                  obtain ⟨cell, hcell, heq⟩ := Option.map_eq_some_iff.mp hstep
                  split at heq
                  · next s' hs' =>
                    cases heq
                    refine hhoused.scope htakes ?_
                    rw [scope?, hcell]
                    exact hs'
                  · cases heq
              | sleeper | latch => cases hstep
    · -- nothing stands above the close of a scope
      have hstack := hstacked u
      rw [htakes.goes.tasks, hrest] at hstack
      cases hstack with
      | cons hawaits _ =>
          obtain ⟨callee, hasks, _⟩ := hawaits
          cases hasks with
          | move hmover => cases hmover
  · exact hkeep (htakes.top_other hu hclose fun _ _ => Activity.noConfusion)

/-- A release comes to the latch when the scope of the flow is cleared, or when the flow has none and
will not be launched any more. -/
theorem closed_takes (h : Releasing f trace w) (hhoused : Housed w) (hsited : Sited f w)
    (hlatched : Latched f trace w) (hstacked : ∀ u, Stacked (w.tasks u))
    (htakes : Takes w t a rest w₁ turn) {below : List Activity}
    (hlatch : (w₁.turn t turn).tasks u = .interrupt f .latch :: below) :
    Sealed f (w₁.turn t turn) := by
  by_cases hu : u = t
  · subst hu
    obtain ⟨out, rfl, rfl, hgoes, hstep⟩ | ⟨back, rfl, _, hasks, _⟩ | ⟨out, rfl, hrest⟩ :=
      htakes.top_of hlatch fun _ _ _ _ => Activity.noConfusion
    · cases hgoes with
      | @interrupt _ q _ =>
          cases q with
          | close =>
              obtain ⟨cell, hcell, heq⟩ := Option.map_eq_some_iff.mp hstep
              split at heq
              · cases heq
              · next hnone =>
                cases heq
                refine Sealed.takes (.inr ⟨hlatched.frees u _ htakes.top (decide_eq_true rfl),
                  fun v b hb => ?_⟩) hhoused htakes
                cases hlaunches : b.launches f with
                | false => rfl
                | true =>
                    have hsome := hsited.past v b hb (sited_of_launches hlaunches)
                    rw [scope?, hcell] at hsome
                    change cell.scope.isSome = true at hsome
                    rw [hnone] at hsome
                    cases hsome
          | sleeper | latch => cases hstep
    · cases hasks with
      | chain hr | sink hr => cases hr
    · have hstack := hstacked u
      rw [htakes.goes.tasks, hrest] at hstack
      obtain ⟨s, q, rfl⟩ := hstack.close_of_interrupt
      have hbefore : w.tasks u = .close s q :: .interrupt f .latch :: below :=
        htakes.goes.tasks.trans (by rw [hrest]; rfl)
      obtain ⟨hs, hclosed⟩ := h.closes u s q below hbefore
      cases q with
      | mark =>
          obtain hstep | ⟨_, _, hsame, _⟩ := htakes.does
          · cases hstep
          · cases hsame
      | wake => exact .inl ⟨s, hhoused.scope htakes hs, .of_wake (hclosed rfl) htakes⟩
  · have hbefore := htakes.top_other hu hlatch fun _ _ => Activity.noConfusion
    exact (h.closed u below hbefore).takes hhoused htakes

/-- A stop goes on from the release when all is released. -/
theorem freed_takes (h : Releasing f trace w) (hhoused : Housed w) (hlatched : Latched f trace w)
    (hstacked : ∀ u, Stacked (w.tasks u)) (htakes : Takes w t a rest w₁ turn)
    {below : List Activity} (hstop : (w₁.turn t turn).tasks u = .stop f .interrupted :: below) :
    Freed f (w₁.turn t turn) := by
  by_cases hu : u = t
  · subst hu
    obtain ⟨out, rfl, rfl, hgoes, hstep⟩ | ⟨back, rfl, _, hasks, _⟩ | ⟨out, rfl, hrest⟩ :=
      htakes.top_of hstop fun _ _ _ _ => Activity.noConfusion
    · cases hgoes with
      | stop => exact absurd hstep stop_goto
    · cases hasks with
      | chain hr | sink hr => cases hr
    · have hstack := hstacked u
      rw [htakes.goes.tasks, hrest] at hstack
      obtain ⟨q, rfl⟩ := hstack.interrupt_of_stop
      have hstep : w.interrupt f q = some (w₁, .exit out) := by
        obtain hstep | ⟨_, _, hsame, _⟩ := htakes.does
        · exact hstep
        · cases hsame
      cases q with
      | latch =>
          have hstopped := h.cut u .latch htakes.top InterruptPoint.noConfusion
          have hsealed := (h.closed u rest htakes.goes.tasks).takes hhoused htakes
          refine ⟨htakes.acts.stopped_mono hstopped, ?_, hsealed⟩
          cases hstep
          exact releasedOf_open hlatched.flow
      | sleeper => cases hstep
      | close =>
          obtain ⟨cell, _, heq⟩ := Option.map_eq_some_iff.mp hstep
          split at heq <;> cases heq
  · have hbefore := htakes.top_other hu hstop fun _ _ => Activity.noConfusion
    exact (h.freed u below hbefore).takes hhoused hlatched.flow htakes

theorem takes (h : Releasing f trace w) (hhoused : Housed w) (hsited : Sited f w)
    (hlatched : Latched f trace w) (hstacked : ∀ u, Stacked (w.tasks u))
    (htakes : Takes w t a rest w₁ turn) : Releasing f (⟨w, t, a⟩ :: trace) (w₁.turn t turn) := by
  refine ⟨fun _ _ hmem hp => h.cut_takes hlatched htakes hmem hp,
    fun _ _ _ _ hclose => h.closes_takes hhoused hstacked htakes hclose,
    fun _ _ hlatch => h.closed_takes hhoused hsited hlatched hstacked htakes hlatch,
    fun _ _ hstop => h.freed_takes hhoused hlatched hstacked htakes hstop, ?_⟩
  rintro ⟨taken, htaken, hreleases⟩
  obtain rfl | htaken := List.mem_cons.mp htaken
  · obtain rfl : a = .stop f .interrupted := Taken.stopReleases_iff.mp hreleases
    exact (h.freed t rest htakes.goes.tasks).takes hhoused hlatched.flow htakes
  · exact (h.passed ⟨taken, htaken, hreleases⟩).takes hhoused hlatched.flow htakes

theorem tick (h : Releasing f trace w) (nanos : Nat) : Releasing f trace (w.tick nanos) :=
  ⟨h.cut, h.closes, fun u below hlatch => (h.closed u below hlatch).tick nanos,
    fun u below hstop => (h.freed u below hstop).tick nanos, fun hpassed => (h.passed hpassed).tick nanos⟩

/-- Nobody releases anything when threads are yet to begin. -/
theorem init {first : Activity} {calls : List Activity}
    (hcalls : ∀ a ∈ first :: calls, a.begins = true) : Releasing f [] (start.opened first calls) := by
  have hbegins {b : Activity} {below : List Activity} {u : ThreadId}
      (htasks : (start.opened first calls).tasks u = b :: below) :
      ∃ a : Activity, a.begins = true ∧ b = quiet a :=
    begins_opened start hcalls u b (htasks ▸ List.mem_cons_self)
  refine ⟨fun u p hmem _ => ?_, fun u s p below hclose => ?_, fun u below hlatch => ?_,
    fun u below hstop => ?_, ?_⟩
  · cases begins_of_quiet (begins_opened start hcalls u _ hmem) fun _ _ _ _ => Activity.noConfusion
  · cases below_opened hclose
  · cases begins_of_quiet (hbegins hlatch) fun _ _ _ _ => Activity.noConfusion
  · cases begins_of_quiet (hbegins hstop) fun _ _ _ _ => Activity.noConfusion
  · rintro ⟨taken, htaken, _⟩
    cases htaken

end Releasing

theorem Run.releasing (h : Run start trace w) (hstacked : ∀ u, Stacked (start.tasks u))
    (hhoused : Housed start) (hsited : Sited f start) (hlatched : Latched f [] start)
    (hstart : Releasing f [] start) : Releasing f trace w := by
  refine (h.every (P := fun trace w => (∀ u, Stacked (w.tasks u)) ∧ Housed w ∧ Sited f w ∧
    Latched f trace w ∧ Releasing f trace w) ⟨hstacked, hhoused, hsited, hlatched, hstart⟩
    (fun trace w nanos hw => ?_) fun trace w t a rest w₁ turn htakes hw => ?_).2.2.2.2
  · obtain ⟨hstacked, hhoused, hsited, hlatched, hw⟩ := hw
    exact ⟨hstacked, hhoused.tick nanos, hsited.tick nanos, hlatched.tick nanos, hw.tick nanos⟩
  · obtain ⟨hstacked, hhoused, hsited, hlatched, hw⟩ := hw
    exact ⟨htakes.stacked hstacked, hhoused.takes hstacked htakes, hsited.takes hlatched.flow htakes,
      hlatched.takes htakes, hw.takes hhoused hsited hlatched hstacked htakes⟩

/-! Who waits, and for whom. -/

/-- Whether a thread runs a flow. -/
def runs (w : World) (t : ThreadId) (f : FlowId) : Bool :=
  (w.stackOf t).any fun a =>
    match a with
    | .run g _ _ => decide (g = f)
    | _ => false

/-- The flow at whose latch a thread waits. -/
def awaitsStart? (w : World) (t : ThreadId) : Option FlowId :=
  (w.doing? t).bind fun a =>
    match a with
    | .demand g | .call _ g _ .latch | .awaitStart g => if w.releasedOf g then none else some g
    | _ => none

/-- Whether a thread waits for a variable, for a latch or for a deadline. -/
def waits (w : World) (t : ThreadId) : Bool :=
  (w.awaitsStart? t).isSome || (w.doing? t).any fun a =>
    match a with
    | .look _ _ _ .asleep => true
    | .sleep .. => (w.step t).isNone
    | _ => false

theorem runs_iff : w.runs t f = true ↔ ∃ m p, .run f m p ∈ w.stackOf t := by
  rw [runs, List.any_eq_true]
  constructor
  · rintro ⟨a, ha, hrun⟩
    cases a with
    | run g m p => exact ⟨m, p, of_decide_eq_true hrun ▸ ha⟩
    | _ => cases hrun
  · rintro ⟨m, p, hmem⟩
    exact ⟨_, hmem, decide_eq_true rfl⟩

/-- A thread that waits at a latch waits at one that is not open. -/
theorem released_of_awaitsStart (h : w.awaitsStart? t = some g) : w.releasedOf g = false := by
  obtain ⟨a, _, h⟩ := Option.bind_eq_some_iff.mp h
  split at h
  all_goals
    first
    | cases h
    | split at h
      · cases h
      · next hlatch =>
        cases h
        exact Bool.eq_false_iff.mpr hlatch

/-- What a thread waits for. -/
theorem waits_cases (h : w.waits t = true) : (∃ g, w.awaitsStart? t = some g) ∨
    (∃ s key wait, w.doing? t = some (.look s key wait .asleep)) ∨
      ∃ g deadline, w.doing? t = some (.sleep g deadline) ∧ w.step t = none := by
  obtain h | h := Bool.or_eq_true_iff.mp h
  · exact .inl (Option.isSome_iff_exists.mp h)
  · obtain ⟨a, ha, h⟩ := (Option.any_eq_true ..).mp h
    split at h
    · exact .inr (.inl ⟨_, _, _, ha⟩)
    · exact .inr (.inr ⟨_, _, ha, Option.isNone_iff_eq_none.mp h⟩)
    · cases h

/-- The thread of a flow whose waits are released waits for another flow only. -/
theorem Freed.waits_elsewhere (h : Freed f w) (hhoused : Housed w) (hstacked : Stacked (w.tasks t))
    (hruns : w.runs t f = true) (hwaits : w.waits t = true) :
    ∃ g, g ≠ f ∧ (w.evaluates t g = true ∨ w.awaitsStart? t = some g) := by
  obtain ⟨m, p, hmem⟩ := runs_iff.mp hruns
  have hrun : .run f m p ∈ w.tasks t := by
    rw [tasks_eq]
    exact List.mem_map.mpr ⟨_, hmem, rfl⟩
  obtain ⟨g, hg⟩ | ⟨s, key, wait, hdoing⟩ | ⟨g, deadline, hdoing, hstep⟩ := waits_cases hwaits
  · refine ⟨g, ?_, .inr hg⟩
    rintro rfl
    have hclosed := released_of_awaitsStart hg
    rw [h.released] at hclosed
    cases hclosed
  · obtain ⟨rest, htasks⟩ := tasks_of_doing hdoing
    obtain ⟨back, below, rfl⟩ : ∃ back below, rest = back :: below := by
      cases rest with
      | nil =>
          rw [htasks] at hrun
          cases List.mem_singleton.mp hrun
      | cons back below => exact ⟨back, below, rfl⟩
    obtain ⟨g, r, rfl, hhome⟩ := hhoused.looks t s key wait _ back below htasks
    refine ⟨g, ?_, .inl (evaluates_iff.mpr ⟨r, ?_⟩)⟩
    · rintro rfl
      obtain ⟨s', hs', hcleared⟩ | ⟨_, hidle⟩ := h.sealed
      · rw [(hhoused.recorded g s' hs').1] at hhome
        cases hhome
        exact hcleared.awake t key wait (List.mem_of_mem_head? hdoing)
      · have hlaunches := hidle t _ hrun
        rw [show (Activity.run g m p).launches g = true from decide_eq_true rfl] at hlaunches
        cases hlaunches
    · have hback : .pull g r ∈ w.tasks t := by
        rw [htasks]
        exact List.mem_cons_of_mem _ List.mem_cons_self
      rw [tasks_eq] at hback
      obtain ⟨a, ha, hsame⟩ := List.mem_map.mp hback
      obtain rfl := eq_of_quiet_eq hsame.symm fun _ _ _ _ => Activity.noConfusion
      exact ha
  · -- a sleep above the run of the flow is one of the flow, and is cut short
    obtain ⟨rest, htasks⟩ := tasks_of_doing hdoing
    rw [htasks] at hstacked hrun
    obtain hsame | hbelow := List.mem_cons.mp hrun
    · cases hsame
    · obtain rfl : g = f := of_decide_eq_true (hstacked.ofRun hbelow)
      have hstopped := h.stopped
      rw [step_of_doing hdoing] at hstep
      rw [stoppedOf] at hstopped
      cases hcell : w.flow? g with
      | none => simp [hcell] at hstopped
      | some cell =>
          have hcut : cell.stopped = true := by
            rw [hcell] at hstopped
            exact hstopped
          simp [Activity.step, World.sleep, hcell, hcut] at hstep

section Drafts

variable {fresh : Nat → String} {drafts : List FlowDraft} {scopes : Scope.Store} {root : ScopeId}
  {first : Activity} {calls : List Activity}

/-- A flow that is given no source gets one that is attached nowhere. -/
theorem homed_chooseSource {p : FlowDraft} (h : ∀ source, p.source = some source → source.Homed)
    (fed : Bool) : (p.chooseSource fed).Homed := by
  rw [FlowDraft.chooseSource]
  split
  · next source hsource => exact h source hsource
  · split
    · exact ⟨trivial, fun _ => rfl⟩
    · split <;> exact ⟨trivial, fun _ => rfl⟩

/-- Flows that are yet to be set up have no scope. -/
theorem housed_opened (hmade : ofDrafts fresh drafts scopes root = .ok start)
    (hhomed : ∀ p ∈ drafts, ∀ source, p.source = some source → source.Homed)
    (hcalls : ∀ a ∈ first :: calls, a.begins = true) : Housed (start.opened first calls) := by
  have hattaches {u : ThreadId} {g : FlowId} {q : ContextPoint}
      (hmem : .contextualize g q ∈ (start.opened first calls).tasks u) : q = .check := by
    have hbegins := begins_of_quiet (begins_opened start hcalls u _ hmem)
      fun _ _ _ _ => Activity.noConfusion
    cases q <;> first | rfl | cases hbegins
  refine ⟨fun g q hq => ?_, fun u g q s hmem hs => ?_, fun u g q s hmem hs => ?_, fun g s hs => ?_,
    fun u s key wait q back below htasks => ?_⟩
  · obtain ⟨cell, hcell, rfl⟩ := Option.map_eq_some_iff.mp hq
    obtain ⟨p, hp, name, fed, rfl⟩ := draft_of_ofDrafts hmade hcell
    exact homed_chooseSource (hhomed p hp) fed
  · obtain rfl := hattaches hmem
    cases hs
  · obtain rfl := hattaches hmem
    cases hs
  · obtain ⟨cell, hcell, hs⟩ := Option.bind_eq_some_iff.mp hs
    obtain ⟨p, _, name, fed, rfl⟩ := draft_of_ofDrafts hmade hcell
    cases hs
  · cases below_opened htasks

/-- Once a stop of a flow has released its waits, the thread of the flow may still wait, but only
inside the chain of another flow, or for another flow to start. -/
theorem waits_elsewhere_of_stopped (hmade : ofDrafts fresh drafts scopes root = .ok start)
    (hhomed : ∀ p ∈ drafts, ∀ source, p.source = some source → source.Homed)
    (hcalls : ∀ a ∈ first :: calls, a.begins = true)
    (hrun : Run (start.opened first calls) trace w) (hcell : start.flow? f = some cell)
    (hstopped : StopReleased f trace) (hruns : w.runs t f = true) (hwaits : w.waits t = true) :
    ∃ g, g ≠ f ∧ (w.evaluates t g = true ∨ w.awaitsStart? t = some g) := by
  obtain ⟨p, _, name, fed, rfl⟩ := draft_of_ofDrafts hmade hcell
  have hopened : (start.opened first calls).flow? f = some (p.cell name fed) := hcell
  have hbegins := begins_opened start hcalls
  have hstacked := stacked_opened start hcalls
  have hhoused := housed_opened hmade hhomed hcalls
  have hreleasing : Releasing f trace w :=
    hrun.releasing hstacked hhoused (.init (by rw [stateOf, hopened]; rfl) hbegins)
      (.init hopened rfl hbegins) (.init hcalls)
  exact (hreleasing.passed hstopped).waits_elsewhere (hrun.housed hstacked hhoused)
    (hrun.stacked hstacked t) hruns hwaits

/-- A flow that reads another one on demand, and that one, which reads a variable nobody sets. -/
def readerDrafts : List FlowDraft :=
  [⟨some "a", none, [], some (.make "none" .none .none), some (.make "once" .once .none)⟩,
    ⟨some "b", some (.make "var" (.var "" true none) ⟨[.literal (.text "x")], []⟩), [],
      some (.make Blueprint.flowKind (.flow "a" "" none .null false) ⟨[.flow "a"], []⟩), none⟩]

def reader : World :=
  (ofDrafts (fun _ => "") readerDrafts Scope.Store.empty.addRoot.1 0).toOption.getD empty

/-- One thread runs the flows, one stops the reading flow. -/
def readerOpened : World := reader.opened (.runAll .begin) [.stop 0 .begin]

/-- The flow has asked for a payload of the other one, which has not started, and is then stopped. -/
def readerAwaits : List Taken × World :=
  readerOpened.replay []
    (List.replicate 88 0 ++ List.replicate 5 3 ++ List.replicate 12 2 ++ List.replicate 10 1)

/-- The flow evaluates the chain of the other one, which waits for its variable, and is then stopped.
That wakes it, and it goes to sleep again. -/
def readerSleeps : List Taken × World :=
  readerOpened.replay [] (List.replicate 88 0 ++ List.replicate 7 3 ++ List.replicate 26 2 ++
    List.replicate 10 1 ++ List.replicate 6 2)

theorem reader_waits_elsewhere : StopReleased 0 readerSleeps.1 ∧ readerSleeps.2.runs 2 0 = true ∧
    readerSleeps.2.waits 2 = true ∧
    ∃ g, g ≠ 0 ∧ (readerSleeps.2.evaluates 2 g = true ∨ readerSleeps.2.awaitsStart? 2 = some g) := by
  have hmade : ofDrafts (fun _ => "") readerDrafts Scope.Store.empty.addRoot.1 0 = .ok reader :=
    made_of_isOk (by decide +kernel)
  have hhomed : ∀ p ∈ readerDrafts, ∀ source, p.source = some source → source.Homed := by
    intro p hp source hsource
    simp only [readerDrafts, List.mem_cons, List.not_mem_nil, or_false] at hp
    obtain rfl | rfl := hp <;> cases hsource
    refine ⟨?_, fun _ => rfl⟩
    rintro s ⟨⟩
  have hstopped : readerSleeps.1.any (Taken.stopReleases 0) = true := by decide +kernel
  have hruns : readerSleeps.2.runs 2 0 = true := by decide +kernel
  have hwaits : readerSleeps.2.waits 2 = true := by decide +kernel
  obtain ⟨cell, hcell⟩ : ∃ cell, reader.flow? 0 = some cell := ⟨_, rfl⟩
  have hrun : Run readerOpened readerSleeps.1 readerSleeps.2 := run_replay .refl _
  exact ⟨List.any_eq_true.mp hstopped, hruns, hwaits,
    waits_elsewhere_of_stopped hmade hhomed (by simp [Activity.begins]) hrun hcell
      (List.any_eq_true.mp hstopped) hruns hwaits⟩

/-- The stop of the flow is over, and its thread waits still: at the latch of the flow that it reads,
or asleep in the scope of that one. -/
theorem reader_waits_after_stop :
    (Reach readerOpened readerAwaits.2 ∧ (readerAwaits.2.result? 1).isSome = true ∧
      readerAwaits.2.runs 2 0 = true ∧ readerAwaits.2.awaitsStart? 2 = some 1) ∧
    (Reach readerOpened readerSleeps.2 ∧ (readerSleeps.2.result? 1).isSome = true ∧
      readerSleeps.2.runs 2 0 = true ∧ readerSleeps.2.evaluates 2 1 = true ∧
      readerSleeps.2.waits 2 = true) :=
  ⟨⟨(run_replay .refl _).reach, by decide +kernel, by decide +kernel, by decide +kernel⟩,
    (run_replay .refl _).reach, by decide +kernel, by decide +kernel, by decide +kernel,
    by decide +kernel⟩

end Drafts

end World
end PullFlow.Engine
