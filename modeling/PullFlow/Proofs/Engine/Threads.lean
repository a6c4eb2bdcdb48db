import PullFlow.Engine.Step

/-!
What a step does to the threads. A thread takes a turn at the top of its own stack, and the stacks
of the other threads stay as the activity has left them.
-/

namespace PullFlow.Engine

/-- What a turn leaves on top of the activities below the current one. -/
def Turn.frames : Turn → List Activity
  | .goto a _ => [a]
  | .invoke callee back => [callee, back]
  | .exit _ => []

/-- The outcome at hand after a turn. -/
def Turn.answer : Turn → Outcome
  | .goto _ answer => answer
  | .invoke _ _ => .ok .null
  | .exit out => out

theorem Thread.stack_after (th : Thread) (rest : List Activity) (turn : Turn) :
    (th.after rest turn).stack = turn.frames ++ rest := by
  cases turn with
  | goto a answer => rfl
  | invoke callee back => rfl
  | exit out => cases rest <;> rfl

theorem Thread.answer_after (th : Thread) (rest : List Activity) (turn : Turn) :
    (th.after rest turn).answer = turn.answer := by
  cases turn with
  | goto a answer => rfl
  | invoke callee back => rfl
  | exit out => cases rest <;> rfl

namespace World

/-- The activities of a thread, the current one first. -/
def stackOf (w : World) (t : ThreadId) : List Activity :=
  match w.threads[t]? with
  | some th => th.stack
  | none => []

/-- What a thread is busy with. -/
def doing? (w : World) (t : ThreadId) : Option Activity := (w.stackOf t).head?

theorem stackOf_of_get {w : World} {t : ThreadId} {th : Thread} (h : w.threads[t]? = some th) :
    w.stackOf t = th.stack := by
  rw [stackOf, h]

theorem below_eq (w : World) (t : ThreadId) : w.below t = (w.stackOf t).tail := by
  rw [below, stackOf]
  cases w.threads[t]? with
  | some th => exact List.drop_one
  | none => rfl

theorem threads_turn (w : World) (t u : ThreadId) (turn : Turn) :
    (w.turn t turn).threads[u]? =
      if t = u then w.threads[u]?.map (·.after (w.below t) turn) else w.threads[u]? := by
  simp only [World.turn, modifyThread, List.getElem?_modify]
  split <;> simp

theorem stackOf_turn_self {w : World} {t : ThreadId} {th : Thread} (h : w.threads[t]? = some th)
    (turn : Turn) : (w.turn t turn).stackOf t = turn.frames ++ (w.stackOf t).tail := by
  rw [stackOf, threads_turn, if_pos rfl, h, Option.map_some]
  exact (th.stack_after (w.below t) turn).trans (by rw [below_eq])

theorem stackOf_turn_of_ne (w : World) {t u : ThreadId} (h : u ≠ t) (turn : Turn) :
    (w.turn t turn).stackOf u = w.stackOf u := by
  rw [stackOf, threads_turn, if_neg (Ne.symm h), stackOf]

/-- A step of a thread is a step of its current activity and a turn. -/
theorem step_eq_some {w w' : World} {t : ThreadId} (h : w.step t = some w') :
    ∃ th a rest w₁ turn, w.threads[t]? = some th ∧ th.stack = a :: rest ∧
      a.step w t th.answer = some (w₁, turn) ∧ w' = w₁.turn t turn := by
  unfold step at h
  cases hth : w.threads[t]? with
  | none => simp [hth] at h
  | some th =>
      cases hstack : th.stack with
      | nil => simp [hth, hstack] at h
      | cons a rest =>
          simp only [hth, hstack] at h
          obtain ⟨⟨w₁, turn⟩, hstep, hturn⟩ := Option.map_eq_some_iff.mp h
          exact ⟨th, a, rest, w₁, turn, rfl, hstack, hstep, hturn.symm⟩

/-- The host answers only a thread that asks it for something. -/
theorem hostReply_eq (w : World) (t : ThreadId) (out : Outcome) :
    w.hostReply t out = w ∨ ∃ th r rest, w.threads[t]? = some th ∧ th.stack = .host r :: rest ∧
      w.hostReply t out = w.turn t (.exit out) := by
  cases hth : w.threads[t]? with
  | none => exact .inl (by simp [hostReply, hostRequest?, hth])
  | some th =>
      cases hreq : w.hostRequest? t with
      | none => exact .inl (by simp [hostReply, hreq])
      | some r =>
          have hreply : w.hostReply t out = w.turn t (.exit out) := by simp [hostReply, hreq]
          simp only [hostRequest?, hth] at hreq
          split at hreq
          · next r rest hstack => exact .inr ⟨th, _, _, rfl, hstack, hreply⟩
          · cases hreq

/-- A turn taken: in which state, by which thread, and what it was busy with. -/
structure Taken where
  before : World
  thread : ThreadId
  activity : Activity

/-- The states that can be reached, with the turns taken on the way, the latest first. -/
inductive Run (start : World) : List Taken → World → Prop where
  | refl : Run start [] start
  | step {trace : List Taken} {w w' : World} {t : ThreadId} {a : Activity} :
      Run start trace w → w.doing? t = some a → w.step t = some w' →
      Run start (⟨w, t, a⟩ :: trace) w'
  | host {trace : List Taken} {w : World} {t : ThreadId} {r : HostRequest}
      {out : Outcome} : Run start trace w → w.doing? t = some (.host r) →
      Run start (⟨w, t, .host r⟩ :: trace) (w.hostReply t out)
  | tick {trace : List Taken} {w : World} {nanos : Nat} :
      Run start trace w → Run start trace (w.tick nanos)

theorem Reach.trans {start w w' : World} (h : Reach start w) (h' : Reach w w') :
    Reach start w' := by
  induction h' with
  | refl => exact h
  | step _ hstep ih => exact ih.step hstep
  | host _ ih => exact ih.host
  | tick _ ih => exact ih.tick

theorem Run.reach {start w : World} {trace : List Taken} (h : Run start trace w) :
    Reach start w := by
  induction h with
  | refl => exact .refl
  | step _ _ hstep ih => exact ih.step hstep
  | host _ _ ih => exact ih.host
  | tick _ ih => exact ih.tick

theorem doing?_of_step {w w' : World} {t : ThreadId} (h : w.step t = some w') :
    ∃ a, w.doing? t = some a := by
  obtain ⟨th, a, rest, w₁, turn, hth, hstack, _⟩ := step_eq_some h
  exact ⟨a, by rw [doing?, stackOf_of_get hth, hstack]; rfl⟩

/-- Every state that can be reached is reached by turns. -/
theorem Reach.run {start w : World} (h : Reach start w) : ∃ trace, Run start trace w := by
  induction h with
  | refl => exact ⟨[], .refl⟩
  | step _ hstep ih =>
      obtain ⟨trace, hrun⟩ := ih
      obtain ⟨a, ha⟩ := doing?_of_step hstep
      exact ⟨_, hrun.step ha hstep⟩
  | @host w t out _ ih =>
      obtain ⟨trace, hrun⟩ := ih
      obtain heq | ⟨th, r, rest, hth, hstack, _⟩ := hostReply_eq w t out
      · rw [heq]
        exact ⟨trace, hrun⟩
      · exact ⟨_, hrun.host (by rw [doing?, stackOf_of_get hth, hstack]; rfl)⟩
  | tick _ ih =>
      obtain ⟨trace, hrun⟩ := ih
      exact ⟨trace, hrun.tick⟩

/-- The turns that given threads take one after the other, in front of the turns before, and the
state after them. Nothing more is done once a thread cannot go on. -/
def replay (trace : List Taken) (w : World) : List ThreadId → List Taken × World
  | [] => (trace, w)
  | t :: ts =>
      match w.doing? t, w.step t with
      | some a, some w' => replay (⟨w, t, a⟩ :: trace) w' ts
      | _, _ => (trace, w)

theorem run_replay {start w : World} {trace : List Taken} (h : Run start trace w)
    (ts : List ThreadId) : Run start (w.replay trace ts).1 (w.replay trace ts).2 := by
  induction ts generalizing trace w with
  | nil => exact h
  | cons t ts ih =>
      unfold replay
      split
      · next a w' hdoing hstep => exact ih (h.step hdoing hstep)
      · exact h

theorem stackOf_wake (w : World) (s : ScopeId) (t : ThreadId) :
    (w.wake s).stackOf t = (w.stackOf t).map (rouse w.scopes (w.scopes.rootOf s)) := by
  simp only [stackOf, wake, List.getElem?_map]
  cases w.threads[t]? <;> rfl

end World
end PullFlow.Engine
