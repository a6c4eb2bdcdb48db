import PullFlow.Proofs.Dealings
import PullFlow.Proofs.Outcome
import PullFlow.Proofs.Engine.Monitors
import Mathlib.Data.List.Destutter

/-!
What the scheduled loops deliver. A loop answers each payload that it pulls with a push, with a rest
or with its end, and what it does depends on the payloads before it and on nothing else. So what it
tries to push is a function of what it pulled, whatever fails meanwhile: the payloads up to the one
that ends it, those that equal a target, or those that differ from the one pushed before. Every
failure is reported once, and what is announced is what the sink took.
-/

namespace PullFlow

/-! What a move is about to do. -/

namespace MonitorMove

@[simp] def pushes : MonitorMove → List Value
  | act (.push v) _ => [v]
  | _ => []

@[simp] def leaves : MonitorMove → List ExitCondition
  | act (.reportExit c) _ => [c]
  | _ => []

end MonitorMove

namespace Stand

/-- The payload that is about to be pushed. -/
@[simp] def pending : Stand → List Value
  | ready move => move.pushes
  | _ => []

/-- The condition that is about to be reported. -/
@[simp] def leaving : Stand → List ExitCondition
  | ready move => move.leaves
  | _ => []

/-- The payload that the sink is busy with. -/
@[simp] def sinking : Stand → List Value
  | waits (.push v) _ => [v]
  | _ => []

/-- Whether a loop leaves. -/
@[simp] def quits : Stand → Bool
  | ready (.act (.reportExit _) _) | settled _ .exited | ready (.finish _) | ended => true
  | _ => false

/-- The failure that is still to be reported, unless it comes from a stop. -/
@[simp] def owed : Stand → List Error
  | ready (.act (.report e) _) | ready (.act .stopped (.judging e)) => [e]
  | settled (.error e) .forwarded | settled (.ok (.bool false)) (.judging e) => [e]
  | _ => []

/-- The payload whose acceptance is still to be announced. -/
@[simp] def unannounced : Stand → List Value
  | taken v _ => [v]
  | _ => []

end Stand

namespace MonitorBody

variable {b b' : MonitorBody}

/-- Whether a monitor is a loop that reads and pushes until it is stopped. -/
def scheduled : MonitorBody → Bool
  | interval .. | change .. | onValue .. => true
  | _ => false

theorem scheduled_of_sort (h : b.sort = b'.sort) : b.scheduled = b'.scheduled := by
  cases b <;> cases b' <;> first | rfl | cases h

theorem begin_scheduled (h : b.scheduled = true) : b.begin = .act .pull .cycle := by
  cases b <;> first | rfl | cases h

theorem rest_scheduled (h : b.scheduled = true) : ∃ d, b.rest = .act (.sleep d) .slept := by
  cases b <;> first | exact ⟨_, rfl⟩ | cases h

/-- A loop goes on to its next read unless its sleep was cut short. -/
theorem slept_scheduled (h : b.scheduled = true) (s : Bool) :
    b.resume .slept (.ok (.bool s)) = (b, if s then .act .pull .cycle else .finish (.ok ())) := by
  cases b <;> first | rfl | cases h

/-- A loop pushes what it pulled, leaves because of it or rests. -/
inductive Reaction (v : Value) : MonitorMove → Prop where
  | push : Reaction v (.act (.push v) .forwarded)
  | leave (c : ExitCondition) : Reaction v (.act (.reportExit c) .exited)
  | rest (d : Duration) : Reaction v (.act (.sleep d) .slept)

theorem receive_scheduled (h : b.scheduled = true) (v : Value) : Reaction v (b.receive v).2 := by
  cases b with
  | interval sleep conditions =>
      simp only [receive]
      split
      · exact .leave _
      · exact .push
  | change sleep last =>
      simp only [receive]
      split
      · exact .rest sleep
      · exact .push
  | onValue target always sleep matching =>
      simp only [receive]
      split
      · exact .push
      · exact .rest sleep
  | _ => cases h

/-! What a loop does with one payload after the other. -/

/-- What a loop has become after payloads. -/
def after (b : MonitorBody) (vs : List Value) : MonitorBody :=
  vs.foldl (fun b v => (b.receive v).1) b

/-- What a loop does with each of some payloads. -/
def reactions (b : MonitorBody) : List Value → List MonitorMove
  | [] => []
  | v :: vs => (b.receive v).2 :: (b.receive v).1.reactions vs

/-- Which payloads a loop pushes. -/
def chosen (b : MonitorBody) (vs : List Value) : List Value :=
  (b.reactions vs).flatMap MonitorMove.pushes

/-- The conditions that payloads meet. -/
def met (b : MonitorBody) (vs : List Value) : List ExitCondition :=
  (b.reactions vs).flatMap MonitorMove.leaves

theorem after_concat (b : MonitorBody) (vs : List Value) (v : Value) :
    b.after (vs ++ [v]) = ((b.after vs).receive v).1 := by
  simp [after]

theorem reactions_concat (b : MonitorBody) (vs : List Value) (v : Value) :
    b.reactions (vs ++ [v]) = b.reactions vs ++ [((b.after vs).receive v).2] := by
  induction vs generalizing b with
  | nil => rfl
  | cons u vs ih => simp [reactions, after, ih]

theorem chosen_concat (b : MonitorBody) (vs : List Value) (v : Value) :
    b.chosen (vs ++ [v]) = b.chosen vs ++ ((b.after vs).receive v).2.pushes := by
  simp [chosen, reactions_concat]

theorem met_concat (b : MonitorBody) (vs : List Value) (v : Value) :
    b.met (vs ++ [v]) = b.met vs ++ ((b.after vs).receive v).2.leaves := by
  simp [met, reactions_concat]

end MonitorBody

/-! Where a loop may stand. -/

/-- `Looped log stand`: a loop may stand at `stand` after the deeds of `log`. -/
inductive Looped : Dealings → Stand → Prop where
  | pull {log : Dealings} : Looped log (.ready (.act .pull .cycle))
  | pulling {log : Dealings} : Looped log (.waits .pull .cycle)
  | push {log : Dealings} {v : Value} : Looped log (.ready (.act (.push v) .forwarded))
  | pushing {log : Dealings} {v : Value} : Looped log (.waits (.push v) .forwarded)
  | taken {log : Dealings} {v : Value} : Looped log (.taken v .forwarded)
  | pushed {log : Dealings} : Looped log (.settled (.ok .null) .forwarded)
  | refused {log : Dealings} {e : Error} : Looped log (.settled (.error e) .forwarded)
  | report {log : Dealings} {e : Error} : Looped log (.ready (.act (.report e) .reported))
  | reported {log : Dealings} : Looped log (.settled (.ok .null) .reported)
  | leave {log : Dealings} {c : ExitCondition} : Looped log (.ready (.act (.reportExit c) .exited))
  | left {log : Dealings} {c : ExitCondition} :
      Looped (.asks (.reportExit c) :: log) (.settled (.ok .null) .exited)
  | look {log : Dealings} {key : String} :
      Looped (.told .cycle (.error (.interrupted key)) :: log)
        (.ready (.act .stopped (.judging (.interrupted key))))
  | found {log : Dealings} {key : String} {s : Bool} :
      Looped log (.settled (.ok (.bool s)) (.judging (.interrupted key)))
  | rest {log : Dealings} {d : Duration} : Looped log (.ready (.act (.sleep d) .slept))
  | resting {log : Dealings} {d : Duration} :
      Looped (.asks (.sleep d) :: log) (.waits (.sleep d) .slept)
  | rested {log : Dealings} {s : Bool} :
      Looped (.finds s :: log) (.settled (.ok (.bool !s)) .slept)
  | quit {log : Dealings} {c : ExitCondition} {out : Outcome} :
      Looped (.told .exited out :: .asks (.reportExit c) :: log) (.ready (.finish (.ok ())))
  | stopped {log : Dealings} {out : Outcome} :
      Looped (.told .slept out :: .finds true :: log) (.ready (.finish (.ok ())))
  | ended {log : Dealings} : Looped log .ended

namespace Plays

variable {b body : MonitorBody} {log : Dealings} {stand : Stand}

theorem sort (h : Plays b log body stand) : body.sort = b.sort := by
  induction h with
  | begins => rfl
  | answered out _ _ ih => exact (MonitorBody.sort_resume _ _ _).trans ih
  | told _ ih => exact (MonitorBody.sort_resume _ _ _).trans ih
  | _ => assumption

theorem scheduled (h : Plays b log body stand) (hb : b.scheduled = true) :
    body.scheduled = true :=
  (MonitorBody.scheduled_of_sort h.sort).trans hb

theorem looped_of_rest (hbody : body.scheduled = true) : Looped log (.ready body.rest) := by
  obtain ⟨d, hd⟩ := MonitorBody.rest_scheduled hbody
  rw [hd]
  exact .rest

theorem looped (h : Plays b log body stand) (hb : b.scheduled = true) : Looped log stand := by
  induction h with
  | begins =>
      rw [MonitorBody.begin_scheduled hb]
      exact .pull
  | asks hplays ha ih =>
      cases ih with
      | pull => exact .pulling
      | push => exact .pushing
      | rest => exact .resting
      | _ => cases ha
  | passes hplays ha ih =>
      cases ih with
      | report => exact .reported
      | leave => exact .left
      | _ => cases ha
  | looks s hplays ih =>
      cases ih with
      | look => exact .found
  | obeys order hplays ih => cases ih
  | wakes s hplays ih =>
      cases ih with
      | resting => exact .rested
  | takes hplays ih =>
      cases ih with
      | pushing => exact .taken
  | refuses e hplays ih =>
      cases ih with
      | pushing => exact .refused
  | announces hplays ih =>
      cases ih with
      | taken => exact .pushed
  | @answered log body a w out hplays ha ih =>
      have hbody := hplays.scheduled hb
      cases ih with
      | pulling =>
          cases out with
          | ok v =>
              have hreaction := MonitorBody.receive_scheduled hbody v
              change Looped _ (.ready (body.receive v).2)
              generalize (body.receive v).2 = move at hreaction
              cases hreaction with
              | push => exact .push
              | leave c => exact .leave
              | rest d => exact .rest
          | error e =>
              cases e with
              | interrupted key => exact .look
              | _ => exact .report
      | _ => cases ha
  | @told log body out w hplays ih =>
      have hbody := hplays.scheduled hb
      have hrest {log : Dealings} : Looped log (.ready body.rest) := looped_of_rest hbody
      cases ih with
      | pushed | reported => exact hrest
      | refused => exact .report
      | left => exact .quit
      | @found _ key s =>
          cases s with
          | true => exact hrest
          | false => exact .report
      | @rested _ s =>
          rw [MonitorBody.slept_scheduled hbody]
          cases s with
          | true => exact .stopped
          | false => exact .pull
  | ends _ _ => exact .ended

/-- What a loop tries to push and whether it leaves follows from what it pulled. -/
structure Follows (b : MonitorBody) (log : Dealings) (body : MonitorBody) (stand : Stand) :
    Prop where
  body : body = b.after log.pulled
  attempts : b.chosen log.pulled = log.attempted ++ stand.pending
  exits : b.met log.pulled = log.exits ++ stand.leaving

/-- A loop that is told something else than a payload it pulled does not try to push because of
it. -/
theorem Follows.goesOn {out : Outcome} {w : MonitorWait} {b' : MonitorBody} {move : MonitorMove}
    (h : Follows b log body stand) (hstand : stand.pending = [] ∧ stand.leaving = [])
    (hw : (Deed.told w out).pulled? = none) (hbody : b' = body) (hpushes : move.pushes = [])
    (hleaves : move.leaves = []) : Follows b (.told w out :: log) b' (.ready move) := by
  have hpulled : Dealings.pulled (.told w out :: log) = log.pulled := by
    rw [Dealings.pulled_cons, hw, Option.toList_none, List.append_nil]
  have hattempts := h.attempts
  have hexits := h.exits
  rw [hstand.1] at hattempts
  rw [hstand.2] at hexits
  refine ⟨?_, ?_, ?_⟩
  · rw [hpulled, hbody]
    exact h.body
  · rw [hpulled, Stand.pending, hpushes]
    simpa using hattempts
  · rw [hpulled, Stand.leaving, hleaves]
    simpa using hexits

theorem rest_calm (hbody : body.scheduled = true) :
    body.rest.pushes = [] ∧ body.rest.leaves = [] := by
  obtain ⟨d, hd⟩ := MonitorBody.rest_scheduled hbody
  rw [hd]
  exact ⟨rfl, rfl⟩

theorem follows (h : Plays b log body stand) (hb : b.scheduled = true) :
    Follows b log body stand := by
  induction h with
  | begins =>
      rw [MonitorBody.begin_scheduled hb]
      exact ⟨rfl, rfl, rfl⟩
  | @asks _ _ a _ hplays ha ih | @passes _ _ a _ hplays ha ih =>
      refine ⟨by simpa using ih.body, ?_, ?_⟩
      · cases a <;> simpa using ih.attempts
      · cases a <;> simpa using ih.exits
  | looks s hplays ih | wakes s hplays ih | takes hplays ih | refuses e hplays ih
  | announces hplays ih | ends hplays ih =>
      exact ⟨by simpa using ih.body, by simpa using ih.attempts, by simpa using ih.exits⟩
  | obeys order hplays ih => cases hplays.looped hb
  | @answered log body a w out hplays ha ih =>
      cases hplays.looped hb with
      | pulling =>
          cases out with
          | ok v =>
              have hattempts : b.chosen log.pulled = log.attempted ++ [] := ih.attempts
              have hexits : b.met log.pulled = log.exits ++ [] := ih.exits
              change Follows b _ (body.receive v).1 (.ready (body.receive v).2)
              refine ⟨?_, ?_, ?_⟩
              · simp [MonitorBody.after_concat, ih.body]
              · simp [MonitorBody.chosen_concat, hattempts, ih.body]
              · simp [MonitorBody.met_concat, hexits, ih.body]
          | error e => cases e <;> exact ih.goesOn ⟨rfl, rfl⟩ rfl rfl rfl rfl
      | _ => cases ha
  | @told log body out w hplays ih =>
      have hbody := hplays.scheduled hb
      have hrest := rest_calm hbody
      cases hplays.looped hb with
      | pushed | reported => exact ih.goesOn ⟨rfl, rfl⟩ rfl rfl hrest.1 hrest.2
      | refused | left => exact ih.goesOn ⟨rfl, rfl⟩ rfl rfl rfl rfl
      | @found _ key s =>
          cases s with
          | true => exact ih.goesOn ⟨rfl, rfl⟩ rfl rfl hrest.1 hrest.2
          | false => exact ih.goesOn ⟨rfl, rfl⟩ rfl rfl rfl rfl
      | @rested _ s =>
          rw [MonitorBody.slept_scheduled hbody]
          cases s <;> exact ih.goesOn ⟨rfl, rfl⟩ rfl rfl rfl rfl

/-! Failures. -/

theorem owed_rest (hbody : body.scheduled = true) : (Stand.ready body.rest).owed = [] := by
  obtain ⟨d, hd⟩ := MonitorBody.rest_scheduled hbody
  rw [hd]
  rfl

/-- Every failure is reported, one after the other. -/
theorem failures_eq (h : Plays b log body stand) (hb : b.scheduled = true) :
    log.failures = log.reported ++ stand.owed := by
  induction h with
  | begins =>
      rw [MonitorBody.begin_scheduled hb]
      rfl
  | asks hplays ha ih =>
      cases hplays.looped hb with
      | pull | push | rest => simpa [Dealings.failures] using ih
      | _ => cases ha
  | passes hplays ha ih =>
      cases hplays.looped hb with
      | report | leave => simpa [Dealings.failures] using ih
      | _ => cases ha
  | looks s hplays ih =>
      cases hplays.looped hb with
      | look => cases s <;> simpa [Dealings.failures] using ih
  | obeys order hplays ih => cases hplays.looped hb
  | wakes s hplays ih =>
      cases hplays.looped hb with
      | resting => cases s <;> simpa [Dealings.failures] using ih
  | takes hplays ih | announces hplays ih | ends hplays ih =>
      simpa [Dealings.failures] using ih
  | refuses e hplays ih =>
      cases hplays.looped hb with
      | pushing => simpa [Dealings.failures] using ih
  | @answered log body a w out hplays ha ih =>
      cases hplays.looped hb with
      | pulling =>
          cases out with
          | ok v =>
              have hreaction := MonitorBody.receive_scheduled (hplays.scheduled hb) v
              change _ = _ ++ (Stand.ready (body.receive v).2).owed
              generalize (body.receive v).2 = move at hreaction
              cases hreaction <;> simpa [Dealings.failures] using ih
          | error e => cases e <;> simpa [Dealings.failures, MonitorBody.resume] using ih
      | _ => cases ha
  | @told log body out w hplays ih =>
      have hbody := hplays.scheduled hb
      have hrest := owed_rest hbody
      cases hplays.looped hb with
      | pushed | reported =>
          change _ = _ ++ (Stand.ready body.rest).owed
          rw [hrest]
          simpa [Dealings.failures] using ih
      | refused | left => simpa [Dealings.failures, MonitorBody.resume] using ih
      | @found _ key s =>
          cases s with
          | true =>
              change _ = _ ++ (Stand.ready body.rest).owed
              rw [hrest]
              simpa [Dealings.failures] using ih
          | false =>
              change _ = _ ++ [Error.interrupted key]
              simpa [Dealings.failures] using ih
      | @rested _ s =>
          rw [MonitorBody.slept_scheduled hbody]
          cases s <;> simpa [Dealings.failures] using ih

/-! Payloads that the sink is given. -/

/-- The sink is given what the monitor tries to push, one payload after the other. -/
theorem attempted_eq (h : Plays b log body stand) :
    log.attempted = log.sunk ++ stand.sinking := by
  induction h with
  | begins => rfl
  | @asks _ _ a _ hplays ha ih => cases a <;> simpa using ih
  | @passes _ _ a _ hplays ha ih | @answered _ _ a _ _ hplays ha ih =>
      cases a <;> first | simpa using ih | cases ha
  | _ => simp_all

/-- What the sink took is announced, one payload after the other. -/
theorem accepted_eq (h : Plays b log body stand) :
    log.accepted = log.announced ++ stand.unannounced := by
  induction h with
  | begins => rfl
  | _ => simp_all

/-! The end of a loop. -/

/-- A loop that has pulled a payload that ends it leaves. -/
theorem quits_or_unmet (h : Plays b log body stand) (hb : b.scheduled = true) :
    stand.quits = true ∨ b.met log.pulled = [] := by
  induction h with
  | begins => exact .inr rfl
  | asks hplays ha ih =>
      cases hplays.looped hb with
      | pull | push | rest => simpa using ih
      | _ => cases ha
  | passes hplays ha ih =>
      cases hplays.looped hb with
      | report => simpa using ih
      | leave => exact .inl rfl
      | _ => cases ha
  | looks s hplays ih =>
      cases hplays.looped hb with
      | look => simpa using ih
  | obeys order hplays ih => cases hplays.looped hb
  | takes hplays ih => simpa using ih
  | wakes s hplays ih | refuses e hplays ih | announces hplays ih =>
      cases hplays.looped hb
      simpa using ih
  | @answered log body a w out hplays ha ih =>
      cases hplays.looped hb with
      | pulling =>
          have hbefore : b.met log.pulled = [] := by simpa using ih
          cases out with
          | ok v =>
              have hreaction := MonitorBody.receive_scheduled (hplays.scheduled hb) v
              have hpulled : Dealings.pulled (.told .cycle (.ok v) :: log) = log.pulled ++ [v] := by
                simp
              rw [hpulled, MonitorBody.met_concat, ← (hplays.follows hb).body, hbefore]
              change (Stand.ready (body.receive v).2).quits = true ∨ _
              generalize (body.receive v).2 = move at hreaction
              cases hreaction <;> simp
          | error e => exact .inr (by simpa using hbefore)
      | _ => cases ha
  | @told log body out w hplays ih =>
      cases hplays.looped hb with
      | left => exact .inl rfl
      | _ => exact .inr (by simpa using ih)
  | ends hplays ih => exact .inl rfl

/-- No payload before the last one ends a loop. -/
theorem unmet (h : Plays b log body stand) (hb : b.scheduled = true) {vs : List Value} {v : Value}
    (hlog : log.pulled = vs ++ [v]) : b.met vs = [] := by
  induction h with
  | begins => simp [Dealings.pulled, Dealings.collected] at hlog
  | @answered log body a w out hplays ha ih =>
      cases hplays.looped hb with
      | pulling =>
          cases out with
          | ok u =>
              have hvs : log.pulled = vs := by
                simp at hlog
                exact hlog.1
              rw [← hvs]
              simpa using hplays.quits_or_unmet hb
          | error e => exact ih (by simpa using hlog)
      | _ => cases ha
  | @told log body out w hplays ih =>
      refine ih ?_
      cases hplays.looped hb <;> simpa using hlog
  | asks _ _ ih | passes _ _ ih | looks _ _ ih | obeys _ _ ih | wakes _ _ ih | takes _ ih
  | refuses _ _ ih | announces _ ih | ends _ ih => exact ih (by simpa using hlog)

/-- A loop that has reported why it leaves does not pull again. -/
theorem not_mem_pull (h : Plays b log body stand) (hb : b.scheduled = true)
    {later earlier : Dealings} {c : ExitCondition}
    (hlog : log = later ++ .asks (.reportExit c) :: earlier) : .asks .pull ∉ later := by
  intro hmem
  obtain ⟨after, before, rfl⟩ := List.append_of_mem hmem
  rw [List.append_assoc] at hlog
  subst hlog
  obtain ⟨_, _, hplays⟩ := h.of_append
  obtain ⟨_, w, hplays⟩ := hplays.of_asks
  have hexits := (hplays.follows hb).exits
  obtain hquits | hmet := hplays.quits_or_unmet hb
  · cases hquits
  · rw [hmet] at hexits
    have hc : c ∈ Dealings.exits (before ++ .asks (.reportExit c) :: earlier) :=
      Dealings.mem_collected.mpr ⟨_, List.mem_append_right _ List.mem_cons_self, rfl⟩
    exact List.ne_nil_of_mem hc (List.append_eq_nil_iff.mp hexits.symm).1

/-- A loop ends well, and only because it leaves or because its flow is asked to stop. -/
theorem ends_well (h : Plays b log body stand) (hb : b.scheduled = true) {d : Done}
    (hd : .ends d ∈ log) : d = .ok () ∧ (log.exits ≠ [] ∨ .finds true ∈ log) := by
  obtain ⟨later, earlier, rfl⟩ := List.append_of_mem hd
  obtain ⟨_, _, hplays⟩ := h.of_append
  have hmem {d' : Deed} (hd' : d' ∈ earlier) : d' ∈ later ++ .ends d :: earlier :=
    List.mem_append_right _ (List.mem_cons_of_mem _ hd')
  cases hplays.of_ends.looped hb with
  | @quit log c out =>
      have hc : .asks (.reportExit c) ∈ Deed.told .exited out :: .asks (.reportExit c) :: log :=
        List.mem_cons_of_mem _ List.mem_cons_self
      exact ⟨rfl, .inl (List.ne_nil_of_mem (Dealings.mem_collected.mpr ⟨_, hmem hc, rfl⟩))⟩
  | stopped => exact ⟨rfl, .inr (hmem (List.mem_cons_of_mem _ List.mem_cons_self))⟩

/-- Once a loop has acted on all that it was told, nothing is pending. -/
theorem settled_of_idle (h : Plays b log body stand) (hb : b.scheduled = true) (hidle : log.Idle) :
    stand.pending = [] ∧ stand.leaving = [] ∧ stand.owed = [] ∧ stand.unannounced = [] := by
  cases h with
  | begins =>
      rw [MonitorBody.begin_scheduled hb]
      exact ⟨rfl, rfl, rfl, rfl⟩
  | asks | ends => exact ⟨rfl, rfl, rfl, rfl⟩
  | passes hplays ha =>
      cases hplays.looped hb with
      | report | leave => exact ⟨rfl, rfl, rfl, rfl⟩
      | _ => cases ha
  | obeys order hplays => cases hplays.looped hb
  | _ => cases hidle _ rfl

end Plays

/-! What each of the loops chooses. -/

/-- Whether a parameter is there and true. -/
def Params.flag (p : Params) (name : String) : Bool :=
  match p.bool name with
  | .ok on => on
  | .error _ => false

theorem Params.flag_eq {p : Params} {name : String} {on : Bool} (h : p.bool name = .ok on) :
    p.flag name = on := by
  rw [flag, h]

namespace ExitCondition

/-- The parameter that turns a condition on. -/
def switch : ExitCondition → String
  | anyNull => "exit_on_none"
  | isFalse => "exit_on_false"
  | isEmptyText => "exit_on_empty"

def enabled (p : Params) (c : ExitCondition) : Bool := p.flag c.switch

/-- The first condition that a payload meets, of those turned on. -/
def firstMet (on : ExitCondition → Bool) (v : Value) : Option ExitCondition :=
  [anyNull, isFalse, isEmptyText].find? fun c => on c && c.holds v

/-- The payloads before the first one that meets a condition. -/
def upTo (on : ExitCondition → Bool) (vs : List Value) : List Value :=
  vs.takeWhile fun v => (firstMet on v).isNone

/-- The condition that the first of such payloads meets first. -/
def leaving (on : ExitCondition → Bool) (vs : List Value) : List ExitCondition :=
  (vs.findSome? (firstMet on)).toList

theorem conditions_of_params {p : Params} {conditions : List ExitCondition}
    (h : ofParams p = .ok conditions) :
    conditions = [anyNull, isFalse, isEmptyText].filter (enabled p) := by
  have henabled (c : ExitCondition) {on : Bool} (hc : p.bool c.switch = .ok on) :
      enabled p c = on := Params.flag_eq hc
  obtain ⟨onNull, hnull, h⟩ := bind_eq_ok.mp h
  obtain ⟨onFalse, hfalse, h⟩ := bind_eq_ok.mp h
  obtain ⟨onEmpty, hempty, h⟩ := bind_eq_ok.mp h
  cases h
  rw [List.filter_cons, List.filter_cons, List.filter_cons, henabled anyNull hnull,
    henabled isFalse hfalse, henabled isEmptyText hempty]
  cases onNull <;> cases onFalse <;> cases onEmpty <;> rfl

theorem check?_of_params {p : Params} {conditions : List ExitCondition}
    (h : ofParams p = .ok conditions) (v : Value) :
    check? conditions v = firstMet (enabled p) v := by
  rw [check?, conditions_of_params h, List.find?_filter, firstMet]
  simp

end ExitCondition

/-- The payloads that equal a target. Unless `always`, one that comes right behind another such is
left out. -/
def matching (target : Value) (always : Bool) (vs : List Value) : List Value :=
  ((none :: vs.map some).zip vs).filterMap fun (before, v) =>
    if v == target && (always || !before.any (· == target)) then some v else none

/-- Whether a payload differs from the one before it. -/
abbrev Differs (before v : Value) : Prop := (before == v) = false

namespace MonitorBody

variable {sleep : Duration}

theorem chosen_cons (b : MonitorBody) (v : Value) (vs : List Value) :
    b.chosen (v :: vs) = (b.receive v).2.pushes ++ (b.receive v).1.chosen vs := by
  simp [chosen, reactions]

theorem met_cons (b : MonitorBody) (v : Value) (vs : List Value) :
    b.met (v :: vs) = (b.receive v).2.leaves ++ (b.receive v).1.met vs := by
  simp [met, reactions]

theorem receive_interval (conditions : List ExitCondition) (v : Value) :
    (interval sleep conditions).receive v = (interval sleep conditions,
      match ExitCondition.check? conditions v with
      | some c => .act (.reportExit c) .exited
      | none => .act (.push v) .forwarded) := by
  simp only [receive]
  split <;> simp_all

/-- A loop with exit conditions pushes what it pulls up to the first payload that meets one. -/
theorem chosen_interval {conditions : List ExitCondition} {vs : List Value}
    (hlast : ∀ us v, vs = us ++ [v] → (interval sleep conditions).met us = []) :
    (interval sleep conditions).chosen vs =
        vs.takeWhile (fun v => (ExitCondition.check? conditions v).isNone) ∧
      (interval sleep conditions).met vs =
        (vs.findSome? (ExitCondition.check? conditions)).toList := by
  induction vs with
  | nil => exact ⟨rfl, rfl⟩
  | cons v vs ih =>
      rw [chosen_cons, met_cons, receive_interval, List.takeWhile_cons, List.findSome?_cons]
      cases hv : ExitCondition.check? conditions v with
      | none =>
          have hlast (us : List Value) (u : Value) (hus : vs = us ++ [u]) :
              (interval sleep conditions).met us = [] := by
            have hmet := hlast (v :: us) u (by rw [hus, List.cons_append])
            rw [met_cons, receive_interval] at hmet
            exact (List.append_eq_nil_iff.mp hmet).2
          simpa using ih hlast
      | some c =>
          cases vs using List.reverseRecOn with
          | nil => exact ⟨rfl, rfl⟩
          | append_singleton us u =>
              have hmet := hlast (v :: us) u rfl
              rw [met_cons, receive_interval, hv] at hmet
              cases hmet

theorem receive_onValue (target : Value) (always matching : Bool) (v : Value) :
    (onValue target always sleep matching).receive v = (onValue target always sleep (v == target),
      if v == target && (always || !matching) then .act (.push v) .forwarded
      else .act (.sleep sleep) .slept) := by
  simp only [receive]
  split <;> rfl

theorem met_onValue (target : Value) (always matching : Bool) (vs : List Value) :
    (onValue target always sleep matching).met vs = [] := by
  induction vs generalizing matching with
  | nil => rfl
  | cons v vs ih =>
      rw [met_cons, receive_onValue, ih, List.append_nil]
      dsimp only
      split <;> rfl

theorem chosen_onValue (target : Value) (always : Bool) (before : Option Value) (vs : List Value) :
    (onValue target always sleep (before.any (· == target))).chosen vs =
      ((before :: vs.map some).zip vs).filterMap fun (before, v) =>
        if v == target && (always || !before.any (· == target)) then some v else none := by
  induction vs generalizing before with
  | nil => rfl
  | cons v vs ih =>
      rw [chosen_cons, receive_onValue, List.map_cons, List.zip_cons_cons, List.filterMap_cons]
      have hrest := ih (some v)
      rw [Option.any_some] at hrest
      rw [hrest]
      dsimp only
      split <;> simp_all

theorem receive_change (last : Option Value) (v : Value) :
    (change sleep last).receive v =
      if last.any (· == v) then (change sleep last, .act (.sleep sleep) .slept)
      else (change sleep (some v), .act (.push v) .forwarded) := by
  simp only [receive]
  split <;> rfl

theorem met_change (last : Option Value) (vs : List Value) : (change sleep last).met vs = [] := by
  induction vs generalizing last with
  | nil => rfl
  | cons v vs ih =>
      rw [met_cons, receive_change]
      split <;> simp [ih]

theorem chosen_change_some (last : Value) (vs : List Value) :
    last :: (change sleep (some last)).chosen vs = vs.destutter' Differs last := by
  induction vs generalizing last with
  | nil => rfl
  | cons v vs ih =>
      rw [chosen_cons, receive_change, List.destutter'_cons, Option.any_some]
      by_cases hv : (last == v) = true
      · have hsame : ¬ Differs last v := by simp [Differs, hv]
        rw [if_pos hv, if_neg hsame]
        simpa using ih last
      · have hdiffers : Differs last v := Bool.eq_false_iff.mpr hv
        rw [if_neg hv, if_pos hdiffers]
        simpa using ih v

/-- A loop that looks for changes pushes what differs from the payload that it pushed before. -/
theorem chosen_change (vs : List Value) :
    (change sleep none).chosen vs = vs.destutter Differs := by
  cases vs with
  | nil => rfl
  | cons v vs =>
      rw [chosen_cons, receive_change, List.destutter_cons']
      exact chosen_change_some v vs

/-- What a loop that looks for changes keeps is the payload that it pushed last. -/
theorem after_change (vs : List Value) :
    (change sleep none).after vs = change sleep ((change sleep none).chosen vs).getLast? := by
  induction vs using List.reverseRecOn with
  | nil => rfl
  | append_singleton vs v ih =>
      rw [after_concat, chosen_concat, ih, receive_change]
      split <;> simp

end MonitorBody

namespace Plays

variable {b body : MonitorBody} {log : Dealings} {stand : Stand} {v : Value}

/-- A loop that has pulled a payload goes on as it does with that. -/
theorem of_pulled (h : Plays b (.told .cycle (.ok v) :: log) body stand) (hb : b.scheduled = true) :
    stand = .ready ((b.after log.pulled).receive v).2 ∧
      log.attempted = b.chosen log.pulled := by
  cases h with
  | answered _ hplays ha =>
      have hfollows := hplays.follows hb
      rw [← hfollows.body]
      cases hplays.looped hb with
      | pulling => exact ⟨rfl, (List.append_nil _).symm.trans hfollows.attempts.symm⟩
  | told hplays => cases hplays.looped hb

/-- A monitor that is about to do something that takes its time asks for it next. -/
theorem asks_of_ready {next : Deed} {a : MonitorAct} {w : MonitorWait}
    (h : Plays b (next :: log) body stand) (ha : a.lasting = true)
    (hready : ∀ body' stand', Plays b log body' stand' → stand' = .ready (.act a w)) :
    next = .asks a := by
  cases h with
  | asks hplays _ | passes hplays _ =>
      cases hready _ _ hplays
      rfl
  | looks _ hplays | obeys _ hplays =>
      cases hready _ _ hplays
      cases ha
  | wakes _ hplays | takes hplays | refuses _ hplays | announces hplays | answered _ hplays _
  | told hplays | ends hplays => cases hready _ _ hplays

/-- A loop that looks for changes tries to push a payload that it pulled just if it never tried to
push one, or another one last. -/
theorem pushes_iff_differs {sleep : Duration} {next : Deed}
    (h : Plays (.change sleep none) (next :: .told .cycle (.ok v) :: log) body stand) :
    next = .asks (.push v) ↔ ∀ u ∈ log.attempted.getLast?, Differs u v := by
  have hready (body' : MonitorBody) (stand' : Stand)
      (hplays : Plays (.change sleep none) (.told .cycle (.ok v) :: log) body' stand') :
      stand' = .ready (if log.attempted.getLast?.any (· == v) then .act (.sleep sleep) .slept
        else .act (.push v) .forwarded) := by
    obtain ⟨hstand, hattempted⟩ := hplays.of_pulled rfl
    rw [hstand, MonitorBody.after_change, ← hattempted, MonitorBody.receive_change]
    split <;> rfl
  cases hlast : log.attempted.getLast?.any (· == v) with
  | true =>
      simp only [hlast, if_true] at hready
      obtain ⟨u, hu, huv⟩ := (Option.any_eq_true _ _).mp hlast
      refine iff_of_false ?_ fun hall => ?_
      · rw [h.asks_of_ready rfl hready]
        exact fun hsame => by cases hsame
      · rw [hall u hu] at huv
        cases huv
  | false =>
      simp only [hlast, Bool.false_eq_true, if_false] at hready
      refine iff_of_true (h.asks_of_ready rfl hready) fun u hu => ?_
      rw [hu] at hlast
      exact hlast

end Plays

/-- How a loop delivers that tries to push `choose vs` of what it pulls and leaves because of
`leave vs`. -/
structure Delivers (choose : List Value → List Value) (leave : List Value → List ExitCondition)
    (log : Dealings) : Prop where
  attempts : log.attempted <+: choose log.pulled
  exits : log.exits <+: leave log.pulled
  reports : log.reported <+: log.failures
  announces : log.announced <+: log.accepted
  /-- The sink gets what the loop tries to push. -/
  sinks : log.sunk <+: log.attempted
  /-- Nothing is left out but what the loop is just about to do. -/
  idle : log.Idle → log.attempted = choose log.pulled ∧ log.exits = leave log.pulled ∧
    log.reported = log.failures ∧ log.announced = log.accepted
  /-- Nothing is pulled any more once the loop leaves. -/
  quits : ∀ later earlier c, log = later ++ .asks (.reportExit c) :: earlier → .asks .pull ∉ later
  /-- No failure ends the loop. -/
  ends : ∀ d, .ends d ∈ log → d = .ok () ∧ (log.exits ≠ [] ∨ .finds true ∈ log)

theorem Plays.delivers {b body : MonitorBody} {log : Dealings} {stand : Stand}
    {choose : List Value → List Value} {leave : List Value → List ExitCondition}
    (h : Plays b log body stand) (hb : b.scheduled = true)
    (hchoose : b.chosen log.pulled = choose log.pulled)
    (hleave : b.met log.pulled = leave log.pulled) : Delivers choose leave log := by
  have hfollows := h.follows hb
  have hattempts := hchoose ▸ hfollows.attempts
  have hexits := hleave ▸ hfollows.exits
  have hfailures := h.failures_eq hb
  have haccepted := h.accepted_eq
  refine ⟨⟨_, hattempts.symm⟩, ⟨_, hexits.symm⟩, ⟨_, hfailures.symm⟩, ⟨_, haccepted.symm⟩,
    ⟨_, h.attempted_eq.symm⟩, fun hidle => ?_, fun _ _ _ => h.not_mem_pull hb,
    fun _ => h.ends_well hb⟩
  obtain ⟨hpending, hleaving, howed, hunannounced⟩ := h.settled_of_idle hb hidle
  rw [hpending, List.append_nil] at hattempts
  rw [hleaving, List.append_nil] at hexits
  rw [howed, List.append_nil] at hfailures
  rw [hunannounced, List.append_nil] at haccepted
  exact ⟨hattempts.symm, hexits.symm, hfailures.symm, haccepted.symm⟩

/-! Loops as they are set up. -/

theorem HookEnd.ofExcept_eq_pass {β : Type} {body b : β} {r : Except Error β} :
    ofExcept body r = .pass b ↔ r = .ok b := by
  cases r with
  | ok b' =>
      refine ⟨fun h => ?_, fun h => ?_⟩ <;> cases h <;> rfl
  | error e =>
      refine ⟨fun h => ?_, fun h => ?_⟩ <;> cases h

namespace MonitorBody

variable {p : Params} {b : MonitorBody} {sleep : Duration}

theorem initialise_interval {conditions : List ExitCondition} :
    initialise p (.interval sleep conditions) = .pass b ↔ ∃ d cs, p.duration "sleep" = .ok d ∧
      ExitCondition.ofParams p = .ok cs ∧ b = .interval d cs := by
  refine HookEnd.ofExcept_eq_pass.trans ⟨fun h => ?_, ?_⟩
  · obtain ⟨d, hd, h⟩ := bind_eq_ok.mp h
    obtain ⟨cs, hcs, h⟩ := bind_eq_ok.mp h
    cases h
    exact ⟨d, cs, hd, hcs, rfl⟩
  · rintro ⟨d, cs, hd, hcs, rfl⟩
    rw [hd, hcs]
    rfl

theorem initialise_onValue {target : Value} {always matching : Bool} :
    initialise p (.onValue target always sleep matching) = .pass b ↔ ∃ on d,
      p.bool "always" = .ok on ∧ p.duration "sleep" = .ok d ∧
        b = .onValue (p.value "value") on d false := by
  refine HookEnd.ofExcept_eq_pass.trans ⟨fun h => ?_, ?_⟩
  · obtain ⟨on, hon, h⟩ := bind_eq_ok.mp h
    obtain ⟨d, hd, h⟩ := bind_eq_ok.mp h
    cases h
    exact ⟨on, d, hon, hd, rfl⟩
  · rintro ⟨on, d, hon, hd, rfl⟩
    rw [hon, hd]
    rfl

theorem initialise_change {last : Option Value} :
    initialise p (.change sleep last) = .pass b ↔ ∃ d, p.duration "sleep" = .ok d ∧
      b = .change d none := by
  refine HookEnd.ofExcept_eq_pass.trans ?_
  cases p.duration "sleep" with
  | ok d =>
      refine ⟨fun h => ?_, ?_⟩
      · cases h
        exact ⟨d, rfl, rfl⟩
      · rintro ⟨_, hd, rfl⟩
        cases hd
        rfl
  | error e =>
      refine ⟨fun h => ?_, ?_⟩
      · cases h
      · rintro ⟨_, hd, _⟩
        cases hd

end MonitorBody

namespace Plays

variable {p : Params} {b body : MonitorBody} {log : Dealings} {stand : Stand} {sleep : Duration}

/-- A loop with exit conditions delivers what it pulls up to the first payload that meets one. -/
theorem delivers_interval {conditions : List ExitCondition} (h : Plays b log body stand)
    (hset : MonitorBody.initialise p (.interval sleep conditions) = .pass b) :
    Delivers (ExitCondition.upTo (ExitCondition.enabled p))
      (ExitCondition.leaving (ExitCondition.enabled p)) log := by
  obtain ⟨sleep, conditions, _, hconditions, rfl⟩ := MonitorBody.initialise_interval.mp hset
  have hchosen := MonitorBody.chosen_interval fun _ _ (hlog : log.pulled = _) => h.unmet rfl hlog
  have hcheck : ExitCondition.check? conditions =
      ExitCondition.firstMet (ExitCondition.enabled p) :=
    funext (ExitCondition.check?_of_params hconditions)
  rw [hcheck] at hchosen
  exact h.delivers rfl hchosen.1 hchosen.2

/-- A loop with a target delivers what equals it. -/
theorem delivers_onValue {target : Value} {always met : Bool} (h : Plays b log body stand)
    (hset : MonitorBody.initialise p (.onValue target always sleep met) = .pass b) :
    Delivers (matching (p.value "value") (p.flag "always")) (fun _ => []) log := by
  obtain ⟨always, sleep, halways, _, rfl⟩ := MonitorBody.initialise_onValue.mp hset
  rw [Params.flag_eq halways]
  exact h.delivers rfl (MonitorBody.chosen_onValue _ _ none _) (MonitorBody.met_onValue _ _ _ _)

/-- A loop that looks for changes delivers what differs from the payload that it tried before. -/
theorem delivers_change {last : Option Value} (h : Plays b log body stand)
    (hset : MonitorBody.initialise p (.change sleep last) = .pass b) :
    Delivers (List.destutter Differs) (fun _ => []) log := by
  obtain ⟨sleep, _, rfl⟩ := MonitorBody.initialise_change.mp hset
  exact h.delivers rfl (MonitorBody.chosen_change _) (MonitorBody.met_change _ _)

end Plays
end PullFlow
