import PullFlow.Monitor

/-!
What passes between a monitor and its flow: what the monitor asks for, what comes of it, and what it
is told. A monitor goes on only with what it is told, so the deeds so far determine where it stands.
Logs have the latest deed first. What a loop pulled, pushed and reported is read off its log, each
in the order of the deeds.
-/

namespace PullFlow

/-- A deed of a monitor, or of its flow for it. -/
inductive Deed where
  | asks (a : MonitorAct)
  /-- It is looked up whether the flow is asked to stop. -/
  | finds (stopped : Bool)
  /-- The sink is through with a payload. -/
  | sinks (v : Value) (d : Done)
  /-- That the sink took a payload is announced. -/
  | announces (v : Value)
  /-- The monitor is told the outcome that it waits for. -/
  | told (w : MonitorWait) (out : Outcome)
  | ends (d : Done)

/-- A log of deeds, the latest first. -/
abbrev Dealings := List Deed

namespace MonitorAct

/-- Whether an action takes its time. -/
def lasting : MonitorAct → Bool
  | pull | push _ | sleep _ | sinksActive => true
  | _ => false

/-- Whether an action is done at once and brings nothing back. -/
def passing : MonitorAct → Bool
  | report _ | reportExit _ | note _ | answer _ => true
  | _ => false

/-- Whether an action may come to anything. -/
def inquires : MonitorAct → Bool
  | pull | sinksActive => true
  | _ => false

end MonitorAct

/-- Where a monitor stands between two deeds. -/
inductive Stand where
  | ready (move : MonitorMove)
  /-- An action of the monitor is under way. -/
  | waits (a : MonitorAct) (w : MonitorWait)
  /-- The sink took a payload, which is still to be announced. -/
  | taken (v : Value) (w : MonitorWait)
  /-- What the monitor will be told is settled. -/
  | settled (out : Outcome) (w : MonitorWait)
  | ended

/-- `Plays b log body stand`: after the deeds of a log, a monitor that began as `b` has come to
`body` and stands at `stand`. -/
inductive Plays (b : MonitorBody) : Dealings → MonitorBody → Stand → Prop where
  | begins : Plays b [] b (.ready b.begin)
  | asks {log : Dealings} {body : MonitorBody} {a : MonitorAct} {w : MonitorWait} :
      Plays b log body (.ready (.act a w)) → a.lasting = true →
      Plays b (.asks a :: log) body (.waits a w)
  | passes {log : Dealings} {body : MonitorBody} {a : MonitorAct} {w : MonitorWait} :
      Plays b log body (.ready (.act a w)) → a.passing = true →
      Plays b (.asks a :: log) body (.settled (.ok .null) w)
  | looks {log : Dealings} {body : MonitorBody} {w : MonitorWait} (stopped : Bool) :
      Plays b log body (.ready (.act .stopped w)) →
      Plays b (.finds stopped :: log) body (.settled (.ok (.bool stopped)) w)
  | obeys {log : Dealings} {body : MonitorBody} {w : MonitorWait} (order : Order) :
      Plays b log body (.ready (.act .listen w)) →
      Plays b (.asks .listen :: log) body (.ready (MonitorBody.obey order))
  | wakes {log : Dealings} {body : MonitorBody} {d : Duration} {w : MonitorWait} (stopped : Bool) :
      Plays b log body (.waits (.sleep d) w) →
      Plays b (.finds stopped :: log) body (.settled (.ok (.bool !stopped)) w)
  | takes {log : Dealings} {body : MonitorBody} {v : Value} {w : MonitorWait} :
      Plays b log body (.waits (.push v) w) →
      Plays b (.sinks v (.ok ()) :: log) body (.taken v w)
  | refuses {log : Dealings} {body : MonitorBody} {v : Value} {w : MonitorWait} (e : Error) :
      Plays b log body (.waits (.push v) w) →
      Plays b (.sinks v (.error e) :: log) body (.settled (.error e) w)
  | announces {log : Dealings} {body : MonitorBody} {v : Value} {w : MonitorWait} :
      Plays b log body (.taken v w) →
      Plays b (.announces v :: log) body (.settled (.ok .null) w)
  | answered {log : Dealings} {body : MonitorBody} {a : MonitorAct} {w : MonitorWait}
      (out : Outcome) : Plays b log body (.waits a w) → a.inquires = true →
      Plays b (.told w out :: log) (body.resume w out).1 (.ready (body.resume w out).2)
  | told {log : Dealings} {body : MonitorBody} {out : Outcome} {w : MonitorWait} :
      Plays b log body (.settled out w) →
      Plays b (.told w out :: log) (body.resume w out).1 (.ready (body.resume w out).2)
  | ends {log : Dealings} {body : MonitorBody} {d : Done} :
      Plays b log body (.ready (.finish d)) → Plays b (.ends d :: log) body .ended

namespace Deed

/-- A payload that a loop pulled. -/
@[simp] def pulled? : Deed → Option Value
  | .told .cycle (.ok v) => some v
  | _ => none

/-- A payload that a monitor tried to push. -/
@[simp] def attempted? : Deed → Option Value
  | .asks (.push v) => some v
  | _ => none

/-- A payload that the sink is through with. -/
@[simp] def sunk? : Deed → Option Value
  | .sinks v _ => some v
  | _ => none

/-- A payload that the sink took. -/
@[simp] def accepted? : Deed → Option Value
  | .sinks v (.ok ()) => some v
  | _ => none

@[simp] def announced? : Deed → Option Value
  | .announces v => some v
  | _ => none

@[simp] def reported? : Deed → Option Error
  | .asks (.report e) => some e
  | _ => none

@[simp] def exit? : Deed → Option ExitCondition
  | .asks (.reportExit c) => some c
  | _ => none

/-- Whether the monitor acts with a deed. -/
@[simp] def acts : Deed → Bool
  | asks _ | ends _ => true
  | _ => false

end Deed

/-! What a log tells of a loop. -/

namespace Dealings

variable {α : Type}

/-- What the deeds of a log have of something, in their order. -/
def collected (pick : Deed → Option α) (log : Dealings) : List α := (log.filterMap pick).reverse

def pulled (log : Dealings) : List Value := log.collected Deed.pulled?

def attempted (log : Dealings) : List Value := log.collected Deed.attempted?

def sunk (log : Dealings) : List Value := log.collected Deed.sunk?

def accepted (log : Dealings) : List Value := log.collected Deed.accepted?

def announced (log : Dealings) : List Value := log.collected Deed.announced?

def reported (log : Dealings) : List Error := log.collected Deed.reported?

def exits (log : Dealings) : List ExitCondition := log.collected Deed.exit?

/-- The failures of a loop: reads that failed, unless a stop of the flow had broken them off, and
payloads that the sink refused. -/
def failures : Dealings → List Error
  | [] => []
  | .finds true :: .told .cycle (.error (.interrupted _)) :: log => failures log
  | .told .cycle (.error e) :: log => failures log ++ [e]
  | .sinks _ (.error e) :: log => failures log ++ [e]
  | _ :: log => failures log

/-- Whether the monitor has acted on all that it was told. -/
def Idle (log : Dealings) : Prop := ∀ d ∈ log.head?, d.acts = true

variable (d : Deed) (log : Dealings)

theorem collected_cons (pick : Deed → Option α) :
    collected pick (d :: log) = collected pick log ++ (pick d).toList := by
  simp only [collected, List.filterMap_cons]
  cases pick d <;> simp

theorem mem_collected {pick : Deed → Option α} {log : Dealings} {x : α} :
    x ∈ collected pick log ↔ ∃ d ∈ log, pick d = some x := by
  rw [collected, List.mem_reverse, List.mem_filterMap]

@[simp] theorem pulled_cons : pulled (d :: log) = log.pulled ++ d.pulled?.toList :=
  collected_cons d log _

@[simp] theorem attempted_cons : attempted (d :: log) = log.attempted ++ d.attempted?.toList :=
  collected_cons d log _

@[simp] theorem sunk_cons : sunk (d :: log) = log.sunk ++ d.sunk?.toList := collected_cons d log _

@[simp] theorem accepted_cons : accepted (d :: log) = log.accepted ++ d.accepted?.toList :=
  collected_cons d log _

@[simp] theorem announced_cons : announced (d :: log) = log.announced ++ d.announced?.toList :=
  collected_cons d log _

@[simp] theorem reported_cons : reported (d :: log) = log.reported ++ d.reported?.toList :=
  collected_cons d log _

@[simp] theorem exits_cons : exits (d :: log) = log.exits ++ d.exit?.toList :=
  collected_cons d log _

end Dealings

namespace Plays

variable {b body : MonitorBody} {log : Dealings} {stand : Stand}

/-- A monitor asks for what it is about to do. -/
theorem of_asks {a : MonitorAct} (h : Plays b (.asks a :: log) body stand) :
    ∃ body' w, Plays b log body' (.ready (.act a w)) := by
  cases h with
  | asks hplays _ | passes hplays _ | obeys _ hplays => exact ⟨_, _, hplays⟩

theorem of_ends {d : Done} (h : Plays b (.ends d :: log) body stand) :
    Plays b log body (.ready (.finish d)) := by
  cases h with
  | ends hplays => exact hplays

/-- What was done before was done by the same monitor. -/
theorem of_append {later earlier : Dealings} (h : Plays b (later ++ earlier) body stand) :
    ∃ body' stand', Plays b earlier body' stand' := by
  induction later generalizing body stand with
  | nil => exact ⟨body, stand, h⟩
  | cons d later ih =>
      cases h <;> exact ih (by assumption)

end Plays
end PullFlow
