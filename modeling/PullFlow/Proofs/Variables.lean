import PullFlow.Proofs.Pipeline

/-!
The sinks of a flow that write variables. Such a sink asks for one write with each payload, and the
first one that succeeds claims the variable. Nothing else of a flow asks for a write, and nothing
else changes what a sink knows of its variable. While a tee waits for its write it is the nearest
of the waiting operators; those behind it wait for a value.
-/

namespace PullFlow

/-- What a sink knows of the variable that it writes: the name, whether it has claimed it, and the
scope it writes from. -/
structure Variable where
  name : String
  claimed : Bool
  scope : Option ScopeId

/-- What a sink knows once a write has come to an end. -/
def Variable.after (k : Variable) : Outcome → Variable
  | .ok _ => { k with claimed := true }
  | .error _ => k

/-- Whether a write is asked for. -/
def Request.writes : Request → Bool
  | .write .. => true
  | _ => false

/-- Whether a sink waits for the end of a write. -/
def SinkWait.writing : SinkWait → Bool
  | .written => true
  | _ => false

/-- The payload with which an operator waits for the end of a write. -/
def OperatorWait.writing? : OperatorWait → Option Value
  | .sink v .written => some v
  | _ => none

namespace SinkBody

def knows? : SinkBody → Option Variable
  | var name claimed scope => some ⟨name, claimed, scope⟩
  | _ => Option.none

/-- The request with which a sink writes a payload to its variable. -/
def Writes (b : SinkBody) (v : Value) (r : Request) : Prop :=
  ∃ k s, b.knows? = some k ∧ k.scope = some s ∧ r = .write s k.name v (!k.claimed)

variable {b : SinkBody} {v : Value} {r : Request} {wait wait' : SinkWait} {answer : Outcome}

@[simp] theorem knows?_perform (b : SinkBody) (v : Value) :
    (b.perform v).1.knows? = b.knows? := by
  cases b with
  | var name claimed scope => cases scope <;> rfl
  | _ => rfl

theorem perform_asks (h : (b.perform v).2 = .ask r wait) :
    wait.writing = true ∧ (b.perform v).1.Writes v r ∨ wait.writing = false ∧ r.writes = false := by
  cases b with
  | var name claimed scope =>
      cases scope with
      | none => cases h
      | some s =>
          cases h
          exact .inl ⟨rfl, _, s, rfl, rfl, rfl⟩
  | picky rejected => cases h
  | none | flow | abstract => cases h
  | print | file | recorder =>
      cases h
      exact .inr ⟨rfl, rfl⟩

theorem knows?_resume (b : SinkBody) (wait : SinkWait) (answer : Outcome) :
    (b.resume wait answer).1.knows? =
      if wait.writing then b.knows?.map (·.after answer) else b.knows? := by
  cases wait with
  | written =>
      cases b with
      | var name claimed scope => cases answer <;> rfl
      | _ => rfl
  | noted v =>
      cases b with
      | recorder r =>
          unfold resume
          dsimp only
          split <;> rfl
      | _ => rfl
  | answer | finished => rfl

theorem resume_asks (h : (b.resume wait answer).2 = .ask r wait') :
    wait'.writing = false ∧ r.writes = false := by
  unfold resume at h
  split at h
  · cases answer <;> cases h
  · split at h <;> cases h
    exact ⟨rfl, rfl⟩
  · cases h
  · cases h

/-- A sink whose write fails has failed with its payload and stays as it is. -/
theorem resume_written_error {k : Variable} (h : b.knows? = some k) (e : Error) :
    b.resume .written (.error e) = (b, .done (.error e)) := by
  cases b with
  | var name claimed scope => rfl
  | _ => cases h

end SinkBody

namespace OperatorBody

def knows? (b : OperatorBody) : Option Variable := b.tee?.bind (·.body.knows?)

/-- What an operator asks for: its tee writes a payload, or it is no write. -/
def Asks (b : OperatorBody) (r : Request) (wait : OperatorWait) : Prop :=
  (∃ sink v, b = .tee sink ∧ wait.writing? = some v ∧ sink.body.Writes v r) ∨
    wait.writing? = none ∧ r.writes = false

variable {b : OperatorBody} {v : Value} {r : Request} {wait wait' : OperatorWait}
  {answer : Outcome} {now : Nat} {above : String}

@[simp] theorem knows?_begin (b : OperatorBody) (now : Nat) (above : String) :
    (b.begin now above).1.knows? = b.knows? := by
  unfold begin
  split
  case h_2 => split <;> rfl
  all_goals rfl

theorem begin_asks (h : (b.begin now above).2 = .ask r wait) :
    wait.writing? = none ∧ r.writes = false := by
  unfold begin at h
  split at h
  case h_2 => split at h <;> cases h
  all_goals cases h
  exact ⟨rfl, rfl⟩

theorem begin_up (h : (b.begin now above).2 = .up wait) : wait.writing? = none := by
  unfold begin at h
  split at h
  case h_2 =>
    split at h <;> cases h
    rfl
  all_goals cases h
  all_goals rfl

/-- What a tee does once its sink has moved is what the sink does. -/
theorem afterSink_asks {sink : Sink} {m : SinkBody × SinkMove}
    (hm : ∀ r wait, m.2 = .ask r wait →
      wait.writing = true ∧ m.1.Writes v r ∨ wait.writing = false ∧ r.writes = false)
    (h : (afterSink sink v m).2 = .ask r wait) : (afterSink sink v m).1.Asks r wait := by
  obtain ⟨body, move⟩ := m
  cases move with
  | done d => cases h
  | ask request w =>
      cases h
      obtain ⟨hwaits, hwrites⟩ | ⟨hwaits, hplain⟩ := hm _ w rfl
      · cases w <;> cases hwaits
        exact .inl ⟨_, v, rfl, rfl, hwrites⟩
      · cases w with
        | written => cases hwaits
        | answer | noted | finished => exact .inr ⟨rfl, hplain⟩

@[simp] theorem knows?_afterSink (sink : Sink) (v : Value) (m : SinkBody × SinkMove) :
    (afterSink sink v m).1.knows? = m.1.knows? := by
  obtain ⟨body, move⟩ := m
  cases move <;> rfl

theorem knows?_receive (b : OperatorBody) (now : Nat) (v : Value) :
    (b.receive now v).1.knows? = b.knows? := by
  unfold receive
  split
  case h_7 sink =>
    rw [knows?_afterSink, SinkBody.knows?_perform]
    rfl
  case h_2 => split <;> rfl
  all_goals rfl

theorem nextCall_asks {mode : CallMode} {target : String} {callee : FlowId} {done rest : List Value}
    (h : nextCall mode target callee done rest = .ask r wait) :
    wait.writing? = none ∧ r.writes = false := by
  cases rest with
  | nil => cases h
  | cons item rest =>
      cases h
      cases mode <;> exact ⟨rfl, rfl⟩

theorem startCalls_asks {mode : CallMode} {target : String} {callee : Option FlowId}
    (h : startCalls mode target callee v = .ask r wait) :
    wait.writing? = none ∧ r.writes = false := by
  unfold startCalls at h
  split at h
  · cases h
  · split at h
    · cases h
      exact ⟨rfl, rfl⟩
    · split at h
      · cases h
      · exact nextCall_asks h

theorem receive_asks (h : (b.receive now v).2 = .ask r wait) : (b.receive now v).1.Asks r wait := by
  unfold receive at h ⊢
  split at h
  case h_7 sink => exact afterSink_asks (fun _ _ => SinkBody.perform_asks) h
  case h_8 => exact .inr (startCalls_asks h)
  case h_2 => split at h <;> cases h
  all_goals cases h

theorem receive_up (h : (b.receive now v).2 = .up wait) : wait.writing? = none := by
  unfold receive at h
  split at h
  case h_7 sink =>
    generalize sink.body.perform v = m at h
    obtain ⟨body, move⟩ := m
    cases move <;> cases h
  case h_8 mode target callee =>
    unfold startCalls at h
    split at h
    · cases h
    · split at h
      · cases h
      · split at h
        · cases h
        · unfold nextCall at h
          split at h <;> cases h
  case h_2 =>
    split at h <;> cases h
    rfl
  all_goals cases h

/-- What an operator knows of its variable changes with the end of a write only. -/
theorem knows?_resume (b : OperatorBody) (now : Nat) (wait : OperatorWait) (answer : Outcome) :
    (b.resume now wait answer).1.knows? =
      if wait.writing?.isSome then b.knows?.map (·.after answer) else b.knows? := by
  cases wait with
  | above =>
      cases answer with
      | ok v => exact knows?_receive b now v
      | error e => cases b <;> rfl
  | called => rfl
  | mapping done rest =>
      cases answer with
      | ok v =>
          cases b with
          | call mode target callee => cases callee <;> rfl
          | _ => rfl
      | error e => rfl
  | keeping kept item rest =>
      cases answer with
      | ok v =>
          cases b with
          | call mode target callee => cases callee <;> rfl
          | _ => rfl
      | error e => rfl
  | sink v w =>
      cases b with
      | tee sink =>
          change (afterSink sink v (sink.body.resume w answer)).1.knows? = _
          rw [knows?_afterSink, SinkBody.knows?_resume]
          cases w <;> rfl
      | _ => cases w <;> rfl
  | noted kind =>
      cases b with
      | recorder r =>
          unfold resume
          dsimp only
          split <;> rfl
      | _ => rfl
  | recorded kind =>
      cases answer with
      | ok v => cases b <;> rfl
      | error e => rfl

theorem resume_asks (h : (b.resume now wait answer).2 = .ask r wait') :
    (b.resume now wait answer).1.Asks r wait' := by
  cases wait with
  | above =>
      cases answer with
      | ok v => exact receive_asks h
      | error e => cases b <;> cases h
  | called => cases h
  | mapping done rest =>
      cases answer with
      | ok v =>
          cases b with
          | call mode target callee =>
              cases callee with
              | none => cases h
              | some callee => exact .inr (nextCall_asks h)
          | _ => cases h
      | error e => cases h
  | keeping kept item rest =>
      cases answer with
      | ok v =>
          cases b with
          | call mode target callee =>
              cases callee with
              | none => cases h
              | some callee => exact .inr (nextCall_asks h)
          | _ => cases h
      | error e => cases h
  | sink v w =>
      cases b with
      | tee sink =>
          refine afterSink_asks (fun _ _ hask => ?_) h
          exact .inr (SinkBody.resume_asks hask)
      | _ => cases h
  | noted kind =>
      cases b with
      | recorder r =>
          unfold resume at h
          dsimp only at h
          split at h <;> cases h
      | _ => cases h
  | recorded kind =>
      cases answer with
      | ok v => cases b <;> cases h
      | error e => cases h

theorem resume_up (h : (b.resume now wait answer).2 = .up wait') : wait'.writing? = none := by
  cases wait with
  | above =>
      cases answer with
      | ok v => exact receive_up h
      | error e => cases b <;> cases h
  | called => cases h
  | mapping done rest | keeping kept item rest =>
      cases answer with
      | ok v =>
          cases b with
          | call mode target callee =>
              cases callee with
              | none => cases h
              | some callee =>
                  cases rest <;> cases h
          | _ => cases h
      | error e => cases h
  | sink v w =>
      cases b with
      | tee sink =>
          change (afterSink sink v (sink.body.resume w answer)).2 = _ at h
          generalize sink.body.resume w answer = m at h
          obtain ⟨body, move⟩ := m
          cases move <;> cases h
      | _ => cases h
  | noted kind =>
      cases b with
      | recorder r =>
          unfold resume at h
          dsimp only at h
          split at h <;> cases h
          rfl
      | _ =>
          cases h
          rfl
  | recorded kind =>
      cases answer with
      | ok v => cases b <;> cases h
      | error e => cases h

end OperatorBody

namespace SourceBody

variable {b : SourceBody} {r : Request} {wait wait' : SourceWait} {answer : Outcome}

theorem scriptMove_asks {step : Value} (h : scriptMove step = .ask r wait) : r.writes = false := by
  unfold scriptMove at h
  split at h
  · split at h
    · cases h
    · split at h <;> cases h
    · cases h
      rfl
    · cases h
  · cases h

theorem begin_asks (h : b.begin.2 = .ask r wait) : r.writes = false := by
  unfold begin at h
  split at h
  case h_20 =>
    dsimp only at h
    split at h <;> cases h
    rfl
  case h_21 => exact scriptMove_asks h
  all_goals cases h
  all_goals rfl

theorem resume_asks (h : (b.resume wait answer).2 = .ask r wait') : r.writes = false := by
  unfold resume at h
  split at h
  · cases h
  · cases h
  · split at h
    · cases h
    · dsimp only at h
      split at h <;> cases h
      rfl
  · cases h

end SourceBody

namespace Chain

/-- What the operator at a position knows of its variable. -/
def knows? (c : Chain) (i : Nat) : Option Variable := (c.operators[i]?).bind (·.body.knows?)

/-- The write that a read waits for: the position of the tee, the payload, and what the tee knows. -/
def writing? (c : Chain) : PullPoint → Option (Nat × Value × Variable)
  | .asked =>
      match c.waiting with
      | (op, w) :: _ =>
          w.writing?.bind fun v => op.body.knows?.map fun k => (c.idle.length, v, k)
      | [] => none
  | _ => none

/-- The waiting operators that wait for a value. -/
def behind (c : Chain) : PullPoint → List (Operator × OperatorWait)
  | .asked => c.waiting.tail
  | _ => c.waiting

/-- No operator waits for a write but the nearest one, after it has asked for it. -/
def Lone (c : Chain) (p : PullPoint) : Prop := ∀ x ∈ c.behind p, x.2.writing? = none

variable {c : Chain} {op : Operator} {p : PullPoint}

theorem getElem?_middle {α : Type} (front : List α) (x y : α) (back : List α) (i : Nat) :
    (front ++ x :: back)[i]? = if i = front.length then some x else (front ++ y :: back)[i]? := by
  rcases Nat.lt_trichotomy i front.length with hlt | rfl | hgt
  · rw [if_neg (Nat.ne_of_lt hlt), List.getElem?_append_left hlt, List.getElem?_append_left hlt]
  · simp
  · rw [if_neg (Nat.ne_of_gt hgt), List.getElem?_append_right (Nat.le_of_lt hgt),
      List.getElem?_append_right (Nat.le_of_lt hgt)]
    obtain ⟨n, hn⟩ := Nat.exists_eq_succ_of_ne_zero (Nat.sub_ne_zero_of_lt hgt)
    rw [hn, List.getElem?_cons_succ, List.getElem?_cons_succ]

theorem knows?_afterOperator {before : Chain}
    (hbefore : before.operators = c.idle.reverse ++ op :: c.waiting.map (·.1))
    (m : OperatorBody × OperatorMove) (i : Nat) :
    (c.afterOperator op m).1.knows? i =
      if i = c.idle.length then m.1.knows? else before.knows? i := by
  rw [knows?, operators_afterOperator, getElem?_middle _ _ op, knows?, hbefore,
    List.length_reverse]
  split <;> rfl

/-- What a step of a read leaves behind: the operators wait as they should, and a write that is
asked for is that of the nearest one. -/
def Kept : Chain × PullMove → Prop
  | (c, .go p) => c.Lone p ∧ c.writing? p = none
  | (c, .ask r p) => c.Lone p ∧
      ((∃ i v k s, c.writing? p = some (i, v, k) ∧ k.scope = some s ∧
          r = .write s k.name v (!k.claimed)) ∨
        c.writing? p = none ∧ r.writes = false)
  | (c, .done _) => c.waiting = []

theorem kept_afterOperator (hwaiting : ∀ x ∈ c.waiting, x.2.writing? = none)
    {m : OperatorBody × OperatorMove} (hask : ∀ r w, m.2 = .ask r w → m.1.Asks r w)
    (hup : ∀ w, m.2 = .up w → w.writing? = none) : Kept (c.afterOperator op m) := by
  obtain ⟨body, move⟩ := m
  cases move with
  | reply out => exact ⟨hwaiting, rfl⟩
  | up w => exact ⟨List.forall_mem_cons.mpr ⟨hup w rfl, hwaiting⟩, rfl⟩
  | ask r w =>
      refine ⟨hwaiting, ?_⟩
      obtain ⟨sink, v, hbody, hwait, k, s, hk, hs, hr⟩ | ⟨hwait, hr⟩ := hask r w rfl
      · refine .inl ⟨c.idle.length, v, k, s, ?_, hs, hr⟩
        dsimp only at hbody
        simp [writing?, hwait, hbody, OperatorBody.knows?, OperatorBody.tee?, hk]
      · exact .inr ⟨by simp [writing?, hwait], hr⟩

theorem kept_afterSource (hwaiting : ∀ x ∈ c.waiting, x.2.writing? = none)
    {m : SourceBody × SourceMove} (hask : ∀ r w, m.2 = .ask r w → r.writes = false) :
    Kept (c.afterSource m) := by
  obtain ⟨body, move⟩ := m
  cases move with
  | reply out => exact ⟨hwaiting, rfl⟩
  | ask r w => exact ⟨hwaiting, .inr ⟨rfl, hask r w rfl⟩⟩

theorem knows?_afterSource (c : Chain) (m : SourceBody × SourceMove) (i : Nat) :
    (c.afterSource m).1.knows? i = c.knows? i := by
  obtain ⟨body, move⟩ := m
  cases move <;> rfl

/-- An outcome that comes down changes what the nearest waiting operator knows if that waits for a
write. -/
theorem deliver_writes (h : ∀ x ∈ c.waiting.tail, x.2.writing? = none) (now : Nat) (out : Outcome) :
    Kept (c.deliver now out) ∧ ∀ i, (c.deliver now out).1.knows? i =
      match c.writing? .asked with
      | some (j, _, k) => if i = j then some (k.after out) else c.knows? i
      | none => c.knows? i := by
  unfold deliver
  cases hwaiting : c.waiting with
  | nil => exact ⟨hwaiting, fun i => by simp [writing?, hwaiting]⟩
  | cons x waiting =>
      obtain ⟨op, w⟩ := x
      rw [hwaiting] at h
      have hbefore : c.operators = c.idle.reverse ++ op :: waiting.map (·.1) := by
        simp [operators, hwaiting]
      refine ⟨kept_afterOperator (c := { c with waiting := waiting }) h
        (fun _ _ => OperatorBody.resume_asks) fun _ => OperatorBody.resume_up, fun i => ?_⟩
      rw [knows?_afterOperator (c := { c with waiting := waiting }) hbefore,
        OperatorBody.knows?_resume]
      have hhere : c.knows? c.idle.length = op.body.knows? := by
        simp [knows?, hbefore]
      simp only [writing?, hwaiting]
      cases hw : w.writing? with
      | none =>
          by_cases hi : i = c.idle.length
          · subst hi
            simp [hhere]
          · simp [hi]
      | some v =>
          cases hk : op.body.knows? with
          | none =>
              rw [hk] at hhere
              by_cases hi : i = c.idle.length
              · subst hi
                simp [hhere]
              · simp [hi]
          | some k => simp

/-- What a step of a read does to the variables: only the end of the write that is waited for
changes what its tee knows. -/
theorem step_writes (h : c.Lone p) (now : Nat) (answer : Outcome) :
    Kept (c.step now p answer) ∧ ∀ i, (c.step now p answer).1.knows? i =
      match c.writing? p with
      | some (j, _, k) => if i = j then some (k.after answer) else c.knows? i
      | none => c.knows? i := by
  cases p with
  | enter =>
      rw [step, enter]
      cases hidle : c.idle with
      | nil => exact ⟨kept_afterSource h fun _ _ => SourceBody.begin_asks, knows?_afterSource c _⟩
      | cons op idle =>
          have hbefore : c.operators = idle.reverse ++ op :: c.waiting.map (·.1) := by
            simp [operators, hidle]
          dsimp only
          refine ⟨kept_afterOperator (c := { c with idle := idle }) h
            (fun _ _ hask => .inr (OperatorBody.begin_asks hask)) fun _ => OperatorBody.begin_up,
            fun i => ?_⟩
          rw [knows?_afterOperator (c := { c with idle := idle }) hbefore,
            OperatorBody.knows?_begin]
          by_cases hi : i = idle.length
          · subst hi
            simp [writing?, knows?, hbefore]
          · simp [writing?, hi]
  | source w => exact ⟨kept_afterSource h fun _ _ => SourceBody.resume_asks, knows?_afterSource c _⟩
  | asked => exact deliver_writes h now answer
  | reply out =>
      have hnone : c.writing? .asked = none := by
        cases hwaiting : c.waiting with
        | nil => simp [writing?, hwaiting]
        | cons x waiting => simp [writing?, hwaiting, h x (by simp [behind, hwaiting])]
      have hdeliver := deliver_writes (fun x hx => h x (List.mem_of_mem_tail hx)) now out
      rw [hnone] at hdeliver
      exact hdeliver

/-- A tee whose write fails passes the failure down and stays as it is. -/
theorem step_written_error {i : Nat} {v : Value} {k : Variable}
    (h : c.writing? p = some (i, v, k)) (now : Nat) (e : Error) :
    ∃ c' e', c.step now p (.error e) = (c', .go (.reply (.error e'))) ∧
      c'.operators = c.operators := by
  unfold writing? at h
  split at h
  · split at h
    · next op w waiting hwaiting =>
      obtain ⟨v', hw, h⟩ := Option.bind_eq_some_iff.mp h
      obtain ⟨k', hk, _⟩ := Option.map_eq_some_iff.mp h
      obtain ⟨sink, htee, hk⟩ := Option.bind_eq_some_iff.mp hk
      have hbody : op.body = .tee sink := by
        unfold OperatorBody.tee? at htee
        split at htee <;> cases htee
        assumption
      have hwritten : w = .sink v' .written := by
        unfold OperatorWait.writing? at hw
        split at hw <;> cases hw
        rfl
      have hresume : op.body.resume now w (.error e) =
          (.tee sink, .reply (.error (Error.relabel sink.kind e))) := by
        rw [hbody, hwritten]
        change OperatorBody.afterSink sink v' (sink.body.resume .written (.error e)) = _
        rw [SinkBody.resume_written_error hk]
        rfl
      refine ⟨{ c with idle := op :: c.idle, waiting := waiting },
        Error.relabel op.kind (Error.relabel sink.kind e), ?_, ?_⟩
      · rw [step, deliver, hwaiting]
        dsimp only
        rw [hresume, ← hbody]
        rfl
      · simp [operators, hwaiting]
    · cases h
  · cases h

end Chain

/-! What the moves of all components do to the variables. -/

namespace SinkBody

theorem knows?_start (sink : Sink) : sink.start.body.body.knows? = sink.body.knows? := by
  refine Component.start_keeps (P := fun b : SinkBody => b.knows? = _) rfl fun b hb => ?_
  rw [← hb]
  cases b <;> rfl

theorem knows?_stop (sink : Sink) : sink.stop.body.body.knows? = sink.body.knows? := by
  refine Component.stop_keeps (P := fun b : SinkBody => b.knows? = _) rfl fun b hb => ?_
  rw [← hb]
  cases b <;> rfl

end SinkBody

namespace OperatorBody

theorem knows?_start (op : Operator) : op.start.body.body.knows? = op.body.knows? := by
  refine Component.start_keeps (P := fun b : OperatorBody => b.knows? = _) rfl fun b hb => ?_
  rw [← hb]
  cases b with
  | tee sink => exact SinkBody.knows?_start sink
  | _ => rfl

theorem knows?_stop (op : Operator) : op.stop.body.body.knows? = op.body.knows? := by
  refine Component.stop_keeps (P := fun b : OperatorBody => b.knows? = _) rfl fun b hb => ?_
  rw [← hb]
  cases b with
  | tee sink => exact SinkBody.knows?_stop sink
  | _ => rfl

end OperatorBody

namespace HookEnd

variable {β γ : Type} {f : β → HookEnd β} {v : β → γ}

theorem map_each (hf : ∀ b, v (f b).body = v b) (items : List β) :
    (each f items).body.map v = items.map v := by
  induction items with
  | nil => rfl
  | cons item items ih =>
      unfold each
      dsimp only
      split
      · simp [hf]
      · simp [hf, ih]

theorem map_all (hf : ∀ b, v (f b).body = v b) (items : List β) :
    (all f items).body.map v = items.map v := by
  induction items with
  | nil => rfl
  | cons item items ih => simp [all, hf, ih]

end HookEnd

theorem Chain.knows?_congr {c c' : Chain}
    (h : c'.operators.map (·.body.knows?) = c.operators.map (·.body.knows?)) (i : Nat) :
    c'.knows? i = c.knows? i := by
  have hjoin (c : Chain) : c.knows? i = ((c.operators.map (·.body.knows?))[i]?).join := by
    rw [knows?, List.getElem?_map]
    cases c.operators[i]? <;> rfl
  rw [hjoin, hjoin, h]

namespace Pipeline

/-- What the sink at a seat knows of its variable. -/
def knows? (p : Pipeline) : Seat → Option Variable
  | .tee i => p.chain.knows? i
  | .terminal => p.sink.body.knows?

/-- The sinks know what they knew, and no more operators wait than before. -/
structure Upkept (p p' : Pipeline) : Prop where
  known : ∀ seat, p'.knows? seat = p.knows? seat
  waiting : p'.chain.waiting = p.chain.waiting ∨ p'.chain.waiting = []

variable {p p' p'' : Pipeline}

namespace Upkept

theorem refl (p : Pipeline) : Upkept p p := ⟨fun _ => rfl, .inl rfl⟩

theorem trans (h : Upkept p p') (h' : Upkept p' p'') : Upkept p p'' := by
  refine ⟨fun seat => (h'.known seat).trans (h.known seat), ?_⟩
  obtain hsame | hnone := h'.waiting
  · rw [hsame]
    exact h.waiting
  · exact .inr hnone

theorem onSource {f : Source → HookEnd Source} (p : Pipeline) : Upkept p (p.onSource f).body := by
  refine ⟨fun seat => ?_, .inl rfl⟩
  cases seat <;> rfl

theorem onOperators {f : List Operator → HookEnd (List Operator)} (p : Pipeline)
    (hf : ∀ ops, (f ops).body.map (·.body.knows?) = ops.map (·.body.knows?)) :
    Upkept p (p.onOperators f).body := by
  refine ⟨fun seat => ?_, .inr rfl⟩
  cases seat with
  | terminal => rfl
  | tee i =>
      refine Chain.knows?_congr ?_ i
      change (p.chain.withOperators (f p.chain.operators).body).operators.map _ = _
      rw [Holds.operators_withOperators]
      exact hf p.chain.operators

theorem onSink {f : Sink → HookEnd Sink} (p : Pipeline)
    (hf : ∀ sink, (f sink).body.body.knows? = sink.body.knows?) :
    Upkept p (p.onSink f).body := by
  refine ⟨fun seat => ?_, .inl rfl⟩
  cases seat with
  | terminal => exact hf p.sink
  | tee i => rfl

theorem start (p : Pipeline) : Upkept p p.start.body := by
  refine HookEnd.andThen_keeps (HookEnd.andThen_keeps ?_ fun q hq => ?_) fun q hq => ?_
  · exact .onSource p
  · exact hq.trans (.onOperators q (HookEnd.map_each OperatorBody.knows?_start))
  · exact hq.trans (.onSink q SinkBody.knows?_start)

theorem stop (p : Pipeline) : Upkept p p.stop.body := by
  have hsource : Upkept p (p.onSource Component.stop).body := .onSource p
  have hoperators := hsource.trans
    (.onOperators (f := HookEnd.all Component.stop) _ (HookEnd.map_all OperatorBody.knows?_stop))
  exact hoperators.trans (.onSink (f := Component.stop) _ SinkBody.knows?_stop)

end Upkept
end Pipeline
end PullFlow
